import IrohWillow.Proto.DataModel

/-!
# The byte channel between the session and the network

`Inner` of `util/channel.rs`, the state behind a `Sender` or a `Writer` on one
end and a `Reader` or a `Receiver` on the other. A message is sent only when
all its bytes fit into the buffer and into the guarantees; otherwise the
sending task is parked.
-/

namespace IrohWillow

/-- A task that can be woken. -/
abbrev Waker := Nat

/-- `Poll`. -/
inductive Poll (α : Type) where
  | ready (value : α)
  | pending
  deriving DecidableEq, Repr

/-- `Encoder`; encoding does not fail. -/
class Encoder (T : Type) where
  encode : T → List Byte

/-- `DecodeOutcome`. -/
inductive DecodeOutcome (T : Type) where
  | needMoreData
  | decoded (item : T) (consumed : Nat)
  deriving DecidableEq, Repr

/-- The error of a decoder. -/
inductive DecodeError where
  | malformed
  deriving DecidableEq, Repr

/-- `Decoder`. -/
class Decoder (T : Type) where
  decodeFrom : List Byte → Except DecodeError (DecodeOutcome T)

/-- `Guarantees`. -/
inductive Guarantees where
  | unlimited
  | limited (amount : U64)
  deriving DecidableEq, Repr

namespace Guarantees

/-- `Guarantees::add`, which wraps around. -/
def add (g : Guarantees) (amount : U64) : Guarantees :=
  match g with
  | .unlimited => .unlimited
  | .limited current => .limited (current + amount)

/-- `Guarantees::get`. -/
def get : Guarantees → Nat
  | .unlimited => 2 ^ 64 - 1
  | .limited current => current.val

/-- `Guarantees::use`, which wraps around. -/
def use (g : Guarantees) (amount : Nat) : Guarantees :=
  match g with
  | .unlimited => .unlimited
  | .limited current => .limited (current - Fin.ofNat (2 ^ 64) amount)

end Guarantees

/-- `WriteError`. -/
inductive WriteError where
  | closed
  deriving DecidableEq, Repr

/-- `ReadError`. -/
inductive ReadError where
  | closedIncomplete
  | decode (error : DecodeError)
  deriving DecidableEq, Repr

/-- The error of a write to a closed channel. -/
inductive IoError where
  | brokenPipe
  deriving DecidableEq, Repr

/-- `Inner`. -/
structure Inner where
  buf : List Byte := []
  maxBufferSize : Nat
  writeWakers : List Waker := []
  readWakers : List Waker := []
  isClosed : Bool := false
  guarantees : Guarantees
  deriving DecidableEq

namespace Inner

/-- `Inner::remaining_write_capacity`. -/
def remainingWriteCapacity (c : Inner) : Nat :=
  min (c.maxBufferSize - c.buf.length) c.guarantees.get

/-- `Inner::wake_readable`. -/
def wakeReadable (c : Inner) : Inner := { c with readWakers := [] }

/-- `Inner::wake_writable`. -/
def wakeWritable (c : Inner) : Inner := { c with writeWakers := [] }

/-- `Inner::add_guarantees`. -/
def addGuarantees (c : Inner) (amount : U64) : Inner :=
  let c' := { c with guarantees := c.guarantees.add amount }
  if c.remainingWriteCapacity < c'.remainingWriteCapacity then c'.wakeWritable else c'

/-- `Inner::close`. -/
def close (c : Inner) : Inner := ({ c with isClosed := true }).wakeWritable.wakeReadable

/-- `Inner::poll_send_message` by the task `waker`. -/
def pollSendMessage {T : Type} [Encoder T] (c : Inner) (item : T) (waker : Waker) :
    Poll (Except WriteError Unit) × Inner :=
  if c.isClosed then (.ready (.error .closed), c)
  else
    let bytes := Encoder.encode item
    if c.remainingWriteCapacity < bytes.length then
      (.pending, { c with writeWakers := c.writeWakers ++ [waker] })
    else
      (.ready (.ok ()), ({ c with
        buf := c.buf ++ bytes
        guarantees := c.guarantees.use bytes.length }).wakeReadable)

/-- `Inner::poll_write` by the task `waker`: as many bytes as there is room
for. -/
def pollWrite (c : Inner) (bytes : List Byte) (waker : Waker) :
    Poll (Except IoError Nat) × Inner :=
  if c.isClosed then (.ready (.error .brokenPipe), c)
  else if c.remainingWriteCapacity = 0 then
    (.pending, { c with writeWakers := c.writeWakers ++ [waker] })
  else
    let len := min bytes.length c.remainingWriteCapacity
    (.ready (.ok len), ({ c with
      buf := c.buf ++ bytes.take len
      guarantees := c.guarantees.use len }).wakeReadable)

/-- `Inner::poll_recv_message` by the task `waker`. -/
def pollRecvMessage {T : Type} [Decoder T] (c : Inner) (waker : Waker) :
    Poll (Option (Except ReadError T)) × Inner :=
  if c.isClosed ∧ c.buf = [] then (.ready none, c)
  else
    match Decoder.decodeFrom (T := T) c.buf with
    | .error e => (.ready (some (.error (.decode e))), c)
    | .ok .needMoreData =>
        if c.isClosed then (.ready (some (.error .closedIncomplete)), c)
        else (.pending, { c with readWakers := c.readWakers ++ [waker] })
    | .ok (.decoded item consumed) =>
        (.ready (some (.ok item)), ({ c with buf := c.buf.drop consumed }).wakeWritable)

/-- `Inner::poll_read_bytes` by the task `waker`: all buffered bytes. -/
def pollReadBytes (c : Inner) (waker : Waker) : Poll (Option (List Byte)) × Inner :=
  if c.buf ≠ [] then (.ready (some c.buf), ({ c with buf := [] }).wakeWritable)
  else if c.isClosed then (.ready none, c)
  else (.pending, { c with readWakers := c.readWakers ++ [waker] })

/-- The message is taken now. -/
def Accepts {T : Type} [Encoder T] (c : Inner) (item : T) : Prop :=
  c.isClosed = false ∧ (Encoder.encode item).length ≤ c.remainingWriteCapacity

instance {T : Type} [Encoder T] (c : Inner) (item : T) : Decidable (c.Accepts item) :=
  inferInstanceAs (Decidable (_ ∧ _))

variable {T : Type} [Encoder T]

/-- What a poll for sending can do: fail on a closed channel, take the
message, or park the task. -/
theorem pollSendMessage_cases (c : Inner) (item : T) (waker : Waker) :
    (c.isClosed = true ∧ c.pollSendMessage item waker = (.ready (.error .closed), c)) ∨
    (c.Accepts item ∧ (c.pollSendMessage item waker).1 = .ready (.ok ()) ∧
      (c.pollSendMessage item waker).2.isClosed = false) ∨
    (c.isClosed = false ∧ ¬ c.Accepts item ∧ (c.pollSendMessage item waker).1 = .pending ∧
      (c.pollSendMessage item waker).2.isClosed = false) := by
  unfold pollSendMessage Accepts
  cases hclosed : c.isClosed with
  | true => exact Or.inl ⟨rfl, rfl⟩
  | false =>
      by_cases hcap : c.remainingWriteCapacity < (Encoder.encode item).length
      · refine Or.inr (Or.inr ⟨rfl, fun h => absurd h.2 (not_le.mpr hcap), ?_, ?_⟩)
        · simp [hcap]
        · simp [hcap]
      · refine Or.inr (Or.inl ⟨⟨rfl, not_lt.mp hcap⟩, ?_, ?_⟩)
        · simp [hcap]
        · simp [hcap, wakeReadable]

theorem isClosed_pollReadBytes (c : Inner) (waker : Waker) :
    (c.pollReadBytes waker).2.isClosed = c.isClosed := by
  unfold pollReadBytes
  split
  · rfl
  · split <;> rfl

theorem isClosed_addGuarantees (c : Inner) (amount : U64) :
    (c.addGuarantees amount).isClosed = c.isClosed := by
  simp only [addGuarantees]
  split <;> rfl

end Inner

end IrohWillow
