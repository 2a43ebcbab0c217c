import IrohWillow.Lib.Transition
import IrohWillow.Util.ChannelRuns

/-!
# One direction of a channel

`net.rs` joins the outbound channel of one peer to the inbound channel of the
other: `send_loop` moves bytes from the outbound channel to a QUIC stream, and
`recv_loop` moves chunks of the stream into the inbound channel. The stream is
a reliable queue of bytes that can be finished.

The bytes of all messages that were sent are, in order: the messages that were
received, the inbound buffer, the chunk that `recv_loop` is writing, the
stream, and the outbound buffer (`Inv.bytes`).
-/

namespace IrohWillow

open Transition LengthPrefixed

/-- `CHANNEL_CAP`. -/
def channelCap : Nat := 1024 * 64

/-- The two channels, the stream and the two loops between them, with the
messages that were sent and what the receiver has yielded. -/
structure Transport (M : Type) where
  outbound : Inner
  /-- The bytes in the stream, and whether `send_loop` has finished it. -/
  stream : List Byte := []
  finished : Bool := false
  /-- The rest of the chunk that `recv_loop` is writing, and whether the loop
  has ended. -/
  chunk : List Byte := []
  ended : Bool := false
  inbound : Inner
  sent : List M := []
  yielded : List (Option (Except ReadError M)) := []

namespace Transport

/-- A step of one of the tasks. -/
inductive Action (M : Type) where
  | send (item : M) (waker : Waker)
  | addGuarantees (amount : U64)
  | closeSender
  /-- `send_loop` polls `Reader::read_bytes`. -/
  | readBytes (waker : Waker)
  /-- `recv_loop` reads a chunk of `len` bytes from the stream. -/
  | readChunk (len : Nat)
  /-- `recv_loop` polls `Writer::poll_write` with the rest of its chunk. -/
  | write (waker : Waker)
  /-- `recv_loop` sees the end of the stream. -/
  | endOfStream
  | recv (waker : Waker)
  deriving DecidableEq

section Model

variable {M : Type} [Postcard M]

/-- One step; `none` when the task is not at that point. -/
def step (s : Transport M) : Action M → Option (Transport M)
  | .send item waker =>
      match s.outbound.pollSendMessage item waker with
      | (.ready (.ok ()), c) => some { s with outbound := c, sent := s.sent ++ [item] }
      | (.ready (.error _), c) => some { s with outbound := c }
      | (.pending, c) => some { s with outbound := c }
  | .addGuarantees amount => some { s with outbound := s.outbound.addGuarantees amount }
  | .closeSender => some { s with outbound := s.outbound.close }
  | .readBytes waker =>
      if s.finished then none
      else
        match s.outbound.pollReadBytes waker with
        | (.ready (some bytes), c) => some { s with outbound := c, stream := s.stream ++ bytes }
        | (.ready none, c) => some { s with outbound := c, finished := true }
        | (.pending, c) => some { s with outbound := c }
  | .readChunk len =>
      if s.ended = false ∧ s.chunk = [] ∧ 0 < len ∧ len ≤ s.inbound.maxBufferSize ∧
          len ≤ s.stream.length then
        some { s with chunk := s.stream.take len, stream := s.stream.drop len }
      else none
  | .write waker =>
      if s.ended = false ∧ s.chunk ≠ [] then
        match s.inbound.pollWrite s.chunk waker with
        | (.ready (.ok len), c) => some { s with inbound := c, chunk := s.chunk.drop len }
        -- the session has closed the channel: the loop breaks
        | (.ready (.error _), c) => some { s with inbound := c.close, chunk := [], ended := true }
        | (.pending, c) => some { s with inbound := c }
      else none
  | .endOfStream =>
      if s.ended = false ∧ s.chunk = [] ∧ s.stream = [] ∧ s.finished then
        some { s with inbound := s.inbound.close, ended := true }
      else none
  | .recv waker =>
      match s.inbound.pollRecvMessage (T := M) waker with
      | (.ready res, c) => some { s with inbound := c, yielded := s.yielded ++ [res] }
      | (.pending, c) => some { s with inbound := c }

/-- The state at the start. -/
def start (M : Type) (outCap inCap : Nat) (guarantees : Guarantees) : Transport M :=
  { outbound := { maxBufferSize := outCap, guarantees := guarantees }
    inbound := { maxBufferSize := inCap, guarantees := .unlimited } }

/-- The bytes of a list of messages. -/
def frames (l : List M) : List Byte := (l.map Encoder.encode).flatten

@[simp] theorem frames_nil : frames ([] : List M) = [] := rfl

theorem frames_cons (m : M) (l : List M) :
    frames (m :: l) = frame (Postcard.toIo m) ++ frames l := by
  rw [← Message.encode_eq]
  rfl

@[simp] theorem frames_append (l l' : List M) : frames (l ++ l') = frames l ++ frames l' := by
  simp [frames]

end Model

/-! ## Decoding a beginning of a list of messages -/

section Decoding

variable {M : Type} [Postcard M]

/-- The header of the frame holds its length. -/
def Framed (m : M) : Prop := (Postcard.toIo m).length < 2 ^ 32

/-- All bytes of the first message have come: it is decoded. -/
theorem decodeFrom_whole (hlaw : Postcard.RoundTrips M) {m : M} (hm : Framed m)
    {data rest : List Byte} (hdata : data <+: frame (Postcard.toIo m) ++ rest)
    (hlen : (frame (Postcard.toIo m)).length ≤ data.length) :
    Decoder.decodeFrom data = .ok (.decoded m (frame (Postcard.toIo m)).length) := by
  obtain ⟨tail, rfl⟩ : frame (Postcard.toIo m) <+: data :=
    List.prefix_of_prefix_length_le (List.prefix_append _ _) hdata hlen
  exact Message.decodeFrom_eq_decoded_iff.mpr ⟨_, cut_frame_append hm tail, hlaw m⟩

/-- Some bytes of the first message are missing: more data is needed. -/
theorem decodeFrom_part {m : M} (hm : Framed m) {data rest : List Byte}
    (hdata : data <+: frame (Postcard.toIo m) ++ rest)
    (hlen : data.length < (frame (Postcard.toIo m)).length) :
    Decoder.decodeFrom (T := M) data = .ok .needMoreData :=
  (Message.decodeFrom_eq_needMoreData_iff data).mpr (cut_eq_none_of_isPrefix hm hdata hlen)

end Decoding

/-! ## Every byte is somewhere -/

section Invariant

variable {M : Type} [Postcard M]

/-- The messages `got` were received, the bytes of `rest` are on their way, and
the receiver has seen the end `ends` times. -/
structure Progress (s : Transport M) (got rest : List M) (ends : Nat) : Prop where
  sent : s.sent = got ++ rest
  yielded : s.yielded = got.map (fun m => some (.ok m)) ++ List.replicate ends none
  done : 0 < ends → rest = [] ∧ s.ended = true
  bytes : frames rest = s.inbound.buf ++ (s.chunk ++ (s.stream ++ s.outbound.buf))

/-- The invariant of the transport. -/
structure Inv (outCap inCap : Nat) (s : Transport M) : Prop where
  outMax : s.outbound.maxBufferSize = outCap
  inMax : s.inbound.maxBufferSize = inCap
  outLen : s.outbound.buf.length ≤ outCap
  inLen : s.inbound.buf.length ≤ inCap
  framed : ∀ m ∈ s.sent, Framed m
  closed : s.inbound.isClosed = s.ended
  ended : s.ended = true → s.finished = true ∧ s.chunk = [] ∧ s.stream = []
  finished : s.finished = true → s.outbound.isClosed = true ∧ s.outbound.buf = []
  progress : ∃ got rest ends, Progress s got rest ends

theorem inv_start (outCap inCap : Nat) (guarantees : Guarantees) :
    Inv outCap inCap (start M outCap inCap guarantees) where
  outMax := rfl
  inMax := rfl
  outLen := Nat.zero_le _
  inLen := Nat.zero_le _
  framed := by simp [start]
  closed := rfl
  ended := by simp [start]
  finished := by simp [start]
  progress := ⟨[], [], 0, rfl, rfl, by simp, rfl⟩

variable {outCap inCap : Nat} {s s' : Transport M}

/-- A change of the outbound channel that keeps its bytes. -/
theorem Inv.setOutbound (h : Inv outCap inCap s) {c : Inner}
    (hmax : c.maxBufferSize = s.outbound.maxBufferSize) (hbuf : c.buf = s.outbound.buf)
    (hclosed : s.outbound.isClosed = true → c.isClosed = true) :
    Inv outCap inCap { s with outbound := c } := by
  obtain ⟨got, rest, ends, hp⟩ := h.progress
  refine ⟨hmax.trans h.outMax, h.inMax, ?_, h.inLen, h.framed, h.closed, h.ended, ?_, got, rest,
    ends, hp.sent, hp.yielded, hp.done, ?_⟩
  · rw [hbuf]
    exact h.outLen
  · intro hfinished
    obtain ⟨hc, hb⟩ := h.finished hfinished
    exact ⟨hclosed hc, hbuf.trans hb⟩
  · rw [hbuf]
    exact hp.bytes

/-- A change of the inbound channel that keeps its bytes. -/
theorem Inv.setInbound (h : Inv outCap inCap s) {c : Inner}
    (hmax : c.maxBufferSize = s.inbound.maxBufferSize) (hbuf : c.buf = s.inbound.buf)
    (hclosed : c.isClosed = s.inbound.isClosed) : Inv outCap inCap { s with inbound := c } := by
  obtain ⟨got, rest, ends, hp⟩ := h.progress
  refine ⟨h.outMax, hmax.trans h.inMax, h.outLen, ?_, h.framed, hclosed.trans h.closed, h.ended,
    h.finished, got, rest, ends, hp.sent, hp.yielded, hp.done, ?_⟩
  · rw [hbuf]
    exact h.inLen
  · rw [hbuf]
    exact hp.bytes

theorem Inv.send (h : Inv outCap inCap s) (hcap : outCap ≤ 2 ^ 32) {item : M} {waker : Waker}
    (hstep : s.step (.send item waker) = some s') : Inv outCap inCap s' := by
  simp only [step] at hstep
  rcases s.outbound.pollSendMessage_eq item waker with ⟨-, heq⟩ | ⟨-, -, heq⟩ | ⟨hopen, hfit, heq⟩
  · rw [heq] at hstep
    obtain rfl := Option.some.inj hstep
    exact h.setOutbound rfl rfl id
  · rw [heq] at hstep
    obtain rfl := Option.some.inj hstep
    exact h.setOutbound rfl rfl id
  · rw [heq] at hstep
    obtain rfl := Option.some.inj hstep
    obtain ⟨got, rest, ends, hp⟩ := h.progress
    have hroom : (Encoder.encode item).length ≤ outCap - s.outbound.buf.length := by
      rw [← h.outMax]
      exact hfit.trans (min_le_left _ _)
    have hfinished : s.finished = false := by
      by_contra hf
      have := (h.finished (by simpa using hf)).1
      rw [hopen] at this
      cases this
    have hended : s.ended = false := by
      by_contra he
      have := (h.ended (by simpa using he)).1
      rw [hfinished] at this
      cases this
    have hlen := Message.length_encode item
    have houtLen := h.outLen
    refine ⟨h.outMax, h.inMax, ?_, h.inLen, ?_, h.closed, h.ended, ?_, got, rest ++ [item], ends,
      ?_, hp.yielded, ?_, ?_⟩
    · show (s.outbound.buf ++ Encoder.encode item).length ≤ outCap
      rw [List.length_append]
      omega
    · intro m hm
      rcases List.mem_append.mp hm with hm | hm
      · exact h.framed m hm
      · obtain rfl := List.mem_singleton.mp hm
        have : (Postcard.toIo m).length + 4 = (Encoder.encode m).length := hlen.symm
        show (Postcard.toIo m).length < 2 ^ 32
        omega
    · intro hf
      exact absurd (hfinished.symm.trans hf) (by simp)
    · show s.sent ++ [item] = got ++ (rest ++ [item])
      rw [hp.sent, List.append_assoc]
    · intro hends
      exact absurd (hended.symm.trans (hp.done hends).2) (by simp)
    · rw [frames_append, hp.bytes]
      simp [frames]

theorem Inv.readBytes (h : Inv outCap inCap s) {waker : Waker}
    (hstep : s.step (.readBytes waker) = some s') : Inv outCap inCap s' := by
  simp only [step] at hstep
  split at hstep
  · cases hstep
  · rename_i hfinished
    rcases s.outbound.pollReadBytes_cases waker with ⟨-, heq⟩ | ⟨hbuf, hclosed, heq⟩ | ⟨-, -, heq⟩
    · rw [heq] at hstep
      obtain rfl := Option.some.inj hstep
      obtain ⟨got, rest, ends, hp⟩ := h.progress
      refine ⟨h.outMax, h.inMax, Nat.zero_le _, h.inLen, h.framed, h.closed, ?_, ?_, got, rest,
        ends, hp.sent, hp.yielded, hp.done, ?_⟩
      · intro he
        exact absurd (h.ended he).1 hfinished
      · intro hf
        exact absurd hf hfinished
      · rw [hp.bytes]
        simp
    · rw [heq] at hstep
      obtain rfl := Option.some.inj hstep
      obtain ⟨got, rest, ends, hp⟩ := h.progress
      exact ⟨h.outMax, h.inMax, h.outLen, h.inLen, h.framed, h.closed,
        fun he => ⟨rfl, (h.ended he).2⟩, fun _ => ⟨hclosed, hbuf⟩, got, rest, ends, hp.sent,
        hp.yielded, hp.done, hp.bytes⟩
    · rw [heq] at hstep
      obtain rfl := Option.some.inj hstep
      exact h.setOutbound rfl rfl id

theorem Inv.readChunk (h : Inv outCap inCap s) {len : Nat}
    (hstep : s.step (.readChunk len) = some s') : Inv outCap inCap s' := by
  simp only [step] at hstep
  split at hstep
  · rename_i hguard
    obtain ⟨hended, hchunk, -⟩ := hguard
    obtain rfl := Option.some.inj hstep
    obtain ⟨got, rest, ends, hp⟩ := h.progress
    refine ⟨h.outMax, h.inMax, h.outLen, h.inLen, h.framed, h.closed, ?_, h.finished, got, rest,
      ends, hp.sent, hp.yielded, hp.done, ?_⟩
    · intro he
      exact absurd (hended.symm.trans he) (by simp)
    · show frames rest = s.inbound.buf ++ (s.stream.take len ++ (s.stream.drop len ++ _))
      rw [hp.bytes, hchunk, ← List.append_assoc (s.stream.take len), List.take_append_drop]
      rfl
  · cases hstep

theorem Inv.write (h : Inv outCap inCap s) {waker : Waker}
    (hstep : s.step (.write waker) = some s') : Inv outCap inCap s' := by
  simp only [step] at hstep
  split at hstep
  · rename_i hguard
    obtain ⟨hended, -⟩ := hguard
    rcases s.inbound.pollWrite_cases s.chunk waker with ⟨hc, -⟩ | ⟨-, -, heq⟩ | ⟨-, -, len, hlen, heq⟩
    · -- only this loop closes the inbound channel
      rw [h.closed, hended] at hc
      cases hc
    · rw [heq] at hstep
      obtain rfl := Option.some.inj hstep
      exact h.setInbound rfl rfl rfl
    · rw [heq] at hstep
      obtain rfl := Option.some.inj hstep
      obtain ⟨got, rest, ends, hp⟩ := h.progress
      have hroom : len ≤ inCap - s.inbound.buf.length := by
        rw [← h.inMax, hlen]
        exact (min_le_right _ _).trans (min_le_left _ _)
      have hinLen := h.inLen
      refine ⟨h.outMax, h.inMax, h.outLen, ?_, h.framed, h.closed, ?_, h.finished, got, rest, ends,
        hp.sent, hp.yielded, hp.done, ?_⟩
      · show (s.inbound.buf ++ s.chunk.take len).length ≤ inCap
        rw [List.length_append, List.length_take]
        omega
      · intro he
        exact absurd (hended.symm.trans he) (by simp)
      · show frames rest = (s.inbound.buf ++ s.chunk.take len) ++ (s.chunk.drop len ++ _)
        rw [hp.bytes, List.append_assoc, ← List.append_assoc (s.chunk.take len),
          List.take_append_drop]
  · cases hstep

theorem Inv.endOfStream (h : Inv outCap inCap s) (hstep : s.step .endOfStream = some s') :
    Inv outCap inCap s' := by
  simp only [step] at hstep
  split at hstep
  · rename_i hguard
    obtain ⟨-, hchunk, hstream, hfinished⟩ := hguard
    obtain rfl := Option.some.inj hstep
    obtain ⟨got, rest, ends, hp⟩ := h.progress
    exact ⟨h.outMax, h.inMax, h.outLen, h.inLen, h.framed, rfl,
      fun _ => ⟨hfinished, hchunk, hstream⟩, h.finished, got, rest, ends, hp.sent, hp.yielded,
      fun hends => ⟨(hp.done hends).1, rfl⟩, hp.bytes⟩
  · cases hstep

/-! ## Receiving -/

/-- What the next poll of the receiver does: the next message, the end, or
waiting. It never fails. -/
theorem Inv.pollRecvMessage (hlaw : Postcard.RoundTrips M) (h : Inv outCap inCap s)
    {got rest : List M} {ends : Nat} (hp : Progress s got rest ends) (waker : Waker) :
    (rest = [] ∧ s.ended = true ∧
      s.inbound.pollRecvMessage (T := M) waker = (.ready none, s.inbound)) ∨
    (s.ended = false ∧ s.inbound.pollRecvMessage (T := M) waker =
      (.pending, { s.inbound with readWakers := s.inbound.readWakers ++ [waker] })) ∨
    (∃ m rest' buf, rest = m :: rest' ∧ s.inbound.buf = frame (Postcard.toIo m) ++ buf ∧
      s.inbound.pollRecvMessage (T := M) waker = (.ready (some (.ok m)),
        { s.inbound with buf := buf, writeWakers := [] })) := by
  have hdata : s.inbound.buf <+: frames rest := ⟨_, hp.bytes.symm⟩
  -- at the end of the stream all bytes are in the inbound buffer
  have hall : s.ended = true → s.inbound.buf = frames rest := by
    intro he
    obtain ⟨hfinished, hchunk, hstream⟩ := h.ended he
    rw [hp.bytes, hchunk, hstream, (h.finished hfinished).2]
    simp
  cases rest with
  | nil =>
      have hbuf : s.inbound.buf = [] := List.prefix_nil.mp hdata
      rcases s.inbound.pollRecvMessage_cases (M := M) waker with
        ⟨hc, -, heq⟩ | ⟨e, hd, -⟩ | ⟨-, hne, -, -⟩ | ⟨hc, -, heq⟩ | ⟨item, consumed, hd, -⟩
      · exact Or.inl ⟨rfl, h.closed ▸ hc, heq⟩
      · rw [hbuf] at hd
        cases hd
      · exact absurd hbuf hne
      · exact Or.inr (Or.inl ⟨h.closed ▸ hc, heq⟩)
      · rw [hbuf] at hd
        cases hd
  | cons m rest =>
      have hm : Framed m := h.framed m (by rw [hp.sent]; simp)
      rw [frames_cons] at hdata hall
      by_cases hlen : (frame (Postcard.toIo m)).length ≤ s.inbound.buf.length
      · have hdecode := decodeFrom_whole hlaw hm hdata hlen
        obtain ⟨buf, hbuf⟩ : frame (Postcard.toIo m) <+: s.inbound.buf :=
          List.prefix_of_prefix_length_le (List.prefix_append _ _) hdata hlen
        have hne : s.inbound.buf ≠ [] := by
          intro hnil
          rw [hnil] at hlen
          exact frame_ne_nil _ (List.length_eq_zero_iff.mp (Nat.le_zero.mp hlen))
        refine Or.inr (Or.inr ⟨m, rest, buf, rfl, hbuf.symm, ?_⟩)
        rcases s.inbound.pollRecvMessage_cases (M := M) waker with
          ⟨-, hnil, -⟩ | ⟨e, hd, -⟩ | ⟨-, -, hd, -⟩ | ⟨-, hd, -⟩ | ⟨item, consumed, hd, heq⟩
        · exact absurd hnil hne
        · rw [hdecode] at hd
          cases hd
        · rw [hdecode] at hd
          cases hd
        · rw [hdecode] at hd
          cases hd
        · rw [hdecode] at hd
          obtain ⟨rfl, rfl⟩ := DecodeOutcome.decoded.inj (Except.ok.inj hd)
          rw [heq, ← hbuf, List.drop_left]
      · have hdecode := decodeFrom_part hm hdata (not_le.mp hlen)
        have hopen : s.inbound.isClosed = false := by
          by_contra hc
          rw [hall (h.closed ▸ (by simpa using hc))] at hlen
          simp at hlen
        refine Or.inr (Or.inl ⟨h.closed ▸ hopen, ?_⟩)
        rcases s.inbound.pollRecvMessage_cases (M := M) waker with
          ⟨hc, -, -⟩ | ⟨e, hd, -⟩ | ⟨hc, -, -, -⟩ | ⟨-, -, heq⟩ | ⟨item, consumed, hd, -⟩
        · rw [hopen] at hc
          cases hc
        · rw [hdecode] at hd
          cases hd
        · rw [hopen] at hc
          cases hc
        · exact heq
        · rw [hdecode] at hd
          cases hd

theorem Inv.recv (hlaw : Postcard.RoundTrips M) (h : Inv outCap inCap s) {waker : Waker}
    (hstep : s.step (.recv waker) = some s') : Inv outCap inCap s' := by
  simp only [step] at hstep
  obtain ⟨got, rest, ends, hp⟩ := h.progress
  rcases h.pollRecvMessage hlaw hp waker with ⟨hrest, hended, heq⟩ | ⟨-, heq⟩ |
    ⟨m, rest', buf, hrest, hbuf, heq⟩
  · rw [heq] at hstep
    obtain rfl := Option.some.inj hstep
    refine ⟨h.outMax, h.inMax, h.outLen, h.inLen, h.framed, h.closed, h.ended, h.finished, got,
      rest, ends + 1, hp.sent, ?_, fun _ => ⟨hrest, hended⟩, hp.bytes⟩
    show s.yielded ++ [none] = _
    rw [hp.yielded, List.append_assoc, List.replicate_succ']
  · rw [heq] at hstep
    obtain rfl := Option.some.inj hstep
    exact h.setInbound rfl rfl rfl
  · rw [heq] at hstep
    obtain rfl := Option.some.inj hstep
    have hends : ends = 0 := by
      by_contra hne
      have := (hp.done (Nat.pos_of_ne_zero hne)).1
      rw [hrest] at this
      cases this
    have hinLen := h.inLen
    rw [hbuf, List.length_append] at hinLen
    refine ⟨h.outMax, h.inMax, h.outLen, ?_, h.framed, h.closed, h.ended, h.finished, got ++ [m],
      rest', 0, ?_, ?_, by simp, ?_⟩
    · show buf.length ≤ inCap
      omega
    · show s.sent = _
      rw [hp.sent, hrest, List.append_assoc]
      rfl
    · show s.yielded ++ [some (.ok m)] = _
      rw [hp.yielded, hends]
      simp
    · have hbytes := hp.bytes
      rw [hrest, frames_cons, hbuf, List.append_assoc] at hbytes
      exact List.append_cancel_left hbytes

theorem Inv.step (hlaw : Postcard.RoundTrips M) (hcap : outCap ≤ 2 ^ 32)
    (h : Inv outCap inCap s) {a : Action M} (hstep : s.step a = some s') :
    Inv outCap inCap s' := by
  cases a with
  | send item waker => exact h.send hcap hstep
  | addGuarantees amount =>
      obtain rfl := Option.some.inj hstep
      refine h.setOutbound ?_ ?_ ?_
      · simp only [Inner.addGuarantees]
        split <;> rfl
      · simp only [Inner.addGuarantees]
        split <;> rfl
      · intro hc
        rw [Inner.isClosed_addGuarantees]
        exact hc
  | closeSender =>
      obtain rfl := Option.some.inj hstep
      exact h.setOutbound rfl rfl fun _ => rfl
  | readBytes waker => exact h.readBytes hstep
  | readChunk len => exact h.readChunk hstep
  | write waker => exact h.write hstep
  | endOfStream => exact h.endOfStream hstep
  | recv waker => exact h.recv hlaw hstep

/-! ## Integrity -/

/-- The results of polling the receiver a number of times. -/
def polls (M : Type) [Postcard M] (waker : Waker) :
    Nat → Inner → List (Poll (Option (Except ReadError M)))
  | 0, _ => []
  | n + 1, c =>
      (c.pollRecvMessage waker).1 :: polls M waker n (c.pollRecvMessage (T := M) waker).2

/-- A number of results: messages as long as there are any, and then the
end. -/
def allThenEnd (rest : List M) (n : Nat) : List (Poll (Option (Except ReadError M))) :=
  (rest.map (fun m => Poll.ready (some (Except.ok m))) ++
    List.replicate n (Poll.ready none)).take n

omit [Postcard M] in
theorem allThenEnd_nil_succ (n : Nat) :
    allThenEnd ([] : List M) (n + 1) = .ready none :: allThenEnd [] n := by
  simp [allThenEnd, List.replicate_succ]

omit [Postcard M] in
theorem allThenEnd_cons_succ (m : M) (rest : List M) (n : Nat) :
    allThenEnd (m :: rest) (n + 1) = .ready (some (.ok m)) :: allThenEnd rest n := by
  have hlen : n ≤ (rest.map (fun m => Poll.ready (some (Except.ok (ε := ReadError) m))) ++
      List.replicate n (Poll.ready none)).length := by simp
  simp only [allThenEnd, List.map_cons, List.cons_append, List.take_succ_cons,
    List.replicate_succ']
  rw [← List.append_assoc, List.take_append_of_le_length hlen]

/-- A closed channel yields the messages in its buffer, and then the end. -/
theorem polls_of_closed (hlaw : Postcard.RoundTrips M) {rest : List M}
    (hframed : ∀ m ∈ rest, Framed m) (waker : Waker) (n : Nat) {c : Inner}
    (hclosed : c.isClosed = true) (hbuf : c.buf = frames rest) :
    polls M waker n c = allThenEnd rest n := by
  induction n generalizing rest c with
  | zero => rfl
  | succ n ih =>
      cases rest with
      | nil =>
          have hend : c.pollRecvMessage (T := M) waker = (.ready none, c) :=
            if_pos ⟨hclosed, hbuf⟩
          rw [polls, hend, ih hframed hclosed hbuf, allThenEnd_nil_succ]
      | cons m rest =>
          rw [frames_cons] at hbuf
          have hdata : c.buf <+: frame (Postcard.toIo m) ++ frames rest := by rw [hbuf]
          have hlen : (frame (Postcard.toIo m)).length ≤ c.buf.length := by
            rw [hbuf]
            simp
          have hdecode := decodeFrom_whole hlaw (hframed m List.mem_cons_self) hdata hlen
          have hnext : c.pollRecvMessage waker = (.ready (some (.ok m)),
              { c with buf := frames rest, writeWakers := [] }) := by
            unfold Inner.pollRecvMessage
            rw [if_neg (by rw [hbuf]; simp [frame_ne_nil]), hdecode]
            simp only [hbuf, List.drop_left, Inner.wakeWritable]
          have htail := ih (c := { c with buf := frames rest, writeWakers := [] })
            (fun m' hm' => hframed m' (List.mem_cons_of_mem _ hm')) hclosed rfl
          rw [polls, hnext, allThenEnd_cons_succ, htail]

/-- The sender has closed the channel, and all bytes have been delivered to the
receiver's end. -/
structure Delivered (s : Transport M) : Prop where
  closed : s.outbound.isClosed = true
  outbound : s.outbound.buf = []
  stream : s.stream = []
  chunk : s.chunk = []
  ended : s.ended = true

/-- **Transport integrity.** In every run the receiver has yielded the messages
`got`, which are the first ones that were sent, in order, and after them only
the end of the channel; once the sender has closed the channel and all bytes
are delivered, polling yields the rest of the messages and then the end. The
buffers never exceed their bounds. -/
theorem receiver_yields_sent_messages (hlaw : Postcard.RoundTrips M) {outCap inCap : Nat}
    (hcap : outCap ≤ 2 ^ 32) (guarantees : Guarantees) {s : Transport M}
    (hs : Reachable step (fun _ _ => True) (start M outCap inCap guarantees) s) :
    s.outbound.buf.length ≤ outCap ∧ s.inbound.buf.length ≤ inCap ∧
      ∃ got rest ends, s.sent = got ++ rest ∧
        s.yielded = got.map (fun m => some (.ok m)) ++ List.replicate ends none ∧
        (0 < ends → rest = []) ∧
        (s.Delivered → ∀ waker n, polls M waker n s.inbound = allThenEnd rest n) := by
  have h : Inv outCap inCap s :=
    hs.invariant (inv_start outCap inCap guarantees)
      fun _ _ _ hinv _ hstep => hinv.step hlaw hcap hstep
  obtain ⟨got, rest, ends, hp⟩ := h.progress
  refine ⟨h.outLen, h.inLen, got, rest, ends, hp.sent, hp.yielded, fun he => (hp.done he).1, ?_⟩
  intro hdelivered waker n
  refine polls_of_closed hlaw ?_ waker n (h.closed.trans hdelivered.ended) ?_
  · intro m hm
    exact h.framed m (by rw [hp.sent]; exact List.mem_append_right _ hm)
  · rw [hp.bytes, hdelivered.chunk, hdelivered.stream, hdelivered.outbound]
    simp

/-- Two messages through small buffers, the second one cut in two. -/
def Sample.actions : List (Action Message.Sample) :=
  [.send ⟨false⟩ 1, .readBytes 2, .send ⟨true⟩ 1, .readChunk 4, .write 3, .recv 4, .readBytes 2,
    .readChunk 5, .write 3, .recv 4, .write 3, .closeSender, .readChunk 3, .write 3, .readBytes 2,
    .endOfStream]

set_option maxRecDepth 4000 in
theorem receiver_yields_sent_messages_two :
    ∃ s, run step (start Message.Sample 8 8 .unlimited) Sample.actions = some s ∧ s.Delivered ∧
      polls Message.Sample 4 3 s.inbound = [.ready (some (.ok ⟨true⟩)), .ready none, .ready none] ∧
      s.outbound.buf.length ≤ 8 := by
  obtain ⟨s, hs⟩ : ∃ s, run step (start Message.Sample 8 8 .unlimited) Sample.actions = some s :=
    ⟨_, rfl⟩
  have hreach := Reachable.of_run_all hs
  have h := receiver_yields_sent_messages Message.Sample.roundTrips (by decide) .unlimited hreach
  refine ⟨s, hs, ?_, ?_, h.1⟩
  · obtain rfl := Option.some.inj hs
    exact ⟨rfl, rfl, rfl, rfl, rfl⟩
  · obtain rfl := Option.some.inj hs
    rfl

end Invariant

end Transport

end IrohWillow
