import IrohWillow.Lib.Transition
import IrohWillow.Proto.Meadowcap
import IrohWillow.Session.Resource

/-!
# Static tokens

`StaticTokens` of `session/static_tokens.rs`. A sender binds a token once and
then refers to it by its handle; the receiver binds the tokens in the order in
which they arrive. Two tasks of a session, the reconciler and the data sender,
share the map of bound tokens, and each of them binds a token first and then
waits until the channel takes the message.
-/

namespace IrohWillow

/-- `Inner` of `StaticTokens`. -/
structure StaticTokens where
  ours : ResourceMap StaticToken := {}
  theirs : ResourceMap StaticToken := {}

namespace StaticTokens

/-- `StaticTokens::bind_theirs`. -/
def bindTheirs (t : StaticTokens) (token : StaticToken) : StaticTokens :=
  { t with theirs := (t.theirs.bind token).2 }

/-- The first half of `StaticTokens::bind_and_send_ours`: the handle, and
whether a `SetupBindStaticToken` message has to be sent. -/
def bindOurs (t : StaticTokens) (token : StaticToken) : (Nat × Bool) × StaticTokens :=
  let (res, ours) := t.ours.bindIfNew token
  (res, { t with ours := ours })

/-- `StaticTokens::authorise_entry_eventually`: pending until the handle is
bound, then `none` when the token does not authorise the entry. -/
def authoriseEntryEventually [Meadowcap] (t : StaticTokens) (entry : Entry)
    (staticTokenHandle : Nat) (dynamicToken : DynamicToken) : Poll (Option AuthorisedEntry) :=
  match t.theirs.tryGet staticTokenHandle with
  | none => .pending
  | some staticToken => .ready (AuthorisedEntry.new entry ⟨staticToken, dynamicToken⟩)

/-- An entry is authorised by the token bound under the handle, together with
the dynamic token. -/
theorem authoriseEntryEventually_ready [Meadowcap] {t : StaticTokens} {entry : Entry}
    {handle : Nat} {dynamicToken : DynamicToken} {a : AuthorisedEntry}
    (h : t.authoriseEntryEventually entry handle dynamicToken = .ready (some a)) :
    t.theirs.tryGet handle = some a.token.capability ∧ a.entry = entry ∧
      a.token.signature = dynamicToken := by
  unfold authoriseEntryEventually at h
  split at h
  · cases h
  · rename_i token htoken
    obtain ⟨hentry, ha⟩ := AuthorisedEntry.new_eq_some (Poll.ready.inj h)
    rw [ha, htoken]
    exact ⟨rfl, hentry, rfl⟩

end StaticTokens

/-! ## Two tasks, one channel, one receiver -/

namespace TokenExchange

/-- The tasks that call `bind_and_send_ours`. -/
inductive Task where
  | reconciler
  | dataSender
  deriving DecidableEq, Repr

/-- The other task. -/
def Task.other : Task → Task
  | .reconciler => .dataSender
  | .dataSender => .reconciler

/-- The task as a waker. -/
def Task.waker : Task → Waker
  | .reconciler => 0
  | .dataSender => 1

/-- Where a task is in `bind_and_send_ours`. -/
inductive Progress where
  /-- Not inside a call. -/
  | idle
  /-- The token is bound under the handle and waits for the channel. -/
  | sending (handle : Nat) (token : StaticToken)
  /-- The call failed on the closed channel, and the task is gone. -/
  | failed
  deriving DecidableEq

/-- The task waits for the channel. -/
def Progress.IsSending : Progress → Prop
  | .sending _ _ => True
  | _ => False

instance : (p : Progress) → Decidable p.IsSending
  | .sending _ _ => isTrue trivial
  | .idle => isFalse not_false
  | .failed => isFalse not_false

/-- The sender's side, the messages on their way, and the receiver's side. -/
structure State where
  sender : StaticTokens := {}
  progress : Task → Progress := fun _ => .idle
  channel : Inner
  /-- The messages whose bytes are in the buffer of the channel. -/
  buffered : List StaticToken := []
  /-- The messages that the network has taken. -/
  network : List StaticToken := []
  receiver : StaticTokens := {}
  /-- The calls that returned, with the handles they returned. -/
  returned : List (Nat × StaticToken) := []

/-- What may happen. -/
inductive Action where
  /-- The task calls `bind_and_send_ours`. -/
  | call (task : Task) (token : StaticToken)
  /-- The task is polled again in the middle of the call. -/
  | poll (task : Task)
  /-- The network reads what is buffered. -/
  | drain
  /-- The peer issues guarantees. -/
  | addGuarantees (amount : U64)
  | close
  /-- The receiver takes the next message and binds its token. -/
  | deliver
  deriving DecidableEq

variable [Encoder StaticToken]

/-- Poll the channel for the token that a task has bound. -/
def pollSend (s : State) (task : Task) (handle : Nat) (token : StaticToken) : State :=
  match s.channel.pollSendMessage token task.waker with
  | (.pending, channel) =>
      { s with
        channel := channel
        progress := Function.update s.progress task (.sending handle token) }
  | (.ready (.ok ()), channel) =>
      { s with
        channel := channel
        progress := Function.update s.progress task .idle
        buffered := s.buffered ++ [token]
        returned := s.returned ++ [(handle, token)] }
  | (.ready (.error .closed), channel) =>
      { s with channel := channel, progress := Function.update s.progress task .failed }

/-- One step; `none` when the action is not possible. -/
def step (s : State) : Action → Option State
  | .call task token =>
      match s.progress task with
      | .idle =>
          let ((handle, isNew), sender) := s.sender.bindOurs token
          let s := { s with sender := sender }
          if isNew then some (pollSend s task handle token)
          else some { s with returned := s.returned ++ [(handle, token)] }
      | _ => none
  | .poll task =>
      match s.progress task with
      | .sending handle token => some (pollSend s task handle token)
      | _ => none
  | .drain =>
      some { s with
        channel := (s.channel.pollReadBytes 2).2
        buffered := []
        network := s.network ++ s.buffered }
  | .addGuarantees amount => some { s with channel := s.channel.addGuarantees amount }
  | .close => some { s with channel := s.channel.close }
  | .deliver =>
      match s.network with
      | [] => none
      | token :: rest => some { s with network := rest, receiver := s.receiver.bindTheirs token }

end TokenExchange

end IrohWillow
