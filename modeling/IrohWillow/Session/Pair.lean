import IrohWillow.Session.HonestPeer

/-!
# Two honest reconcilers

Alfie and Betty run the reconciler on one target. Messages and static tokens
travel on two channels in each direction, in order; a message is on its way
from the moment in which it is in the log of its sender until its receiver has
processed it. The peers take their steps in any order.
-/

namespace IrohWillow

/-- The intersection that Alfie sees as `i`, as each peer sees it. -/
def AoiIntersection.seenBy (i : AoiIntersection) : Role → AoiIntersection
  | .alfie => i
  | .betty => i.mirror

theorem AoiIntersection.seenBy_peerId (i : AoiIntersection) (p : Role) :
    (i.seenBy p.other).peerId = (i.seenBy p).id := by
  cases p <;> rfl

@[simp] theorem AoiIntersection.seenBy_namespaceId (i : AoiIntersection) (p : Role) :
    (i.seenBy p).namespaceId = i.namespaceId := by
  cases p <;> rfl

@[simp] theorem AoiIntersection.seenBy_intersection (i : AoiIntersection) (p : Role) :
    (i.seenBy p).intersection = i.intersection := by
  cases p <;> rfl

/-- Two reconcilers and what each of them has received from the other. -/
structure Pair (σ : Type) [Meadowcap] where
  peer : Role → Reconciler σ
  /-- How many messages of the other peer it has processed. -/
  received : Role → Nat := fun _ => 0
  /-- How many tokens of the other peer it has bound. -/
  receivedTokens : Role → Nat := fun _ => 0
  /-- It has returned an error. -/
  failed : Role → Bool := fun _ => false

namespace Pair

open Reconciler

/-- What may happen. -/
inductive Action where
  /-- The peer takes the target from its inbox. -/
  | takeInput (p : Role)
  /-- The peer processes the next message of the other peer. -/
  | deliver (p : Role)
  /-- The peer binds the next token of the other peer. -/
  | deliverToken (p : Role)
  deriving DecidableEq, Repr

section Model

variable {σ : Type} [Meadowcap]

/-- All messages that the peer has sent. -/
def sent (s : Pair σ) (p : Role) : List Sent := (s.peer p).shared.sent

/-- The messages of the other peer that the peer has processed. -/
def delivered (s : Pair σ) (p : Role) : List Sent := (s.sent p.other).take (s.received p)

/-- The messages on their way to the peer. -/
def inFlight (s : Pair σ) (p : Role) : List Sent := (s.sent p.other).drop (s.received p)

/-- The peer has put out that the target is reconciled. -/
def Completed (i : AoiIntersection) (s : Pair σ) (p : Role) : Prop :=
  .reconciledArea i.namespaceId i.intersection ∈ (s.peer p).shared.outputs

/-- The two peers at the start. -/
def start (i : AoiIntersection) (store : Role → σ) (sessionId : SessionId)
    (maxEagerPayloadSize : Role → U64) : Pair σ :=
  { peer := fun p =>
      { shared :=
          { store := store p
            ourRole := p
            sessionId := sessionId
            maxEagerPayloadSize := maxEagerPayloadSize p }
        inbox := [i.seenBy p] } }

/-- The peer has returned from a call. -/
def update (s : Pair σ) (p : Role) (res : Except Failure Unit) (r : Reconciler σ) : Pair σ :=
  { s with
    peer := Function.update s.peer p r
    failed := Function.update s.failed p (match res with
      | .ok () => false
      | .error _ => true) }

theorem delivered_append_inFlight (s : Pair σ) (p : Role) :
    s.delivered p ++ s.inFlight p = s.sent p.other := List.take_append_drop _ _

theorem delivered_isPrefix (s : Pair σ) (p : Role) : s.delivered p <+: s.sent p.other :=
  List.take_prefix _ _

theorem opens_delivered_isPrefix (s : Pair σ) (p : Role) :
    opens (s.delivered p) <+: opens (s.sent p.other) := by
  rw [← delivered_append_inFlight, opens_append]
  exact List.prefix_append _ _

variable [WillowDataModel] [Storage σ]

/-- One step; `none` when the action is not possible. -/
def step (s : Pair σ) : Action → Option (Pair σ)
  | .takeInput p =>
      if s.failed p then none
      else (s.peer p).takeInput.map fun (res, r) => s.update p res r
  | .deliver p =>
      if s.failed p then none
      else
        match (s.sent p.other)[s.received p]? with
        | none => none
        | some x => ((s.peer p).receivedMessage x.message).map fun (res, r) =>
            { s.update p res r with
              received := Function.update s.received p (s.received p + 1) }
  | .deliverToken p =>
      match (s.peer p.other).shared.sentTokens[s.receivedTokens p]? with
      | none => none
      | some token =>
          let r := s.peer p
          let tokens := r.shared.staticTokens.bindTheirs token
          some { s with
            peer := Function.update s.peer p
              { r with shared := { r.shared with staticTokens := tokens } }
            receivedTokens := Function.update s.receivedTokens p (s.receivedTokens p + 1) }

variable {s s' : Pair σ} {p : Role}

theorem step_takeInput (h : step s (.takeInput p) = some s') :
    ∃ res r, s.failed p = false ∧ (s.peer p).takeInput = some (res, r) ∧
      s' = s.update p res r := by
  simp only [step] at h
  split at h
  · cases h
  · rename_i hfailed
    obtain ⟨⟨res, r⟩, hr, rfl⟩ := Option.map_eq_some_iff.mp h
    exact ⟨res, r, by simpa using hfailed, hr, rfl⟩

theorem step_deliver (h : step s (.deliver p) = some s') :
    ∃ x res r, s.failed p = false ∧ (s.sent p.other)[s.received p]? = some x ∧
      (s.peer p).receivedMessage x.message = some (res, r) ∧
      s' = { s.update p res r with
        received := Function.update s.received p (s.received p + 1) } := by
  simp only [step] at h
  split at h
  · cases h
  · rename_i hfailed
    split at h
    · cases h
    · rename_i x hx
      obtain ⟨⟨res, r⟩, hr, rfl⟩ := Option.map_eq_some_iff.mp h
      exact ⟨x, res, r, by simpa using hfailed, hx, hr, rfl⟩

theorem step_deliverToken (h : step s (.deliverToken p) = some s') :
    ∃ token, (s.peer p.other).shared.sentTokens[s.receivedTokens p]? = some token ∧
      s' = { s with
        peer := Function.update s.peer p { s.peer p with
          shared := { (s.peer p).shared with
            staticTokens := (s.peer p).shared.staticTokens.bindTheirs token } }
        receivedTokens := Function.update s.receivedTokens p (s.receivedTokens p + 1) } := by
  simp only [step] at h
  split at h
  · cases h
  · rename_i token htoken
    exact ⟨token, htoken, (Option.some.inj h).symm⟩

/-- Binding a token changes neither the stores nor the messages. -/
theorem deliverToken_frame (h : step s (.deliverToken p) = some s') :
    (∀ p', (s'.peer p').shared.store = (s.peer p').shared.store) ∧ s'.sent = s.sent ∧
      s'.received = s.received := by
  obtain ⟨token, -, rfl⟩ := step_deliverToken h
  refine ⟨Role.forall_of p ?_ ?_, funext (Role.forall_of p ?_ ?_), rfl⟩
  · simp
  · simp [Function.update_of_ne p.other_ne]
  · simp [sent]
  · simp [sent, Function.update_of_ne p.other_ne]

end Model

/-! ## The delivery of a message -/

section Delivery

variable {σ : Type} [Meadowcap] [Storage σ]

/-- A peer has processed the next message without an error. -/
structure Delivery (i : AoiIntersection) (s s' : Pair σ) (p : Role) (x : Sent) (rest : List Sent)
    (t t' : Target) (φ' : Phase) (new : List Sent) : Prop where
  next : s.inFlight p = x :: rest
  handled : Handled (i.seenBy p).id (s.peer p) (s'.peer p) x.message t t' φ' new
  peer_other : s'.peer p.other = s.peer p.other
  received_self : s'.received p = s.received p + 1
  received_other : s'.received p.other = s.received p.other
  receivedTokens : s'.receivedTokens = s.receivedTokens
  failed_self : s'.failed p = false
  failed_other : s'.failed p.other = s.failed p.other

variable {i : AoiIntersection} {s s' : Pair σ} {p : Role} {x : Sent} {rest : List Sent}
  {t t' : Target} {φ' : Phase} {new : List Sent}

theorem Delivery.sent_self (h : Delivery i s s' p x rest t t' φ' new) :
    s'.sent p = s.sent p ++ new := h.handled.sent

theorem Delivery.sent_other (h : Delivery i s s' p x rest t t' φ' new) :
    s'.sent p.other = s.sent p.other := by
  unfold sent
  rw [h.peer_other]

theorem Delivery.mem (h : Delivery i s s' p x rest t t' φ' new) : x ∈ s.sent p.other := by
  rw [← delivered_append_inFlight, h.next]
  simp

theorem Delivery.delivered_self (h : Delivery i s s' p x rest t t' φ' new) :
    s'.delivered p = s.delivered p ++ [x] := by
  have hget : (s.sent p.other)[s.received p]? = some x := by
    have := congrArg List.head? h.next
    rwa [inFlight, List.head?_drop] at this
  unfold delivered
  rw [h.sent_other, h.received_self, List.take_add_one, hget]
  rfl

theorem Delivery.inFlight_self (h : Delivery i s s' p x rest t t' φ' new) :
    s'.inFlight p = rest := by
  have := congrArg List.tail h.next
  rw [inFlight, List.tail_drop] at this
  unfold inFlight
  rw [h.sent_other, h.received_self]
  exact this

theorem Delivery.delivered_other (h : Delivery i s s' p x rest t t' φ' new)
    (hle : s.received p.other ≤ (s.sent p).length) :
    s'.delivered p.other = s.delivered p.other := by
  unfold delivered
  rw [Role.other_other, h.sent_self, h.received_other, List.take_append_of_le_length hle]

theorem Delivery.inFlight_other (h : Delivery i s s' p x rest t t' φ' new)
    (hle : s.received p.other ≤ (s.sent p).length) :
    s'.inFlight p.other = s.inFlight p.other ++ new := by
  unfold inFlight
  rw [Role.other_other, h.sent_self, h.received_other, List.drop_append_of_le_length hle]

end Delivery

end Pair

end IrohWillow
