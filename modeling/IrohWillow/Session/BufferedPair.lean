import IrohWillow.Session.ReconcilerRun

/-!
# Two reconcilers on bounded channels

The reconciler is one task. While it sends what a call has to send, it does not
read, and `ChannelSenders::send` waits until the message fits into the channel
as a whole. Here two reconcilers are connected by a channel of a fixed capacity
in each direction. A message takes up its size from the moment in which it is
written until the other peer processes it. A peer takes an intersection or
processes a message only after it has written all messages of its last call.

* `Fits`: what a peer has sent or is about to send, and what the other peer has
  not read yet, fits into its channel, so that it cannot be blocked;
* `deadlock_iff_not_roomy`: the peers never block each other as long as every
  call leaves one of them with enough room, and a call that does not leads to a
  deadlock.
-/

namespace IrohWillow

/-- Two reconcilers and the channels between them. -/
structure BufferedPair (σ : Type) [Meadowcap] where
  peer : Role → ReconcilerRun σ
  /-- How many messages of the other peer it has processed. -/
  received : Role → Nat := fun _ => 0
  /-- How many tokens of the other peer it has bound. -/
  receivedTokens : Role → Nat := fun _ => 0
  /-- How many of its messages it has written to its channel. -/
  written : Role → Nat := fun _ => 0

namespace BufferedPair

open Reconciler Transition

/-- What may happen. -/
inductive Action (σ : Type) where
  /-- The reconciler takes an intersection from its inbox. -/
  | takeInput (p : Role)
  /-- The reconciler processes the next message of the other peer. -/
  | deliver (p : Role)
  /-- The reconciler is resumed after an output. -/
  | resume (p : Role)
  /-- The peer binds the next token of the other peer. -/
  | deliverToken (p : Role)
  /-- The reconciler writes the next message of its call to the channel. -/
  | write (p : Role)
  /-- An intersection is sent into the inbox. -/
  | sendInput (p : Role) (intersection : AoiIntersection)
  /-- The inbox is closed. -/
  | closeInbox (p : Role)
  /-- The data sender binds a static token. -/
  | bindOurs (p : Role) (token : StaticToken)
  /-- The store is changed by others. -/
  | setStore (p : Role) (store : σ)

section Model

variable {σ : Type} [Meadowcap]

/-- All messages of the calls that the peer has made. -/
def sent (s : BufferedPair σ) (p : Role) : List Sent := (s.peer p).reconciler.shared.sent

/-- The messages of the peer that the other one has not processed. -/
def unread (s : BufferedPair σ) (p : Role) : List Sent := (s.sent p).drop (s.received p.other)

/-- The messages that take up room in the channel of the peer. -/
def inFlight (s : BufferedPair σ) (p : Role) : List Sent :=
  ((s.sent p).take (s.written p)).drop (s.received p.other)

/-- The last call has written all its messages. -/
def Idle (s : BufferedPair σ) (p : Role) : Prop := s.written p = (s.sent p).length

instance (s : BufferedPair σ) (p : Role) : Decidable (s.Idle p) :=
  inferInstanceAs (Decidable (_ = _))

/-- The state of a peer has changed. -/
def setPeer (s : BufferedPair σ) (p : Role) (peer : ReconcilerRun σ) : BufferedPair σ :=
  { s with peer := Function.update s.peer p peer }

/-- Two sessions at their start. -/
def start (store : Role → σ) (sessionId : SessionId) (maxEagerPayloadSize : Role → U64) :
    BufferedPair σ :=
  { peer := fun p => ReconcilerRun.start (store p) p sessionId (maxEagerPayloadSize p) }

variable (size : ReconciliationMessage → Nat)

/-- The room that messages take up. -/
def bytes (l : List Sent) : Nat := (l.map fun x => size x.message).sum

variable (capacity : Role → Nat)

/-- The peer is inside of `send` with a message that does not fit. -/
def Blocked (s : BufferedPair σ) (p : Role) : Prop :=
  ∃ x, (s.sent p)[s.written p]? = some x ∧
    capacity p < bytes size (s.inFlight p) + size x.message

/-- Both peers are blocked. Neither of them reads what the other one has
sent. -/
def Deadlock (s : BufferedPair σ) : Prop := ∀ p, Blocked size capacity s p

/-- All that the other peer has not read fits into the channel. -/
def Fits (s : BufferedPair σ) (p : Role) : Prop := bytes size (s.unread p) ≤ capacity p

variable [WillowDataModel] [Storage σ] (session : Role → List AoiIntersection)

/-- One step; `none` when the action is not possible. -/
def step (s : BufferedPair σ) : Action σ → Option (BufferedPair σ)
  | .takeInput p =>
      if s.Idle p then
        (ReconcilerRun.step (session p) (s.peer p) .takeInput).map (s.setPeer p)
      else none
  | .deliver p =>
      if s.Idle p ∧ s.received p < s.written p.other then
        match (s.sent p.other)[s.received p]? with
        | none => none
        | some x =>
            (ReconcilerRun.step (session p) (s.peer p) (.message x.message)).map fun peer =>
              { s.setPeer p peer with
                received := Function.update s.received p (s.received p + 1) }
      else none
  | .resume p =>
      if s.Idle p then
        (ReconcilerRun.step (session p) (s.peer p) .resume).map (s.setPeer p)
      else none
  | .deliverToken p =>
      match (s.peer p.other).reconciler.shared.sentTokens[s.receivedTokens p]? with
      | none => none
      | some token =>
          (ReconcilerRun.step (session p) (s.peer p) (.bindTheirs token)).map fun peer =>
            { s.setPeer p peer with
              receivedTokens := Function.update s.receivedTokens p (s.receivedTokens p + 1) }
  | .write p =>
      match (s.sent p)[s.written p]? with
      | none => none
      | some x =>
          if bytes size (s.inFlight p) + size x.message ≤ capacity p then
            some { s with written := Function.update s.written p (s.written p + 1) }
          else none
  | .sendInput p i =>
      (ReconcilerRun.step (session p) (s.peer p) (.sendInput i)).map (s.setPeer p)
  | .closeInbox p => (ReconcilerRun.step (session p) (s.peer p) .closeInbox).map (s.setPeer p)
  | .bindOurs p token =>
      (ReconcilerRun.step (session p) (s.peer p) (.bindOurs token)).map (s.setPeer p)
  | .setStore p store =>
      (ReconcilerRun.step (session p) (s.peer p) (.write store)).map (s.setPeer p)

/-- The messages that a call of a reconciler has to send. -/
def answer (session : List AoiIntersection) (peer : ReconcilerRun σ)
    (action : ReconcilerRun.Action σ) : List Sent :=
  match ReconcilerRun.step session peer action with
  | none => []
  | some peer' => peer'.reconciler.shared.sent.drop peer.reconciler.shared.sent.length

/-- When a call begins, all that it has to send fits into the free part of the
channel, or all that the other peer still has to send fits into its own. -/
def Roomy (s : BufferedPair σ) : Action σ → Prop
  | .takeInput p =>
      bytes size (s.unread p) + bytes size (answer (session p) (s.peer p) .takeInput) ≤
          capacity p ∨
        bytes size (s.unread p.other) ≤ capacity p.other
  | .deliver p =>
      match s.unread p.other with
      | [] => True
      | x :: rest =>
          bytes size (s.unread p) +
              bytes size (answer (session p) (s.peer p) (.message x.message)) ≤ capacity p ∨
            bytes size rest ≤ capacity p.other
  | _ => True

instance (s : BufferedPair σ) (a : Action σ) : Decidable (Roomy size capacity session s a) :=
  match a with
  | .takeInput _ => inferInstanceAs (Decidable (_ ∨ _))
  | .deliver p => by
      unfold Roomy
      dsimp only
      split <;> infer_instance
  | .resume _ => isTrue trivial
  | .deliverToken _ => isTrue trivial
  | .write _ => isTrue trivial
  | .sendInput _ _ => isTrue trivial
  | .closeInbox _ => isTrue trivial
  | .bindOurs _ _ => isTrue trivial
  | .setStore _ _ => isTrue trivial

end Model

end BufferedPair

/-! ## Calls append to the log -/

namespace Reconciler

section Model

variable {σ : Type} [Meadowcap] [Storage σ]

theorem receivedMessage_sent {r r' : Reconciler σ} {m : ReconciliationMessage}
    {res : Except Failure Unit} (h : r.receivedMessage m = some (res, r')) :
    ∃ new, r'.shared.sent = r.shared.sent ++ new := by
  cases m with
  | sendFingerprint m =>
      rcases receivedMessage_sendFingerprint h with ⟨e, -, rfl⟩ | ⟨t, -, heq⟩
      · exact ⟨[], by simp⟩
      · obtain rfl := congrArg Prod.snd heq
        obtain ⟨outputs, hshared⟩ := (finishTarget_spec r m.handles
          (t.receivedSendFingerprint r.shared m)).1
        rw [hshared]
        unfold Target.receivedSendFingerprint
        split
        · exact ⟨[], by simp⟩
        · rename_i t₁ _
          rcases answerFingerprint_spec r.shared t₁.nextRangeCountTheirs.2 m
            t₁.nextRangeCountTheirs.1 with ⟨e, heq⟩ | ⟨ours, new, -, hemits, -⟩
          · dsimp only
            rw [heq]
            exact ⟨[], by simp⟩
          · exact ⟨new, hemits.sent⟩
  | announceEntries m =>
      rcases receivedMessage_announceEntries h with ⟨e, -, rfl⟩ | ⟨r₁, hr₁, hcases⟩
      · exact ⟨[], by simp⟩
      · obtain ⟨-, rfl⟩ := entryStateAnnounce_ok hr₁
        rcases hcases with ⟨e, -, rfl⟩ | ⟨t, -, heq⟩
        · exact ⟨[], by simp⟩
        · obtain rfl := congrArg Prod.snd heq
          obtain ⟨outputs, hshared⟩ := (finishTarget_spec { r with
            entryState := if m.isEmpty then none else some { target := m.handles } } m.handles
            (t.receivedAnnounceEntries r.shared m)).1
          rw [hshared]
          unfold Target.receivedAnnounceEntries
          split
          · exact ⟨[], by simp⟩
          · rename_i t₁ _
            split
            · obtain ⟨new, hemits, -⟩ := announceAndSendEntries_spec r.shared
                t₁.nextRangeCountTheirs.2 m.range false (some t₁.nextRangeCountTheirs.1) false
              exact ⟨new, hemits.sent⟩
            · exact ⟨[], by simp⟩
  | sendEntry _ => exact ⟨[], by simp [(receivedMessage_silent h (by simp) (by simp)).sent]⟩
  | sendPayload _ => exact ⟨[], by simp [(receivedMessage_silent h (by simp) (by simp)).sent]⟩
  | terminatePayload _ => exact ⟨[], by simp [(receivedMessage_silent h (by simp) (by simp)).sent]⟩

theorem takeInput_sent [WillowDataModel] {r r' : Reconciler σ} {res : Except Failure Unit}
    (h : r.takeInput = some (res, r')) : ∃ new, r'.shared.sent = r.shared.sent ++ new := by
  obtain ⟨i, inbox, -, ⟨e, -, rfl⟩ | ⟨t, sh, hinit, -, rfl⟩⟩ := takeInput_cases h
  · exact ⟨[], by simp⟩
  · rcases init_cases r.shared i with ⟨e, heq⟩ | heq | ⟨range, fp, -, -, -, heq⟩
    · rw [heq] at hinit
      cases (Prod.mk.inj hinit).1
    · rw [heq] at hinit
      obtain ⟨-, rfl⟩ := Prod.mk.inj hinit
      exact ⟨[], by simp⟩
    · rw [heq] at hinit
      obtain ⟨-, rfl⟩ := Prod.mk.inj hinit
      exact ⟨_, rfl⟩

end Model

end Reconciler

namespace BufferedPair

open Reconciler Transition

section Model

variable {σ : Type} [Meadowcap] [WillowDataModel] [Storage σ]

/-- Only the two calls of the run loop send messages. -/
theorem sent_of_quiet {session : List AoiIntersection} {peer peer' : ReconcilerRun σ}
    {a : ReconcilerRun.Action σ} (h : ReconcilerRun.step session peer a = some peer')
    (htake : a ≠ .takeInput) (hmessage : ∀ m, a ≠ .message m) :
    peer'.reconciler.shared.sent = peer.reconciler.shared.sent := by
  cases a with
  | sendInput i =>
      simp only [ReconcilerRun.step] at h
      split at h
      · obtain rfl := Option.some.inj h
        rfl
      · cases h
  | closeInbox =>
      obtain rfl := Option.some.inj h
      rfl
  | takeInput => exact absurd rfl htake
  | message m => exact absurd rfl (hmessage m)
  | resume =>
      simp only [ReconcilerRun.step] at h
      split at h
      · obtain rfl := Option.some.inj h
        rfl
      · cases h
  | bindTheirs token =>
      obtain rfl := Option.some.inj h
      rfl
  | bindOurs token =>
      obtain rfl := Option.some.inj h
      obtain ⟨hemits, -⟩ := bindAndSendOurs_spec (P := fun _ => False)
        peer.reconciler.shared token
      exact hemits.sent.trans (List.append_nil _)
  | write store =>
      obtain rfl := Option.some.inj h
      rfl

/-- Every step of a reconciler appends its answer to the log. -/
theorem step_sent {session : List AoiIntersection} {peer peer' : ReconcilerRun σ}
    {a : ReconcilerRun.Action σ} (h : ReconcilerRun.step session peer a = some peer') :
    peer'.reconciler.shared.sent = peer.reconciler.shared.sent ++ answer session peer a := by
  have happend : ∃ new, peer'.reconciler.shared.sent = peer.reconciler.shared.sent ++ new := by
    cases a with
    | takeInput =>
        simp only [ReconcilerRun.step] at h
        split at h
        · cases h
        · obtain ⟨⟨res, r⟩, hres, rfl⟩ := Option.map_eq_some_iff.mp h
          exact takeInput_sent hres
    | message m =>
        simp only [ReconcilerRun.step] at h
        split at h
        · cases h
        · obtain ⟨⟨res, r⟩, hres, rfl⟩ := Option.map_eq_some_iff.mp h
          exact receivedMessage_sent hres
    | _ => exact ⟨[], by rw [sent_of_quiet h (by simp) (by simp), List.append_nil]⟩
  obtain ⟨new, hnew⟩ := happend
  have hanswer : answer session peer a = new := by
    unfold answer
    rw [h]
    dsimp only
    rw [hnew, List.drop_left]
  rw [hanswer, hnew]

/-! ## One step -/

variable {size : ReconciliationMessage → Nat} {capacity : Role → Nat}
  {session : Role → List AoiIntersection} {s s' : BufferedPair σ} {a : Action σ} {p : Role}

/-- The reconciler of `p` has made a step: it has sent the messages `new` and
processed the next `consumed` messages of the other peer. -/
structure Calls (s s' : BufferedPair σ) (p : Role) (new : List Sent) (consumed : Nat) : Prop where
  sent_self : s'.sent p = s.sent p ++ new
  sent_other : s'.sent p.other = s.sent p.other
  written : s'.written = s.written
  received_self : s'.received p = s.received p + consumed
  received_other : s'.received p.other = s.received p.other
  available : s.received p + consumed ≤ s.written p.other ∨ consumed = 0

omit [WillowDataModel] [Storage σ] in
theorem Calls.setPeer {peer : ReconcilerRun σ} {new : List Sent}
    (h : peer.reconciler.shared.sent = s.sent p ++ new) : Calls s (s.setPeer p peer) p new 0 where
  sent_self := by simpa [sent, BufferedPair.setPeer] using h
  sent_other := by simp [sent, BufferedPair.setPeer, Role.other_ne]
  written := rfl
  received_self := rfl
  received_other := rfl
  available := Or.inr rfl

/-- A step of the system: a message is written, or a reconciler makes a step;
what it sends then is given by its call. -/
theorem step_cases (h : step size capacity session s a = some s') :
    (∃ p x, a = .write p ∧ (s.sent p)[s.written p]? = some x ∧
      bytes size (s.inFlight p) + size x.message ≤ capacity p ∧
      s' = { s with written := Function.update s.written p (s.written p + 1) }) ∨
    ∃ p new consumed, Calls s s' p new consumed ∧
      (new = [] ∨ (Roomy size capacity session s a →
        bytes size (s.unread p) + bytes size new ≤ capacity p ∨
          bytes size ((s.unread p.other).drop consumed) ≤ capacity p.other)) := by
  -- these actions send nothing
  have hquiet : ∀ (p : Role) (action : ReconcilerRun.Action σ), action ≠ .takeInput →
      (∀ m, action ≠ .message m) →
      (ReconcilerRun.step (session p) (s.peer p) action).map (s.setPeer p) = some s' →
      ∃ p new consumed, Calls s s' p new consumed ∧
        (new = [] ∨ (Roomy size capacity session s a →
          bytes size (s.unread p) + bytes size new ≤ capacity p ∨
            bytes size ((s.unread p.other).drop consumed) ≤ capacity p.other)) := by
    intro p action htake hmessage hmap
    obtain ⟨peer, hpeer, rfl⟩ := Option.map_eq_some_iff.mp hmap
    refine ⟨p, [], 0, .setPeer ?_, Or.inl rfl⟩
    rw [List.append_nil]
    exact sent_of_quiet hpeer htake hmessage
  cases a with
  | takeInput p =>
      simp only [step] at h
      split at h
      · obtain ⟨peer, hpeer, rfl⟩ := Option.map_eq_some_iff.mp h
        exact Or.inr ⟨p, _, 0, .setPeer (step_sent hpeer), Or.inr id⟩
      · cases h
  | deliver p =>
      simp only [step] at h
      split at h
      · rename_i hready
        split at h
        · cases h
        · rename_i x hx
          obtain ⟨peer, hpeer, rfl⟩ := Option.map_eq_some_iff.mp h
          have hset : Calls s (s.setPeer p peer) p _ 0 := .setPeer (step_sent hpeer)
          refine Or.inr ⟨p, _, 1, ⟨hset.sent_self, hset.sent_other, rfl, ?_, ?_,
            Or.inl hready.2⟩, Or.inr fun hroomy => ?_⟩
          · simp
          · simp [Role.other_ne]
          · -- the message that is delivered is the first one that is unread
            have hunread : s.unread p.other = x :: (s.unread p.other).drop 1 := by
              unfold unread
              rw [Role.other_other, List.drop_drop]
              have hdrop : (s.sent p.other).drop (s.received p) =
                  ((s.sent p.other)[s.received p]?).toList ++
                    (s.sent p.other).drop (s.received p + 1) := List.drop_eq_getElem?_toList_append
              rw [hx] at hdrop
              exact hdrop
            unfold Roomy at hroomy
            dsimp only at hroomy
            rw [hunread] at hroomy
            exact hroomy
      · cases h
  | resume p =>
      simp only [step] at h
      split at h
      · exact Or.inr (hquiet p .resume (by simp) (by simp) h)
      · cases h
  | deliverToken p =>
      simp only [step] at h
      split at h
      · cases h
      · obtain ⟨peer, hpeer, rfl⟩ := Option.map_eq_some_iff.mp h
        have hset : Calls s (s.setPeer p peer) p [] 0 := by
          refine .setPeer ?_
          rw [List.append_nil]
          exact sent_of_quiet hpeer (by simp) (by simp)
        exact Or.inr ⟨p, [], 0, ⟨hset.sent_self, hset.sent_other, rfl, rfl, rfl, Or.inr rfl⟩,
          Or.inl rfl⟩
  | write p =>
      simp only [step] at h
      split at h
      · cases h
      · rename_i x hx
        split at h
        · rename_i hfits
          exact Or.inl ⟨p, x, rfl, hx, hfits, (Option.some.inj h).symm⟩
        · cases h
  | sendInput p i => exact Or.inr (hquiet p (.sendInput i) (by simp) (by simp) h)
  | closeInbox p => exact Or.inr (hquiet p .closeInbox (by simp) (by simp) h)
  | bindOurs p token => exact Or.inr (hquiet p (.bindOurs token) (by simp) (by simp) h)
  | setStore p store => exact Or.inr (hquiet p (.write store) (by simp) (by simp) h)

/-! ## Bytes -/

omit [Meadowcap] [WillowDataModel] [Storage σ] in
theorem bytes_append (l l' : List Sent) : bytes size (l ++ l') = bytes size l + bytes size l' := by
  simp [bytes]

omit [Meadowcap] [WillowDataModel] [Storage σ] in
theorem bytes_drop_le (l : List Sent) (n : Nat) : bytes size (l.drop n) ≤ bytes size l := by
  conv_rhs => rw [← List.take_append_drop n l, bytes_append]
  exact Nat.le_add_left _ _

/-! ## The channels -/

/-- A peer has written what the other one has processed, and the messages in a
channel fit into it. -/
structure Sound (capacity : Role → Nat) (size : ReconciliationMessage → Nat)
    (s : BufferedPair σ) : Prop where
  received : ∀ p, s.received p.other ≤ s.written p
  written : ∀ p, s.written p ≤ (s.sent p).length
  within : ∀ p, bytes size (s.inFlight p) ≤ capacity p

omit [WillowDataModel] [Storage σ] in
/-- What is not read is in the channel or not written yet. -/
theorem Sound.unread_eq (h : Sound capacity size s) (p : Role) :
    s.unread p = s.inFlight p ++ (s.sent p).drop (s.written p) := by
  unfold unread inFlight
  conv_lhs => rw [← List.take_append_drop (s.written p) (s.sent p)]
  rw [List.drop_append_of_le_length]
  rw [List.length_take]
  have := h.received p
  have := h.written p
  omega

omit [WillowDataModel] [Storage σ] in
/-- A peer whose messages fit is not blocked. -/
theorem Sound.not_blocked (h : Sound capacity size s) (hfits : Fits size capacity s p) :
    ¬ Blocked size capacity s p := by
  rintro ⟨x, hx, hfull⟩
  unfold Fits at hfits
  have hdrop : (s.sent p).drop (s.written p) =
      x :: (s.sent p).drop (s.written p + 1) := by
    have heq : (s.sent p).drop (s.written p) = ((s.sent p)[s.written p]?).toList ++
        (s.sent p).drop (s.written p + 1) := List.drop_eq_getElem?_toList_append
    rw [hx] at heq
    exact heq
  rw [h.unread_eq, hdrop, bytes_append] at hfits
  simp only [bytes, List.map_cons, List.sum_cons] at hfits hfull
  omega

omit [WillowDataModel] [Storage σ] in
theorem Calls.unread_self {new : List Sent} {consumed : Nat} (h : Calls s s' p new consumed)
    (hsound : Sound capacity size s) : s'.unread p = s.unread p ++ new := by
  unfold unread
  rw [h.sent_self, h.received_other, List.drop_append_of_le_length]
  exact (hsound.received p).trans (hsound.written p)

omit [WillowDataModel] [Storage σ] in
theorem Calls.unread_other {new : List Sent} {consumed : Nat} (h : Calls s s' p new consumed) :
    s'.unread p.other = (s.unread p.other).drop consumed := by
  unfold unread
  rw [h.sent_other, Role.other_other, h.received_self, List.drop_drop]

omit [WillowDataModel] [Storage σ] in
theorem Calls.sound {new : List Sent} {consumed : Nat} (h : Calls s s' p new consumed)
    (hsound : Sound capacity size s) : Sound capacity size s' := by
  have hself : s'.inFlight p = s.inFlight p := by
    unfold inFlight
    rw [h.sent_self, h.written, h.received_other, List.take_append_of_le_length (hsound.written p)]
  have hother : s'.inFlight p.other = (s.inFlight p.other).drop consumed := by
    unfold inFlight
    rw [h.sent_other, h.written, Role.other_other, h.received_self, List.drop_drop]
  refine ⟨Role.forall_of p ?_ ?_, Role.forall_of p ?_ ?_, Role.forall_of p ?_ ?_⟩
  · rw [h.received_other, h.written]
    exact hsound.received p
  · rw [Role.other_other, h.received_self, h.written]
    have hle := hsound.received p.other
    rw [Role.other_other] at hle
    rcases h.available with havailable | rfl
    · exact havailable
    · exact hle
  · rw [h.written, h.sent_self, List.length_append]
    exact (hsound.written p).trans (Nat.le_add_right _ _)
  · rw [h.written, h.sent_other]
    exact hsound.written p.other
  · rw [hself]
    exact hsound.within p
  · rw [hother]
    exact (bytes_drop_le _ _).trans (hsound.within p.other)

/-- The state after a message has been written. -/
def afterWrite (s : BufferedPair σ) (p : Role) : BufferedPair σ :=
  { s with written := Function.update s.written p (s.written p + 1) }

omit [WillowDataModel] [Storage σ] in
theorem Sound.afterWrite (h : Sound capacity size s) {x : Sent}
    (hx : (s.sent p)[s.written p]? = some x)
    (hfits : bytes size (s.inFlight p) + size x.message ≤ capacity p) :
    Sound capacity size (s.afterWrite p) := by
  obtain ⟨hlt, -⟩ := List.getElem?_eq_some_iff.mp hx
  have hother : (s.afterWrite p).written p.other = s.written p.other := by
    simp [BufferedPair.afterWrite, Role.other_ne]
  have hself : (s.afterWrite p).written p = s.written p + 1 := by
    simp [BufferedPair.afterWrite]
  refine ⟨Role.forall_of p ?_ ?_, Role.forall_of p ?_ ?_, Role.forall_of p ?_ ?_⟩
  · rw [hself]
    exact (h.received p).trans (Nat.le_succ _)
  · rw [hother]
    exact h.received p.other
  · rw [hself]
    exact hlt
  · rw [hother]
    exact h.written p.other
  · have hflight : (s.afterWrite p).inFlight p = s.inFlight p ++ [x] := by
      unfold inFlight
      rw [hself]
      show List.drop (s.received p.other) (List.take (s.written p + 1) (s.sent p)) = _
      rw [List.take_add_one, hx, List.drop_append_of_le_length]
      · rfl
      · rw [List.length_take]
        have := h.received p
        omega
    rw [hflight, bytes_append]
    simpa [bytes] using hfits
  · have hflight : (s.afterWrite p).inFlight p.other = s.inFlight p.other := by
      unfold inFlight
      rw [hother]
      rfl
    rw [hflight]
    exact h.within p.other

theorem Sound.step (h : Sound capacity size s)
    (hstep : BufferedPair.step size capacity session s a = some s') : Sound capacity size s' := by
  rcases step_cases hstep with ⟨p, x, -, hx, hfits, rfl⟩ | ⟨p, new, consumed, hcalls, -⟩
  · exact h.afterWrite hx hfits
  · exact hcalls.sound h

/-! ## Room for one of the peers -/

/-- The messages of one of the peers fit into its channel. -/
def OneFits (size : ReconciliationMessage → Nat) (capacity : Role → Nat)
    (s : BufferedPair σ) : Prop := ∃ p, Fits size capacity s p

/-- A step that leaves enough room keeps room for one of the peers. -/
theorem OneFits.step (h : OneFits size capacity s) (hsound : Sound capacity size s)
    (hroomy : Roomy size capacity session s a)
    (hstep : BufferedPair.step size capacity session s a = some s') : OneFits size capacity s' := by
  rcases step_cases hstep with ⟨p, x, -, -, -, rfl⟩ | ⟨p, new, consumed, hcalls, hnew⟩
  · -- a written message was counted before
    exact h
  · have hself : bytes size (s'.unread p) = bytes size (s.unread p) + bytes size new := by
      rw [hcalls.unread_self hsound, bytes_append]
    have hother : bytes size (s'.unread p.other) =
        bytes size ((s.unread p.other).drop consumed) := by
      rw [hcalls.unread_other]
    rcases hnew with rfl | hnew
    · obtain ⟨q, hq⟩ := h
      rcases Role.eq_or_eq_other p q with rfl | rfl
      · exact ⟨q, by unfold Fits at hq ⊢; rw [hself]; simpa [bytes] using hq⟩
      · exact ⟨p.other, by unfold Fits at hq ⊢; rw [hother]; exact (bytes_drop_le _ _).trans hq⟩
    · rcases hnew hroomy with hfits | hfits
      · exact ⟨p, by unfold Fits; rw [hself]; exact hfits⟩
      · exact ⟨p.other, by unfold Fits; rw [hother]; exact hfits⟩

/-! ## Deadlocks -/

/-- The action writes a message. -/
def IsWrite (_ : BufferedPair σ) : Action σ → Prop
  | .write _ => True
  | _ => False

omit [WillowDataModel] [Storage σ] in
/-- What a peer waits for does not depend on what the other one writes. -/
theorem blocked_afterWrite (h : Blocked size capacity s p.other) :
    Blocked size capacity (s.afterWrite p) p.other := by
  obtain ⟨x, hx, hfull⟩ := h
  have hwritten : (s.afterWrite p).written p.other = s.written p.other := by
    simp [afterWrite, Role.other_ne]
  have hflight : (s.afterWrite p).inFlight p.other = s.inFlight p.other := by
    unfold inFlight
    rw [hwritten]
    rfl
  refine ⟨x, ?_, ?_⟩
  · rw [hwritten]
    exact hx
  · rw [hflight]
    exact hfull

/-- A peer whose messages do not fit writes until it is blocked. -/
theorem Sound.exists_blocked (session : Role → List AoiIntersection)
    (hsound : Sound capacity size s) (hfits : ¬ Fits size capacity s p) :
    ∃ s', Reachable (BufferedPair.step size capacity session) IsWrite s s' ∧
      Sound capacity size s' ∧ Blocked size capacity s' p ∧
      (∀ q, s'.unread q = s.unread q) ∧
      (Blocked size capacity s p.other → Blocked size capacity s' p.other) := by
  obtain ⟨n, hn⟩ : ∃ n, n = (s.sent p).length - s.written p := ⟨_, rfl⟩
  induction n generalizing s with
  | zero =>
      -- everything is written, and so it is in the channel
      have hall : (s.sent p).drop (s.written p) = [] := List.drop_eq_nil_of_le (by omega)
      have hwithin := hsound.within p
      unfold Fits at hfits
      rw [hsound.unread_eq, hall, List.append_nil] at hfits
      exact absurd hwithin hfits
  | succ n ih =>
      have hlt : s.written p < (s.sent p).length := by omega
      obtain ⟨x, hx⟩ : ∃ x, (s.sent p)[s.written p]? = some x := ⟨_, List.getElem?_eq_getElem hlt⟩
      by_cases hroom : bytes size (s.inFlight p) + size x.message ≤ capacity p
      · have hstep : BufferedPair.step size capacity session s (.write p) =
            some (s.afterWrite p) := by
          simp only [BufferedPair.step, hx, if_pos hroom]
          rfl
        have hwritten : (s.afterWrite p).written p = s.written p + 1 := by
          simp [BufferedPair.afterWrite]
        obtain ⟨s', hreach, hsound', hblocked, hunread, hother⟩ :=
          ih (hsound.afterWrite hx hroom) hfits (by
            rw [hwritten]
            show n = (s.sent p).length - (s.written p + 1)
            omega)
        exact ⟨s', (Reachable.refl.tail trivial hstep).trans hreach, hsound', hblocked, hunread,
          fun h => hother (blocked_afterWrite h)⟩
      · exact ⟨s, .refl, hsound, ⟨x, hx, by omega⟩, fun _ => rfl, id⟩

/-- When neither peer has enough room, both of them get blocked. -/
theorem Sound.exists_deadlock (session : Role → List AoiIntersection)
    (hsound : Sound capacity size s)
    (hnone : ¬ OneFits size capacity s) :
    ∃ s', Reachable (BufferedPair.step size capacity session) IsWrite s s' ∧
      Deadlock size capacity s' := by
  have hfits : ∀ p, ¬ Fits size capacity s p := fun p hp => hnone ⟨p, hp⟩
  obtain ⟨s₁, hreach₁, hsound₁, hblocked₁, hunread, -⟩ :=
    hsound.exists_blocked session (hfits .alfie)
  have hfits₁ : ¬ Fits size capacity s₁ .betty := by
    unfold Fits
    rw [hunread]
    exact hfits .betty
  obtain ⟨s₂, hreach₂, -, hblocked₂, -, hother⟩ :=
    hsound₁.exists_blocked session hfits₁
  exact ⟨s₂, hreach₁.trans hreach₂, Role.forall_of .betty hblocked₂ (hother hblocked₁)⟩

/-- A call that leaves room for neither of the peers. -/
theorem not_oneFits_of_not_roomy (hsound : Sound capacity size s)
    (hstep : BufferedPair.step size capacity session s a = some s')
    (hroomy : ¬ Roomy size capacity session s a) : ¬ OneFits size capacity s' := by
  rintro ⟨q, hq⟩
  unfold Fits at hq
  cases a with
  | takeInput p =>
      simp only [BufferedPair.step] at hstep
      split at hstep
      · obtain ⟨peer, hpeer, rfl⟩ := Option.map_eq_some_iff.mp hstep
        have hcalls : Calls s (s.setPeer p peer) p _ 0 := .setPeer (step_sent hpeer)
        refine hroomy ?_
        rcases Role.eq_or_eq_other p q with rfl | rfl
        · rw [hcalls.unread_self hsound, bytes_append] at hq
          exact Or.inl hq
        · rw [hcalls.unread_other] at hq
          exact Or.inr hq
      · cases hstep
  | deliver p =>
      simp only [BufferedPair.step] at hstep
      split at hstep
      · rename_i hready
        split at hstep
        · cases hstep
        · rename_i x hx
          obtain ⟨peer, hpeer, rfl⟩ := Option.map_eq_some_iff.mp hstep
          have hset : Calls s (s.setPeer p peer) p _ 0 := .setPeer (step_sent hpeer)
          have hcalls : Calls s { s.setPeer p peer with
              received := Function.update s.received p (s.received p + 1) } p _ 1 :=
            ⟨hset.sent_self, hset.sent_other, rfl, Function.update_self _ _ _,
              Function.update_of_ne (Role.other_ne p) _ _, Or.inl hready.2⟩
          refine hroomy ?_
          unfold Roomy
          dsimp only
          split
          · trivial
          rename_i y rest hy
          have hrest : (s.unread p.other).drop 1 = rest := by rw [hy]; rfl
          have hsame : x = y := by
            unfold unread at hy
            rw [Role.other_other] at hy
            have hhead := congrArg List.head? hy
            rw [List.head?_drop, hx] at hhead
            exact Option.some.inj hhead
          subst hsame
          rcases Role.eq_or_eq_other p q with rfl | rfl
          · rw [hcalls.unread_self hsound, bytes_append] at hq
            exact Or.inl hq
          · rw [hcalls.unread_other, hrest] at hq
            exact Or.inr hq
      · cases hstep
  | _ => exact hroomy trivial

omit [WillowDataModel] [Storage σ] in
theorem sound_start (store : Role → σ) (sessionId : SessionId)
    (maxEagerPayloadSize : Role → U64) :
    Sound capacity size (start store sessionId maxEagerPayloadSize) :=
  ⟨fun _ => Nat.zero_le _, fun _ => Nat.zero_le _, fun _ => Nat.zero_le _⟩

/-- **Deadlocks.** In every run in which each call leaves one of the peers with
enough room, the peers never block each other; and a call of such a run that
does not leads to a deadlock, without anything but what the calls have to
send. -/
theorem deadlock_iff_not_roomy (store : Role → σ) (sessionId : SessionId)
    (maxEagerPayloadSize : Role → U64)
    (hrun : Reachable (BufferedPair.step size capacity session)
      (Roomy size capacity session) (start store sessionId maxEagerPayloadSize) s) :
    ¬ Deadlock size capacity s ∧
      ∀ a s', BufferedPair.step size capacity session s a = some s' →
        ¬ Roomy size capacity session s a →
          ∃ s'', Reachable (BufferedPair.step size capacity session) IsWrite s' s'' ∧
            Deadlock size capacity s'' := by
  have hinv : Sound capacity size s ∧ OneFits size capacity s := by
    refine hrun.invariant (P := fun s => Sound capacity size s ∧ OneFits size capacity s)
      ⟨sound_start _ _ _, .alfie, Nat.zero_le _⟩ ?_
    intro s a s' ⟨hsound, hone⟩ hroomy hstep
    exact ⟨hsound.step hstep, hone.step hsound hroomy hstep⟩
  obtain ⟨hsound, p, hfits⟩ := hinv
  refine ⟨fun hdeadlock => hsound.not_blocked hfits (hdeadlock p), ?_⟩
  intro a s' hstep hroomy
  exact (hsound.step hstep).exists_deadlock session (not_oneFits_of_not_roomy hsound hstep hroomy)

end Model

/-! ## Two areas -/

section Light

variable {σ : Type} [Meadowcap] [WillowDataModel] [Storage σ]
  {session : Role → List AoiIntersection} {s s' : BufferedPair σ} {a : Action σ}

/-- When a message is written, it and those in the channel are at most three
and among `controls`. -/
def Light (controls : List ReconciliationMessage) (s : BufferedPair σ) : Action σ → Prop
  | .write p => ((s.inFlight p).length ≤ 2) ∧
      ∀ x ∈ s.inFlight p ++ ((s.sent p)[s.written p]?).toList, x.message ∈ controls
  | _ => True

instance (controls : List ReconciliationMessage) (s : BufferedPair σ) (a : Action σ) :
    Decidable (Light controls s a) := by
  cases a <;> unfold Light <;> infer_instance

omit [Meadowcap] [WillowDataModel] [Storage σ] in
theorem bytes_le_of_controls {controls : List ReconciliationMessage}
    {size : ReconciliationMessage → Nat} {bound : Nat} (hbound : ∀ m ∈ controls, size m ≤ bound)
    {l : List Sent} (hl : ∀ x ∈ l, x.message ∈ controls) :
    bytes size l ≤ l.length * bound := by
  have hlength : l.length = (l.map fun x => size x.message).length := by rw [List.length_map]
  unfold bytes
  rw [hlength]
  refine List.sum_le_card_nsmul _ _ fun n hn => ?_
  obtain ⟨x, hx, rfl⟩ := List.mem_map.mp hn
  exact hbound _ (hl x hx)

/-- A run in which little is written is possible on every channel that is large
enough for it. -/
theorem reachable_of_light {controls : List ReconciliationMessage}
    {size : ReconciliationMessage → Nat} {capacity : Role → Nat} {bound : Nat}
    (hbound : ∀ m ∈ controls, size m ≤ bound) (hcapacity : ∀ p, 3 * bound ≤ capacity p)
    (h : Reachable (step (fun _ => 0) (fun _ => 0) session) (Light controls) s s') :
    Reachable (step size capacity session) (fun _ _ => True) s s' := by
  induction h with
  | refl => exact .refl
  | @tail s₁ s₂ a _ hlight hstep ih =>
      refine ih.tail (a := a) trivial ?_
      cases a with
      | write p =>
          obtain ⟨hlength, hcontrols⟩ := hlight
          simp only [step] at hstep ⊢
          split at hstep
          · cases hstep
          · rename_i x hx
            rw [hx, Option.toList_some] at hcontrols
            have hsmall := bytes_le_of_controls hbound hcontrols
            rw [bytes_append, List.length_append, List.length_singleton] at hsmall
            have hle : ((s₁.inFlight p).length + 1) * bound ≤ 3 * bound :=
              Nat.mul_le_mul_right _ (by omega)
            have hfits : bytes size (s₁.inFlight p) + size x.message ≤ capacity p := by
              have hone : bytes size [x] = size x.message := by simp [bytes]
              rw [hone] at hsmall
              exact hsmall.trans (hle.trans (hcapacity p))
            rw [if_pos hfits]
            rw [if_pos (by simp [bytes])] at hstep
            exact hstep
      | _ => exact hstep

/-- The chunks that messages carry. -/
def payloads (l : List Sent) : List Chunk :=
  l.filterMap fun x => match x.message with
    | .sendPayload bytes => some bytes
    | _ => none

omit [Meadowcap] [WillowDataModel] [Storage σ] in
theorem sum_length_payloads_le {size : ReconciliationMessage → Nat}
    (hpayload : ∀ bytes : Chunk, bytes.length ≤ size (.sendPayload bytes)) (l : List Sent) :
    ((payloads l).map List.length).sum ≤ bytes size l := by
  induction l with
  | nil => exact Nat.le_refl _
  | cons x rest ih =>
      have hsize : bytes size (x :: rest) = size x.message + bytes size rest := rfl
      rw [hsize]
      cases hm : x.message with
      | sendPayload chunk =>
          have hcons : payloads (x :: rest) = chunk :: payloads rest := by simp [payloads, hm]
          have hchunk := hpayload chunk
          rw [hcons, List.map_cons, List.sum_cons]
          omega
      | _ =>
          have hcons : payloads (x :: rest) = payloads rest := by simp [payloads, hm]
          rw [hcons]
          omega

end Light

section Samples

open IrohWillow.Sample

attribute [local instance] acceptingSignatures timestampHash ReadAccess.Sample.nestedAreas

/-- An entry with a payload of 30000 bytes. -/
def Sample.largeEntryAt (timestamp : Timestamp) : AuthorisedEntry :=
  AuthorisedEntry.mk { bareEntryAt [] timestamp with
      payloadLength := 30000
      payloadDigest := .ofByte 1 } (entryAt [] timestamp).token (entryAt [] timestamp).authorised

/-- The payload as it is sent. -/
def Sample.chunk : Chunk := List.replicate 30072 0

/-- The store of each peer: Alfie's entries are from before time 5, Betty's are
not. -/
def Sample.store (p : Role) : IdealStore :=
  { entries := match p with
      | .alfie => [Sample.largeEntryAt 1, Sample.largeEntryAt 2]
      | .betty => [Sample.largeEntryAt 5, Sample.largeEntryAt 6]
    blobs := [(.ofByte 1, [Sample.chunk])] }

/-- What is from before time 5. -/
def Sample.old : AoiIntersection :=
  ⟨0, 0, ⟨⟨.any, .empty, ⟨0, .closed 5⟩⟩, 0, 0⟩, namespaceId⟩

/-- What is from time 5 on. -/
def Sample.recent : AoiIntersection := ⟨1, 1, ⟨⟨.any, .empty, .newOpen 5⟩, 0, 0⟩, namespaceId⟩

/-- Both peers work on both areas. -/
def Sample.session (_ : Role) : List AoiIntersection := [Sample.old, Sample.recent]

/-- Both peers at the start. -/
def Sample.start : BufferedPair IdealStore := BufferedPair.start Sample.store 0 fun _ => 32768

open IrohWillow.BufferedPair.Sample

/-- Alfie asks about both areas. Betty answers that she has nothing old and
sends what is recent, while Alfie sends what is old. -/
def Sample.exchange : List (Action IdealStore) :=
  [.sendInput .alfie old, .sendInput .alfie recent, .sendInput .betty old,
    .sendInput .betty recent, .takeInput .alfie, .write .alfie, .takeInput .alfie, .write .alfie,
    .takeInput .betty, .takeInput .betty, .deliver .betty, .write .betty, .deliver .betty,
    .deliver .alfie]

/-- The messages that are written by then. -/
def Sample.controls : List ReconciliationMessage :=
  [.sendFingerprint ⟨{ Range3d.full with times := ⟨0, .closed 5⟩ }, 6, 0, 0, none⟩,
    .sendFingerprint ⟨{ Range3d.full with times := .newOpen 5 }, 0, 1, 1, none⟩,
    .announceEntries ⟨{ Range3d.full with times := ⟨0, .closed 5⟩ }, true, true, false, 0, 0,
      some 0⟩]

/-- On channels that hold the payload of one entry, but not of two, both peers
get blocked. The size of a message is at least that of its payload; the three
control messages are small. -/
theorem peers_blocked_by_payloads :
    ∀ size : ReconciliationMessage → Nat, (∀ m ∈ controls, size m ≤ 1000) →
      (∀ bytes : Chunk, bytes.length ≤ size (.sendPayload bytes)) →
      ¬ ∀ (capacity : Role → Nat) (session : Role → List AoiIntersection)
        (store : Role → IdealStore) (sessionId : SessionId) (maxEagerPayloadSize : Role → U64)
        (s : BufferedPair IdealStore),
        Reachable (step size capacity session) (fun _ _ => True)
          (BufferedPair.start store sessionId maxEagerPayloadSize) s →
        ¬ Deadlock size capacity s := by
  intro size hcontrols hpayload h
  have hrun : ((Transition.run (step (fun _ => 0) (fun _ => 0) session) Sample.start
      exchange).map fun s => (payloads (s.unread .alfie), payloads (s.unread .betty))) =
      some ([chunk, chunk], [chunk, chunk]) := by rfl
  obtain ⟨s, hs, heq⟩ := Option.map_eq_some_iff.mp hrun
  obtain ⟨halfie, hbetty⟩ := Prod.mk.inj heq
  have hlight : Reachable (step (fun _ => 0) (fun _ => 0) session) (Light controls)
      Sample.start s := .of_run hs (by decide)
  have hreach : Reachable (step size (fun _ => 40000) session) (fun _ _ => True) Sample.start s :=
    reachable_of_light hcontrols (fun _ => by omega) hlight
  have hsound : Sound (fun _ => 40000) size s :=
    hreach.invariant (P := Sound (fun _ => 40000) size) (sound_start _ _ _)
      fun _ _ _ h _ hstep => h.step hstep
  -- two payloads do not fit
  have htwo : ∀ p, payloads (s.unread p) = [chunk, chunk] := Role.forall_of .alfie halfie hbetty
  have hnone : ¬ OneFits size (fun _ => 40000) s := by
    rintro ⟨p, hfits⟩
    have hle := sum_length_payloads_le hpayload (s.unread p)
    have hchunk : chunk.length = 30072 := List.length_replicate
    rw [htwo p] at hle
    simp only [List.map_cons, List.map_nil, List.sum_cons, List.sum_nil, hchunk] at hle
    replace hfits : bytes size (s.unread p) ≤ 40000 := hfits
    omega
  obtain ⟨s', hwrites, hdeadlock⟩ := hsound.exists_deadlock session hnone
  exact h _ _ _ _ _ s' (hreach.trans (hwrites.mono fun _ _ _ => trivial)) hdeadlock

/-- A payload message has a byte more than its payload, the others have 100. -/
def Sample.messageSize : ReconciliationMessage → Nat
  | .sendPayload bytes => bytes.length + 1
  | _ => 100

/-- Both peers get blocked with messages of these sizes. -/
theorem both_peers_blocked :
    ¬ ∀ (capacity : Role → Nat) (session : Role → List AoiIntersection)
      (store : Role → IdealStore) (sessionId : SessionId) (maxEagerPayloadSize : Role → U64)
      (s : BufferedPair IdealStore),
      Reachable (step messageSize capacity session) (fun _ _ => True)
        (BufferedPair.start store sessionId maxEagerPayloadSize) s →
      ¬ Deadlock messageSize capacity s := by
  refine peers_blocked_by_payloads messageSize ?_ fun bytes => Nat.le_succ _
  intro m hm
  simp only [controls, List.mem_cons, List.not_mem_nil, or_false] at hm
  rcases hm with rfl | rfl | rfl <;> exact (by decide : 100 ≤ 1000)

/-- On channels that hold everything there is no deadlock. -/
theorem deadlock_iff_not_roomy_large :
    ∃ s, Reachable (step (fun _ => 1) (fun _ => 100) session)
        (Roomy (fun _ => 1) (fun _ => 100) session) Sample.start s ∧
      (s.unread .alfie).length = 7 ∧ ¬ Deadlock (fun _ => 1) (fun _ => 100) s := by
  have hrun : ((Transition.run (step (fun _ => 1) (fun _ => 100) session) Sample.start
      exchange).map fun s => (s.unread .alfie).length) = some 7 := by rfl
  obtain ⟨s, hs, hlength⟩ := Option.map_eq_some_iff.mp hrun
  have hreach : Reachable (step (fun _ => 1) (fun _ => 100) session)
      (Roomy (fun _ => 1) (fun _ => 100) session) Sample.start s := .of_run hs (by decide +kernel)
  exact ⟨s, hreach, hlength, (deadlock_iff_not_roomy _ _ _ hreach).1⟩

end Samples

end BufferedPair

end IrohWillow
