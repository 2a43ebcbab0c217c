import IrohWillow.Lib.Transition
import IrohWillow.Session.Data
import IrohWillow.Session.ReconcilerSends

/-!
# A session with an arbitrary peer

The tasks of a session that act on what the peer sends: the reconciler, the
receiver of data messages and the loop that binds static tokens. The peer sends
any messages in any order. The intersections of the session are in the inbox of
the reconciler, which takes them when it likes; other tasks of the node may
change the store and bind tokens of ours between any two steps.
-/

namespace IrohWillow

/-- The receiving tasks of a session, with what they have processed. -/
structure PeerRun (σ : Type) [Meadowcap] where
  reconciler : Reconciler σ
  dataReceiver : DataReceiver := {}
  /-- The reconciler has returned an error. -/
  reconcilerFailed : Bool := false
  /-- The receiver of data messages has returned an error. -/
  dataFailed : Bool := false
  received : List ReconciliationMessage := []
  receivedData : List DataMessage := []
  receivedTokens : List StaticToken := []

namespace PeerRun

/-- What may happen. -/
inductive Action (σ : Type) where
  /-- The reconciler takes an intersection from its inbox. -/
  | takeInput
  /-- No more intersections will come. -/
  | closeInbox
  /-- The reconciler processes a message of the peer. -/
  | message (message : ReconciliationMessage)
  /-- The data receiver processes a message of the peer. -/
  | dataMessage (message : DataMessage)
  /-- The peer binds a static token. -/
  | bindStaticToken (token : StaticToken)
  /-- The data sender binds a static token. -/
  | bindOurs (token : StaticToken)
  /-- The store is changed by others. -/
  | write (store : σ)

section Model

variable {σ : Type} [Meadowcap] [WillowDataModel] [Storage σ]

/-- Whether a call has failed. -/
def isError {α : Type} : Except Failure α → Bool
  | .error _ => true
  | .ok _ => false

/-- One step; `none` when the action is not possible. -/
def step (s : PeerRun σ) : Action σ → Option (PeerRun σ)
  | .takeInput =>
      if s.reconcilerFailed then none
      else s.reconciler.takeInput.map fun (res, r) =>
        { s with reconciler := r, reconcilerFailed := isError res }
  | .closeInbox => some { s with reconciler := { s.reconciler with inboxClosed := true } }
  | .message message =>
      if s.reconcilerFailed then none
      else (s.reconciler.receivedMessage message).map fun (res, r) =>
        { s with
          reconciler := r
          reconcilerFailed := isError res
          received := s.received ++ [message] }
  | .dataMessage message =>
      if s.dataFailed then none
      else (s.dataReceiver.onMessage s.reconciler.shared message).map fun (res, sh) =>
        { s with
          reconciler := { s.reconciler with shared := sh }
          dataReceiver := match res with
            | .ok d => d
            | .error _ => s.dataReceiver
          dataFailed := isError res
          receivedData := s.receivedData ++ [message] }
  | .bindStaticToken token =>
      let tokens := s.reconciler.shared.staticTokens.bindTheirs token
      some { s with
        reconciler := { s.reconciler with
          shared := { s.reconciler.shared with staticTokens := tokens } }
        receivedTokens := s.receivedTokens ++ [token] }
  | .bindOurs token =>
      let (_, sh) := s.reconciler.shared.bindAndSendOurs token
      some { s with reconciler := { s.reconciler with shared := sh } }
  | .write store =>
      some { s with reconciler := { s.reconciler with
        shared := { s.reconciler.shared with store := store } } }

end Model

/-- A session at its start: its intersections are known, nothing has happened. -/
def start {σ : Type} [Meadowcap] (store : σ) (ourRole : Role) (sessionId : SessionId)
    (maxEagerPayloadSize : U64) (intersections : List AoiIntersection) : PeerRun σ :=
  { reconciler :=
      { shared :=
          { store := store
            ourRole := ourRole
            sessionId := sessionId
            maxEagerPayloadSize := maxEagerPayloadSize }
        inbox := intersections } }

/-! ### What a step is -/

section Inversion

variable {σ : Type} [Meadowcap] [WillowDataModel] [Storage σ] {s s' : PeerRun σ}

/-- The reconciler takes intersections until it has failed. -/
theorem step_takeInput (h : step s .takeInput = some s') :
    s.reconcilerFailed = false ∧ ∃ res r, s.reconciler.takeInput = some (res, r) ∧
      s' = { s with reconciler := r, reconcilerFailed := isError res } := by
  simp only [step] at h
  split at h
  · cases h
  · rename_i hok
    obtain ⟨⟨res, r⟩, hr, heq⟩ := Option.map_eq_some_iff.mp h
    exact ⟨by simpa using hok, res, r, hr, heq.symm⟩

/-- The reconciler processes messages until it has failed. -/
theorem step_message {m : ReconciliationMessage} (h : step s (.message m) = some s') :
    s.reconcilerFailed = false ∧ ∃ res r, s.reconciler.receivedMessage m = some (res, r) ∧
      s' = { s with
        reconciler := r
        reconcilerFailed := isError res
        received := s.received ++ [m] } := by
  simp only [step] at h
  split at h
  · cases h
  · rename_i hok
    obtain ⟨⟨res, r⟩, hr, heq⟩ := Option.map_eq_some_iff.mp h
    exact ⟨by simpa using hok, res, r, hr, heq.symm⟩

/-- The data receiver processes messages until it has failed. -/
theorem step_dataMessage {m : DataMessage} (h : step s (.dataMessage m) = some s') :
    s.dataFailed = false ∧ ∃ res sh d,
      s.dataReceiver.onMessage s.reconciler.shared m = some (res, sh) ∧
      (∀ d', res = .ok d' → d = d') ∧
      s' = { s with
        reconciler := { s.reconciler with shared := sh }
        dataReceiver := d
        dataFailed := isError res
        receivedData := s.receivedData ++ [m] } := by
  simp only [step] at h
  split at h
  · cases h
  · rename_i hok
    obtain ⟨⟨res, sh⟩, hsh, heq⟩ := Option.map_eq_some_iff.mp h
    refine ⟨by simpa using hok, res, sh, _, hsh, ?_, heq.symm⟩
    rintro d' rfl
    rfl

end Inversion

end PeerRun

/-! ## What one call of the reconciler changes -/

namespace Reconciler

variable {σ : Type} [Meadowcap]

/-- The targets of `r'` are those of `r` and `new`, less those completed. -/
def TargetsFrom (r r' : Reconciler σ) (new : Option (TargetId × Target)) : Prop :=
  ∀ id t, r'.targets.lookup id = some t → r.targets.lookup id = some t ∨ new = some (id, t)

omit [Meadowcap] in
theorem lookup_of_lookup_erase {targets : AList (fun _ : TargetId => Target)} {id id' : TargetId}
    {t : Target} (h : (targets.erase id).lookup id' = some t) : targets.lookup id' = some t := by
  by_cases hid : id' = id
  · subst hid
    simp at h
  · rwa [AList.lookup_erase_ne hid] at h

/-- A call that leaves the log of messages, the answered ranges and the inbox
as they are. -/
structure Silent (r r' : Reconciler σ) : Prop where
  sent : r'.shared.sent = r.shared.sent
  answered : r'.shared.answered = r.shared.answered
  inbox : r'.inbox = r.inbox
  targets : TargetsFrom r r' none

theorem Silent.congr {r r₁ r' : Reconciler σ} (h : r₁.Silent r')
    (hsent : r₁.shared.sent = r.shared.sent) (hanswered : r₁.shared.answered = r.shared.answered)
    (hinbox : r₁.inbox = r.inbox) (htargets : r₁.targets = r.targets) : r.Silent r' :=
  ⟨h.sent.trans hsent, h.answered.trans hanswered, h.inbox.trans hinbox,
    fun id t ht => htargets ▸ h.targets id t ht⟩

theorem Silent.refl (r : Reconciler σ) : r.Silent r :=
  ⟨rfl, rfl, rfl, fun _ _ h => Or.inl h⟩

/-- Completing a target puts out that it is reconciled and forgets it. -/
theorem completeTarget_spec (r : Reconciler σ) (id : TargetId) :
    r.Silent (r.completeTarget id).2 ∧
      (∃ outputs, (r.completeTarget id).2.shared = { r.shared with outputs := outputs }) ∧
      (r.completeTarget id).2.entryState = r.entryState := by
  unfold completeTarget
  split
  · exact ⟨.refl r, ⟨_, rfl⟩, rfl⟩
  · exact ⟨⟨rfl, rfl, rfl, fun _ _ h => Or.inl (lookup_of_lookup_erase h)⟩, ⟨_, rfl⟩, rfl⟩

/-- After an answer, the target is stored, or completed and forgotten. -/
theorem finishTarget_spec (r : Reconciler σ) (id : TargetId)
    (res : Except Failure Target × Shared σ) :
    (∃ outputs, (r.finishTarget id res).2.shared = { res.2 with outputs := outputs }) ∧
      (r.finishTarget id res).2.inbox = r.inbox ∧
      (r.finishTarget id res).2.entryState = r.entryState ∧
      TargetsFrom r (r.finishTarget id res).2 (res.1.toOption.map fun t => (id, t)) := by
  obtain ⟨res, sh⟩ := res
  cases res with
  | error e => exact ⟨⟨_, rfl⟩, rfl, rfl, fun _ _ h => Or.inl h⟩
  | ok t =>
      have hinsert : TargetsFrom r { r with shared := sh, targets := r.targets.insert id t }
          (some (id, t)) := by
        intro id' t' h
        by_cases hid : id' = id
        · subst hid
          rw [AList.lookup_insert] at h
          exact Or.inr (by rw [Option.some.inj h])
        · rw [AList.lookup_insert_ne hid] at h
          exact Or.inl h
      unfold finishTarget
      dsimp only
      split
      · obtain ⟨hsilent, hshared, hstate⟩ := completeTarget_spec
          { r with shared := sh, targets := r.targets.insert id t } id
        refine ⟨hshared, hsilent.inbox, hstate, fun id' t' h => ?_⟩
        rcases hsilent.targets id' t' h with h | h
        · exact hinsert id' t' h
        · cases h
      · exact ⟨⟨_, rfl⟩, rfl, rfl, hinsert⟩

theorem getEventually_cases {r : Reconciler σ} {id : TargetId} {found : Except Failure Target}
    (h : r.getEventually id = some found) :
    (∃ t, r.targets.lookup id = some t ∧ found = .ok t) ∨ found = .error .panic := by
  unfold getEventually at h
  split at h
  · rename_i t ht
    exact Or.inl ⟨t, ht, (Option.some.inj h).symm⟩
  · split at h
    · exact Or.inr (Option.some.inj h).symm
    · cases h

theorem entryStateAnnounce_ok {r r₁ : Reconciler σ} {id : TargetId} {isEmpty : Bool}
    (h : r.entryStateAnnounce id isEmpty = .ok r₁) :
    r.entryState = none ∧
      r₁ = { r with entryState := if isEmpty then none else some { target := id } } := by
  unfold entryStateAnnounce at h
  split at h
  · cases h
  · rename_i hnone
    obtain rfl := Except.ok.inj h
    cases isEmpty with
    | true => exact ⟨hnone, by simp [← hnone]⟩
    | false => exact ⟨hnone, rfl⟩

theorem receivedSendPayload_silent (r : Reconciler σ) (bytes : Chunk) :
    r.Silent (r.receivedSendPayload bytes).2 := by
  unfold receivedSendPayload
  repeat' split
  all_goals exact ⟨rfl, rfl, rfl, fun _ _ h => Or.inl h⟩

/-- The reconciler works on intersections of the session, each under its
handles. -/
structure WorksOn (session : List AoiIntersection) (r : Reconciler σ) : Prop where
  targets : ∀ id t, r.targets.lookup id = some t →
    t.intersection ∈ session ∧ t.intersection.id = id
  inbox : ∀ i ∈ r.inbox, i ∈ session

variable {session : List AoiIntersection} {r r' : Reconciler σ}

theorem WorksOn.targetsFrom (h : WorksOn session r) {new : Option (TargetId × Target)}
    (hfrom : TargetsFrom r r' new) (hinbox : r'.inbox = r.inbox)
    (hnew : ∀ id t, new = some (id, t) → t.intersection ∈ session ∧ t.intersection.id = id) :
    WorksOn session r' where
  targets id t ht := (hfrom id t ht).elim (h.targets id t) (hnew id t)
  inbox := hinbox ▸ h.inbox

theorem WorksOn.silent (h : WorksOn session r) (hs : r.Silent r') : WorksOn session r' :=
  h.targetsFrom hs.targets hs.inbox fun _ _ h => by cases h

/-- An answer is for the target that the message names. -/
theorem WorksOn.finishTarget (h : WorksOn session r) {id : TargetId} {t : Target}
    {res : Except Failure Target × Shared σ} (ht : r.targets.lookup id = some t)
    (hres : ∀ t', res.1 = .ok t' → t'.intersection = t.intersection) :
    WorksOn session (r.finishTarget id res).2 := by
  obtain ⟨-, hinbox, -, htargets⟩ := finishTarget_spec r id res
  refine h.targetsFrom htargets hinbox fun id' t' hnew => ?_
  obtain ⟨res, sh⟩ := res
  cases res with
  | error e => cases hnew
  | ok t₁ =>
      obtain ⟨rfl, rfl⟩ := Prod.mk.inj (Option.some.inj hnew)
      rw [hres _ rfl]
      exact h.targets _ t ht

variable [Storage σ]

/-- A fingerprint is answered by the target that it names. -/
theorem receivedMessage_sendFingerprint {r r' : Reconciler σ} {res : Except Failure Unit}
    {m : ReconciliationSendFingerprint}
    (h : r.receivedMessage (.sendFingerprint m) = some (res, r')) :
    (∃ e, res = .error e ∧ r' = r) ∨ ∃ t, r.targets.lookup m.handles = some t ∧
      (res, r') = r.finishTarget m.handles (t.receivedSendFingerprint r.shared m) := by
  obtain ⟨found, hfound, heq⟩ := Option.map_eq_some_iff.mp h
  rcases getEventually_cases hfound with ⟨t, ht, rfl⟩ | rfl
  · exact Or.inr ⟨t, ht, heq.symm⟩
  · obtain ⟨rfl, rfl⟩ := Prod.mk.inj heq
    exact Or.inl ⟨_, rfl, rfl⟩

/-- An announcement is answered by the target that it names; it opens a block
of entries unless it is empty. -/
theorem receivedMessage_announceEntries {r r' : Reconciler σ} {res : Except Failure Unit}
    {m : ReconciliationAnnounceEntries}
    (h : r.receivedMessage (.announceEntries m) = some (res, r')) :
    (∃ e, res = .error e ∧ r' = r) ∨ ∃ r₁, r.entryStateAnnounce m.handles m.isEmpty = .ok r₁ ∧
      ((∃ e, res = .error e ∧ r' = r₁) ∨ ∃ t, r.targets.lookup m.handles = some t ∧
        (res, r') = r₁.finishTarget m.handles (t.receivedAnnounceEntries r.shared m)) := by
  unfold receivedMessage at h
  dsimp only at h
  split at h
  · obtain ⟨rfl, rfl⟩ := Prod.mk.inj (Option.some.inj h)
    exact Or.inl ⟨_, rfl, rfl⟩
  · rename_i r₁ hr₁
    refine Or.inr ⟨r₁, hr₁, ?_⟩
    obtain ⟨-, rfl⟩ := entryStateAnnounce_ok hr₁
    obtain ⟨found, hfound, heq⟩ := Option.map_eq_some_iff.mp h
    rcases getEventually_cases hfound with ⟨t, ht, rfl⟩ | rfl
    · exact Or.inr ⟨t, ht, heq.symm⟩
    · obtain ⟨rfl, rfl⟩ := Prod.mk.inj heq
      exact Or.inl ⟨_, rfl, rfl⟩

/-- An entry is ingested inside a block of entries only, and once. -/
theorem receivedSendEntry_cases (r : Reconciler σ) (m : ReconciliationSendEntry)
    (a : AuthorisedEntry) :
    (r.receivedSendEntry m a).2 = r ∨
      ∃ state payload store new, r.entryState = some state ∧
        (new = [] ∨ new = [(a, .remote r.shared.sessionId)]) ∧
        (r.receivedSendEntry m a).2 = { r with
          entryState := some { state with currentPayload := payload }
          shared := { r.shared with store := store, ingested := r.shared.ingested ++ new } } := by
  unfold receivedSendEntry
  split
  · exact Or.inl rfl
  · rename_i state hstate
    split
    · exact Or.inl rfl
    · split
      · exact Or.inl rfl
      · rename_i payload _
        refine Or.inr ⟨state, payload, ?_⟩
        dsimp only
        split
        · rename_i store _
          exact ⟨store, [], hstate, Or.inl rfl, by simp⟩
        · rename_i store _
          exact ⟨store, _, hstate, Or.inr rfl, rfl⟩

theorem receivedTerminatePayload_silent (r : Reconciler σ) (isFinal : Bool) :
    r.Silent (r.receivedTerminatePayload isFinal).2 := by
  unfold receivedTerminatePayload
  split
  · exact .refl r
  · rename_i state _
    split
    · exact ⟨rfl, rfl, rfl, fun _ _ h => Or.inl h⟩
    · rename_i payload store _
      dsimp only
      split
      · split
        · exact ⟨rfl, rfl, rfl, fun _ _ h => Or.inl h⟩
        · split
          · exact (completeTarget_spec _ state.target).1.congr rfl rfl rfl rfl
          · exact ⟨rfl, rfl, rfl, fun _ _ h => Or.inl h⟩
      · exact ⟨rfl, rfl, rfl, fun _ _ h => Or.inl h⟩

/-- Receiving entries and payloads sends nothing. -/
theorem receivedMessage_silent {r r' : Reconciler σ} {res : Except Failure Unit}
    {message : ReconciliationMessage} (h : r.receivedMessage message = some (res, r'))
    (hfp : ∀ m, message ≠ .sendFingerprint m) (hann : ∀ m, message ≠ .announceEntries m) :
    r.Silent r' := by
  cases message with
  | sendFingerprint m => exact absurd rfl (hfp m)
  | announceEntries m => exact absurd rfl (hann m)
  | sendEntry m =>
      unfold receivedMessage at h
      dsimp only at h
      split at h
      · cases h
      · obtain rfl := (Prod.mk.inj (Option.some.inj h)).2
        exact .refl r
      · rename_i a _
        obtain rfl := congrArg Prod.snd (Option.some.inj h)
        rcases receivedSendEntry_cases r m a with h | ⟨state, payload, store, new, -, -, h⟩
        · rw [h]
          exact .refl r
        · rw [h]
          exact ⟨rfl, rfl, rfl, fun _ _ h => Or.inl h⟩
  | sendPayload bytes =>
      obtain rfl := congrArg Prod.snd (Option.some.inj h)
      exact receivedSendPayload_silent r bytes
  | terminatePayload isFinal =>
      obtain rfl := congrArg Prod.snd (Option.some.inj h)
      exact receivedTerminatePayload_silent r isFinal

theorem WorksOn.receivedMessage (h : WorksOn session r) {message : ReconciliationMessage}
    {res : Except Failure Unit} (hm : r.receivedMessage message = some (res, r')) :
    WorksOn session r' := by
  cases message with
  | sendFingerprint m =>
      rcases receivedMessage_sendFingerprint hm with ⟨e, -, rfl⟩ | ⟨t, ht, heq⟩
      · exact h
      · obtain rfl := congrArg Prod.snd heq
        exact h.finishTarget ht fun t' ht' => receivedSendFingerprint_intersection ht'
  | announceEntries m =>
      rcases receivedMessage_announceEntries hm with ⟨e, -, rfl⟩ | ⟨r₁, hr₁, hcases⟩
      · exact h
      · obtain ⟨-, rfl⟩ := entryStateAnnounce_ok hr₁
        have h₁ : WorksOn session { r with
            entryState := if m.isEmpty then none else some { target := m.handles } } :=
          ⟨h.targets, h.inbox⟩
        rcases hcases with ⟨e, -, rfl⟩ | ⟨t, ht, heq⟩
        · exact h₁
        · obtain rfl := congrArg Prod.snd heq
          exact h₁.finishTarget ht fun t' ht' => receivedAnnounceEntries_intersection ht'
  | sendEntry _ => exact h.silent (receivedMessage_silent hm (by simp) (by simp))
  | sendPayload _ => exact h.silent (receivedMessage_silent hm (by simp) (by simp))
  | terminatePayload _ => exact h.silent (receivedMessage_silent hm (by simp) (by simp))

/-- What `takeInput` does: the next intersection becomes a target, unless its
initialisation fails. -/
theorem takeInput_cases [WillowDataModel] {res : Except Failure Unit}
    (h : r.takeInput = some (res, r')) :
    ∃ i inbox, r.inbox = i :: inbox ∧
      ((∃ e, res = .error e ∧ r' = { r with inbox := inbox }) ∨
        ∃ t sh, Target.init r.shared i = (.ok t, sh) ∧ res = .ok () ∧
          r' = { r with shared := sh, inbox := inbox, targets := r.targets.insert i.id t }) := by
  unfold takeInput at h
  split at h
  · cases h
  · rename_i i inbox hinbox
    refine ⟨i, inbox, hinbox, ?_⟩
    rcases init_cases r.shared i with ⟨e, heq⟩ | heq | ⟨range, fp, -, -, -, heq⟩
    · rw [heq] at h
      obtain ⟨rfl, rfl⟩ := Prod.mk.inj (Option.some.inj h)
      exact Or.inl ⟨_, rfl, rfl⟩
    all_goals
      rw [heq] at h
      obtain ⟨rfl, rfl⟩ := Prod.mk.inj (Option.some.inj h)
      exact Or.inr ⟨_, _, heq, rfl, rfl⟩

theorem WorksOn.takeInput [WillowDataModel] (h : WorksOn session r) {res : Except Failure Unit}
    (hm : r.takeInput = some (res, r')) : WorksOn session r' := by
  obtain ⟨i, inbox, hinbox, hcases⟩ := takeInput_cases hm
  have hi : i ∈ session := h.inbox i (hinbox ▸ List.mem_cons_self)
  have hrest : ∀ j ∈ inbox, j ∈ session := fun j hj =>
    h.inbox j (hinbox ▸ List.mem_cons_of_mem _ hj)
  rcases hcases with ⟨e, -, rfl⟩ | ⟨t, sh, hinit, -, rfl⟩
  · exact ⟨h.targets, hrest⟩
  · refine ⟨fun id t' hlookup => ?_, hrest⟩
    by_cases hid : id = i.id
    · subst hid
      rw [AList.lookup_insert] at hlookup
      obtain rfl := Option.some.inj hlookup
      rw [init_intersection hinit]
      exact ⟨hi, rfl⟩
    · rw [AList.lookup_insert_ne hid] at hlookup
      exact h.targets id t' hlookup

end Reconciler

end IrohWillow
