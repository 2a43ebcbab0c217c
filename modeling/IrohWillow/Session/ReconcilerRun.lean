import IrohWillow.Session.PeerRun
import IrohWillow.Session.IdealStore
import IrohWillow.Session.ReadAccess

/-!
# The run loop of the reconciler

`Reconciler::run` takes intersections from its inbox and messages from the
peer, in any order. The intersections of the session are sent into the inbox
while it runs, and the inbox is closed when the session is; a receiver that has
been cancelled still hands out what is in it. The peer is arbitrary, and other
tasks of the node change the store and bind tokens at any time.

The reconciler is a coroutine: a call goes on until it puts something out, and
from there when the coroutine is resumed. In between, the session handles the
output, and intersections are sent into the inbox.

* `panics_iff_stranded`: the only way to a panic is a message for a target that
  is not known and cannot come any more;
* `reconciledAll_complete_iff` of the next module: `ReconciledAll` says that all
  intersections are reconciled, as long as none waits in the inbox when it is
  put out.
-/

namespace IrohWillow

/-- A reconciler in its run loop. -/
structure ReconcilerRun (σ : Type) [Meadowcap] where
  reconciler : Reconciler σ
  /-- How the loop has ended, when it has. -/
  failure : Option Failure := none
  /-- The intersections that have been sent into the inbox. -/
  submitted : List AoiIntersection := []
  /-- How many outputs of its calls the coroutine has yielded. -/
  yielded : Nat := 0

namespace ReconcilerRun

open Reconciler

/-- What may happen. -/
inductive Action (σ : Type) where
  /-- An intersection is sent into the inbox. -/
  | sendInput (intersection : AoiIntersection)
  /-- The inbox is closed. -/
  | closeInbox
  /-- The reconciler takes an intersection from its inbox. -/
  | takeInput
  /-- The reconciler processes a message of the peer. -/
  | message (message : ReconciliationMessage)
  /-- The coroutine is resumed, and yields the next output of its call. -/
  | resume
  /-- The peer binds a static token. -/
  | bindTheirs (token : StaticToken)
  /-- The data sender binds a static token. -/
  | bindOurs (token : StaticToken)
  /-- The store is changed by others. -/
  | write (store : σ)

/-- How a call has ended the loop. -/
def failureOf : Except Failure Unit → Option Failure
  | .error e => some e
  | .ok () => none

/-- The reconciler before its first step. -/
def start {σ : Type} [Meadowcap] (store : σ) (ourRole : Role) (sessionId : SessionId)
    (maxEagerPayloadSize : U64) : ReconcilerRun σ :=
  { reconciler :=
      { shared :=
          { store := store
            ourRole := ourRole
            sessionId := sessionId
            maxEagerPayloadSize := maxEagerPayloadSize } } }

section Model

variable {σ : Type} [Meadowcap]

/-- What has been put out so far. -/
def putOut (s : ReconcilerRun σ) : List Output := s.reconciler.shared.outputs.take s.yielded

/-- A call has more to put out. -/
def Suspended (s : ReconcilerRun σ) : Prop := s.yielded < s.reconciler.shared.outputs.length

instance (s : ReconcilerRun σ) : Decidable s.Suspended := inferInstanceAs (Decidable (_ < _))

/-- The reconciler has made a call, up to its first output if there is one. -/
def update (s : ReconcilerRun σ) (res : Except Failure Unit × Reconciler σ) : ReconcilerRun σ :=
  { s with
    reconciler := res.2
    failure := failureOf res.1
    yielded := min (s.yielded + 1) res.2.shared.outputs.length }

/-- The parts that the tasks of the node share have changed. -/
def setShared (s : ReconcilerRun σ) (shared : Shared σ) : ReconcilerRun σ :=
  { s with reconciler := { s.reconciler with shared := shared } }

variable [WillowDataModel] [Storage σ]

/-- One step; `none` when the action is not possible. A message that waits for
its target or for a token is not processed yet. -/
def step (session : List AoiIntersection) (s : ReconcilerRun σ) :
    Action σ → Option (ReconcilerRun σ)
  | .sendInput i =>
      if i ∈ session then
        some { s with
          reconciler := { s.reconciler with inbox := s.reconciler.inbox ++ [i] }
          submitted := s.submitted ++ [i] }
      else none
  | .closeInbox => some { s with reconciler := { s.reconciler with inboxClosed := true } }
  | .takeInput =>
      if s.failure.isSome ∨ s.Suspended then none else s.reconciler.takeInput.map s.update
  | .message m =>
      if s.failure.isSome ∨ s.Suspended then none
      else (s.reconciler.receivedMessage m).map s.update
  | .resume => if s.Suspended then some { s with yielded := s.yielded + 1 } else none
  | .bindTheirs token =>
      let tokens := s.reconciler.shared.staticTokens.bindTheirs token
      some (s.setShared { s.reconciler.shared with staticTokens := tokens })
  | .bindOurs token => some (s.setShared (s.reconciler.shared.bindAndSendOurs token).2)
  | .write store => some (s.setShared { s.reconciler.shared with store := store })

/-! ## What a step changes -/

/-- A step of the tasks around the reconciler. -/
structure Around (s s' : ReconcilerRun σ) : Prop where
  failure : s'.failure = s.failure
  submitted : s'.submitted = s.submitted
  targets : s'.reconciler.targets = s.reconciler.targets
  inbox : s'.reconciler.inbox = s.reconciler.inbox
  entryState : s'.reconciler.entryState = s.reconciler.entryState
  outputs : s'.reconciler.shared.outputs = s.reconciler.shared.outputs
  yielded : s'.yielded = s.yielded

variable {session : List AoiIntersection} {s s' : ReconcilerRun σ} {a : Action σ}

omit [WillowDataModel] [Storage σ] in
theorem Around.setShared {shared : Shared σ}
    (h : shared.outputs = s.reconciler.shared.outputs) : Around s (s.setShared shared) :=
  ⟨rfl, rfl, rfl, rfl, rfl, h, rfl⟩

/-- Every step: an input is sent, a task around the reconciler acts, the
coroutine is resumed inside of a call, or the reconciler makes a call. -/
theorem step_cases (h : step session s a = some s') :
    (∃ i ∈ session, a = .sendInput i ∧ s' = { s with
      reconciler := { s.reconciler with inbox := s.reconciler.inbox ++ [i] }
      submitted := s.submitted ++ [i] }) ∨
    ((∀ m, a ≠ .message m) ∧ Around s s') ∨
    (a = .resume ∧ s.Suspended ∧ s' = { s with yielded := s.yielded + 1 }) ∨
    (a = .takeInput ∧ (s.failure = none ∧ ¬ s.Suspended) ∧
      ∃ res, s.reconciler.takeInput = some res ∧ s' = s.update res) ∨
    ∃ m res, a = .message m ∧ (s.failure = none ∧ ¬ s.Suspended) ∧
      s.reconciler.receivedMessage m = some res ∧ s' = s.update res := by
  cases a with
  | sendInput i =>
      simp only [step] at h
      split at h
      · rename_i hi
        exact Or.inl ⟨i, hi, rfl, (Option.some.inj h).symm⟩
      · cases h
  | closeInbox =>
      obtain rfl := Option.some.inj h
      exact Or.inr (Or.inl ⟨by simp, ⟨rfl, rfl, rfl, rfl, rfl, rfl, rfl⟩⟩)
  | takeInput =>
      simp only [step] at h
      split at h
      · cases h
      · rename_i hready
        obtain ⟨res, hres, rfl⟩ := Option.map_eq_some_iff.mp h
        exact Or.inr (Or.inr (Or.inr (Or.inl ⟨rfl, by simpa using hready, res, hres, rfl⟩)))
  | message m =>
      simp only [step] at h
      split at h
      · cases h
      · rename_i hready
        obtain ⟨res, hres, rfl⟩ := Option.map_eq_some_iff.mp h
        exact Or.inr (Or.inr (Or.inr (Or.inr ⟨m, res, rfl, by simpa using hready, hres, rfl⟩)))
  | resume =>
      simp only [step] at h
      split at h
      · rename_i hsuspended
        exact Or.inr (Or.inr (Or.inl ⟨rfl, hsuspended, (Option.some.inj h).symm⟩))
      · cases h
  | bindTheirs token =>
      obtain rfl := Option.some.inj h
      exact Or.inr (Or.inl ⟨by simp, .setShared rfl⟩)
  | bindOurs token =>
      obtain rfl := Option.some.inj h
      obtain ⟨hemits, -⟩ := bindAndSendOurs_spec (P := fun _ => False) s.reconciler.shared token
      exact Or.inr (Or.inl ⟨by simp, .setShared hemits.keeps.outputs⟩)
  | write store =>
      obtain rfl := Option.some.inj h
      exact Or.inr (Or.inl ⟨by simp, .setShared rfl⟩)

end Model

end ReconcilerRun

/-! ## Errors and panics -/

namespace Reconciler

section Model

variable {σ : Type} [Meadowcap] [Storage σ]

/-- A call that ends with a value or with an error. -/
def NoPanic {α : Type} (res : Except Failure α) : Prop := res ≠ .error .panic

theorem sendPayload_noPanic (sh : Shared σ) (target : AoiIntersection) (entry : Entry) :
    NoPanic (Target.sendPayload sh target entry).1 := by
  unfold Target.sendPayload
  repeat' split
  all_goals simp [NoPanic]

theorem sendEntries_noPanic (target : AoiIntersection)
    (entries : List (Except Error AuthorisedEntry)) (sh : Shared σ) :
    NoPanic (Target.sendEntries target entries sh).1 := by
  induction entries generalizing sh with
  | nil => simp [Target.sendEntries, NoPanic]
  | cons item rest ih =>
      cases item with
      | error e => simp [Target.sendEntries, NoPanic]
      | ok a =>
          have hpay := sendPayload_noPanic ((sh.bindAndSendOurs a.token.capability).2.send target
            (.sendEntry (entryMessage sh a)) none) target a.entry
          simp only [entryMessage] at hpay
          simp only [Target.sendEntries]
          split
          · rename_i e sh' heq
            rw [heq] at hpay
            simpa [NoPanic] using hpay
          · exact ih _

theorem announceAndSendEntries_noPanic (sh : Shared σ) (t : Target) (range : Range3d)
    (wantResponse : Bool) (covers : Option Nat) (isEmpty : Bool) :
    NoPanic (t.announceAndSendEntries sh range wantResponse covers isEmpty).1 := by
  rw [announceAndSendEntries_eq]
  split
  · simp [NoPanic]
  · rename_i entries _
    dsimp only
    set m := t.announcement range entries.isEmpty wantResponse covers
    have hsend := sendEntries_noPanic t.intersection entries
      (sh.send m.target m.message m.opened)
    split
    · rename_i e sh' heq
      rw [heq] at hsend
      simpa [NoPanic] using hsend
    · simp [NoPanic]

theorem answerParts_noPanic (rangeCount : Nat)
    (items : List (Except Error (Range3d × SplitAction))) (sh : Shared σ) (t : Target) :
    NoPanic (Target.answerParts rangeCount items sh t).1 := by
  induction items generalizing sh t with
  | nil => simp [Target.answerParts, NoPanic]
  | cons item rest ih =>
      cases item with
      | error e => simp [Target.answerParts, NoPanic]
      | ok part =>
          obtain ⟨range, action⟩ := part
          cases action with
          | sendFingerprint fingerprint => exact ih _ _
          | sendEntries count =>
              simp only [Target.answerParts]
              have hann := announceAndSendEntries_noPanic sh t range true
                (if rest.isEmpty then some rangeCount else none) (count == 0)
              split
              · rename_i e sh' heq
                rw [heq] at hann
                simpa [NoPanic] using hann
              · exact ih _ _

omit [Meadowcap] [Storage σ] in
theorem beginReceive_noPanic (t : Target) (covers : Option Nat) :
    NoPanic (t.beginReceive covers) := by
  unfold Target.beginReceive
  cases covers with
  | none => simp [NoPanic]
  | some rangeCount =>
      simp only [Target.markOurRangeCovered]
      split
      all_goals simp [NoPanic]

theorem receivedSendFingerprint_noPanic (sh : Shared σ) (t : Target)
    (m : ReconciliationSendFingerprint) : NoPanic (t.receivedSendFingerprint sh m).1 := by
  unfold Target.receivedSendFingerprint
  have hbegin := beginReceive_noPanic t m.covers
  split
  · rename_i e heq
    rw [heq] at hbegin
    simpa [NoPanic] using hbegin
  · dsimp only
    unfold Target.answerFingerprint
    split
    · simp [NoPanic]
    · dsimp only
      split
      · exact announceAndSendEntries_noPanic _ _ _ _ _ _
      · split
        · exact announceAndSendEntries_noPanic _ _ _ _ _ _
        · exact answerParts_noPanic _ _ _ _

theorem receivedAnnounceEntries_noPanic (sh : Shared σ) (t : Target)
    (m : ReconciliationAnnounceEntries) : NoPanic (t.receivedAnnounceEntries sh m).1 := by
  unfold Target.receivedAnnounceEntries
  have hbegin := beginReceive_noPanic t m.covers
  split
  · rename_i e heq
    rw [heq] at hbegin
    simpa [NoPanic] using hbegin
  · split
    · exact announceAndSendEntries_noPanic _ _ _ _ _ _
    · simp [NoPanic]

omit [Storage σ] in
theorem completeTarget_noPanic (r : Reconciler σ) (id : TargetId) :
    NoPanic (r.completeTarget id).1 := by
  unfold completeTarget
  split
  all_goals simp [NoPanic]

omit [Storage σ] in
theorem finishTarget_noPanic (r : Reconciler σ) (id : TargetId)
    {res : Except Failure Target × Shared σ} (h : NoPanic res.1) :
    NoPanic (r.finishTarget id res).1 := by
  unfold finishTarget
  split
  · simpa [NoPanic] using h
  · dsimp only
    split
    · exact completeTarget_noPanic _ id
    · simp [NoPanic]

omit [Meadowcap] [Storage σ] in
theorem ensureNone_noPanic (p : CurrentPayload) : NoPanic p.ensureNone := by
  unfold CurrentPayload.ensureNone
  split
  all_goals simp [NoPanic]

omit [Meadowcap] [Storage σ] in
/-- The available length is never below the offset, which is zero. -/
theorem set_noPanic (p : CurrentPayload) (digest : PayloadDigest) (length : U64)
    (available : Option U64) : NoPanic (p.set digest length available none) := by
  unfold CurrentPayload.set
  split
  · simp [NoPanic]
  · simp [NoPanic]

theorem finalize_noPanic (p : CurrentPayload) (store : σ) : NoPanic (p.finalize store).1 := by
  unfold CurrentPayload.finalize
  repeat' split
  all_goals simp [NoPanic]

theorem receivedSendEntry_noPanic (r : Reconciler σ) (m : ReconciliationSendEntry)
    (a : AuthorisedEntry) : NoPanic (r.receivedSendEntry m a).1 := by
  unfold receivedSendEntry
  split
  · simp [NoPanic]
  · rename_i state _
    have hnone := ensureNone_noPanic state.currentPayload
    split
    · rename_i e heq
      rw [heq] at hnone
      simpa [NoPanic] using hnone
    · have hset := set_noPanic state.currentPayload a.entry.payloadDigest a.entry.payloadLength
        (some m.available)
      split
      · rename_i e heq
        rw [heq] at hset
        simpa [NoPanic] using hset
      · dsimp only
        split
        all_goals simp [NoPanic]

omit [Storage σ] in
theorem receivedSendPayload_noPanic (r : Reconciler σ) (bytes : Chunk) :
    NoPanic (r.receivedSendPayload bytes).1 := by
  unfold receivedSendPayload
  split
  · simp [NoPanic]
  · rename_i state _
    cases hinner : state.currentPayload.inner with
    | none => simp [CurrentPayload.recvChunk, hinner, NoPanic]
    | some inner => simp [CurrentPayload.recvChunk, hinner, NoPanic]

/-! ## Completing a target -/

/-- What is put out when a target is completed and `rest` are left. -/
def completion (i : AoiIntersection) (rest : AList (fun _ : TargetId => Target)) : List Output :=
  .reconciledArea i.namespaceId i.intersection ::
    if rest.entries.isEmpty then [.reconciledAll] else []

omit [Storage σ] in
theorem completeTarget_of_lookup {r : Reconciler σ} {id : TargetId} {t : Target}
    (h : r.targets.lookup id = some t) :
    r.completeTarget id = (.ok (), { r with
      targets := r.targets.erase id
      shared := { r.shared with
        outputs := r.shared.outputs ++ completion t.intersection (r.targets.erase id) } }) := by
  unfold completeTarget completion
  rw [h]
  dsimp only
  split
  all_goals simp

omit [Storage σ] in
/-- After an answer the target is stored; or nothing is left of it, and it is
completed. -/
theorem finishTarget_ok {r r' : Reconciler σ} {id : TargetId}
    {res : Except Failure Target × Shared σ} (h : r.finishTarget id res = (.ok (), r')) :
    ∃ t sh, res = (.ok t, sh) ∧
      ((t.isComplete = true ∧ r.entryState = none ∧ r' = { r with
          targets := (r.targets.insert id t).erase id
          shared := { sh with
            outputs := sh.outputs ++
              completion t.intersection ((r.targets.insert id t).erase id) } }) ∨
        r' = { r with shared := sh, targets := r.targets.insert id t }) := by
  obtain ⟨res, sh⟩ := res
  cases res with
  | error e => cases (Prod.mk.inj h).1
  | ok t =>
      refine ⟨t, sh, rfl, ?_⟩
      simp only [finishTarget] at h
      split at h
      · rename_i hdone
        obtain ⟨hcomplete, hnone⟩ := Bool.and_eq_true_iff.mp hdone
        rw [completeTarget_of_lookup (t := t) (by simp)] at h
        exact Or.inl ⟨hcomplete, Option.isNone_iff_eq_none.mp hnone, (Prod.mk.inj h).2.symm⟩
      · exact Or.inr (Prod.mk.inj h).2.symm

/-! ## Panics -/

/-- The target is not known, and no intersection will come any more. -/
def NeverComes (r : Reconciler σ) (id : TargetId) : Prop :=
  r.targets.lookup id = none ∧ r.inbox = [] ∧ r.inboxClosed = true

/-- The message names a target that never comes. -/
def Strands (r : Reconciler σ) : ReconciliationMessage → Prop
  | .sendFingerprint m => r.NeverComes m.handles
  | .announceEntries m => r.entryState = none ∧ r.NeverComes m.handles
  | _ => False

instance (r : Reconciler σ) (id : TargetId) : Decidable (r.NeverComes id) :=
  inferInstanceAs (Decidable (_ ∧ _ ∧ _))

instance (r : Reconciler σ) (m : ReconciliationMessage) : Decidable (r.Strands m) := by
  cases m <;> unfold Strands <;> infer_instance

/-- The target of the entries that are being received is known. -/
def EntryStateKnown (r : Reconciler σ) : Prop :=
  ∀ state, r.entryState = some state → state.target ∈ r.targets

omit [Storage σ] in
/-- Waiting for a target fails exactly when it never comes. -/
theorem getEventually_panic_iff {r : Reconciler σ} {id : TargetId} :
    r.getEventually id = some (.error .panic) ↔ r.NeverComes id := by
  unfold getEventually NeverComes
  cases hlookup : r.targets.lookup id with
  | some t => simp
  | none => simp

omit [Storage σ] in
/-- A call for a target ends with a panic exactly when the target never comes. -/
theorem panic_iff_neverComes {r : Reconciler σ} {id : TargetId}
    {answer : Target → Except Failure Target × Shared σ}
    {res : Except Failure Unit × Reconciler σ} (hanswer : ∀ t, NoPanic (answer t).1)
    (h : (r.getEventually id).map (fun
        | .error e => (.error e, r)
        | .ok t => r.finishTarget id (answer t)) = some res) :
    res.1 = .error .panic ↔ r.NeverComes id := by
  obtain ⟨found, hfound, rfl⟩ := Option.map_eq_some_iff.mp h
  rw [← getEventually_panic_iff, hfound]
  rcases getEventually_cases hfound with ⟨t, -, rfl⟩ | rfl
  · have hno : NoPanic (r.finishTarget id (answer t)).1 := finishTarget_noPanic r id (hanswer t)
    exact ⟨fun hpanic => absurd hpanic hno, fun hpanic => by cases Option.some.inj hpanic⟩
  · exact ⟨fun _ => rfl, fun _ => rfl⟩

theorem receivedTerminatePayload_noPanic {r : Reconciler σ} (hknown : r.EntryStateKnown)
    (isFinal : Bool) : NoPanic (r.receivedTerminatePayload isFinal).1 := by
  unfold receivedTerminatePayload
  split
  · simp [NoPanic]
  · rename_i state hstate
    obtain ⟨t, ht⟩ := Option.isSome_iff_exists.mp (AList.lookup_isSome.mpr (hknown state hstate))
    have hfinal := finalize_noPanic state.currentPayload r.shared.store
    split
    · rename_i e store heq
      rw [heq] at hfinal
      simpa [NoPanic] using hfinal
    · dsimp only
      rw [ht]
      dsimp only
      split
      · split
        · exact completeTarget_noPanic _ _
        · simp [NoPanic]
      · simp [NoPanic]

/-- A message ends with a panic exactly when it names a target that never
comes. -/
theorem receivedMessage_panic_iff {r : Reconciler σ} (hknown : r.EntryStateKnown)
    {m : ReconciliationMessage} {res : Except Failure Unit × Reconciler σ}
    (h : r.receivedMessage m = some res) : res.1 = .error .panic ↔ r.Strands m := by
  cases m with
  | sendFingerprint m =>
      exact panic_iff_neverComes (fun t => receivedSendFingerprint_noPanic r.shared t m) h
  | announceEntries m =>
      unfold receivedMessage at h
      dsimp only at h
      split at h
      · rename_i e heq
        obtain rfl := Option.some.inj h
        unfold entryStateAnnounce at heq
        split at heq
        · rename_i state hstate
          obtain rfl := Except.error.inj heq
          simp [Strands, hstate]
        · cases heq
      · rename_i r₁ hr₁
        obtain ⟨hnone, rfl⟩ := entryStateAnnounce_ok hr₁
        rw [panic_iff_neverComes (fun t => receivedAnnounceEntries_noPanic r.shared t m) h]
        simp [Strands, NeverComes, hnone]
  | sendEntry m =>
      have hno : NoPanic res.1 := by
        unfold receivedMessage at h
        dsimp only at h
        split at h
        · cases h
        · obtain rfl := Option.some.inj h
          simp [NoPanic]
        · obtain rfl := Option.some.inj h
          exact receivedSendEntry_noPanic r m _
      exact ⟨fun hpanic => absurd hpanic hno, False.elim⟩
  | sendPayload bytes =>
      obtain rfl := Option.some.inj h
      exact ⟨fun hpanic => absurd hpanic (receivedSendPayload_noPanic r bytes), False.elim⟩
  | terminatePayload isFinal =>
      obtain rfl := Option.some.inj h
      exact ⟨fun hpanic => absurd hpanic (receivedTerminatePayload_noPanic hknown isFinal),
        False.elim⟩

/-! ## When a target is completed -/

/-- All ranges of the target are covered, counting the range that the message
covers. -/
def Target.AllCovered (t : Target) (covers : Option Nat) : Prop :=
  t.ourUncoveredRanges \ covers.toFinset = ∅

/-- The answer to the fingerprint opens no range: it is the fingerprint that we
have, or the range is split into no parts. -/
def OpensNothing (store : σ) (target : AoiIntersection) (m : ReconciliationSendFingerprint) :
    Prop :=
  Storage.fingerprint store target.namespaceId m.range = .ok m.fingerprint ∨
    Storage.splitRange store target.namespaceId m.range {} = []

/-- The message is the last one that the target waits for. -/
def Completes (r : Reconciler σ) (id : TargetId) (t : Target) : ReconciliationMessage → Prop
  | .sendFingerprint m => m.handles = id ∧ r.entryState = none ∧ t.AllCovered m.covers ∧
      OpensNothing r.shared.store t.intersection m
  | .announceEntries m => m.handles = id ∧ r.entryState = none ∧ m.isEmpty = true ∧
      t.AllCovered m.covers
  | .terminatePayload isFinal => isFinal = true ∧ t.isComplete = true ∧
      ∃ state, r.entryState = some state ∧ state.target = id
  | _ => False

omit [Meadowcap] [Storage σ] in
theorem isComplete_iff (t : Target) :
    t.isComplete = true ↔ t.started = true ∧ t.ourUncoveredRanges = ∅ := by
  simp [Target.isComplete]

theorem AnswersParts.uncovered_mono {store : σ} {rangeCount : Nat}
    {parts : List (Range3d × SplitAction)} {t t' : Target} {new : List Sent}
    (h : AnswersParts store rangeCount parts t t' new) :
    t.ourUncoveredRanges ⊆ t'.ourUncoveredRanges := by
  induction h with
  | nil => exact subset_rfl
  | fingerprint _ ih => exact (Finset.subset_insert _ _).trans ih
  | entries _ _ ih => exact (Finset.subset_insert _ _).trans ih

/-- A range that is split is not covered yet. -/
theorem AnswersParts.uncovered_ne_empty {store : σ} {rangeCount : Nat}
    {parts : List (Range3d × SplitAction)} {t t' : Target} {new : List Sent}
    (h : AnswersParts store rangeCount parts t t' new) (hne : parts ≠ []) :
    t'.ourUncoveredRanges ≠ ∅ := by
  have hmem : t.ourRangeCounter ∈ t.markOurNextRangePending.2.ourUncoveredRanges :=
    Finset.mem_insert_self _ _
  cases h with
  | nil => exact absurd rfl hne
  | fingerprint hrest => exact Finset.ne_empty_of_mem (hrest.uncovered_mono hmem)
  | entries _ hrest => exact Finset.ne_empty_of_mem (hrest.uncovered_mono hmem)

/-- When nothing is left after the answer to a fingerprint, then the answer has
opened no range. -/
theorem Answers.of_uncovered_empty {store : σ} {t t' : Target}
    {m : ReconciliationSendFingerprint} {rangeCount : Nat} {ours : Fingerprint} {new : List Sent}
    (h : Answers store t m rangeCount ours t' new) (hempty : t'.ourUncoveredRanges = ∅) :
    t.ourUncoveredRanges = ∅ ∧
      (ours = m.fingerprint ∨ Storage.splitRange store t.intersection.namespaceId m.range {} = []) := by
  cases h with
  | matching heq _ => exact ⟨hempty, Or.inl heq⟩
  | empty _ _ _ =>
      exact absurd hempty (Finset.ne_empty_of_mem (Finset.mem_insert_self _ _))
  | split _ hparts hnew =>
      refine ⟨Finset.subset_empty.mp (hempty ▸ hnew.uncovered_mono), Or.inr ?_⟩
      by_contra hne
      refine hnew.uncovered_ne_empty (fun h => hne ?_) hempty
      rw [hparts, h, List.map_nil]

/-- When nothing is left after a fingerprint has been answered, then it was the
last one. -/
theorem receivedSendFingerprint_complete {sh sh' : Shared σ} {t t' : Target}
    {m : ReconciliationSendFingerprint} (h : t.receivedSendFingerprint sh m = (.ok t', sh'))
    (hcomplete : t'.isComplete = true) :
    t.AllCovered m.covers ∧ OpensNothing sh.store t.intersection m := by
  unfold Target.receivedSendFingerprint at h
  split at h
  · cases (Prod.mk.inj h).1
  · rename_i t₁ hbegin
    obtain ⟨rfl, -⟩ := beginReceive_ok hbegin
    dsimp only [Target.nextRangeCountTheirs] at h
    rcases answerFingerprint_spec sh _ m t.theirRangeCounter with
      ⟨e, heq⟩ | ⟨ours, new, hours, -, hok⟩
    · rw [heq] at h
      cases (Prod.mk.inj h).1
    · rw [h] at hok
      obtain ⟨hcovered, hopens⟩ :=
        (hok t' rfl).of_uncovered_empty ((isComplete_iff t').mp hcomplete).2
      refine ⟨hcovered, hopens.imp (fun heq => ?_) id⟩
      rw [hours, heq]

theorem receivedAnnounceEntries_complete {sh sh' : Shared σ} {t t' : Target}
    {m : ReconciliationAnnounceEntries} (h : t.receivedAnnounceEntries sh m = (.ok t', sh'))
    (hcomplete : t'.isComplete = true) : t.AllCovered m.covers := by
  unfold Target.receivedAnnounceEntries at h
  split at h
  · cases (Prod.mk.inj h).1
  · rename_i t₁ hbegin
    obtain ⟨rfl, -⟩ := beginReceive_ok hbegin
    split at h
    · dsimp only [Target.nextRangeCountTheirs] at h
      set t₂ : Target := { t with
        started := true
        ourUncoveredRanges := t.ourUncoveredRanges \ m.covers.toFinset
        theirRangeCounter := t.theirRangeCounter + 1 } with ht₂
      obtain ⟨new, -, hok⟩ := announceAndSendEntries_spec sh t₂ m.range false
        (some t.theirRangeCounter) false
      rw [h] at hok
      obtain ⟨rfl, -⟩ := hok t' rfl
      exact ((isComplete_iff _).mp hcomplete).2
    · obtain ⟨heq, -⟩ := Prod.mk.inj h
      obtain rfl := Except.ok.inj heq
      exact ((isComplete_iff _).mp hcomplete).2

/-- Answering puts nothing out. -/
theorem receivedSendFingerprint_outputs (sh : Shared σ) (t : Target)
    (m : ReconciliationSendFingerprint) :
    (t.receivedSendFingerprint sh m).2.outputs = sh.outputs := by
  unfold Target.receivedSendFingerprint
  split
  · rfl
  · rename_i t₁ _
    rcases answerFingerprint_spec sh t₁.nextRangeCountTheirs.2 m t₁.nextRangeCountTheirs.1 with
      ⟨e, heq⟩ | ⟨ours, new, -, hemits, -⟩
    · dsimp only
      rw [heq]
    · exact hemits.keeps.outputs

theorem receivedAnnounceEntries_outputs (sh : Shared σ) (t : Target)
    (m : ReconciliationAnnounceEntries) :
    (t.receivedAnnounceEntries sh m).2.outputs = sh.outputs := by
  unfold Target.receivedAnnounceEntries
  split
  · rfl
  · rename_i t₁ _
    split
    · obtain ⟨new, hemits, -⟩ := announceAndSendEntries_spec sh t₁.nextRangeCountTheirs.2 m.range
        false (some t₁.nextRangeCountTheirs.1) false
      exact hemits.keeps.outputs
    · rfl

/-! ## What a successful call does to the targets -/

/-- The targets stay, or the one that has become complete is taken out and put
out as reconciled. -/
inductive Progress (r r' : Reconciler σ) (m : ReconciliationMessage) : Prop
  | keeps (inbox : r'.inbox = r.inbox) (targets : ∀ id, id ∈ r'.targets ↔ id ∈ r.targets)
      (outputs : r'.shared.outputs = r.shared.outputs)
      (known : r.EntryStateKnown → r'.EntryStateKnown)
  | completes (id : TargetId) (t : Target) (lookup : r.targets.lookup id = some t)
      (completes : r.Completes id t m) (inbox : r'.inbox = r.inbox)
      (targets : ∀ id', id' ∈ r'.targets ↔ id' ≠ id ∧ id' ∈ r.targets)
      (outputs : r'.shared.outputs = r.shared.outputs ++ completion t.intersection r'.targets)
      (idle : r'.entryState = none)

omit [Meadowcap] [Storage σ] in
theorem mem_insert_of_lookup {targets : AList (fun _ : TargetId => Target)} {id id' : TargetId}
    {t t' : Target} (h : targets.lookup id = some t) :
    id' ∈ targets.insert id t' ↔ id' ∈ targets := by
  rw [AList.mem_insert]
  refine ⟨?_, Or.inr⟩
  rintro (rfl | hmem)
  · exact AList.lookup_isSome.mp (by simp [h])
  · exact hmem

/-- The end of a call for a target. -/
theorem Progress.finishTarget {r r' : Reconciler σ} {m : ReconciliationMessage} {id : TargetId}
    {t : Target} {res : Except Failure Target × Shared σ} (ht : r.targets.lookup id = some t)
    (h : r.finishTarget id res = (.ok (), r'))
    (houtputs : res.2.outputs = r.shared.outputs)
    (hintersection : ∀ t', res.1 = .ok t' → t'.intersection = t.intersection)
    (hcompletes : ∀ t' sh', res = (.ok t', sh') → t'.isComplete = true → r.entryState = none →
      r.Completes id t m) : r.Progress r' m := by
  obtain ⟨t', sh', rfl, ⟨hcomplete, hnone, rfl⟩ | rfl⟩ := finishTarget_ok h
  · refine .completes id t ht (hcompletes t' sh' rfl hcomplete hnone) rfl (fun id' => ?_) ?_ hnone
    · rw [AList.mem_erase, mem_insert_of_lookup ht]
    · dsimp only
      rw [houtputs, hintersection t' rfl]
  · refine .keeps rfl (fun id' => mem_insert_of_lookup ht) houtputs ?_
    intro hknown state hstate
    exact (mem_insert_of_lookup ht).mpr (hknown state hstate)

theorem Progress.sendFingerprint {r r' : Reconciler σ} {m : ReconciliationSendFingerprint}
    (h : r.receivedMessage (.sendFingerprint m) = some (.ok (), r')) :
    r.Progress r' (.sendFingerprint m) := by
  rcases receivedMessage_sendFingerprint h with ⟨e, heq, -⟩ | ⟨t, ht, heq⟩
  · cases heq
  · refine .finishTarget ht heq.symm (receivedSendFingerprint_outputs r.shared t m)
      (fun t' hres => receivedSendFingerprint_intersection hres) fun t' sh' hres hcomplete hnone => ?_
    exact ⟨rfl, hnone, receivedSendFingerprint_complete hres hcomplete⟩

theorem Progress.announceEntries {r r' : Reconciler σ} {m : ReconciliationAnnounceEntries}
    (h : r.receivedMessage (.announceEntries m) = some (.ok (), r')) :
    r.Progress r' (.announceEntries m) := by
  rcases receivedMessage_announceEntries h with ⟨e, heq, -⟩ | ⟨r₁, hr₁, ⟨e, heq, -⟩ | ⟨t, ht, heq⟩⟩
  · cases heq
  · cases heq
  · obtain ⟨hnone, rfl⟩ := entryStateAnnounce_ok hr₁
    cases hempty : m.isEmpty with
    | true =>
        rw [hempty] at heq
        have hsame : { r with entryState := none } = r := by simp [← hnone]
        refine .finishTarget ht (hsame ▸ heq.symm)
          (receivedAnnounceEntries_outputs r.shared t m)
          (fun t' hres => receivedAnnounceEntries_intersection hres)
          fun t' sh' hres hcomplete _ => ?_
        exact ⟨rfl, hnone, hempty, receivedAnnounceEntries_complete hres hcomplete⟩
    | false =>
        -- entries follow, for the target that is stored
        rw [hempty] at heq
        obtain ⟨t', sh', hres, ⟨-, hfalse, -⟩ | rfl⟩ := finishTarget_ok heq.symm
        · cases hfalse
        · have houtputs := receivedAnnounceEntries_outputs r.shared t m
          rw [hres] at houtputs
          refine .keeps rfl (fun id' => mem_insert_of_lookup ht) houtputs fun _ state hstate => ?_
          obtain rfl := Option.some.inj hstate
          exact (AList.mem_insert _).mpr (Or.inl rfl)

theorem Progress.sendEntry {r r' : Reconciler σ} {m : ReconciliationSendEntry}
    (h : r.receivedMessage (.sendEntry m) = some (.ok (), r')) :
    r.Progress r' (.sendEntry m) := by
  unfold receivedMessage at h
  dsimp only at h
  split at h
  · cases h
  · cases (Prod.mk.inj (Option.some.inj h)).1
  · rename_i a _
    obtain rfl := congrArg Prod.snd (Option.some.inj h)
    rcases receivedSendEntry_cases r m a with heq | ⟨state, payload, store, new, hstate, -, heq⟩
    · rw [heq]
      exact .keeps rfl (fun _ => Iff.rfl) rfl id
    · rw [heq]
      refine .keeps rfl (fun _ => Iff.rfl) rfl fun hknown state' hstate' => ?_
      obtain rfl := Option.some.inj hstate'
      exact hknown state hstate

theorem Progress.sendPayload (r : Reconciler σ) (bytes : Chunk) :
    r.Progress (r.receivedSendPayload bytes).2 (.sendPayload bytes) := by
  unfold receivedSendPayload
  split
  · exact .keeps rfl (fun _ => Iff.rfl) rfl id
  · rename_i state hstate
    split
    · exact .keeps rfl (fun _ => Iff.rfl) rfl id
    · refine .keeps rfl (fun _ => Iff.rfl) rfl fun hknown state' hstate' => ?_
      obtain rfl := Option.some.inj hstate'
      exact hknown state hstate

theorem Progress.terminatePayload (r : Reconciler σ) (isFinal : Bool) :
    r.Progress (r.receivedTerminatePayload isFinal).2 (.terminatePayload isFinal) := by
  unfold receivedTerminatePayload
  split
  · exact .keeps rfl (fun _ => Iff.rfl) rfl id
  · rename_i state hstate
    split
    · exact .keeps rfl (fun _ => Iff.rfl) rfl id
    · rename_i payload store _
      dsimp only
      split
      · rename_i hfinal
        split
        · exact .keeps rfl (fun _ => Iff.rfl) rfl fun _ state hstate => by cases hstate
        · rename_i t ht
          split
          · rename_i hcomplete
            have hdone := completeTarget_of_lookup (r := { r with
              shared := { r.shared with store := store }
              entryState := none }) ht
            rw [hdone]
            exact .completes state.target t ht ⟨hfinal, hcomplete, state, hstate, rfl⟩ rfl
              (fun id' => AList.mem_erase) rfl rfl
          · exact .keeps rfl (fun _ => Iff.rfl) rfl fun _ state hstate => by cases hstate
      · refine .keeps rfl (fun _ => Iff.rfl) rfl fun hknown state' hstate' => ?_
        obtain rfl := Option.some.inj hstate'
        exact hknown state hstate

/-- Every message that is processed without an error. -/
theorem Progress.of_receivedMessage {r r' : Reconciler σ} {m : ReconciliationMessage}
    (h : r.receivedMessage m = some (.ok (), r')) : r.Progress r' m := by
  cases m with
  | sendFingerprint m => exact .sendFingerprint h
  | announceEntries m => exact .announceEntries h
  | sendEntry m => exact .sendEntry h
  | sendPayload bytes =>
      obtain rfl := congrArg Prod.snd (Option.some.inj h)
      exact .sendPayload r bytes
  | terminatePayload isFinal =>
      obtain rfl := congrArg Prod.snd (Option.some.inj h)
      exact .terminatePayload r isFinal

omit [Storage σ] in
/-- A call for a target that fails changes nothing but what is shared. -/
theorem finishTarget_error {r r' : Reconciler σ} {id : TargetId} {e : Failure}
    {res : Except Failure Target × Shared σ} (h : r.finishTarget id res = (.error e, r')) :
    r' = { r with shared := res.2 } := by
  obtain ⟨res, sh⟩ := res
  cases res with
  | error e => exact (Prod.mk.inj h).2.symm
  | ok t =>
      simp only [finishTarget] at h
      split at h
      · rw [completeTarget_of_lookup (t := t) (by simp)] at h
        cases (Prod.mk.inj h).1
      · cases (Prod.mk.inj h).1

/-- A message that is refused puts nothing out. -/
theorem outputs_of_error {r r' : Reconciler σ} {m : ReconciliationMessage} {e : Failure}
    (h : r.receivedMessage m = some (.error e, r')) : r'.shared.outputs = r.shared.outputs := by
  cases m with
  | sendFingerprint m =>
      rcases receivedMessage_sendFingerprint h with ⟨_, -, rfl⟩ | ⟨t, -, heq⟩
      · rfl
      · rw [finishTarget_error heq.symm]
        exact receivedSendFingerprint_outputs r.shared t m
  | announceEntries m =>
      rcases receivedMessage_announceEntries h with ⟨_, -, rfl⟩ | ⟨r₁, hr₁, hcases⟩
      · rfl
      · obtain ⟨-, rfl⟩ := entryStateAnnounce_ok hr₁
        rcases hcases with ⟨_, -, rfl⟩ | ⟨t, -, heq⟩
        · rfl
        · rw [finishTarget_error heq.symm]
          exact receivedAnnounceEntries_outputs r.shared t m
  | sendEntry m =>
      unfold receivedMessage at h
      dsimp only at h
      split at h
      · cases h
      · obtain rfl := congrArg Prod.snd (Option.some.inj h)
        rfl
      · rename_i a _
        obtain rfl := congrArg Prod.snd (Option.some.inj h)
        rcases receivedSendEntry_cases r m a with heq | ⟨_, _, _, _, -, -, heq⟩
        · rw [heq]
        · rw [heq]
  | sendPayload bytes =>
      obtain rfl := congrArg Prod.snd (Option.some.inj h)
      cases Progress.sendPayload r bytes with
      | keeps _ _ houtputs _ => exact houtputs
      -- a chunk of a payload completes no target
      | completes _ _ _ hfalse _ _ _ _ => exact hfalse.elim
  | terminatePayload isFinal =>
      have heq : r.receivedTerminatePayload isFinal = (.error e, r') := Option.some.inj h
      unfold receivedTerminatePayload at heq
      split at heq
      · obtain ⟨-, rfl⟩ := Prod.mk.inj heq
        rfl
      · split at heq
        · obtain ⟨-, rfl⟩ := Prod.mk.inj heq
          rfl
        · dsimp only at heq
          split at heq
          · split at heq
            · obtain ⟨-, rfl⟩ := Prod.mk.inj heq
              rfl
            · rename_i state _ _ store _ _ _ t ht
              split at heq
              · -- once the payload is committed, completing the target cannot fail
                rw [completeTarget_of_lookup (r := { r with
                  shared := { r.shared with store := store }
                  entryState := none }) ht] at heq
                cases (Prod.mk.inj heq).1
              · cases (Prod.mk.inj heq).1
          · cases (Prod.mk.inj heq).1

/-- The target of the entries that are being received stays known. -/
theorem Progress.known {r r' : Reconciler σ} {m : ReconciliationMessage} (h : r.Progress r' m)
    (hknown : r.EntryStateKnown) : r'.EntryStateKnown := by
  cases h with
  | keeps _ _ _ hkeep => exact hkeep hknown
  | completes _ _ _ _ _ _ _ hidle =>
      intro state hstate
      rw [hidle] at hstate
      cases hstate

end Model

end Reconciler

/-! ## Every run -/

namespace ReconcilerRun

open Reconciler

section Model

variable {σ : Type} [Meadowcap] [WillowDataModel] [Storage σ] {session : List AoiIntersection}
  {s s' : ReconcilerRun σ} {a : Action σ}

/-- What `takeInput` adds to the targets: one that is new, under its handles. -/
theorem takeInput_targets {r r' : Reconciler σ} (h : r.takeInput = some (.ok (), r')) :
    ∃ i t, r.inbox = i :: r'.inbox ∧ t.intersection = i ∧
      r'.targets = r.targets.insert i.id t ∧ r'.entryState = r.entryState ∧
      r'.shared.outputs = r.shared.outputs := by
  obtain ⟨i, inbox, hinbox, ⟨e, heq, -⟩ | ⟨t, sh, hinit, -, rfl⟩⟩ := takeInput_cases h
  · cases heq
  · refine ⟨i, t, hinbox, init_intersection hinit, rfl, rfl, ?_⟩
    rcases init_cases r.shared i with ⟨e, heq⟩ | heq | ⟨range, fp, -, -, -, heq⟩
    · rw [heq] at hinit
      cases (Prod.mk.inj hinit).1
    all_goals
      rw [heq] at hinit
      obtain ⟨-, rfl⟩ := Prod.mk.inj hinit
      rfl

theorem takeInput_noPanic {r : Reconciler σ}
    (hpath : ∀ i ∈ r.inbox, GreaterButNotPrefixedSpec i.area.path)
    {res : Except Failure Unit × Reconciler σ} (h : r.takeInput = some res) :
    NoPanic res.1 := by
  unfold Reconciler.takeInput at h
  split at h
  · cases h
  · rename_i i inbox hinbox
    have hi : GreaterButNotPrefixedSpec i.area.path :=
      hpath i (hinbox ▸ List.mem_cons_self)
    have hinit : NoPanic (Target.init r.shared i).1 := by
      obtain ⟨range, hrange⟩ := Area.exists_toRange hi
      unfold Target.init
      dsimp only
      split
      · simp [NoPanic]
      · rw [hrange]
        dsimp only
        split
        all_goals simp [NoPanic]
    split at h
    · rename_i e sh heq
      rw [heq] at hinit
      obtain rfl := Option.some.inj h
      simpa [NoPanic] using hinit
    · obtain rfl := Option.some.inj h
      simp [NoPanic]

omit [Meadowcap] [WillowDataModel] [Storage σ] in
theorem failureOf_eq_panic {res : Except Failure Unit} :
    failureOf res = some .panic ↔ res = .error .panic := by
  cases res <;> simp [failureOf]

omit [Meadowcap] [WillowDataModel] [Storage σ] in
theorem failureOf_eq_none {res : Except Failure Unit} : failureOf res = none ↔ res = .ok () := by
  cases res <;> simp [failureOf]

/-! ### No panic -/

/-- The action is a message for a target that never comes. -/
def Stranded (s : ReconcilerRun σ) : Action σ → Prop
  | .message m => s.reconciler.Strands m
  | _ => False

instance (s : ReconcilerRun σ) (a : Action σ) : Decidable (s.Stranded a) := by
  cases a <;> unfold Stranded <;> infer_instance

omit [WillowDataModel] [Storage σ] in
theorem not_stranded (hno : ∀ m, a ≠ .message m) : ¬ s.Stranded a := by
  cases a with
  | message m => exact absurd rfl (hno m)
  | _ => exact id

/-- While the loop runs, the target of the entries that are being received is
known, and only intersections of the session wait. -/
structure Sound (session : List AoiIntersection) (s : ReconcilerRun σ) : Prop where
  noPanic : s.failure ≠ some .panic
  inbox : ∀ i ∈ s.reconciler.inbox, i ∈ session
  known : s.failure = none → s.reconciler.EntryStateKnown

omit [WillowDataModel] in
theorem inbox_of_receivedMessage {r r' : Reconciler σ} {m : ReconciliationMessage}
    {res : Except Failure Unit} (h : r.receivedMessage m = some (res, r')) :
    r'.inbox = r.inbox := by
  cases m with
  | sendFingerprint m =>
      rcases receivedMessage_sendFingerprint h with ⟨e, -, rfl⟩ | ⟨t, -, heq⟩
      · rfl
      · obtain rfl := congrArg Prod.snd heq
        exact (finishTarget_spec _ _ _).2.1
  | announceEntries m =>
      rcases receivedMessage_announceEntries h with ⟨e, -, rfl⟩ | ⟨r₁, hr₁, hcases⟩
      · rfl
      · obtain ⟨-, rfl⟩ := entryStateAnnounce_ok hr₁
        rcases hcases with ⟨e, -, rfl⟩ | ⟨t, -, heq⟩
        · rfl
        · obtain rfl := congrArg Prod.snd heq
          exact (finishTarget_spec _ _ _).2.1
  | sendEntry _ => exact (receivedMessage_silent h (by simp) (by simp)).inbox
  | sendPayload _ => exact (receivedMessage_silent h (by simp) (by simp)).inbox
  | terminatePayload _ => exact (receivedMessage_silent h (by simp) (by simp)).inbox

/-- One step ends with a panic exactly when it is stranded. -/
theorem Sound.panic_iff (hpath : ∀ i ∈ session, GreaterButNotPrefixedSpec i.area.path)
    (h : Sound session s) (hstep : step session s a = some s') :
    s'.failure = some .panic ↔ s.Stranded a := by
  rcases step_cases hstep with ⟨i, -, rfl, rfl⟩ | ⟨hno, haround⟩ | ⟨rfl, -, rfl⟩ |
    ⟨rfl, -, res, hres, rfl⟩ | ⟨m, res, rfl, ⟨hrunning, -⟩, hres, rfl⟩
  · exact ⟨fun hpanic => absurd hpanic h.noPanic, False.elim⟩
  · rw [haround.failure]
    exact ⟨fun hpanic => absurd hpanic h.noPanic, fun hs => absurd hs (not_stranded hno)⟩
  · exact ⟨fun hpanic => absurd hpanic h.noPanic, False.elim⟩
  · have hno : NoPanic res.1 := takeInput_noPanic (fun i hi => hpath i (h.inbox i hi)) hres
    exact ⟨fun hpanic => absurd (failureOf_eq_panic.mp hpanic) hno, False.elim⟩
  · show failureOf res.1 = some .panic ↔ s.reconciler.Strands m
    rw [failureOf_eq_panic]
    exact receivedMessage_panic_iff (h.known hrunning) hres

theorem Sound.step (hpath : ∀ i ∈ session, GreaterButNotPrefixedSpec i.area.path)
    (h : Sound session s) (ha : ¬ s.Stranded a) (hstep : step session s a = some s') :
    Sound session s' := by
  have hno : s'.failure ≠ some .panic := fun hpanic => ha ((h.panic_iff hpath hstep).mp hpanic)
  rcases step_cases hstep with ⟨i, hi, rfl, rfl⟩ | ⟨-, haround⟩ | ⟨rfl, -, rfl⟩ |
    ⟨rfl, ⟨hrunning, -⟩, ⟨res, r⟩, hres, rfl⟩ | ⟨m, ⟨res, r⟩, rfl, ⟨hrunning, -⟩, hres, rfl⟩
  · refine ⟨hno, fun j hj => ?_, h.known⟩
    rcases List.mem_append.mp hj with hj | hj
    · exact h.inbox j hj
    · obtain rfl := List.mem_singleton.mp hj
      exact hi
  · refine ⟨hno, haround.inbox ▸ h.inbox, fun hrunning state hstate => ?_⟩
    rw [haround.targets]
    exact h.known (haround.failure ▸ hrunning) state (haround.entryState ▸ hstate)
  · exact ⟨hno, h.inbox, h.known⟩
  · obtain ⟨i, inbox, hinbox, hcases⟩ := takeInput_cases hres
    have hrest : ∀ j ∈ r.inbox, j ∈ session := by
      intro j hj
      refine h.inbox j (hinbox ▸ List.mem_cons_of_mem _ ?_)
      rcases hcases with ⟨e, -, rfl⟩ | ⟨t, sh, -, -, rfl⟩
      · exact hj
      · exact hj
    refine ⟨hno, hrest, fun hok state hstate => ?_⟩
    obtain rfl := failureOf_eq_none.mp hok
    obtain ⟨i, t, -, -, htargets, hentry, -⟩ := takeInput_targets hres
    show state.target ∈ r.targets
    rw [htargets, AList.mem_insert]
    exact Or.inr (h.known hrunning state (hentry ▸ hstate))
  · refine ⟨hno, fun j hj => h.inbox j (inbox_of_receivedMessage hres ▸ hj), fun hok => ?_⟩
    obtain rfl := failureOf_eq_none.mp hok
    exact (Progress.of_receivedMessage hres).known (h.known hrunning)

/-- **Panics.** In every run in which no message for a target that never comes
is processed, the reconciler does not panic; and in every state of such a run,
a step ends with a panic exactly when it processes one. -/
theorem panics_iff_stranded (hpath : ∀ i ∈ session, GreaterButNotPrefixedSpec i.area.path)
    (store : σ) (ourRole : Role) (sessionId : SessionId) (maxEagerPayloadSize : U64)
    (hrun : Transition.Reachable (step session) (fun s a => ¬ Stranded s a)
      (start store ourRole sessionId maxEagerPayloadSize) s) :
    s.failure ≠ some .panic ∧
      ∀ a s', step session s a = some s' → (s'.failure = some .panic ↔ s.Stranded a) := by
  have hstart : Sound session (start store ourRole sessionId maxEagerPayloadSize) :=
    ⟨by simp [start], by simp [start], fun _ state h => by simp [start] at h⟩
  have hsound : Sound session s :=
    hrun.invariant (P := Sound session) hstart fun _ _ _ h ha hstep => h.step hpath ha hstep
  exact ⟨hsound.noPanic, fun a s' hstep => hsound.panic_iff hpath hstep⟩

end Model

/-! ### A message after the end -/

section Samples

open IrohWillow.Sample

attribute [local instance] acceptingSignatures timestampHash ReadAccess.Sample.nestedAreas

/-- Everything in the sample namespace, as an intersection under the handles. -/
def Sample.target (ourHandle theirHandle : AreaOfInterestHandle) : AoiIntersection :=
  { ourHandle := ourHandle
    theirHandle := theirHandle
    intersection := ⟨.full, 0, 0⟩
    namespaceId := namespaceId }

/-- The empty fingerprint of everything, for the target under the handles. -/
def Sample.fingerprintFor (ourHandle theirHandle : AreaOfInterestHandle) :
    Action IdealStore :=
  .message (.sendFingerprint ⟨.full, 0, theirHandle, ourHandle, none⟩)

/-- Betty, with an empty store. -/
def Sample.betty : ReconcilerRun IdealStore := start {} .betty 0 0

/-- The sample paths are those of `to_range`. -/
theorem Sample.target_path (session : List AoiIntersection)
    (h : ∀ i ∈ session, i.area = .full) :
    ∀ i ∈ session, GreaterButNotPrefixedSpec i.area.path := by
  intro i hi
  rw [h i hi]
  rintro ⟨y, hy⟩
  exact lt_irrefl y (hy y List.nil_prefix)

/-- The session is closing, and the peer sends a fingerprint for handles that
nobody knows. -/
theorem unknown_target_panics :
    ¬ ∀ (_ : Meadowcap) (_ : WillowDataModel) (σ : Type) (_ : Storage σ)
      (session : List AoiIntersection), (∀ i ∈ session, GreaterButNotPrefixedSpec i.area.path) →
      ∀ (store : σ) (ourRole : Role) (sessionId : SessionId) (maxEagerPayloadSize : U64)
      (s : ReconcilerRun σ), Transition.Reachable (step session) (fun _ _ => True)
        (start store ourRole sessionId maxEagerPayloadSize) s → s.failure ≠ some .panic := by
  intro h
  have hrun : ((Transition.run (step []) Sample.betty
      [.closeInbox, Sample.fingerprintFor 0 0]).map fun s => s.failure) =
      some (some .panic) := by rfl
  obtain ⟨s, hs, hpanic⟩ := Option.map_eq_some_iff.mp hrun
  exact h acceptingSignatures ReadAccess.Sample.nestedAreas IdealStore inferInstance []
    (by simp) _ _ _ _ s (.of_run_all hs) hpanic

/-- The inbox is closed after the target has been taken out of it. -/
theorem panics_iff_stranded_known_target :
    ∃ s, Transition.Reachable (step [Sample.target 0 0]) (fun s a => ¬ Stranded s a)
        Sample.betty s ∧
      s.reconciler.inboxClosed = true ∧ s.failure ≠ some .panic := by
  have hrun : ((Transition.run (step [Sample.target 0 0]) Sample.betty
      [.sendInput (Sample.target 0 0), .takeInput, .closeInbox, Sample.fingerprintFor 0 0]).map
        fun s => s.reconciler.inboxClosed) = some true := by rfl
  obtain ⟨s, hs, hclosed⟩ := Option.map_eq_some_iff.mp hrun
  have hreach : Transition.Reachable (step [Sample.target 0 0]) (fun s a => ¬ Stranded s a)
      Sample.betty s := .of_run hs (by decide)
  exact ⟨s, hreach, hclosed, (panics_iff_stranded (Sample.target_path _ (by decide)) _ _ _ _
    hreach).1⟩

end Samples

end ReconcilerRun

end IrohWillow
