import IrohWillow.Session.IdealStore
import IrohWillow.Session.PeerRun
import IrohWillow.Session.ReadAccess

/-!
# Read confinement

What the reconciler discloses lies inside the area of the target that it is
disclosed for: the ranges whose fingerprint it answers, the ranges whose
fingerprint it sends, and the entries it sends. A range comes from the peer; the
fields of its messages say that the two areas of interest fully contain it, but
nothing checks this. `read_confinement` has the condition on the messages under
which the disclosures are confined. It has a strict form, for those to whom the
range of an announcement is a disclosure as well: then the messages that ask for
an announcement have to be about a range inside the area, not only our entries in
that range.
-/

namespace IrohWillow

/-- Every entry of the range is in the area of the intersection. -/
def AoiIntersection.IncludesRange (i : AoiIntersection) (range : Range3d) : Prop :=
  ∀ e, range.IncludesEntry e → i.area.IncludesEntry e

theorem AoiIntersection.IncludesRange.mono {i : AoiIntersection} {range range' : Range3d}
    (h : i.IncludesRange range) (hle : range'.Within range) : i.IncludesRange range' :=
  fun e he => h e (hle e he)

namespace Reconciler

/-- What the message discloses is in the area of its target; in the `strict` form,
so is the range that it announces. -/
def Sent.Confined (strict : Prop) (s : Sent) : Prop :=
  match s.message with
  | .sendFingerprint m => s.target.IncludesRange m.range
  | .sendEntry m =>
      m.entry.namespaceId = s.target.namespaceId ∧ s.target.area.IncludesEntry m.entry
  | .announceEntries m => strict → s.target.IncludesRange m.range
  | .sendPayload _ => True
  | .terminatePayload _ => True

/-- Everything disclosed so far is for an intersection of the session, and
inside its area. -/
structure ReadConfined {σ : Type} [Meadowcap] (strict : Prop) (session : List AoiIntersection)
    (sh : Shared σ) : Prop where
  answered : ∀ i range, (i, range) ∈ sh.answered → i ∈ session ∧ i.IncludesRange range
  sent : ∀ s ∈ sh.sent, s.target ∈ session ∧ s.Confined strict

section Sending

variable {σ : Type} [Meadowcap] [Storage σ] {strict : Prop}

/-- The entries of a range are in the area when they are those of the store in
the range. -/
theorem Sent.Confined.of_fromRange {store : σ} {i : AoiIntersection} {range : Range3d} {s : Sent}
    (hlaw : Storage.ReadsInRange σ) (h : FromRange store i range s)
    (hrange : strict → i.IncludesRange range)
    (harea : ∀ entries a, Storage.getAuthorisedEntries store i.namespaceId range = .ok entries →
      .ok a ∈ entries → i.area.IncludesEntry a.entry) : s.Confined strict := by
  obtain ⟨message, target, opened⟩ := s
  obtain ⟨rfl, h⟩ := h
  cases message with
  | sendFingerprint m => exact h.elim
  | announceEntries m =>
      obtain rfl : m.range = range := h
      exact hrange
  | sendEntry m =>
      obtain ⟨entries, a, hget, hmem, heq⟩ := h
      show m.entry.namespaceId = target.namespaceId ∧ target.area.IncludesEntry m.entry
      rw [← heq]
      exact ⟨(hlaw.entries store _ _ _ a hget hmem).1, harea entries a hget hmem⟩
  | sendPayload _ => trivial
  | terminatePayload _ => trivial

theorem Sent.Confined.of_range {store : σ} {i : AoiIntersection} {range : Range3d} {s : Sent}
    (hlaw : Storage.ReadsInRange σ) (hrange : i.IncludesRange range)
    (h : FromRange store i range s) : s.Confined strict :=
  .of_fromRange hlaw h (fun _ => hrange) fun _ a hget hmem =>
    hrange _ (hlaw.entries store _ _ _ a hget hmem).2

/-- Answers to the fingerprint of a range inside the area are confined: so are
the parts of the range. -/
theorem Sent.Confined.of_answer {store : σ} {i : AoiIntersection} {range : Range3d} {s : Sent}
    (hlaw : Storage.ReadsInRange σ) (hrange : i.IncludesRange range)
    (h : FromAnswer store i range s) : s.target = i ∧ s.Confined strict := by
  rcases h with h | ⟨⟨part, action⟩, hpart, h⟩
  · exact ⟨h.1, .of_range hlaw hrange h⟩
  · have hwithin := hrange.mono (hlaw.split store _ _ _ hpart)
    cases action with
    | sendEntries count => exact ⟨h.1, .of_range hlaw hwithin h⟩
    | sendFingerprint fingerprint =>
        obtain ⟨message, target, opened⟩ := s
        obtain ⟨rfl, m, rfl, rfl, -⟩ := h
        exact ⟨rfl, hwithin⟩

end Sending

section Receiving

variable {σ : Type} [Meadowcap] {strict : Prop} {session : List AoiIntersection}
  {sh sh' : Shared σ} {P : Sent → Prop} {new : List Sent}

/-- Confined messages keep the disclosures confined. -/
theorem ReadConfined.emits (h : ReadConfined strict session sh) (hemits : Emits P sh sh' new)
    (hnew : ∀ s, P s → s.target ∈ session ∧ s.Confined strict) :
    ReadConfined strict session sh' where
  answered i range hmem := h.answered i range (hemits.keeps.answered ▸ hmem)
  sent s hs := by
    rw [hemits.sent] at hs
    exact (List.mem_append.mp hs).elim (h.sent s) fun hs => hnew s (hemits.all s hs)

theorem ReadConfined.congr (h : ReadConfined strict session sh) (hsent : sh'.sent = sh.sent)
    (hanswered : sh'.answered = sh.answered) : ReadConfined strict session sh' :=
  ⟨by rw [hanswered]; exact h.answered, by rw [hsent]; exact h.sent⟩

variable [Storage σ] {t : Target}

/-- A fingerprint is answered within the area when its range is. -/
theorem ReadConfined.receivedSendFingerprint (hlaw : Storage.ReadsInRange σ)
    (h : ReadConfined strict session sh) (ht : t.intersection ∈ session)
    {m : ReconciliationSendFingerprint}
    (hrange : ∀ t', t.beginReceive m.covers = .ok t' → t.intersection.IncludesRange m.range) :
    ReadConfined strict session (t.receivedSendFingerprint sh m).2 := by
  unfold Target.receivedSendFingerprint
  cases hbegin : t.beginReceive m.covers with
  | error e => exact h
  | ok t₁ =>
      have hi : t₁.intersection = t.intersection := by rw [(beginReceive_ok hbegin).1]
      have hin : t₁.intersection.IncludesRange m.range := hi ▸ hrange t₁ hbegin
      dsimp only [Target.nextRangeCountTheirs]
      rcases answerFingerprint_spec sh
        { t₁ with theirRangeCounter := t₁.theirRangeCounter + 1 } m t₁.theirRangeCounter with
        ⟨e, heq⟩ | ⟨ours, new, -, hemits, -⟩
      · rw [heq]
        exact h
      · have hnoted : ReadConfined strict session
            { sh with answered := sh.answered ++ [(t₁.intersection, m.range)] } := by
          refine ⟨fun i range hmem => ?_, h.sent⟩
          rcases List.mem_append.mp hmem with hmem | hmem
          · exact h.answered i range hmem
          · obtain ⟨rfl, rfl⟩ := Prod.mk.inj (List.mem_singleton.mp hmem)
            exact ⟨hi ▸ ht, hin⟩
        refine hnoted.emits hemits fun s hs => ?_
        obtain ⟨htarget, hconf⟩ := Sent.Confined.of_answer hlaw hin hs
        exact ⟨htarget ▸ hi ▸ ht, hconf⟩

/-- An announcement is answered within the area when our entries of its range
are in the area and, in the strict form, the range is. -/
theorem ReadConfined.receivedAnnounceEntries (hlaw : Storage.ReadsInRange σ)
    (h : ReadConfined strict session sh) (ht : t.intersection ∈ session)
    {m : ReconciliationAnnounceEntries}
    (hrange : m.wantResponse = true → ∀ t', t.beginReceive m.covers = .ok t' →
      (strict → t.intersection.IncludesRange m.range) ∧ ∀ entries a,
      Storage.getAuthorisedEntries sh.store t.intersection.namespaceId m.range = .ok entries →
        .ok a ∈ entries → t.intersection.area.IncludesEntry a.entry) :
    ReadConfined strict session (t.receivedAnnounceEntries sh m).2 := by
  unfold Target.receivedAnnounceEntries
  cases hbegin : t.beginReceive m.covers with
  | error e => exact h
  | ok t₁ =>
      have hi : t₁.intersection = t.intersection := by rw [(beginReceive_ok hbegin).1]
      dsimp only [Target.nextRangeCountTheirs]
      split
      · rename_i hwant
        obtain ⟨new, hemits, -⟩ := announceAndSendEntries_spec sh
          { t₁ with theirRangeCounter := t₁.theirRangeCounter + 1 } m.range false
          (some t₁.theirRangeCounter) false
        obtain ⟨hstrict, harea⟩ := hrange hwant t₁ hbegin
        rw [← hi] at hstrict harea
        refine h.emits hemits fun s hs => ⟨?_, .of_fromRange hlaw hs hstrict harea⟩
        rw [hs.1]
        exact hi ▸ ht
      · exact h

end Receiving

end Reconciler

/-! ## Whole runs -/

namespace PeerRun

open Reconciler

section Runs

variable {σ : Type} [Meadowcap]

/-- **The invariant.** All disclosures are confined, and all targets are
intersections of the session. -/
structure ReadInv (strict : Prop) (session : List AoiIntersection) (r : Reconciler σ) :
    Prop where
  confined : ReadConfined strict session r.shared
  worksOn : WorksOn session r

variable {strict : Prop} {session : List AoiIntersection} {r r' : Reconciler σ}

theorem finishTarget_confined {id : TargetId} {res : Except Failure Target × Shared σ}
    (h : ReadConfined strict session res.2) :
    ReadConfined strict session (r.finishTarget id res).2.shared := by
  obtain ⟨⟨outputs, hshared⟩, -⟩ := finishTarget_spec r id res
  rw [hshared]
  exact h.congr rfl rfl

variable [Storage σ]

/-- The messages of the peer that are answered are about the area of their
target: a fingerprint is of a range inside the area, and of the range of an
announcement that wants a response, our entries are in the area; in the strict
form the range is. -/
def RangesInArea (strict : Prop) (s : PeerRun σ) : Action σ → Prop
  | .message (.sendFingerprint m) =>
      ∀ t t', s.reconciler.targets.lookup m.handles = some t → t.beginReceive m.covers = .ok t' →
        t.intersection.IncludesRange m.range
  | .message (.announceEntries m) =>
      m.wantResponse = true → s.reconciler.entryState = none →
      ∀ t t', s.reconciler.targets.lookup m.handles = some t → t.beginReceive m.covers = .ok t' →
      (strict → t.intersection.IncludesRange m.range) ∧
        ∀ entries a, Storage.getAuthorisedEntries s.reconciler.shared.store
          t.intersection.namespaceId m.range = .ok entries →
        .ok a ∈ entries → t.intersection.area.IncludesEntry a.entry
  | _ => True

/-- **One message.** -/
theorem ReadInv.receivedMessage (hlaw : Storage.ReadsInRange σ) {s : PeerRun σ}
    {m : ReconciliationMessage} {res : Except Failure Unit}
    (h : ReadInv strict session s.reconciler) (hrange : RangesInArea strict s (.message m))
    (hm : s.reconciler.receivedMessage m = some (res, r')) : ReadInv strict session r' := by
  refine ⟨?_, h.worksOn.receivedMessage hm⟩
  cases m with
  | sendFingerprint m =>
      rcases receivedMessage_sendFingerprint hm with ⟨e, -, rfl⟩ | ⟨t, ht, heq⟩
      · exact h.confined
      · obtain rfl := congrArg Prod.snd heq
        apply finishTarget_confined
        exact h.confined.receivedSendFingerprint hlaw (h.worksOn.targets _ t ht).1
          fun t' ht' => hrange t t' ht ht'
  | announceEntries m =>
      rcases receivedMessage_announceEntries hm with ⟨e, -, rfl⟩ | ⟨r₁, hr₁, hcases⟩
      · exact h.confined
      · obtain ⟨hidle, rfl⟩ := entryStateAnnounce_ok hr₁
        rcases hcases with ⟨e, -, rfl⟩ | ⟨t, ht, heq⟩
        · exact h.confined
        · obtain rfl := congrArg Prod.snd heq
          apply finishTarget_confined
          exact h.confined.receivedAnnounceEntries hlaw (h.worksOn.targets _ t ht).1
            fun hwant t' ht' => hrange hwant hidle t t' ht ht'
  | sendEntry _ =>
      have hs := receivedMessage_silent hm (by simp) (by simp)
      exact h.confined.congr hs.sent hs.answered
  | sendPayload _ =>
      have hs := receivedMessage_silent hm (by simp) (by simp)
      exact h.confined.congr hs.sent hs.answered
  | terminatePayload _ =>
      have hs := receivedMessage_silent hm (by simp) (by simp)
      exact h.confined.congr hs.sent hs.answered

/-- The range of the area of a new target lies inside the area. -/
theorem ReadInv.takeInput [WillowDataModel] (h : ReadInv strict session r)
    (hpath : ∀ i ∈ session, GreaterButNotPrefixedSpec i.area.path) {res : Except Failure Unit}
    (hm : r.takeInput = some (res, r')) : ReadInv strict session r' := by
  refine ⟨?_, h.worksOn.takeInput hm⟩
  obtain ⟨i, inbox, hinbox, hcases⟩ := takeInput_cases hm
  have hi : i ∈ session := h.worksOn.inbox i (hinbox ▸ List.mem_cons_self)
  rcases hcases with ⟨e, -, rfl⟩ | ⟨t, sh, hinit, -, rfl⟩
  · exact h.confined
  · rcases init_cases r.shared i with ⟨e, heq⟩ | heq | ⟨range, fp, -, hrange, -, heq⟩
    · cases heq.symm.trans hinit
    · obtain ⟨-, rfl⟩ := Prod.mk.inj (heq.symm.trans hinit)
      exact h.confined
    · obtain ⟨-, rfl⟩ := Prod.mk.inj (heq.symm.trans hinit)
      obtain ⟨-, hemits⟩ := sendFingerprint_spec r.shared { intersection := i } range fp none
      refine h.confined.emits hemits fun s hs => ?_
      rw [hs]
      exact ⟨hi, fun e he => Area.includesEntry_of_toRange (hpath i hi) hrange he⟩

variable [WillowDataModel]

/-- **One step.** -/
theorem ReadInv.step (hlaw : Storage.ReadsInRange σ)
    (hpath : ∀ i ∈ session, GreaterButNotPrefixedSpec i.area.path) {s s' : PeerRun σ}
    {a : Action σ} (h : ReadInv strict session s.reconciler) (hrange : RangesInArea strict s a)
    (hstep : step s a = some s') : ReadInv strict session s'.reconciler := by
  cases a with
  | takeInput =>
      obtain ⟨-, res, r, hr, rfl⟩ := step_takeInput hstep
      exact h.takeInput hpath hr
  | closeInbox =>
      obtain rfl := Option.some.inj hstep
      exact ⟨h.confined, ⟨h.worksOn.targets, h.worksOn.inbox⟩⟩
  | message m =>
      obtain ⟨-, res, r, hr, rfl⟩ := step_message hstep
      exact h.receivedMessage hlaw hrange hr
  | dataMessage m =>
      obtain ⟨-, res, sh, d, hsh, -, rfl⟩ := step_dataMessage hstep
      obtain ⟨store, new, rfl, -⟩ := DataReceiver.onMessage_cases hsh
      exact ⟨h.confined.congr rfl rfl, ⟨h.worksOn.targets, h.worksOn.inbox⟩⟩
  | bindStaticToken token =>
      obtain rfl := Option.some.inj hstep
      exact ⟨h.confined.congr rfl rfl, ⟨h.worksOn.targets, h.worksOn.inbox⟩⟩
  | bindOurs token =>
      obtain rfl := Option.some.inj hstep
      obtain ⟨hemits, -⟩ := bindAndSendOurs_spec (P := fun _ => False) s.reconciler.shared token
      exact ⟨h.confined.emits hemits fun _ => False.elim,
        ⟨h.worksOn.targets, h.worksOn.inbox⟩⟩
  | write store =>
      obtain rfl := Option.some.inj hstep
      exact ⟨h.confined.congr rfl rfl, ⟨h.worksOn.targets, h.worksOn.inbox⟩⟩

/-- **Read confinement.** In every run in which the answered messages of the
peer are about the area of their target, every range whose fingerprint is
answered or sent and every entry that is sent lies in the area of the
intersection it is disclosed for, an intersection of the session; in the strict
form, every range that is announced does, too. -/
theorem read_confinement (strict : Prop) (hlaw : Storage.ReadsInRange σ) (store : σ)
    (ourRole : Role) (sessionId : SessionId) (maxEagerPayloadSize : U64) (session : List AoiIntersection)
    (hpath : ∀ i ∈ session, GreaterButNotPrefixedSpec i.area.path) {s : PeerRun σ}
    (hrun : Transition.Reachable step (RangesInArea strict)
      (start store ourRole sessionId maxEagerPayloadSize session) s) :
    ReadConfined strict session s.reconciler.shared := by
  have hstart : ReadInv strict session
      (start store ourRole sessionId maxEagerPayloadSize session).reconciler :=
    ⟨⟨by simp [start], by simp [start]⟩, ⟨by simp [start], by simp [start]⟩⟩
  have hinv : ReadInv strict session s.reconciler :=
    hrun.invariant (P := fun s => ReadInv strict session s.reconciler) hstart
      fun _ _ _ hs ha hstep => hs.step hlaw hpath ha hstep
  exact hinv.confined

end Runs

/-! ### Two sessions -/

section Samples

open IrohWillow.Sample

attribute [local instance] acceptingSignatures timestampHash ReadAccess.Sample.nestedAreas

/-- An intersection with all paths and the given times. -/
def Sample.intersectionFrom (time : Timestamp) : AoiIntersection :=
  { ourHandle := 0
    theirHandle := 0
    intersection := ⟨⟨.any, .empty, .newOpen time⟩, 0, 0⟩
    namespaceId := namespaceId }

theorem Sample.intersectionFrom_path (time : Timestamp) :
    ∀ i ∈ [intersectionFrom time], GreaterButNotPrefixedSpec i.area.path := by
  intro i hi
  obtain rfl := List.mem_singleton.mp hi
  rintro ⟨y, hy⟩
  exact lt_irrefl y (hy y List.nil_prefix)

/-- The empty fingerprint of everything. -/
def Sample.emptyFingerprint : ReconciliationMessage :=
  .sendFingerprint ⟨.full, 0, 0, 0, none⟩

/-- Betty, with an entry of time 1. -/
def Sample.bettyFrom (time : Timestamp) : PeerRun IdealStore :=
  start { entries := [entryAt [] 1] } .betty 0 0 [intersectionFrom time]

open IrohWillow.PeerRun.Sample

/-- The peer may read from time 5 on; it asks for everything and gets the
entry of time 1. -/
theorem fingerprint_discloses_outside :
    ¬ ∀ (_ : Meadowcap) (_ : WillowDataModel) (σ : Type) (_ : Storage σ),
      Storage.ReadsInRange σ → ∀ (store : σ) (ourRole : Role) (sessionId : SessionId)
      (maxEagerPayloadSize : U64) (session : List AoiIntersection),
      (∀ i ∈ session, GreaterButNotPrefixedSpec i.area.path) → ∀ s : PeerRun σ,
      Transition.Reachable step (fun _ _ => True)
        (start store ourRole sessionId maxEagerPayloadSize session) s →
      ReadConfined False session s.reconciler.shared := by
  intro h
  have hrun : ((Transition.run step (bettyFrom 5) [.takeInput, .message emptyFingerprint]).map
      fun s => s.reconciler.shared.sent[1]?) = some (some
        ⟨.sendEntry ⟨bareEntryAt [] 1, 0, 0, .ofByte 0⟩, intersectionFrom 5, none⟩) := by rfl
  obtain ⟨s, hs, hsent⟩ := Option.map_eq_some_iff.mp hrun
  have hconf := h acceptingSignatures ReadAccess.Sample.nestedAreas IdealStore inferInstance
    IdealStore.readsInRange _ _ _ _ _ (intersectionFrom_path 5) s (.of_run hs (by decide))
  obtain ⟨-, -, harea⟩ := hconf.sent _ (List.mem_of_getElem? hsent)
  exact absurd harea (by decide)

/-- When the peer may read everything, the entry and its announcement are confined. -/
theorem read_confinement_everything :
    ∃ s, Transition.Reachable step (RangesInArea True) (bettyFrom 0) s ∧
      (∃ x ∈ s.reconciler.shared.sent, ∃ m, x.message = .sendEntry m) ∧
      ReadConfined True [intersectionFrom 0] s.reconciler.shared := by
  have htarget : ((step (bettyFrom 0) .takeInput).map fun s => s.reconciler.targets.lookup (0, 0)) =
      some (some { intersection := intersectionFrom 0 }) := by rfl
  obtain ⟨s₁, hs₁, hlookup⟩ := Option.map_eq_some_iff.mp htarget
  have hsent : ((Transition.run step (bettyFrom 0) [.takeInput, .message emptyFingerprint]).map
      fun s => s.reconciler.shared.sent[1]?) = some (some
        ⟨.sendEntry ⟨bareEntryAt [] 1, 0, 0, .ofByte 0⟩, intersectionFrom 0, none⟩) := by rfl
  obtain ⟨s₂, hs₂, hentry⟩ := Option.map_eq_some_iff.mp hsent
  have hstep : step s₁ (.message emptyFingerprint) = some s₂ := by
    simpa [Transition.run, hs₁] using hs₂
  have hrange : RangesInArea True s₁ (.message emptyFingerprint) := by
    intro t t' ht _ e _
    obtain rfl := Option.some.inj (hlookup.symm.trans ht)
    exact ⟨trivial, List.nil_prefix, Fin.zero_le _, trivial⟩
  have hrun : Transition.Reachable step (RangesInArea True) (bettyFrom 0) s₂ :=
    (Transition.Reachable.refl.tail trivial hs₁).tail hrange hstep
  exact ⟨s₂, hrun, ⟨_, List.mem_of_getElem? hentry, _, rfl⟩,
    read_confinement True IdealStore.readsInRange _ _ _ _ _ (intersectionFrom_path 0) hrun⟩

end Samples

end PeerRun

end IrohWillow
