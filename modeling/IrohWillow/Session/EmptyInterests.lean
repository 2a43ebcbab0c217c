import IrohWillow.Session.IntentIsolation
import IrohWillow.Session.LateInterests

/-!
# Interests without areas

An intent is complete when its map of interests is empty. `flatten_interests` and
`merge_interests` make an entry for every namespace of the resolved interests, also
when no area of interest belongs to it, as with an empty `Exact` selector. Such an
entry matches no area, so nothing takes it off: the intent never ends although
nothing is left to reconcile. Interests that are added when they are complete already
have the same effect.

`empty_interests_settled`: without such submissions and updates the map of an intent
is empty as soon as all that was submitted for it is covered.
-/

namespace IrohWillow.Intents

open Fallible

/-! ## Maps without empty entries -/

/-- The interests name the namespace, but no area of it. -/
def InterestMap.OnlyEmpty (interests : InterestMap) (ns : NamespaceId) : Prop :=
  (∃ e ∈ interests, e.1.namespaceId = ns) ∧ ∀ e ∈ interests, e.1.namespaceId = ns → e.2 = []

namespace NamespaceInterests

variable {m : NamespaceInterests} {ns ns' : NamespaceId}

/-- No namespace has an empty set of areas. -/
def NoneEmpty (m : NamespaceInterests) : Prop := ∀ ns, m.lookup ns ≠ some []

theorem noneEmpty_empty : NoneEmpty ∅ := by
  rintro ns ⟨⟩

/-- Without empty sets a map is empty when it has no areas. -/
theorem NoneEmpty.isEmpty_iff (h : m.NoneEmpty) : m.isEmpty = true ↔ ∀ ns x, ¬ m.Has ns x := by
  constructor
  · intro hempty ns x
    exact not_has_of_isEmpty hempty
  · intro hnone
    refine List.isEmpty_iff.mpr (List.eq_nil_iff_forall_not_mem.mpr fun e he => ?_)
    obtain ⟨ns, aois⟩ := e
    have hlook : m.lookup ns = some aois := AList.mem_lookup_iff.mpr he
    cases aois with
    | nil => exact h ns hlook
    | cons x rest => exact hnone ns x ⟨_, hlook, List.mem_cons_self⟩

theorem union_eq_nil {l l' : List AreaOfInterest} : l ∪ l' = [] ↔ l = [] ∧ l' = [] := by
  simp only [List.eq_nil_iff_forall_not_mem, List.mem_union_iff, not_or, forall_and]

theorem lookup_extend_eq_nil {aois : List AreaOfInterest} :
    (m.extend ns aois).lookup ns' = some [] ↔
      if ns = ns' then (m.lookup ns' = none ∨ m.lookup ns' = some []) ∧ aois = []
      else m.lookup ns' = some [] := by
  unfold extend
  by_cases hns : ns = ns'
  · subst hns
    rw [if_pos rfl, AList.lookup_insert, Option.some.injEq, union_eq_nil]
    cases m.lookup ns <;> simp
  · rw [if_neg hns, AList.lookup_insert_ne (Ne.symm hns)]

/-- **Merging** leaves a namespace without areas when the map had none for it and the
interests have none. -/
theorem lookup_merge_eq_nil {interests : InterestMap} :
    (m.merge interests).lookup ns = some [] ↔
      (∀ e ∈ interests, e.1.namespaceId = ns → e.2 = []) ∧
      (m.lookup ns = some [] ∨ m.lookup ns = none ∧ ∃ e ∈ interests, e.1.namespaceId = ns) := by
  induction interests generalizing m with
  | nil => simp [merge]
  | cons e rest ih =>
      obtain ⟨auth, aois⟩ := e
      rw [merge, ih, lookup_extend_eq_nil]
      rw [List.forall_mem_cons, List.exists_mem_cons_iff]
      by_cases hns : auth.namespaceId = ns
      · have hsome : (m.extend auth.namespaceId aois).lookup ns ≠ none := by
          unfold extend
          rw [hns, AList.lookup_insert]
          simp
        rw [if_pos hns]
        tauto
      · have hsame : (m.extend auth.namespaceId aois).lookup ns = m.lookup ns :=
          AList.lookup_insert_ne (Ne.symm hns)
        rw [if_neg hns, hsame]
        tauto

theorem isEmpty_iff_lookup : m.isEmpty = true ↔ ∀ ns, m.lookup ns = none := by
  constructor
  · intro hempty ns
    obtain hnil : m.entries = [] := List.isEmpty_iff.mp hempty
    refine Option.eq_none_iff_forall_ne_some.mpr fun aois hlook => ?_
    have hmem := AList.mem_lookup_iff.mp hlook
    rw [hnil] at hmem
    cases hmem
  · intro hnone
    refine List.isEmpty_iff.mpr (List.eq_nil_iff_forall_not_mem.mpr fun e he => ?_)
    have hlook : m.lookup e.1 = some e.2 := AList.mem_lookup_iff.mpr he
    rw [hnone] at hlook
    cases hlook

/-- Merging only adds namespaces. -/
theorem isEmpty_of_merge {interests : InterestMap} (h : (m.merge interests).isEmpty = true) :
    m.isEmpty = true := by
  induction interests generalizing m with
  | nil => exact h
  | cons e rest ih =>
      obtain ⟨auth, aois⟩ := e
      have hextended := isEmpty_iff_lookup.mp (ih h) auth.namespaceId
      unfold extend at hextended
      rw [AList.lookup_insert] at hextended
      cases hextended

theorem NoneEmpty.merge_iff (h : m.NoneEmpty) {interests : InterestMap} :
    (m.merge interests).NoneEmpty ↔ ¬ ∃ ns, interests.OnlyEmpty ns ∧ m.lookup ns = none := by
  rw [not_exists]
  refine forall_congr' fun ns => not_congr ?_
  rw [lookup_merge_eq_nil]
  unfold InterestMap.OnlyEmpty
  have hne := h ns
  tauto

theorem flatten_iff {interests : InterestMap} :
    (flattenInterests interests).NoneEmpty ↔ ¬ ∃ ns, interests.OnlyEmpty ns := by
  unfold flattenInterests
  rw [noneEmpty_empty.merge_iff]
  simp

end NamespaceInterests

/-! ## Sending to one intent -/

section Intent

variable [AreaIntersection] {E : ChannelReceiverDropped → Delivery → Prop}

/-- What holds of an intent still holds when an event is sent to it and when an area is
completed. -/
structure Stable (P : Delivery → Prop) : Prop where
  sent : ∀ d event, P d → P { d with sent := d.sent ++ [event] }
  completed : ∀ d ns area, P d → P { d with info := (d.info.completeAreaIfMatches ns area).2 }

variable {P : Delivery → Prop}

theorem Stable.completeArea (h : Stable P) (ns : NamespaceId) (area : Area) :
    Spec P (completeArea ns area) (fun _ => P) E :=
  Spec.access fun d hd => h.completed d ns area hd

/-- **Catching up.** -/
theorem Stable.catchUp (h : Stable P) (order : List (NamespaceId × AreaOfInterest)) :
    Spec P (catchUp order) (fun _ => P) fun _ => P := by
  induction order with
  | nil => exact Spec.pure fun d hd => hd
  | cons e rest ih =>
      obtain ⟨ns, area⟩ := e
      have hone : Spec P (onReconciled ns area) (fun _ => P) fun _ => P := by
        refine (h.completeArea ns area.area).bind fun isMatch => ?_
        exact Spec.when (fun _ => sendBoth_keeps h.sent _ true) fun _ d hd => hd
      exact hone.bind fun _ => ih

/-- **Handling an event.** -/
theorem Stable.handleEvent (h : Stable P) (event : EventKind) :
    Spec P (handleEvent event) (fun b d => P d ∧ b = d.info.isComplete) fun _ => P := by
  have hmatches : Spec P (matchesEvent event) (fun _ => P) fun _ => P := by
    cases event with
    | capabilityIntersection ns area => exact Spec.access fun d hd => hd
    | interestIntersection ns area => exact Spec.access fun d hd => hd
    | reconciled ns area => exact h.completeArea ns area.area
    | reconciledAll => exact Spec.pure fun d hd => hd
    | abort error => exact Spec.pure fun d hd => hd
  refine hmatches.bind fun isMatch => ?_
  refine Spec.bind (Q := fun _ => P) ?_ fun _ => ?_
  · exact Spec.when (fun _ => sendBoth_keeps h.sent _ _) fun _ d hd => hd
  · exact Spec.access fun d hd => ⟨hd, rfl⟩

omit [AreaIntersection] in
theorem send_endsSpent (event : EventKind) : EndsSpent (send event) := by
  intro left d e left' d' hrun
  unfold send at hrun
  split at hrun
  · exact EndsSpent.operation _ _ _ _ _ hrun
  · cases hrun

/-- Handling an event fails only when the receiver is gone. -/
theorem handleEvent_endsSpent (event : EventKind) : EndsSpent (handleEvent event) := by
  have hmatches : EndsSpent (matchesEvent event) := by
    cases event with
    | capabilityIntersection ns area => exact EndsSpent.access
    | interestIntersection ns area => exact EndsSpent.access
    | reconciled ns area => exact EndsSpent.access
    | reconciledAll => exact EndsSpent.pure
    | abort error => exact EndsSpent.pure
  refine hmatches.bind fun isMatch => EndsSpent.bind (EndsSpent.when ?_) fun _ => EndsSpent.access
  refine (send_endsSpent event).bind fun _ => EndsSpent.access.bind fun isEmpty => ?_
  exact (send_endsSpent _).when

/-- Completing an area neither makes a set empty that stays nor takes off one that is. -/
theorem lookup_completeAreaIfMatches_eq_nil {info : IntentInfo} {ns ns' : NamespaceId}
    {area : Area} : (info.completeAreaIfMatches ns area).2.interests.lookup ns' = some [] ↔
      info.interests.lookup ns' = some [] := by
  unfold IntentInfo.completeAreaIfMatches
  cases hlook : info.interests.lookup ns with
  | none => rfl
  | some aois =>
      dsimp only
      split
      · rename_i hover
        -- a set that matches has an area
        have hne : aois ≠ [] := by
          rintro rfl
          cases hover
        have hnot : ns' = ns → info.interests.lookup ns' ≠ some [] := by
          rintro rfl
          rw [hlook]
          exact fun heq => hne (Option.some.inj heq)
        split
        · by_cases hns : ns' = ns
          · refine iff_of_false ?_ (hnot hns)
            rw [hns, AList.lookup_erase]
            simp
          · rw [AList.lookup_erase_ne hns]
        · rename_i hsome
          by_cases hns : ns' = ns
          · refine iff_of_false ?_ (hnot hns)
            rw [hns, AList.lookup_insert]
            exact fun heq => hsome (List.isEmpty_iff.mpr (Option.some.inj heq))
          · rw [AList.lookup_insert_ne hns]
      · rfl

/-- The intent has the interests of `info`, or fewer. -/
structure Shrunk (info : IntentInfo) (d : Delivery) : Prop where
  has : ∀ ns x, d.info.interests.Has ns x → info.interests.Has ns x
  nil : ∀ ns, d.info.interests.lookup ns = some [] ↔ info.interests.lookup ns = some []

omit [AreaIntersection] in
theorem shrunk_self (info : IntentInfo) : Shrunk info { info := info } :=
  ⟨fun _ _ h => h, fun _ => Iff.rfl⟩

theorem stable_shrunk (info : IntentInfo) : Stable (Shrunk info) where
  sent _ _ hd := ⟨hd.has, hd.nil⟩
  completed _ _ _ hd := ⟨fun ns x hx => hd.has ns x (has_completeAreaIfMatches.mp hx).1,
    fun ns => lookup_completeAreaIfMatches_eq_nil.trans (hd.nil ns)⟩

omit [AreaIntersection] in
theorem Shrunk.noneEmpty_iff {info : IntentInfo} {d : Delivery} (h : Shrunk info d) :
    d.info.interests.NoneEmpty ↔ info.interests.NoneEmpty :=
  forall_congr' fun ns => not_congr (h.nil ns)

end Intent

/-! ## The dispatcher -/

namespace IntentDispatcher

section Dispatcher

variable [AreaIntersection] {s s' : IntentDispatcher} {id : IntentId} {info : IntentInfo}

/-- Every active intent has areas for all its namespaces, its map is empty exactly when
all areas submitted for it are covered by reported ones, and a `ReconcileOnce` intent
of that kind is complete. It is still there only because its receiver is gone. -/
structure Settled (s : IntentDispatcher) : Prop where
  noneEmpty : ∀ id info, s.intents id = some info → info.interests.NoneEmpty
  isEmpty_iff : ∀ id info, s.intents id = some info →
    (info.interests.isEmpty = true ↔ Satisfied s.log id)
  complete : ∀ id info, s.intents id = some info → info.mode = .reconcileOnce →
    Satisfied s.log id → info.isComplete = true ∧ s.receivers id = some 0

/-- The action gives an active intent a namespace without areas: it submits an intent
whose interests name one, or adds interests that name one which is new to the intent. -/
def BringsEmpty (s : IntentDispatcher) : Action → Prop
  | .submitIntent auth intent order =>
      ¬ Abandoned s (.submitIntent auth intent order) ∧
        ∃ interests, auth.resolveInterests intent.interests = some interests ∧
          ∃ ns, interests.OnlyEmpty ns
  | .updateIntent id auth (.addInterests interests) =>
      ∃ info added, s.intents id = some info ∧ auth.resolveInterests interests = some added ∧
        ∃ ns, added.OnlyEmpty ns ∧ info.interests.lookup ns = none
  | _ => False

/-- The areas of an active intent were submitted for it, and an active intent that is
complete has lost its receiver. -/
structure Owed (s : IntentDispatcher) : Prop where
  asked : ∀ id info, s.intents id = some info → ∀ ns x, info.interests.Has ns x →
    Asked s.log id ns x
  gone : ∀ id info, s.intents id = some info → info.isComplete = true → s.receivers id = some 0

omit [AreaIntersection] in
theorem Owed.start : Owed {} := ⟨by rintro id info ⟨⟩, by rintro id info ⟨⟩⟩

/-- No active intent has a namespace without areas. -/
def NoEmptySets (s : IntentDispatcher) : Prop :=
  ∀ id info, s.intents id = some info → info.interests.NoneEmpty

/-- Every area that was reported is among the complete ones. -/
def Recorded (s : IntentDispatcher) : Prop :=
  ∀ ns area, .processed ns area ∈ s.log → s.completeAreas.Has ns area

omit [AreaIntersection] in
/-- Without empty sets and without covered interests the state is settled. -/
theorem Settled.of_noneCovered (hcons : Consistent s) (howed : Owed s) (hrecorded : Recorded s)
    (hset : NoEmptySets s) (hnone : NoneCovered s) : Settled s := by
  have hempty : ∀ id info, s.intents id = some info →
      (info.interests.isEmpty = true ↔ Satisfied s.log id) := by
    intro id info hinfo
    rw [(hset id info hinfo).isEmpty_iff]
    constructor
    · intro hnot ns x hasked
      exact (hcons.tracks id info hinfo ns x hasked).resolve_left (hnot ns x)
    · intro hsat ns x hhas
      -- what the intent waits for was submitted, and is not covered
      obtain ⟨area, hprocessed, hinc⟩ := hsat ns x (howed.asked id info hinfo ns x hhas)
      exact hnone id info hinfo ns x area hhas (hrecorded ns area hprocessed) hinc
  refine ⟨hset, hempty, fun id info hinfo hmode hsat => ?_⟩
  have hcomplete : info.isComplete = true := by
    unfold IntentInfo.isComplete
    rw [(hempty id info hinfo).mpr hsat, hmode]
    rfl
  exact ⟨hcomplete, howed.gone id info hinfo hcomplete⟩

/-! ### Steps without new areas -/

omit [AreaIntersection] in
/-- No new intent, no new area, and the receivers that are gone stay gone. -/
theorem Owed.of_subset (h : Owed s)
    (hintents : ∀ id info, s'.intents id = some info → s.intents id = some info)
    (hlog : s.log ⊆ s'.log) (hreceivers : ∀ id, s.receivers id = some 0 → s'.receivers id = some 0) :
    Owed s' where
  asked id info hinfo ns x hhas := by
    obtain ⟨interests, hmem, hx⟩ := h.asked id info (hintents id info hinfo) ns x hhas
    exact ⟨interests, hlog hmem, hx⟩
  gone id info hinfo hcomplete := hreceivers id (h.gone id info (hintents id info hinfo) hcomplete)

omit [AreaIntersection] in
theorem noEmptySets_congr (h : s'.intents = s.intents) : NoEmptySets s' ↔ NoEmptySets s := by
  unfold NoEmptySets
  rw [h]

omit [AreaIntersection] in
/-- One intent is set: it alone may bring a namespace without areas. -/
theorem NoEmptySets.update_iff (h : NoEmptySets s) {info : IntentInfo}
    (hintents : s'.intents = Function.update s.intents id (some info)) :
    NoEmptySets s' ↔ info.interests.NoneEmpty := by
  unfold NoEmptySets
  rw [hintents]
  constructor
  · intro hall
    exact hall id info (Function.update_self _ _ _)
  · intro hnew id' info' hinfo'
    rcases update_eq_some.mp hinfo' with ⟨rfl, rfl⟩ | ⟨-, hinfo'⟩
    · exact hnew
    · exact h id' info' hinfo'

omit [AreaIntersection] in
theorem Owed.yieldIfDropped (h : Owed s) : Owed s.yieldIfDropped :=
  h.of_subset (fun id info hinfo => by simpa using hinfo) (log_isPrefix_yieldIfDropped s).subset
    fun id hgone => by simpa using hgone

/-- What becomes of an intent when an event is handled. -/
theorem emitEventInner_intents {event : EventKind} {info' : IntentInfo}
    (h : (s.emitEventInner event).intents id = some info') :
    ∃ info, s.intents id = some info ∧ Shrunk info { info := info' } ∧
      (info'.isComplete = true → (s.emitEventInner event).receivers id = some 0) := by
  obtain ⟨handled, hhandled, hstays⟩ := Option.bind_eq_some_iff.mp h
  obtain ⟨info, hinfo, rfl⟩ := Option.map_eq_some_iff.mp hhandled
  refine ⟨info, hinfo, ?_⟩
  obtain ⟨hok, herr⟩ := (stable_shrunk info).handleEvent event (s.receivers id) _
    (shrunk_self info)
  have hspent := handleEvent_endsSpent event (s.receivers id) { info := info }
  have hreceiver : (s.emitEventInner event).receivers id = (s.handle event id info).left := by
    simp [emitEventInner, hinfo]
  rw [hreceiver]
  split at hstays
  · cases hstays
  · rename_i hended
    obtain rfl := Option.some.inj hstays
    unfold handle at hended ⊢
    rcases hrun : handleEvent event (s.receivers id) { info := info } with
      ⟨e | isComplete, left, d⟩
    · rw [hrun] at herr
      have hd := herr e d rfl rfl
      exact ⟨⟨hd.has, hd.nil⟩, fun _ => hspent e left d hrun⟩
    · rw [hrun] at hok hended
      obtain ⟨hd, hisComplete⟩ := hok isComplete d rfl rfl
      refine ⟨⟨hd.has, hd.nil⟩, fun hcomplete => absurd ?_ hended⟩
      have htrue : isComplete = true := hisComplete.trans hcomplete
      simp [htrue]

theorem Owed.emitEventInner (h : Owed s) (event : EventKind) : Owed (s.emitEventInner event) where
  asked id info' hinfo' ns x hhas := by
    obtain ⟨info, hinfo, hshrunk, -⟩ := emitEventInner_intents hinfo'
    obtain ⟨interests, hmem, hx⟩ := h.asked id info hinfo ns x (hshrunk.has ns x hhas)
    exact ⟨interests, List.mem_append_left _ (List.mem_append_left _ hmem), hx⟩
  gone id info' hinfo' hcomplete := by
    obtain ⟨info, hinfo, -, hgone⟩ := emitEventInner_intents hinfo'
    exact hgone hcomplete

theorem emitEvent_settles (howed : Owed s) (hset : NoEmptySets s) (event : EventKind) :
    Owed (s.emitEvent event) ∧ NoEmptySets (s.emitEvent event) := by
  have howed' := howed.emitEventInner event
  have hset' : NoEmptySets (s.emitEventInner event) := by
    intro id info' hinfo'
    obtain ⟨info, hinfo, hshrunk, -⟩ := emitEventInner_intents hinfo'
    exact hshrunk.noneEmpty_iff.mpr (hset id info hinfo)
  unfold emitEvent
  split
  · exact ⟨howed'.yieldIfDropped, (noEmptySets_congr (by simp)).mpr hset'⟩
  · exact ⟨howed', hset'⟩

omit [AreaIntersection] in
theorem cancelIntent_settles (howed : Owed s) (hset : NoEmptySets s) (id : IntentId) :
    Owed (s.cancelIntent id) ∧ NoEmptySets (s.cancelIntent id) := by
  refine ⟨howed.of_subset (fun _ _ => intents_cancelIntent) ?_ fun id' hgone => ?_,
    fun id' info hinfo => hset id' info (intents_cancelIntent hinfo)⟩
  · have hinner : s.log ⊆ (s.cancelIntentInner id).log := List.subset_append_left _ _
    exact List.Subset.trans hinner (log_isPrefix_yieldIfDropped _).subset
  · simpa [cancelIntent, cancelIntentInner] using hgone

omit [AreaIntersection] in
theorem updatesClosed_settles (howed : Owed s) (hset : NoEmptySets s) (id : IntentId) :
    Owed (s.updatesClosed id) ∧ NoEmptySets (s.updatesClosed id) := by
  have hremoved : Owed { s with intentUpdateRx := Function.update s.intentUpdateRx id false } :=
    howed.of_subset (fun _ _ h => h) (List.Subset.refl _) fun _ h => h
  rcases updatesClosed_cases s id with heq | heq
  · rw [heq]
    exact cancelIntent_settles hremoved hset id
  · rw [heq]
    exact ⟨hremoved, hset⟩

/-! ### Submissions and updates -/

omit [AreaIntersection] in
/-- At most the intent that is submitted is new. -/
theorem Owed.of_new (h : Owed s) (hlog : s.log ⊆ s'.log)
    (hother : ∀ id, id ≠ s.nextIntentId →
      s'.intents id = s.intents id ∧ s'.receivers id = s.receivers id)
    (hnew : ∀ info, s'.intents s.nextIntentId = some info →
      (∀ ns x, info.interests.Has ns x → Asked s'.log s.nextIntentId ns x) ∧
        ¬info.isComplete = true) : Owed s' where
  asked id info hinfo ns x hhas := by
    by_cases hid : id = s.nextIntentId
    · subst hid
      exact (hnew info hinfo).1 ns x hhas
    · rw [(hother id hid).1] at hinfo
      obtain ⟨interests, hmem, hx⟩ := h.asked id info hinfo ns x hhas
      exact ⟨interests, hlog hmem, hx⟩
  gone id info hinfo hcomplete := by
    by_cases hid : id = s.nextIntentId
    · subst hid
      exact absurd hcomplete (hnew info hinfo).2
    · rw [(hother id hid).1] at hinfo
      rw [(hother id hid).2]
      exact h.gone id info hinfo hcomplete

/-- **A submission** unsettles the state exactly if it brings a namespace without areas. -/
theorem submitIntent_settles (hcons : Consistent s) (howed : Owed s) (hset : NoEmptySets s)
    (auth : Auth) (intent : Intent) (order : List (NamespaceId × AreaOfInterest)) :
    Owed (s.submitIntent auth intent order) ∧
      (NoEmptySets (s.submitIntent auth intent order) ↔
        ¬ BringsEmpty s (.submitIntent auth intent order)) := by
  cases hresolve : auth.resolveInterests intent.interests with
  | none =>
      -- the interests do not resolve: `run` fails
      have hsame : s.submitIntent auth intent order = { s with result := some (.error .auth) } := by
        simp only [submitIntent, hresolve]
      rw [hsame]
      refine ⟨howed.of_subset (fun _ _ h => h) (List.Subset.refl _) fun _ h => h, ?_⟩
      refine iff_of_true hset ?_
      rintro ⟨-, interests, hsome, -⟩
      rw [hresolve] at hsome
      cases hsome
  | some interests =>
      have hbrings : BringsEmpty s (.submitIntent auth intent order) ↔
          ¬ Abandoned s (.submitIntent auth intent order) ∧ ∃ ns, interests.OnlyEmpty ns := by
        simp only [BringsEmpty, hresolve, Option.some.injEq, exists_eq_left']
      have hfresh : s.intents s.nextIntentId = none := hcons.fresh _ (le_refl _)
      rw [hbrings]
      cases submission_cases s order hresolve with
      | abandoned hdropped hintents hreceivers hresult hlog =>
        have hsubset : s.log ⊆ (s.submitIntent auth intent order).log :=
          hlog ▸ List.subset_append_left _ _
        refine ⟨howed.of_new hsubset (fun id hid => ⟨?_, ?_⟩) fun info hinfo => ?_, ?_⟩
        · rw [hintents]
        · rw [hreceivers, Function.update_of_ne hid]
        · rw [hintents, hfresh] at hinfo
          cases hinfo
        · exact iff_of_true ((noEmptySets_congr hintents).mpr hset) fun h => h.1 hdropped
      | @told left d hkept hrun hsub hlog =>
        have hsubset : s.log ⊆ (s.submitIntent auth intent order).log :=
          hlog ▸ List.subset_append_left _ _
        -- catching up only takes interests off
        obtain ⟨hok, -⟩ := (stable_shrunk (newInfo intent interests)).catchUp order
          (s.receivers s.nextIntentId) _ (shrunk_self _)
        rw [hrun] at hok
        have hd := hok () d rfl rfl
        have hnone : d.info.interests.NoneEmpty ↔ ¬ ∃ ns, interests.OnlyEmpty ns :=
          hd.noneEmpty_iff.trans NamespaceInterests.flatten_iff
        have hreceivers : ∀ id, id ≠ s.nextIntentId →
            (s.submitIntent auth intent order).receivers id = s.receivers id := by
          intro id hid
          rw [hsub.receivers, Function.update_of_ne hid]
        rw [and_iff_right hkept, ← hnone]
        by_cases hcomplete : d.info.isComplete = true
        · -- the intent is complete already
          have hintents := hsub.intents
          rw [if_pos hcomplete] at hintents
          refine ⟨howed.of_new hsubset (fun id hid => ⟨by rw [hintents], hreceivers id hid⟩)
            fun info hinfo => ?_, ?_⟩
          · rw [hintents, hfresh] at hinfo
            cases hinfo
          · refine iff_of_true ((noEmptySets_congr hintents).mpr hset) fun ns hns => ?_
            have hempty := (Bool.and_eq_true_iff.mp hcomplete).1
            have hmem := AList.mem_lookup_iff.mp hns
            rw [List.isEmpty_iff.mp hempty] at hmem
            cases hmem
        · have hintents := hsub.intents
          rw [if_neg hcomplete] at hintents
          refine ⟨howed.of_new hsubset (fun id hid => ⟨?_, hreceivers id hid⟩)
            fun info hinfo => ?_, ?_⟩
          · rw [hintents, Function.update_of_ne hid]
          · rw [hintents, Function.update_self] at hinfo
            obtain rfl := Option.some.inj hinfo
            refine ⟨fun ns x hhas => ?_, hcomplete⟩
            rcases NamespaceInterests.has_merge.mp (hd.has ns x hhas) with hhas | hmem
            · exact absurd hhas NamespaceInterests.not_has_empty
            · refine ⟨interests, ?_, hmem⟩
              rw [hlog]
              exact List.mem_append_right _ List.mem_cons_self
          · exact hset.update_iff hintents

/-- **An update** unsettles the state exactly if it brings a namespace without areas. -/
theorem updateIntent_settles (howed : Owed s) (hset : NoEmptySets s) (id : IntentId)
    (auth : Auth) (update : IntentUpdate) : Owed (s.updateIntent id auth update) ∧
      (NoEmptySets (s.updateIntent id auth update) ↔
        ¬ BringsEmpty s (.updateIntent id auth update)) := by
  cases update with
  | close =>
      obtain ⟨howed', hset'⟩ := cancelIntent_settles howed hset id
      exact ⟨howed', iff_of_true hset' fun h => h⟩
  | addInterests interests =>
      cases hresolve : auth.resolveInterests interests with
      | none =>
          simp only [updateIntent, BringsEmpty, hresolve]
          exact ⟨howed, iff_of_true hset (by simp)⟩
      | some added =>
          cases hinfo : s.intents id with
          | none =>
              simp only [updateIntent, BringsEmpty, hresolve, hinfo]
              exact ⟨howed, iff_of_true hset (by simp)⟩
          | some info =>
              have hmerged : (info.mergeInterests added).interests.NoneEmpty ↔
                  ¬ BringsEmpty s (.updateIntent id auth (.addInterests interests)) := by
                simp only [BringsEmpty, hresolve, hinfo, Option.some.injEq, exists_eq_left',
                  exists_and_left]
                exact (hset id info hinfo).merge_iff
              rw [← hmerged]
              simp only [updateIntent, hresolve, hinfo]
              refine ⟨⟨fun id' info' hinfo' ns x hhas => ?_, fun id' info' hinfo' hcomplete => ?_⟩,
                hset.update_iff rfl⟩
              · rcases update_eq_some.mp hinfo' with ⟨rfl, rfl⟩ | ⟨-, hinfo'⟩
                · rcases NamespaceInterests.has_merge.mp hhas with hhas | hmem
                  · obtain ⟨old, hold, hx⟩ := howed.asked id' info hinfo ns x hhas
                    exact ⟨old, List.mem_append_left _ hold, hx⟩
                  · exact ⟨added, List.mem_append_right _ List.mem_cons_self, hmem⟩
                · obtain ⟨old, hold, hx⟩ := howed.asked id' info' hinfo' ns x hhas
                  exact ⟨old, List.mem_append_left _ hold, hx⟩
              · rcases update_eq_some.mp hinfo' with ⟨rfl, rfl⟩ | ⟨-, hinfo'⟩
                · obtain ⟨hempty, hmode⟩ := Bool.and_eq_true_iff.mp hcomplete
                  refine howed.gone id' info hinfo (Bool.and_eq_true_iff.mpr ⟨?_, hmode⟩)
                  exact NamespaceInterests.isEmpty_of_merge hempty
                · exact howed.gone id' info' hinfo' hcomplete

/-! ### All steps -/

/-- **One step** unsettles the state exactly if it brings a namespace without areas. -/
theorem noEmptySets_step_iff (hcons : Consistent s) (howed : Owed s) (hset : NoEmptySets s)
    {a : Action} (hstep : s.step a = some s') :
    Owed s' ∧ (NoEmptySets s' ↔ ¬ BringsEmpty s a) := by
  cases step_sound hstep with
  | submitIntent auth intent order hrunning horder =>
      exact submitIntent_settles hcons howed hset auth intent order
  | emitEvent event =>
      obtain ⟨howed', hset'⟩ := emitEvent_settles howed hset event
      exact ⟨howed', iff_of_true hset' fun h => h⟩
  | updateIntent id auth update hrunning hopen =>
      exact updateIntent_settles howed hset id auth update
  | updatesClosed id hrunning hopen =>
      obtain ⟨howed', hset'⟩ := updatesClosed_settles howed hset id
      exact ⟨howed', iff_of_true hset' fun h => h⟩
  | dropReceiver id left hthere =>
      refine ⟨howed.of_subset (fun _ _ h => h) (List.Subset.refl _) fun id' hgone => ?_,
        iff_of_true hset fun h => h⟩
      have hid : id' ≠ id := by
        rintro rfl
        rw [hthere] at hgone
        cases hgone
      exact (Function.update_of_ne hid _ _).trans hgone
  | closeInbox hrunning =>
      exact ⟨howed.of_subset (fun _ _ h => h) (List.Subset.refl _) fun _ h => h,
        iff_of_true hset fun h => h⟩

/-! ### Complete areas are recorded -/

omit [AreaIntersection] in
theorem Recorded.of_log (h : Recorded s) (hcomplete : s'.completeAreas = s.completeAreas)
    (hlog : ∀ ns area, .processed ns area ∈ s'.log → .processed ns area ∈ s.log) :
    Recorded s' := by
  intro ns area hmem
  rw [hcomplete]
  exact h ns area (hlog ns area hmem)

omit [AreaIntersection] in
theorem Recorded.yieldIfDropped (h : Recorded s) : Recorded s.yieldIfDropped := by
  refine h.of_log (yieldIfDropped_completeAreas s) fun ns area hmem => ?_
  unfold IntentDispatcher.yieldIfDropped at hmem
  split at hmem
  · simpa [record] using hmem
  · exact hmem

omit [AreaIntersection] in
theorem Recorded.cancelIntent (h : Recorded s) (id : IntentId) : Recorded (s.cancelIntent id) := by
  have hinner : Recorded (s.cancelIntentInner id) := by
    refine h.of_log rfl fun ns area hmem => ?_
    simpa [cancelIntentInner, record] using hmem
  exact hinner.yieldIfDropped

theorem Recorded.emitEvent (h : Recorded s) (event : EventKind) : Recorded (s.emitEvent event) := by
  have hinner : Recorded (s.emitEventInner event) := by
    intro ns area hmem
    -- the effects of an intent report nothing
    have hquiet : ∀ (handled : Handled) id, .processed ns area ∈ handled.effects id →
        ∃ e, handled.ended = some e ∧ e = .processed ns area := by
      intro handled id hin
      simpa [Handled.effects] using hin
    have hreported : .processed ns area ∈ s.log ∨ .processed ns area ∈ reported event := by
      simp only [emitEventInner, List.mem_append, List.mem_flatMap] at hmem
      rcases hmem with (hmem | hmem) | ⟨id, -, hmem⟩
      · exact Or.inl hmem
      · exact Or.inr hmem
      · cases hinfo : s.intents id with
        | none => simp [hinfo] at hmem
        | some info =>
            simp only [hinfo, Option.map_some, Option.getD_some] at hmem
            obtain ⟨e, hended, rfl⟩ := hquiet _ _ hmem
            rcases ended_eq_some hended with heq | heq <;> cases heq
    cases event with
    | reconciled ns' area' =>
        refine NamespaceInterests.has_extend.mpr (hreported.imp (h ns area) fun hin => ?_)
        obtain ⟨rfl, rfl⟩ := Effect.processed.inj (List.mem_singleton.mp hin)
        exact ⟨rfl, List.mem_singleton_self _⟩
    | capabilityIntersection => exact h ns area (hreported.resolve_right (by simp [reported]))
    | interestIntersection => exact h ns area (hreported.resolve_right (by simp [reported]))
    | reconciledAll => exact h ns area (hreported.resolve_right (by simp [reported]))
    | abort => exact h ns area (hreported.resolve_right (by simp [reported]))
  unfold IntentDispatcher.emitEvent
  split
  · exact hinner.yieldIfDropped
  · exact hinner

theorem Recorded.submitIntent (h : Recorded s) (auth : Auth) (intent : Intent)
    (order : List (NamespaceId × AreaOfInterest)) : Recorded (s.submitIntent auth intent order) := by
  refine h.of_log ?_ fun ns area hmem => ?_
  · unfold IntentDispatcher.submitIntent
    cases auth.resolveInterests intent.interests with
    | none => rfl
    | some interests =>
        dsimp only
        split
        · rfl
        · split <;> rfl
  · cases hresolve : auth.resolveInterests intent.interests with
    | none =>
        simp only [IntentDispatcher.submitIntent, hresolve] at hmem
        exact hmem
    | some interests =>
        cases submission_cases s order hresolve with
        | abandoned _ _ _ _ hlog =>
            rw [hlog] at hmem
            simpa using hmem
        | told _ _ _ hlog =>
            rw [hlog] at hmem
            split at hmem <;> simpa using hmem

omit [AreaIntersection] in
theorem Recorded.updateIntent (h : Recorded s) (id : IntentId) (auth : Auth)
    (update : IntentUpdate) : Recorded (s.updateIntent id auth update) := by
  cases update with
  | close => exact h.cancelIntent id
  | addInterests interests =>
      unfold IntentDispatcher.updateIntent
      dsimp only
      split
      · exact h
      · split
        · exact h
        · exact h.of_log rfl fun ns area hmem => by simpa using hmem

theorem Recorded.step (h : Recorded s) {a : Action} (hstep : s.step a = some s') : Recorded s' := by
  cases step_sound hstep with
  | submitIntent auth intent order hrunning horder => exact h.submitIntent auth intent order
  | emitEvent event => exact h.emitEvent event
  | updateIntent id auth update hrunning hopen => exact h.updateIntent id auth update
  | updatesClosed id hrunning hopen =>
      have hremoved :
          Recorded { s with intentUpdateRx := Function.update s.intentUpdateRx id false } := h
      rcases updatesClosed_cases s id with heq | heq
      · rw [heq]
        exact hremoved.cancelIntent id
      · rw [heq]
        exact hremoved
  | dropReceiver id left hthere => exact h
  | closeInbox hrunning => exact h

/-! ### Whole runs -/

/-- What holds in a session without empty sets and without late interests. -/
structure Regular (s : IntentDispatcher) : Prop where
  consistent : Consistent s
  owed : Owed s
  recorded : Recorded s
  noEmptySets : NoEmptySets s
  noneCovered : NoneCovered s
  haveTime : InterestsHaveTime s

omit [AreaIntersection] in
theorem Regular.start : Regular {} where
  consistent := .start
  owed := .start
  recorded := by rintro ns area ⟨⟩
  noEmptySets := by rintro id info ⟨⟩
  noneCovered := by rintro id info ⟨⟩
  haveTime := by rintro id info ⟨⟩

theorem Regular.step (hspec : IncludedIntersects) (h : Regular s) {a : Action}
    (hhave : a.HaveTime) (hstep : s.step a = some s') (hempty : ¬ BringsEmpty s a)
    (hlate : ¬ Late s a) : Regular s' := by
  obtain ⟨howed, hset⟩ := noEmptySets_step_iff h.consistent h.owed h.noEmptySets hstep
  obtain ⟨htime, hnone⟩ := noneCovered_step_iff hspec hhave h.noneCovered h.haveTime hstep
  exact ⟨h.consistent.step hstep, howed, h.recorded.step hstep, hset.mpr hempty,
    hnone.mpr hlate, htime⟩

/-- **Empty sets, exactly.** In every state of a session each active intent has areas
for all its namespaces if and only if no submission and no update brings a namespace
without areas. -/
theorem noEmptySets_iff (actions : List Action) :
    (∀ p, p <+: actions → ∀ s, run p = some s → NoEmptySets s) ↔
      ∀ p a, p ++ [a] <+: actions → ∀ s s', run p = some s → s.step a = some s' →
        ¬ BringsEmpty s a := by
  refine Transition.forall_prefix_iff (I := fun s => Consistent s ∧ Owed s) actions ?_
    ⟨Consistent.start, Owed.start⟩ ?_
  · rintro id info ⟨⟩
  · rintro s a s' - hset ⟨hcons, howed⟩ hstep
    obtain ⟨howed', hiff⟩ := noEmptySets_step_iff hcons howed hset hstep
    exact ⟨⟨hcons.step hstep, howed'⟩, hiff⟩

/-- **An intent completes when nothing is left.** No active intent ever has a namespace
without areas if and only if no submission and no update brings one; and in a session
in which this is so, no interest is added that is complete already and all areas of
interest have a timestamp, the map of an active intent is empty exactly when all that
was submitted for it is covered, and a `ReconcileOnce` intent is then complete. -/
theorem empty_interests_settled (hspec : IncludedIntersects) (actions : List Action) :
    ((∀ p, p <+: actions → ∀ s, run p = some s → NoEmptySets s) ↔
      ∀ p a, p ++ [a] <+: actions → ∀ s s', run p = some s → s.step a = some s' →
        ¬ BringsEmpty s a) ∧
    ((∀ a ∈ actions, a.HaveTime) →
      (∀ p a, p ++ [a] <+: actions → ∀ s s', run p = some s → s.step a = some s' →
        ¬ BringsEmpty s a ∧ ¬ Late s a) →
      ∀ p, p <+: actions → ∀ s, run p = some s → Settled s) := by
  refine ⟨noEmptySets_iff actions, fun hhave hmeets p hp s hs => ?_⟩
  have h : Regular s := by
    refine Transition.of_prefix Regular.start ?_ hmeets hp hs
    rintro s a s' ha hregular hstep ⟨hempty, hnotLate⟩
    exact hregular.step hspec (hhave a ha) hstep hempty hnotLate
  exact .of_noneCovered h.consistent h.owed h.recorded h.noEmptySets h.noneCovered

end Dispatcher

section Samples

open IrohWillow.Sample

attribute [local instance] Sample.areaIntersection

/-- No area of the namespace. -/
def Sample.nothing : Interests := .select [(⟨namespaceId, .any, .widest⟩, .exact [])]

/-- An intent for no area of the namespace. -/
def Sample.submitNothing : Action :=
  .submitIntent Sample.auth ⟨Sample.nothing, .reconcileOnce, true⟩ []

/-- An interest that is added in time: the intent is complete. -/
theorem empty_interests_settled_in_time :
    (∃ s info, run Sample.addInTime = some s ∧ s.intents 0 = some info ∧
      info.interests.isEmpty = true) ∧
      ∀ p, p <+: Sample.addInTime → ∀ s, run p = some s → Settled s := by
  refine ⟨?_, (empty_interests_settled Sample.includedIntersects _).2
    (fun a ha => Sample.haveTime ha) ?_⟩
  · have hrun : (((run Sample.addInTime).bind fun s => s.intents 0).map fun info =>
        info.interests.isEmpty) = some true := by decide
    obtain ⟨info, hinfo, hempty⟩ := Option.map_eq_some_iff.mp hrun
    obtain ⟨s, hs, hinfo⟩ := Option.bind_eq_some_iff.mp hinfo
    exact ⟨s, info, hs, hinfo, hempty⟩
  · intro p a hp s s' hs hstep
    refine ⟨?_, Sample.not_late hp hs⟩
    -- both times an area of the namespace is named
    have hresolved : ∀ resolved, Sample.auth.resolveInterests .all = some resolved →
        ¬ ∃ ns, resolved.OnlyEmpty ns := by
      rintro resolved hres ⟨ns, ⟨e, he, hns⟩, hnil⟩
      obtain rfl := Option.some.inj hres
      have hempty := hnil e he hns
      rw [List.mem_singleton.mp he] at hempty
      cases hempty
    have hmem : a ∈ Sample.addInTime := hp.subset (by simp)
    simp only [Sample.addInTime, List.mem_cons, List.not_mem_nil, or_false] at hmem
    rcases hmem with rfl | rfl | rfl
    · rintro ⟨-, interests, hres, honly⟩
      exact hresolved interests hres honly
    · rintro ⟨info, added, -, hres, ns, honly, -⟩
      exact hresolved added hres ⟨ns, honly⟩
    · exact fun h => h

/-- No area is submitted, but the intent is not complete, and stays incomplete when
everything is reconciled. -/
theorem nothing_never_complete :
    ∃ s info, run [Sample.submitNothing, Sample.reconcile] = some s ∧ s.intents 0 = some info ∧
      info.mode = .reconcileOnce ∧ (∀ ns x, ¬ Asked s.log 0 ns x) ∧
      info.isComplete = false ∧ ¬ Settled s := by
  have hrun : ((run [Sample.submitNothing, Sample.reconcile]).bind fun s => (s.intents 0).map
      fun info => (info, s.log)) =
      some (⟨flattenInterests [(Sample.readAuthorisation, [])], .reconcileOnce, true⟩,
        [.submitted 0 [(Sample.readAuthorisation, [])],
          .output (.submitInterests [(Sample.readAuthorisation, [])]),
          .processed namespaceId Sample.everything]) := by
    rfl
  obtain ⟨s, hs, hmap⟩ := Option.bind_eq_some_iff.mp hrun
  obtain ⟨info, hinfo, heq⟩ := Option.map_eq_some_iff.mp hmap
  obtain ⟨rfl, hlog⟩ := Prod.mk.inj heq
  have hasked : ∀ ns x, ¬ Asked s.log 0 ns x := by
    rintro ns x ⟨interests, hmem, e, he, -, hx⟩
    rw [hlog] at hmem
    obtain rfl : interests = [(Sample.readAuthorisation, [])] := by simpa using hmem
    rw [List.mem_singleton.mp he] at hx
    cases hx
  refine ⟨s, _, hs, hinfo, rfl, hasked, rfl, fun hsettled => ?_⟩
  have hsat : Satisfied s.log 0 := fun ns x h => absurd h (hasked ns x)
  exact absurd (hsettled.complete 0 _ hinfo rfl hsat).1 (by decide)

end Samples

end IntentDispatcher

end IrohWillow.Intents
