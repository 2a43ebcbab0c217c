import IrohWillow.Session.IntentCompletion

/-!
# Interests that are complete already

An area that was reconciled once is not reconciled again, so an intent that
waits for it waits in vain. A new intent therefore starts without the interests
that a complete area includes, and a newly completed area takes them off all
intents. `update_intent` adds interests as they are.

`late_interests_iff` is the exact statement. That an area overlaps one that
includes it is assumed of `Area::intersection`, for areas with a timestamp.
-/

namespace IrohWillow.Intents

open Fallible

section Late

/-- Some timestamp is in the area. -/
def HasTime (a : Area) : Prop := ∃ t, a.times.Includes t

variable [AreaIntersection]

/-- An area that includes another one that is not empty overlaps it. -/
def IncludedIntersects : Prop :=
  ∀ a b : Area, b.IncludesArea a → HasTime a → (AreaIntersection.intersection a b).isSome = true

/-- The intent waits for areas that are not empty, and for none that an area in
`K` includes. -/
structure Rid (K : Set (NamespaceId × AreaOfInterest)) (d : Delivery) : Prop where
  hasTime : ∀ ns x, d.info.interests.Has ns x → HasTime x.area
  apart : ∀ ns x area, d.info.interests.Has ns x → (ns, area) ∈ K →
    ¬ area.area.IncludesArea x.area

variable {K : Set (NamespaceId × AreaOfInterest)} {E : ChannelReceiverDropped → Delivery → Prop}
  {ns : NamespaceId} {area : AreaOfInterest}

theorem completeAreaIfMatches_fst (info : IntentInfo) (ns : NamespaceId) (area : Area) :
    (info.completeAreaIfMatches ns area).1 = info.matchesArea ns area := by
  unfold IntentInfo.completeAreaIfMatches IntentInfo.matchesArea
  cases info.interests.lookup ns with
  | none => rfl
  | some aois =>
      dsimp only
      split
      · rename_i hover
        rw [hover]
        split <;> rfl
      · rename_i hover
        exact (Bool.eq_false_iff.mpr hover).symm

/-- What an area includes matches it. -/
theorem matchesArea_of_includes (hspec : IncludedIntersects) {info : IntentInfo}
    {x : AreaOfInterest} (hhas : info.interests.Has ns x) (htime : HasTime x.area)
    (hinc : area.area.IncludesArea x.area) : info.matchesArea ns area.area = true := by
  obtain ⟨aois, hlook, hx⟩ := hhas
  unfold IntentInfo.matchesArea IntentInfo.overlaps
  rw [hlook]
  exact List.any_eq_true.mpr ⟨x, hx, hspec _ _ hinc htime⟩

/-- An area takes off everything it includes. -/
theorem completeArea_rid (hspec : IncludedIntersects) :
    Spec (Rid K) (completeArea ns area.area) (fun _ => Rid (insert (ns, area) K)) E := by
  refine Spec.access fun d hd => ⟨fun ns' x hhas => ?_, fun ns' x area' hhas hK hinc => ?_⟩
  · exact hd.hasTime ns' x (has_completeAreaIfMatches.mp hhas).1
  · obtain ⟨hbefore, hstays⟩ := has_completeAreaIfMatches.mp hhas
    rcases hK with heq | hK
    · obtain ⟨rfl, rfl⟩ := Prod.mk.inj heq
      refine hstays ⟨?_, rfl, hinc⟩
      rw [completeAreaIfMatches_fst]
      exact matchesArea_of_includes hspec hbefore (hd.hasTime ns' x hbefore) hinc
    · exact hd.apart ns' x area' hbefore hK hinc

omit [AreaIntersection] in
theorem rid_sent (d : Delivery) (event : EventKind) (hd : Rid K d) :
    Rid K { d with sent := d.sent ++ [event] } := ⟨hd.hasTime, hd.apart⟩

theorem onReconciled_rid (hspec : IncludedIntersects) :
    Spec (Rid K) (onReconciled ns area) (fun _ => Rid (insert (ns, area) K))
      fun _ => Rid (insert (ns, area) K) := by
  refine (completeArea_rid hspec).bind fun isMatch => ?_
  exact Spec.when (fun _ => sendBoth_keeps rid_sent _ true) fun _ d hd => hd

/-- After catching up, nothing is left that one of the areas includes. -/
theorem catchUp_rid (hspec : IncludedIntersects) (order : List (NamespaceId × AreaOfInterest)) :
    Spec (Rid K) (catchUp order) (fun _ => Rid (K ∪ {e | e ∈ order})) fun _ _ => True := by
  induction order generalizing K with
  | nil =>
      refine Spec.pure fun d hd => ⟨hd.hasTime, fun ns x area hhas hK => ?_⟩
      exact hd.apart ns x area hhas (hK.resolve_right (by simp))
  | cons e rest ih =>
      obtain ⟨ns, area⟩ := e
      refine Spec.bind ((onReconciled_rid hspec).weaken (fun d hd => hd) (fun _ d hd => hd)
        fun _ _ _ => trivial) fun _ => ?_
      refine ih.weaken (fun d hd => hd) (fun _ d hd => ⟨hd.hasTime, ?_⟩) fun _ _ h => h
      intro ns' x area' hhas hK
      refine hd.apart ns' x area' hhas ?_
      rcases hK with hK | hmem
      · exact Or.inl (Or.inr hK)
      · rcases List.mem_cons.mp hmem with heq | hmem
        · exact Or.inl (Or.inl heq)
        · exact Or.inr hmem

/-- The complete areas once the event is recorded. -/
def withEvent (K : Set (NamespaceId × AreaOfInterest)) (event : EventKind) :
    Set (NamespaceId × AreaOfInterest) := K ∪ {e | event = .reconciled e.1 e.2}

theorem matchesEvent_rid (hspec : IncludedIntersects) (event : EventKind) :
    Spec (Rid K) (matchesEvent event) (fun _ => Rid (withEvent K event)) E := by
  have hsame : (∀ ns area, event ≠ .reconciled ns area) → ∀ d, Rid K d →
      Rid (withEvent K event) d := by
    intro hne d hd
    refine ⟨hd.hasTime, fun ns x area hhas hK => hd.apart ns x area hhas ?_⟩
    exact hK.resolve_right fun heq => hne _ _ heq
  cases event with
  | reconciled ns area =>
      refine (completeArea_rid hspec).weaken (fun d hd => hd) (fun _ d hd => ?_) fun e d hd => hd
      refine ⟨hd.hasTime, fun ns' x area' hhas hK => hd.apart ns' x area' hhas ?_⟩
      rcases hK with hK | heq
      · exact Or.inr hK
      · obtain ⟨rfl, rfl⟩ := EventKind.reconciled.inj heq
        exact Or.inl rfl
  | capabilityIntersection ns area => exact Spec.access (hsame (by simp))
  | interestIntersection ns area => exact Spec.access (hsame (by simp))
  | reconciledAll => exact Spec.pure (hsame (by simp))
  | abort error => exact Spec.pure (hsame (by simp))

theorem handleEvent_rid (hspec : IncludedIntersects) (event : EventKind) :
    Spec (Rid K) (handleEvent event) (fun _ => Rid (withEvent K event))
      fun _ => Rid (withEvent K event) := by
  refine (matchesEvent_rid hspec event).bind fun isMatch => ?_
  refine Spec.bind (Q := fun _ => Rid (withEvent K event)) ?_ fun _ => ?_
  · exact Spec.when (fun _ => sendBoth_keeps rid_sent _ _) fun _ d hd => hd
  · exact Spec.access fun d hd => hd

namespace IntentDispatcher

variable {s s' : IntentDispatcher}

/-- No intent waits for an area that a complete one includes. -/
def NoneCovered (s : IntentDispatcher) : Prop :=
  ∀ id info, s.intents id = some info → ∀ ns x area, info.interests.Has ns x →
    s.completeAreas.Has ns area → ¬ area.area.IncludesArea x.area

/-- No intent waits for an area without timestamps. -/
def InterestsHaveTime (s : IntentDispatcher) : Prop :=
  ∀ id info, s.intents id = some info → ∀ ns x, info.interests.Has ns x → HasTime x.area

/-- The interests that the action brings all have a timestamp. -/
def Action.HaveTime (a : Action) : Prop :=
  ∀ auth interests resolved, (∃ mode hasChannels order,
      a = .submitIntent auth ⟨interests, mode, hasChannels⟩ order) ∨
      (∃ id, a = .updateIntent id auth (.addInterests interests)) →
    auth.resolveInterests interests = some resolved → ∀ e ∈ resolved, ∀ x ∈ e.2, HasTime x.area

/-- The action adds an interest to an active intent that a complete area
includes. -/
def Late (s : IntentDispatcher) (a : Action) : Prop :=
  ∃ id auth interests info added, a = .updateIntent id auth (.addInterests interests) ∧
    s.intents id = some info ∧ auth.resolveInterests interests = some added ∧
    ∃ e ∈ added, ∃ x ∈ e.2, ∃ area, s.completeAreas.Has e.1.namespaceId area ∧
      area.area.IncludesArea x.area

/-- The complete areas with their namespaces. -/
def completeSet (s : IntentDispatcher) : Set (NamespaceId × AreaOfInterest) :=
  {e | s.completeAreas.Has e.1 e.2}

omit [AreaIntersection] in
theorem rid_of (hnone : NoneCovered s) (htime : InterestsHaveTime s) {id : IntentId}
    {info : IntentInfo} (hinfo : s.intents id = some info) : Rid s.completeSet { info := info } where
  hasTime := htime id info hinfo
  apart := hnone id info hinfo

omit [AreaIntersection] in
theorem of_rid (h : ∀ id info, s.intents id = some info → Rid s.completeSet { info := info }) :
    NoneCovered s ∧ InterestsHaveTime s :=
  ⟨fun id info hinfo => (h id info hinfo).apart, fun id info hinfo => (h id info hinfo).hasTime⟩

omit [AreaIntersection] in
/-- Steps that bring no intent, no interest and no complete area. -/
theorem keeps_of_subset (hnone : NoneCovered s) (htime : InterestsHaveTime s)
    (hcomplete : s'.completeAreas = s.completeAreas)
    (hintents : ∀ id info, s'.intents id = some info → s.intents id = some info) :
    NoneCovered s' ∧ InterestsHaveTime s' := by
  refine of_rid fun id info hinfo => ?_
  have hset : s'.completeSet = s.completeSet := by
    unfold completeSet
    rw [hcomplete]
  rw [hset]
  exact rid_of hnone htime (hintents id info hinfo)

omit [AreaIntersection] in
theorem intents_cancelIntent {id id' : IntentId} {info : IntentInfo}
    (h : (s.cancelIntent id).intents id' = some info) : s.intents id' = some info := by
  unfold cancelIntent at h
  rw [yieldIfDropped_intents] at h
  by_cases hid : id' = id
  · subst hid
    rw [cancelIntentInner_intents_self] at h
    cases h
  · rwa [cancelIntentInner_intents_ne s hid] at h

theorem emitEventInner_keeps (hspec : IncludedIntersects) (hnone : NoneCovered s)
    (htime : InterestsHaveTime s) (event : EventKind) :
    NoneCovered (s.emitEventInner event) ∧ InterestsHaveTime (s.emitEventInner event) := by
  have hset : (s.emitEventInner event).completeSet = withEvent s.completeSet event := by
    ext ⟨ns, area⟩
    cases event with
    | reconciled ns' area' =>
        refine NamespaceInterests.has_extend.trans (or_congr_right ?_)
        simp [eq_comm]
    | capabilityIntersection ns' area' => simp [emitEventInner, completeSet, withEvent, addComplete]
    | interestIntersection ns' area' => simp [emitEventInner, completeSet, withEvent, addComplete]
    | reconciledAll => simp [emitEventInner, completeSet, withEvent, addComplete]
    | abort error => simp [emitEventInner, completeSet, withEvent, addComplete]
  refine of_rid fun id info' hinfo' => ?_
  rw [hset]
  obtain ⟨handled, hhandled, hstays⟩ := Option.bind_eq_some_iff.mp hinfo'
  obtain ⟨info, hinfo, rfl⟩ := Option.map_eq_some_iff.mp hhandled
  split at hstays
  · cases hstays
  · obtain rfl := Option.some.inj hstays
    obtain ⟨hok, herr⟩ := handleEvent_rid hspec event (s.receivers id) _ (rid_of hnone htime hinfo)
    unfold handle
    rcases hrun : handleEvent event (s.receivers id) { info := info } with
      ⟨e | isComplete, left, d⟩
    · rw [hrun] at herr
      have hd := herr e d rfl rfl
      exact ⟨hd.hasTime, hd.apart⟩
    · rw [hrun] at hok
      have hd := hok isComplete d rfl rfl
      exact ⟨hd.hasTime, hd.apart⟩

theorem submitIntent_keeps (hspec : IncludedIntersects) (hnone : NoneCovered s)
    (htime : InterestsHaveTime s) {auth : Auth} {intent : Intent}
    {order : List (NamespaceId × AreaOfInterest)}
    (hhave : (Action.submitIntent auth intent order).HaveTime)
    (horder : order.Perm s.completeAreas.toList) :
    NoneCovered (s.submitIntent auth intent order) ∧
      InterestsHaveTime (s.submitIntent auth intent order) := by
  unfold submitIntent
  cases hresolve : auth.resolveInterests intent.interests with
  | none => exact keeps_of_subset hnone htime rfl fun _ _ h => h
  | some interests =>
      dsimp only
      have hnew : Rid ∅ { info := { interests := flattenInterests interests, mode := intent.mode,
                                    hasEventTx := intent.hasChannels } } := by
        refine ⟨fun ns x hhas => ?_, fun _ _ _ _ h => absurd h (Set.notMem_empty _)⟩
        rcases NamespaceInterests.has_merge.mp hhas with hhas | ⟨e, he, -, hx⟩
        · exact absurd hhas NamespaceInterests.not_has_empty
        · exact hhave auth intent.interests interests (Or.inl ⟨intent.mode, intent.hasChannels,
            order, rfl⟩) hresolve e he x hx
      obtain ⟨hok, -⟩ := catchUp_rid hspec order (s.receivers s.nextIntentId) _ hnew
      match hrun : catchUp order (s.receivers s.nextIntentId)
          { info := { interests := flattenInterests interests, mode := intent.mode,
                      hasEventTx := intent.hasChannels } } with
      | (.error err, left, d) => exact keeps_of_subset hnone htime rfl fun _ _ h => h
      | (.ok (), left, d) =>
          rw [hrun] at hok
          have hd := hok () d rfl rfl
          dsimp only
          split
          · exact keeps_of_subset hnone htime rfl fun _ _ h => h
          · refine of_rid fun id info hinfo => ?_
            rcases update_eq_some.mp hinfo with ⟨rfl, rfl⟩ | ⟨-, hinfo⟩
            · refine ⟨hd.hasTime, fun ns x area hhas hK => hd.apart ns x area hhas (Or.inr ?_)⟩
              exact horder.mem_iff.mpr (NamespaceInterests.mem_toList.mpr hK)
            · exact rid_of hnone htime hinfo

omit [AreaIntersection] in
/-- An update brings a covered interest exactly if it is late. -/
theorem updateIntent_keeps_iff (hnone : NoneCovered s) (htime : InterestsHaveTime s)
    {id : IntentId} {auth : Auth} {update : IntentUpdate}
    (hhave : (Action.updateIntent id auth update).HaveTime) :
    InterestsHaveTime (s.updateIntent id auth update) ∧
      (NoneCovered (s.updateIntent id auth update) ↔ ¬ Late s (.updateIntent id auth update)) := by
  cases update with
  | close =>
      have hkeeps : NoneCovered (s.cancelIntent id) ∧ InterestsHaveTime (s.cancelIntent id) :=
        keeps_of_subset hnone htime (by simp [cancelIntent, cancelIntentInner])
          fun _ _ => intents_cancelIntent
      refine ⟨hkeeps.2, fun _ => ?_, fun _ => hkeeps.1⟩
      rintro ⟨id', auth', interests, info, added, heq, -⟩
      cases heq
  | addInterests interests =>
      -- an update that is refused brings nothing
      have hnotLate : auth.resolveInterests interests = none ∨ s.intents id = none →
          ¬ Late s (.updateIntent id auth (.addInterests interests)) := by
        rintro hor ⟨id', auth', interests', info, added, heq, hinfo, hadded, -⟩
        obtain ⟨rfl, rfl, hupdate⟩ := Action.updateIntent.inj heq
        obtain rfl := IntentUpdate.addInterests.inj hupdate
        rcases hor with hnone | hnone
        · rw [hnone] at hadded
          cases hadded
        · rw [hnone] at hinfo
          cases hinfo
      cases hresolve : auth.resolveInterests interests with
      | none =>
          simp only [updateIntent, hresolve]
          exact ⟨htime, fun _ => hnotLate (Or.inl hresolve), fun _ => hnone⟩
      | some added =>
          cases hinfo : s.intents id with
          | none =>
              simp only [updateIntent, hresolve, hinfo]
              exact ⟨htime, fun _ => hnotLate (Or.inr hinfo), fun _ => hnone⟩
          | some info =>
              simp only [updateIntent, hresolve, hinfo]
              refine ⟨?_, ?_, ?_⟩
              · intro id' info' hinfo' ns x hhas
                rcases update_eq_some.mp hinfo' with ⟨rfl, rfl⟩ | ⟨-, hinfo'⟩
                · rcases NamespaceInterests.has_merge.mp hhas with hhas | ⟨e, he, -, hx⟩
                  · exact htime id' info hinfo ns x hhas
                  · exact hhave auth interests added (Or.inr ⟨id', rfl⟩) hresolve e he x hx
                · exact htime id' info' hinfo' ns x hhas
              · rintro hgood ⟨id', auth', interests', info', added', heq, hinfo', hadded', e, he, x,
                  hx, area, hcomplete, hinc⟩
                obtain ⟨rfl, rfl, hupdate⟩ := Action.updateIntent.inj heq
                obtain rfl := IntentUpdate.addInterests.inj hupdate
                rw [hresolve] at hadded'
                obtain rfl := Option.some.inj hadded'
                -- the late interest would be covered in the new state
                refine hgood id _ (Function.update_self _ _ _) e.1.namespaceId x area ?_ hcomplete
                  hinc
                exact NamespaceInterests.has_merge.mpr (Or.inr ⟨e, he, rfl, hx⟩)
              · intro hlate id' info' hinfo' ns x area hhas hcomplete hinc
                rcases update_eq_some.mp hinfo' with ⟨rfl, rfl⟩ | ⟨-, hinfo'⟩
                · rcases NamespaceInterests.has_merge.mp hhas with hhas | ⟨e, he, rfl, hx⟩
                  · exact hnone id' info hinfo ns x area hhas hcomplete hinc
                  · exact hlate ⟨id', auth, interests, info, added, rfl, hinfo, hresolve, e, he, x,
                      hx, area, hcomplete, hinc⟩
                · exact hnone id' info' hinfo' ns x area hhas hcomplete hinc

/-- **One step**: no covered interest stays, unless the step brings one late. -/
theorem noneCovered_step_iff (hspec : IncludedIntersects) {a : Action} (hhave : a.HaveTime)
    (hnone : NoneCovered s) (htime : InterestsHaveTime s) (hstep : s.step a = some s') :
    InterestsHaveTime s' ∧ (NoneCovered s' ↔ ¬ Late s a) := by
  have hother : (∀ id auth update, a ≠ .updateIntent id auth update) → NoneCovered s' ∧
      InterestsHaveTime s' → InterestsHaveTime s' ∧ (NoneCovered s' ↔ ¬ Late s a) := by
    rintro hne ⟨hnone', htime'⟩
    refine ⟨htime', fun _ => ?_, fun _ => hnone'⟩
    rintro ⟨id, auth, interests, info, added, heq, -⟩
    exact hne _ _ _ heq
  cases step_sound hstep with
  | submitIntent auth intent order hrunning horder =>
      refine hother (by simp) ?_
      exact submitIntent_keeps hspec hnone htime hhave horder
  | emitEvent event =>
      refine hother (by simp) ?_
      have hinner := emitEventInner_keeps hspec hnone htime event
      unfold emitEvent
      split
      · exact keeps_of_subset hinner.1 hinner.2 (by simp) fun id info h => by simpa using h
      · exact hinner
  | updateIntent id auth update hrunning hopen =>
      exact updateIntent_keeps_iff hnone htime hhave
  | updatesClosed id hrunning hopen =>
      refine hother (by simp) ?_
      have hremoved : NoneCovered
          { s with intentUpdateRx := Function.update s.intentUpdateRx id false } ∧
          InterestsHaveTime
            { s with intentUpdateRx := Function.update s.intentUpdateRx id false } :=
        keeps_of_subset hnone htime rfl fun _ _ h => h
      rcases updatesClosed_cases s id with heq | heq
      · rw [heq]
        exact keeps_of_subset hremoved.1 hremoved.2 (by simp [cancelIntent, cancelIntentInner])
          fun _ _ => intents_cancelIntent
      · rw [heq]
        exact hremoved
  | dropReceiver id left hthere =>
      refine hother (by simp) ?_
      exact keeps_of_subset hnone htime rfl fun _ _ h => h
  | closeInbox hrunning =>
      refine hother (by simp) ?_
      exact keeps_of_subset hnone htime rfl fun _ _ h => h

/-- **Late interests, exactly.** In a session whose areas of interest all have
a timestamp, no intent ever waits for an area that is complete already if and
only if no update adds such an area to an active intent. -/
theorem late_interests_iff (hspec : IncludedIntersects) (actions : List Action)
    (hhave : ∀ a ∈ actions, a.HaveTime) :
    (∀ p, p <+: actions → ∀ s, run p = some s → NoneCovered s) ↔
      ∀ p a, p ++ [a] <+: actions → ∀ s s', run p = some s → s.step a = some s' → ¬ Late s a := by
  refine Transition.forall_prefix_iff (I := InterestsHaveTime) actions ?_ ?_ ?_
  · rintro id info ⟨⟩
  · rintro id info ⟨⟩
  · exact fun s a s' ha hnone htime hstep =>
      noneCovered_step_iff hspec (hhave a ha) hnone htime hstep

end IntentDispatcher

end Late

namespace IntentDispatcher

section Samples

open IrohWillow.Sample

attribute [local instance] Sample.areaIntersection

theorem Sample.newClosed_isSome {start stop t : Timestamp} (hstart : start ≤ t) (hstop : t < stop) :
    ∃ r, Range.newClosed start stop = some r := by
  unfold Range.newClosed
  rw [if_pos (lt_of_le_of_lt hstart hstop)]
  exact ⟨_, rfl⟩

theorem Sample.includedIntersects : IncludedIntersects := by
  rintro ⟨subspaceA, pathA, startA, stopA⟩ ⟨subspaceB, pathB, startB, stopB⟩
    ⟨hsubspace, hpath, hstart, hstop⟩ ⟨t, htime, hbefore⟩
  have hmax : max startA startB = startA := max_eq_left hstart
  have hsome : ∃ subspace, (if subspaceA.IncludesSubspace subspaceB then some subspaceB
      else if subspaceB.IncludesSubspace subspaceA then some subspaceA else none) =
      some subspace := by
    by_cases hother : subspaceA.IncludesSubspace subspaceB
    · exact ⟨_, if_pos hother⟩
    · exact ⟨_, (if_neg hother).trans (if_pos hsubspace)⟩
  have hsomePath : ∃ path, (if pathA.IsPrefixOf pathB then some pathB
      else if pathB.IsPrefixOf pathA then some pathA else none) = some path := by
    by_cases hother : pathA.IsPrefixOf pathB
    · exact ⟨_, if_pos hother⟩
    · exact ⟨_, (if_neg hother).trans (if_pos hpath)⟩
  obtain ⟨subspace, hsubspace⟩ := hsome
  obtain ⟨path, hpath⟩ := hsomePath
  simp only [AreaIntersection.intersection, hmax, hsubspace, hpath]
  cases stopA with
  | opened =>
      cases stopB with
      | opened => rfl
      | closed stopB => exact absurd hstop not_false
  | closed stopA =>
      cases stopB with
      | opened =>
          obtain ⟨r, hr⟩ := newClosed_isSome htime hbefore
          simp [hr]
      | closed stopB =>
          obtain ⟨r, hr⟩ := newClosed_isSome htime hbefore
          have hmin : min stopA stopB = stopA := min_eq_left hstop
          simp [hmin, hr]

/-- An interest in everything is added. -/
def Sample.addEverything : Action := .updateIntent 0 Sample.auth (.addInterests .all)

theorem Sample.haveTime {a : Action} (h : a ∈ [Sample.submit .continuous, Sample.addEverything,
    Sample.reconcile]) : a.HaveTime := by
  have hresolved : ∀ resolved, Sample.auth.resolveInterests .all = some resolved →
      ∀ e ∈ resolved, ∀ x ∈ e.2, HasTime x.area := by
    intro resolved hres e he x hx
    obtain rfl := Option.some.inj hres
    obtain rfl := List.mem_singleton.mp he
    obtain rfl := List.mem_singleton.mp hx
    exact ⟨0, by decide⟩
  intro auth interests resolved hbrings hres
  have heq : auth = Sample.auth ∧ interests = .all := by
    rcases hbrings with ⟨mode, hasChannels, order, rfl⟩ | ⟨id, rfl⟩
    · simp only [submit, addEverything, reconcile, List.mem_cons, Action.submitIntent.injEq,
        Intent.mk.injEq, reduceCtorEq, List.not_mem_nil, or_false] at h
      exact ⟨h.1, h.2.1.1⟩
    · simp only [submit, addEverything, reconcile, List.mem_cons, Action.updateIntent.injEq,
        IntentUpdate.addInterests.injEq, reduceCtorEq, List.not_mem_nil, or_false, false_or] at h
      exact ⟨h.2.1, h.2.2⟩
  obtain ⟨rfl, rfl⟩ := heq
  exact hresolved resolved hres

/-- What is reconciled already is added, and the intent waits for it. -/
theorem late_interest_remains :
    ¬ ∀ (_ : AreaIntersection) (_ : IncludedIntersects) (actions : List Action) s,
      run actions = some s → NoneCovered s := by
  intro h
  have hrun : ((run [Sample.submit .continuous, Sample.reconcile, Sample.addEverything]).map
      fun s => ((s.intents 0).map fun info => info.interests.lookup namespaceId,
        s.completeAreas.lookup namespaceId)) =
      some (some (some [Sample.everything]), some [Sample.everything]) := by decide
  obtain ⟨s, hs, heq⟩ := Option.map_eq_some_iff.mp hrun
  obtain ⟨hintent, hcomplete⟩ := Prod.mk.inj heq
  obtain ⟨info, hinfo, hlook⟩ := Option.map_eq_some_iff.mp hintent
  exact h _ Sample.includedIntersects _ s hs 0 info hinfo namespaceId Sample.everything
    Sample.everything ⟨_, hlook, List.mem_singleton_self _⟩
    ⟨_, hcomplete, List.mem_singleton_self _⟩ (.refl _)

/-- An interest is added before it is reconciled. -/
def Sample.addInTime : List Action :=
  [Sample.submit .continuous, Sample.addEverything, Sample.reconcile]

/-- The only update comes before anything is complete. -/
theorem Sample.not_late {p : List Action} {a : Action} {s : IntentDispatcher}
    (hp : p ++ [a] <+: Sample.addInTime) (hs : run p = some s) : ¬ Late s a := by
  rintro ⟨id, auth, interests, info, added, rfl, -, -, e, -, x, -, area, hhas, -⟩
  have hp' : p = [Sample.submit .continuous] := by
    rcases List.prefix_concat_iff.mp (show p ++ [_] <+: [Sample.submit .continuous,
      Sample.addEverything] ++ [Sample.reconcile] from hp) with heq | hp
    · cases (List.append_inj' heq rfl).2
    rcases List.prefix_concat_iff.mp (show p ++ [_] <+:
      [Sample.submit .continuous] ++ [Sample.addEverything] from hp) with heq | hp
    · exact (List.append_inj' heq rfl).1
    · have heq : p ++ [_] = [] ++ [Sample.submit .continuous] :=
        hp.eq_of_length (by simpa using hp.length_le)
      cases (List.append_inj' heq rfl).2
  subst hp'
  have hrun : ((run [Sample.submit .continuous]).map fun s =>
      s.completeAreas.lookup e.1.namespaceId) = some none := rfl
  obtain ⟨t, ht, hnone⟩ := Option.map_eq_some_iff.mp hrun
  obtain rfl := Option.some.inj (hs.symm.trans ht)
  obtain ⟨aois, hlook, -⟩ := hhas
  cases hnone.symm.trans hlook

/-- An interest that is added in time is completed. -/
theorem late_interests_iff_in_time :
    (∃ s, run Sample.addInTime = some s ∧ .sent 0 .reconciledAll ∈ s.log) ∧
      ∀ p, p <+: Sample.addInTime → ∀ s, run p = some s → NoneCovered s := by
  refine ⟨?_, (late_interests_iff Sample.includedIntersects _ fun a ha =>
    Sample.haveTime ha).mpr fun p a hp s s' hs _ => Sample.not_late hp hs⟩
  have hrun : ((run Sample.addInTime).map fun s =>
      decide (.sent 0 .reconciledAll ∈ s.log)) = some true := by decide
  obtain ⟨s, hs, hsent⟩ := Option.map_eq_some_iff.mp hrun
  exact ⟨s, hs, of_decide_eq_true hsent⟩

end Samples

end IntentDispatcher

end IrohWillow.Intents
