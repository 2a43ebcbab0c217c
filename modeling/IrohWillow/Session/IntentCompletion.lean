import IrohWillow.Session.Intents

/-!
# When an intent is complete

An intent is told `ReconciledAll`, and is removed as complete, when none of its
interests is left. Interests are taken off as areas are reported to be
reconciled while the intent is there, and when it is submitted by the areas
that were reported before. `reconciledAll_sound`: an interest is only taken off
when an area that includes it was reported.
-/

namespace IrohWillow.Intents

open Fallible

/-! ## What the log says -/

/-- The intent has asked for the area. -/
def Asked (log : List Effect) (id : IntentId) (ns : NamespaceId) (x : AreaOfInterest) : Prop :=
  ∃ interests, .submitted id interests ∈ log ∧ ∃ e ∈ interests, e.1.namespaceId = ns ∧ x ∈ e.2

/-- The session has reported an area that includes the given one. -/
def Covered (log : List Effect) (ns : NamespaceId) (x : AreaOfInterest) : Prop :=
  ∃ area, .processed ns area ∈ log ∧ area.area.IncludesArea x.area

/-- All that the intent has asked for is reported. -/
def Satisfied (log : List Effect) (id : IntentId) : Prop :=
  ∀ ns x, Asked log id ns x → Covered log ns x

/-- The effect tells the client that its intent is complete, or removes it for
that reason. -/
def Effect.Finishes (id : IntentId) : Effect → Prop
  | .sent id' .reconciledAll => id' = id
  | .completed id' => id' = id
  | _ => False

/-- Intents are only finished when they are satisfied. -/
def Sound (log : List Effect) : Prop :=
  ∀ p e id, p ++ [e] <+: log → e.Finishes id → Satisfied p id

section Log

variable {l l' : List Effect} {id : IntentId} {ns : NamespaceId} {x : AreaOfInterest}

theorem Covered.mono (h : Covered l ns x) (hle : l ⊆ l') : Covered l' ns x := by
  obtain ⟨area, hmem, hinc⟩ := h
  exact ⟨area, hle hmem, hinc⟩

/-- Only a submission adds to what an intent asks for. -/
theorem asked_append (hquiet : ∀ e ∈ l', ∀ id interests, e ≠ .submitted id interests) :
    Asked (l ++ l') id ns x ↔ Asked l id ns x := by
  constructor
  · rintro ⟨interests, hmem, hx⟩
    rcases List.mem_append.mp hmem with hmem | hmem
    · exact ⟨interests, hmem, hx⟩
    · exact absurd rfl (hquiet _ hmem id interests)
  · rintro ⟨interests, hmem, hx⟩
    exact ⟨interests, List.mem_append_left _ hmem, hx⟩

theorem Satisfied.append (h : Satisfied l id)
    (hquiet : ∀ e ∈ l', ∀ id interests, e ≠ .submitted id interests) : Satisfied (l ++ l') id :=
  fun ns x hasked => (h ns x ((asked_append hquiet).mp hasked)).mono (List.subset_append_left _ _)

theorem Sound.nil : Sound [] := by
  intro p e id hp
  have := hp.length_le
  simp at this

theorem Sound.concat {e : Effect} (h : Sound l) (hfin : ∀ id, e.Finishes id → Satisfied l id) :
    Sound (l ++ [e]) := by
  intro p e' id hp hfinishes
  rcases List.prefix_concat_iff.mp hp with heq | hp
  · obtain ⟨rfl, hlast⟩ := List.append_inj' heq rfl
    obtain rfl := List.singleton_inj.mp hlast
    exact hfin id hfinishes
  · exact h p e' id hp hfinishes

/-- More effects, without a submission among them. -/
theorem Sound.append (h : Sound l)
    (hquiet : ∀ e ∈ l', ∀ id interests, e ≠ .submitted id interests)
    (hfin : ∀ e ∈ l', ∀ id, e.Finishes id → Satisfied l id) : Sound (l ++ l') := by
  induction l' using List.reverseRecOn with
  | nil => rwa [List.append_nil]
  | append_singleton l' e ih =>
      have hfront : ∀ e' ∈ l', e' ∈ l' ++ [e] := fun e' he' => List.mem_append_left _ he'
      rw [← List.append_assoc]
      refine (ih (fun e' he' => hquiet e' (hfront e' he'))
        fun e' he' => hfin e' (hfront e' he')).concat ?_
      intro id hfinishes
      exact (hfin e (by simp) id hfinishes).append fun e' he' => hquiet e' (hfront e' he')

end Log

/-! ## One intent -/

section Intent

variable [AreaIntersection] {ns ns' : NamespaceId} {x : AreaOfInterest}

/-- A matching area takes off exactly the interests it includes. -/
theorem has_completeAreaIfMatches {info : IntentInfo} {area : Area} :
    (info.completeAreaIfMatches ns area).2.interests.Has ns' x ↔
      info.interests.Has ns' x ∧ ¬ ((info.completeAreaIfMatches ns area).1 = true ∧ ns' = ns ∧
        area.IncludesArea x.area) := by
  unfold IntentInfo.completeAreaIfMatches
  cases hlook : info.interests.lookup ns with
  | none => simp
  | some aois =>
      dsimp only
      split
      · split
        · rename_i hempty
          have hall : ∀ y ∈ aois, area.IncludesArea y.area := by
            intro y hy
            by_contra hnot
            have : y ∈ aois.filter fun x => !decide (area.IncludesArea x.area) := by
              simp [hy, hnot]
            rw [List.isEmpty_iff.mp hempty] at this
            cases this
          dsimp only [NamespaceInterests.Has]
          by_cases hns : ns' = ns
          · subst hns
            rw [AList.lookup_erase, hlook]
            simp only [reduceCtorEq, false_and, exists_false, Option.some.injEq, exists_eq_left',
              true_and, false_iff, not_and, not_not]
            exact hall x
          · rw [AList.lookup_erase_ne hns]
            simp [hns]
        · dsimp only [NamespaceInterests.Has]
          by_cases hns : ns' = ns
          · subst hns
            rw [AList.lookup_insert, hlook]
            simp
          · rw [AList.lookup_insert_ne hns]
            simp [hns]
      · simp

/-! ### Sending -/

omit [AreaIntersection] in
/-- Sending keeps what does not depend on the events that were sent. -/
theorem send_keeps {P : Delivery → Prop} (hsent : ∀ d event, P d → P { d with sent := d.sent ++ [event] })
    (event : EventKind) : Spec P (send event) (fun _ => P) fun _ => P := by
  intro left d hd
  unfold send
  split
  · exact Spec.operation (fun d hd => hsent d event hd) (fun d hd => hd) left d hd
  · exact Spec.pure (a := ()) (fun d hd => hd) left d hd

omit [AreaIntersection] in
/-- An event, and `ReconciledAll` after it. -/
theorem sendBoth_keeps {P : Delivery → Prop}
    (hsent : ∀ d event, P d → P { d with sent := d.sent ++ [event] }) (event : EventKind) (b : Bool) :
    Spec P
      (do
        send event
        let isEmpty ← noInterests
        when (b && isEmpty) (send .reconciledAll))
      (fun _ => P) fun _ => P := by
  refine (send_keeps hsent event).bind fun _ => ?_
  refine Spec.bind (Q := fun _ => P) (Spec.access fun d hd => hd) fun isEmpty => ?_
  exact Spec.when (fun _ => send_keeps hsent _) fun _ d hd => hd

/-- What an intent has asked for it still waits for, or it was reported. -/
def Tracks (log : List Effect) (id : IntentId) (info : IntentInfo) : Prop :=
  ∀ ns x, Asked log id ns x → info.interests.Has ns x ∨ Covered log ns x

/-- An intent with the log `log` while events are sent to it. -/
structure Served (log : List Effect) (id : IntentId) (d : Delivery) : Prop where
  tracks : Tracks log id d.info
  sent : .reconciledAll ∈ d.sent → Satisfied log id

variable {log : List Effect} {id : IntentId} {E : ChannelReceiverDropped → Delivery → Prop}

omit [AreaIntersection] in
theorem Tracks.satisfied {info : IntentInfo} (h : Tracks log id info)
    (hempty : info.interests.isEmpty = true) : Satisfied log id := by
  intro ns x hasked
  rcases h ns x hasked with hhas | hcovered
  · exact absurd hhas (NamespaceInterests.not_has_of_isEmpty hempty)
  · exact hcovered

omit [AreaIntersection] in
theorem send_spec {event : EventKind} (hevent : event = .reconciledAll → Satisfied log id) :
    Spec (Served log id) (send event) (fun _ => Served log id) fun _ => Served log id := by
  intro left d hd
  have hsend : Spec (Served log id)
      (operation .mk fun d : Delivery => ((), { d with sent := d.sent ++ [event] }))
      (fun _ => Served log id) fun (_ : ChannelReceiverDropped) => Served log id := by
    refine Spec.operation (fun d hd => ⟨hd.tracks, fun hmem => ?_⟩) fun d hd => hd
    rcases List.mem_append.mp hmem with hmem | hmem
    · exact hd.sent hmem
    · exact hevent (List.mem_singleton.mp hmem).symm
  unfold send
  split
  · exact hsend left d hd
  · exact Spec.pure (a := ()) (fun d hd => hd) left d hd

omit [AreaIntersection] in
theorem noInterests_spec :
    Spec (Served log id) noInterests
      (fun b d => (b = true → Satisfied log id) ∧ Served log id d) E :=
  Spec.access fun _ hd => ⟨fun hempty => hd.tracks.satisfied hempty, hd⟩

theorem completeArea_spec {area : AreaOfInterest} (hprocessed : .processed ns area ∈ log) :
    Spec (Served log id) (completeArea ns area.area) (fun _ => Served log id) E := by
  refine Spec.access fun d hd => ⟨fun ns' x hasked => ?_, hd.sent⟩
  rcases hd.tracks ns' x hasked with hhas | hcovered
  · by_cases hstays : (d.info.completeAreaIfMatches ns area.area).2.interests.Has ns' x
    · exact Or.inl hstays
    · rw [has_completeAreaIfMatches, not_and_not_right] at hstays
      obtain ⟨-, rfl, hinc⟩ := hstays hhas
      exact Or.inr ⟨area, hprocessed, hinc⟩
  · exact Or.inr hcovered

omit [AreaIntersection] in
/-- An event, and `ReconciledAll` after it when no interest is left. -/
theorem sendBoth_spec {event : EventKind} {b : Bool} (hevent : event ≠ .reconciledAll) :
    Spec (Served log id)
      (do
        send event
        let isEmpty ← noInterests
        when (b && isEmpty) (send .reconciledAll))
      (fun _ => Served log id) fun _ => Served log id := by
  refine (send_spec fun heq => absurd heq hevent).bind fun _ => ?_
  refine noInterests_spec.bind fun isEmpty => Spec.of_fact fun hsat => ?_
  refine Spec.when (fun hboth => send_spec fun _ => ?_) fun _ d hd => hd
  exact hsat (Bool.and_eq_true_iff.mp hboth).2

theorem onReconciled_spec {area : AreaOfInterest} (hprocessed : .processed ns area ∈ log) :
    Spec (Served log id) (onReconciled ns area) (fun _ => Served log id)
      fun _ => Served log id := by
  refine (completeArea_spec hprocessed).bind fun isMatch => ?_
  refine Spec.when (fun _ => ?_) fun _ d hd => hd
  exact sendBoth_spec (b := true) (by simp)

theorem catchUp_spec {order : List (NamespaceId × AreaOfInterest)}
    (hprocessed : ∀ e ∈ order, .processed e.1 e.2 ∈ log) :
    Spec (Served log id) (catchUp order) (fun _ => Served log id) fun _ => Served log id := by
  induction order with
  | nil => exact Spec.pure fun d hd => hd
  | cons e rest ih =>
      obtain ⟨ns, area⟩ := e
      refine (onReconciled_spec (hprocessed (ns, area) List.mem_cons_self)).bind fun _ => ?_
      exact ih fun e he => hprocessed e (List.mem_cons_of_mem _ he)

theorem matchesEvent_spec {event : EventKind}
    (hprocessed : ∀ ns area, event = .reconciled ns area → .processed ns area ∈ log) :
    Spec (Served log id) (matchesEvent event)
      (fun b d => (b = true → event ≠ .reconciledAll) ∧ Served log id d)
      fun _ => Served log id := by
  cases event with
  | capabilityIntersection ns area => exact Spec.access fun d hd => ⟨fun _ => by simp, hd⟩
  | interestIntersection ns area => exact Spec.access fun d hd => ⟨fun _ => by simp, hd⟩
  | reconciled ns area =>
      exact (completeArea_spec (hprocessed ns area rfl)).weaken (fun d hd => hd)
        (fun b d hd => ⟨fun _ => by simp, hd⟩) fun e d hd => hd
  | reconciledAll => exact Spec.pure fun d hd => ⟨fun h => absurd h (by simp), hd⟩
  | abort error => exact Spec.pure fun d hd => ⟨fun _ => by simp, hd⟩

/-- **What handling an event does to an intent**: it keeps track, and it is
told `ReconciledAll` or found complete only when it is satisfied. -/
theorem handleEvent_spec {event : EventKind}
    (hprocessed : ∀ ns area, event = .reconciled ns area → .processed ns area ∈ log) :
    Spec (Served log id) (handleEvent event)
      (fun b d => Served log id d ∧ (b = true → Satisfied log id)) fun _ => Served log id := by
  refine (matchesEvent_spec hprocessed).bind fun isMatch => ?_
  refine Spec.of_fact fun hne => ?_
  refine Spec.bind (Q := fun _ => Served log id) ?_ fun _ => ?_
  · exact Spec.when (fun hmatch => sendBoth_spec (hne hmatch)) fun _ d hd => hd
  · refine Spec.access fun d hd => ⟨hd, fun hcomplete => ?_⟩
    exact hd.tracks.satisfied (Bool.and_eq_true_iff.mp hcomplete).1

omit [AreaIntersection] in
/-- What was sent to an intent is accounted for. -/
theorem Served.effects {log : List Effect} {id : IntentId} {d : Delivery}
    (h : Served log id d) : ∀ e ∈ d.sent.map (Effect.sent id),
      (∀ id interests, e ≠ .submitted id interests) ∧
        ∀ id', e.Finishes id' → id' = id ∧ Satisfied log id := by
  intro e he
  obtain ⟨event, hevent, rfl⟩ := List.mem_map.mp he
  refine ⟨by simp, fun id' hfinishes => ?_⟩
  cases event with
  | reconciledAll => exact ⟨hfinishes.symm, h.sent hevent⟩
  | capabilityIntersection ns area => exact absurd hfinishes (by simp [Effect.Finishes])
  | interestIntersection ns area => exact absurd hfinishes (by simp [Effect.Finishes])
  | reconciled ns area => exact absurd hfinishes (by simp [Effect.Finishes])
  | abort error => exact absurd hfinishes (by simp [Effect.Finishes])

end Intent

/-! ## The dispatcher -/

namespace IntentDispatcher

section Invariant

variable [AreaIntersection]

/-- The log accounts for the state. -/
structure Consistent (s : IntentDispatcher) : Prop where
  fresh : ∀ id, s.nextIntentId ≤ id → s.intents id = none
  asked : ∀ id interests, .submitted id interests ∈ s.log → id < s.nextIntentId
  complete : ∀ ns area, s.completeAreas.Has ns area → .processed ns area ∈ s.log
  tracks : ∀ id info, s.intents id = some info → Tracks s.log id info
  ended : ∀ id, id < s.nextIntentId → s.intents id = none → .completed id ∈ s.log ∨
    .cancelled id ∈ s.log ∨ s.result = some (.error .channelReceiverDropped)
  sound : Sound s.log

omit [AreaIntersection] in
theorem Consistent.start : Consistent {} where
  fresh _ _ := rfl
  asked := by rintro id interests ⟨⟩
  complete := by
    intro ns area h
    exact absurd h NamespaceInterests.not_has_empty
  tracks := by rintro id info ⟨⟩
  ended := by
    intro id hid
    exact absurd hid (Nat.not_lt_zero id)
  sound := Sound.nil

variable {s s' : IntentDispatcher} {Δ : List Effect}

omit [AreaIntersection] in
/-- An active intent has an id that was handed out. -/
theorem Consistent.lt_nextIntentId (h : Consistent s) {id : IntentId} {info : IntentInfo}
    (hinfo : s.intents id = some info) : id < s.nextIntentId := by
  by_contra hge
  have hnone : s.intents id = none := h.fresh id (not_lt.mp hge)
  rw [hinfo] at hnone
  cases hnone

omit [AreaIntersection] in
theorem tracks_append {l : List Effect} {id : IntentId} {info : IntentInfo}
    (h : Tracks l id info) (hquiet : ∀ e ∈ Δ, ∀ id interests, e ≠ .submitted id interests) :
    Tracks (l ++ Δ) id info := by
  intro ns x hasked
  exact (h ns x ((asked_append hquiet).mp hasked)).imp_right fun hcovered =>
    hcovered.mono (List.subset_append_left _ _)

omit [AreaIntersection] in
/-- Steps that finish no intent and at most cancel some. -/
theorem Consistent.of_quiet (h : Consistent s) (hlog : s'.log = s.log ++ Δ)
    (hquiet : ∀ e ∈ Δ, ∀ id interests, e ≠ .submitted id interests)
    (hfin : ∀ e ∈ Δ, ∀ id, ¬ e.Finishes id) (hnext : s'.nextIntentId = s.nextIntentId)
    (hcomplete : s'.completeAreas = s.completeAreas)
    (hintents : ∀ id info, s'.intents id = some info → s.intents id = some info)
    (hended : ∀ id, s'.intents id = none → s.intents id = none ∨ .cancelled id ∈ Δ)
    (hresult : s.result = some (.error .channelReceiverDropped) →
      s'.result = some (.error .channelReceiverDropped)) : Consistent s' where
  fresh := by
    intro id hid
    rw [hnext] at hid
    cases hinfo : s'.intents id with
    | none => rfl
    | some info =>
        have := h.fresh id hid
        rw [hintents id info hinfo] at this
        cases this
  asked := by
    intro id interests hmem
    rw [hlog] at hmem
    rw [hnext]
    rcases List.mem_append.mp hmem with hmem | hmem
    · exact h.asked id interests hmem
    · exact absurd rfl (hquiet _ hmem id interests)
  complete := by
    intro ns area hhas
    rw [hcomplete] at hhas
    rw [hlog]
    exact List.mem_append_left _ (h.complete ns area hhas)
  tracks := by
    intro id info hinfo
    rw [hlog]
    exact tracks_append (h.tracks id info (hintents id info hinfo)) hquiet
  ended := by
    intro id hid hnone
    rw [hnext] at hid
    rw [hlog]
    rcases hended id hnone with hold | hmem
    · rcases h.ended id hid hold with hmem | hmem | hres
      · exact Or.inl (List.mem_append_left _ hmem)
      · exact Or.inr (Or.inl (List.mem_append_left _ hmem))
      · exact Or.inr (Or.inr (hresult hres))
    · exact Or.inr (Or.inl (List.mem_append_right _ hmem))
  sound := by
    rw [hlog]
    exact h.sound.append hquiet fun e he id hfinishes => absurd hfinishes (hfin e he id)

omit [AreaIntersection] in
theorem Consistent.yieldIfDropped (h : Consistent s) : Consistent s.yieldIfDropped := by
  unfold IntentDispatcher.yieldIfDropped
  split
  · refine h.of_quiet (Δ := [.output .allIntentsDropped]) rfl ?_ ?_ rfl rfl (fun _ _ h => h)
      (fun _ h => Or.inl h) fun h => h
    · simp
    · simp [Effect.Finishes]
  · exact h

omit [AreaIntersection] in
theorem Consistent.cancelIntent (h : Consistent s) (id : IntentId) :
    Consistent (s.cancelIntent id) := by
  have hcancelled : Consistent (s.cancelIntentInner id) := by
    refine h.of_quiet (Δ := [.cancelled id]) rfl ?_ ?_ rfl rfl ?_ ?_ fun h => h
    · simp
    · simp [Effect.Finishes]
    · intro id' info hinfo
      by_cases hid : id' = id
      · subst hid
        rw [cancelIntentInner_intents_self] at hinfo
        cases hinfo
      · rwa [cancelIntentInner_intents_ne s hid] at hinfo
    · intro id' hnone
      by_cases hid : id' = id
      · subst hid
        exact Or.inr (by simp)
      · rw [cancelIntentInner_intents_ne s hid] at hnone
        exact Or.inl hnone
  exact hcancelled.yieldIfDropped

/-! ### An event of the session -/

/-- What handling an event makes of an intent. -/
theorem handle_spec (s : IntentDispatcher) {event : EventKind} {id : IntentId} {info : IntentInfo}
    {log : List Effect} (htracks : Tracks log id info)
    (hprocessed : ∀ ns area, event = .reconciled ns area → .processed ns area ∈ log) :
    Served log id (s.handle event id info).delivery ∧
      ∀ e ∈ (s.handle event id info).effects id,
        (∀ id interests, e ≠ .submitted id interests) ∧
        ∀ id', e.Finishes id' → id' = id ∧ Satisfied log id := by
  have hserved : Served log id { info := info } := ⟨htracks, by rintro ⟨⟩⟩
  obtain ⟨hok, herr⟩ := handleEvent_spec hprocessed (s.receivers id) _ hserved
  unfold handle
  match hrun : handleEvent event (s.receivers id) { info := info } with
  | (.ok isComplete, left, d) =>
      rw [hrun] at hok
      obtain ⟨hd, hsat⟩ := hok isComplete d rfl rfl
      refine ⟨hd, fun e he => ?_⟩
      rcases List.mem_append.mp he with he | he
      · exact hd.effects e he
      · cases isComplete with
        | false => cases he
        | true =>
            obtain rfl := List.mem_singleton.mp he
            exact ⟨by simp, fun id' hfinishes => ⟨hfinishes.symm, hsat rfl⟩⟩
  | (.error err, left, d) =>
      rw [hrun] at herr
      have hd := herr err d rfl rfl
      refine ⟨hd, fun e he => ?_⟩
      rcases List.mem_append.mp he with he | he
      · exact hd.effects e he
      · dsimp only at he
        split at he
        · cases he
        · obtain rfl := List.mem_singleton.mp he
          exact ⟨by simp, fun id' hfinishes => absurd hfinishes (by simp [Effect.Finishes])⟩

/-- An intent ends complete or cancelled. -/
theorem ended_eq_some {event : EventKind} {id : IntentId} {info : IntentInfo} {e : Effect}
    (h : (s.handle event id info).ended = some e) : e = .completed id ∨ e = .cancelled id := by
  unfold handle at h
  split at h
  · dsimp only at h
    split at h
    · exact Or.inl (Option.some.inj h).symm
    · cases h
  · dsimp only at h
    split at h
    · cases h
    · exact Or.inr (Option.some.inj h).symm

/-- The effects of an event on the intents, one after the other. -/
theorem mem_effects {event : EventKind} {e : Effect}
    (he : e ∈ (List.range s.nextIntentId).flatMap fun id =>
      (((s.intents id).map (s.handle event id)).map fun h => h.effects id).getD []) :
    ∃ id info, s.intents id = some info ∧ e ∈ (s.handle event id info).effects id := by
  obtain ⟨id, -, he⟩ := List.mem_flatMap.mp he
  cases hinfo : s.intents id with
  | none =>
      rw [hinfo] at he
      cases he
  | some info =>
      rw [hinfo] at he
      exact ⟨id, info, hinfo, he⟩

/-- An intent that an event ends ends with an effect of that event. -/
theorem ended_mem_effects {event : EventKind} {id : IntentId} {info : IntentInfo}
    (hid : id < s.nextIntentId) (hinfo : s.intents id = some info)
    (hnone : (s.emitEventInner event).intents id = none) :
    ∃ e, (e = .completed id ∨ e = .cancelled id) ∧
      e ∈ (List.range s.nextIntentId).flatMap fun id =>
        (((s.intents id).map (s.handle event id)).map fun h => h.effects id).getD [] := by
  simp only [emitEventInner, hinfo, Option.map_some, Option.bind_some, ite_eq_left_iff,
    reduceCtorEq, imp_false, not_not] at hnone
  obtain ⟨e, he⟩ := Option.isSome_iff_exists.mp hnone
  refine ⟨e, ended_eq_some he, List.mem_flatMap.mpr ⟨id, List.mem_range.mpr hid, ?_⟩⟩
  rw [hinfo]
  refine List.mem_append_right _ ?_
  rw [he]
  exact List.mem_singleton_self _

theorem Consistent.emitEventInner (h : Consistent s) (event : EventKind) :
    Consistent (s.emitEventInner event) := by
  -- the report goes in front of what it causes
  have hreport : ∀ e ∈ reported event,
      (∀ id interests, e ≠ .submitted id interests) ∧ ∀ id, ¬ e.Finishes id := by
    cases event <;> simp [reported, Effect.Finishes]
  have hprocessed : ∀ ns area, event = .reconciled ns area →
      .processed ns area ∈ s.log ++ reported event := by
    rintro ns area rfl
    simp [reported]
  have hhandle : ∀ id info, s.intents id = some info → _ := fun id info hinfo =>
    s.handle_spec (tracks_append (h.tracks id info hinfo) fun e he => (hreport e he).1) hprocessed
  have heffects : ∀ e ∈ (List.range s.nextIntentId).flatMap (fun id =>
      (((s.intents id).map (s.handle event id)).map fun h => h.effects id).getD []),
      (∀ id interests, e ≠ .submitted id interests) ∧
        ∀ id, e.Finishes id → Satisfied (s.log ++ reported event) id := by
    intro e he
    obtain ⟨id, info, hinfo, he⟩ := mem_effects he
    obtain ⟨hquiet, hfin⟩ := (hhandle id info hinfo).2 e he
    refine ⟨hquiet, fun id' hfinishes => ?_⟩
    obtain ⟨rfl, hsat⟩ := hfin id' hfinishes
    exact hsat
  refine ⟨?_, ?_, ?_, ?_, ?_, ?_⟩
  · intro id hid
    simp only [IntentDispatcher.emitEventInner, h.fresh id hid, Option.map_none, Option.bind_none]
  · intro id interests hmem
    rcases List.mem_append.mp hmem with hmem | hmem
    · rcases List.mem_append.mp hmem with hmem | hmem
      · exact h.asked id interests hmem
      · exact absurd rfl ((hreport _ hmem).1 id interests)
    · exact absurd rfl ((heffects _ hmem).1 id interests)
  · intro ns area hhas
    refine List.mem_append_left _ ?_
    cases event with
    | reconciled ns' area' =>
        rcases NamespaceInterests.has_extend.mp hhas with hhas | ⟨rfl, hmem⟩
        · exact List.mem_append_left _ (h.complete ns area hhas)
        · obtain rfl := List.mem_singleton.mp hmem
          exact List.mem_append_right _ (List.mem_singleton.mpr rfl)
    | capabilityIntersection ns' area' => exact List.mem_append_left _ (h.complete ns area hhas)
    | interestIntersection ns' area' => exact List.mem_append_left _ (h.complete ns area hhas)
    | reconciledAll => exact List.mem_append_left _ (h.complete ns area hhas)
    | abort error => exact List.mem_append_left _ (h.complete ns area hhas)
  · intro id info' hinfo'
    refine tracks_append ?_ fun e he => (heffects e he).1
    obtain ⟨handled, hhandled, hstays⟩ := Option.bind_eq_some_iff.mp hinfo'
    obtain ⟨info, hinfo, rfl⟩ := Option.map_eq_some_iff.mp hhandled
    split at hstays
    · cases hstays
    · obtain rfl := Option.some.inj hstays
      exact (hhandle id info hinfo).1.tracks
  · intro id hid hnone
    cases hinfo : s.intents id with
    | none =>
        rcases h.ended id hid hinfo with hmem | hmem | hres
        · exact Or.inl (List.mem_append_left _ (List.mem_append_left _ hmem))
        · exact Or.inr (Or.inl (List.mem_append_left _ (List.mem_append_left _ hmem)))
        · exact Or.inr (Or.inr hres)
    | some info =>
        -- the intent has just ended
        obtain ⟨e, he, heffect⟩ := ended_mem_effects (s := s) hid hinfo hnone
        have hmem : e ∈ (s.emitEventInner event).log := List.mem_append_right _ heffect
        rcases he with rfl | rfl
        · exact Or.inl hmem
        · exact Or.inr (Or.inl hmem)
  · refine (h.sound.append (fun e he => (hreport e he).1) fun e he id hfinishes =>
      absurd hfinishes ((hreport e he).2 id)).append (fun e he => (heffects e he).1) ?_
    exact fun e he => (heffects e he).2

theorem Consistent.emitEvent (h : Consistent s) (event : EventKind) :
    Consistent (s.emitEvent event) := by
  unfold IntentDispatcher.emitEvent
  split
  · exact (h.emitEventInner event).yieldIfDropped
  · exact h.emitEventInner event

/-! ### The other steps -/

omit [AreaIntersection] in
/-- The interests of a new intent are what it has asked for. -/
theorem tracks_flatten {l : List Effect} {id : IntentId} {interests : InterestMap}
    {mode : SessionMode} {hasEventTx : Bool} (hnew : ∀ interests, .submitted id interests ∉ l) :
    Tracks (l ++ [.submitted id interests]) id
      { interests := flattenInterests interests, mode := mode, hasEventTx := hasEventTx } := by
  rintro ns x ⟨interests', hmem, hx⟩
  rcases List.mem_append.mp hmem with hmem | hmem
  · exact absurd hmem (hnew interests')
  · obtain ⟨-, rfl⟩ := Effect.submitted.inj (List.mem_singleton.mp hmem)
    exact Or.inl (NamespaceInterests.has_merge.mpr (Or.inr hx))

omit [AreaIntersection] in
theorem tracks_submitted_ne {l : List Effect} {id id' : IntentId} {interests : InterestMap}
    {info : IntentInfo} (h : Tracks l id info) (hne : id' ≠ id) :
    Tracks (l ++ [.submitted id' interests]) id info := by
  rintro ns x ⟨interests', hmem, hx⟩
  rcases List.mem_append.mp hmem with hmem | hmem
  · exact (h ns x ⟨interests', hmem, hx⟩).imp_right fun hcovered =>
      hcovered.mono (List.subset_append_left _ _)
  · exact absurd (Effect.submitted.inj (List.mem_singleton.mp hmem)).1.symm hne

omit [AreaIntersection] in
theorem tracks_merge {l : List Effect} {id : IntentId} {interests : InterestMap}
    {info : IntentInfo} (h : Tracks l id info) :
    Tracks (l ++ [.submitted id interests]) id (info.mergeInterests interests) := by
  rintro ns x ⟨interests', hmem, hx⟩
  rcases List.mem_append.mp hmem with hmem | hmem
  · rcases h ns x ⟨interests', hmem, hx⟩ with hhas | hcovered
    · exact Or.inl (NamespaceInterests.has_merge.mpr (Or.inl hhas))
    · exact Or.inr (hcovered.mono (List.subset_append_left _ _))
  · obtain ⟨-, rfl⟩ := Effect.submitted.inj (List.mem_singleton.mp hmem)
    exact Or.inl (NamespaceInterests.has_merge.mpr (Or.inr hx))

omit [AreaIntersection] in
/-- A new intent was served up to `d`, and then either stays or ends. -/
theorem Consistent.of_submission (h : Consistent s) {interests : InterestMap} {d : Delivery}
    (hserved : Served (s.log ++ [.submitted s.nextIntentId interests]) s.nextIntentId d)
    (hlog : s'.log = s.log ++ [.submitted s.nextIntentId interests] ++
      d.sent.map (.sent s.nextIntentId) ++ Δ)
    (hquiet : ∀ e ∈ Δ, ∀ id interests, e ≠ .submitted id interests)
    (hfin : ∀ e ∈ Δ, ∀ id, e.Finishes id → id = s.nextIntentId ∧
      Satisfied (s.log ++ [.submitted s.nextIntentId interests]) s.nextIntentId)
    (hnext : s'.nextIntentId = s.nextIntentId + 1) (hcomplete : s'.completeAreas = s.completeAreas)
    (hothers : ∀ id, id ≠ s.nextIntentId → s'.intents id = s.intents id)
    (hown : ∀ info, s'.intents s.nextIntentId = some info → info = d.info)
    (hended : s'.intents s.nextIntentId = none → .completed s.nextIntentId ∈ Δ ∨
      s'.result = some (.error .channelReceiverDropped)) (hrunning : s.result = none) :
    Consistent s' where
  fresh := by
    intro id hid
    rw [hnext] at hid
    rw [hothers id (by omega)]
    exact h.fresh id (by omega)
  asked := by
    intro id interests' hmem
    rw [hlog] at hmem
    rw [hnext]
    rcases List.mem_append.mp hmem with hmem | hmem
    · rcases List.mem_append.mp hmem with hmem | hmem
      · rcases List.mem_append.mp hmem with hmem | hmem
        · have := h.asked id interests' hmem
          omega
        · rw [(Effect.submitted.inj (List.mem_singleton.mp hmem)).1]
          omega
      · exact absurd rfl ((hserved.effects _ hmem).1 id interests')
    · exact absurd rfl (hquiet _ hmem id interests')
  complete := by
    intro ns area hhas
    rw [hcomplete] at hhas
    rw [hlog]
    simp only [List.append_assoc]
    exact List.mem_append_left _ (h.complete ns area hhas)
  tracks := by
    intro id info hinfo
    rw [hlog]
    refine tracks_append (tracks_append ?_ fun e he => (hserved.effects e he).1) hquiet
    by_cases hid : id = s.nextIntentId
    · subst hid
      rw [hown info hinfo]
      exact hserved.tracks
    · rw [hothers id hid] at hinfo
      exact tracks_submitted_ne (h.tracks id info hinfo) (Ne.symm hid)
  ended := by
    intro id hid hnone
    rw [hlog]
    by_cases hid' : id = s.nextIntentId
    · subst hid'
      rcases hended hnone with hmem | hres
      · exact Or.inl (List.mem_append_right _ hmem)
      · exact Or.inr (Or.inr hres)
    · rw [hothers id hid'] at hnone
      rw [hnext] at hid
      simp only [List.append_assoc]
      rcases h.ended id (by omega) hnone with hmem | hmem | hres
      · exact Or.inl (List.mem_append_left _ hmem)
      · exact Or.inr (Or.inl (List.mem_append_left _ hmem))
      · rw [hrunning] at hres
        cases hres
  sound := by
    rw [hlog]
    -- the log grows by the submission, by what is sent, and by the last effects
    have hsubmitted : Sound (s.log ++ [.submitted s.nextIntentId interests]) := by
      refine h.sound.concat ?_
      rintro id ⟨⟩
    have hsent : Sound (s.log ++ [.submitted s.nextIntentId interests] ++
        d.sent.map (.sent s.nextIntentId)) := by
      refine hsubmitted.append (fun e he => (hserved.effects e he).1) fun e he id hfinishes => ?_
      obtain ⟨rfl, hsat⟩ := (hserved.effects e he).2 id hfinishes
      exact hsat
    refine hsent.append hquiet fun e he id hfinishes => ?_
    obtain ⟨rfl, hsat⟩ := hfin e he id hfinishes
    exact hsat.append fun e he => (hserved.effects e he).1

theorem Consistent.submitIntent (h : Consistent s) {auth : Auth} {intent : Intent}
    {order : List (NamespaceId × AreaOfInterest)} (hrunning : s.result = none)
    (horder : order.Perm s.completeAreas.toList) :
    Consistent (s.submitIntent auth intent order) := by
  unfold IntentDispatcher.submitIntent
  cases hresolve : auth.resolveInterests intent.interests with
  | none =>
      -- `submit_intent` fails before anything is recorded
      refine h.of_quiet (Δ := []) (by simp) (by simp) (by simp) rfl rfl (fun _ _ h => h)
        (fun _ h => Or.inl h) fun hres => ?_
      rw [hrunning] at hres
      cases hres
  | some interests =>
      have hserved : Served (s.log ++ [.submitted s.nextIntentId interests]) s.nextIntentId
          { info := { interests := flattenInterests interests, mode := intent.mode,
                      hasEventTx := intent.hasChannels } } := by
        refine ⟨tracks_flatten fun interests' hmem => ?_, by rintro ⟨⟩⟩
        exact absurd (h.asked _ _ hmem) (lt_irrefl _)
      have hprocessed : ∀ e ∈ order, .processed e.1 e.2 ∈
          s.log ++ [.submitted s.nextIntentId interests] := by
        intro e he
        refine List.mem_append_left _ (h.complete e.1 e.2 ?_)
        exact NamespaceInterests.mem_toList.mp (horder.mem_iff.mp he)
      -- the areas that are complete already come before everything else
      obtain ⟨hok, herr⟩ := catchUp_spec hprocessed (s.receivers s.nextIntentId) _ hserved
      dsimp only
      match hrun : catchUp order (s.receivers s.nextIntentId)
          { info := { interests := flattenInterests interests, mode := intent.mode,
                      hasEventTx := intent.hasChannels } } with
      | (.error err, left, d) =>
          -- the receiver is gone, and the dispatcher fails
          rw [hrun] at herr
          refine h.of_submission (herr err d rfl rfl) (Δ := []) (by simp) (by simp) (by simp)
            rfl rfl (fun _ _ => rfl) ?_ (fun _ => Or.inr rfl) hrunning
          intro info hinfo
          have hfresh : s.intents s.nextIntentId = none := h.fresh _ (le_refl _)
          cases hfresh.symm.trans hinfo
      | (.ok (), left, d) =>
          rw [hrun] at hok
          have hd := hok () d rfl rfl
          dsimp only
          split
          · rename_i hcomplete
            -- complete at once: the intent is not stored
            have hsat := hd.tracks.satisfied (Bool.and_eq_true_iff.mp hcomplete).1
            refine h.of_submission hd (Δ := [.completed s.nextIntentId]) rfl (by simp) ?_
              rfl rfl (fun _ _ => rfl) ?_ (fun _ => Or.inl (by simp)) hrunning
            · intro e he id hfinishes
              obtain rfl := List.mem_singleton.mp he
              exact ⟨hfinishes.symm, hsat⟩
            · intro info hinfo
              have hfresh : s.intents s.nextIntentId = none := h.fresh _ (le_refl _)
              cases hfresh.symm.trans hinfo
          · refine h.of_submission hd (Δ := [.output (.submitInterests interests)]) rfl (by simp)
              ?_ rfl rfl (fun id hid => Function.update_of_ne hid _ _) ?_ ?_ hrunning
            · simp [Effect.Finishes]
            · intro info hinfo
              dsimp only at hinfo
              rw [Function.update_self] at hinfo
              exact (Option.some.inj hinfo).symm
            · intro hnone
              dsimp only at hnone
              rw [Function.update_self] at hnone
              cases hnone

omit [AreaIntersection] in
theorem Consistent.updateIntent (h : Consistent s) {id : IntentId} {auth : Auth}
    {update : IntentUpdate} : Consistent (s.updateIntent id auth update) := by
  cases update with
  | close => exact h.cancelIntent id
  | addInterests interests =>
      simp only [IntentDispatcher.updateIntent]
      split
      · exact h
      · rename_i addInterests _
        split
        · exact h
        · rename_i info hinfo
          have hid : id < s.nextIntentId := h.lt_nextIntentId hinfo
          rw [show s.log ++ [.submitted id addInterests, .output (.submitInterests addInterests)] =
            s.log ++ [.submitted id addInterests] ++ [.output (.submitInterests addInterests)]
            by simp]
          refine ⟨?_, ?_, ?_, ?_, ?_, ?_⟩
          · intro id' hid'
            dsimp only at hid' ⊢
            have hne : id' ≠ id := Nat.ne_of_gt (lt_of_lt_of_le hid hid')
            rw [Function.update_of_ne hne]
            exact h.fresh id' hid'
          · intro id' interests' hmem
            simp only [List.mem_append, List.mem_singleton, Effect.submitted.injEq, reduceCtorEq,
              or_false] at hmem
            rcases hmem with hmem | ⟨rfl, -⟩
            · exact h.asked id' interests' hmem
            · exact hid
          · intro ns area hhas
            exact List.mem_append_left _ (List.mem_append_left _ (h.complete ns area hhas))
          · intro id' info' hinfo'
            refine tracks_append ?_ (by simp)
            rcases update_eq_some.mp hinfo' with ⟨rfl, rfl⟩ | ⟨hne, hinfo'⟩
            · exact tracks_merge (h.tracks id' info hinfo)
            · exact tracks_submitted_ne (h.tracks id' info' hinfo') (Ne.symm hne)
          · intro id' hid' hnone
            dsimp only at hnone
            have hne : id' ≠ id := by
              rintro rfl
              rw [Function.update_self] at hnone
              cases hnone
            rw [Function.update_of_ne hne] at hnone
            rcases h.ended id' hid' hnone with hmem | hmem | hres
            · exact Or.inl (List.mem_append_left _ (List.mem_append_left _ hmem))
            · exact Or.inr (Or.inl (List.mem_append_left _ (List.mem_append_left _ hmem)))
            · exact Or.inr (Or.inr hres)
          · refine (h.sound.concat ?_).concat ?_
            · rintro id' ⟨⟩
            · rintro id' ⟨⟩

omit [AreaIntersection] in
/-- The end of an intent's updates cancels it, or has no other effect. -/
theorem updatesClosed_cases (s : IntentDispatcher) (id : IntentId) :
    s.updatesClosed id =
      cancelIntent { s with intentUpdateRx := Function.update s.intentUpdateRx id false } id ∨
    s.updatesClosed id =
      { s with intentUpdateRx := Function.update s.intentUpdateRx id false } := by
  unfold updatesClosed
  dsimp only
  split
  · exact Or.inl rfl
  · exact Or.inr rfl

omit [AreaIntersection] in
theorem Consistent.updatesClosed (h : Consistent s) {id : IntentId} :
    Consistent (s.updatesClosed id) := by
  have hremoved : Consistent
      { s with intentUpdateRx := Function.update s.intentUpdateRx id false } :=
    h.of_quiet (Δ := []) (by simp) (by simp) (by simp) rfl rfl (fun _ _ h => h)
      (fun _ h => Or.inl h) fun h => h
  rcases updatesClosed_cases s id with heq | heq
  · rw [heq]
    exact hremoved.cancelIntent id
  · rw [heq]
    exact hremoved

theorem Consistent.step (h : Consistent s) {a : Action} (hstep : s.step a = some s') :
    Consistent s' := by
  cases step_sound hstep with
  | submitIntent auth intent order hrunning horder =>
      exact h.submitIntent hrunning horder
  | emitEvent event => exact h.emitEvent event
  | updateIntent id auth update hrunning hopen => exact h.updateIntent
  | updatesClosed id hrunning hopen => exact h.updatesClosed
  | dropReceiver id left hthere =>
      exact h.of_quiet (Δ := []) (by simp) (by simp) (by simp) rfl rfl (fun _ _ h => h)
        (fun _ h => Or.inl h) fun h => h
  | closeInbox hrunning =>
      refine h.of_quiet (Δ := []) (by simp) (by simp) (by simp) rfl rfl (fun _ _ h => h)
        (fun _ h => Or.inl h) fun hres => ?_
      rw [hrunning] at hres
      cases hres

/-- Every session accounts for its state. -/
theorem Consistent.of_run {actions : List Action} (h : run actions = some s) : Consistent s :=
  (Transition.Reachable.of_run_all h).invariant Consistent.start fun _ _ _ hs _ hstep =>
    hs.step hstep

/-- **`ReconciledAll` is sound.** In every session, when an intent is told
`ReconciledAll` or is removed as complete, each area of interest it has asked
for until then is included in an area of its namespace that the session has
reported until then; and every intent that is gone was removed as complete or
was cancelled, unless the session has failed while it was submitted. -/
theorem reconciledAll_sound {actions : List Action} (h : run actions = some s) :
    Sound s.log ∧ ∀ id, id < s.nextIntentId → s.intents id = none → .completed id ∈ s.log ∨
      .cancelled id ∈ s.log ∨ s.result = some (.error .channelReceiverDropped) :=
  ⟨(Consistent.of_run h).sound, (Consistent.of_run h).ended⟩

end Invariant

section Samples

open IrohWillow.Sample

/-- The intersection of two areas. -/
@[reducible] def Sample.areaIntersection : AreaIntersection where
  intersection a b :=
    let subspace : Option AreaSubspace :=
      if a.subspace.IncludesSubspace b.subspace then some b.subspace
      else if b.subspace.IncludesSubspace a.subspace then some a.subspace
      else none
    let path : Option Path :=
      if a.path.IsPrefixOf b.path then some b.path
      else if b.path.IsPrefixOf a.path then some a.path
      else none
    let start := max a.times.start b.times.start
    let times : Option (Range Timestamp) := match a.times.stop, b.times.stop with
      | .opened, .opened => some (.newOpen start)
      | .opened, .closed stop => Range.newClosed start stop
      | .closed stop, .opened => Range.newClosed start stop
      | .closed stop, .closed stop' => Range.newClosed start (min stop stop')
    match subspace, path, times with
    | some subspace, some path, some times => some ⟨subspace, path, times⟩
    | _, _, _ => none

attribute [local instance] Sample.areaIntersection

/-- A read capability for the whole namespace. -/
def Sample.readAuthorisation : ReadAuthorisation :=
  ⟨{ writeCapability with accessMode := .read }, none⟩

/-- A caps storage with this capability only. -/
def Sample.auth : Auth :=
  ⟨some [Sample.readAuthorisation], fun _ => some (some Sample.readAuthorisation)⟩

/-- All that the capability grants. -/
def Sample.everything : AreaOfInterest := Auth.widest Sample.readAuthorisation

/-- An intent for everything. -/
def Sample.submit (mode : SessionMode) : Action := .submitIntent Sample.auth ⟨.all, mode, true⟩ []

/-- Everything is reconciled. -/
def Sample.reconcile : Action := .emitEvent (.reconciled namespaceId Sample.everything)

/-- An intent is told that all it has asked for is reconciled, and so it is. -/
theorem reconciledAll_sound_once : ∃ s,
    run [Sample.submit .reconcileOnce, Sample.reconcile] = some s ∧ .sent 0 .reconciledAll ∈ s.log ∧
      s.intents 0 = none ∧ (Sound s.log ∧ ∀ id, id < s.nextIntentId → s.intents id = none →
        .completed id ∈ s.log ∨ .cancelled id ∈ s.log ∨
          s.result = some (.error .channelReceiverDropped)) := by
  have hrun : ((run [Sample.submit .reconcileOnce, Sample.reconcile]).map fun s =>
      (decide (.sent 0 .reconciledAll ∈ s.log), (s.intents 0).isNone)) = some (true, true) := by
    decide
  obtain ⟨s, hs, heq⟩ := Option.map_eq_some_iff.mp hrun
  obtain ⟨hsent, hnone⟩ := Prod.mk.inj heq
  exact ⟨s, hs, of_decide_eq_true hsent, Option.isNone_iff_eq_none.mp hnone,
    reconciledAll_sound hs⟩

end Samples

end IntentDispatcher

end IrohWillow.Intents
