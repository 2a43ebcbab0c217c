import IrohWillow.Session.IntentIsolation

/-!
# When no intent is left

A session is closed when its dispatcher puts out `AllIntentsDropped`.
`emit_event` and `cancel_intent` put it out when they leave no intent behind.
`submit_intent` does not: when no intent is active, an intent that is complete at
its submission leaves the dispatcher waiting, and nobody is told. Initial intents
are submitted before the dispatcher waits for the first time.
`dropped_intents_iff` says that in all other cases the session is told.
-/

namespace IrohWillow.Intents

open Fallible

/-! ## The notification -/

/-- The effect neither submits an intent or more interests, nor removes an intent. -/
def Effect.IsQuiet : Effect → Prop
  | .submitted _ _ => False
  | .completed _ => False
  | .cancelled _ => False
  | .processed _ _ => True
  | .sent _ _ => True
  | .output _ => True

/-- `AllIntentsDropped` was put out, and since then no intent was submitted or removed. -/
def Told (log : List Effect) : Prop :=
  ∃ before after, log = before ++ .output .allIntentsDropped :: after ∧ ∀ e ∈ after, e.IsQuiet

theorem told_concat (log : List Effect) : Told (log ++ [.output .allIntentsDropped]) :=
  ⟨log, [], rfl, by simp⟩

/-- Nobody is told by an effect that submits or removes. -/
theorem not_told_concat {log : List Effect} {e : Effect} (hloud : ¬ e.IsQuiet) :
    ¬ Told (log ++ [e]) := by
  rintro ⟨before, after, heq, hquiet⟩
  cases after using List.reverseRecOn with
  | nil =>
      obtain ⟨-, hlast⟩ := List.append_inj' heq rfl
      rw [List.singleton_inj.mp hlast] at hloud
      exact hloud trivial
  | append_singleton after e' =>
      rw [← List.cons_append, ← List.append_assoc] at heq
      obtain ⟨-, hlast⟩ := List.append_inj' heq rfl
      rw [List.singleton_inj.mp hlast] at hloud
      exact hloud (hquiet e' (List.mem_append_right _ (List.mem_singleton_self _)))

theorem not_told_of_notMem {log : List Effect} (h : .output .allIntentsDropped ∉ log) :
    ¬ Told log := by
  rintro ⟨before, after, rfl, -⟩
  exact h (List.mem_append_right _ List.mem_cons_self)

/-! ## What is left of a new intent -/

section Dropped

variable [AreaIntersection]

/-- The intent without the interests that the complete areas take off. -/
def caughtUp (info : IntentInfo) (order : List (NamespaceId × AreaOfInterest)) : IntentInfo :=
  order.foldl (fun info e => (info.completeAreaIfMatches e.1 e.2.area).2) info

theorem catchUp_info {info : IntentInfo} (order : List (NamespaceId × AreaOfInterest)) :
    Spec (fun d => d.info = info) (catchUp order) (fun _ d => d.info = caughtUp info order)
      fun _ _ => True := by
  induction order generalizing info with
  | nil => exact Spec.pure fun d hd => hd
  | cons e rest ih =>
      obtain ⟨ns, area⟩ := e
      have hone : Spec (fun d => d.info = info) (onReconciled ns area)
          (fun _ d => d.info = (info.completeAreaIfMatches ns area.area).2) fun _ _ => True := by
        refine Spec.bind (Q := fun _ d => d.info = (info.completeAreaIfMatches ns area.area).2)
          (Spec.access fun d hd => hd ▸ rfl) fun isMatch => ?_
        refine Spec.when (fun _ => ?_) fun _ d hd => hd
        exact (sendBoth_keeps (fun d event hd => hd) _ true).weaken (fun _ hd => hd)
          (fun _ _ hd => hd) fun _ _ _ => trivial
      exact hone.bind fun _ => ih

theorem info_of_catchUp {info : IntentInfo} {order : List (NamespaceId × AreaOfInterest)}
    {left left' : Option Nat} {d : Delivery}
    (hrun : catchUp order left { info := info } = (.ok (), left', d)) :
    d.info = caughtUp info order := by
  have hspec := (catchUp_info order left { info := info } rfl).1
  rw [hrun] at hspec
  exact hspec () d rfl rfl

namespace IntentDispatcher

variable {s s' : IntentDispatcher}

/-- The action submits an intent that is complete at once: in mode `ReconcileOnce`, with
no interest that is not reconciled already. -/
def CompleteAtOnce (s : IntentDispatcher) : Action → Prop
  | .submitIntent auth intent order =>
      ¬ Abandoned s (.submitIntent auth intent order) ∧
        ∃ interests, auth.resolveInterests intent.interests = some interests ∧
          (caughtUp (newInfo intent interests) order).isComplete = true
  | _ => False

/-- **The session is told**: when the dispatcher waits for its next input after an intent
was processed, and no intent is left, then it has put out `AllIntentsDropped` since an
intent was there or was submitted. -/
def Notified (s : IntentDispatcher) : Prop :=
  s.result = none → 0 < s.nextIntentId → s.noIntents = true → Told s.log

omit [AreaIntersection] in
theorem intents_of_noIntents (h : s.noIntents = true) (id : IntentId) (hid : id < s.nextIntentId) :
    s.intents id = none :=
  Option.isNone_iff_eq_none.mp (List.all_eq_true.mp h id (List.mem_range.mpr hid))

omit [AreaIntersection] in
theorem noIntents_iff (hfresh : ∀ id, s.nextIntentId ≤ id → s.intents id = none) :
    s.noIntents = true ↔ ∀ id, s.intents id = none := by
  simp only [noIntents, List.all_eq_true, List.mem_range, Option.isNone_iff_eq_none]
  constructor
  · intro hnone id
    rcases lt_or_ge id s.nextIntentId with hlt | hge
    · exact hnone id hlt
    · exact hfresh id hge
  · exact fun hnone id _ => hnone id

variable {auth : Auth} {intent : Intent} {order : List (NamespaceId × AreaOfInterest)}

/-- An intent that is complete at once leaves the intents as they were. -/
theorem submitIntent_of_complete (h : CompleteAtOnce s (.submitIntent auth intent order)) :
    (s.submitIntent auth intent order).result = s.result ∧
      (s.submitIntent auth intent order).intents = s.intents ∧
      0 < (s.submitIntent auth intent order).nextIntentId ∧
      ∃ before, (s.submitIntent auth intent order).log = before ++ [.completed s.nextIntentId] := by
  obtain ⟨hkept, interests, hresolve, hcomplete⟩ := h
  cases submission_cases s order hresolve with
  | abandoned hdropped => exact absurd hdropped hkept
  | @told left d _ hrun hsub hlog =>
    have hd : d.info.isComplete = true := info_of_catchUp hrun ▸ hcomplete
    have hintents := hsub.intents
    rw [if_pos hd] at hintents hlog
    rw [← List.cons_append, ← List.append_assoc] at hlog
    refine ⟨hsub.result, hintents, ?_, _, hlog⟩
    rw [hsub.nextIntentId]
    exact Nat.succ_pos _

/-- Any other intent is there afterwards, or the dispatcher has failed. -/
theorem submitIntent_of_not_complete (h : ¬ CompleteAtOnce s (.submitIntent auth intent order)) :
    (s.submitIntent auth intent order).result ≠ none ∨
      (s.submitIntent auth intent order).noIntents = false := by
  cases hresolve : auth.resolveInterests intent.interests with
  | none =>
      refine Or.inl ?_
      simp [submitIntent, hresolve]
  | some interests =>
      cases submission_cases s order hresolve with
      | abandoned _ _ _ hresult =>
          refine Or.inl ?_
          rw [hresult]
          simp
      | @told left d hkept hrun hsub hlog =>
          have hd : ¬ d.info.isComplete = true :=
            fun hd => h ⟨hkept, interests, hresolve, info_of_catchUp hrun ▸ hd⟩
          have hintents := hsub.intents
          rw [if_neg hd] at hintents
          refine Or.inr (Bool.eq_false_iff.mpr fun hnone => ?_)
          have hgone := intents_of_noIntents hnone s.nextIntentId
            (hsub.nextIntentId ▸ Nat.lt_succ_self _)
          rw [hintents, Function.update_self] at hgone
          cases hgone

/-! ## Steps -/

omit [AreaIntersection] in
/-- Nobody has to be told by a step that leaves the intents and the log as they are. -/
theorem Notified.congr (h : Notified s) (hresult : s'.result = none → s.result = none)
    (hintents : s'.intents = s.intents) (hnext : s'.nextIntentId = s.nextIntentId)
    (hlog : s'.log = s.log) : Notified s' := by
  intro hrunning hpos hnone
  rw [hlog]
  unfold noIntents at hnone
  rw [hnext] at hnone hpos
  rw [hintents] at hnone
  exact h (hresult hrunning) hpos hnone

omit [AreaIntersection] in
/-- **`emit_event` and `cancel_intent`** tell the session. -/
theorem notified_yieldIfDropped (s : IntentDispatcher) : Notified s.yieldIfDropped := by
  intro _ _ hnone
  have hsame : s.yieldIfDropped.noIntents = s.noIntents := by simp [noIntents]
  rw [hsame] at hnone
  unfold yieldIfDropped
  rw [if_pos hnone]
  exact told_concat s.log

/-- **One step** leaves the session told, unless it submits an intent that is complete at
once while there is no other. -/
theorem notified_step_iff (hcons : Consistent s) (h : Notified s) {a : Action}
    (hstep : s.step a = some s') :
    Notified s' ↔ ¬ (s.noIntents = true ∧ CompleteAtOnce s a) := by
  cases step_sound hstep with
  | submitIntent auth intent order hrunning horder =>
      by_cases hcomplete : CompleteAtOnce s (.submitIntent auth intent order)
      · obtain ⟨hresult, hintents, hpos, before, hlog⟩ := submitIntent_of_complete hcomplete
        have hresult' : (s.submitIntent auth intent order).result = none :=
          hresult.trans hrunning
        have hnone : (s.submitIntent auth intent order).noIntents = true ↔
            s.noIntents = true := by
          rw [noIntents_iff hcons.fresh,
            noIntents_iff (hcons.submitIntent hrunning horder).fresh, hintents]
        have hnot : ¬ Told (s.submitIntent auth intent order).log := by
          rw [hlog]
          exact not_told_concat fun hquiet => hquiet
        constructor
        · rintro hnotified ⟨hno, -⟩
          exact hnot (hnotified hresult' hpos (hnone.mpr hno))
        · intro hsome _ _ hno
          exact absurd ⟨hnone.mp hno, hcomplete⟩ hsome
      · refine iff_of_true ?_ fun hboth => hcomplete hboth.2
        intro hresult _ hno
        rcases submitIntent_of_not_complete hcomplete with hfailed | hthere
        · exact absurd hresult hfailed
        · rw [hno] at hthere
          cases hthere
  | emitEvent event =>
      refine iff_of_true ?_ fun hboth => hboth.2
      unfold emitEvent
      cases hresult : s.result with
      | none => exact notified_yieldIfDropped _
      | some r =>
          intro hrunning
          exact absurd (hresult.symm.trans hrunning) (by simp)
  | updateIntent id auth update hrunning hopen =>
      refine iff_of_true ?_ fun hboth => hboth.2
      cases update with
      | close => exact notified_yieldIfDropped _
      | addInterests interests =>
          cases hresolve : auth.resolveInterests interests with
          | none => simpa only [updateIntent, hresolve] using h
          | some added =>
              cases hinfo : s.intents id with
              | none => simpa only [updateIntent, hresolve, hinfo] using h
              | some info =>
                  -- the intent that is updated is still there
                  intro _ _ hno
                  simp only [updateIntent, hresolve, hinfo] at hno
                  have hgone := intents_of_noIntents hno id (hcons.lt_nextIntentId hinfo)
                  dsimp only at hgone
                  rw [Function.update_self] at hgone
                  cases hgone
  | updatesClosed id hrunning hopen =>
      refine iff_of_true ?_ fun hboth => hboth.2
      rcases updatesClosed_cases s id with heq | heq
      · rw [heq]
        exact notified_yieldIfDropped _
      · rw [heq]
        exact h.congr (fun hr => hr) rfl rfl rfl
  | dropReceiver id left hthere =>
      exact iff_of_true (h.congr (fun hr => hr) rfl rfl rfl) fun hboth => hboth.2
  | closeInbox hrunning =>
      refine iff_of_true (fun hresult => ?_) fun hboth => hboth.2
      cases hresult

/-- An intent that an event ends has an effect that is not quiet. -/
theorem exists_loud_of_ended (hcons : Consistent s) (event : EventKind) {id : IntentId}
    (hsome : s.intents id ≠ none) (hnone : (s.emitEventInner event).intents id = none) :
    ∃ Δ, (s.emitEventInner event).log = s.log ++ Δ ∧ ∃ e ∈ Δ, ¬ e.IsQuiet := by
  obtain ⟨info, hinfo⟩ := Option.ne_none_iff_exists'.mp hsome
  obtain ⟨e, he, heffect⟩ := ended_mem_effects (hcons.lt_nextIntentId hinfo) hinfo hnone
  refine ⟨_, List.append_assoc _ _ _, e, List.mem_append_right _ heffect, ?_⟩
  rcases he with rfl | rfl
  · exact fun hquiet => hquiet
  · exact fun hquiet => hquiet

/-- Intents come and go only with effects that are not quiet: a step whose effects are
quiet leaves the same intents active. -/
theorem active_of_quiet (hcons : Consistent s) {a : Action} (hstep : s.step a = some s')
    {effects : List Effect} (hlog : s'.log = s.log ++ effects) (hquiet : ∀ e ∈ effects, e.IsQuiet)
    (id : IntentId) : s'.intents id = none ↔ s.intents id = none := by
  -- what a part of the step has put out is among the effects
  have hmem : ∀ {e : Effect} {t : IntentDispatcher} {Δ : List Effect}, t.log <+: s'.log →
      t.log = s.log ++ Δ → e ∈ Δ → e.IsQuiet := by
    rintro e t Δ ⟨more, hmore⟩ ht he
    rw [← hmore, ht, List.append_assoc] at hlog
    exact hquiet e (List.append_cancel_left hlog ▸ List.mem_append_left _ he)
  have hcancel : ∀ {t : IntentDispatcher} {id : IntentId}, t.log = s.log →
      s' ≠ t.cancelIntent id := by
    rintro t id ht rfl
    refine hmem (e := .cancelled id) (Δ := [.cancelled id]) (log_isPrefix_yieldIfDropped _) ?_
      (List.mem_singleton_self _)
    rw [← ht]
    rfl
  cases step_sound hstep with
  | submitIntent auth intent order hrunning horder =>
      cases hresolve : auth.resolveInterests intent.interests with
      | none => simp only [submitIntent, hresolve]
      | some interests =>
          -- a submission is recorded
          refine False.elim ?_
          cases submission_cases s order hresolve with
          | abandoned _ _ _ _ hlog' =>
              exact hmem (List.prefix_refl _) hlog' List.mem_cons_self
          | told _ _ _ hlog' => exact hmem (List.prefix_refl _) hlog' List.mem_cons_self
  | emitEvent event =>
      -- the notification comes after what the event causes
      have hinner : (s.emitEvent event).intents = (s.emitEventInner event).intents ∧
          (s.emitEventInner event).log <+: (s.emitEvent event).log := by
        unfold emitEvent
        split
        · exact ⟨yieldIfDropped_intents _, log_isPrefix_yieldIfDropped _⟩
        · exact ⟨rfl, List.prefix_refl _⟩
      rw [hinner.1]
      constructor
      · intro hnone
        by_contra hsome
        obtain ⟨Δ, hΔ, e, he, hloud⟩ := exists_loud_of_ended hcons event hsome hnone
        exact hloud (hmem hinner.2 hΔ he)
      · intro hnone
        simp [emitEventInner, hnone]
  | updateIntent id' auth update hrunning hopen =>
      cases update with
      | close => exact absurd rfl (hcancel rfl)
      | addInterests interests =>
          cases hresolve : auth.resolveInterests interests with
          | none => simp only [updateIntent, hresolve]
          | some added =>
              cases hinfo : s.intents id' with
              | none => simp only [updateIntent, hresolve, hinfo]
              | some info =>
                  refine False.elim (hmem (e := .submitted id' added) (List.prefix_refl _)
                    (?_ : _ = s.log ++ [.submitted id' added,
                      .output (.submitInterests added)]) List.mem_cons_self)
                  simp only [updateIntent, hresolve, hinfo]
  | updatesClosed id' hrunning hopen =>
      rcases updatesClosed_cases s id' with hcancelled | hkept
      · exact absurd hcancelled (hcancel rfl)
      · rw [hkept]
  | dropReceiver id' left hthere => rfl
  | closeInbox hrunning => rfl

/-! ## The initial intents -/

/-- The action submits an intent. -/
def Action.Submits : Action → Prop
  | .submitIntent _ _ _ => True
  | _ => False

/-- What can happen before the dispatcher waits: initial intents are submitted, and clients
drop receivers. -/
def Action.IsInitial : Action → Prop
  | .submitIntent _ _ _ => True
  | .dropReceiver _ _ => True
  | _ => False

/-- Every intent that is submitted is complete at once. -/
def AllAtOnce (l : List Action) : Prop :=
  ∀ p a, p ++ [a] <+: l → a.Submits → ∀ s, run p = some s → CompleteAtOnce s a

/-- There are initial intents, and all are complete at once. -/
def CompleteFromStart (initial : List Action) : Prop :=
  (∃ a ∈ initial, a.Submits) ∧ AllAtOnce initial

theorem allAtOnce_concat {l : List Action} {a : Action} (hrun : run l = some s) :
    AllAtOnce (l ++ [a]) ↔ AllAtOnce l ∧ (a.Submits → CompleteAtOnce s a) := by
  constructor
  · intro h
    refine ⟨fun p b hp => h p b (hp.trans (List.prefix_append _ _)), fun hsubmits => ?_⟩
    exact h l a (List.prefix_refl _) hsubmits s hrun
  · rintro ⟨h, hlast⟩ p b hp hsubmits t ht
    rcases List.prefix_concat_iff.mp hp with heq | hp
    · obtain ⟨rfl, hb⟩ := List.append_inj' heq rfl
      obtain rfl := List.singleton_inj.mp hb
      rw [hrun] at ht
      obtain rfl := Option.some.inj ht
      exact hlast hsubmits
    · exact h p b hp hsubmits t ht

/-- What the initial intents leave behind. -/
structure Started (l : List Action) (s : IntentDispatcher) : Prop where
  untold : .output .allIntentsDropped ∉ s.log
  processed : 0 < s.nextIntentId → ∃ a ∈ l, a.Submits
  submitted : s.result = none → (∃ a ∈ l, a.Submits) → 0 < s.nextIntentId
  empty : s.result = none ∧ s.noIntents = true ↔ AllAtOnce l

/-- A submission tells nobody. -/
theorem mem_log_submitIntent
    (h : .output .allIntentsDropped ∈ (s.submitIntent auth intent order).log) :
    .output .allIntentsDropped ∈ s.log := by
  cases hresolve : auth.resolveInterests intent.interests with
  | none =>
      rw [show s.submitIntent auth intent order = { s with result := some (.error .auth) } by
        simp only [submitIntent, hresolve]] at h
      exact h
  | some interests =>
      cases submission_cases s order hresolve with
      | abandoned _ _ _ _ hlog =>
          rw [hlog] at h
          simpa using h
      | @told left d _ _ _ hlog =>
          rw [hlog] at h
          by_cases hd : d.info.isComplete = true
          · simpa [hd] using h
          · simpa [hd] using h

/-- Unless it fails, a submission takes a new id. -/
theorem nextIntentId_submitIntent (h : (s.submitIntent auth intent order).result = none) :
    0 < (s.submitIntent auth intent order).nextIntentId := by
  cases hresolve : auth.resolveInterests intent.interests with
  | none => simp [submitIntent, hresolve] at h
  | some interests =>
      cases submission_cases s order hresolve with
      | abandoned _ _ _ hresult _ =>
          rw [hresult] at h
          cases h
      | @told left d _ _ hsub _ =>
          rw [hsub.nextIntentId]
          exact Nat.succ_pos _

theorem started_of_run {initial : List Action} (hinitial : ∀ a ∈ initial, a.IsInitial)
    (hrun : run initial = some s) : Started initial s := by
  induction initial using List.reverseRecOn generalizing s with
  | nil =>
      obtain rfl := Option.some.inj hrun
      refine ⟨by simp, by simp, by simp, iff_of_true ⟨rfl, rfl⟩ fun p a hp => ?_⟩
      have hlength := hp.length_le
      simp at hlength
  | append_singleton l a ih =>
      have hrun' : Transition.run step {} (l ++ [a]) = some s := hrun
      rw [Transition.run_concat] at hrun'
      obtain ⟨t, ht, hta⟩ := Option.bind_eq_some_iff.mp hrun'
      have hl := ih (fun b hb => hinitial b (List.mem_append_left _ hb)) ht
      have hallowed := hinitial a (by simp)
      cases step_sound hta with
      | submitIntent auth intent order hrunning horder =>
          have hsubmits : ∃ a ∈ l ++ [.submitIntent auth intent order], Action.Submits a :=
            ⟨.submitIntent auth intent order, by simp, trivial⟩
          have hcons : Consistent t := Consistent.of_run ht
          have hcons' : Consistent (t.submitIntent auth intent order) :=
            hcons.submitIntent hrunning horder
          refine ⟨fun hmem => hl.untold (mem_log_submitIntent hmem), fun _ => hsubmits,
            fun hresult _ => nextIntentId_submitIntent hresult, ?_⟩
          rw [allAtOnce_concat ht, ← hl.empty]
          by_cases hcomplete : CompleteAtOnce t (.submitIntent auth intent order)
          · obtain ⟨hresult, hintents, -⟩ := submitIntent_of_complete hcomplete
            rw [hresult, noIntents_iff hcons'.fresh, hintents, ← noIntents_iff hcons.fresh]
            exact (and_iff_left fun _ => hcomplete).symm
          · refine iff_of_false ?_ fun hboth => hcomplete (hboth.2 trivial)
            rintro ⟨hresult, hnone⟩
            rcases submitIntent_of_not_complete hcomplete with hfailed | hthere
            · exact hfailed hresult
            · rw [hnone] at hthere
              cases hthere
      | dropReceiver id left hthere =>
          have hsame : (∃ a ∈ l ++ [.dropReceiver id left], Action.Submits a) ↔
              ∃ a ∈ l, a.Submits := by
            simp [Action.Submits]
          refine ⟨hl.untold, fun hpos => hsame.mpr (hl.processed hpos),
            fun hresult hsome => hl.submitted hresult (hsame.mp hsome), ?_⟩
          rw [allAtOnce_concat ht]
          exact hl.empty.trans (and_iff_left fun h => absurd h not_false).symm
      | emitEvent event => exact absurd hallowed not_false
      | updateIntent id auth update hrunning hopen => exact absurd hallowed not_false
      | updatesClosed id hrunning hopen => exact absurd hallowed not_false
      | closeInbox hrunning => exact absurd hallowed not_false

/-- Nobody is told while the initial intents are submitted. -/
theorem Started.notified_iff {l : List Action} (h : Started l s) :
    Notified s ↔ ¬ CompleteFromStart l := by
  constructor
  · rintro hnotified ⟨hsome, hall⟩
    obtain ⟨hrunning, hnone⟩ := h.empty.mpr hall
    exact not_told_of_notMem h.untold (hnotified hrunning (h.submitted hrunning hsome) hnone)
  · intro hnot hrunning hpos hnone
    exact absurd ⟨h.processed hpos, h.empty.mp ⟨hrunning, hnone⟩⟩ hnot

/-- **When the session is told, exactly.** Whenever the dispatcher waits with no intent
left, after the initial intents and after every input, it has put out
`AllIntentsDropped` since an intent was there or was submitted, if and only if not all
initial intents are complete at once, and no intent is complete at once that is
submitted while no other is there. -/
theorem dropped_intents_iff {initial rest : List Action} {s₀ : IntentDispatcher}
    (hinitial : ∀ a ∈ initial, a.IsInitial) (hrun : run initial = some s₀) :
    (∀ p, p <+: rest → ∀ s, run (initial ++ p) = some s → Notified s) ↔
      ¬ CompleteFromStart initial ∧ ∀ p a, p ++ [a] <+: rest → ∀ s s',
        run (initial ++ p) = some s → s.step a = some s' →
          ¬ (s.noIntents = true ∧ CompleteAtOnce s a) := by
  have hstart := (started_of_run hinitial hrun).notified_iff
  have hfrom : ∀ p, run (initial ++ p) = Transition.run step s₀ p :=
    fun p => Transition.run_append hrun
  have hsteps : Notified s₀ → ((∀ p, p <+: rest → ∀ s, Transition.run step s₀ p = some s →
      Notified s) ↔ ∀ p a, p ++ [a] <+: rest → ∀ s s', Transition.run step s₀ p = some s →
        step s a = some s' → ¬ (s.noIntents = true ∧ CompleteAtOnce s a)) := by
    intro hs₀
    refine Transition.forall_prefix_iff (I := Consistent) rest hs₀ (Consistent.of_run hrun) ?_
    exact fun s a s' _ h hcons hstep => ⟨hcons.step hstep, notified_step_iff hcons h hstep⟩
  simp only [hfrom]
  constructor
  · intro hall
    have hs₀ : Notified s₀ := hall [] List.nil_prefix s₀ rfl
    exact ⟨hstart.mp hs₀, (hsteps hs₀).mp hall⟩
  · rintro ⟨hnot, hmeets⟩
    exact (hsteps (hstart.mpr hnot)).mpr hmeets

end IntentDispatcher

end Dropped

/-! ### One intent, complete at once or later -/

namespace IntentDispatcher

section Samples

open IrohWillow.Sample

attribute [local instance] Sample.areaIntersection

/-- An intent for everything, when there are no capabilities. -/
def Sample.submitWithout : Action :=
  .submitIntent ⟨some [], fun _ => some none⟩ ⟨.all, .reconcileOnce, true⟩ []

/-- Nobody is told when the last thing is that an intent is complete. -/
theorem not_notified_of_run {actions : List Action} (id : IntentId)
    (h : ((run actions).map fun s => (s.result, decide (0 < s.nextIntentId), s.noIntents,
      s.log.getLast?)) = some (none, true, true, some (.completed id))) :
    ∃ s, run actions = some s ∧ ¬ Notified s := by
  obtain ⟨s, hs, heq⟩ := Option.map_eq_some_iff.mp h
  simp only [Prod.mk.injEq, decide_eq_true_eq] at heq
  obtain ⟨hresult, hpos, hnone, hlast⟩ := heq
  refine ⟨s, hs, fun hnotified => ?_⟩
  have htold := hnotified hresult hpos hnone
  obtain ⟨before, hlog⟩ := List.getLast?_eq_some_iff.mp hlast
  rw [hlog] at htold
  exact not_told_concat (e := .completed id) (fun hquiet => hquiet) htold

/-- The dispatcher waits with no intent left and has not told so: after an initial intent
that no capability serves, and after an intent for what is reconciled already. -/
theorem complete_at_once_untold :
    (∃ s, run [Sample.submitWithout] = some s ∧ ¬ Notified s) ∧
      ∃ s, run ([Sample.submit .reconcileOnce] ++ [Sample.reconcile, Sample.submitAgain]) = some s ∧
        ¬ Notified s :=
  ⟨not_notified_of_run 0 rfl, not_notified_of_run 1 rfl⟩

/-- The session is told when the interests of its only intent are reconciled. -/
theorem told_when_reconciled :
    (∀ p, p <+: [Sample.reconcile] → ∀ s, run ([Sample.submit .reconcileOnce] ++ p) = some s →
      Notified s) ∧
    ∃ s, run ([Sample.submit .reconcileOnce] ++ [Sample.reconcile]) = some s ∧
      s.noIntents = true ∧ Told s.log := by
  have hinitial : ∀ a ∈ [Sample.submit .reconcileOnce], a.IsInitial := by
    intro a ha
    rw [List.mem_singleton.mp ha]
    trivial
  have hlater : ¬ CompleteFromStart [Sample.submit .reconcileOnce] := by
    rintro ⟨-, hatOnce⟩
    obtain ⟨-, interests, hresolve, hcomplete⟩ :=
      hatOnce [] (Sample.submit .reconcileOnce) (List.prefix_refl _) trivial {} rfl
    obtain rfl := Option.some.inj hresolve
    exact absurd hcomplete (by decide)
  have hrun : ((run ([Sample.submit .reconcileOnce] ++ [Sample.reconcile])).map fun s =>
      (s.result, decide (0 < s.nextIntentId), s.noIntents)) = some (none, true, true) := by
    rfl
  obtain ⟨s, hs, heq⟩ := Option.map_eq_some_iff.mp hrun
  simp only [Prod.mk.injEq, decide_eq_true_eq] at heq
  obtain ⟨hresult, hpos, hnone⟩ := heq
  have hall : ∀ p, p <+: [Sample.reconcile] → ∀ s,
      run ([Sample.submit .reconcileOnce] ++ p) = some s → Notified s := by
    refine (dropped_intents_iff hinitial rfl).mpr ⟨hlater, ?_⟩
    rintro p a hp t t' - - ⟨-, hcomplete⟩
    have hmem : a ∈ [Sample.reconcile] := hp.subset (by simp)
    rw [List.mem_singleton.mp hmem] at hcomplete
    exact hcomplete
  exact ⟨hall, s, hs, hnone, hall _ (List.prefix_refl _) s hs hresult hpos hnone⟩

end Samples

end IntentDispatcher

end IrohWillow.Intents
