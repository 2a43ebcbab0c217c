import IrohWillow.Session.ReconcilerRun

/-!
# When everything is reconciled

`Reconciler::complete_target` puts out `ReconciledArea`, and when it is resumed
after that, `ReconciledAll` if the map of targets is empty. The session of a
peer that is not live closes on it. Intersections that wait in the inbox are
not in the map, and more of them may come before the coroutine is resumed.

* `accounted_of_reachable`: an intersection that has been sent into the inbox
  is waiting there, is a target, or has been put out as reconciled;
* `reconciledAll_complete_iff`: so the output is right exactly when nothing
  waits in the inbox as the coroutine is resumed.
-/

namespace IrohWillow.ReconcilerRun

open Reconciler

section Model

variable {σ : Type} [Meadowcap]

/-- The intersection is dealt with: it has left the inbox and the targets, and
its area has been put out. -/
def Reconciled (s : ReconcilerRun σ) (i : AoiIntersection) : Prop :=
  i ∉ s.reconciler.inbox ∧ i.id ∉ s.reconciler.targets ∧
    .reconciledArea i.namespaceId i.intersection ∈ s.putOut

/-- The step from `s` to `s'` has put out `output`. -/
def PutsOut (s s' : ReconcilerRun σ) (output : Output) : Prop :=
  ∃ new, s'.putOut = s.putOut ++ new ∧ output ∈ new

/-- Where an intersection is that has been sent into the inbox, and what is still
to be put out. -/
structure Accounted (session : List AoiIntersection) (s : ReconcilerRun σ) : Prop where
  worksOn : s.reconciler.WorksOn session
  submitted : ∀ i ∈ s.submitted, i ∈ session
  inbox : ∀ i ∈ s.reconciler.inbox, i ∈ s.submitted
  somewhere : s.failure = none → ∀ i ∈ s.submitted,
    i ∈ s.reconciler.inbox ∨ i.id ∈ s.reconciler.targets ∨
      .reconciledArea i.namespaceId i.intersection ∈ s.putOut
  rest : s.reconciler.shared.outputs = s.putOut ∨
    s.reconciler.shared.outputs = s.putOut ++ [.reconciledAll] ∧ s.failure = none ∧
      ∀ id, id ∉ s.reconciler.targets
  yielded : s.yielded ≤ s.reconciler.shared.outputs.length

theorem PutsOut.of_eq {s s' : ReconcilerRun σ} {output : Output} (heq : s'.putOut = s.putOut) :
    ¬ PutsOut s s' output := by
  rintro ⟨new, hnew, hmem⟩
  rw [heq] at hnew
  have hnil : new = [] := by simpa using hnew
  rw [hnil] at hmem
  cases hmem

/-- Outside of a call everything was put out. -/
theorem putOut_of_not_suspended {s : ReconcilerRun σ} (h : ¬ s.Suspended) :
    s.putOut = s.reconciler.shared.outputs := List.take_of_length_le (not_lt.mp h)

/-- A call that puts out nothing. -/
theorem putOut_update_of_eq {s : ReconcilerRun σ} (h : ¬ s.Suspended)
    {res : Except Failure Unit × Reconciler σ}
    (heq : res.2.shared.outputs = s.reconciler.shared.outputs) :
    (s.update res).putOut = s.putOut := by
  rw [putOut_of_not_suspended h, ← heq]
  unfold Suspended at h
  refine List.take_of_length_le ?_
  show res.2.shared.outputs.length ≤ min (s.yielded + 1) res.2.shared.outputs.length
  rw [heq]
  omega

/-- A call that puts something out is suspended after the first output. -/
theorem putOut_update_of_append {s : ReconcilerRun σ} (h : ¬ s.Suspended)
    (hle : s.yielded ≤ s.reconciler.shared.outputs.length)
    {res : Except Failure Unit × Reconciler σ} {output : Output} {rest : List Output}
    (heq : res.2.shared.outputs = s.reconciler.shared.outputs ++ output :: rest) :
    (s.update res).putOut = s.putOut ++ [output] := by
  unfold Suspended at h
  have hlen : s.yielded = s.reconciler.shared.outputs.length := by omega
  have hyielded : (s.update res).yielded = s.reconciler.shared.outputs.length + 1 := by
    show min (s.yielded + 1) res.2.shared.outputs.length = _
    rw [heq, List.length_append, List.length_cons]
    omega
  have hputOut : s.putOut = s.reconciler.shared.outputs := putOut_of_not_suspended h
  rw [hputOut, putOut, hyielded]
  show res.2.shared.outputs.take _ = _
  rw [heq]
  simp [List.take_append]

/-- A call does not count more outputs than there are. -/
theorem yielded_update_le (s : ReconcilerRun σ) (res : Except Failure Unit × Reconciler σ) :
    (s.update res).yielded ≤ (s.update res).reconciler.shared.outputs.length := min_le_right _ _

variable [Storage σ] [WillowDataModel] {session : List AoiIntersection} {s s' : ReconcilerRun σ}
  {a : Action σ}

omit [Storage σ] [WillowDataModel] in
/-- The coroutine that is resumed has one more output, that everything is
reconciled. -/
theorem Accounted.resume (h : Accounted session s) (hsuspended : s.Suspended) :
    putOut { s with yielded := s.yielded + 1 } = s.putOut ++ [.reconciledAll] ∧
      s.reconciler.shared.outputs = s.putOut ++ [.reconciledAll] ∧ s.failure = none ∧
        ∀ id, id ∉ s.reconciler.targets := by
  have hlt : s.yielded < s.reconciler.shared.outputs.length := hsuspended
  have hlen : s.putOut.length = s.yielded := by
    rw [putOut, List.length_take]
    omega
  rcases h.rest with hall | ⟨hrest, hok, hnone⟩
  · rw [hall, hlen] at hlt
    exact absurd hlt (lt_irrefl _)
  · refine ⟨?_, hrest, hok, hnone⟩
    show s.reconciler.shared.outputs.take (s.yielded + 1) = _
    rw [hrest, ← hlen]
    exact List.take_of_length_le (by simp)

/-- Taking an input puts nothing out. -/
theorem outputs_of_takeInput {r r' : Reconciler σ} {res : Except Failure Unit}
    (h : r.takeInput = some (res, r')) : r'.shared.outputs = r.shared.outputs := by
  cases res with
  | error e =>
      obtain ⟨i, inbox, -, ⟨_, -, rfl⟩ | ⟨_, _, -, heq, -⟩⟩ := takeInput_cases h
      · rfl
      · cases heq
  | ok =>
      obtain ⟨_, _, -, -, -, -, houtputs⟩ := takeInput_targets h
      exact houtputs

theorem Accounted.takeInput (h : Accounted session s) (hrunning : s.failure = none)
    (hready : ¬ s.Suspended) {res : Except Failure Unit × Reconciler σ}
    (hres : s.reconciler.takeInput = some res) : Accounted session (s.update res) := by
  obtain ⟨res, r⟩ := res
  have houtputs : r.shared.outputs = s.reconciler.shared.outputs := outputs_of_takeInput hres
  have hputOut : (s.update (res, r)).putOut = s.putOut := putOut_update_of_eq hready houtputs
  refine ⟨h.worksOn.takeInput hres, h.submitted, fun j hj => ?_, fun hok j hj => ?_, Or.inl ?_,
    yielded_update_le s _⟩
  · obtain ⟨i, inbox, hinbox, hcases⟩ := takeInput_cases hres
    refine h.inbox j (hinbox ▸ List.mem_cons_of_mem _ ?_)
    rcases hcases with ⟨e, -, rfl⟩ | ⟨t, sh, -, -, rfl⟩
    · exact hj
    · exact hj
  · obtain rfl := failureOf_eq_none.mp hok
    obtain ⟨i, t, hinbox, -, htargets, -, -⟩ := takeInput_targets hres
    rw [hputOut]
    show j ∈ r.inbox ∨ j.id ∈ r.targets ∨ _
    rw [htargets, AList.mem_insert]
    rcases h.somewhere hrunning j hj with hwait | htarget | hdone
    · rw [hinbox] at hwait
      rcases List.mem_cons.mp hwait with rfl | hwait
      · exact Or.inr (Or.inl (Or.inl rfl))
      · exact Or.inl hwait
    · exact Or.inr (Or.inl (Or.inr htarget))
    · exact Or.inr (Or.inr hdone)
  · rw [hputOut, putOut_of_not_suspended hready]
    exact houtputs

omit [WillowDataModel] in
/-- Only the intersection of the target that is completed leaves the targets,
and it is put out. -/
theorem Accounted.message (hids : ∀ i ∈ session, ∀ j ∈ session, i.id = j.id → i = j)
    (h : Accounted session s) (hrunning : s.failure = none) (hready : ¬ s.Suspended)
    {m : ReconciliationMessage} {res : Except Failure Unit × Reconciler σ}
    (hres : s.reconciler.receivedMessage m = some res) : Accounted session (s.update res) := by
  obtain ⟨res, r⟩ := res
  have hinbox : r.inbox = s.reconciler.inbox := inbox_of_receivedMessage hres
  cases res with
  | error e =>
      have houtputs : r.shared.outputs = s.reconciler.shared.outputs := outputs_of_error hres
      refine ⟨h.worksOn.receivedMessage hres, h.submitted, fun j hj => h.inbox j (hinbox ▸ hj),
        fun hok => (nomatch hok), Or.inl ?_, yielded_update_le s _⟩
      rw [putOut_update_of_eq hready houtputs, putOut_of_not_suspended hready]
      exact houtputs
  | ok =>
      cases Progress.of_receivedMessage hres with
      | keeps _ htargets houtputs _ =>
          have hputOut : (s.update (.ok (), r)).putOut = s.putOut :=
            putOut_update_of_eq hready houtputs
          refine ⟨h.worksOn.receivedMessage hres, h.submitted,
            fun j hj => h.inbox j (hinbox ▸ hj), fun _ j hj => ?_, Or.inl ?_,
            yielded_update_le s _⟩
          · rw [hputOut]
            show j ∈ r.inbox ∨ j.id ∈ r.targets ∨ _
            rw [hinbox, htargets]
            exact h.somewhere hrunning j hj
          · rw [hputOut, putOut_of_not_suspended hready]
            exact houtputs
      | completes id t hlookup _ _ htargets houtputs _ =>
          have hputOut : (s.update (.ok (), r)).putOut =
              s.putOut ++ [.reconciledArea t.intersection.namespaceId t.intersection.intersection] :=
            putOut_update_of_append hready h.yielded houtputs
          obtain ⟨ht, hid⟩ := h.worksOn.targets id t hlookup
          refine ⟨h.worksOn.receivedMessage hres, h.submitted,
            fun j hj => h.inbox j (hinbox ▸ hj), fun _ j hj => ?_, ?_, yielded_update_le s _⟩
          · rw [hputOut, List.mem_append]
            show j ∈ r.inbox ∨ j.id ∈ r.targets ∨ _
            rw [hinbox, htargets]
            by_cases heq : j.id = id
            · obtain rfl := hids j (h.submitted j hj) t.intersection ht (heq.trans hid.symm)
              exact Or.inr (Or.inr (Or.inr List.mem_cons_self))
            · rcases h.somewhere hrunning j hj with hwait | htarget | hdone
              · exact Or.inl hwait
              · exact Or.inr (Or.inl ⟨heq, htarget⟩)
              · exact Or.inr (Or.inr (Or.inl hdone))
          · -- if no target is left, one more output follows
            rw [hputOut, putOut_of_not_suspended hready]
            show r.shared.outputs = _ ∨ r.shared.outputs = _ ∧ _
            rw [houtputs, completion]
            split
            · rename_i hempty
              refine Or.inr ⟨by simp, rfl, fun id' hmem => ?_⟩
              replace hmem : id' ∈ r.targets := hmem
              rw [AList.mem_keys, AList.keys, List.isEmpty_iff.mp hempty] at hmem
              cases hmem
            · exact Or.inl rfl

theorem Accounted.step (hids : ∀ i ∈ session, ∀ j ∈ session, i.id = j.id → i = j)
    (h : Accounted session s) (hstep : step session s a = some s') : Accounted session s' := by
  rcases step_cases hstep with ⟨i, hi, rfl, rfl⟩ | ⟨-, haround⟩ | ⟨rfl, hsuspended, rfl⟩ |
    ⟨rfl, ⟨hrunning, hready⟩, res, hres, rfl⟩ | ⟨m, res, rfl, ⟨hrunning, hready⟩, hres, rfl⟩
  · have happend : ∀ {P : AoiIntersection → Prop} {l : List AoiIntersection},
        (∀ j ∈ l, P j) → P i → ∀ j ∈ l ++ [i], P j := by
      intro P l hl hi j hj
      rcases List.mem_append.mp hj with hj | hj
      · exact hl j hj
      · obtain rfl := List.mem_singleton.mp hj
        exact hi
    refine ⟨⟨h.worksOn.targets, happend h.worksOn.inbox hi⟩, happend h.submitted hi,
      happend (fun j hj => List.mem_append_left _ (h.inbox j hj)) (by simp), fun hrunning => ?_,
      h.rest, h.yielded⟩
    refine happend (fun j hj => ?_) (Or.inl (by simp))
    exact (h.somewhere hrunning j hj).imp_left (List.mem_append_left _)
  · have hputOut : s'.putOut = s.putOut := by
      unfold putOut
      rw [haround.outputs, haround.yielded]
    refine ⟨⟨?_, ?_⟩, ?_, ?_, ?_, ?_, ?_⟩
    · rw [haround.targets]
      exact h.worksOn.targets
    · rw [haround.inbox]
      exact h.worksOn.inbox
    · rw [haround.submitted]
      exact h.submitted
    · rw [haround.inbox, haround.submitted]
      exact h.inbox
    · rw [haround.failure, haround.inbox, haround.targets, haround.submitted, hputOut]
      exact h.somewhere
    · rw [haround.outputs, hputOut, haround.failure, haround.targets]
      exact h.rest
    · rw [haround.outputs, haround.yielded]
      exact h.yielded
  · obtain ⟨hputOut, hrest⟩ := h.resume hsuspended
    refine ⟨h.worksOn, h.submitted, h.inbox, fun hrunning j hj => ?_, Or.inl ?_, hsuspended⟩
    · rw [hputOut]
      exact (h.somewhere hrunning j hj).imp_right (Or.imp_right (List.mem_append_left _))
    · rw [hputOut]
      exact hrest.1
  · exact h.takeInput hrunning hready hres
  · exact h.message hids hrunning hready hres

theorem accounted_of_reachable (hids : ∀ i ∈ session, ∀ j ∈ session, i.id = j.id → i = j)
    {store : σ} {ourRole : Role} {sessionId : SessionId} {maxEagerPayloadSize : U64}
    (hrun : Transition.Reachable (step session) (fun _ _ => True)
      (start store ourRole sessionId maxEagerPayloadSize) s) : Accounted session s := by
  refine hrun.invariant (P := Accounted session) ?_ fun _ _ _ h _ hstep => h.step hids hstep
  exact ⟨⟨by simp [start], by simp [start]⟩, by simp [start], by simp [start], by simp [start],
    Or.inl rfl, Nat.le_refl _⟩

/-- Only the coroutine that is resumed puts out that everything is reconciled,
when no target is left. -/
theorem resume_of_putsOut (h : Accounted session s) (hstep : step session s a = some s')
    (hall : PutsOut s s' .reconciledAll) :
    s' = { s with yielded := s.yielded + 1 } ∧ s.failure = none ∧
      ∀ id, id ∉ s.reconciler.targets := by
  rcases step_cases hstep with ⟨i, -, rfl, rfl⟩ | ⟨-, haround⟩ | ⟨rfl, hsuspended, rfl⟩ |
    ⟨rfl, ⟨-, hready⟩, ⟨res, r⟩, hres, rfl⟩ | ⟨m, ⟨res, r⟩, rfl, ⟨-, hready⟩, hres, rfl⟩
  · exact absurd hall (PutsOut.of_eq rfl)
  · refine absurd hall (PutsOut.of_eq ?_)
    unfold putOut
    rw [haround.outputs, haround.yielded]
  · exact ⟨rfl, (h.resume hsuspended).2.2⟩
  · exact absurd hall (PutsOut.of_eq (putOut_update_of_eq hready (outputs_of_takeInput hres)))
  · cases res with
    | error e =>
        exact absurd hall (PutsOut.of_eq (putOut_update_of_eq hready (outputs_of_error hres)))
    | ok =>
        cases Progress.of_receivedMessage hres with
        | keeps _ _ houtputs _ =>
            exact absurd hall (PutsOut.of_eq (putOut_update_of_eq hready houtputs))
        | completes id t _ _ _ _ houtputs _ =>
            -- the area is put out first
            obtain ⟨new, hnew, hmem⟩ := hall
            rw [putOut_update_of_append hready h.yielded houtputs] at hnew
            rw [← List.append_cancel_left hnew, List.mem_singleton] at hmem
            cases hmem

/-- **ReconciledAll.** When a step of any run puts out that everything is
reconciled, then every intersection that has been sent into the inbox is, if
and only if none waits in the inbox at that moment. -/
theorem reconciledAll_complete_iff
    (hids : ∀ i ∈ session, ∀ j ∈ session, i.id = j.id → i = j) (store : σ) (ourRole : Role)
    (sessionId : SessionId) (maxEagerPayloadSize : U64)
    (hrun : Transition.Reachable (step session) (fun _ _ => True)
      (start store ourRole sessionId maxEagerPayloadSize) s)
    (hstep : step session s a = some s') (hall : PutsOut s s' .reconciledAll) :
    (∀ i ∈ s'.submitted, s'.Reconciled i) ↔ s.reconciler.inbox = [] := by
  have haccounted : Accounted session s := accounted_of_reachable hids hrun
  have haccounted' : Accounted session s' := haccounted.step hids hstep
  obtain ⟨rfl, hok, hnone⟩ := resume_of_putsOut haccounted hstep hall
  constructor
  · intro hreconciled
    refine List.eq_nil_iff_forall_not_mem.mpr fun i hi => ?_
    exact (hreconciled i (haccounted.inbox i hi)).1 hi
  · intro hwait i hi
    refine ⟨by simp [hwait], hnone i.id, ?_⟩
    rcases haccounted'.somewhere hok i hi with hmem | hmem | hdone
    · replace hmem : i ∈ s.reconciler.inbox := hmem
      rw [hwait] at hmem
      cases hmem
    · exact absurd hmem (hnone i.id)
    · exact hdone

end Model

/-! ### Two targets, one after the other -/

section Samples

open IrohWillow.Sample ReconcilerRun.Sample

attribute [local instance] acceptingSignatures timestampHash ReadAccess.Sample.nestedAreas

/-- Two intersections of a session. -/
def Sample.twoTargets : List AoiIntersection := [Sample.target 0 0, Sample.target 1 1]

/-- Both intersections are in the inbox when the first target is reconciled. -/
theorem reconciledAll_while_waiting :
    ¬ ∀ (_ : Meadowcap) (_ : WillowDataModel) (σ : Type) (_ : Storage σ)
      (session : List AoiIntersection), (∀ i ∈ session, ∀ j ∈ session, i.id = j.id → i = j) →
      ∀ (store : σ) (ourRole : Role) (sessionId : SessionId) (maxEagerPayloadSize : U64)
      (s s' : ReconcilerRun σ) (a : Action σ),
      Transition.Reachable (step session) (fun _ _ => True)
        (start store ourRole sessionId maxEagerPayloadSize) s →
      step session s a = some s' → PutsOut s s' .reconciledAll →
      ∀ i ∈ s'.submitted, s'.Reconciled i := by
  intro h
  have hrun : ((Transition.run (step twoTargets) betty
      [.sendInput (target 0 0), .sendInput (target 1 1), .takeInput, fingerprintFor 0 0]).bind
        fun s => (step twoTargets s .resume).map fun s' =>
          (s.putOut, s'.putOut, s'.submitted, s'.reconciler.inbox)) =
      some ([.reconciledArea namespaceId ⟨.full, 0, 0⟩],
        [.reconciledArea namespaceId ⟨.full, 0, 0⟩, .reconciledAll], twoTargets,
        [target 1 1]) := by rfl
  obtain ⟨s, hs, hnext⟩ := Option.bind_eq_some_iff.mp hrun
  obtain ⟨s', hs', heq⟩ := Option.map_eq_some_iff.mp hnext
  simp only [Prod.mk.injEq] at heq
  obtain ⟨houtputs, houtputs', hsubmitted, hinbox⟩ := heq
  have hall : PutsOut s s' .reconciledAll := ⟨[.reconciledAll], by rw [houtputs', houtputs]; rfl,
    List.mem_singleton_self _⟩
  have hdone := h acceptingSignatures ReadAccess.Sample.nestedAreas IdealStore inferInstance
    twoTargets (by decide) _ _ _ _ s s' _ (.of_run_all hs) hs' hall (target 1 1)
    (hsubmitted ▸ by decide)
  exact hdone.1 (hinbox ▸ List.mem_cons_self)

/-- The second intersection is taken before the first target is reconciled. -/
theorem reconciledAll_complete_both :
    ∃ s s', Transition.Reachable (step twoTargets) (fun _ _ => True) betty s ∧
      PutsOut s s' .reconciledAll ∧ s'.submitted = twoTargets ∧
      ∀ i ∈ s'.submitted, s'.Reconciled i := by
  have hrun : ((Transition.run (step twoTargets) betty
      [.sendInput (target 0 0), .sendInput (target 1 1), .takeInput, .takeInput,
        fingerprintFor 0 0, fingerprintFor 1 1]).bind fun s =>
        (step twoTargets s .resume).map fun s' =>
          (s.putOut, s'.putOut, s'.submitted, s.reconciler.inbox)) =
      some ([.reconciledArea namespaceId ⟨.full, 0, 0⟩, .reconciledArea namespaceId ⟨.full, 0, 0⟩],
        [.reconciledArea namespaceId ⟨.full, 0, 0⟩, .reconciledArea namespaceId ⟨.full, 0, 0⟩,
          .reconciledAll], twoTargets, []) := by rfl
  obtain ⟨s, hs, hnext⟩ := Option.bind_eq_some_iff.mp hrun
  obtain ⟨s', hs', heq⟩ := Option.map_eq_some_iff.mp hnext
  simp only [Prod.mk.injEq] at heq
  obtain ⟨houtputs, houtputs', hsubmitted, hinbox⟩ := heq
  have hall : PutsOut s s' .reconciledAll := ⟨[.reconciledAll], by rw [houtputs', houtputs]; rfl,
    List.mem_singleton_self _⟩
  have hreach := Transition.Reachable.of_run_all hs
  exact ⟨s, s', hreach, hall, hsubmitted,
    (reconciledAll_complete_iff (by decide) _ _ _ _ hreach hs' hall).mpr hinbox⟩

end Samples

end IrohWillow.ReconcilerRun
