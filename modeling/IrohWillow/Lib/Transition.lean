import Mathlib

/-!
# Runs of a labelled transition system

A system takes steps `step s a`, which are undefined (`none`) when the action
`a` is not possible in `s`. `Reachable step Allowed start s` says that `s` is
reached from `start` by steps whose actions were `Allowed` in the state they
were taken in. With `Allowed` always true these are all runs; a condition
singles out the runs that meet it at every step.

* `Reachable.invariant` is the induction rule: what holds at the start and is
  preserved by every allowed step holds in every reachable state;
* `Reachable.of_run` builds a reachable state from a list of actions.

`Trace Step p l q` is the same for a relation: the word `l` leads from `p` to
`q`.
-/

namespace Transition

variable {σ α : Type*}

/-- The states reached from `start` by allowed steps. -/
inductive Reachable (step : σ → α → Option σ) (Allowed : σ → α → Prop) (start : σ) : σ → Prop
  | refl : Reachable step Allowed start start
  | tail {s s' : σ} {a : α} (hs : Reachable step Allowed start s) (ha : Allowed s a)
      (hstep : step s a = some s') : Reachable step Allowed start s'

variable {step : σ → α → Option σ} {Allowed Allowed' : σ → α → Prop} {start s s' : σ}

/-- The induction rule. -/
theorem Reachable.invariant {P : σ → Prop} (hstart : P start)
    (hstep : ∀ s a s', P s → Allowed s a → step s a = some s' → P s')
    (h : Reachable step Allowed start s) : P s := by
  induction h with
  | refl => exact hstart
  | tail _ ha hs ih => exact hstep _ _ _ ih ha hs

/-- Fewer conditions allow more runs. -/
theorem Reachable.mono (hle : ∀ s a, Allowed s a → Allowed' s a)
    (h : Reachable step Allowed start s) : Reachable step Allowed' start s := by
  induction h with
  | refl => exact .refl
  | tail _ ha hs ih => exact .tail ih (hle _ _ ha) hs

theorem Reachable.trans (h : Reachable step Allowed start s) (h' : Reachable step Allowed s s') :
    Reachable step Allowed start s' := by
  induction h' with
  | refl => exact h
  | tail _ ha hs ih => exact .tail ih ha hs

/-- Take a list of actions, one after the other. -/
def run (step : σ → α → Option σ) : σ → List α → Option σ
  | s, [] => some s
  | s, a :: rest => (step s a).bind fun s' => run step s' rest

/-- Every action of the list is allowed in the state it is taken in. -/
def AllowedAlong (step : σ → α → Option σ) (Allowed : σ → α → Prop) : σ → List α → Prop
  | _, [] => True
  | s, a :: rest => Allowed s a ∧
      match step s a with
      | none => True
      | some s' => AllowedAlong step Allowed s' rest

instance decidableAllowedAlong (step : σ → α → Option σ) (Allowed : σ → α → Prop)
    [∀ s a, Decidable (Allowed s a)] :
    (s : σ) → (l : List α) → Decidable (AllowedAlong step Allowed s l)
  | _, [] => isTrue trivial
  | s, a :: rest =>
      match h : step s a with
      | none => decidable_of_iff (Allowed s a) (by simp [AllowedAlong, h])
      | some s' =>
          have := decidableAllowedAlong step Allowed s' rest
          decidable_of_iff (Allowed s a ∧ AllowedAlong step Allowed s' rest)
            (by simp [AllowedAlong, h])

/-- A list of allowed actions reaches its last state. -/
theorem Reachable.of_run {actions : List α} (h : run step start actions = some s)
    (hall : AllowedAlong step Allowed start actions) : Reachable step Allowed start s := by
  induction actions generalizing start with
  | nil =>
      obtain rfl := Option.some.inj h
      exact .refl
  | cons a rest ih =>
      obtain ⟨s', hs', hrest⟩ := Option.bind_eq_some_iff.mp h
      obtain ⟨ha, hall⟩ := hall
      rw [hs'] at hall
      exact (Reachable.refl.tail ha hs').trans (ih hrest hall)

/-- Without a condition every list of actions reaches its last state. -/
theorem Reachable.of_run_all {actions : List α} (h : run step start actions = some s) :
    Reachable step (fun _ _ => True) start s := by
  induction actions generalizing start with
  | nil =>
      obtain rfl := Option.some.inj h
      exact .refl
  | cons a rest ih =>
      obtain ⟨s', hs', hrest⟩ := Option.bind_eq_some_iff.mp h
      exact (Reachable.refl.tail trivial hs').trans (ih hrest)

/-! ## Conditions on every step -/

theorem run_concat (s : σ) (l : List α) (a : α) :
    run step s (l ++ [a]) = (run step s l).bind fun s' => step s' a := by
  induction l generalizing s with
  | nil => simp [run]
  | cons b rest ih =>
      simp only [List.cons_append, run, Option.bind_assoc]
      congr 1
      funext s'
      exact ih s'

theorem run_append {l l' : List α} (h : run step s l = some s') :
    run step s (l ++ l') = run step s' l' := by
  induction l generalizing s with
  | nil =>
      obtain rfl := Option.some.inj h
      rfl
  | cons a rest ih =>
      obtain ⟨t, ht, hrest⟩ := Option.bind_eq_some_iff.mp h
      simp only [List.cons_append, run, ht, Option.bind_some]
      exact ih hrest

/-- What holds at the start and is preserved by every step of a run that meets
`C` holds after every prefix of the run. -/
theorem of_prefix {P : σ → Prop} {C : σ → α → Prop} {l : List α} (hstart : P start)
    (hstep : ∀ s a s', a ∈ l → P s → step s a = some s' → C s a → P s')
    (hmeets : ∀ p a, p ++ [a] <+: l → ∀ s s', run step start p = some s → step s a = some s' →
      C s a) {p : List α} (hp : p <+: l) (hs : run step start p = some s) : P s := by
  induction p using List.reverseRecOn generalizing s with
  | nil =>
      obtain rfl := Option.some.inj hs
      exact hstart
  | append_singleton p a ih =>
      rw [run_concat] at hs
      obtain ⟨t, ht, hta⟩ := Option.bind_eq_some_iff.mp hs
      have hgood : P t := ih ((List.prefix_append _ _).trans hp) ht
      exact hstep t a s (hp.subset (by simp)) hgood hta (hmeets p a hp t s ht hta)

/-- When a step out of a good state leads to a good one exactly if it meets the
condition, a run goes through good states only exactly if all its steps meet
the condition. The invariant `I` may help to judge the step. -/
theorem forall_prefix_iff {P I : σ → Prop} {C : σ → α → Prop} (l : List α) (hstart : P start)
    (hI : I start)
    (hstep : ∀ s a s', a ∈ l → P s → I s → step s a = some s' → I s' ∧ (P s' ↔ C s a)) :
    (∀ p, p <+: l → ∀ s, run step start p = some s → P s) ↔
      ∀ p a, p ++ [a] <+: l → ∀ s s', run step start p = some s → step s a = some s' → C s a := by
  constructor
  · intro hgood p a hpa s s' hs hs'
    have hp : p <+: l := (List.prefix_append _ _).trans hpa
    -- in good states the invariant goes along
    have hIs : I s := by
      refine of_prefix (C := fun s _ => P s) hI ?_ ?_ hp hs
      · exact fun s a s' ha hIs hs' hPs => (hstep s a s' ha hPs hIs hs').1
      · exact fun q b hq t t' ht _ => hgood q ((List.prefix_append _ _).trans hq) t ht
    have hlast : P s' := by
      refine hgood (p ++ [a]) hpa s' ?_
      rw [run_concat, hs]
      exact hs'
    exact (hstep s a s' (hpa.subset (by simp)) (hgood p hp s hs) hIs hs').2.mp hlast
  · intro hmeets p hp s hs
    have hboth : P s ∧ I s := by
      refine of_prefix (P := fun s => P s ∧ I s) ⟨hstart, hI⟩ ?_ hmeets hp hs
      rintro s a s' ha ⟨hPs, hIs⟩ hs' hC
      obtain ⟨hIs', hiff⟩ := hstep s a s' ha hPs hIs hs'
      exact ⟨hiff.mpr hC, hIs'⟩
    exact hboth.1

/-! ## Runs that end -/

/-- When every allowed step out of a good state leads to a good one and lowers the
measure, an allowed run is no longer than the measure. -/
theorem length_add_le {P : σ → Prop} {μ : σ → Nat}
    (hstep : ∀ s a s', P s → Allowed s a → step s a = some s' → P s' ∧ μ s' < μ s)
    {actions : List α} (hs : P s) (hrun : run step s actions = some s')
    (hall : AllowedAlong step Allowed s actions) : P s' ∧ actions.length + μ s' ≤ μ s := by
  induction actions generalizing s with
  | nil =>
      obtain rfl := Option.some.inj hrun
      exact ⟨hs, by simp⟩
  | cons a rest ih =>
      obtain ⟨t, ht, hrest⟩ := Option.bind_eq_some_iff.mp hrun
      obtain ⟨ha, hall⟩ := hall
      rw [ht] at hall
      obtain ⟨hPt, hlt⟩ := hstep s a t hs ha ht
      obtain ⟨hP, hle⟩ := ih hPt hrest hall
      refine ⟨hP, ?_⟩
      rw [List.length_cons]
      omega

/-! ## Words of a relation -/

/-- The word leads from one state to another. -/
inductive Trace (Step : σ → α → σ → Prop) : σ → List α → σ → Prop
  | nil {p : σ} : Trace Step p [] p
  | cons {p q r : σ} {a : α} {l : List α} (hstep : Step p a q) (hrest : Trace Step q l r) :
      Trace Step p (a :: l) r

variable {Step : σ → α → σ → Prop} {p q r : σ} {l l' : List α}

theorem Trace.append (h : Trace Step p l q) (h' : Trace Step q l' r) :
    Trace Step p (l ++ l') r := by
  induction h with
  | nil => exact h'
  | cons hstep _ ih => exact .cons hstep (ih h')

theorem Trace.concat {a : α} (h : Trace Step p l q) (hstep : Step q a r) :
    Trace Step p (l ++ [a]) r := h.append (.cons hstep .nil)

end Transition
