import Mathlib

/-!
# Choosing by reduction

The left fold of a list from its first element, and the choice that it makes
with a relation `r` on the elements: the current choice is kept until an
element comes that is related to it. For a preorder the choice is maximal,
whatever the order of the list (`choice_maximal`). In a given order it is the
first element of the last run (`choice_of_runs`), where a run goes on as long as
its first element is not surpassed.
-/

namespace Reduce

variable {α : Type*}

/-- The left fold of a list from its first element. -/
def reduce (f : α → α → α) : List α → Option α
  | [] => none
  | first :: rest => some (rest.foldl f first)

@[simp] theorem reduce_nil (f : α → α → α) : reduce f [] = none := rfl

@[simp] theorem reduce_cons (f : α → α → α) (first : α) (rest : List α) :
    reduce f (first :: rest) = some (rest.foldl f first) := rfl

theorem reduce_eq_none {f : α → α → α} {l : List α} : reduce f l = none ↔ l = [] := by
  cases l <;> simp

/-- One more element at the end. -/
theorem reduce_concat (f : α → α → α) (l : List α) (x : α) :
    reduce f (l ++ [x]) = some ((reduce f l).elim x fun best => f best x) := by
  cases l with
  | nil => rfl
  | cons first rest => simp [List.foldl_append]

/-- More elements after the first ones have been reduced. -/
theorem reduce_append_of_eq_some {f : α → α → α} {l : List α} {x : α} (h : reduce f l = some x)
    (rest : List α) : reduce f (l ++ rest) = some (rest.foldl f x) := by
  cases l with
  | nil => cases h
  | cons first l =>
      obtain rfl := Option.some.inj h
      simp [List.foldl_append]

/-! ## The choice of a relation -/

variable (r : α → α → Prop) [DecidableRel r]

/-- The choice after one more element. -/
def choose (prev next : α) : α := if r next prev then next else prev

/-- The element that the reduction chooses from a list. -/
def choice (l : List α) : Option α := reduce (choose r) l

variable {r} {l : List α} {best c x : α}

theorem choice_eq_none : choice r l = none ↔ l = [] := reduce_eq_none

theorem choice_concat_of_none (h : choice r l = none) : choice r (l ++ [x]) = some x := by
  rw [choice, reduce_concat, ← choice, h]
  rfl

theorem choice_concat_of_rel (h : choice r l = some best) (hx : r x best) :
    choice r (l ++ [x]) = some x := by
  rw [choice, reduce_concat, ← choice, h]
  show some (choose r best x) = some x
  rw [choose, if_pos hx]

theorem choice_concat_of_not_rel (h : choice r l = some best) (hx : ¬ r x best) :
    choice r (l ++ [x]) = some best := by
  rw [choice, reduce_concat, ← choice, h]
  show some (choose r best x) = some best
  rw [choose, if_neg hx]

theorem choice_mem (h : choice r l = some best) : best ∈ l := by
  induction l using List.reverseRecOn generalizing best with
  | nil => cases h
  | append_singleton l x ih =>
      cases hl : choice r l with
      | none =>
          rw [choice_concat_of_none hl] at h
          obtain rfl := Option.some.inj h
          simp
      | some prev =>
          by_cases hx : r x prev
          · rw [choice_concat_of_rel hl hx] at h
            obtain rfl := Option.some.inj h
            simp
          · rw [choice_concat_of_not_rel hl hx] at h
            obtain rfl := Option.some.inj h
            exact List.mem_append_left _ (ih hl)

/-! ## Runs -/

/-- A list cut into runs, each with its first element apart: the first elements
are related to each other in turn, and no other element of a run is related to
its first one. -/
structure Runs (r : α → α → Prop) (l : List α) (runs : List (α × List α)) : Prop where
  flatten : l = runs.flatMap fun run => run.1 :: run.2
  rises : runs.IsChain fun run next => r next.1 run.1
  stays : ∀ run ∈ runs, ∀ c ∈ run.2, ¬ r c run.1

variable {runs : List (α × List α)} {run : α × List α}

omit [DecidableRel r] in
/-- An element that is related to the first one of the last run begins another
run. -/
theorem Runs.concat_of_rel (h : Runs r l (runs ++ [run])) (hx : r x run.1) :
    Runs r (l ++ [x]) (runs ++ [run] ++ [(x, [])]) where
  flatten := by rw [h.flatten]; simp
  rises := by
    refine List.isChain_append.mpr ⟨h.rises, List.isChain_singleton _, ?_⟩
    simpa using hx
  stays := by
    intro run' hmem c hc
    rcases List.mem_append.mp hmem with hmem | hmem
    · exact h.stays run' hmem c hc
    · rw [List.mem_singleton.mp hmem] at hc
      cases hc

omit [DecidableRel r] in
/-- Any other element belongs to the last run. -/
theorem Runs.concat_of_not_rel (h : Runs r l (runs ++ [run])) (hx : ¬ r x run.1) :
    Runs r (l ++ [x]) (runs ++ [(run.1, run.2 ++ [x])]) where
  flatten := by rw [h.flatten]; simp
  rises := by
    obtain ⟨hruns, -, hlast⟩ := List.isChain_append.mp h.rises
    refine List.isChain_append.mpr ⟨hruns, List.isChain_singleton _, ?_⟩
    simpa using hlast
  stays := by
    intro run' hmem c hc
    rcases List.mem_append.mp hmem with hmem | hmem
    · exact h.stays run' (List.mem_append_left _ hmem) c hc
    · rw [List.mem_singleton.mp hmem] at hc ⊢
      rcases List.mem_append.mp hc with hc | hc
      · exact h.stays run (by simp) c hc
      · rw [List.mem_singleton.mp hc]
        exact hx

/-- **The choice begins the last run.** -/
theorem choice_of_runs (h : choice r l = some best) :
    ∃ runs tail, Runs r l (runs ++ [(best, tail)]) := by
  induction l using List.reverseRecOn generalizing best with
  | nil => cases h
  | append_singleton l x ih =>
      cases hl : choice r l with
      | none =>
          rw [choice_concat_of_none hl] at h
          obtain rfl := Option.some.inj h
          refine ⟨[], [], ?_, List.isChain_singleton _, ?_⟩
          · rw [choice_eq_none.mp hl]
            rfl
          · intro run hmem c hc
            rw [List.nil_append, List.mem_singleton] at hmem
            rw [hmem] at hc
            cases hc
      | some prev =>
          obtain ⟨runs, tail, hruns⟩ := ih hl
          by_cases hx : r x prev
          · rw [choice_concat_of_rel hl hx] at h
            obtain rfl := Option.some.inj h
            exact ⟨_, [], hruns.concat_of_rel hx⟩
          · rw [choice_concat_of_not_rel hl hx] at h
            obtain rfl := Option.some.inj h
            exact ⟨runs, _, hruns.concat_of_not_rel hx⟩

theorem foldl_choose_of_stays {rest : List α} (h : ∀ c ∈ rest, ¬ r c best) :
    rest.foldl (choose r) best = best := by
  induction rest with
  | nil => rfl
  | cons c rest ih =>
      rw [List.foldl_cons, choose, if_neg (h c List.mem_cons_self)]
      exact ih fun d hd => h d (List.mem_cons_of_mem _ hd)

/-- There is only one way to cut a list into runs, as far as the first element of
the last run goes. -/
theorem Runs.choice_eq (h : Runs r l (runs ++ [run])) : choice r l = some run.1 := by
  induction runs using List.reverseRecOn generalizing l run with
  | nil =>
      rw [h.flatten]
      show some (List.foldl (choose r) run.1 (run.2 ++ [])) = some run.1
      rw [List.append_nil, foldl_choose_of_stays (h.stays run (by simp))]
  | append_singleton runs prev ih =>
      have hprev := ih (l := (runs ++ [prev]).flatMap fun run => run.1 :: run.2)
        ⟨rfl, (List.isChain_append.mp h.rises).1, fun run' hmem =>
          h.stays run' (List.mem_append_left _ hmem)⟩
      have hrel : r run.1 prev.1 := by simpa using (List.isChain_append.mp h.rises).2.2
      rw [h.flatten, List.flatMap_append, List.flatMap_singleton,
        ← List.singleton_append (x := run.1), ← List.append_assoc]
      have hrun := choice_concat_of_rel hprev hrel
      rw [choice, reduce_append_of_eq_some hrun, foldl_choose_of_stays (h.stays run (by simp))]

section Preorder

variable [Std.Refl r] [IsTrans α r]

/-- **The choice is maximal**: an element of the list above it is also below it. -/
theorem choice_maximal (h : choice r l = some best) (hc : c ∈ l) (hle : r c best) :
    r best c := by
  induction l using List.reverseRecOn generalizing best with
  | nil => cases h
  | append_singleton l x ih =>
      cases hl : choice r l with
      | none =>
          rw [choice_concat_of_none hl] at h
          obtain rfl := Option.some.inj h
          rw [choice_eq_none.mp hl, List.nil_append, List.mem_singleton] at hc
          rw [hc]
          exact refl _
      | some prev =>
          by_cases hx : r x prev
          · -- the new choice is above the old one, which was maximal before
            rw [choice_concat_of_rel hl hx] at h
            obtain rfl := Option.some.inj h
            rcases List.mem_append.mp hc with hc | hc
            · exact IsTrans.trans _ _ _ hx (ih hl hc (IsTrans.trans _ _ _ hle hx))
            · rw [List.mem_singleton.mp hc]
              exact refl _
          · rw [choice_concat_of_not_rel hl hx] at h
            obtain rfl := Option.some.inj h
            rcases List.mem_append.mp hc with hc | hc
            · exact ih hl hc hle
            · rw [List.mem_singleton.mp hc] at hle
              exact absurd hle hx

omit [DecidableRel r] [Std.Refl r] in
/-- What is above the first element of the last run begins a run itself. -/
theorem Runs.begins {runs : List (α × List α)} {last : α × List α}
    (h : Runs r l (runs ++ [last])) (hc : c ∈ l) (hle : r c last.1) :
    ∃ run ∈ runs ++ [last], run.1 = c := by
  have : IsTrans (α × List α) fun run next => r next.1 run.1 :=
    ⟨fun _ _ _ hab hbc => IsTrans.trans _ _ _ hbc hab⟩
  rw [h.flatten] at hc
  obtain ⟨run, hrun, hc⟩ := List.mem_flatMap.mp hc
  rcases List.mem_cons.mp hc with rfl | hc
  · exact ⟨run, hrun, rfl⟩
  · -- the first element of its run is below that of the last one
    have hbelow : r c run.1 := by
      have hrises := List.isChain_iff_pairwise.mp h.rises
      rcases List.mem_append.mp hrun with hrun | hrun
      · exact IsTrans.trans _ _ _ hle
          ((List.pairwise_append.mp hrises).2.2 run hrun last (by simp))
      · rw [List.mem_singleton.mp hrun]
        exact hle
    exact absurd hbelow (h.stays run hrun c hc)

/-- The choice never falls below the first element. -/
theorem choice_above_first {first : α} {rest : List α}
    (h : choice r (first :: rest) = some best) : r best first := by
  induction rest using List.reverseRecOn generalizing best with
  | nil =>
      obtain rfl := Option.some.inj h
      exact refl _
  | append_singleton rest x ih =>
      rw [← List.cons_append] at h
      have hprev : choice r (first :: rest) = some (rest.foldl (choose r) first) := rfl
      by_cases hx : r x (rest.foldl (choose r) first)
      · rw [choice_concat_of_rel hprev hx] at h
        obtain rfl := Option.some.inj h
        exact IsTrans.trans _ _ _ hx (ih hprev)
      · rw [choice_concat_of_not_rel hprev hx] at h
        obtain rfl := Option.some.inj h
        exact ih hprev

/-- A maximal element that stands first loses to an equivalent one that stands last. -/
theorem choice_of_first_last {first last : α} {rest : List α}
    (hfirst : ∀ c ∈ first :: rest, r c first → r first c) (heq : r last first) :
    choice r (first :: rest ++ [last]) = some last := by
  have hprev : choice r (first :: rest) = some (rest.foldl (choose r) first) := rfl
  have habove := choice_above_first hprev
  exact choice_concat_of_rel hprev
    (IsTrans.trans _ _ _ heq (hfirst _ (choice_mem hprev) habove))

end Preorder

end Reduce
