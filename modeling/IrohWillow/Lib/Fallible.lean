import Mathlib

/-!
# Computations whose operations may fail

A computation works on a state. Some of its steps are operations that the
outside may let fail; the others always succeed. `left` is the number of
operations that still succeed before one fails, and `none` means that none
fails. An error ends the computation, but it does not undo what was done.

`Spec P m Q E` says that from a state with `P` the computation `m` ends with a
value and a state related by `Q`, or with an error and a state related by `E`,
wherever an operation fails. `Costs m s n a s'` says that `m` needs `n`
operations to get from `s` to the value `a` and the state `s'`, and that it ends
with an error when fewer succeed. `EndsSpent m` says that `m` has no error of its
own.
-/

namespace Fallible

variable {ε σ α β : Type}

/-- A computation. -/
def Comp (ε σ α : Type) : Type := Option Nat → σ → Except ε α × Option Nat × σ

namespace Comp

/-- Return a value. -/
def pure (a : α) : Comp ε σ α := fun left s => (.ok a, left, s)

/-- One computation after the other. -/
def bind (m : Comp ε σ α) (f : α → Comp ε σ β) : Comp ε σ β := fun left s =>
  match m left s with
  | (.ok a, left, s) => f a left s
  | (.error e, left, s) => (.error e, left, s)

instance : Monad (Comp ε σ) where
  pure := pure
  bind := bind

end Comp

/-- An operation, which may fail with `fault`. -/
def operation (fault : ε) (f : σ → α × σ) : Comp ε σ α := fun left s =>
  match left with
  | some 0 => (.error fault, some 0, s)
  | some (n + 1) => (.ok (f s).1, some n, (f s).2)
  | none => (.ok (f s).1, none, (f s).2)

/-- A step that always succeeds. -/
def action (f : σ → σ) : Comp ε σ Unit := fun left s => (.ok (), left, f s)

/-- A step that always succeeds and returns a value. -/
def access (f : σ → α × σ) : Comp ε σ α := fun left s => (.ok (f s).1, left, (f s).2)

/-- End with an error of the computation's own. -/
def fail (e : ε) : Comp ε σ α := fun left s => (.error e, left, s)

/-- Run the computation if the condition holds. -/
def when (b : Bool) (m : Comp ε σ Unit) : Comp ε σ Unit := if b then m else Pure.pure ()

/-! ## Without failing operations -/

theorem pure_apply (a : α) (left : Option Nat) (s : σ) :
    (Pure.pure a : Comp ε σ α) left s = (.ok a, left, s) := rfl

theorem bind_apply (m : Comp ε σ α) (f : α → Comp ε σ β) (left : Option Nat) (s : σ) :
    (m >>= f) left s = match m left s with
      | (.ok a, left, s) => f a left s
      | (.error e, left, s) => (.error e, left, s) := rfl

/-- The order of the parentheses does not matter. -/
theorem bind_assoc {γ : Type} (m : Comp ε σ α) (f : α → Comp ε σ β) (g : β → Comp ε σ γ) :
    (m >>= f) >>= g = m >>= fun a => f a >>= g := by
  funext left s
  rw [bind_apply, bind_apply, bind_apply]
  match m left s with
  | (.ok a, left, s) => rfl
  | (.error e, left, s) => rfl

theorem operation_none (fault : ε) (f : σ → α × σ) (s : σ) :
    operation fault f none s = (.ok (f s).1, none, (f s).2) := rfl

theorem operation_succ (fault : ε) (f : σ → α × σ) (n : Nat) (s : σ) :
    operation fault f (some (n + 1)) s = (.ok (f s).1, some n, (f s).2) := rfl

theorem action_apply (f : σ → σ) (left : Option Nat) (s : σ) :
    action (ε := ε) f left s = (.ok (), left, f s) := rfl

/-! ## Specifications -/

/-- Wherever an operation fails: from `P`, a value with `Q` or an error with `E`. -/
def Spec (P : σ → Prop) (m : Comp ε σ α) (Q : α → σ → Prop) (E : ε → σ → Prop) : Prop :=
  ∀ left s, P s →
    (∀ a s', (m left s).1 = .ok a → (m left s).2.2 = s' → Q a s') ∧
    ∀ e s', (m left s).1 = .error e → (m left s).2.2 = s' → E e s'

variable {P P' : σ → Prop} {Q Q' : α → σ → Prop} {R : β → σ → Prop} {E E' : ε → σ → Prop}
  {m : Comp ε σ α} {f : α → Comp ε σ β}

theorem Spec.pure {a : α} (h : ∀ s, P s → Q a s) : Spec P (Pure.pure a) Q E := by
  intro left s hs
  refine ⟨?_, ?_⟩
  · rintro a' s' ha rfl
    obtain rfl := Except.ok.inj ha
    exact h s hs
  · rintro e s' ⟨⟩

/-- The rule of sequence. -/
theorem Spec.bind (hm : Spec P m Q E) (hf : ∀ a, Spec (Q a) (f a) R E) :
    Spec P (m >>= f) R E := by
  intro left s hs
  obtain ⟨hok, herr⟩ := hm left s hs
  rw [bind_apply]
  match hrun : m left s with
  | (.ok a, left', s') =>
      rw [hrun] at hok
      exact hf a left' s' (hok a s' rfl rfl)
  | (.error e, left', s') =>
      rw [hrun] at herr
      refine ⟨?_, ?_⟩
      · rintro b s'' ⟨⟩
      · rintro e' s'' he rfl
        obtain rfl := Except.error.inj he
        exact herr e s' rfl rfl

/-- The rule of an operation: it may fail where it stands. -/
theorem Spec.operation {fault : ε} {g : σ → α × σ} (hok : ∀ s, P s → Q (g s).1 (g s).2)
    (herr : ∀ s, P s → E fault s) : Spec P (operation fault g) Q E := by
  intro left s hs
  match left with
  | some 0 =>
      refine ⟨?_, ?_⟩
      · rintro a s' ⟨⟩
      · rintro e s' he rfl
        obtain rfl := Except.error.inj he
        exact herr s hs
  | some (n + 1) =>
      refine ⟨?_, ?_⟩
      · rintro a s' ha rfl
        obtain rfl := Except.ok.inj ha
        exact hok s hs
      · rintro e s' ⟨⟩
  | none =>
      refine ⟨?_, ?_⟩
      · rintro a s' ha rfl
        obtain rfl := Except.ok.inj ha
        exact hok s hs
      · rintro e s' ⟨⟩

theorem Spec.action {g : σ → σ} {Q : Unit → σ → Prop} (h : ∀ s, P s → Q () (g s)) :
    Spec P (action g) Q E := by
  intro left s hs
  refine ⟨?_, ?_⟩
  · rintro a s' - rfl
    exact h s hs
  · rintro e s' ⟨⟩

theorem Spec.access {g : σ → α × σ} (h : ∀ s, P s → Q (g s).1 (g s).2) :
    Spec P (access g) Q E := by
  intro left s hs
  refine ⟨?_, ?_⟩
  · rintro a s' ha rfl
    obtain rfl := Except.ok.inj ha
    exact h s hs
  · rintro e s' ⟨⟩

theorem Spec.fail {e : ε} (h : ∀ s, P s → E e s) : Spec P (fail e : Comp ε σ α) Q E := by
  intro left s hs
  refine ⟨?_, ?_⟩
  · rintro a s' ⟨⟩
  · rintro e' s' he rfl
    obtain rfl := Except.error.inj he
    exact h s hs

/-- The rule of a conditional computation. -/
theorem Spec.when {b : Bool} {m : Comp ε σ Unit} {Q : Unit → σ → Prop}
    (hm : b = true → Spec P m Q E) (hskip : b = false → ∀ s, P s → Q () s) :
    Spec P (when b m) Q E := by
  cases b with
  | true => exact hm rfl
  | false => exact Spec.pure (hskip rfl)

/-- The rule of consequence. -/
theorem Spec.weaken (h : Spec P m Q E) (hP : ∀ s, P' s → P s) (hQ : ∀ a s, Q a s → Q' a s)
    (hE : ∀ e s, E e s → E' e s) : Spec P' m Q' E' := fun left s hs =>
  ⟨fun a s' ha hs' => hQ a s' ((h left s (hP s hs)).1 a s' ha hs'),
    fun e s' he hs' => hE e s' ((h left s (hP s hs)).2 e s' he hs')⟩

/-- A fact that does not depend on the state moves out of the precondition. -/
theorem Spec.of_fact {fact : Prop} (h : fact → Spec P m Q E) :
    Spec (fun s => fact ∧ P s) m Q E := fun left s hs => h hs.1 left s hs.2

/-! ## Costs -/

/-- The computation takes `n` operations from `s` to `a` and `s'`. -/
structure Costs (m : Comp ε σ α) (s : σ) (n : Nat) (a : α) (s' : σ) : Prop where
  always : m none s = (.ok a, none, s')
  enough : ∀ k, n ≤ k → m (some k) s = (.ok a, some (k - n), s')
  tooFew : ∀ k, k < n → ∃ e left t, m (some k) s = (.error e, left, t)

/-- At least `n` operations succeed. -/
def Lasts (left : Option Nat) (n : Nat) : Prop := ∀ k, left = some k → n ≤ k

@[simp] theorem lasts_some {k n : Nat} : Lasts (some k) n ↔ n ≤ k := by simp [Lasts]

theorem Lasts.mono {left : Option Nat} {n n' : Nat} (h : Lasts left n) (hle : n' ≤ n) :
    Lasts left n' := fun k hk => hle.trans (h k hk)

/-- Those that are left last for what is left to do. -/
theorem lasts_map_sub {left : Option Nat} {n k : Nat} (h : Lasts left n) :
    Lasts (left.map (· - n)) k ↔ Lasts left (n + k) := by
  cases left with
  | none =>
      constructor
      · rintro - j ⟨⟩
      · rintro - j ⟨⟩
  | some j =>
      have hn : n ≤ j := lasts_some.mp h
      rw [Option.map_some, lasts_some, lasts_some]
      omega

theorem not_lasts_iff {left : Option Nat} {n : Nat} :
    ¬ Lasts left n ↔ ∃ k, left = some k ∧ k < n := by
  unfold Lasts
  push Not
  rfl

variable {s s' s'' : σ} {a : α} {b : β} {n k : Nat}

/-- With enough operations the computation runs to its end. -/
theorem Costs.run (h : Costs m s n a s') {left : Option Nat} (hleft : Lasts left n) :
    m left s = (.ok a, left.map (· - n), s') := by
  cases left with
  | none => exact h.always
  | some k => exact h.enough k (hleft k rfl)

theorem Costs.pure : Costs (Pure.pure a : Comp ε σ α) s 0 a s where
  always := rfl
  enough _ _ := rfl
  tooFew _ hk := absurd hk (Nat.not_lt_zero _)

theorem Costs.access {f : σ → α × σ} : Costs (access (ε := ε) f) s 0 (f s).1 (f s).2 where
  always := rfl
  enough _ _ := rfl
  tooFew _ hk := absurd hk (Nat.not_lt_zero _)

theorem Costs.action {f : σ → σ} : Costs (action (ε := ε) f) s 0 () (f s) where
  always := rfl
  enough _ _ := rfl
  tooFew _ hk := absurd hk (Nat.not_lt_zero _)

theorem Costs.operation {fault : ε} {f : σ → α × σ} :
    Costs (operation fault f) s 1 (f s).1 (f s).2 where
  always := rfl
  enough k hk := by
    obtain ⟨k, rfl⟩ := Nat.exists_eq_add_of_le' hk
    rfl
  tooFew k hk := by
    obtain rfl := Nat.lt_one_iff.mp hk
    exact ⟨fault, some 0, s, rfl⟩

/-- In a sequence the costs add up. -/
theorem Costs.bind (hm : Costs m s n a s') (hf : Costs (f a) s' k b s'') :
    Costs (m >>= f) s (n + k) b s'' where
  always := by
    rw [bind_apply, hm.always]
    exact hf.always
  enough j hj := by
    have hrest : k ≤ j - n := by omega
    rw [bind_apply, hm.enough j (by omega), Nat.sub_add_eq]
    exact hf.enough _ hrest
  tooFew j hj := by
    rw [bind_apply]
    by_cases hfirst : n ≤ j
    · have hrest : j - n < k := by omega
      rw [hm.enough j hfirst]
      exact hf.tooFew _ hrest
    · obtain ⟨e, left, t, hrun⟩ := hm.tooFew j (not_le.mp hfirst)
      rw [hrun]
      exact ⟨e, left, t, rfl⟩

/-- A step that always succeeds costs nothing. -/
theorem Costs.access_bind {g : σ → α × σ} (hf : Costs (f (g s).1) (g s).2 n b s') :
    Costs (Fallible.access g >>= f) s n b s' := by
  have h := Costs.access.bind hf
  rwa [Nat.zero_add] at h

theorem Costs.when_true {m : Comp ε σ Unit} (hm : Costs m s n () s') :
    Costs (when true m) s n () s' := hm

theorem Costs.when_false {m : Comp ε σ Unit} : Costs (when false m) s 0 () s := Costs.pure

/-- It ends with an error exactly if too few operations succeed. -/
theorem Costs.isError_iff (h : Costs m s n a s') (left : Option Nat) :
    (∃ e left' t, m left s = (.error e, left', t)) ↔ ∃ k, left = some k ∧ k < n := by
  constructor
  · rintro ⟨e, left', t, hrun⟩
    cases left with
    | none =>
        rw [h.always] at hrun
        cases hrun
    | some k =>
        refine ⟨k, rfl, ?_⟩
        by_contra hk
        rw [h.enough k (not_lt.mp hk)] at hrun
        cases hrun
  · rintro ⟨k, rfl, hk⟩
    exact h.tooFew k hk

/-! ## What an error leaves -/

/-- An error ends the computation only when no operation succeeds any more. -/
def EndsSpent (m : Comp ε σ α) : Prop :=
  ∀ left s e left' s', m left s = (.error e, left', s') → left' = some 0

theorem EndsSpent.pure : EndsSpent (Pure.pure a : Comp ε σ α) := by
  rintro left s e left' s' ⟨⟩

theorem EndsSpent.access {g : σ → α × σ} : EndsSpent (access (ε := ε) g) := by
  rintro left s e left' s' ⟨⟩

theorem EndsSpent.operation {fault : ε} {g : σ → α × σ} : EndsSpent (operation fault g) := by
  intro left s e left' s' hrun
  match left with
  | some 0 => exact (Prod.mk.inj (Prod.mk.inj hrun).2).1.symm
  | some (n + 1) => cases hrun
  | none => cases hrun

theorem EndsSpent.bind (hm : EndsSpent m) (hf : ∀ a, EndsSpent (f a)) : EndsSpent (m >>= f) := by
  intro left s e left' s' hrun
  rw [bind_apply] at hrun
  match hfirst : m left s with
  | (.ok a, left₁, s₁) =>
      rw [hfirst] at hrun
      exact hf a _ _ _ _ _ hrun
  | (.error e₁, left₁, s₁) =>
      rw [hfirst] at hrun
      obtain ⟨-, hrest⟩ := Prod.mk.inj hrun
      rw [← (Prod.mk.inj hrest).1]
      exact hm _ _ _ _ _ hfirst

theorem EndsSpent.when {b : Bool} {m : Comp ε σ Unit} (hm : EndsSpent m) :
    EndsSpent (when b m) := by
  cases b with
  | true => exact hm
  | false => exact EndsSpent.pure

end Fallible
