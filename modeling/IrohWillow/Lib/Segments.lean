import Mathlib

/-!
# Words cut into segments

An automaton reads a word that is the concatenation of segments. A segment
leads from the initial state back to it, and through other states in between.
So the automaton is in its initial state exactly between two segments
(`state_take_flatten_iff`).
-/

namespace Segments

variable {β α : Type*} (next : β → α → β) (init : β)

/-- The state after a word. -/
def state (l : List α) : β := l.foldl next init

/-- A word that returns to the initial state at its end, and not before. -/
structure Segment (l : List α) : Prop where
  ne_nil : l ≠ []
  closed : state next init l = init
  inside : ∀ l₁ l₂, l = l₁ ++ l₂ → l₁ ≠ [] → l₂ ≠ [] → state next init l₁ ≠ init

variable {next init}

@[simp] theorem state_nil : state next init [] = init := rfl

@[simp] theorem state_concat (l : List α) (a : α) :
    state next init (l ++ [a]) = next (state next init l) a := by
  simp [state]

/-- After a word that is closed the automaton starts anew. -/
theorem state_append {l : List α} (h : state next init l = init) (l' : List α) :
    state next init (l ++ l') = state next init l' := by
  unfold state at h ⊢
  rw [List.foldl_append, h]

/-- The length of the first segments. -/
def offset (segments : List (List α)) (k : Nat) : Nat := (segments.take k).flatten.length

@[simp] theorem offset_zero (segments : List (List α)) : offset segments 0 = 0 := by
  simp [offset]

theorem offset_cons_succ (l : List α) (segments : List (List α)) (k : Nat) :
    offset (l :: segments) (k + 1) = l.length + offset segments k := by
  simp [offset]

/-- **Between segments.** The automaton is in its initial state exactly where
one segment has ended and the next one has not begun. -/
theorem state_take_flatten_iff {segments : List (List α)}
    (h : ∀ l ∈ segments, Segment next init l) {n : Nat} (hn : n ≤ segments.flatten.length) :
    state next init (segments.flatten.take n) = init ↔ ∃ k, n = offset segments k := by
  induction segments generalizing n with
  | nil =>
      obtain rfl : n = 0 := by simpa using hn
      exact ⟨fun _ => ⟨0, rfl⟩, fun _ => rfl⟩
  | cons l rest ih =>
      have hl : Segment next init l := h l List.mem_cons_self
      have hpos : 0 < l.length := List.length_pos_iff.mpr hl.ne_nil
      rw [List.flatten_cons]
      rw [List.flatten_cons, List.length_append] at hn
      rcases Nat.lt_or_ge n l.length with hlt | hge
      · rw [List.take_append_of_le_length (by omega)]
        rcases Nat.eq_zero_or_pos n with rfl | hn0
        · exact ⟨fun _ => ⟨0, by simp⟩, fun _ => by simp⟩
        · -- strictly inside of the first segment
          constructor
          · intro heq
            refine absurd heq (hl.inside _ _ (List.take_append_drop n l).symm ?_ ?_)
            · intro hnil
              have := congrArg List.length hnil
              simp only [List.length_take, List.length_nil] at this
              omega
            · intro hnil
              have := congrArg List.length hnil
              simp only [List.length_drop, List.length_nil] at this
              omega
          · rintro ⟨k, hk⟩
            cases k with
            | zero =>
                rw [offset_zero] at hk
                omega
            | succ k =>
                rw [offset_cons_succ] at hk
                omega
      · obtain ⟨d, rfl⟩ : ∃ d, n = l.length + d := ⟨n - l.length, by omega⟩
        rw [List.take_length_add_append, state_append hl.closed,
          ih (fun l' hl' => h l' (List.mem_cons_of_mem _ hl')) (by omega)]
        constructor
        · rintro ⟨k, hk⟩
          exact ⟨k + 1, by rw [offset_cons_succ, hk]⟩
        · rintro ⟨k, hk⟩
          cases k with
          | zero =>
              rw [offset_zero] at hk
              omega
          | succ k =>
              rw [offset_cons_succ] at hk
              exact ⟨k, by omega⟩

end Segments
