import Mathlib

/-!
# Summaries in a commutative monoid

The summary of a collection lifts each element into a commutative monoid and
combines the results. The elements may be taken one after the other
(`ofList`), or the partial results of a tree may be combined in any shape
(`Bracketing`): the summary depends on neither the order nor the shape
(`ofList_perm`, `Bracketing.summary_eq`).
-/

namespace Summary

variable {α M : Type*} (combine : M → M → M) (neutral : M) (lift : α → M)

/-- The summary of the elements of a list, one after the other. -/
def ofList (l : List α) : M := l.foldl (fun acc a => combine acc (lift a)) neutral

/-- The shape in which the elements of a collection are combined. -/
inductive Bracketing (α : Type*) where
  | empty
  | leaf (a : α)
  | node (left right : Bracketing α)

namespace Bracketing

/-- The elements from left to right. -/
def leaves : Bracketing α → List α
  | empty => []
  | leaf a => [a]
  | node left right => left.leaves ++ right.leaves

/-- One element after the other. -/
def chain (l : List α) : Bracketing α := l.foldr (fun a rest => node (leaf a) rest) empty

theorem leaves_chain (l : List α) : (chain l).leaves = l := by
  induction l with
  | nil => rfl
  | cons a l ih =>
      show [a] ++ (chain l).leaves = a :: l
      rw [ih, List.singleton_append]

/-- The summary in this shape. -/
def summary : Bracketing α → M
  | empty => neutral
  | leaf a => lift a
  | node left right => combine left.summary right.summary

end Bracketing

@[simp] theorem ofList_nil : ofList combine neutral lift [] = neutral := rfl

theorem ofList_map (l : List α) :
    ofList combine neutral id (l.map lift) = ofList combine neutral lift l := by
  rw [ofList, List.foldl_map]
  rfl

theorem neutral_combine [Std.LawfulIdentity combine neutral] (x : M) : combine neutral x = x :=
  Std.LawfulLeftIdentity.left_id x

theorem combine_neutral [Std.LawfulIdentity combine neutral] (x : M) : combine x neutral = x :=
  Std.LawfulRightIdentity.right_id x

variable [Std.Associative combine]

theorem combine_assoc (x y z : M) : combine (combine x y) z = combine x (combine y z) :=
  Std.Associative.assoc x y z

variable [Std.LawfulIdentity combine neutral]

theorem foldl_eq_combine (acc : M) (l : List α) :
    l.foldl (fun acc a => combine acc (lift a)) acc = combine acc (ofList combine neutral lift l) := by
  induction l generalizing acc with
  | nil => exact (combine_neutral combine neutral acc).symm
  | cons a l ih =>
      rw [ofList, List.foldl_cons, List.foldl_cons, ih, ih,
        neutral_combine combine neutral, combine_assoc combine]

theorem ofList_cons (a : α) (l : List α) :
    ofList combine neutral lift (a :: l) = combine (lift a) (ofList combine neutral lift l) := by
  rw [ofList, List.foldl_cons, foldl_eq_combine combine neutral,
    neutral_combine combine neutral]

theorem ofList_append (l m : List α) :
    ofList combine neutral lift (l ++ m) =
      combine (ofList combine neutral lift l) (ofList combine neutral lift m) := by
  rw [ofList, List.foldl_append, foldl_eq_combine combine neutral]
  rfl

section Commutative

variable [Std.Commutative combine] {combine neutral lift}

/-- The order does not matter. -/
theorem ofList_perm {l m : List α} (h : l.Perm m) :
    ofList combine neutral lift l = ofList combine neutral lift m := by
  induction h with
  | nil => rfl
  | cons a _ ih => rw [ofList_cons, ofList_cons, ih]
  | swap a b l =>
      rw [ofList_cons, ofList_cons, ofList_cons, ofList_cons, ← combine_assoc combine,
        ← combine_assoc combine]
      exact congrArg (combine · _) (Std.Commutative.comm _ _)
  | trans _ _ ih ih' => exact ih.trans ih'

/-- Neither order nor shape matters. -/
theorem Bracketing.summary_eq (t : Bracketing α) {l : List α} (h : t.leaves.Perm l) :
    t.summary combine neutral lift = ofList combine neutral lift l := by
  rw [← ofList_perm h]
  clear h
  induction t with
  | empty => rfl
  | leaf a =>
      rw [leaves, ofList_cons, ofList_nil, combine_neutral combine neutral]
      rfl
  | node left right ihl ihr =>
      rw [leaves, ofList_append, ← ihl, ← ihr]
      rfl

end Commutative

end Summary
