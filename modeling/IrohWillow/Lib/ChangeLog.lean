import Mathlib

/-!
# Logs of changes to a set

A log records what was added to a set and what was removed from it. Replaying
it gives a set back. `Explains S log T` says that the log leads from `S` to `T`
and that whatever it removes was there when it was removed.
-/

namespace ChangeLog

variable {α β : Type*}

/-- One entry of a log. -/
inductive Change (α : Type*)
  | add (a : α)
  | remove (a : α)
  deriving DecidableEq

/-- The change seen through a function. -/
def Change.map (f : α → β) : Change α → Change β
  | .add a => .add (f a)
  | .remove a => .remove (f a)

/-- One change. -/
def Change.apply (S : Set α) : Change α → Set α
  | .add a => insert a S
  | .remove a => S \ {a}

/-- Replay a log. -/
def replay (S : Set α) (log : List (Change α)) : Set α := log.foldl Change.apply S

/-- Whatever the log removes is there at that point. -/
def RemovesPresent : Set α → List (Change α) → Prop
  | _, [] => True
  | S, .add a :: log => RemovesPresent (insert a S) log
  | S, .remove a :: log => a ∈ S ∧ RemovesPresent (S \ {a}) log

/-- The log leads from one set to the other. -/
structure Explains (S : Set α) (log : List (Change α)) (T : Set α) : Prop where
  replay : replay S log = T
  present : RemovesPresent S log

variable {S T : Set α} {log log' : List (Change α)} {a : α}

@[simp] theorem replay_nil : replay S [] = S := rfl

@[simp] theorem replay_append : replay S (log ++ log') = replay (replay S log) log' :=
  List.foldl_append

@[simp] theorem replay_add : replay S [.add a] = insert a S := rfl

@[simp] theorem replay_remove : replay S [.remove a] = S \ {a} := rfl

@[simp] theorem removesPresent_append :
    RemovesPresent S (log ++ log') ↔
      RemovesPresent S log ∧ RemovesPresent (replay S log) log' := by
  induction log generalizing S with
  | nil => simp [RemovesPresent]
  | cons change log ih =>
      cases change with
      | add a => exact ih
      | remove a =>
          rw [List.cons_append]
          simp only [RemovesPresent, ih, and_assoc]
          rfl

theorem Explains.nil (S : Set α) : Explains S [] S := ⟨rfl, trivial⟩

/-- Something is added. -/
theorem Explains.add (h : Explains S log T) (a : α) :
    Explains S (log ++ [.add a]) (insert a T) where
  replay := by rw [replay_append, h.replay, replay_add]
  present := removesPresent_append.mpr ⟨h.present, trivial⟩

/-- Something that is there is removed. -/
theorem Explains.remove (h : Explains S log T) (ha : a ∈ T) :
    Explains S (log ++ [.remove a]) (T \ {a}) where
  replay := by rw [replay_append, h.replay, replay_remove]
  present := removesPresent_append.mpr ⟨h.present, by rw [h.replay]; exact ⟨ha, trivial⟩⟩

/-- A log explains one set only. -/
theorem Explains.unique {T' : Set α} (h : Explains S log T) (h' : Explains S log T') : T = T' :=
  h.replay.symm.trans h'.replay

end ChangeLog
