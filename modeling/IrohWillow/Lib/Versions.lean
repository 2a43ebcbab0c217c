import Mathlib

/-!
# A database with versions

Every commit adds a version. A read transaction is a version number: it shows
that version, however many commits follow. At most one write transaction is
open; a second one has to wait until the first one is committed or dropped.
-/

namespace Versions

variable {δ : Type*}

/-- The committed versions, and how many write transactions are open. -/
structure Database (δ : Type*) where
  initial : δ
  commits : List δ := []
  openWrites : Nat := 0

/-- A read transaction: the version it shows. -/
structure ReadTransaction where
  version : Nat
  deriving DecidableEq, Repr

/-- A write transaction: the last commit, with the changes made since. -/
structure WriteTransaction (δ : Type*) where
  contents : δ

namespace Database

/-- The last version. -/
def last (db : Database δ) : δ := db.commits.getLast?.getD db.initial

/-- What a read transaction shows. -/
def read (db : Database δ) (tx : ReadTransaction) : δ :=
  (db.initial :: db.commits)[tx.version]?.getD db.initial

/-- A read transaction of the last version. -/
def beginRead (db : Database δ) : ReadTransaction := ⟨db.commits.length⟩

/-- A write transaction; `none` when another one is open, which blocks. -/
def beginWrite (db : Database δ) : Option (WriteTransaction δ × Database δ) :=
  if db.openWrites = 0 then some (⟨db.last⟩, { db with openWrites := 1 }) else none

/-- Commit the write transaction. -/
def commit (db : Database δ) (tx : WriteTransaction δ) : Database δ :=
  { db with commits := db.commits ++ [tx.contents], openWrites := db.openWrites - 1 }

variable {db : Database δ} {tx : ReadTransaction} {w : WriteTransaction δ}

/-- The version of the transaction exists. -/
def Has (db : Database δ) (tx : ReadTransaction) : Prop := tx.version ≤ db.commits.length

theorem has_beginRead (db : Database δ) : db.Has db.beginRead := le_refl _

@[simp] theorem read_beginRead (db : Database δ) : db.read db.beginRead = db.last := by
  unfold read beginRead last
  cases h : db.commits.getLast? with
  | none =>
      rw [List.getLast?_eq_none_iff.mp h]
      rfl
  | some v =>
      rw [List.getLast?_eq_getElem?] at h
      have hpos : 0 < db.commits.length := by
        by_contra hzero
        simp [List.length_eq_zero_iff.mp (Nat.eq_zero_of_not_pos hzero)] at h
      rw [show db.commits.length = (db.commits.length - 1) + 1 by omega, List.getElem?_cons_succ, h]

@[simp] theorem last_commit : (db.commit w).last = w.contents := by
  simp [last, commit]

@[simp] theorem openWrites_commit : (db.commit w).openWrites = db.openWrites - 1 := rfl

theorem Has.commit (h : db.Has tx) : (db.commit w).Has tx := by
  unfold Has Database.commit at *
  simp only [List.length_append, List.length_singleton]
  omega

/-- A commit does not change what an earlier transaction shows. -/
theorem read_commit (h : db.Has tx) : (db.commit w).read tx = db.read tx := by
  unfold Has at h
  unfold read commit
  rw [← List.cons_append, List.getElem?_append_left (by simp only [List.length_cons]; omega)]

theorem beginWrite_of_closed (h : db.openWrites = 0) :
    db.beginWrite = some (⟨db.last⟩, { db with openWrites := 1 }) := if_pos h

end Database

end Versions
