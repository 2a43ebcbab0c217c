import IrohWillow.Lib.Versions

/-!
# The transaction cache of the persistent store

`Db` of `store/persistent.rs` keeps at most one `redb` transaction at hand and
switches between none, a write and a read transaction as its callers need. A
write transaction that is older than `MAX_COMMIT_DELAY` is committed when the
tables are asked for next.

* `Db.run` answers a list of calls, each at a time of its own;
* `Ideal.run` answers the same calls from one value that is never cached;
* `Refines` relates the two; `run_refines` says that they agree.
-/

namespace IrohWillow.Persistent

open Versions

/-- `MAX_COMMIT_DELAY`, in milliseconds. -/
def maxCommitDelay : Nat := 500

/-- `tables::OpenWrite`. -/
structure OpenWrite (δ : Type) where
  inner : WriteTransaction δ
  since : Nat

/-- `CurrentTransaction`. -/
inductive CurrentTransaction (δ : Type) where
  | none
  | write (w : OpenWrite δ)
  | read (tables : ReadTransaction)

/-- `Db`. -/
structure Db (δ : Type) where
  redb : Database δ
  tx : CurrentTransaction δ := .none

/-- How a call can fail to return. -/
inductive Stuck where
  /-- `begin_write` waits for a write transaction that nobody will finish. -/
  | blocked
  /-- An `unreachable!` branch. -/
  | unreachable
  deriving DecidableEq, Repr

section Calls

variable {δ : Type}

namespace Db

/-- `Db::flush`. -/
def flush (db : Db δ) : Db δ :=
  match db.tx with
  | .write w => { redb := db.redb.commit w.inner, tx := .none }
  | .none => { db with tx := .none }
  | .read _ => { db with tx := .none }

/-- `Db::snapshot`. -/
def snapshot (db : Db δ) : Except Stuck (ReadTransaction × Db δ) :=
  let (tables, redb) := match db.tx with
    | .none => (db.redb.beginRead, db.redb)
    | .write w =>
        let redb := db.redb.commit w.inner
        (redb.beginRead, redb)
    | .read tables => (tables, db.redb)
  let db : Db δ := { redb := redb, tx := .read tables }
  match db.tx with
  | .read tables => .ok (tables, db)
  | _ => .error .unreachable

/-- `Db::snapshot_owned`. -/
def snapshotOwned (db : Db δ) : ReadTransaction × Db δ :=
  let db := db.flush
  (db.redb.beginRead, db)

/-- `begin_write` and `OpenWrite::new`. -/
def openWrite (redb : Database δ) (now : Nat) : Except Stuck (OpenWrite δ × Database δ) :=
  match redb.beginWrite with
  | some (tx, redb) => .ok (⟨tx, now⟩, redb)
  | none => .error .blocked

/-- `Db::tables`, at the time `now`. -/
def tables (db : Db δ) (now : Nat) : Except Stuck (OpenWrite δ × Db δ) := do
  let (tables, redb) ← match db.tx with
    | .none => openWrite db.redb now
    | .read _ => openWrite db.redb now
    | .write w =>
        if now - w.since > maxCommitDelay then openWrite (db.redb.commit w.inner) now
        else .ok (w, db.redb)
  let db : Db δ := { redb := redb, tx := .write tables }
  match db.tx with
  | .write tables => .ok (tables, db)
  | _ => .error .unreachable

/-- `OpenWrite::modify` on the tables; an error of the closure is part of what it
returns, and undoes nothing. -/
def modify {α : Type} (db : Db δ) (now : Nat) (f : δ → α × δ) : Except Stuck (α × Db δ) := do
  let (w, db) ← db.tables now
  let (res, contents) := f w.inner.contents
  .ok (res, { db with tx := .write { w with inner := ⟨contents⟩ } })

end Db

/-! ## Runs -/

/-- A call. Reading the tables is a modification that changes nothing. -/
inductive DbCall (δ : Type) where
  | flush
  | snapshot
  | snapshotOwned
  | tables (f : δ → δ)
  /-- An owned snapshot taken earlier is looked at again. -/
  | owned (index : Nat)

/-- The cache, with the owned snapshots that were given out. -/
structure DbWorld (δ : Type) where
  db : Db δ
  owned : List ReadTransaction := []

/-- One call at the time `now`: what the caller sees of the contents. -/
def DbWorld.step (s : DbWorld δ) (now : Nat) : DbCall δ → Except Stuck (Option δ × DbWorld δ)
  | .flush => .ok (none, { s with db := s.db.flush })
  | .snapshot => do
      let (tx, db) ← s.db.snapshot
      .ok (some (db.redb.read tx), { s with db := db })
  | .snapshotOwned =>
      let (tx, db) := s.db.snapshotOwned
      .ok (some (db.redb.read tx), { db := db, owned := s.owned ++ [tx] })
  | .tables f => do
      let (seen, db) ← s.db.modify now fun contents => (contents, f contents)
      .ok (some seen, { s with db := db })
  | .owned index => .ok (s.owned[index]?.map s.db.redb.read, s)

/-- A list of calls, each at its time: what their callers see. -/
def DbWorld.run (s : DbWorld δ) : List (Nat × DbCall δ) → Except Stuck (List (Option δ) × DbWorld δ)
  | [] => .ok ([], s)
  | (now, call) :: rest => do
      let (seen, s) ← s.step now call
      let (seens, s) ← s.run rest
      .ok (seen :: seens, s)

/-- The contents without transactions: the value after all modifications, and
what it was when each owned snapshot was taken. -/
structure Ideal (δ : Type) where
  current : δ
  owned : List δ := []

/-- One call. -/
def Ideal.step (s : Ideal δ) : DbCall δ → Option δ × Ideal δ
  | .flush => (none, s)
  | .snapshot => (some s.current, s)
  | .snapshotOwned => (some s.current, { s with owned := s.owned ++ [s.current] })
  | .tables f => (some s.current, { s with current := f s.current })
  | .owned index => (s.owned[index]?, s)

/-- A list of calls. -/
def Ideal.run (s : Ideal δ) : List (DbCall δ) → List (Option δ) × Ideal δ
  | [] => ([], s)
  | call :: rest =>
      let (seen, s) := s.step call
      let (seens, s) := s.run rest
      (seen :: seens, s)

end Calls

/-! ## The invariant -/

section Invariant

variable {δ : Type}

/-- The cache stands for the contents `current`: an open write transaction
holds them, and otherwise they are committed. A cached read transaction shows
them. -/
structure Db.Holds (db : Db δ) (current : δ) : Prop where
  write : ∀ w, db.tx = .write w → w.inner.contents = current ∧ db.redb.openWrites = 1
  closed : (∀ w, db.tx ≠ .write w) → db.redb.last = current ∧ db.redb.openWrites = 0
  read : ∀ tables, db.tx = .read tables → db.redb.Has tables ∧ db.redb.read tables = current

/-- Database `redb'` shows all transactions of `redb` as before. -/
def Keeps (redb redb' : Database δ) : Prop :=
  ∀ tx, redb.Has tx → redb'.Has tx ∧ redb'.read tx = redb.read tx

theorem Keeps.refl (redb : Database δ) : Keeps redb redb := fun _ h => ⟨h, rfl⟩

theorem keeps_commit (redb : Database δ) (w : WriteTransaction δ) : Keeps redb (redb.commit w) :=
  fun _ h => ⟨h.commit, Database.read_commit h⟩

variable {db : Db δ} {current : δ}

theorem Db.Holds.start (initial : δ) : Db.Holds { redb := { initial := initial } } initial where
  write := by rintro w ⟨⟩
  closed := fun _ => ⟨rfl, rfl⟩
  read := by rintro tables ⟨⟩

/-- At most one write transaction is open. -/
theorem Db.Holds.openWrites_le (h : db.Holds current) : db.redb.openWrites ≤ 1 := by
  cases htx : db.tx with
  | none => simp [(h.closed (by simp [htx])).2]
  | write w => exact (h.write w htx).2.le
  | read tables => simp [(h.closed (by simp [htx])).2]

theorem Db.Holds.flush (h : db.Holds current) :
    db.flush.Holds current ∧ db.flush.tx = .none ∧ Keeps db.redb db.flush.redb := by
  unfold Db.flush
  cases htx : db.tx with
  | none =>
      obtain ⟨hlast, hopen⟩ := h.closed (by simp [htx])
      exact ⟨⟨by simp, fun _ => ⟨hlast, hopen⟩, by simp⟩, rfl, Keeps.refl _⟩
  | write w =>
      obtain ⟨hcurrent, hopen⟩ := h.write w htx
      refine ⟨⟨by simp, fun _ => ⟨?_, ?_⟩, by simp⟩, rfl, keeps_commit _ _⟩
      · rw [Database.last_commit, hcurrent]
      · rw [Database.openWrites_commit, hopen]
  | read tables =>
      obtain ⟨hlast, hopen⟩ := h.closed (by simp [htx])
      exact ⟨⟨by simp, fun _ => ⟨hlast, hopen⟩, by simp⟩, rfl, Keeps.refl _⟩

/-- A fresh read transaction of committed contents is cached. -/
theorem Db.Holds.cache {redb : Database δ} (hlast : redb.last = current)
    (hopen : redb.openWrites = 0) :
    Db.Holds { redb := redb, tx := .read redb.beginRead } current where
  write := by rintro w ⟨⟩
  closed := fun _ => ⟨hlast, hopen⟩
  read := by
    rintro tables ⟨⟩
    exact ⟨redb.has_beginRead, by rw [Database.read_beginRead, hlast]⟩

theorem Db.Holds.snapshot (h : db.Holds current) :
    ∃ tx db', db.snapshot = .ok (tx, db') ∧ db'.redb.read tx = current ∧
      db'.Holds current ∧ Keeps db.redb db'.redb := by
  unfold Db.snapshot
  cases htx : db.tx with
  | none =>
      obtain ⟨hlast, hopen⟩ := h.closed (by simp [htx])
      exact ⟨_, _, rfl, by rw [Database.read_beginRead, hlast], .cache hlast hopen, Keeps.refl _⟩
  | write w =>
      obtain ⟨hcurrent, hopen⟩ := h.write w htx
      have hlast : (db.redb.commit w.inner).last = current := by
        rw [Database.last_commit, hcurrent]
      have hclosed : (db.redb.commit w.inner).openWrites = 0 := by
        rw [Database.openWrites_commit, hopen]
      exact ⟨_, _, rfl, by rw [Database.read_beginRead, hlast], .cache hlast hclosed,
        keeps_commit _ _⟩
  | read tables =>
      obtain ⟨hlast, hopen⟩ := h.closed (by simp [htx])
      obtain ⟨hhas, hread⟩ := h.read tables htx
      refine ⟨_, _, rfl, hread, ⟨?_, fun _ => ⟨hlast, hopen⟩, ?_⟩, Keeps.refl _⟩
      · rintro w ⟨⟩
      · rintro tx ⟨⟩
        exact ⟨hhas, hread⟩

/-- A new write transaction starts from the committed contents. -/
theorem openWrite_of_closed {redb : Database δ} (hlast : redb.last = current)
    (hopen : redb.openWrites = 0) (now : Nat) :
    Db.openWrite redb now = .ok (⟨⟨current⟩, now⟩, { redb with openWrites := 1 }) := by
  rw [Db.openWrite, Database.beginWrite_of_closed hopen, hlast]

theorem Db.Holds.tables (h : db.Holds current) (now : Nat) :
    ∃ w db', db.tables now = .ok (w, db') ∧ w.inner.contents = current ∧
      db'.tx = .write w ∧ db'.redb.openWrites = 1 ∧ Keeps db.redb db'.redb := by
  unfold Db.tables
  cases htx : db.tx with
  | none =>
      obtain ⟨hlast, hopen⟩ := h.closed (by simp [htx])
      dsimp only
      rw [openWrite_of_closed hlast hopen]
      exact ⟨_, _, rfl, rfl, rfl, rfl, Keeps.refl _⟩
  | read tables =>
      obtain ⟨hlast, hopen⟩ := h.closed (by simp [htx])
      dsimp only
      rw [openWrite_of_closed hlast hopen]
      exact ⟨_, _, rfl, rfl, rfl, rfl, Keeps.refl _⟩
  | write w =>
      obtain ⟨hcurrent, hopen⟩ := h.write w htx
      dsimp only
      split
      · -- too old: committed, and a new one is opened
        have hclosed : (db.redb.commit w.inner).openWrites = 0 := by
          rw [Database.openWrites_commit, hopen]
        rw [openWrite_of_closed Database.last_commit hclosed]
        exact ⟨_, _, rfl, hcurrent, rfl, rfl, keeps_commit _ _⟩
      · exact ⟨_, _, rfl, hcurrent, rfl, hopen, Keeps.refl _⟩

theorem Db.Holds.modify {α : Type} (h : db.Holds current) (now : Nat) (f : δ → α × δ) :
    ∃ db', db.modify now f = .ok ((f current).1, db') ∧ db'.Holds (f current).2 ∧
      Keeps db.redb db'.redb := by
  obtain ⟨w, db', htables, hcontents, -, hopen, hkeeps⟩ := h.tables now
  refine ⟨{ db' with tx := .write { w with inner := ⟨(f current).2⟩ } }, ?_, ⟨?_, ?_, ?_⟩, hkeeps⟩
  · rw [Db.modify, htables]
    show Except.ok _ = _
    rw [hcontents]
  · rintro w' ⟨⟩
    exact ⟨rfl, hopen⟩
  · exact fun hne => absurd rfl (hne _)
  · rintro tables ⟨⟩

/-! ## Refinement -/

/-- The cache and the owned snapshots stand for the ideal contents. -/
structure Refines (s : DbWorld δ) (i : Ideal δ) : Prop where
  holds : s.db.Holds i.current
  owned : s.owned.map s.db.redb.read = i.owned
  has : ∀ tx ∈ s.owned, s.db.redb.Has tx

variable {s : DbWorld δ} {i : Ideal δ}

/-- Owned snapshots show what they showed before. -/
theorem Refines.of_keeps (h : Refines s i) {db' : Db δ} {current' : δ}
    (hholds : db'.Holds current') (hkeeps : Keeps s.db.redb db'.redb) :
    Refines { s with db := db' } { i with current := current' } where
  holds := hholds
  owned := by
    rw [← h.owned]
    exact List.map_congr_left fun tx htx => (hkeeps tx (h.has tx htx)).2
  has := fun tx htx => (hkeeps tx (h.has tx htx)).1

/-- One call: the caller sees the ideal contents. -/
theorem Refines.step (h : Refines s i) (now : Nat) (call : DbCall δ) :
    ∃ s', s.step now call = .ok ((i.step call).1, s') ∧ Refines s' (i.step call).2 := by
  cases call with
  | flush =>
      obtain ⟨hholds, -, hkeeps⟩ := h.holds.flush
      exact ⟨_, rfl, h.of_keeps hholds hkeeps⟩
  | snapshot =>
      obtain ⟨tx, db', hsnapshot, hread, hholds, hkeeps⟩ := h.holds.snapshot
      refine ⟨{ s with db := db' }, ?_, h.of_keeps hholds hkeeps⟩
      rw [DbWorld.step, hsnapshot]
      show Except.ok _ = _
      rw [hread]
      rfl
  | snapshotOwned =>
      obtain ⟨hholds, htx, hkeeps⟩ := h.holds.flush
      have hlast : s.db.flush.redb.last = i.current := (hholds.closed (by simp [htx])).1
      have hread : s.db.flush.redb.read s.db.flush.redb.beginRead = i.current := by
        rw [Database.read_beginRead, hlast]
      have hbase := h.of_keeps hholds hkeeps
      refine ⟨{ db := s.db.flush, owned := s.owned ++ [s.db.flush.redb.beginRead] }, ?_,
        ⟨hholds, ?_, ?_⟩⟩
      · show Except.ok (some _, _) = Except.ok (some _, _)
        rw [hread]
      · show (s.owned ++ [_]).map _ = i.owned ++ [i.current]
        rw [List.map_append, List.map_singleton, hread, hbase.owned]
      · intro tx htx
        rcases List.mem_append.mp htx with htx | htx
        · exact hbase.has tx htx
        · rw [List.mem_singleton.mp htx]
          exact Database.has_beginRead _
  | tables f =>
      obtain ⟨db', hmodify, hholds, hkeeps⟩ :=
        h.holds.modify now fun contents => (contents, f contents)
      refine ⟨{ s with db := db' }, ?_, h.of_keeps hholds hkeeps⟩
      rw [DbWorld.step, hmodify]
      rfl
  | owned index =>
      refine ⟨s, ?_, h⟩
      show Except.ok (s.owned[index]?.map s.db.redb.read, s) = Except.ok (i.owned[index]?, s)
      rw [← h.owned, List.getElem?_map]

theorem Refines.run (h : Refines s i) (calls : List (Nat × DbCall δ)) :
    ∃ s', s.run calls = .ok ((i.run (calls.map Prod.snd)).1, s') ∧
      Refines s' (i.run (calls.map Prod.snd)).2 := by
  induction calls generalizing s i with
  | nil => exact ⟨s, rfl, h⟩
  | cons head rest ih =>
      obtain ⟨now, call⟩ := head
      obtain ⟨s', hstep, hs'⟩ := h.step now call
      obtain ⟨s'', hrun, hs''⟩ := ih hs'
      refine ⟨s'', ?_, hs''⟩
      rw [DbWorld.run, hstep]
      show (do let (seens, s) ← s'.run rest; .ok (_ :: seens, s)) = _
      rw [hrun]
      rfl

/-- **The transaction cache is transparent.** Whatever calls are made, at
whatever times, from a database with the contents `initial`: no call blocks or
reaches an `unreachable!` branch; every caller sees exactly the modifications
made before, and an owned snapshot what was there when it was taken; a cached
read transaction shows the current contents; at most one write transaction is
open. -/
theorem cache_transparent (initial : δ) (calls : List (Nat × DbCall δ)) :
    ∃ s, DbWorld.run { db := { redb := { initial := initial } } } calls =
        .ok ((Ideal.run { current := initial } (calls.map Prod.snd)).1, s) ∧
      (∀ tables, s.db.tx = .read tables →
        s.db.redb.read tables =
          (Ideal.run { current := initial } (calls.map Prod.snd)).2.current) ∧
      s.owned.map s.db.redb.read =
        (Ideal.run { current := initial } (calls.map Prod.snd)).2.owned ∧
      s.db.redb.openWrites ≤ 1 := by
  have hstart : Refines (δ := δ) { db := { redb := { initial := initial } } }
      { current := initial } := ⟨Db.Holds.start initial, rfl, by simp⟩
  obtain ⟨s, hrun, hs⟩ := hstart.run calls
  exact ⟨s, hrun, fun tables htx => (hs.holds.read tables htx).2, hs.owned,
    hs.holds.openWrites_le⟩

end Invariant

end IrohWillow.Persistent
