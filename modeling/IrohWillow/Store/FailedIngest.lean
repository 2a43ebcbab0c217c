import IrohWillow.Store.IngestProgress
import IrohWillow.Store.Transactions

/-!
# What a failed ingestion leaves behind

`WillowStore::ingest_entry` changes the tables of the write transaction that is
open and the event queue in memory. When one of its operations fails, neither
is undone: the transaction stays the current one and is committed by whichever
call does so next.

* `WillowDb` is the store with its transaction cache and its event queues;
* `Alike` compares what two states of it show;
* `failed_ingest_leaves_no_trace_iff` says at which operations a failure leaves
  nothing behind.
-/

namespace IrohWillow.Persistent

open Fallible

section Model

variable [Meadowcap]

/-- The tables that are part of the database. -/
structure Contents where
  namespaceNodes : NamespaceId → Option Node := fun _ => none
  authTokens : UserSignature → Option McCapability := fun _ => none
  authTokenRefcount : UserSignature → Option Nat := fun _ => none

/-- The database part of the tables. -/
def Tables.contents (t : Tables) : Contents :=
  { namespaceNodes := t.namespaceNodes
    authTokens := t.authTokens
    authTokenRefcount := t.authTokenRefcount }

/-- The tables with the event queues. -/
def Contents.withEvents (c : Contents) (events : NamespaceId → EventQueue StoreEvent) : Tables :=
  { namespaceNodes := c.namespaceNodes
    authTokens := c.authTokens
    authTokenRefcount := c.authTokenRefcount
    namespaceEvents := events }

/-- `WillowStore`. -/
structure WillowDb where
  db : Db Contents
  namespaceEvents : NamespaceId → EventQueue StoreEvent

variable [WillowStore]

/-- `ingest_entry` on the store. -/
def WillowDb.ingestEntry (s : WillowDb) (now : Nat) (c : IngestCall) :
    Except Stuck (Except IngestError Bool × WillowDb) := do
  let ((res, events), db) ← s.db.modify now fun contents =>
    let (res, t) := (contents.withEvents s.namespaceEvents).tryIngest c
    ((res, t.namespaceEvents), t.contents)
  .ok (res, { db := db, namespaceEvents := events })

/-- What may happen to the store: ingestions, and calls that commit or read, or
that change other tables. -/
inductive StoreOp where
  | ingest (c : IngestCall)
  | flush
  | snapshot
  | snapshotOwned
  | tables

/-- One operation at the time `now`. -/
def WillowDb.step (s : WillowDb) (now : Nat) : StoreOp → Except Stuck WillowDb
  | .ingest c => do
      let (_, s) ← s.ingestEntry now c
      .ok s
  | .flush => .ok { s with db := s.db.flush }
  | .snapshot => do
      let (_, db) ← s.db.snapshot
      .ok { s with db := db }
  | .snapshotOwned => .ok { s with db := s.db.snapshotOwned.2 }
  | .tables => do
      let (_, db) ← s.db.modify now fun contents => ((), contents)
      .ok { s with db := db }

/-- A list of operations, each at its time. -/
def WillowDb.run (s : WillowDb) : List (Nat × StoreOp) → Except Stuck WillowDb
  | [] => .ok s
  | (now, op) :: rest => do
      let s ← s.step now op
      s.run rest

/-- The store shows these tables: the database holds their contents, committed
or not, and the queues are theirs. -/
structure WillowDb.Shows (s : WillowDb) (t : Tables) : Prop where
  holds : s.db.Holds t.contents
  events : s.namespaceEvents = t.namespaceEvents

/-- Two stores show the same entries, tokens and events. -/
structure Alike (t t' : Tables) : Prop where
  visible : ∀ ns range, t'.getAuthorisedEntries ns range = t.getAuthorisedEntries ns range
  authTokens : t'.authTokens = t.authTokens
  authTokenRefcount : t'.authTokenRefcount = t.authTokenRefcount
  events : ∀ ns, (t'.namespaceEvents ns).events = (t.namespaceEvents ns).events

/-- The operation that fails comes before the first change: the first candidate
has not been deleted yet, or there is none and the token has not been stored, or
it is stored already and has not been counted. -/
def BeforeChange (t : Tables) (entry : AuthorisedEntry) (left : Nat) : Prop :=
  match prunedBy t entry with
  | _ :: _ => left ≤ 3
  | [] =>
      if t.authTokens entry.token.signature = some entry.token.capability then left ≤ 4
      else left ≤ 2

end Model

/-! ## The store shows its tables -/

section Shows

variable [Meadowcap] [WillowStore]

/-- One operation on the tables. -/
def Tables.after (t : Tables) : StoreOp → Tables
  | .ingest c => (t.tryIngest c).2
  | .flush => t
  | .snapshot => t
  | .snapshotOwned => t
  | .tables => t

/-- A list of operations on the tables. -/
def Tables.afterAll (t : Tables) (l : List (Nat × StoreOp)) : Tables :=
  l.foldl (fun t op => t.after op.2) t

variable {s : WillowDb} {t : Tables}

theorem WillowDb.Shows.ingestEntry (h : s.Shows t) (now : Nat) (c : IngestCall) :
    ∃ s', s.ingestEntry now c = .ok ((t.tryIngest c).1, s') ∧ s'.Shows (t.tryIngest c).2 := by
  have ht : t.contents.withEvents s.namespaceEvents = t := by
    rw [h.events]
    rfl
  obtain ⟨db', hmodify, hholds, -⟩ := h.holds.modify now fun contents =>
    (((((contents.withEvents s.namespaceEvents).tryIngest c).1,
      ((contents.withEvents s.namespaceEvents).tryIngest c).2.namespaceEvents),
      ((contents.withEvents s.namespaceEvents).tryIngest c).2.contents) :
      (Except IngestError Bool × (NamespaceId → EventQueue StoreEvent)) × Contents)
  rw [ht] at hholds hmodify
  refine ⟨{ db := db', namespaceEvents := (t.tryIngest c).2.namespaceEvents }, ?_, hholds, rfl⟩
  unfold WillowDb.ingestEntry
  dsimp only
  rw [hmodify]
  rfl

theorem WillowDb.Shows.step (h : s.Shows t) (now : Nat) (op : StoreOp) :
    ∃ s', s.step now op = .ok s' ∧ s'.Shows (t.after op) := by
  cases op with
  | ingest c =>
      obtain ⟨s', hs', hshows⟩ := h.ingestEntry now c
      refine ⟨s', ?_, hshows⟩
      rw [WillowDb.step, hs']
      rfl
  | flush => exact ⟨_, rfl, h.holds.flush.1, h.events⟩
  | snapshot =>
      obtain ⟨tx, db', hsnapshot, -, hholds, -⟩ := h.holds.snapshot
      refine ⟨{ s with db := db' }, ?_, hholds, h.events⟩
      rw [WillowDb.step, hsnapshot]
      rfl
  | snapshotOwned => exact ⟨_, rfl, h.holds.flush.1, h.events⟩
  | tables =>
      obtain ⟨db', hmodify, hholds, -⟩ := h.holds.modify now fun contents => ((), contents)
      refine ⟨{ s with db := db' }, ?_, hholds, h.events⟩
      rw [WillowDb.step, hmodify]
      rfl

theorem WillowDb.Shows.run (h : s.Shows t) (l : List (Nat × StoreOp)) :
    ∃ s', s.run l = .ok s' ∧ s'.Shows (t.afterAll l) := by
  induction l generalizing s t with
  | nil => exact ⟨s, rfl, h⟩
  | cons head rest ih =>
      obtain ⟨now, op⟩ := head
      obtain ⟨s', hs', hshows⟩ := h.step now op
      obtain ⟨s'', hs'', hshows'⟩ := ih hshows
      refine ⟨s'', ?_, hshows'⟩
      rw [WillowDb.run, hs']
      exact hs''

end Shows

/-! ## Where the failure leaves a trace -/

section Trace

variable [Meadowcap]

/-- The queue of a namespace is longer than `n`. -/
def Longer (ns : NamespaceId) (n : Nat) (s : Scratch) : Prop :=
  n < (s.tables.namespaceEvents ns).events.length

variable {ns : NamespaceId} {n : Nat}

theorem Longer.insertEvent {s : Scratch} (h : Longer ns n s) (ns' : NamespaceId)
    (f : Nat → StoreEvent) (node : Node) : Longer ns n ⟨s.tables.insertEvent ns' f, node⟩ := by
  unfold Longer Tables.insertEvent at *
  by_cases hns : ns = ns'
  · subst hns
    simp only [Function.update_self, EventQueue.insert, List.length_append, List.length_singleton]
    omega
  · dsimp only
    rwa [Function.update_of_ne hns]

theorem longer_query {α : Type} (f : Scratch → α) :
    Spec (Longer ns n) (query f) (fun _ => Longer ns n) fun _ => Longer ns n :=
  Spec.operation (fun _ hs => hs) fun _ hs => hs

theorem longer_update {f : Scratch → Scratch} (hf : ∀ s, Longer ns n s → Longer ns n (f s)) :
    Spec (Longer ns n) (update f) (fun _ => Longer ns n) fun _ => Longer ns n :=
  Spec.operation hf fun _ hs => hs

theorem longer_tryRemoveEntryAuthToken (key : UserSignature) :
    Spec (Longer ns n) (tryRemoveEntryAuthToken key) (fun _ => Longer ns n)
      fun _ => Longer ns n := by
  unfold tryRemoveEntryAuthToken
  refine Spec.bind (longer_query _) fun refcount => ?_
  cases refcount with
  | none => exact Spec.pure fun _ hs => hs
  | some refcount =>
      dsimp only
      split
      · refine Spec.bind (Q := fun _ => Longer ns n)
          (Spec.operation (fun _ hs => hs) fun _ hs => hs) fun old => ?_
        cases old with
        | none => exact Spec.fail fun _ hs => hs
        | some capability => exact longer_update fun _ hs => hs
      · exact Spec.pure fun _ hs => hs

theorem longer_tryAddEntryAuthToken (token : AuthorisationToken) :
    Spec (Longer ns n) (tryAddEntryAuthToken token) (fun _ => Longer ns n)
      fun _ => Longer ns n := by
  unfold tryAddEntryAuthToken
  exact Spec.bind (longer_update fun _ hs => hs) fun _ =>
    Spec.bind (longer_query _) fun _ => longer_update fun _ hs => hs

theorem longer_tryPruneCandidates (entry : AuthorisedEntry)
    (candidates : List (Point × StoredAuthorisedEntry)) :
    Spec (Longer ns n) (tryPruneCandidates entry candidates) (fun _ => Longer ns n)
      fun _ => Longer ns n := by
  induction candidates with
  | nil => exact Spec.pure fun _ hs => hs
  | cons kv rest ih =>
      obtain ⟨pos, candidate⟩ := kv
      unfold tryPruneCandidates tryGetEntryAuthToken
      refine Spec.bind (Q := fun _ => Longer ns n) (Spec.bind (longer_query _) fun capability => ?_)
        fun token => ?_
      · cases capability with
        | none => exact Spec.fail fun _ hs => hs
        | some capability => exact Spec.pure fun _ hs => hs
      · cases candidate.intoAuthorisedEntry entry.entry.namespaceId pos token with
        | none => exact Spec.fail fun _ hs => hs
        | some pruned =>
            dsimp only
            split
            · refine Spec.bind (longer_update fun _ hs => hs) fun _ => ?_
              refine Spec.bind (Q := fun _ => Longer ns n)
                (Spec.action fun s hs => hs.insertEvent _ _ _) fun _ => ?_
              exact Spec.bind (longer_tryRemoveEntryAuthToken _) fun _ => ih
            · exact ih

/-! ### The first operations -/

variable [WillowStore] {entry : AuthorisedEntry} {t : Tables}

omit [WillowStore] in
theorem longer_storeEntry {ns : NamespaceId} {n : Nat} (entry : AuthorisedEntry)
    (origin : EntryOrigin) :
    Spec (Longer ns n) (storeEntry entry origin) (fun _ => Longer ns n) fun _ => Longer ns n := by
  unfold storeEntry
  refine Spec.bind (longer_tryAddEntryAuthToken _) fun _ => ?_
  refine Spec.bind (longer_update fun _ hs => hs) fun _ => ?_
  refine Spec.bind (Q := fun _ => Longer ns n) (Spec.action fun s hs => hs.insertEvent _ _ _)
    fun _ => ?_
  exact longer_update fun _ hs => hs

omit [WillowStore] in
/-- The second operation of the loop deletes the candidate; when it fails,
nothing has changed. -/
theorem tryPruneCandidates_one {kv : Point × StoredAuthorisedEntry}
    (hlt : kv.1.y < entry.entry.timestamp) (rest : List (Point × StoredAuthorisedEntry))
    (s : Scratch) : ∃ e left,
      tryPruneCandidates entry (kv :: rest) (some 1) s = (.error e, left, s) := by
  obtain ⟨pos, candidate⟩ := kv
  rw [tryPruneCandidates_read rest 0 s]
  cases hread : readStored s.tables entry.entry.namespaceId pos candidate with
  | error e => exact ⟨_, _, rfl⟩
  | ok pruned =>
      dsimp only
      rw [if_pos (isNewerThan_of_readStored hlt hread)]
      exact ⟨_, _, rfl⟩

omit [WillowStore] in
/-- Once the candidate is deleted, its event is logged. -/
theorem tryPruneCandidates_two {kv : Point × StoredAuthorisedEntry}
    (hlt : kv.1.y < entry.entry.timestamp) (rest : List (Point × StoredAuthorisedEntry)) (k : Nat)
    (s : Scratch) :
    (∃ e left, tryPruneCandidates entry (kv :: rest) (some (k + 2)) s =
        (.error (.store e), left, s)) ∨
      ∃ s', Longer entry.entry.namespaceId
          (s.tables.namespaceEvents entry.entry.namespaceId).events.length s' ∧
        tryPruneCandidates entry (kv :: rest) (some (k + 2)) s =
          (tryRemoveEntryAuthToken kv.2.authorisationTokenId >>= fun _ =>
            tryPruneCandidates entry rest) (some k) s' := by
  obtain ⟨pos, candidate⟩ := kv
  rw [tryPruneCandidates_read rest (k + 1) s]
  cases hread : readStored s.tables entry.entry.namespaceId pos candidate with
  | error e => exact Or.inl ⟨_, _, rfl⟩
  | ok pruned =>
      dsimp only
      rw [if_pos (isNewerThan_of_readStored hlt hread)]
      refine Or.inr ⟨⟨s.tables.insertEvent entry.entry.namespaceId (.pruned · pruned entry),
        s.node.erase pos⟩, ?_, rfl⟩
      simp [Longer, Tables.insertEvent, EventQueue.insert]

/-- The five operations after an empty loop: the token is stored, its count is
read and written, the entry is inserted, the root is written. -/
theorem tryIngest_of_nil {c : IngestCall} {k : Nat} (hleft : c.left = some (k + 2))
    (hnil : prunedBy t c.entry = []) :
    t.tryIngest c = match storeEntry c.entry c.origin (some k)
        ⟨t, t.node c.entry.entry.namespaceId⟩ with
      | (.ok (), _, s) => (.ok true, s.tables)
      | (.error e, _, s) => (.error e, s.tables) := by
  unfold Tables.tryIngest
  rw [hleft, ingestClosure_of_two, hnil]
  rfl

/-- Before its first change a failing call changes nothing. -/
theorem tryIngest_of_beforeChange {c : IngestCall} {k : Nat} (hleft : c.left = some k)
    (hbefore : BeforeChange t c.entry k) : (t.tryIngest c).2 = t := by
  by_cases hk : k < 2
  · rw [tryIngest_of_lt_two hleft hk]
  obtain ⟨j, rfl⟩ : ∃ j, k = j + 2 := ⟨k - 2, by omega⟩
  unfold BeforeChange at hbefore
  cases hcandidates : prunedBy t c.entry with
  | nil =>
      rw [hcandidates] at hbefore
      rw [tryIngest_of_nil hleft hcandidates]
      dsimp only at hbefore
      rcases j with _ | _ | _ | j
      · rfl
      · -- the token is stored; it must have been there
        split at hbefore
        · rename_i hstored
          show t.setAuthToken _ _ = t
          rw [Tables.setAuthToken, ← hstored, Function.update_eq_self]
        · omega
      · split at hbefore
        · rename_i hstored
          show t.setAuthToken _ _ = t
          rw [Tables.setAuthToken, ← hstored, Function.update_eq_self]
        · omega
      · split at hbefore <;> omega
  | cons kv rest =>
      rw [hcandidates] at hbefore
      have hlt : kv.1.y < c.entry.entry.timestamp :=
        timestamp_lt_of_mem_prunedBy (hcandidates ▸ List.mem_cons_self)
      unfold Tables.tryIngest
      rw [hleft, ingestClosure_of_two, hcandidates, bind_apply]
      rcases j with _ | _ | j
      · rfl
      · obtain ⟨e, left, heq⟩ :=
          tryPruneCandidates_one hlt rest ⟨t, t.node c.entry.entry.namespaceId⟩
        rw [heq]
      · exact absurd hbefore (by dsimp only; omega)

omit [WillowStore] in
/-- A raised count differs from the old one. -/
theorem not_alike_of_raised {t' : Tables} {signature : UserSignature}
    (hcount : t'.authTokenRefcount signature =
      some (match t.authTokenRefcount signature with
        | none => 1
        | some refcount => refcount + 1)) : ¬ Alike t t' := by
  intro halike
  rw [halike.authTokenRefcount] at hcount
  cases hold : t.authTokenRefcount signature <;> simp [hold] at hcount

/-- After its first change a failing call leaves a trace: an event, or a count
that was raised. -/
theorem not_alike_of_change {c : IngestCall} {k : Nat} (hleft : c.left = some k)
    (hfail : (t.tryIngest c).1 = .error .operation) (hafter : ¬ BeforeChange t c.entry k) :
    ¬ Alike t (t.tryIngest c).2 := by
  intro halike
  -- the first two operations change nothing
  have hk : 2 ≤ k := by
    by_contra hlt
    refine hafter ?_
    unfold BeforeChange
    split
    · omega
    · split <;> omega
  obtain ⟨j, rfl⟩ : ∃ j, k = j + 2 := ⟨k - 2, by omega⟩
  unfold BeforeChange at hafter
  cases hcandidates : prunedBy t c.entry with
  | nil =>
      rw [hcandidates] at hafter
      dsimp only at hafter
      rw [tryIngest_of_nil hleft hcandidates] at halike hfail
      -- the token is stored, and then its count is raised
      rcases j with _ | _ | _ | _ | _ | j
      · split at hafter <;> omega
      · split at hafter
        · omega
        · rename_i hstored
          refine hstored ?_
          rw [← halike.authTokens]
          exact Function.update_self _ _ _
      · split at hafter
        · omega
        · rename_i hstored
          refine hstored ?_
          rw [← halike.authTokens]
          exact Function.update_self _ _ _
      · exact not_alike_of_raised (Function.update_self _ _ _) halike
      · exact not_alike_of_raised (Function.update_self _ _ _) halike
      · cases hfail
  | cons kv rest =>
      rw [hcandidates] at hafter
      have hlt : kv.1.y < c.entry.entry.timestamp :=
        timestamp_lt_of_mem_prunedBy (hcandidates ▸ List.mem_cons_self)
      obtain ⟨m, rfl⟩ : ∃ m, j = m + 2 := ⟨j - 2, by dsimp only at hafter; omega⟩
      -- the event of the first pruned entry is logged by now
      have hevents := halike.events c.entry.entry.namespaceId
      unfold Tables.tryIngest at hfail hevents
      rw [hleft, ingestClosure_of_two, hcandidates] at hfail hevents
      rcases tryPruneCandidates_two hlt rest m ⟨t, t.node c.entry.entry.namespaceId⟩ with
        ⟨e, left, heq⟩ | ⟨s', hlonger, heq⟩
      · -- the first candidate does not read back: not a failing operation
        rw [bind_apply, heq] at hfail
        cases hfail
      · have hrest := Spec.bind (Spec.bind (longer_tryRemoveEntryAuthToken
            kv.2.authorisationTokenId) fun _ => longer_tryPruneCandidates c.entry rest)
          (fun _ => longer_storeEntry c.entry c.origin) (some m) s' hlonger
        rw [bind_apply, heq, ← bind_apply] at hevents
        rcases hrun : (((tryRemoveEntryAuthToken kv.2.authorisationTokenId >>= fun _ =>
            tryPruneCandidates c.entry rest) >>= fun _ => storeEntry c.entry c.origin) (some m) s')
            with ⟨e | ⟨⟩, left, s⟩
        · rw [hrun] at hrest hevents
          have hlong : Longer _ _ s := hrest.2 e s rfl rfl
          exact absurd (congrArg List.length hevents) hlong.ne'
        · rw [hrun] at hrest hevents
          have hlong : Longer _ _ s := hrest.1 () s rfl rfl
          exact absurd (congrArg List.length hevents) hlong.ne'

end Trace

/-! ## Whole runs -/

section Runs

variable [Meadowcap]

/-- Two stores show alike tables. -/
def AlikeStores (s s' : WillowDb) : Prop :=
  ∃ t t', s.Shows t ∧ s'.Shows t' ∧ Alike t t'

omit [Meadowcap] in
/-- The cache stands for one value. -/
theorem Db.Holds.unique {δ : Type} {db : Db δ} {a b : δ} (ha : db.Holds a) (hb : db.Holds b) :
    a = b := by
  cases htx : db.tx with
  | none => exact (ha.closed (by simp [htx])).1.symm.trans (hb.closed (by simp [htx])).1
  | write w => exact (ha.write w htx).1.symm.trans (hb.write w htx).1
  | read tables => exact (ha.closed (by simp [htx])).1.symm.trans (hb.closed (by simp [htx])).1

theorem WillowDb.Shows.unique {s : WillowDb} {t t' : Tables} (h : s.Shows t) (h' : s.Shows t') :
    t = t' := by
  have hcontents := h.holds.unique h'.holds
  have hevents := h.events.symm.trans h'.events
  cases t
  cases t'
  simp only [Tables.contents, Contents.mk.injEq] at hcontents
  obtain ⟨rfl, rfl, rfl⟩ := hcontents
  obtain rfl := hevents
  rfl

variable [WillowStore]

/-- **A failed ingestion leaves no trace, exactly.** For every state of the store
and every call that ends because one of its operations failed: whatever is done
and committed afterwards, the store shows the same entries, tokens and events
as if the call had not been made, if and only if the operation came before the
first change. -/
theorem failed_ingest_leaves_no_trace_iff (s s' : WillowDb) (t : Tables) (hs : s.Shows t)
    (now : Nat) (c : IngestCall) (k : Nat) (hleft : c.left = some k)
    (hfail : s.ingestEntry now c = .ok (.error .operation, s')) :
    (∀ later, ∃ u u', s.run later = .ok u ∧ s'.run later = .ok u' ∧ AlikeStores u u') ↔
      BeforeChange t c.entry k := by
  obtain ⟨s'', hs'', hshows⟩ := hs.ingestEntry now c
  rw [hfail] at hs''
  obtain ⟨herr, rfl⟩ := Prod.mk.inj (Except.ok.inj hs'')
  constructor
  · intro hall
    -- nothing needs to happen afterwards
    obtain ⟨u, u', hu, hu', t₁, t₂, h₁, h₂, halike⟩ := hall []
    obtain rfl := Except.ok.inj hu
    obtain rfl := Except.ok.inj hu'
    rw [h₁.unique hs, h₂.unique hshows] at halike
    by_contra hafter
    exact not_alike_of_change hleft herr.symm hafter halike
  · intro hbefore later
    rw [tryIngest_of_beforeChange hleft hbefore] at hshows
    obtain ⟨u, hu, hushows⟩ := hs.run later
    obtain ⟨u', hu', hushows'⟩ := hshows.run later
    exact ⟨u, u', hu, hu', _, _, hushows, hushows', fun _ _ => rfl, rfl, rfl, fun _ => rfl⟩

end Runs

/-! ### Failing calls -/

section Samples

open IrohWillow.Sample

attribute [local instance] acceptingSignatures Persistent.Sample.appendZero

/-- A store with one entry at the root. -/
def oneEntry : Tables := (({} : Tables).tryIngest
  { entry := (signedAt 1 1).1, origin := .localOrigin }).2

/-- The same, committed. -/
def oneEntryDb : WillowDb :=
  { db := { redb := { initial := oneEntry.contents } }
    namespaceEvents := oneEntry.namespaceEvents }

theorem oneEntryDb_shows : oneEntryDb.Shows oneEntry := ⟨Db.Holds.start _, rfl⟩

/-- A newer entry for the same path, with an operation that fails. -/
def newerEntry (left : Nat) : IngestCall :=
  { entry := (signedAt 2 2).1, origin := .localOrigin, left := some left }

theorem tryIngest_newerEntry (left : Nat) (h : left < 10) :
    (oneEntry.tryIngest (newerEntry left)).1 = .error .operation := by
  revert left
  decide

/-- When the token of the newer entry cannot be written, the older entry has
been reported as pruned, and its token is gone. -/
theorem failed_ingest_leaves_trace :
    ¬ ∀ (_ : Meadowcap) (_ : WillowStore) (s s' : WillowDb) (t : Tables), s.Shows t →
      ∀ now c, s.ingestEntry now c = .ok (.error .operation, s') →
      ∀ later, ∃ u u', s.run later = .ok u ∧ s'.run later = .ok u' ∧ AlikeStores u u' := by
  intro h
  obtain ⟨s', hs', hshows⟩ := oneEntryDb_shows.ingestEntry 0 (newerEntry 7)
  rw [tryIngest_newerEntry 7 (by decide)] at hs'
  obtain ⟨u, u', hu, hu', t₁, t₂, h₁, h₂, halike⟩ := h acceptingSignatures
    Persistent.Sample.appendZero oneEntryDb s' oneEntry oneEntryDb_shows 0 (newerEntry 7) hs' []
  obtain rfl := Except.ok.inj hu
  obtain rfl := Except.ok.inj hu'
  rw [h₁.unique oneEntryDb_shows, h₂.unique hshows] at halike
  have htokens : (oneEntry.tryIngest (newerEntry 7)).2.authTokens (.ofByte 1) = none := by decide
  rw [halike.authTokens] at htokens
  exact absurd htokens (by decide)

/-- When the older entry cannot be deleted, nothing has happened yet. -/
theorem failed_ingest_leaves_no_trace_early :
    ∃ s', oneEntryDb.ingestEntry 0 (newerEntry 3) = .ok (.error .operation, s') ∧
      ∀ later, ∃ u u', oneEntryDb.run later = .ok u ∧ s'.run later = .ok u' ∧
        AlikeStores u u' := by
  obtain ⟨s', hs', -⟩ := oneEntryDb_shows.ingestEntry 0 (newerEntry 3)
  rw [tryIngest_newerEntry 3 (by decide)] at hs'
  refine ⟨s', hs', (failed_ingest_leaves_no_trace_iff oneEntryDb s' oneEntry oneEntryDb_shows 0
    (newerEntry 3) 3 rfl hs').mpr ?_⟩
  have hpruned : prunedBy oneEntry (newerEntry 3).entry =
      [((signedAt 1 1).1.entry.point, .fromAuthorisedEntry (signedAt 1 1).1)] := by decide
  unfold BeforeChange
  rw [hpruned]

end Samples

end IrohWillow.Persistent
