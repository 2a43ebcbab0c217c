import IrohWillow.Store.Traits
import IrohWillow.Store.WillowStoreGlue

/-!
# The persistent store

`WillowStore` of `store/persistent.rs`: one tree for each namespace, a table of
authorisation tokens with a table of their reference counts, and an in-memory
event queue for each namespace. Failing operations return the state they leave
behind next to their error.
-/

namespace IrohWillow.Persistent

/-- The errors of the store's own code. -/
inductive StoreError where
  /-- `couldn't find authorisation token id (database inconsistent)` -/
  | missingAuthToken
  /-- `inconsistent database state` -/
  | inconsistentState
  /-- `UnauthorisedWriteError` -/
  | unauthorisedWrite
  deriving DecidableEq, Repr

section Model

variable [Meadowcap] [WillowStore]

/-- The tables of the database and the event queues. -/
structure Tables where
  namespaceNodes : NamespaceId → Option Node := fun _ => none
  authTokens : UserSignature → Option McCapability := fun _ => none
  authTokenRefcount : UserSignature → Option Nat := fun _ => none
  namespaceEvents : NamespaceId → EventQueue StoreEvent := fun _ => {}

/-! ## Authorisation tokens -/

namespace Tables

/-- `add_entry_auth_token`. -/
def addEntryAuthToken (t : Tables) (token : AuthorisationToken) : Tables :=
  { t with
    authTokens := Function.update t.authTokens token.signature (some token.capability)
    authTokenRefcount := Function.update t.authTokenRefcount token.signature
      (some (match t.authTokenRefcount token.signature with
        | none => 1
        | some refcount => refcount + 1)) }

/-- `get_entry_auth_token`. -/
def getEntryAuthToken (t : Tables) (key : UserSignature) : Except StoreError AuthorisationToken :=
  match t.authTokens key with
  | none => .error .missingAuthToken
  | some capability => .ok ⟨capability, key⟩

/-- `remove_entry_auth_token`. The decremented count is only acted on when it
is zero; otherwise it is not written back. -/
def removeEntryAuthToken (t : Tables) (key : UserSignature) : Except StoreError Unit × Tables :=
  match t.authTokenRefcount key with
  | none => (.ok (), t)
  | some refcount =>
      if refcount - 1 = 0 then
        let t' := { t with authTokens := Function.update t.authTokens key none }
        match t.authTokens key with
        | none => (.error .inconsistentState, t')
        | some _ =>
            (.ok (), { t' with
              authTokenRefcount := Function.update t.authTokenRefcount key none })
      else (.ok (), t)

/-- Add an event of a namespace. -/
def insertEvent (t : Tables) (ns : NamespaceId) (f : Nat → StoreEvent) : Tables :=
  { t with namespaceEvents :=
      Function.update t.namespaceEvents ns ((t.namespaceEvents ns).insert f) }

end Tables

/-! ## Reading -/

/-- How a stored entry and its token are made an authorised entry. -/
abbrev Authorise := StoredAuthorisedEntry → NamespaceId → Point → AuthorisationToken →
  Option AuthorisedEntry

/-- Read back one stored entry. -/
def readStoredBy (authorise : Authorise) (t : Tables) (ns : NamespaceId) (point : Point)
    (v : StoredAuthorisedEntry) : Except StoreError AuthorisedEntry :=
  match t.getEntryAuthToken v.authorisationTokenId with
  | .error e => .error e
  | .ok token =>
      match authorise v ns point token with
      | none => .error .unauthorisedWrite
      | some a => .ok a

/-- Read back one stored entry with `into_authorised_entry`. -/
def readStored (t : Tables) (ns : NamespaceId) (point : Point) (v : StoredAuthorisedEntry) :
    Except StoreError AuthorisedEntry :=
  readStoredBy StoredAuthorisedEntry.intoAuthorisedEntry t ns point v

/-- `get_authorised_entries`: every item of the iterator may fail. -/
def Tables.getAuthorisedEntries (t : Tables) (ns : NamespaceId) (range : Range3d) :
    List (Except StoreError AuthorisedEntry) :=
  match t.namespaceNodes ns with
  | none => []
  | some node => (node.query (toQuery range)).map fun kv => readStored t ns kv.1 kv.2

/-- `SortOrder::YZX`: by time, then by path, then by subspace. -/
def yzxLe (a b : Point × StoredAuthorisedEntry) : Bool :=
  decide (a.1.y < b.1.y) || decide (a.1.y = b.1.y) &&
    (decide (pathToBlobseq a.1.z < pathToBlobseq b.1.z) ||
      decide (pathToBlobseq a.1.z = pathToBlobseq b.1.z) && decide (a.1.x ≤ b.1.x))

/-- `get_entry`: the last result of an ordered query at one subspace and one
path. `BlobSeq::immediate_successor` is a parameter. -/
def Tables.getEntry (immediateSuccessor : BlobSeq → BlobSeq) (t : Tables) (ns : NamespaceId)
    (subspace : SubspaceId) (path : Path) : Except StoreError (Option AuthorisedEntry) :=
  match t.namespaceNodes ns with
  | none => .ok none
  | some node =>
      let range : QueryRange3d :=
        { x := ⟨subspace, UserId.successor subspace⟩
          y := ⟨0, none⟩
          z := ⟨pathToBlobseq path, some (immediateSuccessor (pathToBlobseq path))⟩ }
      match ((node.query range).mergeSort yzxLe).getLast? with
      | none => .ok none
      | some (point, stored) => (readStored t ns point stored).map some

/-! ## Ingestion -/

/-- The range that `ingest_entry` searches for entries to prune: the subspace
of the entry, all timestamps strictly below its own, the extensions of its
path. -/
def overwrittenRange (entry : Entry) : QueryRange3d :=
  { x := ⟨entry.subspaceId, UserId.successor entry.subspaceId⟩
    y := ⟨0, some entry.timestamp⟩
    z := ⟨pathToBlobseq entry.path, WillowStore.subseqSuccessor (pathToBlobseq entry.path)⟩ }

/-- The loop of `ingest_entry` over the prune candidates. -/
def pruneCandidatesBy (authorise : Authorise) (entry : AuthorisedEntry) :
    List (Point × StoredAuthorisedEntry) → Node → Tables → Except StoreError Unit × Node × Tables
  | [], node, t => (.ok (), node, t)
  | (prunePos, candidate) :: rest, node, t =>
      match readStoredBy authorise t entry.entry.namespaceId prunePos candidate with
      | .error e => (.error e, node, t)
      | .ok pruned =>
          if entry.entry.IsNewerThan pruned.entry then
            let t' := t.insertEvent entry.entry.namespaceId fun id => .pruned id pruned entry
            match t'.removeEntryAuthToken candidate.authorisationTokenId with
            | (.error e, t'') => (.error e, node.erase prunePos, t'')
            | (.ok (), t'') => pruneCandidatesBy authorise entry rest (node.erase prunePos) t''
          else pruneCandidatesBy authorise entry rest node t

/-- The loop of `ingest_entry` with `into_authorised_entry`. -/
def pruneCandidates (entry : AuthorisedEntry) (candidates : List (Point × StoredAuthorisedEntry))
    (node : Node) (t : Tables) : Except StoreError Unit × Node × Tables :=
  pruneCandidatesBy StoredAuthorisedEntry.intoAuthorisedEntry entry candidates node t

/-- `WillowStore::ingest_entry`, given how it reads stored entries back. -/
def Tables.ingestEntryBy (authorise : Authorise) (t : Tables) (entry : AuthorisedEntry)
    (origin : EntryOrigin) : Except StoreError Bool × Tables :=
  let ns := entry.entry.namespaceId
  let node := (t.namespaceNodes ns).getD ∅
  match pruneCandidatesBy authorise entry (node.query (overwrittenRange entry.entry)) node t with
  | (.error e, _, t') => (.error e, t')
  | (.ok (), node', t') =>
      let t' := t'.addEntryAuthToken entry.token
      let node' := node'.insert entry.entry.point (.fromAuthorisedEntry entry)
      let t' := t'.insertEvent ns fun id => .ingested id entry origin
      (.ok true, { t' with namespaceNodes := Function.update t'.namespaceNodes ns (some node') })

/-- `WillowStore::ingest_entry`. -/
def Tables.ingestEntry (t : Tables) (entry : AuthorisedEntry) (origin : EntryOrigin) :
    Except StoreError Bool × Tables :=
  t.ingestEntryBy StoredAuthorisedEntry.intoAuthorisedEntry entry origin

omit [WillowStore] in
theorem pruneCandidates_nil (entry : AuthorisedEntry) (node : Node) (t : Tables) :
    pruneCandidates entry [] node t = (.ok (), node, t) := rfl

omit [WillowStore] in
theorem pruneCandidates_cons (entry : AuthorisedEntry) (prunePos : Point)
    (candidate : StoredAuthorisedEntry) (rest : List (Point × StoredAuthorisedEntry))
    (node : Node) (t : Tables) :
    pruneCandidates entry ((prunePos, candidate) :: rest) node t =
      match readStored t entry.entry.namespaceId prunePos candidate with
      | .error e => (.error e, node, t)
      | .ok pruned =>
          if entry.entry.IsNewerThan pruned.entry then
            match (t.insertEvent entry.entry.namespaceId
                fun id => .pruned id pruned entry).removeEntryAuthToken
                  candidate.authorisationTokenId with
            | (.error e, t'') => (.error e, node.erase prunePos, t'')
            | (.ok (), t'') => pruneCandidates entry rest (node.erase prunePos) t''
          else pruneCandidates entry rest node t := rfl

theorem Tables.ingestEntry_eq (t : Tables) (entry : AuthorisedEntry) (origin : EntryOrigin) :
    t.ingestEntry entry origin =
      match pruneCandidates entry (((t.namespaceNodes entry.entry.namespaceId).getD ∅).query
          (overwrittenRange entry.entry))
          ((t.namespaceNodes entry.entry.namespaceId).getD ∅) t with
      | (.error e, _, t') => (.error e, t')
      | (.ok (), node', t') =>
          let t' := t'.addEntryAuthToken entry.token
          let node' := node'.insert entry.entry.point (.fromAuthorisedEntry entry)
          let t' := t'.insertEvent entry.entry.namespaceId fun id => .ingested id entry origin
          (.ok true, { t' with
            namespaceNodes := Function.update t'.namespaceNodes entry.entry.namespaceId
              (some node') }) := rfl

/-- Ingest a list of entries, one by one, whatever the calls return. -/
def Tables.ingestAll (t : Tables) (l : List (AuthorisedEntry × EntryOrigin)) : Tables :=
  l.foldl (fun t x => (t.ingestEntry x.1 x.2).2) t

@[simp] theorem Tables.ingestAll_concat (t : Tables) (l : List (AuthorisedEntry × EntryOrigin))
    (x : AuthorisedEntry × EntryOrigin) :
    t.ingestAll (l ++ [x]) = ((t.ingestAll l).ingestEntry x.1 x.2).2 := by
  simp [Tables.ingestAll]

end Model

/-! ## What the overwritten range holds -/

section Overwritten

variable [WillowStore] {entry : Entry}

omit [WillowStore] in
/-- The range from a subspace up to its successor holds that subspace only, also
for the largest one, which has no successor. -/
theorem successorRange_includes {subspace i : SubspaceId} :
    (QueryRange.mk subspace (UserId.successor subspace)).Includes i ↔ i = subspace := by
  simp only [QueryRange.Includes]
  cases hsucc : UserId.successor subspace with
  | none =>
      constructor
      · exact fun h => Bytes.eq_of_le_of_increment_none hsucc h.1
      · rintro rfl
        exact ⟨le_refl _, trivial⟩
  | some stop =>
      constructor
      · exact fun h => Bytes.eq_of_le_of_lt_increment hsucc h.1 h.2
      · rintro rfl
        exact ⟨le_refl _, Bytes.lt_increment hsucc⟩

/-- The candidates are the stored points in the subspace of the entry, at an
extension of its path, with a strictly smaller timestamp. -/
theorem overwrittenRange_includes (hspec : SubseqSuccessorSpec entry.path) {p : Point} :
    (overwrittenRange entry).Includes p ↔
      p.x = entry.subspaceId ∧ p.y < entry.timestamp ∧ entry.path.IsPrefixOf p.z := by
  have hx : (overwrittenRange entry).x.Includes p.x ↔ p.x = entry.subspaceId :=
    successorRange_includes
  have hy : (overwrittenRange entry).y.Includes p.y ↔ p.y < entry.timestamp := by
    simp [overwrittenRange, QueryRange.Includes]
  have hz := hspec p.z
  exact and_congr hx (and_congr hy hz)

end Overwritten

end IrohWillow.Persistent
