import IrohWillow.Proto.Meadowcap
import IrohWillow.Proto.Fingerprint

/-!
# The tree of the persistent store

What `store/willow_store_glue.rs` and `store/persistent.rs` use of the
`willow_store` crate: a node is a map from points to stored values, a query
lists the points of a three-dimensional range.

A point is kept here with its `Path`; `path_to_blobseq` is the list of its
components, ordered lexicographically like the path, so that
`blobseq_to_path` gives the same path back. `BlobSeq::subseq_successor` is a
parameter, in the class `WillowStore`.
-/

namespace IrohWillow

/-- A sequence of byte strings, ordered lexicographically. -/
abbrev BlobSeq := List (List Byte)

/-- `path_to_blobseq`. -/
def pathToBlobseq (path : Path) : BlobSeq := path.components

/-- A half-open range of a query; without `max` it is unbounded. -/
structure QueryRange (α : Type) where
  min : α
  max : Option α
  deriving DecidableEq

/-- Whether a value is in a query range. -/
def QueryRange.Includes {α : Type} [LinearOrder α] (q : QueryRange α) (v : α) : Prop :=
  q.min ≤ v ∧ match q.max with
    | some m => v < m
    | none => True

instance {α : Type} [LinearOrder α] (q : QueryRange α) (v : α) : Decidable (q.Includes v) :=
  match h : q.max with
  | some m => decidable_of_iff (q.min ≤ v ∧ v < m) (by simp [QueryRange.Includes, h])
  | none => decidable_of_iff (q.min ≤ v) (by simp [QueryRange.Includes, h])

/-- `QueryRange3d`. -/
structure QueryRange3d where
  x : QueryRange SubspaceId
  y : QueryRange Timestamp
  z : QueryRange BlobSeq
  deriving DecidableEq

/-- Whether a point is in a query range. -/
def QueryRange3d.Includes (q : QueryRange3d) (p : Point) : Prop :=
  q.x.Includes p.x ∧ q.y.Includes p.y ∧ q.z.Includes (pathToBlobseq p.z)

instance (q : QueryRange3d) (p : Point) : Decidable (q.Includes p) :=
  inferInstanceAs (Decidable (_ ∧ _ ∧ _))

/-- `to_query_range`. -/
def toQueryRange {α β : Type} (f : α → β) (range : Range α) : QueryRange β :=
  ⟨f range.start, match range.stop with
    | .closed stop => some (f stop)
    | .opened => none⟩

/-- `to_query`. -/
def toQuery (range : Range3d) : QueryRange3d :=
  { x := toQueryRange id range.subspaces
    y := toQueryRange id range.times
    z := toQueryRange pathToBlobseq range.paths }

/-- The functions of `willow_store` that are not spelled out here. -/
class WillowStore where
  /-- `BlobSeq::subseq_successor`. -/
  subseqSuccessor : BlobSeq → Option BlobSeq

/-- From a path up to its `subseq_successor` lie exactly its extensions. -/
def SubseqSuccessorSpec [WillowStore] (p : Path) : Prop :=
  ∀ x : Path, (QueryRange.mk (pathToBlobseq p)
    (WillowStore.subseqSuccessor (pathToBlobseq p))).Includes (pathToBlobseq x) ↔ p.IsPrefixOf x

/-! ## Stored values -/

/-- `StoredAuthorisedEntry`. -/
structure StoredAuthorisedEntry where
  authorisationTokenId : UserSignature
  payloadDigest : PayloadDigest
  payloadSize : U64
  deriving DecidableEq

namespace StoredAuthorisedEntry

/-- `StoredAuthorisedEntry::into_entry`. -/
def intoEntry (v : StoredAuthorisedEntry) (namespaceId : NamespaceId) (key : Point) : Entry :=
  { namespaceId := namespaceId
    subspaceId := key.x
    path := key.z
    timestamp := key.y
    payloadLength := v.payloadSize
    payloadDigest := v.payloadDigest }

variable [Meadowcap]

/-- The stored value of `StoredAuthorisedEntry::from_authorised_entry`; its
point is `Entry.point`. -/
def fromAuthorisedEntry (a : AuthorisedEntry) : StoredAuthorisedEntry :=
  { authorisationTokenId := a.token.signature
    payloadDigest := a.entry.payloadDigest
    payloadSize := a.entry.payloadLength }

/-- `StoredAuthorisedEntry::into_authorised_entry`. -/
def intoAuthorisedEntry (v : StoredAuthorisedEntry) (namespaceId : NamespaceId) (key : Point)
    (token : AuthorisationToken) : Option AuthorisedEntry :=
  AuthorisedEntry.new (v.intoEntry namespaceId key) token

/-- An entry is read back from its point and its stored value. -/
@[simp] theorem intoEntry_fromAuthorisedEntry (a : AuthorisedEntry) :
    (fromAuthorisedEntry a).intoEntry a.entry.namespaceId a.entry.point = a.entry := rfl

end StoredAuthorisedEntry

@[simp] theorem StoredAuthorisedEntry.point_intoEntry (v : StoredAuthorisedEntry)
    (namespaceId : NamespaceId) (key : Point) : (v.intoEntry namespaceId key).point = key := rfl

/-! ## Nodes -/

/-- The tree of one namespace. -/
abbrev Node := AList fun _ : Point => StoredAuthorisedEntry

/-- `Node::query`. -/
def Node.query (node : Node) (range : QueryRange3d) : List (Point × StoredAuthorisedEntry) :=
  (node.entries.filter fun kv => decide (range.Includes kv.1)).map fun kv => (kv.1, kv.2)

theorem Node.mem_query {node : Node} {range : QueryRange3d} {p : Point}
    {v : StoredAuthorisedEntry} :
    (p, v) ∈ node.query range ↔ node.lookup p = some v ∧ range.Includes p := by
  simp only [Node.query, List.mem_map, List.mem_filter, decide_eq_true_eq, Prod.mk.injEq]
  constructor
  · rintro ⟨⟨q, w⟩, ⟨hmem, hinc⟩, rfl, rfl⟩
    exact ⟨AList.mem_lookup_iff.mpr hmem, hinc⟩
  · rintro ⟨hlook, hinc⟩
    exact ⟨⟨p, v⟩, ⟨AList.mem_lookup_iff.mp hlook, hinc⟩, rfl, rfl⟩

theorem Node.nodup_query (node : Node) (range : QueryRange3d) :
    ((node.query range).map Prod.fst).Nodup := by
  rw [Node.query, List.map_map]
  exact (List.filter_sublist.map _).nodup node.keys_nodup

/-- Every point is in the full range. -/
theorem toQuery_full_includes (p : Point) : (toQuery .full).Includes p := by
  refine ⟨⟨?_, trivial⟩, ⟨Fin.zero_le _, trivial⟩, ?_, trivial⟩
  · calc List.replicate 32 0 = List.replicate p.x.toList.length 0 := by rw [p.x.length_eq]
      _ ≤ p.x.toList := replicate_zero_le _
  · exact Path.IsPrefixOf.le (p := .empty) List.nil_prefix

end IrohWillow
