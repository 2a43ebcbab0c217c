import IrohWillow.Store.Persistent
import IrohWillow.Store.SplitPartition

/-!
# The representation of stored points

`store/willow_store_glue.rs` with the bytes that `willow_store` compares: a
timestamp is stored as eight big-endian bytes, a path as the sequence of its
components, and both are turned back when a point or a query range is read. The
tree of `Store.WillowStoreGlue` keeps its points undecoded; here is why this
makes no difference to a query, and what a fingerprint hashes of a stored point.
-/

namespace IrohWillow

/-! ## Big-endian bytes -/

/-- The last `n` big-endian bytes of a number. -/
def beBytes : Nat → Nat → List Byte
  | 0, _ => []
  | n + 1, v => beBytes n (v / 256) ++ [Fin.ofNat 256 v]

@[simp] theorem length_beBytes (n v : Nat) : (beBytes n v).length = n := by
  induction n generalizing v with
  | zero => rfl
  | succ n ih => simp [beBytes, ih]

theorem beNat_beBytes {n v : Nat} (h : v < 256 ^ n) : beNat (beBytes n v) = v := by
  induction n generalizing v with
  | zero =>
      have hv : v = 0 := by simpa using h
      rw [hv]
      rfl
  | succ n ih =>
      have hdiv : v / 256 < 256 ^ n := by
        rw [pow_succ] at h
        omega
      rw [beBytes, beNat_append_singleton, ih hdiv]
      show v / 256 * 256 + v % 256 = v
      omega

/-! ## Timestamps -/

/-- `StoredTimestamp`. -/
structure StoredTimestamp where
  bytes : Bytes 8
  deriving DecidableEq

namespace StoredTimestamp

theorem bytes_injective : Function.Injective bytes := by
  rintro ⟨a⟩ ⟨b⟩ h
  simpa using h

/-- The derived `Ord`: that of the bytes. -/
instance linearOrder : LinearOrder StoredTimestamp := LinearOrder.lift' bytes bytes_injective

/-- `StoredTimestamp::new`. -/
def new (ts : Timestamp) : StoredTimestamp := ⟨⟨beBytes 8 ts.val, length_beBytes 8 _⟩⟩

/-- `StoredTimestamp::timestamp`. -/
def timestamp (ts : StoredTimestamp) : Timestamp := Fin.ofNat (2 ^ 64) (beNat ts.bytes.toList)

theorem beNat_new (ts : Timestamp) : beNat (new ts).bytes.toList = ts.val :=
  beNat_beBytes (by simp)

/-- A timestamp is read back from its bytes. -/
@[simp] theorem timestamp_new (ts : Timestamp) : (new ts).timestamp = ts := by
  rw [timestamp, beNat_new]
  exact Fin.ofNat_val_eq_self ts

/-- Big-endian bytes are ordered like the numbers they spell. -/
@[simp] theorem new_lt_new_iff {a b : Timestamp} : new a < new b ↔ a < b := by
  show (new a).bytes.toList < (new b).bytes.toList ↔ a < b
  rw [lt_iff_beNat_lt (by rw [Bytes.length_eq, Bytes.length_eq]), beNat_new, beNat_new]
  exact Iff.rfl

@[simp] theorem new_le_new_iff {a b : Timestamp} : new a ≤ new b ↔ a ≤ b := by
  rw [← not_lt, new_lt_new_iff, not_lt]

end StoredTimestamp

/-! ## Paths -/

/-- `Component`: a byte string within the limit. -/
structure Component where
  bytes : List Byte
  length_le : bytes.length ≤ maxComponentLength

/-- `Component::new`. -/
def Component.new (bytes : List Byte) : Option Component :=
  if h : bytes.length ≤ maxComponentLength then some ⟨bytes, h⟩ else none

theorem Path.componentLength_map (components : List Component) :
    ∀ c ∈ components.map Component.bytes, c.length ≤ maxComponentLength := by
  intro c hc
  obtain ⟨component, -, rfl⟩ := List.mem_map.mp hc
  exact component.length_le

/-- `Path::new_from_iter`, with the total length of the components. -/
def Path.newFromIter (components : List Component) : Option Path :=
  if h : (components.map Component.bytes).length ≤ maxComponentCount ∧
      ((components.map Component.bytes).map List.length).sum ≤ maxPathLength then
    some ⟨components.map Component.bytes, componentLength_map components, h.1, h.2⟩
  else none

/-- `blobseq_to_path`. -/
def blobseqToPath (blobseq : BlobSeq) : Option Path :=
  (blobseq.mapM Component.new).bind Path.newFromIter

theorem mapM_componentNew {l : List (List Byte)} (h : ∀ c ∈ l, c.length ≤ maxComponentLength) :
    ∃ components, l.mapM Component.new = some components ∧
      components.map Component.bytes = l := by
  induction l with
  | nil => exact ⟨[], rfl, rfl⟩
  | cons c l ih =>
      obtain ⟨components, hmap, hbytes⟩ := ih fun d hd => h d (List.mem_cons_of_mem _ hd)
      have hnew : Component.new c = some ⟨c, h c List.mem_cons_self⟩ :=
        dif_pos (h c List.mem_cons_self)
      refine ⟨⟨c, h c List.mem_cons_self⟩ :: components, ?_, ?_⟩
      · rw [List.mapM_cons, hnew, hmap]
        rfl
      · rw [List.map_cons, hbytes]

/-- The limits hold again for the components of a path. -/
@[simp] theorem blobseqToPath_pathToBlobseq (path : Path) :
    blobseqToPath (pathToBlobseq path) = some path := by
  obtain ⟨components, hmap, hbytes⟩ := mapM_componentNew path.componentLength
  rw [blobseqToPath, pathToBlobseq, hmap, Option.bind_some, Path.newFromIter, dif_pos]
  · congr 1
    exact Path.components_injective hbytes
  · rw [hbytes]
    exact ⟨path.componentCount, path.pathLength⟩

/-! ## Points and queries -/

/-- The point under which `willow_store` has an entry. -/
structure StoredPoint where
  x : SubspaceId
  y : StoredTimestamp
  z : BlobSeq
  deriving DecidableEq

/-- The stored form of a point. -/
def Point.stored (p : Point) : StoredPoint := ⟨p.x, .new p.y, pathToBlobseq p.z⟩

/-- `QueryRange3d`, in the stored coordinates. -/
structure StoredQuery where
  x : QueryRange SubspaceId
  y : QueryRange StoredTimestamp
  z : QueryRange BlobSeq
  deriving DecidableEq

/-- Whether a stored point is in a query range. -/
def StoredQuery.Includes (q : StoredQuery) (p : StoredPoint) : Prop :=
  q.x.Includes p.x ∧ q.y.Includes p.y ∧ q.z.Includes p.z

instance StoredQuery.Includes.decidable (q : StoredQuery) (p : StoredPoint) :
    Decidable (q.Includes p) := inferInstanceAs (Decidable (_ ∧ _ ∧ _))

/-- `map_range`. -/
def mapRange {α β : Type} (range : Range α) (f : α → β) : Range β :=
  { start := f range.start
    stop := match range.stop with
      | .closed stop => .closed (f stop)
      | .opened => .opened }

/-- `to_query`. -/
def toStoredQuery (range : Range3d) : StoredQuery :=
  { x := toQueryRange id range.subspaces
    y := toQueryRange id (mapRange range.times StoredTimestamp.new)
    z := toQueryRange pathToBlobseq range.paths }

/-- `to_range`. -/
def toRange {α : Type} (q : QueryRange α) : Range α :=
  ⟨q.min, match q.max with
    | some max => .closed max
    | none => .opened⟩

/-- `to_range3d`; `none` is the error of `blobseq_to_path`. -/
def toRange3d (q : StoredQuery) : Option Range3d :=
  let pathMax : Option (RangeEnd Path) := match q.z.max with
    | some max => (blobseqToPath max).map .closed
    | none => some .opened
  pathMax.bind fun stop =>
    (blobseqToPath q.z.min).map fun start =>
      { subspaces := toRange q.x
        paths := ⟨start, stop⟩
        times := ⟨q.y.min.timestamp, match q.y.max with
          | some max => .closed max.timestamp
          | none => .opened⟩ }

/-- An order embedding preserves membership in a range. -/
theorem toQueryRange_includes {α β : Type} [LinearOrder α] [LinearOrder β] {f : α → β}
    (hf : ∀ a b, f a ≤ f b ↔ a ≤ b) {range : Range α} {v : α} :
    (toQueryRange f range).Includes (f v) ↔ range.Includes v := by
  have hlt : ∀ a b, f a < f b ↔ a < b := fun a b => by rw [← not_le, hf, not_le]
  obtain ⟨start, stop⟩ := range
  cases stop with
  | closed stop => simp [toQueryRange, QueryRange.Includes, Range.Includes, hf, hlt]
  | opened => simp [toQueryRange, QueryRange.Includes, Range.Includes, hf]

theorem pathToBlobseq_le_iff {a b : Path} : pathToBlobseq a ≤ pathToBlobseq b ↔ a ≤ b := Iff.rfl

theorem toQueryRange_mapRange {α β : Type} (f : α → β) (range : Range α) :
    toQueryRange id (mapRange range f) = toQueryRange f range := by
  obtain ⟨start, stop⟩ := range
  cases stop <;> rfl

/-- A stored point is in the query of a range exactly when the range includes the point. -/
theorem toStoredQuery_includes_iff {range : Range3d} {p : Point} :
    (toStoredQuery range).Includes p.stored ↔ range.IncludesPoint p := by
  have hx : (toStoredQuery range).x.Includes p.x ↔ range.subspaces.Includes p.x :=
    toQueryRange_includes (f := id) fun _ _ => Iff.rfl
  have hy : (toStoredQuery range).y.Includes (.new p.y) ↔ range.times.Includes p.y := by
    show (toQueryRange id (mapRange range.times StoredTimestamp.new)).Includes _ ↔ _
    rw [toQueryRange_mapRange]
    exact toQueryRange_includes fun _ _ => StoredTimestamp.new_le_new_iff
  have hz : (toStoredQuery range).z.Includes (pathToBlobseq p.z) ↔ range.paths.Includes p.z :=
    toQueryRange_includes fun _ _ => pathToBlobseq_le_iff
  rw [StoredQuery.Includes, Range3d.IncludesPoint]
  exact (and_congr hx (and_congr hy hz)).trans (and_congr_right fun _ => and_comm)

/-- A query range is translated back to the range it was made of. -/
theorem toRange3d_toStoredQuery (range : Range3d) :
    toRange3d (toStoredQuery range) = some range := by
  obtain ⟨⟨subspaceStart, subspaceStop⟩, ⟨pathStart, pathStop⟩, ⟨timeStart, timeStop⟩⟩ := range
  cases subspaceStop <;> cases pathStop <;> cases timeStop <;>
    simp [toRange3d, toStoredQuery, toQueryRange, mapRange, toRange]

/-! ## Stored entries -/

/-- `StoredAuthorisedEntry::into_entry`; `none` is the error of `blobseq_to_path`. -/
def StoredAuthorisedEntry.intoEntryAt (v : StoredAuthorisedEntry) (namespaceId : NamespaceId)
    (key : StoredPoint) : Option Entry :=
  (blobseqToPath key.z).map fun path =>
    { namespaceId := namespaceId
      subspaceId := key.x
      path := path
      timestamp := key.y.timestamp
      payloadLength := v.payloadSize
      payloadDigest := v.payloadDigest }

/-- Reading a stored point is reading the point it was made of. -/
theorem StoredAuthorisedEntry.intoEntryAt_stored (v : StoredAuthorisedEntry)
    (namespaceId : NamespaceId) (p : Point) :
    v.intoEntryAt namespaceId p.stored = some (v.intoEntry namespaceId p) := by
  simp [intoEntryAt, Point.stored, intoEntry]

/-- `StoredAuthorisedEntry::from_authorised_entry`: the point and the stored value. -/
def storedEntry [Meadowcap] (a : AuthorisedEntry) : StoredPoint × StoredAuthorisedEntry :=
  (a.entry.point.stored, .fromAuthorisedEntry a)

/-- **Ranges and entries are translated exactly**: the stored point of an entry
lies in the query of a range exactly when the range includes the entry, the
query is translated back to the range, and the entry is read back. -/
theorem translation_exact [Meadowcap] (a : AuthorisedEntry) (range : Range3d) :
    ((toStoredQuery range).Includes (storedEntry a).1 ↔ range.IncludesEntry a.entry) ∧
      toRange3d (toStoredQuery range) = some range ∧
      (storedEntry a).2.intoEntryAt a.entry.namespaceId (storedEntry a).1 = some a.entry := by
  refine ⟨toStoredQuery_includes_iff, toRange3d_toStoredQuery range, ?_⟩
  exact StoredAuthorisedEntry.intoEntryAt_stored _ _ _

end IrohWillow
