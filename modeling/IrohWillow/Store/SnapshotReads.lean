import IrohWillow.Store.PersistentConvergence
import IrohWillow.Store.StoredPoints

/-!
# Reading from a snapshot

`fingerprint` and `get_entry` of `WillowSnapshot` (`store/persistent.rs`). The
fingerprint of a range is computed by `willow_store` from the stored points and
values, in whatever shape its tree has; it is the fingerprint that the default
method computes from the entries. The entry at a subspace and a path is the
last result of an ordered query; it is the newest one.
-/

namespace IrohWillow

/-! ## Hashing a stored point -/

/-- `iroh_blake3::Hasher`, and the bytes of a point in `willow_store`. -/
class Blake3Hasher where
  /-- `finalize`, after the bytes were written with `update`. -/
  hash : List Byte → Fingerprint
  /-- `PointRef::as_slice`. -/
  asSlice : StoredPoint → List Byte

/-- `u64::to_le_bytes`. -/
def toLeBytes (n : U64) : List Byte := (beBytes 8 n.val).reverse

namespace Fingerprint

variable [Blake3Hasher]

/-- `Fingerprint::lift_stored_entry`. -/
def liftStoredEntry (key : StoredPoint) (payloadDigest : PayloadDigest) (payloadSize : U64) :
    Fingerprint :=
  Blake3Hasher.hash (Blake3Hasher.asSlice key ++ payloadDigest.toList ++ toLeBytes payloadSize)

/-- `Fingerprint::lift_entry` makes the stored point of the entry first. -/
@[reducible] def hashStored : Blake3 where
  liftStoredEntry p := liftStoredEntry p.stored

/-- `LiftingCommutativeMonoid::lift`. -/
def lift (row : StoredPoint × StoredAuthorisedEntry) : Fingerprint :=
  liftStoredEntry row.1 row.2.payloadDigest row.2.payloadSize

end Fingerprint

/-- The points and values of a tree, as they are stored. -/
def Node.rows (node : Node) : List (StoredPoint × StoredAuthorisedEntry) :=
  node.entries.map fun kv => (kv.1.stored, kv.2)

/-- `Node::range_summary` combines the lift of every stored point of the query
range in some order and association, starting from the neutral element. -/
def RangeSummarySpec [Blake3Hasher]
    (rangeSummary : List (StoredPoint × StoredAuthorisedEntry) → StoredQuery → Fingerprint) :
    Prop :=
  ∀ rows q, ∃ shape : Summary.Bracketing (StoredPoint × StoredAuthorisedEntry),
    shape.leaves.Perm (rows.filter fun row => decide (q.Includes row.1)) ∧
    rangeSummary rows q = shape.summary (fun a b : Fingerprint => a ^^^ b) 0 Fingerprint.lift

namespace Persistent

/-- The entries in the tree of a namespace. -/
def Tables.storedEntries [Meadowcap] (t : Tables) (ns : NamespaceId) : List Entry :=
  (t.node ns).entries.map fun kv => kv.2.intoEntry ns kv.1

/-- `WillowSnapshot::fingerprint`. -/
def Tables.fingerprint [Meadowcap]
    (rangeSummary : List (StoredPoint × StoredAuthorisedEntry) → StoredQuery → Fingerprint)
    (t : Tables) (ns : NamespaceId) (range : Range3d) : Fingerprint :=
  match t.namespaceNodes ns with
  | none => 0
  | some node => rangeSummary node.rows (toStoredQuery range)

section Fingerprint

variable [Blake3Hasher]
  {rangeSummary : List (StoredPoint × StoredAuthorisedEntry) → StoredQuery → Fingerprint}

attribute [local instance] Fingerprint.hashStored

/-- The rows of a tree in the query of a range are its entries in the range. -/
theorem map_lift_rows (node : Node) (ns : NamespaceId) (range : Range3d) :
    (node.rows.filter fun row => decide ((toStoredQuery range).Includes row.1)).map
        Fingerprint.lift =
      ((node.entries.map fun kv => kv.2.intoEntry ns kv.1).filter
        fun e => decide (range.IncludesEntry e)).map Fingerprint.liftEntry := by
  rw [Node.rows, List.filter_map, List.filter_map, List.map_map, List.map_map]
  have hfilter : node.entries.filter
      ((fun row : StoredPoint × StoredAuthorisedEntry =>
        decide ((toStoredQuery range).Includes row.1)) ∘ fun kv => (kv.1.stored, kv.2)) =
      node.entries.filter ((fun e : Entry => decide (range.IncludesEntry e)) ∘
        fun kv => kv.2.intoEntry ns kv.1) := by
    refine List.filter_congr fun kv _ => ?_
    exact decide_eq_decide.mpr toStoredQuery_includes_iff
  rw [hfilter]
  rfl

/-- The summary of a range is the fingerprint of its entries. -/
theorem rangeSummary_eq (hsum : RangeSummarySpec rangeSummary) (node : Node) (ns : NamespaceId)
    (range : Range3d) :
    rangeSummary node.rows (toStoredQuery range) =
      Fingerprint.fromEntries ((node.entries.map fun kv => kv.2.intoEntry ns kv.1).filter
        fun e => decide (range.IncludesEntry e)) := by
  obtain ⟨shape, hleaves, heq⟩ := hsum node.rows (toStoredQuery range)
  rw [heq, shape.summary_eq hleaves, Fingerprint.fromEntries_eq_summary, ← Summary.ofList_map,
    ← Summary.ofList_map _ _ Fingerprint.liftEntry, map_lift_rows node ns]

variable [Meadowcap]

theorem Tables.fingerprint_eq (hsum : RangeSummarySpec rangeSummary) (t : Tables)
    (ns : NamespaceId) (range : Range3d) :
    t.fingerprint rangeSummary ns range =
      Fingerprint.fromEntries ((t.storedEntries ns).filter
        fun e => decide (range.IncludesEntry e)) := by
  unfold Tables.fingerprint Tables.storedEntries Tables.node
  cases t.namespaceNodes ns with
  | none => rfl
  | some node => exact rangeSummary_eq hsum node ns range

/-- **Both stores compute the same fingerprint**: when they hold the same
entries of a namespace, the summary of the persistent store is what the default
method computes for the in-memory store, whatever the order of the entries. -/
theorem snapshot_fingerprint_eq (hsum : RangeSummarySpec rangeSummary) (s : Memory.EntryStore)
    (t : Tables) (ns : NamespaceId) (hsame : (s.storedEntries ns).Perm (t.storedEntries ns))
    (range : Range3d) :
    t.fingerprint rangeSummary ns range = EntryReader.fingerprint (s.getEntries ns) range ∧
      ∀ l : List Entry, l.Perm ((t.storedEntries ns).filter
        fun e => decide (range.IncludesEntry e)) →
        t.fingerprint rangeSummary ns range = Fingerprint.fromEntries l := by
  rw [t.fingerprint_eq hsum]
  refine ⟨?_, fun l hl => (Fingerprint.fromEntries_perm hl).symm⟩
  rw [EntryReader.fingerprint, s.getEntries_eq]
  exact Fingerprint.fromEntries_perm (hsame.filter _).symm

end Fingerprint

/-! ## The entry at a subspace and a path -/

section Key

/-- The order of `SortOrder::YZX`. -/
def yzxKey (p : Point) : Timestamp ×ₗ BlobSeq ×ₗ SubspaceId :=
  toLex (p.y, toLex (pathToBlobseq p.z, p.x))

theorem yzxLe_iff {a b : Point × StoredAuthorisedEntry} :
    yzxLe a b = true ↔ yzxKey a.1 ≤ yzxKey b.1 := by
  simp [yzxLe, yzxKey, Prod.Lex.toLex_le_toLex]

/-- The last of a sorted list is at least every other one. -/
theorem getLast?_mergeSort_yzx {l : List (Point × StoredAuthorisedEntry)}
    {last kv : Point × StoredAuthorisedEntry} (h : (l.mergeSort yzxLe).getLast? = some last)
    (hkv : kv ∈ l) : yzxKey kv.1 ≤ yzxKey last.1 := by
  have hsorted : (l.mergeSort yzxLe).Pairwise fun a b => yzxLe a b = true := by
    refine List.pairwise_mergeSort ?_ ?_ l
    · intro a b c hab hbc
      exact yzxLe_iff.mpr ((yzxLe_iff.mp hab).trans (yzxLe_iff.mp hbc))
    · intro a b
      rw [Bool.or_eq_true, yzxLe_iff, yzxLe_iff]
      exact le_total _ _
  obtain ⟨init, hinit⟩ := List.getLast?_eq_some_iff.mp h
  have hmem : kv ∈ init ++ [last] := hinit ▸ List.mem_mergeSort.mpr hkv
  rw [hinit] at hsorted
  rcases List.mem_append.mp hmem with hmem | hmem
  · exact yzxLe_iff.mp ((List.pairwise_append.mp hsorted).2.2 kv hmem last (by simp))
  · rw [List.mem_singleton.mp hmem]

/-- The query range of `get_entry`. -/
def entryRange (immediateSuccessor : BlobSeq → BlobSeq) (subspace : SubspaceId) (path : Path) :
    QueryRange3d :=
  { x := ⟨subspace, UserId.successor subspace⟩
    y := ⟨0, none⟩
    z := ⟨pathToBlobseq path, some (immediateSuccessor (pathToBlobseq path))⟩ }

variable {immediateSuccessor : BlobSeq → BlobSeq}

/-- The range holds exactly the points at the subspace and the path, also for
the largest subspace and not at extensions of the path. -/
theorem entryRange_includes (hsucc : ∀ b, IsLeast {c | b < c} (immediateSuccessor b))
    {subspace : SubspaceId} {path : Path} {p : Point} :
    (entryRange immediateSuccessor subspace path).Includes p ↔ p.x = subspace ∧ p.z = path := by
  have hy : (entryRange immediateSuccessor subspace path).y.Includes p.y :=
    ⟨Fin.zero_le _, trivial⟩
  have hz : (entryRange immediateSuccessor subspace path).z.Includes (pathToBlobseq p.z) ↔
      p.z = path := by
    obtain ⟨habove, hleast⟩ := hsucc (pathToBlobseq path)
    constructor
    · rintro ⟨hle, hlt⟩
      rcases lt_or_eq_of_le hle with hlt' | heq
      · exact absurd hlt (not_lt.mpr (hleast hlt'))
      · exact Path.components_injective heq.symm
    · intro heq
      rw [heq]
      exact ⟨le_refl _, habove⟩
  rw [QueryRange3d.Includes]
  exact (and_congr successorRange_includes ((and_iff_right hy).trans hz))

/-- The newest stored value at a subspace and a path, with its timestamp. -/
def Newest (node : Node) (subspace : SubspaceId) (path : Path) (timestamp : Timestamp)
    (v : StoredAuthorisedEntry) : Prop :=
  node.lookup ⟨subspace, timestamp, path⟩ = some v ∧
    ∀ timestamp' v', node.lookup ⟨subspace, timestamp', path⟩ = some v' → timestamp' ≤ timestamp

theorem Newest.unique {node : Node} {subspace : SubspaceId} {path : Path} {ts ts' : Timestamp}
    {v v' : StoredAuthorisedEntry} (h : Newest node subspace path ts v)
    (h' : Newest node subspace path ts' v') : ts = ts' ∧ v = v' := by
  obtain rfl : ts = ts' := le_antisymm (h'.2 ts v h.1) (h.2 ts' v' h'.1)
  exact ⟨rfl, Option.some.inj (h.1.symm.trans h'.1)⟩

/-- The last result of the ordered query is the newest value at the key. -/
theorem newest_of_getLast? (hsucc : ∀ b, IsLeast {c | b < c} (immediateSuccessor b))
    {node : Node} {subspace : SubspaceId} {path : Path} {last : Point × StoredAuthorisedEntry}
    (h : ((node.query (entryRange immediateSuccessor subspace path)).mergeSort yzxLe).getLast? =
      some last) :
    last.1.x = subspace ∧ last.1.z = path ∧ Newest node subspace path last.1.y last.2 := by
  obtain ⟨⟨x, y, z⟩, v⟩ := last
  have hmem := List.mem_mergeSort.mp (List.mem_of_getLast? h)
  obtain ⟨hlookup, hinc⟩ := Node.mem_query.mp hmem
  obtain ⟨rfl, rfl⟩ := (entryRange_includes hsucc).mp hinc
  refine ⟨rfl, rfl, hlookup, fun ts v' hv' => ?_⟩
  have hmem' : (⟨x, ts, z⟩, v') ∈ node.query (entryRange immediateSuccessor x z) :=
    Node.mem_query.mpr ⟨hv', (entryRange_includes hsucc).mpr ⟨rfl, rfl⟩⟩
  have hle := getLast?_mergeSort_yzx h hmem'
  rcases Prod.Lex.toLex_le_toLex.mp hle with hlt | ⟨heq, -⟩
  · exact hlt.le
  · exact heq.le

theorem getLast?_eq_none_iff (hsucc : ∀ b, IsLeast {c | b < c} (immediateSuccessor b))
    {node : Node} {subspace : SubspaceId} {path : Path} :
    ((node.query (entryRange immediateSuccessor subspace path)).mergeSort yzxLe).getLast? = none ↔
      ∀ ts, node.lookup ⟨subspace, ts, path⟩ = none := by
  rw [List.getLast?_eq_none_iff]
  constructor
  · intro h ts
    cases hlookup : node.lookup ⟨subspace, ts, path⟩ with
    | none => rfl
    | some v =>
        have hmem : (⟨subspace, ts, path⟩, v) ∈
            (node.query (entryRange immediateSuccessor subspace path)).mergeSort yzxLe :=
          List.mem_mergeSort.mpr (Node.mem_query.mpr
            ⟨hlookup, (entryRange_includes hsucc).mpr ⟨rfl, rfl⟩⟩)
        rw [h] at hmem
        exact absurd hmem List.not_mem_nil
  · intro h
    refine List.eq_nil_iff_forall_not_mem.mpr fun kv hkv => ?_
    obtain ⟨⟨x, y, z⟩, v⟩ := kv
    obtain ⟨hlookup, hinc⟩ := Node.mem_query.mp (List.mem_mergeSort.mp hkv)
    obtain ⟨rfl, rfl⟩ := (entryRange_includes hsucc).mp hinc
    rw [h y] at hlookup
    cases hlookup

variable [Meadowcap]

/-- The results of the ordered query of `get_entry`. -/
def entryResults (immediateSuccessor : BlobSeq → BlobSeq) (t : Tables) (ns : NamespaceId)
    (subspace : SubspaceId) (path : Path) : List (Point × StoredAuthorisedEntry) :=
  ((t.node ns).query (entryRange immediateSuccessor subspace path)).mergeSort yzxLe

variable {t : Tables} {ns : NamespaceId} {subspace : SubspaceId} {path : Path}

theorem getEntry_of_none
    (h : (entryResults immediateSuccessor t ns subspace path).getLast? = none) :
    t.getEntry immediateSuccessor ns subspace path = .ok none := by
  unfold entryResults Tables.node at h
  unfold Tables.getEntry
  cases hnode : t.namespaceNodes ns with
  | none => rfl
  | some node =>
      rw [hnode, Option.getD_some, entryRange] at h
      dsimp only
      rw [h]

theorem getEntry_of_some {last : Point × StoredAuthorisedEntry}
    (h : (entryResults immediateSuccessor t ns subspace path).getLast? = some last) :
    t.getEntry immediateSuccessor ns subspace path = (readStored t ns last.1 last.2).map some := by
  unfold entryResults Tables.node at h
  unfold Tables.getEntry
  cases hnode : t.namespaceNodes ns with
  | none =>
      rw [hnode] at h
      simp [Node.query] at h
  | some node =>
      rw [hnode, Option.getD_some, entryRange] at h
      dsimp only
      rw [h]

/-- **The newest entry at exactly the key**: none is returned exactly when
nothing is stored at the subspace and the path, and otherwise what is stored
there with the greatest timestamp is read. -/
theorem get_entry_newest (hsucc : ∀ b, IsLeast {c | b < c} (immediateSuccessor b)) (t : Tables)
    (ns : NamespaceId) (subspace : SubspaceId) (path : Path) :
    (t.getEntry immediateSuccessor ns subspace path = .ok none ↔
      ∀ ts, (t.node ns).lookup ⟨subspace, ts, path⟩ = none) ∧
    (∀ ts v, Newest (t.node ns) subspace path ts v →
      t.getEntry immediateSuccessor ns subspace path =
        (readStored t ns ⟨subspace, ts, path⟩ v).map some) ∧
    ∀ a, t.getEntry immediateSuccessor ns subspace path = .ok (some a) →
      ∃ ts v, Newest (t.node ns) subspace path ts v ∧
        a.entry = v.intoEntry ns ⟨subspace, ts, path⟩ := by
  cases hlast : (entryResults immediateSuccessor t ns subspace path).getLast? with
  | none =>
      -- nothing is found exactly when no timestamp is stored
      have hnone := (getLast?_eq_none_iff hsucc).mp hlast
      rw [getEntry_of_none hlast]
      refine ⟨iff_of_true rfl hnone, ?_, ?_⟩
      · intro ts v hnewest
        exact absurd hnewest.1 (by rw [hnone ts]; simp)
      · intro a h
        cases h
  | some last =>
      obtain ⟨hx, hz, hnewest⟩ := newest_of_getLast? hsucc hlast
      rw [getEntry_of_some hlast]
      obtain ⟨⟨x, y, z⟩, v⟩ := last
      obtain rfl : x = subspace := hx
      obtain rfl : z = path := hz
      refine ⟨iff_of_false ?_ ?_, ?_, ?_⟩
      · cases readStored t ns ⟨x, y, z⟩ v <;> simp [Except.map]
      · intro h
        exact absurd hnewest.1 (by rw [h y]; simp)
      · intro ts w hw
        -- there is only one newest value
        obtain ⟨rfl, rfl⟩ := hnewest.unique hw
        rfl
      · intro a h
        refine ⟨y, v, hnewest, ?_⟩
        cases hres : readStored t ns ⟨x, y, z⟩ v with
        | error e =>
            simp only [hres, Except.map] at h
            cases h
        | ok b =>
            simp only [hres, Except.map] at h
            obtain rfl := Option.some.inj (Except.ok.inj h)
            exact readStored_eq_ok hres

end Key

/-! ### A tree with two timestamps at one path -/

section Samples

open IrohWillow.Sample

/-- The hash is the number that the bytes spell. -/
@[reducible] def Sample.concatenated : Blake3Hasher where
  hash bytes := BitVec.ofNat 256 (beNat bytes)
  asSlice p := p.x.toList ++ p.y.bytes.toList ++ p.z.flatten

attribute [local instance] acceptingSignatures Sample.appendZero Sample.concatenated

/-- The lifts of the query range, one after the other. -/
def Sample.rangeSummary (rows : List (StoredPoint × StoredAuthorisedEntry)) (q : StoredQuery) :
    Fingerprint :=
  Summary.ofList (fun a b : Fingerprint => a ^^^ b) 0 Fingerprint.lift
    (rows.filter fun row => decide (q.Includes row.1))

theorem Sample.rangeSummarySpec : RangeSummarySpec Sample.rangeSummary := by
  intro rows q
  have hleaves := Summary.Bracketing.leaves_chain
    (rows.filter fun row => decide (q.Includes row.1))
  exact ⟨_, List.Perm.of_eq hleaves, (Summary.Bracketing.summary_eq _ (.of_eq hleaves)).symm⟩

/-- The two entries of `lateArrival`, in the other order. -/
def Sample.memoryStore : Memory.EntryStore :=
  ⟨fun _ => some { entries := [(signedAt 1 2).1, (signedAt 2 1).1] }⟩

theorem sample_fingerprint_eq :
    @Tables.fingerprint acceptingSignatures Sample.rangeSummary
        (({} : Tables).ingestAll lateArrival) namespaceId .full =
      @EntryReader.fingerprint (Memory.EntryStore.getEntries Sample.memoryStore namespaceId)
        Fingerprint.hashStored .full :=
  (snapshot_fingerprint_eq Sample.rangeSummarySpec Sample.memoryStore
    (({} : Tables).ingestAll lateArrival) namespaceId (by decide) .full).1

/-- An empty component is appended. -/
def Sample.appendEmpty (b : BlobSeq) : BlobSeq := b ++ [[]]

theorem Sample.isLeast_appendEmpty (b : BlobSeq) : IsLeast {c | b < c} (Sample.appendEmpty b) := by
  constructor
  · show b < b ++ [[]]
    induction b with
    | nil => exact List.nil_lt_cons _ _
    | cons x b ih => exact List.cons_lt_cons_iff.mpr (Or.inr ⟨rfl, ih⟩)
  · intro c hc
    show b ++ [[]] ≤ c
    induction b generalizing c with
    | nil =>
        cases c with
        | nil => exact absurd hc (lt_irrefl ([] : BlobSeq))
        | cons y c =>
            refine not_lt.mp fun h => ?_
            rcases List.cons_lt_cons_iff.mp h with h | ⟨-, h⟩
            · exact absurd h (List.not_lt_nil _)
            · exact absurd h (List.not_lt_nil _)
    | cons x b ih =>
        cases c with
        | nil => exact absurd hc (List.not_lt_nil _)
        | cons y c =>
            rcases List.cons_lt_cons_iff.mp hc with hxy | ⟨rfl, hbc⟩
            · exact (List.cons_lt_cons_iff.mpr (Or.inl hxy)).le
            · refine not_lt.mp fun h => ?_
              rcases List.cons_lt_cons_iff.mp h with h | ⟨-, h⟩
              · exact lt_irrefl _ h
              · exact absurd h (not_lt.mpr (ih hbc))

/-- Of the two timestamps at the root the greater one is read. -/
theorem late_arrival_newest :
    (({} : Tables).ingestAll lateArrival).getEntry Sample.appendEmpty namespaceId userId (pathOf []) =
      .ok (some (signedAt 2 1).1) := by
  have hkeys : ∀ p ∈ ((({} : Tables).ingestAll lateArrival).node namespaceId).keys, p.y ≤ 2 := by
    decide
  refine ((get_entry_newest Sample.isLeast_appendEmpty _ namespaceId userId
    (pathOf [])).2.1 2 (.fromAuthorisedEntry (signedAt 2 1).1) ⟨by decide, ?_⟩).trans rfl
  intro ts v hv
  refine hkeys ⟨userId, ts, pathOf []⟩ (AList.mem_keys.mp ?_)
  exact AList.lookup_isSome.mp (by rw [hv]; rfl)

end Samples

end Persistent

end IrohWillow
