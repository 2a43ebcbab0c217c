import IrohWillow.Proto.Grouping
import IrohWillow.Proto.Fingerprint

/-!
# Fingerprinting and splitting a range

The default methods `fingerprint`, `count` and `split_range` of `EntryReader`
(`store/traits.rs`), over the `get_entries` of one namespace, and what a split
makes of the range: the subranges lie inside it, and each of them is smaller
in the measure that `Session.RangeExchange` uses.
-/

namespace IrohWillow

/-- `SplitAction`. -/
inductive SplitAction where
  | sendFingerprint (fingerprint : Fingerprint)
  | sendEntries (count : Nat)
  deriving DecidableEq, Repr

/-- `SplitOpts`. -/
structure SplitOpts where
  maxSetSize : Nat := 1
  splitFactor : Nat := 2
  deriving DecidableEq, Repr

/-- `EntryExt::as_sortable_tuple`. -/
def Entry.sortableTuple (e : Entry) : NamespaceId ×ₗ SubspaceId ×ₗ Path :=
  toLex (e.namespaceId, toLex (e.subspaceId, e.path))

/-- The comparison `split_range` sorts by. -/
def Entry.sortsBefore (a b : Entry) : Bool := decide (a.sortableTuple ≤ b.sortableTuple)

namespace EntryReader

variable (getEntries : Range3d → List Entry)

/-- `EntryReader::count`. -/
def count (range : Range3d) : Nat := (getEntries range).length

/-- `EntryReader::fingerprint`. -/
def fingerprint [Blake3] (range : Range3d) : Fingerprint :=
  Fingerprint.fromEntries (getEntries range)

/-- The two subranges of `split_range` for the middle entry `mid`; `none` is
the failed `unwrap` of an empty subspace range. -/
def halves (range : Range3d) (mid : Entry) : Option (List Range3d) :=
  -- split in two halves by subspace
  if mid.subspaceId ≠ range.subspaces.start then
    (Range.newClosed range.subspaces.start mid.subspaceId).map fun lower =>
      [{ range with subspaces := lower },
        { range with subspaces := range.subspaces.above mid.subspaceId }]
  -- split by path
  else if mid.path ≠ range.paths.start then
    some
      [{ range with paths := range.paths.below mid.path },
        { range with paths := range.paths.above mid.path }]
  -- split by time
  else
    some
      [{ range with times := range.times.below mid.timestamp },
        { range with times := range.times.above mid.timestamp }]

/-- The entries of a range as `split_range` sorts them. -/
def sorted (range : Range3d) : List Entry := (getEntries range).mergeSort Entry.sortsBefore

/-- `EntryReader::split_range`; `none` is a failed `expect` or `unwrap`. -/
def splitRange [Blake3] (range : Range3d) (config : SplitOpts) :
    Option (List (Range3d × SplitAction)) :=
  let count := count getEntries range
  if count ≤ config.maxSetSize then some [(range, .sendEntries count)]
  else
    match (sorted getEntries range)[count / 2]? with
    | none => none
    | some mid =>
        (halves range mid).map fun ranges =>
          ranges.map fun range => (range, .sendFingerprint (fingerprint getEntries range))

/-! ## The halves partition the range -/

/-- `lower` and `upper` partition `range`, and `mid` is not in the lower part. -/
structure Cut (range lower upper : Range3d) (mid : Entry) : Prop where
  includes_iff : ∀ e, range.IncludesEntry e ↔ lower.IncludesEntry e ∨ upper.IncludesEntry e
  disjoint : ∀ e, lower.IncludesEntry e → ¬ upper.IncludesEntry e
  mid_notMem_lower : ¬ lower.IncludesEntry mid

variable {range : Range3d} {mid : Entry}

/-- What `halves` returns for a middle entry of the range, case by case. -/
theorem halves_cases (hmid : range.IncludesEntry mid) :
    (range.subspaces.start < mid.subspaceId ∧
      halves range mid = some
        [{ range with subspaces := range.subspaces.below mid.subspaceId },
          { range with subspaces := range.subspaces.above mid.subspaceId }]) ∨
    (mid.subspaceId = range.subspaces.start ∧ range.paths.start < mid.path ∧
      halves range mid = some
        [{ range with paths := range.paths.below mid.path },
          { range with paths := range.paths.above mid.path }]) ∨
    (mid.subspaceId = range.subspaces.start ∧ mid.path = range.paths.start ∧
      halves range mid = some
        [{ range with times := range.times.below mid.timestamp },
          { range with times := range.times.above mid.timestamp }]) := by
  obtain ⟨hs, hp, -⟩ := hmid
  by_cases hsub : mid.subspaceId = range.subspaces.start
  · by_cases hpath : mid.path = range.paths.start
    · exact Or.inr (Or.inr ⟨hsub, hpath, by simp [halves, hsub, hpath]⟩)
    · have hlt : range.paths.start < mid.path := lt_of_le_of_ne hp.1 (Ne.symm hpath)
      exact Or.inr (Or.inl ⟨hsub, hlt, by simp [halves, hsub, hpath]⟩)
  · have hlt : range.subspaces.start < mid.subspaceId := lt_of_le_of_ne hs.1 (Ne.symm hsub)
    exact Or.inl ⟨hlt, by simp [halves, hsub, Range.newClosed, hlt, Range.below]⟩

theorem cut_subspaces (hmid : range.IncludesEntry mid) :
    Cut range { range with subspaces := range.subspaces.below mid.subspaceId }
      { range with subspaces := range.subspaces.above mid.subspaceId } mid where
  includes_iff e := by
    simp only [Range3d.IncludesEntry, Range.includes_iff_below_or_above hmid.1, or_and_right]
  disjoint _ h h' := Range.not_above_of_below h.1 h'.1
  mid_notMem_lower h := Range.not_below_self h.1

theorem cut_paths (hmid : range.IncludesEntry mid) :
    Cut range { range with paths := range.paths.below mid.path }
      { range with paths := range.paths.above mid.path } mid where
  includes_iff e := by
    simp only [Range3d.IncludesEntry, Range.includes_iff_below_or_above hmid.2.1, or_and_right,
      and_or_left]
  disjoint _ h h' := Range.not_above_of_below h.2.1 h'.2.1
  mid_notMem_lower h := Range.not_below_self h.2.1

theorem cut_times (hmid : range.IncludesEntry mid) :
    Cut range { range with times := range.times.below mid.timestamp }
      { range with times := range.times.above mid.timestamp } mid where
  includes_iff e := by
    simp only [Range3d.IncludesEntry, Range.includes_iff_below_or_above hmid.2.2, and_or_left]
  disjoint _ h h' := Range.not_above_of_below h.2.2 h'.2.2
  mid_notMem_lower h := Range.not_below_self h.2.2

/-- A middle entry of the range cuts it in two, whichever dimension is split. -/
theorem halves_cut (hmid : range.IncludesEntry mid) :
    ∃ lower upper, halves range mid = some [lower, upper] ∧ Cut range lower upper mid := by
  rcases halves_cases hmid with ⟨-, h⟩ | ⟨-, -, h⟩ | ⟨-, -, h⟩
  · exact ⟨_, _, h, cut_subspaces hmid⟩
  · exact ⟨_, _, h, cut_paths hmid⟩
  · exact ⟨_, _, h, cut_times hmid⟩

/-! ## What `split_range` returns -/

variable {getEntries} {config : SplitOpts}

theorem mem_sorted {e : Entry} : e ∈ sorted getEntries range ↔ e ∈ getEntries range :=
  List.mem_mergeSort

theorem length_sorted : (sorted getEntries range).length = count getEntries range :=
  List.length_mergeSort _

theorem pairwise_sorted :
    (sorted getEntries range).Pairwise fun a b => a.sortableTuple ≤ b.sortableTuple := by
  refine (List.pairwise_mergeSort ?_ ?_ (getEntries range)).imp fun h => of_decide_eq_true h
  · intro a b c hab hbc
    exact decide_eq_true ((of_decide_eq_true hab).trans (of_decide_eq_true hbc))
  · intro a b
    simp only [Bool.or_eq_true, decide_eq_true_eq]
    exact le_total _ _

variable [Blake3] (getEntries range config)

theorem splitRange_eq_sendEntries (h : count getEntries range ≤ config.maxSetSize) :
    splitRange getEntries range config =
      some [(range, .sendEntries (count getEntries range))] := by
  simp [splitRange, h]

/-- Above the maximal set size, the range is cut at the middle of the sorted
entries, and both parts are announced by their fingerprints. -/
theorem splitRange_eq_halves (h : config.maxSetSize < count getEntries range) :
    ∃ mid ∈ getEntries range,
      (sorted getEntries range)[count getEntries range / 2]? = some mid ∧
      splitRange getEntries range config = (halves range mid).map fun ranges =>
        ranges.map fun range => (range, .sendFingerprint (fingerprint getEntries range)) := by
  have hlt : count getEntries range / 2 < (sorted getEntries range).length := by
    rw [length_sorted]
    omega
  have hget := List.getElem?_eq_getElem hlt
  refine ⟨_, mem_sorted.mp (List.getElem_mem hlt), hget, ?_⟩
  simp only [splitRange, not_le.mpr h, if_false, hget]

/-- **What a split promises.** It does not panic, it returns at least one part,
the parts lie inside the range and cover it, and each part is announced by its
own fingerprint or its own number of entries. -/
theorem splitRange_spec (hin : ∀ e ∈ getEntries range, range.IncludesEntry e) :
    ∃ parts, splitRange getEntries range config = some parts ∧ parts ≠ [] ∧
      (∀ part ∈ parts, part.1.Within range) ∧
      (∀ e, range.IncludesEntry e → ∃ part ∈ parts, part.1.IncludesEntry e) ∧
      ∀ part ∈ parts, part.2 = .sendFingerprint (fingerprint getEntries part.1) ∨
        part.2 = .sendEntries (count getEntries part.1) := by
  by_cases h : count getEntries range ≤ config.maxSetSize
  · refine ⟨_, splitRange_eq_sendEntries _ _ _ h, by simp, ?_, ?_, ?_⟩
    · simp only [List.mem_singleton, forall_eq]
      exact fun _ he => he
    · exact fun e he => ⟨_, List.mem_singleton_self _, he⟩
    · simp
  · obtain ⟨mid, hmem, -, hsplit⟩ := splitRange_eq_halves _ _ _ (not_le.mp h)
    obtain ⟨lower, upper, hhalves, hcut⟩ := halves_cut (hin mid hmem)
    rw [hhalves] at hsplit
    refine ⟨_, hsplit, by simp, ?_, ?_, by simp⟩
    · simp only [List.map_cons, List.map_nil, List.mem_cons, List.not_mem_nil, or_false,
        forall_eq_or_imp, forall_eq]
      exact ⟨fun e he => (hcut.includes_iff e).mpr (Or.inl he),
        fun e he => (hcut.includes_iff e).mpr (Or.inr he)⟩
    · intro e he
      rcases (hcut.includes_iff e).mp he with h | h
      · exact ⟨_, List.mem_cons_self, h⟩
      · exact ⟨_, List.mem_cons_of_mem _ List.mem_cons_self, h⟩

end EntryReader

end IrohWillow
