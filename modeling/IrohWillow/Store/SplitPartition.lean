import IrohWillow.Lib.Summary
import IrohWillow.Store.Memory
import IrohWillow.Store.SplitRange

/-!
# A split is a partition

What the default `split_range` of `EntryReader` does with a store that lists
the stored entries of a range in some order: the two subranges partition the
points of the range, and since fingerprints are exclusive ors, those of the
subranges combine to the fingerprint of the range. The in-memory store is such
a reader in every state.
-/

namespace IrohWillow

/-- Whether a point is in a range. -/
def Range3d.IncludesPoint (r : Range3d) (p : Point) : Prop :=
  r.subspaces.Includes p.x ∧ r.paths.Includes p.z ∧ r.times.Includes p.y

instance Range3d.IncludesPoint.decidable (r : Range3d) (p : Point) :
    Decidable (r.IncludesPoint p) := inferInstanceAs (Decidable (_ ∧ _ ∧ _))

/-- Every point is the point of an entry. -/
theorem exists_entry_of_point (p : Point) : ∃ e : Entry, e.point = p :=
  ⟨⟨.ofByte 0, p.x, p.z, p.y, 0, .ofByte 0⟩, rfl⟩

/-! ## Fingerprints -/

namespace Fingerprint

instance associativeXor : Std.Associative (fun a b : Fingerprint => a ^^^ b) := ⟨BitVec.xor_assoc⟩

instance commutativeXor : Std.Commutative (fun a b : Fingerprint => a ^^^ b) := ⟨BitVec.xor_comm⟩

instance lawfulIdentityXor : Std.LawfulIdentity (fun a b : Fingerprint => a ^^^ b) 0 where
  left_id _ := BitVec.zero_xor
  right_id _ := BitVec.xor_zero

variable [Blake3]

/-- A fingerprint is a summary in the monoid of exclusive or. -/
theorem fromEntries_eq_summary (l : List Entry) :
    fromEntries l = Summary.ofList (fun a b : Fingerprint => a ^^^ b) 0 liftEntry l := rfl

theorem fromEntries_perm {l m : List Entry} (h : l.Perm m) : fromEntries l = fromEntries m :=
  Summary.ofList_perm h

theorem fromEntries_append (l m : List Entry) :
    fromEntries (l ++ m) = fromEntries l ^^^ fromEntries m :=
  Summary.ofList_append _ _ _ l m

end Fingerprint

namespace EntryReader

/-! ## Readers that list what is stored -/

/-- The reader lists the stored entries of a range, in some order. -/
def Lists (getEntries : Range3d → List Entry) (stored : List Entry) : Prop :=
  ∀ range, (getEntries range).Perm (stored.filter fun e => decide (range.IncludesEntry e))

variable {getEntries : Range3d → List Entry} {stored : List Entry} {range lower upper : Range3d}
  {config : SplitOpts} {mid : Entry}

theorem Lists.includes (h : Lists getEntries stored) {e : Entry} (he : e ∈ getEntries range) :
    range.IncludesEntry e := by
  have hmem := (h range).mem_iff.mp he
  exact of_decide_eq_true (List.mem_filter.mp hmem).2

/-- The stored entries of a range are those of its two parts. -/
theorem Lists.perm_append (h : Lists getEntries stored) (hcut : Cut range lower upper mid) :
    (getEntries lower ++ getEntries upper).Perm (getEntries range) := by
  -- the lower part is what the filter keeps, the upper part the rest
  have hlower : stored.filter (fun e => decide (lower.IncludesEntry e)) =
      (stored.filter fun e => decide (range.IncludesEntry e)).filter
        fun e => decide (lower.IncludesEntry e) := by
    rw [List.filter_filter]
    refine List.filter_congr fun e _ => ?_
    by_cases hl : lower.IncludesEntry e
    · simp [hl, (hcut.includes_iff e).mpr (Or.inl hl)]
    · simp [hl]
  have hupper : stored.filter (fun e => decide (upper.IncludesEntry e)) =
      (stored.filter fun e => decide (range.IncludesEntry e)).filter
        fun e => !decide (lower.IncludesEntry e) := by
    rw [List.filter_filter]
    refine List.filter_congr fun e _ => ?_
    by_cases hl : lower.IncludesEntry e
    · simp [hl, hcut.disjoint e hl]
    · have hiff : range.IncludesEntry e ↔ upper.IncludesEntry e := by
        rw [hcut.includes_iff]
        simp [hl]
      simp [hl, hiff]
  have hparts := (h lower).append (h upper)
  rw [hlower, hupper] at hparts
  exact hparts.trans ((List.filter_append_perm _ _).trans (h range).symm)

theorem Cut.xor_includesPoint (hcut : Cut range lower upper mid) {p : Point}
    (hp : range.IncludesPoint p) : Xor (lower.IncludesPoint p) (upper.IncludesPoint p) := by
  obtain ⟨e, rfl⟩ := exists_entry_of_point p
  have hdisjoint := hcut.disjoint e
  rcases (hcut.includes_iff e).mp hp with hl | hu
  · exact Or.inl ⟨hl, hdisjoint hl⟩
  · exact Or.inr ⟨hu, fun hl => hdisjoint hl hu⟩

theorem Cut.not_includesPoint (hcut : Cut range lower upper mid) {p : Point}
    (hp : ¬ range.IncludesPoint p) : ¬ lower.IncludesPoint p ∧ ¬ upper.IncludesPoint p := by
  obtain ⟨e, rfl⟩ := exists_entry_of_point p
  exact ⟨fun hl => hp ((hcut.includes_iff e).mpr (Or.inl hl)),
    fun hu => hp ((hcut.includes_iff e).mpr (Or.inr hu))⟩

/-! ## What `split_range` returns -/

variable [Blake3]

theorem Lists.fingerprint_eq (h : Lists getEntries stored) (range : Range3d) :
    fingerprint getEntries range =
      Fingerprint.fromEntries (stored.filter fun e => decide (range.IncludesEntry e)) :=
  Fingerprint.fromEntries_perm (h range)

/-- The fingerprints of the parts combine to that of the range. -/
theorem Lists.fingerprint_xor (h : Lists getEntries stored) (hcut : Cut range lower upper mid) :
    fingerprint getEntries lower ^^^ fingerprint getEntries upper =
      fingerprint getEntries range := by
  show Fingerprint.fromEntries _ ^^^ Fingerprint.fromEntries _ = Fingerprint.fromEntries _
  rw [← Fingerprint.fromEntries_append]
  exact Fingerprint.fromEntries_perm (h.perm_append hcut)

/-- What a split of a range makes of the stored entries. -/
structure Partitions (stored : List Entry) (range lower upper : Range3d)
    (lowerPrint upperPrint : Fingerprint) : Prop where
  /-- Every point of the range is in exactly one part. -/
  exactly_one : ∀ p, range.IncludesPoint p → Xor (lower.IncludesPoint p) (upper.IncludesPoint p)
  /-- No other point is in a part. -/
  no_other : ∀ p, ¬ range.IncludesPoint p → ¬ lower.IncludesPoint p ∧ ¬ upper.IncludesPoint p
  lower_print : lowerPrint =
    Fingerprint.fromEntries (stored.filter fun e => decide (lower.IncludesEntry e))
  upper_print : upperPrint =
    Fingerprint.fromEntries (stored.filter fun e => decide (upper.IncludesEntry e))
  xor_prints : lowerPrint ^^^ upperPrint =
    Fingerprint.fromEntries (stored.filter fun e => decide (range.IncludesEntry e))

/-- The split of a range with more than the maximal number of entries. -/
theorem Lists.splitRange_partitions (h : Lists getEntries stored)
    (hcount : config.maxSetSize < count getEntries range) :
    ∃ lower upper, splitRange getEntries range config =
        some [(lower, .sendFingerprint (fingerprint getEntries lower)),
          (upper, .sendFingerprint (fingerprint getEntries upper))] ∧
      Partitions stored range lower upper (fingerprint getEntries lower)
        (fingerprint getEntries upper) := by
  obtain ⟨mid, hmem, -, hsplit⟩ := splitRange_eq_halves getEntries range config hcount
  obtain ⟨lower, upper, hhalves, hcut⟩ := halves_cut (h.includes hmem)
  rw [hhalves] at hsplit
  refine ⟨lower, upper, hsplit, ?_⟩
  exact
    { exactly_one := fun _ hp => hcut.xor_includesPoint hp
      no_other := fun _ hp => hcut.not_includesPoint hp
      lower_print := h.fingerprint_eq lower
      upper_print := h.fingerprint_eq upper
      xor_prints := (h.fingerprint_xor hcut).trans (h.fingerprint_eq range) }

end EntryReader

/-! ## The in-memory store -/

namespace Memory.EntryStore

variable [Meadowcap]

/-- The entries of a namespace. -/
def storedEntries (s : EntryStore) (ns : NamespaceId) : List Entry :=
  (s.namespaceStore ns).entries.map (·.entry)

/-- `EntryReader::get_entries`. -/
def getEntries (s : EntryStore) (ns : NamespaceId) (range : Range3d) : List Entry :=
  (s.getAuthorisedEntries ns range).map (·.entry)

theorem getEntries_eq (s : EntryStore) (ns : NamespaceId) (range : Range3d) :
    s.getEntries ns range =
      (s.storedEntries ns).filter fun e => decide (range.IncludesEntry e) := by
  rw [getEntries, getAuthorisedEntries, storedEntries, List.filter_map]
  rfl

theorem lists_getEntries (s : EntryStore) (ns : NamespaceId) :
    EntryReader.Lists (s.getEntries ns) (s.storedEntries ns) := fun range => by
  rw [getEntries_eq]

end Memory.EntryStore

/-- **A split is a partition**: with at most the maximal number of entries in
the range, it is returned itself with their exact number; with more, it is cut
in two parts of which every point of the range is in exactly one, each with the
fingerprint of the entries in it. -/
theorem split_range_partitions [Meadowcap] [Blake3] (s : Memory.EntryStore) (ns : NamespaceId)
    (range : Range3d) (config : SplitOpts) :
    (EntryReader.count (s.getEntries ns) range =
      ((s.storedEntries ns).filter fun e => decide (range.IncludesEntry e)).length) ∧
    (EntryReader.count (s.getEntries ns) range ≤ config.maxSetSize →
      EntryReader.splitRange (s.getEntries ns) range config =
        some [(range, .sendEntries (EntryReader.count (s.getEntries ns) range))]) ∧
    (config.maxSetSize < EntryReader.count (s.getEntries ns) range →
      ∃ lower upper lowerPrint upperPrint,
        EntryReader.splitRange (s.getEntries ns) range config =
          some [(lower, .sendFingerprint lowerPrint), (upper, .sendFingerprint upperPrint)] ∧
        EntryReader.Partitions (s.storedEntries ns) range lower upper lowerPrint upperPrint) := by
  refine ⟨?_, ?_, ?_⟩
  · rw [EntryReader.count, s.getEntries_eq]
  · exact EntryReader.splitRange_eq_sendEntries _ _ _
  · intro hcount
    obtain ⟨lower, upper, hsplit, hparts⟩ := (s.lists_getEntries ns).splitRange_partitions hcount
    exact ⟨lower, upper, _, _, hsplit, hparts⟩

end IrohWillow
