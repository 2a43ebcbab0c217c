import IrohWillow.Store.SplitRange
import IrohWillow.Proto.Meadowcap

/-!
# Termination of the range exchange

A peer that receives a fingerprint which is not empty and does not match its
own answers with the parts of `split_range` (case 3 of
`Target::received_send_fingerprint`), and the other peer answers each part the
same way over its own entries. This module proves that the recursion is finite.

A part may hold all of the splitter's entries, so the number of entries alone
does not decrease. `Exchange.size` adds, to the entries of both peers in the
range, the subspaces that lie strictly above the start of the range: splitting
by subspace either drops the middle entry or moves the start up to it.
-/

namespace IrohWillow

open EntryReader

/-- `get_entries` of a peer that holds the entries `held`. -/
def heldEntries (namespaceId : NamespaceId) (held : List Entry) (range : Range3d) : List Entry :=
  held.filter fun e => decide (e.namespaceId = namespaceId ∧ range.IncludesEntry e)

/-- At most one entry for each namespace, subspace and path. -/
def UniqueKeys (held : List Entry) : Prop := (held.map Entry.sortableTuple).Nodup

instance (held : List Entry) : Decidable (UniqueKeys held) :=
  inferInstanceAs (Decidable (List.Nodup _))

/-- A fingerprint on its way: the peer that has to answer it holds `splitter`,
the peer that sent it holds `other`. -/
structure Exchange where
  splitter : List Entry
  other : List Entry
  range : Range3d
  fingerprint : Fingerprint

namespace Exchange

variable (namespaceId : NamespaceId)

/-- The number of the splitter's entries in the range. -/
def count (x : Exchange) : Nat := EntryReader.count (heldEntries namespaceId x.splitter) x.range

variable [Blake3]

/-- `y` is one of the fingerprints of the default split of `x`; the peers
change places. -/
def Splits (x y : Exchange) : Prop :=
  y.splitter = x.other ∧ y.other = x.splitter ∧
    ∃ parts, splitRange (heldEntries namespaceId x.splitter) x.range {} = some parts ∧
      (y.range, .sendFingerprint y.fingerprint) ∈ parts

/-- The fingerprint of `x` does not match and is not empty. -/
def Mismatch (x : Exchange) : Prop :=
  EntryReader.fingerprint (heldEntries namespaceId x.splitter) x.range ≠ x.fingerprint ∧
    x.fingerprint.isEmpty = false

/-- `y` is one of the fingerprints with which case 3 answers `x`. -/
def Answers (x y : Exchange) : Prop := x.Mismatch namespaceId ∧ x.Splits namespaceId y

end Exchange

theorem mem_heldEntries {namespaceId : NamespaceId} {held : List Entry} {range : Range3d}
    {e : Entry} : e ∈ heldEntries namespaceId held range ↔
      e ∈ held ∧ e.namespaceId = namespaceId ∧ range.IncludesEntry e := by
  simp [heldEntries]

/-! ## The first entry of a split range sorts strictly below the middle -/

section Sorted

variable {namespaceId : NamespaceId} {held : List Entry} {range : Range3d}

theorem pairwise_sorted_lt (huniq : UniqueKeys held) :
    (sorted (heldEntries namespaceId held) range).Pairwise fun a b =>
      a.sortableTuple < b.sortableTuple := by
  have hnodup : ((heldEntries namespaceId held range).map Entry.sortableTuple).Nodup :=
    huniq.sublist (List.filter_sublist.map _)
  have hperm := (List.mergeSort_perm (heldEntries namespaceId held range)
    Entry.sortsBefore).map Entry.sortableTuple
  have hne : (sorted (heldEntries namespaceId held) range).Pairwise fun a b =>
      a.sortableTuple ≠ b.sortableTuple := List.pairwise_map.mp (hperm.nodup_iff.mpr hnodup)
  exact (pairwise_sorted.and hne).imp fun h => lt_of_le_of_ne h.1 h.2

/-- With at least two entries, an entry of the range precedes the middle one. -/
theorem exists_sortableTuple_lt (huniq : UniqueKeys held) {mid : Entry}
    (hcount : 1 < EntryReader.count (heldEntries namespaceId held) range)
    (hmid : (sorted (heldEntries namespaceId held) range)[
      EntryReader.count (heldEntries namespaceId held) range / 2]? = some mid) :
    ∃ first ∈ heldEntries namespaceId held range, first.sortableTuple < mid.sortableTuple := by
  obtain ⟨hlt, hget⟩ := List.getElem?_eq_some_iff.mp hmid
  have hpos : 0 < (sorted (heldEntries namespaceId held) range).length := by
    rw [length_sorted]
    omega
  refine ⟨_, mem_sorted.mp (List.getElem_mem hpos), ?_⟩
  rw [← hget]
  exact List.pairwise_iff_getElem.mp (pairwise_sorted_lt huniq) 0 _ hpos hlt (by omega)

/-- Two entries of one namespace are sorted by subspace, then by path. -/
theorem sortableTuple_lt_iff {a b : Entry} (h : a.namespaceId = b.namespaceId) :
    a.sortableTuple < b.sortableTuple ↔
      a.subspaceId < b.subspaceId ∨ a.subspaceId = b.subspaceId ∧ a.path < b.path := by
  simp [Entry.sortableTuple, Prod.Lex.toLex_lt_toLex, h]

/-- When the middle entry is in the first subspace of the range, an entry of
the range has a smaller path. -/
theorem exists_path_lt (huniq : UniqueKeys held) {mid : Entry}
    (hcount : 1 < EntryReader.count (heldEntries namespaceId held) range)
    (hmem : mid ∈ heldEntries namespaceId held range)
    (hmid : (sorted (heldEntries namespaceId held) range)[
      EntryReader.count (heldEntries namespaceId held) range / 2]? = some mid)
    (hsub : mid.subspaceId = range.subspaces.start) :
    ∃ first ∈ heldEntries namespaceId held range, first.path < mid.path := by
  obtain ⟨first, hfirst, hlt⟩ := exists_sortableTuple_lt huniq hcount hmid
  have hf := mem_heldEntries.mp hfirst
  have hm := mem_heldEntries.mp hmem
  refine ⟨first, hfirst, ?_⟩
  rcases (sortableTuple_lt_iff (hf.2.1.trans hm.2.1.symm)).mp hlt with h | ⟨-, h⟩
  · exact absurd hf.2.2.1.1 (not_le.mpr (hsub ▸ h))
  · exact h

end Sorted

/-! ## The measure -/

namespace Exchange

variable (namespaceId : NamespaceId)

/-- The subspaces of both peers above the start of the range. -/
def subspacesAbove (x : Exchange) : Nat :=
  (((x.splitter ++ x.other).map Entry.subspaceId).toFinset.filter
    (x.range.subspaces.start < ·)).card

/-- What each split makes smaller. -/
def size (x : Exchange) : Nat :=
  EntryReader.count (heldEntries namespaceId x.splitter) x.range +
    EntryReader.count (heldEntries namespaceId x.other) x.range + x.subspacesAbove

variable {namespaceId}

theorem count_mono (held : List Entry) {range part : Range3d} (h : part.Within range) :
    EntryReader.count (heldEntries namespaceId held) part ≤
      EntryReader.count (heldEntries namespaceId held) range := by
  simp only [EntryReader.count, heldEntries, ← List.countP_eq_length_filter]
  refine List.countP_mono_left fun e _ he => ?_
  simp only [decide_eq_true_eq] at he ⊢
  exact ⟨he.1, h e he.2⟩

/-- A part that misses an entry of the range has fewer entries. -/
theorem count_lt {held : List Entry} {range part : Range3d} (h : part.Within range) {e : Entry}
    (he : e ∈ heldEntries namespaceId held range) (hpart : ¬ part.IncludesEntry e) :
    EntryReader.count (heldEntries namespaceId held) part <
      EntryReader.count (heldEntries namespaceId held) range := by
  have hfilter : heldEntries namespaceId held part =
      (heldEntries namespaceId held range).filter fun e => decide (part.IncludesEntry e) := by
    simp only [heldEntries, List.filter_filter]
    refine List.filter_congr fun d _ => ?_
    rw [Bool.eq_iff_iff]
    simp only [decide_eq_true_eq, Bool.and_eq_true]
    exact ⟨fun hd => ⟨hd.2, hd.1, h d hd.2⟩, fun hd => ⟨hd.2.1, hd.1⟩⟩
  rw [EntryReader.count, hfilter]
  exact List.length_filter_lt_length_iff_exists.mpr ⟨e, he, by simpa using hpart⟩

/-- Moving the start of the range up to the subspace of an entry leaves that
subspace behind. -/
theorem subspacesAbove_lt {x y : Exchange} (hs : y.splitter = x.other) (ho : y.other = x.splitter)
    {e : Entry} (he : e ∈ x.splitter) (hlt : x.range.subspaces.start < e.subspaceId)
    (hstart : y.range.subspaces.start = e.subspaceId) : y.subspacesAbove < x.subspacesAbove := by
  refine Finset.card_lt_card (Finset.ssubset_iff_of_subset ?_ |>.mpr ⟨e.subspaceId, ?_, ?_⟩)
  · intro i hi
    simp only [hs, ho, hstart, Finset.mem_filter, List.mem_toFinset, List.map_append,
      List.mem_append] at hi ⊢
    exact ⟨hi.1.symm, hlt.trans hi.2⟩
  · simp only [Finset.mem_filter, List.mem_toFinset, List.map_append, List.mem_append]
    exact ⟨Or.inl (List.mem_map_of_mem he), hlt⟩
  · simp [hstart]

theorem subspacesAbove_eq {x y : Exchange} (hs : y.splitter = x.other) (ho : y.other = x.splitter)
    (hstart : y.range.subspaces.start = x.range.subspaces.start) :
    y.subspacesAbove = x.subspacesAbove := by
  unfold subspacesAbove
  rw [hs, ho, hstart, List.map_append, List.map_append, List.toFinset_append,
    List.toFinset_append, Finset.union_comm]

/-- A part with the same start that misses an entry of the splitter is smaller. -/
theorem size_lt_of_missing {x y : Exchange} (hs : y.splitter = x.other)
    (ho : y.other = x.splitter) (hwithin : y.range.Within x.range)
    (hstart : y.range.subspaces.start = x.range.subspaces.start) {e : Entry}
    (he : e ∈ heldEntries namespaceId x.splitter x.range) (hmiss : ¬ y.range.IncludesEntry e) :
    y.size namespaceId < x.size namespaceId := by
  have h1 := count_lt hwithin he hmiss
  have h2 := @count_mono namespaceId x.other _ _ hwithin
  have h3 := subspacesAbove_eq hs ho hstart
  unfold size
  rw [hs, ho, h3]
  omega

/-- A part that starts at the subspace of an entry of the splitter is smaller. -/
theorem size_lt_of_start {x y : Exchange} (hs : y.splitter = x.other)
    (ho : y.other = x.splitter) (hwithin : y.range.Within x.range) {e : Entry}
    (he : e ∈ x.splitter) (hlt : x.range.subspaces.start < e.subspaceId)
    (hstart : y.range.subspaces.start = e.subspaceId) :
    y.size namespaceId < x.size namespaceId := by
  have h1 := @count_mono namespaceId x.splitter _ _ hwithin
  have h2 := @count_mono namespaceId x.other _ _ hwithin
  have h3 := subspacesAbove_lt hs ho he hlt hstart
  unfold size
  rw [hs, ho]
  omega

/-! ## Every split makes the exchange smaller -/

variable [Blake3]

/-- A split happens only above one entry, at a middle entry of the range, and
`y` is on one of its two halves. -/
theorem splits_halves {x y : Exchange} (h : x.Splits namespaceId y) :
    1 < x.count namespaceId ∧ ∃ mid ∈ heldEntries namespaceId x.splitter x.range,
      (sorted (heldEntries namespaceId x.splitter) x.range)[x.count namespaceId / 2]? = some mid ∧
      ∃ ranges, halves x.range mid = some ranges ∧ y.range ∈ ranges := by
  obtain ⟨-, -, parts, hparts, hmem⟩ := h
  by_cases hcount : x.count namespaceId ≤ 1
  · rw [splitRange_eq_sendEntries _ _ {} hcount] at hparts
    obtain rfl := Option.some.inj hparts
    simp at hmem
  · obtain ⟨mid, hmid, hget, hsplit⟩ := splitRange_eq_halves _ _ {} (not_le.mp hcount)
    rw [hsplit, Option.map_eq_some_iff] at hparts
    obtain ⟨ranges, hranges, rfl⟩ := hparts
    simp only [List.mem_map, Prod.mk.injEq] at hmem
    obtain ⟨range, hrange, hy, -⟩ := hmem
    exact ⟨not_le.mp hcount, mid, hmid, hget, ranges, hranges, hy ▸ hrange⟩

/-- **Descent.** Each split leaves a smaller exchange. -/
theorem size_lt_of_splits {x y : Exchange} (huniq : UniqueKeys x.splitter)
    (h : x.Splits namespaceId y) : y.size namespaceId < x.size namespaceId := by
  obtain ⟨hs, ho, -⟩ := id h
  obtain ⟨hcount, mid, hmem, hget, ranges, hhalves, hy⟩ := splits_halves h
  have hmid := (mem_heldEntries.mp hmem).2.2
  rcases halves_cases hmid with ⟨hlt, heq⟩ | ⟨hsub, -, heq⟩ | ⟨hsub, hpath, -⟩
  · -- by subspace: the lower half loses the middle entry, the upper half starts there
    obtain rfl := Option.some.inj (heq.symm.trans hhalves)
    have hcut := cut_subspaces hmid
    rcases List.mem_pair.mp hy with hr | hr
    · refine size_lt_of_missing hs ho (fun e he => ?_) (by rw [hr]; rfl) hmem ?_
      · exact (hcut.includes_iff e).mpr (Or.inl (hr ▸ he))
      · exact hr ▸ hcut.mid_notMem_lower
    · refine size_lt_of_start hs ho (fun e he => ?_) (mem_heldEntries.mp hmem).1 hlt
        (by rw [hr]; rfl)
      exact (hcut.includes_iff e).mpr (Or.inr (hr ▸ he))
  · -- by path: the lower half loses the middle entry, the upper half the first one
    obtain ⟨first, hfirst, hpath⟩ := exists_path_lt huniq hcount hmem hget hsub
    obtain rfl := Option.some.inj (heq.symm.trans hhalves)
    have hcut := cut_paths hmid
    rcases List.mem_pair.mp hy with hr | hr
    · refine size_lt_of_missing hs ho (fun e he => ?_) (by rw [hr]) hmem ?_
      · exact (hcut.includes_iff e).mpr (Or.inl (hr ▸ he))
      · exact hr ▸ hcut.mid_notMem_lower
    · refine size_lt_of_missing hs ho (fun e he => ?_) (by rw [hr]) hfirst ?_
      · exact (hcut.includes_iff e).mpr (Or.inr (hr ▸ he))
      · rw [hr]
        exact fun h => absurd h.2.1.1 (not_le.mpr hpath)
  · -- by time: impossible, as the first entry would have a path below the range
    obtain ⟨first, hfirst, hlt⟩ := exists_path_lt huniq hcount hmem hget hsub
    exact absurd (mem_heldEntries.mp hfirst).2.2.2.1.1 (not_le.mpr (hpath ▸ hlt))

/-- A range with more than one entry of the splitter can be split further. -/
theorem exists_splits {x : Exchange} (h : 1 < x.count namespaceId) :
    ∃ y, x.Splits namespaceId y := by
  obtain ⟨mid, hmem, -, hsplit⟩ := splitRange_eq_halves _ _ {} h
  obtain ⟨lower, upper, hhalves, -⟩ := halves_cut (mem_heldEntries.mp hmem).2.2
  rw [hhalves] at hsplit
  exact ⟨⟨x.other, x.splitter, lower, _⟩, rfl, rfl, _, hsplit, List.mem_cons_self⟩

/-! ## Chains of nested ranges -/

/-- Both peers hold at most one entry per key. -/
def UniquePeers (x : Exchange) : Prop := UniqueKeys x.splitter ∧ UniqueKeys x.other

theorem UniquePeers.splits {x y : Exchange} (hx : x.UniquePeers) (h : x.Splits namespaceId y) :
    y.UniquePeers := by
  obtain ⟨hs, ho, -⟩ := h
  exact ⟨hs ▸ hx.2, ho ▸ hx.1⟩

theorem chain_length_le {x : Exchange} {chain : List Exchange} (hx : x.UniquePeers)
    (h : List.IsChain (Splits namespaceId) (x :: chain)) : chain.length ≤ x.size namespaceId := by
  induction chain generalizing x with
  | nil => exact Nat.zero_le _
  | cons y chain ih =>
      obtain ⟨hxy, hchain⟩ := List.isChain_cons_cons.mp h
      have hrest := ih (hx.splits hxy) hchain
      have hlt := size_lt_of_splits hx.1 hxy
      rw [List.length_cons]
      omega

/-- `split_range` never panics in the exchange. -/
theorem splitRange_isSome (x : Exchange) :
    (splitRange (heldEntries namespaceId x.splitter) x.range {}).isSome := by
  obtain ⟨parts, h, -⟩ := splitRange_spec (heldEntries namespaceId x.splitter) x.range {}
    fun e he => (mem_heldEntries.mp he).2.2
  rw [h]
  rfl

end Exchange

section Termination

variable [Blake3]

/-- **The range exchange terminates.** From any range and any fingerprint of
it, two peers with unique keys that split alternately never panic, produce only
chains of bounded length, and a chain that ends, ends in a range where the
splitting peer has at most one entry. The same bound holds for the chains of
the session, where only mismatching non-empty fingerprints are split: there a
chain may also end in a fingerprint that matches or is empty. -/
theorem exchange_terminates (namespaceId : NamespaceId) (a b : List Entry) (range : Range3d)
    (fingerprint : Fingerprint) (ha : UniqueKeys a) (hb : UniqueKeys b) :
    let start : Exchange := ⟨a, b, range, fingerprint⟩
    (∀ x : Exchange, (splitRange (heldEntries namespaceId x.splitter) x.range {}).isSome) ∧
    (∀ chain, List.IsChain (Exchange.Splits namespaceId) (start :: chain) →
      chain.length ≤ start.size namespaceId ∧
      ((∀ y, ¬ (chain.getLastD start).Splits namespaceId y) →
        (chain.getLastD start).count namespaceId ≤ 1)) ∧
    ∀ chain, List.IsChain (Exchange.Answers namespaceId) (start :: chain) →
      chain.length ≤ start.size namespaceId ∧
      ((∀ y, ¬ (chain.getLastD start).Answers namespaceId y) →
        (chain.getLastD start).Mismatch namespaceId →
          (chain.getLastD start).count namespaceId ≤ 1) := by
  intro start
  have hstart : start.UniquePeers := ⟨ha, hb⟩
  refine ⟨Exchange.splitRange_isSome, fun chain hchain => ⟨?_, fun hend => ?_⟩,
    fun chain hchain => ⟨?_, fun hend hmis => ?_⟩⟩
  · exact Exchange.chain_length_le hstart hchain
  · by_contra hcount
    obtain ⟨y, hy⟩ := Exchange.exists_splits (not_le.mp hcount)
    exact hend y hy
  · exact Exchange.chain_length_le hstart (hchain.imp fun _ _ h => h.2)
  · by_contra hcount
    obtain ⟨y, hy⟩ := Exchange.exists_splits (not_le.mp hcount)
    exact hend y ⟨hmis, hy⟩

end Termination

/-- A peer with two entries splits, and the other peer holds one of them. -/
theorem exchange_terminates_two :
    let held := [Sample.bareEntryAt [[1]] 1, Sample.bareEntryAt [[2]] 2]
    let start : Exchange := ⟨held, [Sample.bareEntryAt [[2]] 2], .full, 4⟩
    UniqueKeys held ∧ start.count Sample.namespaceId = 2 ∧
    ∀ chain, List.IsChain (@Exchange.Splits Sample.namespaceId Sample.timestampHash)
        (start :: chain) → chain.length ≤ start.size Sample.namespaceId := by
  intro held start
  refine ⟨by decide, by decide, fun chain h => ?_⟩
  exact ((@exchange_terminates Sample.timestampHash Sample.namespaceId held
    [Sample.bareEntryAt [[2]] 2] .full 4 (by decide) (by decide)).2.1 chain h).1

end IrohWillow
