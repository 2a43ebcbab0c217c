import IrohWillow.Session.Storage

/-!
# An ideal store

A store that does what the reconciler expects of one: it keeps exactly the
entries that no other entry prunes, never fails, and reads through the default
methods of `EntryReader`.
-/

namespace IrohWillow

/-- The entries of a store, and its blobs as the chunks they are sent in. -/
structure IdealStore [Meadowcap] where
  entries : List AuthorisedEntry := []
  blobs : List (PayloadDigest × List Chunk) := []

namespace IdealStore

variable [Meadowcap]

/-- `EntryReader::get_authorised_entries` -/
def entriesIn (s : IdealStore) (ns : NamespaceId) (range : Range3d) : List AuthorisedEntry :=
  s.entries.filter fun a => decide (a.entry.namespaceId = ns ∧ range.IncludesEntry a.entry)

/-- `EntryReader::get_entries` -/
def getEntries (s : IdealStore) (ns : NamespaceId) (range : Range3d) : List Entry :=
  (s.entriesIn ns range).map (·.entry)

/-- The store has the entry, or one that prunes it. -/
def Covers (s : IdealStore) (e : Entry) : Prop :=
  ∃ d ∈ s.entries, d.entry.namespaceId = e.namespaceId ∧ (d.entry = e ∨ d.entry.Prunes e)

instance (s : IdealStore) (e : Entry) : Decidable (s.Covers e) :=
  inferInstanceAs (Decidable (∃ d ∈ s.entries, _))

/-- An entry that is not covered is added, and what it prunes is removed. -/
def ingest (s : IdealStore) (a : AuthorisedEntry) : Bool × IdealStore :=
  if s.Covers a.entry then (false, s)
  else
    let kept := s.entries.filter fun d =>
      decide (¬ (d.entry.namespaceId = a.entry.namespaceId ∧ a.entry.Prunes d.entry))
    (true, { s with entries := a :: kept })

instance [Blake3] : Storage IdealStore where
  fingerprint s ns range := .ok (EntryReader.fingerprint (s.getEntries ns) range)
  splitRange s ns range opts :=
    match EntryReader.splitRange (s.getEntries ns) range opts with
    | some parts => parts.map .ok
    | none => [.error .store]
  getAuthorisedEntries s ns range := .ok ((s.entriesIn ns range).map .ok)
  ingestEntry s a _ := (.ok (s.ingest a).1, (s.ingest a).2)
  payloadChunks s digest := .ok (s.blobs.lookup digest)
  importChunks s digest _ chunks := (.ok (), { s with blobs := (digest, chunks) :: s.blobs })

theorem mem_entriesIn {s : IdealStore} {ns : NamespaceId} {range : Range3d} {a : AuthorisedEntry} :
    a ∈ s.entriesIn ns range ↔
      a ∈ s.entries ∧ a.entry.namespaceId = ns ∧ range.IncludesEntry a.entry := by
  simp [entriesIn]

theorem getEntries_includes {s : IdealStore} {ns : NamespaceId} {range : Range3d} {e : Entry}
    (h : e ∈ s.getEntries ns range) : range.IncludesEntry e := by
  obtain ⟨a, ha, rfl⟩ := List.mem_map.mp h
  exact (mem_entriesIn.mp ha).2.2

/-- The entries of a namespace. -/
def contents (s : IdealStore) (ns : NamespaceId) : Set Entry :=
  {e | ∃ a ∈ s.entries, a.entry = e ∧ e.namespaceId = ns}

theorem covers_iff {s : IdealStore} {e : Entry} :
    s.Covers e ↔ Frontier.Covered Entry.Prunes (s.contents e.namespaceId) e := by
  constructor
  · rintro ⟨a, ha, hns, h⟩
    exact ⟨a.entry, ⟨a, ha, rfl, hns⟩, h⟩
  · rintro ⟨d, ⟨a, ha, rfl, hns⟩, h⟩
    exact ⟨a, ha, hns, h⟩

/-- An entry is never stored twice. -/
theorem nodup_ingest {s : IdealStore} (hs : (s.entries.map (·.entry)).Nodup)
    (a : AuthorisedEntry) : ((s.ingest a).2.entries.map (·.entry)).Nodup := by
  unfold ingest
  split
  · exact hs
  · rename_i hcov
    refine List.nodup_cons.mpr ⟨fun hmem => ?_, hs.sublist (List.filter_sublist.map _)⟩
    obtain ⟨d, hd, heq⟩ := List.mem_map.mp hmem
    exact hcov ⟨d, List.mem_of_mem_filter hd, by rw [heq], Or.inl heq⟩

theorem finite_contents (s : IdealStore) (ns : NamespaceId) : (s.contents ns).Finite := by
  refine (s.entries.map (·.entry)).finite_toSet.subset ?_
  rintro e ⟨a, ha, rfl, -⟩
  exact List.mem_map_of_mem ha

theorem contents_ingest (s : IdealStore) (a : AuthorisedEntry)
    (hs : ∀ ns, Frontier.frontier Entry.Prunes (s.contents ns) = s.contents ns)
    (ns : NamespaceId) :
    (s.ingest a).2.contents ns =
      if a.entry.namespaceId = ns then
        Frontier.frontier Entry.Prunes (insert a.entry (s.contents ns))
      else s.contents ns := by
  unfold ingest
  by_cases hcov : s.Covers a.entry
  · rw [if_pos hcov]
    split
    · rename_i hns
      subst hns
      rw [Frontier.frontier_insert_of_covered, hs]
      rw [hs]
      exact covers_iff.mp hcov
    · rfl
  · rw [if_neg hcov]
    ext e
    split
    · rename_i hns
      subst hns
      rw [Frontier.frontier_insert_of_not_covered (finite_contents s _) (by
        rw [hs]
        exact fun h => hcov (covers_iff.mpr h)), hs]
      simp only [contents, Set.mem_ofPred_eq, Set.mem_insert_iff, List.mem_cons, List.mem_filter,
        decide_eq_true_eq]
      constructor
      · rintro ⟨b, rfl | ⟨hb, hkept⟩, rfl, hns⟩
        · exact Or.inl rfl
        · exact Or.inr ⟨⟨b, hb, rfl, hns⟩, fun hprunes => hkept ⟨hns, hprunes⟩⟩
      · rintro (rfl | ⟨⟨b, hb, rfl, hns⟩, hkept⟩)
        · exact ⟨a, Or.inl rfl, rfl, rfl⟩
        · exact ⟨b, Or.inr ⟨hb, fun h => hkept h.2⟩, rfl, hns⟩
    · rename_i hns
      simp only [contents, Set.mem_ofPred_eq, List.mem_cons, List.mem_filter, decide_eq_true_eq]
      constructor
      · rintro ⟨b, rfl | ⟨hb, -⟩, rfl, hb'⟩
        · exact absurd hb' hns
        · exact ⟨b, hb, rfl, hb'⟩
      · rintro ⟨b, hb, rfl, hb'⟩
        exact ⟨b, Or.inr ⟨hb, fun h => hns (h.1.symm.trans hb')⟩, rfl, hb'⟩

variable [Blake3]

/-- A split returns the parts that `EntryReader::split_range` promises. -/
theorem splitRange_eq (s : IdealStore) (ns : NamespaceId) (range : Range3d) :
    ∃ parts, Storage.splitRange s ns range {} = parts.map .ok ∧ parts ≠ [] ∧
      (∀ part ∈ parts, part.1.Within range) ∧
      (∀ e, range.IncludesEntry e → ∃ part ∈ parts, part.1.IncludesEntry e) ∧
      ∀ part ∈ parts,
        part.2 = .sendFingerprint (EntryReader.fingerprint (s.getEntries ns) part.1) ∨
        part.2 = .sendEntries (EntryReader.count (s.getEntries ns) part.1) := by
  obtain ⟨parts, hparts, hrest⟩ := EntryReader.splitRange_spec (s.getEntries ns) range {}
    fun e he => getEntries_includes he
  refine ⟨parts, ?_, hrest⟩
  simp only [Storage.splitRange, hparts]

theorem readsInRange : Storage.ReadsInRange IdealStore where
  entries s ns range entries a h ha := by
    obtain rfl := Except.ok.inj h
    obtain ⟨a', ha', heq⟩ := List.mem_map.mp ha
    obtain rfl := Except.ok.inj heq
    exact (mem_entriesIn.mp ha').2
  split s ns range part h := by
    obtain ⟨parts, hparts, -, hwithin, -⟩ := splitRange_eq s ns range
    rw [hparts] at h
    obtain ⟨part', hpart, heq⟩ := List.mem_map.mp h
    obtain rfl := Except.ok.inj heq
    exact hwithin part' hpart

theorem neverFails : Storage.NeverFails IdealStore where
  fingerprint _ _ _ := ⟨_, rfl⟩
  split s ns range := by
    obtain ⟨parts, hparts, hne, -⟩ := splitRange_eq s ns range
    exact ⟨parts, hne, hparts⟩
  entries _ _ _ := ⟨_, rfl⟩
  ingest _ _ _ := ⟨_, rfl⟩
  payload _ _ := ⟨_, rfl⟩
  importPayload _ _ _ _ _ _ _ _ _ _ := rfl

theorem importsByContent : Storage.ImportsByContent IdealStore :=
  fun _ _ _ _ _ _ => rfl

theorem keepsFrontier : Storage.KeepsFrontier contents where
  finite := finite_contents
  namespaceId _ _ _ he := by
    obtain ⟨_, _, _, hns⟩ := he
    exact hns
  entries s ns range as has e := by
    obtain rfl : s.entriesIn ns range = as :=
      List.map_injective_iff.mpr (fun _ _ h => Except.ok.inj h) (Except.ok.inj has)
    constructor
    · rintro ⟨a, ha, rfl⟩
      obtain ⟨hmem, hns, hrange⟩ := mem_entriesIn.mp ha
      exact ⟨⟨a, hmem, rfl, hns⟩, hrange⟩
    · rintro ⟨⟨a, hmem, rfl, hns⟩, hrange⟩
      exact ⟨a, mem_entriesIn.mpr ⟨hmem, hns, hrange⟩, rfl⟩
  ingest s a _ hs ns := contents_ingest s a hs ns
  importChunks _ _ _ _ := rfl
  split_covers s ns range parts h := by
    obtain ⟨parts', hparts, -, -, hcover, -⟩ := splitRange_eq s ns range
    obtain rfl : parts' = parts :=
      List.map_injective_iff.mpr (fun _ _ h => Except.ok.inj h) (hparts.symm.trans h)
    exact hcover
  split_fingerprint s ns range parts h r fp hmem := by
    obtain ⟨parts', hparts, -, -, -, hown⟩ := splitRange_eq s ns range
    obtain rfl : parts' = parts :=
      List.map_injective_iff.mpr (fun _ _ h => Except.ok.inj h) (hparts.symm.trans h)
    rcases hown _ hmem with heq | heq
    · rw [SplitAction.sendFingerprint.inj heq]
      rfl
    · cases heq
  split_empty s ns range parts h r hmem e he hr := by
    obtain ⟨parts', hparts, -, -, -, hown⟩ := splitRange_eq s ns range
    obtain rfl : parts' = parts :=
      List.map_injective_iff.mpr (fun _ _ h => Except.ok.inj h) (hparts.symm.trans h)
    rcases hown _ hmem with heq | heq
    · cases heq
    · obtain ⟨a, ha, rfl, hns⟩ := he
      have hin : a.entry ∈ s.getEntries ns r :=
        List.mem_map_of_mem (mem_entriesIn.mpr ⟨ha, hns, hr⟩)
      have hnil : s.getEntries ns r = [] :=
        List.eq_nil_of_length_eq_zero (SplitAction.sendEntries.inj heq).symm
      rw [hnil] at hin
      cases hin

end IdealStore

end IrohWillow
