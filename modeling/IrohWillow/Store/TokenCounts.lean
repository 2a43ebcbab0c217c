import IrohWillow.Store.IngestProgress

/-!
# The reference counts of authorisation tokens

A token is shared by all stored entries with its signature, over all
namespaces. Its count should never be below the number of these entries, so
that a token that is still needed is never removed. `token_counts_iff` says for
which runs of `ingest_entry` this holds: an error undoes nothing, so a call
that fails after it has removed a token leaves the pruned entry without it.
Whether it does so depends on the tables before the call and on the operation
that fails.
-/

namespace IrohWillow.Persistent

section Counts

variable [Meadowcap]

/-- The stored entries that reference a token, over all namespaces. -/
def Tables.refs (t : Tables) (key : UserSignature) : Set (NamespaceId × Point) :=
  {x | ∃ v, (t.node x.1).lookup x.2 = some v ∧ v.authorisationTokenId = key}

/-- The tables have the token of every stored entry, and the counts cover the
references. -/
structure Held (t : Tables) : Prop where
  counted : ∀ key, (t.refs key).encard ≤ ((t.authTokenRefcount key).getD 0 : ℕ)
  kept : ∀ key, (t.refs key).Nonempty → (t.authTokens key).isSome
  positive : ∀ key n, t.authTokenRefcount key = some n → 0 < n ∧ (t.authTokens key).isSome

variable {t t' : Tables} {key : UserSignature}

theorem refs_congr (h : t'.namespaceNodes = t.namespaceNodes) : t'.refs key = t.refs key := by
  unfold Tables.refs Tables.node
  rw [h]

theorem Held.empty : Held ({} : Tables) where
  counted := by
    intro key
    simp [Tables.refs, Tables.node]
  kept := by
    rintro key ⟨x, v, hv, -⟩
    simp [Tables.node] at hv
  positive := by rintro key n ⟨⟩

/-! ## Reading -/

/-- A stored entry is never without its token. -/
theorem readStored_ne_missing (h : Held t) {ns : NamespaceId} {p : Point}
    {v : StoredAuthorisedEntry} (hv : (t.node ns).lookup p = some v) :
    readStored t ns p v ≠ .error .missingAuthToken := by
  obtain ⟨capability, hcapability⟩ := Option.isSome_iff_exists.mp
    (h.kept v.authorisationTokenId ⟨(ns, p), v, hv, rfl⟩)
  unfold readStored readStoredBy Tables.getEntryAuthToken
  rw [hcapability]
  dsimp only
  split <;> simp

theorem getAuthorisedEntries_ne_missing (h : Held t) (ns : NamespaceId) (range : Range3d) :
    Except.error .missingAuthToken ∉ t.getAuthorisedEntries ns range := by
  unfold Tables.getAuthorisedEntries
  cases hnode : t.namespaceNodes ns with
  | none => simp
  | some node =>
      intro hmem
      obtain ⟨⟨p, v⟩, hkv, hread⟩ := List.mem_map.mp hmem
      refine readStored_ne_missing h ?_ hread
      rw [Tables.node, hnode]
      exact (Node.mem_query.mp hkv).1

theorem getEntry_ne_missing (h : Held t) (immediateSuccessor : BlobSeq → BlobSeq)
    (ns : NamespaceId) (subspace : SubspaceId) (path : Path) :
    t.getEntry immediateSuccessor ns subspace path ≠ .error .missingAuthToken := by
  unfold Tables.getEntry
  cases hnode : t.namespaceNodes ns with
  | none => simp
  | some node =>
      dsimp only
      split
      · simp
      · rename_i point stored hlast
        have hkv := List.mem_mergeSort.mp (List.mem_of_getLast? hlast)
        have hread : readStored t ns point stored ≠ .error .missingAuthToken := by
          refine readStored_ne_missing h ?_
          rw [Tables.node, hnode]
          exact (Node.mem_query.mp hkv).1
        cases hres : readStored t ns point stored with
        | error e =>
            rw [hres] at hread
            intro heq
            exact hread (congrArg Except.error (Except.error.inj heq))
        | ok a => simp [Except.map]

variable [WillowStore]

/-- No read and no call meets an inconsistent database: the references are
counted, their tokens are there, and nothing reports otherwise. -/
structure NoDangling (t : Tables) : Prop where
  counted : ∀ key, (t.refs key).encard ≤ ((t.authTokenRefcount key).getD 0 : ℕ)
  kept : ∀ key, (t.refs key).Nonempty → (t.authTokens key).isSome
  getEntry : ∀ immediateSuccessor ns subspace path,
    t.getEntry immediateSuccessor ns subspace path ≠ .error .missingAuthToken
  getAuthorisedEntries : ∀ ns range,
    Except.error .missingAuthToken ∉ t.getAuthorisedEntries ns range
  prune : ∀ c, (t.tryIngest c).1 ≠ .error (.store .missingAuthToken) ∧
    (t.tryIngest c).1 ≠ .error (.store .inconsistentState)

/-! ## Pruned entries -/

section Pruning

variable {entry : AuthorisedEntry}

theorem mem_refs_of_mem_prunedBy {kv : Point × StoredAuthorisedEntry}
    (h : kv ∈ prunedBy t entry) :
    (entry.entry.namespaceId, kv.1) ∈ t.refs kv.2.authorisationTokenId :=
  ⟨kv.2, lookup_of_mem_prunedBy h, rfl⟩

omit [WillowStore] in
/-- A token that is counted once has one reference. -/
theorem Held.refs_subsingleton (h : Held t) {n : Nat}
    (hn : t.authTokenRefcount key = some n) (hzero : n - 1 = 0) : (t.refs key).Subsingleton := by
  have hle := h.counted key
  rw [hn, Option.getD_some] at hle
  have hone : ((n : ℕ) : ℕ∞) ≤ 1 := by exact_mod_cast (by omega : n ≤ 1)
  exact fun x hx y hy => Set.encard_le_one_iff.mp (hle.trans hone) x y hx hy

/-- A token that a call removes was referenced by one entry, which it prunes. -/
theorem Held.refs_of_spends (h : Held t) (hspends : Spends t (prunedBy t entry) key) :
    ∃ kv ∈ prunedBy t entry, kv.2.authorisationTokenId = key ∧
      t.refs key = {(entry.entry.namespaceId, kv.1)} := by
  obtain ⟨⟨kv, hkv, rfl⟩, n, hn, hzero⟩ := hspends
  refine ⟨kv, hkv, rfl, Set.Subset.antisymm ?_ ?_⟩
  · intro x hx
    exact h.refs_subsingleton hn hzero hx (mem_refs_of_mem_prunedBy hkv)
  · rintro x rfl
    exact mem_refs_of_mem_prunedBy hkv

/-- The prune step of a call finds every token it needs. -/
theorem Held.tryIngest_ne_inconsistent (h : Held t) (c : IngestCall) :
    (t.tryIngest c).1 ≠ .error (.store .missingAuthToken) ∧
      (t.tryIngest c).1 ≠ .error (.store .inconsistentState) := by
  have htoken : ∀ kv ∈ prunedBy t c.entry, t.authTokens kv.2.authorisationTokenId ≠ none := by
    intro kv hkv hnone
    have hsome := h.kept _ ⟨_, mem_refs_of_mem_prunedBy hkv⟩
    rw [hnone] at hsome
    cases hsome
  refine ⟨fun herr => ?_, fun herr => ?_⟩
  · obtain ⟨gone, kv, rest, hsplit, hmissing⟩ := (tryIngest_error herr).missing rfl
    have hkv : kv ∈ prunedBy t c.entry := by
      rw [hsplit]
      exact List.mem_append_right _ List.mem_cons_self
    rcases hmissing with ⟨⟨kv', hkv', hkey⟩, n, hn, hzero⟩ | hnone
    · -- two pruned entries with one token, which is counted once
      have hmem' : kv' ∈ prunedBy t c.entry := by
        rw [hsplit]
        exact List.mem_append_left _ hkv'
      have hsame := h.refs_subsingleton hn hzero (hkey ▸ mem_refs_of_mem_prunedBy hmem')
        (mem_refs_of_mem_prunedBy hkv)
      have hnodup := (t.node c.entry.entry.namespaceId).nodup_query
        (overwrittenRange c.entry.entry)
      change ((prunedBy t c.entry).map Prod.fst).Nodup at hnodup
      rw [hsplit, List.map_append, List.map_cons] at hnodup
      exact (List.nodup_append.mp hnodup).2.2 kv'.1 (List.mem_map_of_mem hkv') kv.1
        List.mem_cons_self (congrArg Prod.snd hsame)
    · exact htoken kv hkv hnone
  · obtain ⟨kv, hkv, hnone⟩ := (tryIngest_error herr).inconsistent rfl
    exact htoken kv hkv hnone

end Pruning

/-! ## One call -/

section Call

variable {entry : AuthorisedEntry}

/-- Where a call prunes. -/
def prunedAt (t : Tables) (entry : AuthorisedEntry) : Set (NamespaceId × Point) :=
  {x | x.1 = entry.entry.namespaceId ∧ x.2 ∈ (prunedBy t entry).map Prod.fst}

/-- After a successful call: the entry references its token, and the entries
that were neither pruned nor overwritten reference theirs. -/
theorem Ingested.mem_refs (h : Ingested t entry t') {x : NamespaceId × Point} :
    x ∈ t'.refs key ↔
      x = (entry.entry.namespaceId, entry.entry.point) ∧ key = entry.token.signature ∨
      x ≠ (entry.entry.namespaceId, entry.entry.point) ∧ x ∉ prunedAt t entry ∧
        x ∈ t.refs key := by
  obtain ⟨ns, p⟩ := x
  simp only [Tables.refs, prunedAt, Set.mem_ofPred_eq, Prod.mk.injEq, ne_eq]
  by_cases hns : ns = entry.entry.namespaceId
  · subst hns
    rw [h.node p]
    by_cases hp : p = entry.entry.point
    · subst hp
      simp only [if_true, Option.some.injEq, exists_eq_left', and_self, true_and, not_true,
        false_and, or_false]
      exact eq_comm
    · rw [if_neg hp]
      by_cases hmem : p ∈ (prunedBy t entry).map Prod.fst
      · rw [if_pos hmem]
        simp [hp, hmem]
      · rw [if_neg hmem]
        simp only [hp, hmem, and_false, false_and, not_false_eq_true, true_and, false_or]
  · rw [h.roots ns hns]
    simp only [hns, false_and, not_false_eq_true, true_and, false_or]

/-- A successful call keeps the counts above the references. -/
theorem Held.ingested (h : Held t) (hcall : Ingested t entry t') : Held t' := by
  have hsub : ∀ {key}, key ≠ entry.token.signature → t'.refs key ⊆ t.refs key := by
    intro key hne x hx
    rcases hcall.mem_refs.mp hx with ⟨-, heq⟩ | ⟨-, -, hx⟩
    · exact absurd heq hne
    · exact hx
  -- what the call spends has no reference left but its own
  have hspent : ∀ {key}, Spends t (prunedBy t entry) key →
      t'.refs key ⊆ {(entry.entry.namespaceId, entry.entry.point)} := by
    intro key hspends x hx
    obtain ⟨kv, hkv, -, hrefs⟩ := h.refs_of_spends hspends
    rcases hcall.mem_refs.mp hx with ⟨rfl, -⟩ | ⟨-, hnot, hx⟩
    · exact rfl
    · rw [hrefs] at hx
      obtain rfl := hx
      exact absurd ⟨rfl, List.mem_map_of_mem hkv⟩ hnot
  obtain ⟨hcapability, before, ⟨hbefore, hbefore'⟩, hcount⟩ := hcall.own
  refine ⟨fun key => ?_, fun key hrefs => ?_, fun key n hn => ?_⟩
  · by_cases hkey : key = entry.token.signature
    · subst hkey
      rw [hcount, Option.getD_some]
      by_cases hspends : Spends t (prunedBy t entry) entry.token.signature
      · rw [hbefore hspends]
        refine (Set.encard_le_encard (hspent hspends)).trans ?_
        rw [Set.encard_singleton]
        exact le_refl _
      · rw [hbefore' hspends]
        have hle : t'.refs entry.token.signature ⊆
            insert (entry.entry.namespaceId, entry.entry.point)
              (t.refs entry.token.signature) := by
          intro x hx
          rcases hcall.mem_refs.mp hx with ⟨rfl, -⟩ | ⟨-, -, hx⟩
          · exact Set.mem_insert _ _
          · exact Set.mem_insert_of_mem _ hx
        have hcounted := h.counted entry.token.signature
        calc (t'.refs entry.token.signature).encard
            ≤ (t.refs entry.token.signature).encard + 1 :=
              (Set.encard_le_encard hle).trans (Set.encard_insert_le _ _)
          _ ≤ ((t.authTokenRefcount entry.token.signature).getD 0 : ℕ) + 1 := by gcongr
          _ = (raised (t.authTokenRefcount entry.token.signature) : ℕ) := by
              cases t.authTokenRefcount entry.token.signature <;> simp [raised]
    · by_cases hspends : Spends t (prunedBy t entry) key
      · have hempty : t'.refs key = ∅ := by
          refine Set.eq_empty_of_subset_empty fun x hx => ?_
          obtain rfl := hspent hspends hx
          rcases hcall.mem_refs.mp hx with ⟨-, heq⟩ | ⟨hne, -⟩
          · exact hkey heq
          · exact hne rfl
        rw [hempty, Set.encard_empty]
        exact zero_le
      · rw [show t'.authTokenRefcount key = t.authTokenRefcount key from
          congrArg Prod.snd (hcall.others key hkey hspends)]
        exact (Set.encard_le_encard (hsub hkey)).trans (h.counted key)
  · by_cases hkey : key = entry.token.signature
    · rw [hkey, hcapability]
      rfl
    · by_cases hspends : Spends t (prunedBy t entry) key
      · obtain ⟨x, hx⟩ := hrefs
        have hx' := hspent hspends hx
        rcases hcall.mem_refs.mp hx with ⟨-, heq⟩ | ⟨hne, -⟩
        · exact absurd heq hkey
        · exact absurd hx' hne
      · rw [show t'.authTokens key = t.authTokens key from
          congrArg Prod.fst (hcall.others key hkey hspends)]
        exact h.kept key (hrefs.mono (hsub hkey))
  · by_cases hkey : key = entry.token.signature
    · subst hkey
      rw [hcount] at hn
      obtain rfl := Option.some.inj hn
      refine ⟨?_, by rw [hcapability]; rfl⟩
      cases before <;> simp [raised]
    · by_cases hspends : Spends t (prunedBy t entry) key
      · rw [show t'.authTokenRefcount key = none from
          congrArg Prod.snd (hcall.spent key hkey hspends)] at hn
        cases hn
      · have hsame := hcall.others key hkey hspends
        rw [show t'.authTokenRefcount key = t.authTokenRefcount key from
          congrArg Prod.snd hsame] at hn
        rw [show t'.authTokens key = t.authTokens key from congrArg Prod.fst hsame]
        exact h.positive key n hn

/-- The call has taken away a token or a count that was there. -/
def Loses (t t' : Tables) : Prop :=
  ∃ key, ((t.authTokens key).isSome ∧ t'.authTokens key = none) ∨
    ((t.authTokenRefcount key).isSome ∧ t'.authTokenRefcount key = none)

/-- A call that fails without taking a token away does no harm. -/
theorem Held.cutShort {e : IngestError} (h : Held t) (hcall : CutShort t entry e t')
    (hnot : ¬ Loses t t') : Held t' := by
  have hrefs : ∀ key, t'.refs key = t.refs key := fun _ => refs_congr hcall.roots
  -- every token that a call takes away was there
  have hrow : ∀ key, t'.token key = t.token key ∨
      key = entry.token.signature ∧ t'.authTokens key = some entry.token.capability ∧
        ∃ before, Remaining t entry before ∧
          (t'.authTokenRefcount key = t.authTokenRefcount key ∨
            t'.authTokenRefcount key = some (raised before)) := by
    intro key
    rcases hcall.token key with hsame | ⟨⟨-, n, hn, -⟩, hlost⟩ | hstored
    · exact Or.inl hsame
    · exfalso
      refine hnot ⟨key, hlost.imp (fun hnone => ⟨(h.positive key n hn).2, hnone⟩)
        fun hnone => ⟨?_, hnone⟩⟩
      rw [hn]
      rfl
    · exact Or.inr hstored
  have hcount : ∀ key, (t.authTokenRefcount key).getD 0 ≤ (t'.authTokenRefcount key).getD 0 := by
    intro key
    rcases hrow key with hsame | ⟨rfl, -, before, ⟨hspent, hleft⟩, hsame | hraised⟩
    · exact (congrArg (fun r : Option McCapability × Option Nat => r.2.getD 0) hsame).ge
    · rw [hsame]
    · rw [hraised, Option.getD_some]
      by_cases hspends : Spends t (prunedBy t entry) entry.token.signature
      · rw [hspent hspends]
        obtain ⟨-, n, hn, hzero⟩ := hspends
        rw [hn, Option.getD_some, raised]
        omega
      · rw [hleft hspends]
        cases t.authTokenRefcount entry.token.signature <;> simp [raised]
  refine ⟨fun key => ?_, fun key hne => ?_, fun key n hn => ?_⟩
  · rw [hrefs]
    exact (h.counted key).trans (by exact_mod_cast hcount key)
  · rw [hrefs] at hne
    rcases hrow key with hsame | ⟨-, hstored, -⟩
    · rw [show t'.authTokens key = t.authTokens key from congrArg Prod.fst hsame]
      exact h.kept key hne
    · rw [hstored]
      rfl
  · rcases hrow key with hsame | ⟨-, hstored, before, -, hsame | hraised⟩
    · rw [show t'.authTokenRefcount key = t.authTokenRefcount key from congrArg Prod.snd hsame]
        at hn
      rw [show t'.authTokens key = t.authTokens key from congrArg Prod.fst hsame]
      exact h.positive key n hn
    · rw [hsame] at hn
      exact ⟨(h.positive key n hn).1, by rw [hstored]; rfl⟩
    · rw [hraised] at hn
      obtain rfl := Option.some.inj hn
      refine ⟨?_, by rw [hstored]; rfl⟩
      cases before <;> simp [raised]

/-- A call that fails after it has taken a token away leaves an entry without
it. -/
theorem not_noDangling_of_loses {e : IngestError} (hcall : CutShort t entry e t')
    (hloses : Loses t t') : ¬ NoDangling t' := by
  intro hgood
  obtain ⟨key, hlost⟩ := hloses
  have hrefs : t'.refs key = t.refs key := refs_congr hcall.roots
  rcases hcall.token key with hsame | ⟨⟨⟨kv, hkv, rfl⟩, -⟩, hnone⟩ |
    ⟨rfl, hstored, before, -, hcount⟩
  · obtain ⟨h1, h2⟩ := Prod.mk.inj hsame
    rw [h1, h2] at hlost
    rcases hlost with ⟨hsome, hnone⟩ | ⟨hsome, hnone⟩ <;> simp [hnone] at hsome
  · have hmem := hrefs ▸ mem_refs_of_mem_prunedBy hkv
    rcases hnone with hnone | hnone
    · have hkept := hgood.kept _ ⟨_, hmem⟩
      rw [hnone] at hkept
      cases hkept
    · have hle := hgood.counted kv.2.authorisationTokenId
      rw [hnone, Option.getD_none, Nat.cast_zero, nonpos_iff_eq_zero, Set.encard_eq_zero] at hle
      rw [hle] at hmem
      exact hmem
  · rcases hlost with ⟨-, hnone⟩ | ⟨hsome, hnone⟩
    · rw [hstored] at hnone
      cases hnone
    · rcases hcount with hsame | hraised
      · rw [← hsame, hnone] at hsome
        cases hsome
      · rw [hraised] at hnone
        cases hnone

end Call

theorem Held.noDangling (h : Held t) : NoDangling t where
  counted := h.counted
  kept := h.kept
  getEntry := getEntry_ne_missing h
  getAuthorisedEntries := getAuthorisedEntries_ne_missing h
  prune := h.tryIngest_ne_inconsistent

/-! ## Whole runs -/

/-- The call gets as far as to take a token away, and then not as far as its
end or, where the token is its own, as counting it again. -/
def Torn (t : Tables) (c : IngestCall) : Prop :=
  ∃ key, Takes t c.entry c.left (prunedBy t c.entry) key ∧
    ¬ Completes t c (if key = c.entry.token.signature then 3 else 5)

omit [WillowStore] in
/-- A token that is taken was there. -/
theorem Takes.isSome {entry : AuthorisedEntry} {left : Option Nat}
    {candidates : List (Point × StoredAuthorisedEntry)} (h : Takes t entry left candidates key) :
    (t.authTokens key).isSome := by
  obtain ⟨gone, kv, rest, -, rfl, -, hruns, -⟩ := h
  obtain ⟨-, a, ha⟩ := (loopRuns_concat.mp hruns).2
  obtain ⟨capability, htoken, -⟩ := readStored_found ha
  rw [htoken]
  rfl

omit [WillowStore] in
/-- A token whose row stays is not lost. -/
theorem not_lost_of_token {key : UserSignature} (h : t'.token key = t.token key) :
    ¬ (((t.authTokens key).isSome ∧ t'.authTokens key = none) ∨
      ((t.authTokenRefcount key).isSome ∧ t'.authTokenRefcount key = none)) := by
  obtain ⟨h1, h2⟩ := Prod.mk.inj h
  rw [h1, h2]
  rintro (⟨hsome, hnone⟩ | ⟨hsome, hnone⟩) <;> simp [hnone] at hsome

/-- The calls that are torn are those that fail and have taken a token or a
count away. -/
theorem torn_iff {c : IngestCall} :
    Torn t c ↔ (∃ e, (t.tryIngest c).1 = .error e) ∧ Loses t (t.tryIngest c).2 := by
  rcases tryIngest_ends t c with ⟨hnot, herr, htaken, hothers⟩ |
    ⟨j, hj, hreached, hnot, herr, s, hpruned, hothers, hown⟩ | ⟨hall, b, hok⟩
  · -- the call ends in the loop or before it
    constructor
    · rintro ⟨key, htakes, -⟩
      exact ⟨herr, key, Or.inl ⟨htakes.isSome, htaken key htakes⟩⟩
    · rintro ⟨-, key, hlost⟩
      refine ⟨key, ?_, fun hcompletes => hnot (hcompletes.mono (Nat.zero_le _))⟩
      by_contra htakes
      exact not_lost_of_token (hothers key htakes) hlost
  · -- the call ends while the entry is stored
    have hspends : ∀ key, Takes t c.entry c.left (prunedBy t c.entry) key ↔
        Spends t (prunedBy t c.entry) key := fun key =>
      takes_iff_spends hreached.1 (hreached.2.mono (by omega))
    obtain ⟨hcapability, hcount⟩ := Prod.mk.inj hown
    constructor
    · rintro ⟨key, htakes, hshort⟩
      refine ⟨herr, key, ?_⟩
      have hspent := hpruned.spent key ((hspends key).mp htakes)
      by_cases hkey : key = c.entry.token.signature
      · -- its own token: the count is missing
        subst hkey
        rw [if_pos rfl] at hshort
        have hj3 : j < 3 := by
          by_contra hge
          exact hshort (hreached.mono (not_lt.mp hge))
        obtain ⟨n, hn, -⟩ := ((hspends _).mp htakes).countedOnce
        refine Or.inr ⟨by rw [hn]; rfl, ?_⟩
        rw [hcount, if_pos hj3]
        exact congrArg Prod.snd hspent
      · refine Or.inl ⟨htakes.isSome, ?_⟩
        exact congrArg Prod.fst ((hothers key hkey).trans hspent)
    · rintro ⟨-, key, hlost⟩
      by_cases hkey : key = c.entry.token.signature
      · subst hkey
        have hj3 : j < 3 := by
          by_contra hge
          rw [hcapability, hcount, if_neg (by omega : ¬ j = 0), if_neg hge] at hlost
          rcases hlost with ⟨-, hnone⟩ | ⟨-, hnone⟩ <;> cases hnone
        refine ⟨c.entry.token.signature, (hspends _).mpr ?_, fun hcompletes => hnot ?_⟩
        · by_contra hkept
          obtain ⟨h1, h2⟩ := Prod.mk.inj (hpruned.others _ hkept)
          rw [hcapability, hcount, if_pos hj3, h2] at hlost
          rcases hlost with ⟨hsome, hnone⟩ | ⟨hsome, hnone⟩
          · split at hnone
            · rw [← h1, hnone] at hsome
              cases hsome
            · cases hnone
          · rw [hnone] at hsome
            cases hsome
        · rw [if_pos rfl] at hcompletes
          exact hcompletes.mono (by omega)
      · refine ⟨key, (hspends key).mpr ?_, fun hcompletes => hnot ?_⟩
        · by_contra hkept
          exact not_lost_of_token ((hothers key hkey).trans (hpruned.others key hkept)) hlost
        · rw [if_neg hkey] at hcompletes
          exact hcompletes.mono (by omega)
  · -- the call succeeds
    refine iff_of_false ?_ (by rintro ⟨⟨e, he⟩, -⟩; rw [hok] at he; cases he)
    rintro ⟨key, -, hshort⟩
    refine hshort (hall.mono ?_)
    split <;> omega

theorem Held.step (h : Held t) {c : IngestCall} (hnot : ¬ Torn t c) : Held (t.tryIngest c).2 := by
  cases hres : (t.tryIngest c).1 with
  | ok res => exact h.ingested (tryIngest_ok hres)
  | error e =>
      refine h.cutShort (tryIngest_error hres) fun hloses => ?_
      exact hnot (torn_iff.mpr ⟨⟨e, hres⟩, hloses⟩)

/-- **No dangling token, exactly.** Along a list of calls into the empty
database, over any namespaces and with any operations failing, the counts cover
the references and no read or call meets an inconsistent database, if and only
if no call gets as far as to take a token away and not as far as its end. -/
theorem token_counts_iff (l : List IngestCall) :
    (∀ p, p <+: l → NoDangling (({} : Tables).tryAll p)) ↔
      ∀ p c, p ++ [c] <+: l → ¬ Torn (({} : Tables).tryAll p) c := by
  constructor
  · intro hgood p c hpc htorn
    obtain ⟨⟨e, herr⟩, hloses⟩ := torn_iff.mp htorn
    have hlast := hgood (p ++ [c]) hpc
    rw [Tables.tryAll_concat] at hlast
    exact not_noDangling_of_loses (tryIngest_error herr) hloses hlast
  · intro hnot p hp
    refine Held.noDangling ?_
    induction p using List.reverseRecOn with
    | nil => exact Held.empty
    | append_singleton p c ih =>
        rw [Tables.tryAll_concat]
        exact (ih ((List.prefix_append _ _).trans hp)).step (hnot p c hp)

end Counts

/-! ### A call that is cut short -/

section Samples

open IrohWillow.Sample

attribute [local instance] acceptingSignatures Persistent.Sample.appendZero

/-- An entry, and a newer one at its path: the call deletes the first entry and
its token, and then the write of its own token fails. -/
def cutShort : List IngestCall :=
  [{ entry := (signedAt 1 1).1, origin := .localOrigin },
    { entry := (signedAt 2 2).1, origin := .localOrigin, left := some 7 }]

/-- The first entry is still in the tree, without its token. -/
theorem cutShort_dangles :
    ¬ ∀ (_ : Meadowcap) (_ : WillowStore) (l : List IngestCall),
      NoDangling (({} : Tables).tryAll l) := by
  intro h
  have hgood := h acceptingSignatures Persistent.Sample.appendZero cutShort
  have hlook : ((({} : Tables).tryAll cutShort).node namespaceId).lookup
      (signedAt 1 1).1.entry.point = some (.fromAuthorisedEntry (signedAt 1 1).1) := by decide
  have hkept := hgood.kept (.ofByte 1) ⟨(namespaceId, _), _, hlook, rfl⟩
  have hnone : (({} : Tables).tryAll cutShort).authTokens (.ofByte 1) = none := by decide
  rw [hnone] at hkept
  cases hkept

end Samples

end IrohWillow.Persistent
