import IrohWillow.Store.TokenCounts

/-!
# Tokens that nothing references

The token tables should hold the tokens of stored entries only. A count is
raised on every ingestion, also of an entry that is there already, but
`remove_entry_auth_token` writes a decremented count back only when it is zero,
and an overwritten entry does not give its token back at all.
`token_leaks_iff` says which calls leave a token behind.
-/

namespace IrohWillow.Persistent

section Leaks

variable [Meadowcap]

/-- The key is in one of the token tables. -/
def Present (t : Tables) (key : UserSignature) : Prop :=
  (t.authTokens key).isSome ∨ (t.authTokenRefcount key).isSome

/-- Every key of the token tables is the token of a stored entry. -/
def NoLeak (t : Tables) : Prop := ∀ key, Present t key → (t.refs key).Nonempty

theorem NoLeak.empty : NoLeak ({} : Tables) := by
  rintro key (h | h) <;> cases h

theorem present_congr {t t' : Tables} {key : UserSignature} (h : t'.token key = t.token key) :
    Present t' key ↔ Present t key := by
  obtain ⟨h1, h2⟩ := Prod.mk.inj h
  unfold Present
  rw [h1, h2]

theorem not_present_of_token {t : Tables} {key : UserSignature}
    (h : t.token key = (none, none)) : ¬ Present t key := by
  obtain ⟨h1, h2⟩ := Prod.mk.inj h
  unfold Present
  rw [h1, h2]
  simp

variable [WillowStore]

/-- All entries with the token leave the tree in this call, and the token is not
among those that the call takes away: its count is above one, or none of the
entries is pruned. -/
def LeftBehind (t : Tables) (entry : AuthorisedEntry) (key : UserSignature) : Prop :=
  key ≠ entry.token.signature ∧ Present t key ∧
    (∀ x ∈ t.refs key, x ∈ prunedAt t entry ∨
      x = (entry.entry.namespaceId, entry.entry.point)) ∧
    ¬ Spends t (prunedBy t entry) key

/-- The call succeeds and takes the last entry with some token without taking
the token; or no entry has its own token, and it gets as far as to store the
token and not as far as its end. -/
def Leaky (t : Tables) (c : IngestCall) : Prop :=
  Completes t c 5 ∧ (∃ key, LeftBehind t c.entry key) ∨
    t.refs c.entry.token.signature = ∅ ∧ Completes t c 1 ∧ ¬ Completes t c 5

variable {t t' : Tables} {entry : AuthorisedEntry} {key : UserSignature}

/-- After a successful call the entry itself references its token. -/
theorem Ingested.own_mem_refs (h : Ingested t entry t') :
    (entry.entry.namespaceId, entry.entry.point) ∈ t'.refs entry.token.signature :=
  h.mem_refs.mpr (Or.inl ⟨rfl, rfl⟩)

/-- The references of another token that are left. -/
theorem Ingested.refs_nonempty_iff (h : Ingested t entry t')
    (hkey : key ≠ entry.token.signature) :
    (t'.refs key).Nonempty ↔ ∃ x ∈ t.refs key, ¬ (x ∈ prunedAt t entry ∨
      x = (entry.entry.namespaceId, entry.entry.point)) := by
  constructor
  · rintro ⟨x, hx⟩
    rcases h.mem_refs.mp hx with ⟨-, heq⟩ | ⟨hne, hnot, hx⟩
    · exact absurd heq hkey
    · exact ⟨x, hx, not_or.mpr ⟨hnot, hne⟩⟩
  · rintro ⟨x, hx, hnot⟩
    exact ⟨x, h.mem_refs.mpr (Or.inr ⟨fun hx => hnot (Or.inr hx), fun hx => hnot (Or.inl hx), hx⟩)⟩

/-- Which other tokens are still in the tables. -/
theorem Ingested.present_iff (h : Ingested t entry t') (hkey : key ≠ entry.token.signature) :
    Present t' key ↔ Present t key ∧ ¬ Spends t (prunedBy t entry) key := by
  by_cases hspends : Spends t (prunedBy t entry) key
  · exact iff_of_false (not_present_of_token (h.spent key hkey hspends)) fun hand =>
      hand.2 hspends
  · rw [present_congr (h.others key hkey hspends)]
    exact (and_iff_left hspends).symm

/-- A successful call leaks exactly the tokens it leaves behind. -/
theorem Ingested.noLeak_iff (h : Ingested t entry t') :
    NoLeak t' ↔ ¬ ∃ key, LeftBehind t entry key := by
  constructor
  · rintro hgood ⟨key, hkey, hpresent, hgone, hspends⟩
    have hrefs := hgood key ((h.present_iff hkey).mpr ⟨hpresent, hspends⟩)
    obtain ⟨x, hx, hnot⟩ := (h.refs_nonempty_iff hkey).mp hrefs
    exact hnot (hgone x hx)
  · intro hnot key hpresent
    by_cases hkey : key = entry.token.signature
    · subst hkey
      exact ⟨_, h.own_mem_refs⟩
    · obtain ⟨hpresent, hspends⟩ := (h.present_iff hkey).mp hpresent
      rw [h.refs_nonempty_iff hkey]
      by_contra hnone
      push Not at hnone
      exact hnot ⟨key, hkey, hpresent, hnone, hspends⟩

/-- A failed call leaks at most its own token. -/
theorem CutShort.noLeak_iff {e : IngestError} (h : CutShort t entry e t') (hgood : NoLeak t) :
    NoLeak t' ↔ ¬ (Present t' entry.token.signature ∧ t.refs entry.token.signature = ∅) := by
  have hrefs : ∀ key, t'.refs key = t.refs key := fun _ => refs_congr h.roots
  constructor
  · rintro hgood' ⟨hpresent, hempty⟩
    have hne := hgood' _ hpresent
    rw [hrefs, hempty] at hne
    exact Set.not_nonempty_empty hne
  · intro hnot key hpresent
    rw [hrefs]
    rcases h.token key with hsame | ⟨⟨-, n, hn, -⟩, -⟩ | ⟨rfl, -⟩
    · exact hgood key ((present_congr hsame).mp hpresent)
    · refine hgood key (Or.inr ?_)
      rw [hn]
      rfl
    · by_contra hempty
      exact hnot ⟨hpresent, Set.not_nonempty_iff_eq_empty.mp hempty⟩

/-- A token that no entry has is there after a failed call if the call has
stored it. -/
theorem NoLeak.present_iff (hgood : NoLeak t) {c : IngestCall}
    (hempty : t.refs c.entry.token.signature = ∅) {e : IngestError}
    (herr : (t.tryIngest c).1 = .error e) :
    Present (t.tryIngest c).2 c.entry.token.signature ↔ Completes t c 1 := by
  have habsent : ¬ Present t c.entry.token.signature := fun hpresent =>
    Set.not_nonempty_empty (hempty ▸ hgood _ hpresent)
  -- the token is not counted, so the loop does not take it
  have hcount : ¬ CountedOnce t c.entry.token.signature := by
    rintro ⟨n, hn, -⟩
    exact habsent (Or.inr (by rw [hn]; rfl))
  rcases tryIngest_ends t c with ⟨hnot, -, -, hothers⟩ |
    ⟨j, hj, hreached, hnot, -, s, hpruned, -, hown⟩ | ⟨-, b, hok⟩
  · refine iff_of_false ?_ fun hcompletes => hnot (hcompletes.mono (by omega))
    rw [present_congr (hothers _ ?_)]
    · exact habsent
    · rintro ⟨-, -, -, -, -, honce, -⟩
      exact hcount honce
  · by_cases hj0 : j = 0
    · subst hj0
      refine iff_of_false ?_ hnot
      rw [present_congr (hown.trans (hpruned.others _ fun hspends => hcount hspends.countedOnce))]
      exact habsent
    · refine iff_of_true (Or.inl ?_) (hreached.mono (by omega))
      rw [show (t.tryIngest c).2.authTokens c.entry.token.signature = _ from
        congrArg Prod.fst hown, if_neg hj0]
      rfl
  · rw [herr] at hok
    cases hok

theorem noLeak_tryIngest_iff (hgood : NoLeak t) (c : IngestCall) :
    NoLeak (t.tryIngest c).2 ↔ ¬ Leaky t c := by
  cases hres : (t.tryIngest c).1 with
  | ok res =>
      have hall : Completes t c 5 := tryIngest_isOk_iff.mp ⟨res, hres⟩
      rw [(tryIngest_ok hres).noLeak_iff, Leaky]
      simp [hall]
  | error e =>
      have hshort : ¬ Completes t c 5 := by
        intro hall
        obtain ⟨b, hb⟩ := tryIngest_isOk_iff.mpr hall
        rw [hres] at hb
        cases hb
      rw [(tryIngest_error hres).noLeak_iff hgood, Leaky]
      refine not_congr ?_
      constructor
      · rintro ⟨hpresent, hempty⟩
        exact Or.inr ⟨hempty, (hgood.present_iff hempty hres).mp hpresent, hshort⟩
      · rintro (⟨hall, -⟩ | ⟨hempty, hone, -⟩)
        · exact absurd hall hshort
        · exact ⟨(hgood.present_iff hempty hres).mpr hone, hempty⟩

/-- **No leaked token, exactly.** Along a list of calls into the empty database,
over any namespaces and with any operations failing, every key of the token
tables is the token of a stored entry if and only if no call is leaky. -/
theorem token_leaks_iff (l : List IngestCall) :
    (∀ p, p <+: l → NoLeak (({} : Tables).tryAll p)) ↔
      ∀ p c, p ++ [c] <+: l → ¬ Leaky (({} : Tables).tryAll p) c := by
  constructor
  · intro hgood p c hpc
    have hlast := hgood (p ++ [c]) hpc
    rw [Tables.tryAll_concat] at hlast
    exact (noLeak_tryIngest_iff (hgood p ((List.prefix_append _ _).trans hpc)) c).mp hlast
  · intro hnot p hp
    induction p using List.reverseRecOn with
    | nil => exact NoLeak.empty
    | append_singleton p c ih =>
        rw [Tables.tryAll_concat]
        exact (noLeak_tryIngest_iff (ih ((List.prefix_append _ _).trans hp)) c).mpr (hnot p c hp)

end Leaks

/-! ### An entry that arrives twice -/

section Samples

open IrohWillow.Sample

attribute [local instance] acceptingSignatures Persistent.Sample.appendZero

/-- An entry, the same one again, and a newer one at its path. -/
def twice : List IngestCall :=
  [{ entry := (signedAt 1 1).1, origin := .localOrigin },
    { entry := (signedAt 1 1).1, origin := .remote 1 },
    { entry := (signedAt 2 2).1, origin := .localOrigin }]

/-- The first entry is pruned, but its token has been counted twice and stays. -/
theorem twice_leaks :
    ¬ ∀ (_ : Meadowcap) (_ : WillowStore) (l : List IngestCall),
      NoLeak (({} : Tables).tryAll l) := by
  intro h
  have hgood := h acceptingSignatures Persistent.Sample.appendZero twice
  have hpresent : Present (({} : Tables).tryAll twice) (.ofByte 1) := Or.inl (by decide)
  obtain ⟨⟨ns, p⟩, v, hv, hkey⟩ := hgood _ hpresent
  -- the tree holds the newer entry only
  have hns : ns = namespaceId := by
    by_contra hne
    rw [tryAll_node_ne (l := twice) (by
      intro c hc
      rw [show c.entry.entry.namespaceId = namespaceId by revert c; decide]
      exact hne)] at hv
    cases hv
  subst hns
  have hentries : ((({} : Tables).tryAll twice).node namespaceId).entries =
      [⟨(signedAt 2 2).1.entry.point, .fromAuthorisedEntry (signedAt 2 2).1⟩] := by decide
  have hmem := AList.mem_lookup_iff.mp hv
  rw [hentries, List.mem_singleton] at hmem
  obtain rfl : v = .fromAuthorisedEntry (signedAt 2 2).1 := by injection hmem
  exact absurd hkey (by decide)

end Samples

end IrohWillow.Persistent
