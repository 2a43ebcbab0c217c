import IrohWillow.Store.Persistent

/-!
# When the persistent store converges

The persistent store is meant to hold the entries that no other ingested entry
prunes, and to answer `true` exactly for those that are new and not pruned when
they arrive. Its `ingest_entry` answers `true` always, and it looks for entries
to prune only among strictly smaller timestamps. `persistent_survivors_iff`
says for which lists of ingestions this makes no difference.
-/

namespace IrohWillow.Persistent

open Frontier

/-- A list of successes is a list of values. -/
theorem exists_eq_map_ok {α : Type} {l : List (Except StoreError α)}
    (h : ∀ r ∈ l, ∃ a, r = .ok a) : ∃ as : List α, l = as.map .ok := by
  induction l with
  | nil => exact ⟨[], rfl⟩
  | cons r l ih =>
      obtain ⟨a, rfl⟩ := h r List.mem_cons_self
      obtain ⟨as, rfl⟩ := ih fun r hr => h r (List.mem_cons_of_mem _ hr)
      exact ⟨a :: as, rfl⟩

/-- Of two entries at one point, one is newer. -/
theorem prunes_of_point_eq {a b : Entry} (hns : a.namespaceId = b.namespaceId)
    (h : a.point = b.point) : a = b ∨ a.Prunes b ∨ b.Prunes a := by
  simp only [Entry.point, Point.mk.injEq] at h
  obtain ⟨hx, -, hz⟩ := h
  rcases Entry.isNewerThan_total hns hx hz with h | h | h
  · exact Or.inl h
  · exact Or.inr (Or.inl ⟨hx, hz ▸ Path.IsPrefixOf.refl _, h⟩)
  · exact Or.inr (Or.inr ⟨hx.symm, hz ▸ Path.IsPrefixOf.refl _, h⟩)

section Convergence

variable [Meadowcap]

/-- After the ingestions `l`, reading the full range succeeds and returns
exactly the surviving entries. -/
def HoldsSurvivors (ns : NamespaceId) (l : List (AuthorisedEntry × EntryOrigin))
    (t : Tables) : Prop :=
  ∃ stored, t.getAuthorisedEntries ns .full = stored.map .ok ∧
    entrySet stored = survivors (entriesOf l)

/-- `e` prunes `d`, at a proper extension of its path, by payload digest or
length only. -/
def PrunesByTie (e d : Entry) : Prop :=
  e.Prunes d ∧ d.timestamp = e.timestamp ∧ d.path ≠ e.path

/-- The ingestions `l` are followed by an entry that is new, not pruned, and
prunes no surviving entry by a tie. -/
def Fits (l : List (AuthorisedEntry × EntryOrigin)) (e : Entry) : Prop :=
  ¬ Covered Entry.Prunes {d | d ∈ entriesOf l} e ∧
    ∀ d ∈ survivors (entriesOf l), ¬ PrunesByTie e d

/-- No two different entries of the list carry the same signature. -/
def SignaturesBind (l : List (AuthorisedEntry × EntryOrigin)) : Prop :=
  ∀ x ∈ l, ∀ y ∈ l, x.1.token.signature = y.1.token.signature → x.1.entry = y.1.entry

/-- The tree of a namespace. -/
def Tables.node (t : Tables) (ns : NamespaceId) : Node := (t.namespaceNodes ns).getD ∅

/-! ## Reading -/

theorem readStored_eq_ok {t : Tables} {ns : NamespaceId} {p : Point} {v : StoredAuthorisedEntry}
    {a : AuthorisedEntry} (h : readStored t ns p v = .ok a) : a.entry = v.intoEntry ns p := by
  unfold readStored readStoredBy at h
  split at h
  · cases h
  · split at h
    · cases h
    · rename_i hnew
      obtain rfl := Except.ok.inj h
      exact (AuthorisedEntry.new_eq_some hnew).1

/-- With its own token in the table, a stored entry is read back. -/
theorem readStored_fromAuthorisedEntry {t : Tables} (a : AuthorisedEntry)
    (h : t.authTokens a.token.signature = some a.token.capability) :
    readStored t a.entry.namespaceId a.entry.point (.fromAuthorisedEntry a) = .ok a := by
  have hget : t.getEntryAuthToken
      (StoredAuthorisedEntry.fromAuthorisedEntry a).authorisationTokenId = .ok a.token := by
    rw [Tables.getEntryAuthToken, show
      (StoredAuthorisedEntry.fromAuthorisedEntry a).authorisationTokenId = a.token.signature
      from rfl, h]
  simp only [readStored, readStoredBy, hget, StoredAuthorisedEntry.intoAuthorisedEntry,
    StoredAuthorisedEntry.intoEntry_fromAuthorisedEntry, AuthorisedEntry.new_self]

theorem getAuthorisedEntries_full (t : Tables) (ns : NamespaceId) :
    t.getAuthorisedEntries ns .full =
      ((t.node ns).query (toQuery .full)).map fun kv => readStored t ns kv.1 kv.2 := by
  unfold Tables.getAuthorisedEntries Tables.node
  cases t.namespaceNodes ns with
  | none => rfl
  | some node => rfl

/-- When the whole namespace is read without an error, what is read are the
entries of its tree. -/
theorem mem_entrySet_of_getAuthorisedEntries {t : Tables} {ns : NamespaceId}
    {read : List AuthorisedEntry} (h : t.getAuthorisedEntries ns .full = read.map .ok)
    {e : Entry} :
    e ∈ entrySet read ↔
      ∃ v, (t.node ns).lookup e.point = some v ∧ v.intoEntry ns e.point = e := by
  rw [getAuthorisedEntries_full] at h
  have hread : ∀ a, a ∈ read ↔ ∃ kv ∈ (t.node ns).query (toQuery .full),
      readStored t ns kv.1 kv.2 = .ok a := by
    intro a
    have hmem : a ∈ read ↔ Except.ok a ∈ read.map (@Except.ok StoreError _) := by simp
    rw [hmem, ← h, List.mem_map]
  constructor
  · rintro ⟨a, ha, rfl⟩
    obtain ⟨⟨p, v⟩, hkv, hok⟩ := (hread a).mp ha
    have hentry := readStored_eq_ok hok
    obtain rfl : a.entry.point = p := by rw [hentry]; rfl
    exact ⟨v, (Node.mem_query.mp hkv).1, hentry.symm⟩
  · rintro ⟨v, hlook, hv⟩
    have hkv : (e.point, v) ∈ (t.node ns).query (toQuery .full) :=
      Node.mem_query.mpr ⟨hlook, toQuery_full_includes _⟩
    have hok : readStored t ns e.point v ∈ read.map Except.ok :=
      h ▸ List.mem_map_of_mem (f := fun kv : Point × StoredAuthorisedEntry =>
        readStored t ns kv.1 kv.2) hkv
    obtain ⟨a, ha, hok⟩ := List.mem_map.mp hok
    exact ⟨a, ha, by rw [readStored_eq_ok hok.symm, hv]⟩

/-- What is visible is what lies in the tree. -/
theorem HoldsSurvivors.mem_iff {ns : NamespaceId} {l : List (AuthorisedEntry × EntryOrigin)}
    {t : Tables} (h : HoldsSurvivors ns l t) {e : Entry} :
    e ∈ survivors (entriesOf l) ↔
      ∃ v, (t.node ns).lookup e.point = some v ∧ v.intoEntry ns e.point = e := by
  obtain ⟨stored, hstored, hset⟩ := h
  rw [← hset]
  exact mem_entrySet_of_getAuthorisedEntries hstored

/-! ## The prune loop -/

/-- Only the points of the candidates can leave the tree. -/
theorem pruneCandidates_lookup_of_notMem (entry : AuthorisedEntry)
    {candidates : List (Point × StoredAuthorisedEntry)} {node : Node} {t : Tables} {p : Point}
    (hp : p ∉ candidates.map Prod.fst) :
    (pruneCandidates entry candidates node t).2.1.lookup p = node.lookup p := by
  induction candidates generalizing node t with
  | nil => rfl
  | cons kv rest ih =>
      obtain ⟨pos, candidate⟩ := kv
      simp only [List.map_cons, List.mem_cons, not_or] at hp
      simp only [pruneCandidates_cons]
      split
      · rfl
      · split
        · split
          · exact AList.lookup_erase_ne hp.1
          · rw [ih hp.2, AList.lookup_erase_ne hp.1]
        · exact ih hp.2

/-- A stored entry whose token is in the table and counted once. -/
structure ReadsBack (t : Tables) (kv : Point × StoredAuthorisedEntry) (a : AuthorisedEntry) :
    Prop where
  point : a.entry.point = kv.1
  value : .fromAuthorisedEntry a = kv.2
  token : t.authTokens a.token.signature = some a.token.capability
  refcount : t.authTokenRefcount a.token.signature = some 1

/-- The tables without the token `key`. -/
def Tables.dropToken (t : Tables) (key : UserSignature) : Tables :=
  { t with
    authTokens := Function.update t.authTokens key none
    authTokenRefcount := Function.update t.authTokenRefcount key none }

/-- A token that is counted once is dropped. -/
theorem removeEntryAuthToken_of_one {t : Tables} {key : UserSignature} {c : McCapability}
    (htoken : t.authTokens key = some c) (hcount : t.authTokenRefcount key = some 1) :
    t.removeEntryAuthToken key = (.ok (), t.dropToken key) := by
  simp [Tables.removeEntryAuthToken, htoken, hcount, Tables.dropToken]

theorem ReadsBack.dropToken {t : Tables} {kv : Point × StoredAuthorisedEntry}
    {a : AuthorisedEntry} {key : UserSignature} (h : ReadsBack t kv a)
    (hkey : a.token.signature ≠ key) : ReadsBack (t.dropToken key) kv a where
  point := h.point
  value := h.value
  token := by simpa [Tables.dropToken, hkey] using h.token
  refcount := by simpa [Tables.dropToken, hkey] using h.refcount

/-- Candidates that read back with tokens of their own, all older than the
entry, are all removed, and their tokens with them. -/
theorem pruneCandidates_ok (entry : AuthorisedEntry)
    {candidates : List (Point × StoredAuthorisedEntry)} {node : Node} {t : Tables}
    (hread : ∀ kv ∈ candidates, ∃ a, ReadsBack t kv a ∧
      a.entry.namespaceId = entry.entry.namespaceId ∧ entry.entry.IsNewerThan a.entry)
    (hnodup : (candidates.map (·.2.authorisationTokenId)).Nodup) :
    ∃ node' t', pruneCandidates entry candidates node t = (.ok (), node', t') ∧
      (∀ p ∈ candidates.map Prod.fst, node'.lookup p = none) ∧
      ∀ key ∉ candidates.map (·.2.authorisationTokenId),
        t'.authTokens key = t.authTokens key ∧
          t'.authTokenRefcount key = t.authTokenRefcount key := by
  induction candidates generalizing node t with
  | nil => exact ⟨node, t, rfl, by simp, fun _ _ => ⟨rfl, rfl⟩⟩
  | cons kv rest ih =>
      obtain ⟨pos, candidate⟩ := kv
      obtain ⟨a, ⟨rfl, rfl, htoken, hcount⟩, hns, hnewer⟩ := hread (pos, candidate)
        List.mem_cons_self
      rw [List.map_cons, List.nodup_cons] at hnodup
      have hok := readStored_fromAuthorisedEntry a htoken
      rw [hns] at hok
      -- the token of the candidate is counted once, so it goes
      let logged := t.insertEvent entry.entry.namespaceId fun id => .pruned id a entry
      have hremove : logged.removeEntryAuthToken a.token.signature =
          (.ok (), logged.dropToken a.token.signature) :=
        removeEntryAuthToken_of_one htoken hcount
      have hread' : ∀ kv ∈ rest, ∃ b, ReadsBack (logged.dropToken a.token.signature) kv b ∧
          b.entry.namespaceId = entry.entry.namespaceId ∧ entry.entry.IsNewerThan b.entry := by
        intro kv hkv
        obtain ⟨b, hb, hbns, hbnewer⟩ := hread kv (List.mem_cons_of_mem _ hkv)
        have hne : b.token.signature ≠ a.token.signature := by
          intro heq
          refine hnodup.1 (List.mem_map.mpr ⟨kv, hkv, ?_⟩)
          rw [← hb.value]
          exact heq
        have hlogged : ReadsBack logged kv b := ⟨hb.point, hb.value, hb.token, hb.refcount⟩
        exact ⟨b, hlogged.dropToken hne, hbns, hbnewer⟩
      obtain ⟨node', t', hrest, hgone, hframe⟩ :=
        @ih (node.erase a.entry.point) _ hread' hnodup.2
      refine ⟨node', t', ?_, ?_, ?_⟩
      · simp only [pruneCandidates_cons, hok, hnewer, if_true]
        rw [show (StoredAuthorisedEntry.fromAuthorisedEntry a).authorisationTokenId =
          a.token.signature from rfl, show (t.insertEvent _ _).removeEntryAuthToken _ = _
          from hremove]
        exact hrest
      · intro p hp
        by_cases hmem : p ∈ rest.map Prod.fst
        · exact hgone p hmem
        · obtain rfl : p = a.entry.point := by simpa [hmem] using hp
          have hkeep := @pruneCandidates_lookup_of_notMem _ entry _ (node.erase a.entry.point)
            (logged.dropToken a.token.signature) _ hmem
          rw [hrest] at hkeep
          rw [hkeep, AList.lookup_erase]
      · intro key hkey
        simp only [List.map_cons, List.mem_cons, not_or] at hkey
        have hne : key ≠ a.token.signature := hkey.1
        obtain ⟨h1, h2⟩ := hframe key hkey.2
        exact ⟨h1.trans (Function.update_of_ne hne _ _), h2.trans (Function.update_of_ne hne _ _)⟩

/-! ## One ingestion -/

/-- The invariant of a run of ingestions that goes well: the tree holds the
survivors, and each of them has a token of its own. -/
structure GoodRun (ns : NamespaceId) (l : List (AuthorisedEntry × EntryOrigin)) (t : Tables) :
    Prop where
  lookup_iff : ∀ p v, (t.node ns).lookup p = some v ↔
    ∃ x ∈ l, x.1.entry ∈ survivors (entriesOf l) ∧ x.1.entry.point = p ∧
      .fromAuthorisedEntry x.1 = v
  token : ∀ x ∈ l, x.1.entry ∈ survivors (entriesOf l) →
    t.authTokens x.1.token.signature = some x.1.token.capability ∧
      t.authTokenRefcount x.1.token.signature = some 1
  fresh : ∀ key, (∀ x ∈ l, x.1.token.signature ≠ key) → t.authTokenRefcount key = none
  nodup : (entriesOf l).Nodup

variable {ns : NamespaceId} {l : List (AuthorisedEntry × EntryOrigin)} {t : Tables}

theorem GoodRun.empty : GoodRun ns [] {} where
  lookup_iff p v := by simp [Tables.node]
  token := by simp
  fresh _ _ := rfl
  nodup := by simp [entriesOf]

/-- The survivors of a good run can be read. -/
theorem GoodRun.holdsSurvivors (h : GoodRun ns l t) (hns : ∀ x ∈ l, x.1.entry.namespaceId = ns) :
    HoldsSurvivors ns l t := by
  have hread : ∀ p v, (t.node ns).lookup p = some v → ∃ x ∈ l,
      x.1.entry ∈ survivors (entriesOf l) ∧ readStored t ns p v = .ok x.1 := by
    intro p v hlook
    obtain ⟨x, hx, hsurv, rfl, rfl⟩ := (h.lookup_iff p v).mp hlook
    have hok := readStored_fromAuthorisedEntry x.1 (h.token x hx hsurv).1
    rw [hns x hx] at hok
    exact ⟨x, hx, hsurv, hok⟩
  obtain ⟨stored, hstored⟩ : ∃ stored : List AuthorisedEntry,
      t.getAuthorisedEntries ns .full = stored.map .ok := by
    refine exists_eq_map_ok fun r hr => ?_
    rw [getAuthorisedEntries_full] at hr
    obtain ⟨⟨p, v⟩, hkv, rfl⟩ := List.mem_map.mp hr
    obtain ⟨x, -, -, hok⟩ := hread p v (Node.mem_query.mp hkv).1
    exact ⟨x.1, hok⟩
  refine ⟨stored, hstored, ?_⟩
  have hmem : ∀ a, a ∈ stored ↔ ∃ p v, (t.node ns).lookup p = some v ∧
      readStored t ns p v = .ok a := by
    intro a
    have h1 : a ∈ stored ↔ Except.ok a ∈ stored.map (@Except.ok StoreError _) := by simp
    rw [h1, ← hstored, getAuthorisedEntries_full, List.mem_map]
    constructor
    · rintro ⟨⟨p, v⟩, hkv, hok⟩
      exact ⟨p, v, (Node.mem_query.mp hkv).1, hok⟩
    · rintro ⟨p, v, hlook, hok⟩
      exact ⟨(p, v), Node.mem_query.mpr ⟨hlook, toQuery_full_includes p⟩, hok⟩
  ext e
  constructor
  · rintro ⟨a, ha, rfl⟩
    obtain ⟨p, v, hlook, hok⟩ := (hmem a).mp ha
    obtain ⟨x, -, hsurv, hok'⟩ := hread p v hlook
    obtain rfl := Except.ok.inj (hok.symm.trans hok')
    exact hsurv
  · intro he
    obtain ⟨x, hx, rfl⟩ := List.mem_map.mp he.1
    have hlook := (h.lookup_iff _ _).mpr ⟨x, hx, he, rfl, rfl⟩
    obtain ⟨y, hy, hsurv, hok⟩ := hread _ _ hlook
    refine ⟨y.1, (hmem y.1).mpr ⟨_, _, hlook, hok⟩, ?_⟩
    rw [readStored_eq_ok hok, ← hns x hx, StoredAuthorisedEntry.intoEntry_fromAuthorisedEntry]

/-- The entries of a good run that have the same signature are the same. -/
theorem GoodRun.eq_of_signature (h : GoodRun ns l t) (hbind : SignaturesBind l)
    {y z : AuthorisedEntry × EntryOrigin} (hy : y ∈ l) (hz : z ∈ l)
    (heq : y.1.token.signature = z.1.token.signature) : y = z :=
  List.inj_on_of_nodup_map h.nodup hy hz (hbind y hy z hz heq)

/-! ## One more ingestion -/

variable [WillowStore] {x : AuthorisedEntry × EntryOrigin}

/-- What the tree holds after the entry was inserted. -/
theorem ingestEntry_of_pruned {a : AuthorisedEntry} (origin : EntryOrigin) {node' : Node}
    {t' : Tables} (hloop : pruneCandidates a ((t.node a.entry.namespaceId).query
      (overwrittenRange a.entry)) (t.node a.entry.namespaceId) t = (.ok (), node', t')) :
    (t.ingestEntry a origin).1 = .ok true ∧
    (t.ingestEntry a origin).2.node a.entry.namespaceId =
      node'.insert a.entry.point (.fromAuthorisedEntry a) ∧
    (t.ingestEntry a origin).2.authTokens = (t'.addEntryAuthToken a.token).authTokens ∧
    (t.ingestEntry a origin).2.authTokenRefcount =
      (t'.addEntryAuthToken a.token).authTokenRefcount := by
  unfold Tables.node at hloop ⊢
  simp only [Tables.ingestEntry_eq, hloop, Function.update_self, Option.getD_some, true_and]
  exact ⟨rfl, rfl⟩

/-- In a good run, an entry that fits prunes exactly the survivors in the range
it searches and the one at its own point. -/
theorem prunes_iff_of_fits {e d : Entry} (hspec : SubseqSuccessorSpec e.path)
    (hfits : Fits l e) (hd : d ∈ survivors (entriesOf l)) (hns : d.namespaceId = e.namespaceId) :
    e.Prunes d ↔ (overwrittenRange e).Includes d.point ∨ d.point = e.point := by
  rw [overwrittenRange_includes hspec]
  constructor
  · intro hpr
    obtain ⟨hsub, hpath, hnewer⟩ := id hpr
    rcases hnewer with hlt | ⟨heq, -⟩
    · exact Or.inl ⟨hsub.symm, hlt, hpath⟩
    · refine Or.inr ?_
      by_cases hp : d.path = e.path
      · simp [Entry.point, hsub, heq, hp]
      · exact absurd ⟨hpr, heq, hp⟩ (hfits.2 d hd)
  · rintro (⟨hsub, hlt, hpath⟩ | hpoint)
    · exact ⟨hsub.symm, hpath, Or.inl hlt⟩
    · rcases prunes_of_point_eq hns hpoint with rfl | h | h
      · exact absurd (Covered.of_mem hd.1) hfits.1
      · exact absurd ⟨d, hd.1, Or.inr h⟩ hfits.1
      · exact h

/-- The prune loop of an entry that fits removes what the entry prunes. -/
theorem GoodRun.pruneCandidates (h : GoodRun ns l t) (hns : ∀ y ∈ l, y.1.entry.namespaceId = ns)
    (hbind : SignaturesBind l) {a : AuthorisedEntry} (ha : a.entry.namespaceId = ns)
    (hspec : SubseqSuccessorSpec a.entry.path) :
    ∃ node' t', Persistent.pruneCandidates a ((t.node ns).query (overwrittenRange a.entry))
        (t.node ns) t = (.ok (), node', t') ∧
      (∀ p, (overwrittenRange a.entry).Includes p → node'.lookup p = none) ∧
      (∀ p, ¬ (overwrittenRange a.entry).Includes p → node'.lookup p = (t.node ns).lookup p) ∧
      ∀ key, (∀ y ∈ l, y.1.entry ∈ survivors (entriesOf l) →
          (overwrittenRange a.entry).Includes y.1.entry.point → y.1.token.signature ≠ key) →
        t'.authTokens key = t.authTokens key ∧
          t'.authTokenRefcount key = t.authTokenRefcount key := by
  -- every candidate is a survivor, with its token in the table
  have hcand : ∀ kv ∈ (t.node ns).query (overwrittenRange a.entry), ∃ y ∈ l,
      y.1.entry ∈ survivors (entriesOf l) ∧ (overwrittenRange a.entry).Includes y.1.entry.point ∧
      ReadsBack t kv y.1 := by
    intro kv hkv
    obtain ⟨hlook, hinc⟩ := Node.mem_query.mp hkv
    obtain ⟨y, hy, hsurv, hpoint, hvalue⟩ := (h.lookup_iff _ _).mp hlook
    obtain ⟨htok, hcnt⟩ := h.token y hy hsurv
    exact ⟨y, hy, hsurv, hpoint ▸ hinc, hpoint, hvalue, htok, hcnt⟩
  -- signatures bind, so no token is removed twice
  have hnodup : (((t.node ns).query (overwrittenRange a.entry)).map
      (·.2.authorisationTokenId)).Nodup := by
    refine List.Nodup.map_on ?_ (List.Nodup.of_map _ (Node.nodup_query _ _))
    intro kv hkv kw hkw heq
    obtain ⟨y, hy, -, -, hyr⟩ := hcand kv hkv
    obtain ⟨z, hz, -, -, hzr⟩ := hcand kw hkw
    rw [← hyr.value, ← hzr.value] at heq
    obtain rfl := h.eq_of_signature hbind hy hz heq
    exact Prod.ext (hyr.point.symm.trans hzr.point) (hyr.value.symm.trans hzr.value)
  obtain ⟨node', t', hloop, hgone, hframe⟩ := @pruneCandidates_ok _ a _ (t.node ns) t
    (by
      intro kv hkv
      obtain ⟨y, hy, -, hinc, hread⟩ := hcand kv hkv
      refine ⟨y.1, hread, (hns y hy).trans ha.symm, Or.inl ?_⟩
      exact ((overwrittenRange_includes hspec).mp hinc).2.1)
    hnodup
  refine ⟨node', t', hloop, fun p hp => ?_, fun p hp => ?_, fun key hkey => hframe key ?_⟩
  · by_cases hmem : p ∈ ((t.node ns).query (overwrittenRange a.entry)).map Prod.fst
    · exact hgone p hmem
    · have hkeep := @pruneCandidates_lookup_of_notMem _ a _ (t.node ns) t p hmem
      rw [hloop] at hkeep
      rw [hkeep, Option.eq_none_iff_forall_not_mem]
      intro v hv
      exact hmem (List.mem_map.mpr ⟨(p, v), Node.mem_query.mpr ⟨hv, hp⟩, rfl⟩)
  · have hmem : p ∉ ((t.node ns).query (overwrittenRange a.entry)).map Prod.fst := by
      intro hmem
      obtain ⟨⟨q, v⟩, hkv, rfl⟩ := List.mem_map.mp hmem
      exact hp (Node.mem_query.mp hkv).2
    have hkeep := @pruneCandidates_lookup_of_notMem _ a _ (t.node ns) t p hmem
    rwa [hloop] at hkeep
  · intro hmem
    obtain ⟨kv, hkv, rfl⟩ := List.mem_map.mp hmem
    obtain ⟨y, hy, hsurv, hinc, hread⟩ := hcand kv hkv
    exact hkey y hy hsurv hinc (by rw [← hread.value]; rfl)

/-- The tables after a good run was continued by an entry that fits. -/
theorem GoodRun.step (h : GoodRun ns l t) (hns : ∀ y ∈ l ++ [x], y.1.entry.namespaceId = ns)
    (hbind : SignaturesBind (l ++ [x])) (hspec : SubseqSuccessorSpec x.1.entry.path)
    (hfits : Fits l x.1.entry) :
    (t.ingestEntry x.1 x.2).1 = .ok true ∧ GoodRun ns (l ++ [x]) (t.ingestEntry x.1 x.2).2 := by
  obtain ⟨a, origin⟩ := x
  have hl : ∀ y ∈ l, y.1.entry.namespaceId = ns := fun y hy => hns y (List.mem_append_left _ hy)
  have ha : a.entry.namespaceId = ns := hns (a, origin) (by simp)
  obtain ⟨node', t', hloop, hgone, hkeep, hframe⟩ := h.pruneCandidates hl
    (fun y hy z hz => hbind y (List.mem_append_left _ hy) z (List.mem_append_left _ hz)) ha hspec
  subst ha
  obtain ⟨hres, hnode, htokens, hcounts⟩ := ingestEntry_of_pruned origin hloop
  -- the entry is new, so nobody else has its signature
  have hnew : ∀ y ∈ l, y.1.token.signature ≠ a.token.signature := by
    intro y hy heq
    have := hbind y (List.mem_append_left _ hy) (a, origin) (by simp) heq
    exact hfits.1 (Covered.of_mem (List.mem_map.mpr ⟨y, hy, this⟩))
  have hcov : ¬ Covered Entry.Prunes (survivors (entriesOf l)) a.entry := fun hc =>
    hfits.1 (hc.mono frontier_subset)
  have hsurv : survivors (entriesOf (l ++ [(a, origin)])) =
      insert a.entry {d | d ∈ survivors (entriesOf l) ∧ ¬ a.entry.Prunes d} := by
    rw [entriesOf_concat, survivors_concat_of_not_covered hcov]
  have hprunes : ∀ y ∈ l, y.1.entry ∈ survivors (entriesOf l) → (a.entry.Prunes y.1.entry ↔
      (overwrittenRange a.entry).Includes y.1.entry.point ∨ y.1.entry.point = a.entry.point) :=
    fun y hy hs => prunes_iff_of_fits hspec hfits hs (hl y hy)
  have hold : ∀ y ∈ l, y.1.entry ∈ survivors (entriesOf (l ++ [(a, origin)])) ↔
      y.1.entry ∈ survivors (entriesOf l) ∧ ¬ a.entry.Prunes y.1.entry := by
    intro y hy
    rw [hsurv, Set.mem_insert_iff]
    constructor
    · rintro (heq | hs)
      · exact (hfits.1 (Covered.of_mem (List.mem_map.mpr ⟨y, hy, heq⟩))).elim
      · exact hs
    · exact Or.inr
  refine ⟨hres, ⟨fun p v => ?_, fun y hy hs => ?_, fun key hkey => ?_, ?_⟩⟩
  · -- the tree: the entry at its point, the survivors it does not prune elsewhere
    rw [hnode]
    by_cases hp : p = a.entry.point
    · subst hp
      rw [AList.lookup_insert]
      constructor
      · intro heq
        exact ⟨(a, origin), by simp, by rw [hsurv]; exact Or.inl rfl, rfl, Option.some.inj heq⟩
      · rintro ⟨y, hy, hs, hpoint, rfl⟩
        rcases List.mem_append.mp hy with hy | hy
        · obtain ⟨hs', hnot⟩ := (hold y hy).mp hs
          exact absurd ((hprunes y hy hs').mpr (Or.inr hpoint)) hnot
        · rw [List.mem_singleton.mp hy]
    · rw [AList.lookup_insert_ne hp]
      by_cases hinc : (overwrittenRange a.entry).Includes p
      · rw [hgone p hinc]
        simp only [reduceCtorEq, false_iff]
        rintro ⟨y, hy, hs, rfl, -⟩
        rcases List.mem_append.mp hy with hy | hy
        · obtain ⟨hs', hnot⟩ := (hold y hy).mp hs
          exact hnot ((hprunes y hy hs').mpr (Or.inl hinc))
        · rw [List.mem_singleton.mp hy] at hp
          exact hp rfl
      · rw [hkeep p hinc, h.lookup_iff]
        constructor
        · rintro ⟨y, hy, hs, rfl, rfl⟩
          refine ⟨y, List.mem_append_left _ hy, (hold y hy).mpr ⟨hs, ?_⟩, rfl, rfl⟩
          rw [hprunes y hy hs]
          exact fun hor => hor.elim hinc hp
        · rintro ⟨y, hy, hs, rfl, rfl⟩
          rcases List.mem_append.mp hy with hy | hy
          · exact ⟨y, hy, ((hold y hy).mp hs).1, rfl, rfl⟩
          · rw [List.mem_singleton.mp hy] at hp
            exact absurd rfl hp
  · -- the tokens: the new one is counted once, the others are untouched
    rw [htokens, hcounts]
    rcases List.mem_append.mp hy with hy | hy
    · obtain ⟨hs', hnot⟩ := (hold y hy).mp hs
      have hsig : y.1.token.signature ≠ a.token.signature := hnew y hy
      obtain ⟨h1, h2⟩ := hframe y.1.token.signature (by
        intro z hz hzs hzinc heq
        have hzy := hbind z (List.mem_append_left _ hz) y (List.mem_append_left _ hy) heq
        exact hnot ((hprunes y hy hs').mpr (Or.inl (hzy ▸ hzinc))))
      obtain ⟨h3, h4⟩ := h.token y hy hs'
      simp only [Tables.addEntryAuthToken, Function.update_of_ne hsig]
      exact ⟨h1.trans h3, h2.trans h4⟩
    · obtain rfl := List.mem_singleton.mp hy
      have hnone : t'.authTokenRefcount a.token.signature = none := by
        rw [(hframe a.token.signature fun z hz _ _ => hnew z hz).2]
        exact h.fresh _ hnew
      simp [Tables.addEntryAuthToken, hnone]
  · rw [hcounts]
    have hne : key ≠ a.token.signature := (hkey (a, origin) (by simp)).symm
    have hothers : ∀ y ∈ l, y.1.token.signature ≠ key := fun y hy =>
      hkey y (List.mem_append_left _ hy)
    simp only [Tables.addEntryAuthToken, Function.update_of_ne hne]
    rw [(hframe key fun z hz _ _ => hothers z hz).2]
    exact h.fresh key hothers
  · rw [entriesOf_concat]
    refine List.nodup_append.mpr ⟨h.nodup, List.nodup_singleton _, fun d hd e he => ?_⟩
    rintro rfl
    rw [List.mem_singleton.mp he] at hd
    exact hfits.1 (Covered.of_mem hd)

/-! ## Whole lists -/

/-- A run along which every entry fits is good. -/
theorem goodRun_of_fits (l : List (AuthorisedEntry × EntryOrigin))
    (hns : ∀ y ∈ l, y.1.entry.namespaceId = ns) (hbind : SignaturesBind l)
    (hspec : ∀ y ∈ l, SubseqSuccessorSpec y.1.entry.path)
    (hfits : ∀ p y, p ++ [y] <+: l → Fits p y.1.entry) : GoodRun ns l (({} : Tables).ingestAll l) := by
  induction l using List.reverseRecOn with
  | nil => exact GoodRun.empty
  | append_singleton l y ih =>
      have hgood := ih (fun z hz => hns z (List.mem_append_left _ hz))
        (fun z hz w hw => hbind z (List.mem_append_left _ hz) w (List.mem_append_left _ hw))
        (fun z hz => hspec z (List.mem_append_left _ hz))
        (fun p z hp => hfits p z (hp.trans (List.prefix_append _ _)))
      rw [Tables.ingestAll_concat]
      exact (hgood.step hns hbind (hspec y (by simp)) (hfits l y (List.prefix_refl _))).2

/-- The call that ingests `x` after the ingestions `l` succeeds, and returns
`true` exactly when the entry is new and not pruned. -/
def AnswersNew (l : List (AuthorisedEntry × EntryOrigin)) (x : AuthorisedEntry × EntryOrigin)
    (t : Tables) : Prop :=
  ∃ res, (t.ingestEntry x.1 x.2).1 = .ok res ∧
    (res = true ↔ ¬ Covered Entry.Prunes {e | e ∈ entriesOf l} x.1.entry)

/-- A successful ingestion answers `true` and leaves every point alone that is
neither its own nor in the range it searches. -/
theorem ingestEntry_frame {a : AuthorisedEntry} {origin : EntryOrigin} {res : Bool}
    (h : (t.ingestEntry a origin).1 = .ok res) :
    res = true ∧ ∀ p, ¬ (overwrittenRange a.entry).Includes p → p ≠ a.entry.point →
      ((t.ingestEntry a origin).2.node a.entry.namespaceId).lookup p =
        (t.node a.entry.namespaceId).lookup p := by
  obtain ⟨out, node', t', hloop⟩ : ∃ out node' t', pruneCandidates a
      ((t.node a.entry.namespaceId).query (overwrittenRange a.entry))
      (t.node a.entry.namespaceId) t = (out, node', t') := ⟨_, _, _, rfl⟩
  cases out with
  | error e =>
      unfold Tables.node at hloop
      simp [Tables.ingestEntry_eq, hloop] at h
  | ok u =>
      obtain ⟨hres, hnode, -⟩ := ingestEntry_of_pruned origin hloop
      refine ⟨(Except.ok.inj (hres.symm.trans h)).symm, fun p hinc hp => ?_⟩
      have hmem : p ∉ ((t.node a.entry.namespaceId).query
          (overwrittenRange a.entry)).map Prod.fst := by
        intro hmem
        obtain ⟨⟨q, v⟩, hkv, rfl⟩ := List.mem_map.mp hmem
        exact hinc (Node.mem_query.mp hkv).2
      have hkeep := @pruneCandidates_lookup_of_notMem _ a _ (t.node a.entry.namespaceId) t p hmem
      rw [hloop] at hkeep
      rw [hnode, AList.lookup_insert_ne hp, hkeep]

/-- An entry pruned by a tie stays visible. -/
theorem not_prunesByTie_of_holds {d : Entry}
    (hns : ∀ y ∈ l ++ [x], y.1.entry.namespaceId = ns)
    (hl : HoldsSurvivors ns l t) (hlx : HoldsSurvivors ns (l ++ [x]) (t.ingestEntry x.1 x.2).2)
    (hok : (t.ingestEntry x.1 x.2).1 = .ok true) (hd : d ∈ survivors (entriesOf l)) :
    ¬ PrunesByTie x.1.entry d := by
  rintro ⟨hpr, htime, hpath⟩
  have hxns : x.1.entry.namespaceId = ns := hns x (by simp)
  obtain ⟨v, hlook, hv⟩ := hl.mem_iff.mp hd
  have hinc : ¬ (overwrittenRange x.1.entry).Includes d.point := by
    intro h
    have hlt : d.timestamp < x.1.entry.timestamp := h.2.1.2
    exact absurd htime hlt.ne
  have hpoint : d.point ≠ x.1.entry.point := fun h => hpath (congrArg Point.z h)
  have hstay := (ingestEntry_frame hok).2 d.point hinc hpoint
  rw [hxns, hlook] at hstay
  have hmem : d ∈ survivors (entriesOf (l ++ [x])) := hlx.mem_iff.mpr ⟨v, hstay, hv⟩
  exact hmem.2 x.1.entry (by simp [entriesOf]) hpr

/-- **Convergence of the persistent store, exactly.** Along a list of
ingestions of one namespace, the store holds the survivors after every prefix
and every call answers whether its entry is new and not pruned, if and only if
every entry of the list is new and not pruned when it arrives and prunes no
surviving entry by a tie. -/
theorem persistent_survivors_iff (ns : NamespaceId) (l : List (AuthorisedEntry × EntryOrigin))
    (hns : ∀ x ∈ l, x.1.entry.namespaceId = ns) (hbind : SignaturesBind l)
    (hspec : ∀ x ∈ l, SubseqSuccessorSpec x.1.entry.path) :
    ((∀ p, p <+: l → HoldsSurvivors ns p (({} : Tables).ingestAll p)) ∧
      ∀ p x, p ++ [x] <+: l → AnswersNew p x (({} : Tables).ingestAll p)) ↔
    ∀ p x, p ++ [x] <+: l → Fits p x.1.entry := by
  constructor
  · rintro ⟨hholds, hanswers⟩ p x hpx
    obtain ⟨res, hok, hres⟩ := hanswers p x hpx
    obtain rfl := (ingestEntry_frame hok).1
    refine ⟨hres.mp rfl, fun d hd => ?_⟩
    have hlast := hholds (p ++ [x]) hpx
    rw [Tables.ingestAll_concat] at hlast
    exact not_prunesByTie_of_holds (fun y hy => hns y (hpx.subset hy))
      (hholds p ((List.prefix_append _ _).trans hpx)) hlast hok hd
  · intro hfits
    have hgood : ∀ p, p <+: l → GoodRun ns p (({} : Tables).ingestAll p) := fun p hp =>
      goodRun_of_fits p (fun x hx => hns x (hp.subset hx))
        (fun x hx y hy => hbind x (hp.subset hx) y (hp.subset hy))
        (fun x hx => hspec x (hp.subset hx)) (fun q x hq => hfits q x (hq.trans hp))
    refine ⟨fun p hp => (hgood p hp).holdsSurvivors fun x hx => hns x (hp.subset hx),
      fun p x hpx => ?_⟩
    have hstep := (hgood p ((List.prefix_append _ _).trans hpx)).step
      (fun y hy => hns y (hpx.subset hy))
      (fun y hy z hz => hbind y (hpx.subset hy) z (hpx.subset hz))
      (hspec x (hpx.subset (by simp))) (hfits p x hpx)
    exact ⟨true, hstep.1, iff_of_true rfl (hfits p x hpx).1⟩

end Convergence

/-! ### Two lists of ingestions -/

section Samples

open IrohWillow.Sample

/-- The least sequence above all extensions: a zero byte after the last blob. -/
@[reducible] def Sample.appendZero : WillowStore where
  subseqSuccessor s :=
    match s.reverse with
    | [] => none
    | last :: front => some (front.reverse ++ [last ++ [0]])

attribute [local instance] acceptingSignatures Sample.appendZero

theorem authorised_signedAt (timestamp : Timestamp) (signature : Byte) :
    Meadowcap.isAuthorisedWrite (bareEntryAt [] timestamp)
      ⟨writeCapability, .ofByte signature⟩ = true := (entryAt [] timestamp).authorised

/-- An entry of the sample user at the root, with a signature of its own. -/
def signedAt (timestamp : Timestamp) (signature : Byte) : AuthorisedEntry × EntryOrigin :=
  ({ entry := bareEntryAt [] timestamp
     token := ⟨writeCapability, .ofByte signature⟩
     authorised := authorised_signedAt timestamp signature }, .localOrigin)

theorem subseqSuccessorSpec_signedAt (timestamp : Timestamp) (signature : Byte) :
    SubseqSuccessorSpec (signedAt timestamp signature).1.entry.path := by
  have hroot : (signedAt timestamp signature).1.entry.path = .empty := by
    show pathOf [] = .empty
    decide
  intro x
  rw [hroot]
  exact iff_of_true ⟨Path.IsPrefixOf.le (p := .empty) List.nil_prefix, trivial⟩ List.nil_prefix

/-- A newer entry, and then an older one at the same path. -/
def lateArrival : List (AuthorisedEntry × EntryOrigin) := [signedAt 2 1, signedAt 1 2]

/-- The obsolete entry is stored, and the call that stores it answers `true`. -/
theorem ingestAll_lateArrival_keeps :
    ¬ ∀ (_ : Meadowcap) (_ : WillowStore) (ns : NamespaceId)
      (l : List (AuthorisedEntry × EntryOrigin)), (∀ x ∈ l, x.1.entry.namespaceId = ns) →
      SignaturesBind l → (∀ x ∈ l, SubseqSuccessorSpec x.1.entry.path) →
      HoldsSurvivors ns l (({} : Tables).ingestAll l) ∧
        ∀ p x, p ++ [x] <+: l → AnswersNew p x (({} : Tables).ingestAll p) := by
  intro h
  obtain ⟨hholds, -⟩ := h acceptingSignatures Sample.appendZero namespaceId lateArrival
    (by decide) (by unfold SignaturesBind; decide) (by
      intro x hx
      rcases List.mem_pair.mp hx with rfl | rfl
      · exact subseqSuccessorSpec_signedAt 2 1
      · exact subseqSuccessorSpec_signedAt 1 2)
  have hmem : (signedAt 1 2).1.entry ∈ survivors (entriesOf lateArrival) :=
    hholds.mem_iff.mpr ⟨.fromAuthorisedEntry (signedAt 1 2).1, by decide, by decide⟩
  exact hmem.2 (signedAt 2 1).1.entry (by decide) (by decide)

/-- An older entry, and then a newer one at the same path. -/
def inOrder : List (AuthorisedEntry × EntryOrigin) := [signedAt 1 1, signedAt 2 2]

theorem persistent_survivors_inOrder :
    HoldsSurvivors namespaceId inOrder (({} : Tables).ingestAll inOrder) := by
  refine ((persistent_survivors_iff namespaceId inOrder (by decide)
    (by unfold SignaturesBind; decide) (by
      intro x hx
      rcases List.mem_pair.mp hx with rfl | rfl
      · exact subseqSuccessorSpec_signedAt 1 1
      · exact subseqSuccessorSpec_signedAt 2 2)).mpr ?_).1 inOrder (List.prefix_refl _)
  intro p x hp
  have hlen : p.length ≤ 1 := by
    have := hp.length_le
    simpa [inOrder] using this
  rcases p with _ | ⟨y, _ | ⟨y', p⟩⟩
  · exact ⟨by simp [entriesOf, Covered], by simp [entriesOf]⟩
  · obtain ⟨rfl, hp'⟩ := List.cons_prefix_cons.mp hp
    obtain ⟨rfl, -⟩ := List.cons_prefix_cons.mp hp'
    refine ⟨?_, ?_⟩
    · rintro ⟨d, hd, h⟩
      obtain rfl : d = (signedAt 1 1).1.entry := by simpa [entriesOf] using hd
      revert h
      decide
    · intro d hd htie
      obtain rfl : d = (signedAt 1 1).1.entry := by simpa [entriesOf] using hd.1
      exact absurd htie.2.1 (by decide)
  · exact absurd hlen (by simp)

end Samples

end IrohWillow.Persistent
