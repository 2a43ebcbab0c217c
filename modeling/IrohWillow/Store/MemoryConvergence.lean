import IrohWillow.Store.Memory

/-!
# When the in-memory store converges

`ingest_entry` is meant to leave the entries that no other ingested entry
prunes, in whatever order they arrive. It does as long as each entry prunes at
most one stored entry: `removeAll` uses positions that were collected before
its first removal, so from the second one on it removes the wrong entry, or
runs past the end of the vector.

`ingestAll_survivors_iff` is the exact statement: along a list of entries the
store holds the survivors after every prefix if and only if no entry of the
list prunes two survivors of the entries before it.
-/

namespace IrohWillow.Memory

open Frontier

section Convergence

variable [Meadowcap]

/-- Among the entries of `l` that are still standing, `e` prunes at most one. -/
def PrunesAtMostOne (l : List Entry) (e : Entry) : Prop :=
  ∀ x ∈ survivors l, ∀ y ∈ survivors l, e.Prunes x → e.Prunes y → x = y

/-- What `ingest_entry` is for: after the ingestions `l` the namespace holds
exactly the surviving entries, each as it was ingested. -/
def HoldsSurvivors (ns : NamespaceId) (l : List (AuthorisedEntry × EntryOrigin))
    (s : EntryStore) : Prop :=
  entrySet (s.namespaceStore ns).entries = survivors (entriesOf l) ∧
    ∀ a ∈ (s.namespaceStore ns).entries, a ∈ l.map (·.1)

/-! ## Survivors of one more entry -/

theorem entrySet_unpruned_concat (l : List AuthorisedEntry) (a : AuthorisedEntry) :
    entrySet (unpruned a.entry l ++ [a]) =
      insert a.entry {x | x ∈ entrySet l ∧ ¬ a.entry.Prunes x} := by
  ext x
  simp only [entrySet, unpruned, List.mem_append, List.mem_filter, List.mem_singleton,
    Bool.not_eq_eq_eq_not, Bool.not_true, decide_eq_false_iff_not, Set.mem_ofPred_eq,
    Set.mem_insert_iff]
  constructor
  · rintro ⟨b, ⟨hb, hpr⟩ | rfl, rfl⟩
    · exact Or.inr ⟨⟨b, hb, rfl⟩, hpr⟩
    · exact Or.inl rfl
  · rintro (rfl | ⟨⟨b, hb, rfl⟩, hpr⟩)
    · exact ⟨a, Or.inr rfl, rfl⟩
    · exact ⟨b, Or.inl ⟨hb, hpr⟩, rfl⟩

/-! ## One ingestion -/

section Step

variable {store : NamespaceStore} {a : AuthorisedEntry} {origin : EntryOrigin}

/-- A covered entry is skipped. -/
theorem ingestEntry_of_covered (h : Covered Entry.Prunes (entrySet store.entries) a.entry) :
    store.ingestEntry a origin = some (false, store) := by
  unfold NamespaceStore.ingestEntry
  rw [toPrune_eq_none_iff.mpr h]

/-- With at most one position to remove, the loop removes what is pruned. -/
theorem ingestEntry_of_atMostOne (origin : EntryOrigin)
    (hnew : ¬ Covered Entry.Prunes (entrySet store.entries) a.entry)
    (hnodup : (store.entries.map (·.entry)).Nodup)
    (hone : ∀ x ∈ entrySet store.entries, ∀ y ∈ entrySet store.entries,
      a.entry.Prunes x → a.entry.Prunes y → x = y) :
    ∃ store', store.ingestEntry a origin = some (true, store') ∧
      store'.entries = unpruned a.entry store.entries ++ [a] := by
  cases hscan : toPrune a.entry 0 store.entries with
  | none => exact absurd (toPrune_eq_none_iff.mp hscan) hnew
  | some positions =>
      unfold NamespaceStore.ingestEntry
      rw [hscan]
      match positions, hscan with
      | [], hscan =>
          simp only [removeAll, Option.map_some]
          exact ⟨_, rfl, by rw [unpruned_of_toPrune_nil hscan]⟩
      | [j], hscan =>
          obtain ⟨k, b, rfl, hb, -⟩ := of_mem_toPrune hscan List.mem_cons_self
          rw [Nat.zero_add] at hscan ⊢
          simp only [removeAll, hb, Option.map_some]
          exact ⟨_, rfl, by rw [unpruned_of_toPrune_singleton hscan, Nat.sub_zero]⟩
      | i :: j :: rest, hscan =>
          -- two positions would hold two different survivors that are pruned
          exfalso
          have hij : i < j := (List.pairwise_cons.mp (toPrune_sorted hscan)).1 j List.mem_cons_self
          obtain ⟨k, b, hi, hb, hprb⟩ := of_mem_toPrune hscan List.mem_cons_self
          obtain ⟨m, c, hj, hc, hprc⟩ :=
            of_mem_toPrune hscan (List.mem_cons_of_mem _ List.mem_cons_self)
          have heq : b.entry = c.entry :=
            hone _ ⟨b, List.mem_of_getElem? hb, rfl⟩ _ ⟨c, List.mem_of_getElem? hc, rfl⟩ hprb hprc
          have hk : (store.entries.map (·.entry))[k]? = (store.entries.map (·.entry))[m]? := by
            simp [hb, hc, heq]
          have hlt : k < (store.entries.map (·.entry)).length := by
            simpa using (List.getElem?_eq_some_iff.mp hb).1
          have := (List.getElem?_inj hlt hnodup).mp hk
          omega

/-- With two pruned entries or more, one of them stays. -/
theorem ingestEntry_keeps_pruned {x y : Entry} (hx : x ∈ entrySet store.entries)
    (hy : y ∈ entrySet store.entries) (hne : x ≠ y) (hpx : a.entry.Prunes x)
    (hpy : a.entry.Prunes y)
    (hnew : ¬ Covered Entry.Prunes (entrySet store.entries) a.entry)
    {res : Bool} {store' : NamespaceStore}
    (h : store.ingestEntry a origin = some (res, store')) :
    a.entry ∈ entrySet store'.entries ∧ ∃ z ∈ entrySet store'.entries, a.entry.Prunes z := by
  obtain ⟨b, hb, rfl⟩ := hx
  obtain ⟨c, hc, rfl⟩ := hy
  have hgone : ∀ d ∈ store.entries, a.entry.Prunes d.entry →
      d ∉ unpruned a.entry store.entries := by
    intro d _ hpd hd
    simpa [hpd] using (List.mem_filter.mp hd).2
  unfold NamespaceStore.ingestEntry at h
  cases hscan : toPrune a.entry 0 store.entries with
  | none => exact absurd (toPrune_eq_none_iff.mp hscan) hnew
  | some positions =>
      rw [hscan] at h
      obtain ⟨mid, hmid, heq⟩ := Option.map_eq_some_iff.mp h
      obtain ⟨-, rfl⟩ := Prod.mk.inj heq
      refine ⟨⟨a, by simp, rfl⟩, ?_⟩
      match positions, hscan with
      | [], hscan =>
          exact absurd (by rw [unpruned_of_toPrune_nil hscan]; exact hb) (hgone b hb hpx)
      | [j], hscan =>
          have herase := unpruned_of_toPrune_singleton hscan
          have hb' := hgone b hb hpx
          have hc' := hgone c hc hpy
          rw [herase, Nat.sub_zero, List.mem_eraseIdx_iff_getElem?] at hb' hc'
          obtain ⟨k, hk⟩ := List.mem_iff_getElem?.mp hb
          obtain ⟨m, hm⟩ := List.mem_iff_getElem?.mp hc
          have hkj : k = j := by
            by_contra hkj
            exact hb' ⟨k, hkj, hk⟩
          have hmj : m = j := by
            by_contra hmj
            exact hc' ⟨m, hmj, hm⟩
          rw [hkj] at hk
          rw [hmj, hk] at hm
          exact absurd (congrArg AuthorisedEntry.entry (Option.some.inj hm)) hne
      | i :: j :: rest, hscan =>
          obtain ⟨m, d, hj, hd, hpd⟩ :=
            of_mem_toPrune hscan (List.mem_cons_of_mem _ List.mem_cons_self)
          rw [Nat.zero_add] at hj
          have hkeep := removeAll_keeps_second hmid (toPrune_sorted hscan) (by rw [hj]; exact hd)
          exact ⟨d.entry, ⟨d, by simp [hkeep], rfl⟩, hpd⟩

end Step

/-! ## Whole lists -/

/-- The invariant of a run of ingestions that goes well. -/
structure GoodRun (ns : NamespaceId) (l : List (AuthorisedEntry × EntryOrigin))
    (s : EntryStore) : Prop where
  holds : HoldsSurvivors ns l s
  nodup : ((s.namespaceStore ns).entries.map (·.entry)).Nodup

theorem namespaceStore_ingestEntry {s s' : EntryStore} {a : AuthorisedEntry}
    {origin : EntryOrigin} {res : Bool} (h : s.ingestEntry a origin = some (res, s')) :
    (s.namespaceStore a.entry.namespaceId).ingestEntry a origin =
      some (res, s'.namespaceStore a.entry.namespaceId) := by
  obtain ⟨⟨res', store⟩, hstore, heq⟩ := Option.map_eq_some_iff.mp h
  obtain ⟨rfl, rfl⟩ := Prod.mk.inj heq
  rw [hstore, EntryStore.namespaceStore_setStore]

/-- Nothing that an entry of the list covers can be pruned again: the entries
of a store holding survivors cover exactly what the ingested entries cover. -/
theorem covered_iff_of_holds {ns : NamespaceId} {l : List (AuthorisedEntry × EntryOrigin)}
    {s : EntryStore} (h : HoldsSurvivors ns l s) {e : Entry} :
    Covered Entry.Prunes (entrySet (s.namespaceStore ns).entries) e ↔
      Covered Entry.Prunes (survivors (entriesOf l)) e := by
  rw [h.1]

/-- One ingestion that prunes at most one survivor keeps the run good. -/
theorem GoodRun.step {ns : NamespaceId} {l : List (AuthorisedEntry × EntryOrigin)}
    {s : EntryStore} {x : AuthorisedEntry × EntryOrigin} (h : GoodRun ns l s)
    (hns : x.1.entry.namespaceId = ns)
    (hone : PrunesAtMostOne (entriesOf l) x.1.entry) :
    ∃ res s', s.ingestEntry x.1 x.2 = some (res, s') ∧ GoodRun ns (l ++ [x]) s' := by
  obtain ⟨a, origin⟩ := x
  subst hns
  obtain ⟨⟨hset, hmem⟩, hnodup⟩ := h
  dsimp only at hset hmem hnodup hone ⊢
  -- the two outcomes of the scan: skipped, or entered
  by_cases hcov : Covered Entry.Prunes
      (entrySet (s.namespaceStore a.entry.namespaceId).entries) a.entry
  · refine ⟨false, s.setStore a.entry.namespaceId (s.namespaceStore a.entry.namespaceId), ?_,
      ⟨?_, ?_⟩, ?_⟩
    · rw [EntryStore.ingestEntry, ingestEntry_of_covered hcov]
      rfl
    · rw [EntryStore.namespaceStore_setStore, entriesOf_concat,
        survivors_concat_of_covered (hset ▸ hcov), hset]
    · intro b hb
      rw [EntryStore.namespaceStore_setStore] at hb
      rw [List.map_append]
      exact List.mem_append_left _ (hmem b hb)
    · rwa [EntryStore.namespaceStore_setStore]
  · obtain ⟨store', hstore, hentries⟩ := ingestEntry_of_atMostOne origin hcov hnodup
      (by rw [hset]; exact hone)
    refine ⟨true, s.setStore a.entry.namespaceId store', ?_, ⟨?_, ?_⟩, ?_⟩
    · rw [EntryStore.ingestEntry, hstore]
      rfl
    · rw [EntryStore.namespaceStore_setStore, hentries, entrySet_unpruned_concat,
        entriesOf_concat, survivors_concat_of_not_covered (hset ▸ hcov), hset]
    · intro b hb
      rw [EntryStore.namespaceStore_setStore, hentries] at hb
      rw [List.map_append]
      rcases List.mem_append.mp hb with hb | hb
      · exact List.mem_append_left _ (hmem b (List.mem_filter.mp hb).1)
      · exact List.mem_append_right _ (by simpa using hb)
    · rw [EntryStore.namespaceStore_setStore, hentries, List.map_append]
      refine List.nodup_append.mpr ⟨?_, List.nodup_singleton _, ?_⟩
      · exact hnodup.sublist (List.filter_sublist.map _)
      · intro e he e' he' heq
        obtain ⟨b, hb, rfl⟩ := List.mem_map.mp he
        rw [List.mem_singleton.mp he'] at heq
        exact hcov ⟨b.entry, ⟨b, (List.mem_filter.mp hb).1, rfl⟩, Or.inl heq⟩

/-- A run along which every entry prunes at most one survivor is good. -/
theorem goodRun_of_prunesAtMostOne {ns : NamespaceId}
    (l : List (AuthorisedEntry × EntryOrigin)) (hns : ∀ x ∈ l, x.1.entry.namespaceId = ns)
    (hone : ∀ p x, p ++ [x] <+: l → PrunesAtMostOne (entriesOf p) x.1.entry) :
    ∃ s, EntryStore.empty.ingestAll l = some s ∧ GoodRun ns l s := by
  induction l using List.reverseRecOn with
  | nil =>
      exact ⟨EntryStore.empty, rfl, ⟨by simp [entrySet, entriesOf], by simp⟩, by simp⟩
  | append_singleton l x ih =>
      obtain ⟨s, hs, hgood⟩ := ih (fun y hy => hns y (List.mem_append_left _ hy))
        (fun p y hp => hone p y (hp.trans (List.prefix_append _ _)))
      obtain ⟨res, s', hs', hgood'⟩ := hgood.step (hns x (by simp))
        (hone l x (List.prefix_refl _))
      refine ⟨s', ?_, hgood'⟩
      rw [EntryStore.ingestAll_append, hs]
      simp [EntryStore.ingestAll, hs']

/-- **Convergence of the in-memory store, exactly.** The store holds the
survivors after every prefix of the ingestions, without panicking, if and only
if no ingested entry prunes two of the entries still standing when it
arrives. -/
theorem ingestAll_survivors_iff (ns : NamespaceId) (l : List (AuthorisedEntry × EntryOrigin))
    (hns : ∀ x ∈ l, x.1.entry.namespaceId = ns) :
    (∀ p, p <+: l → ∃ s, EntryStore.empty.ingestAll p = some s ∧ HoldsSurvivors ns p s) ↔
      ∀ p x, p ++ [x] <+: l → PrunesAtMostOne (entriesOf p) x.1.entry := by
  constructor
  · intro hgood p x hpx y hy z hz hxy hxz
    by_contra hne
    obtain ⟨s, hs, hhold⟩ := hgood p ((List.prefix_append _ _).trans hpx)
    obtain ⟨s', hs', hhold'⟩ := hgood (p ++ [x]) hpx
    -- the run over `p ++ [x]` ends with the ingestion of `x` into `s`
    rw [EntryStore.ingestAll_append, hs, Option.bind_some, EntryStore.ingestAll] at hs'
    cases hstep : s.ingestEntry x.1 x.2 with
    | none => simp [hstep] at hs'
    | some out =>
        obtain ⟨res, s''⟩ := out
        simp only [hstep, EntryStore.ingestAll, Option.some.injEq] at hs'
        subst hs'
        have hxns := hns x (hpx.subset (by simp))
        have hnew : ¬ Covered Entry.Prunes
            (entrySet (s.namespaceStore x.1.entry.namespaceId).entries) x.1.entry := by
          rw [hxns, covered_iff_of_holds hhold]
          intro hcov
          exact not_rel_of_mem_frontier hy (hcov.mono frontier_subset) hxy
        obtain ⟨hx', w, hw, hxw⟩ := ingestEntry_keeps_pruned
          (by rw [hxns, hhold.1]; exact hy) (by rw [hxns, hhold.1]; exact hz) hne hxy hxz hnew
          (namespaceStore_ingestEntry hstep)
        rw [hxns, hhold'.1] at hx' hw
        exact hw.2 _ hx'.1 hxw
  · intro hone p hp
    obtain ⟨s, hs, hgood⟩ := goodRun_of_prunesAtMostOne p
      (fun x hx => hns x (hp.subset hx)) (fun q x hq => hone q x (hq.trans hp))
    exact ⟨s, hs, hgood.holds⟩

end Convergence

/-! ### Two lists of ingestions -/

section Samples

open IrohWillow.Sample

/-- `/a/b`, `/a/c`, and then a newer entry at `/a`, which prunes both. -/
def twoPruned : List (@AuthorisedEntry acceptingSignatures × EntryOrigin) :=
  [(entryAt [[97], [98]] 1, .localOrigin), (entryAt [[97], [99]] 1, .localOrigin),
    (entryAt [[97]] 2, .localOrigin)]

/-- The first removal shortens the vector to one entry, and the second one
runs past its end. -/
theorem ingestAll_twoPruned_panics :
    ¬ ∀ (_ : Meadowcap) (ns : NamespaceId) (l : List (AuthorisedEntry × EntryOrigin)),
      (∀ x ∈ l, x.1.entry.namespaceId = ns) →
        ∃ s, EntryStore.empty.ingestAll l = some s ∧ HoldsSurvivors ns l s := by
  intro h
  obtain ⟨s, hs, -⟩ := h acceptingSignatures namespaceId twoPruned (by decide)
  have hpanic : (@EntryStore.ingestAll acceptingSignatures
      (@EntryStore.empty acceptingSignatures) twoPruned).isNone = true := by decide
  rw [hs] at hpanic
  cases hpanic

/-- `/a/b`, and then a newer entry at `/a`. -/
def onePruned : List (@AuthorisedEntry acceptingSignatures × EntryOrigin) :=
  [(entryAt [[97], [98]] 1, .localOrigin), (entryAt [[97]] 2, .localOrigin)]

theorem ingestAll_onePruned_survivors :
    ∃ s, @EntryStore.ingestAll acceptingSignatures (@EntryStore.empty acceptingSignatures)
        onePruned = some s ∧ @HoldsSurvivors acceptingSignatures namespaceId onePruned s := by
  let _ : Meadowcap := acceptingSignatures
  refine (@ingestAll_survivors_iff acceptingSignatures namespaceId onePruned (by decide)).mpr ?_
    onePruned (List.prefix_refl _)
  -- in front of the last entry stands at most one other, so there is at most one survivor
  intro p x hp y hy z hz _ _
  have hlen : p.length ≤ 1 := by
    have := hp.length_le
    simpa [onePruned] using this
  have hmem : ∀ w ∈ survivors (entriesOf p), ∀ q ∈ p, w = q.1.entry := by
    intro w hw q hq
    obtain ⟨q', rfl⟩ : ∃ q', p = [q'] := List.length_eq_one_iff.mp
      (Nat.le_antisymm hlen (List.length_pos_of_mem hq))
    simp_all [entriesOf, survivors, Frontier.frontier]
  cases p with
  | nil => simp [entriesOf] at hy
  | cons q _ => rw [hmem y hy q List.mem_cons_self, hmem z hz q List.mem_cons_self]

end Samples

end IrohWillow.Memory
