import IrohWillow.Store.Traits

/-!
# The in-memory store

`EntryStore` of `store/memory.rs`: one vector of authorised entries and one
event queue for each namespace. `ingest_entry` scans the vector once, then
removes the positions it collected, one after the other, with `Vec::remove`.
`none` is the panic of a `remove` past the end.
-/

namespace IrohWillow.Memory

variable [Meadowcap]

/-- The entries and the event log of one namespace. -/
structure NamespaceStore where
  entries : List AuthorisedEntry := []
  events : EventQueue StoreEvent := {}
  deriving DecidableEq

/-- All namespaces. -/
structure EntryStore where
  stores : NamespaceId → Option NamespaceStore

/-- The store without namespaces. -/
def EntryStore.empty : EntryStore := ⟨fun _ => none⟩

/-! ## Ingestion -/

/-- The scan of `ingest_entry` from position `i` on: the positions of the
entries that `new` prunes, or `none` when the scan returns early because `new`
is already there or pruned by an existing entry. -/
def toPrune (new : Entry) : Nat → List AuthorisedEntry → Option (List Nat)
  | _, [] => some []
  | i, existing :: rest =>
      if existing.entry = new then none
      else if existing.entry.Prunes new then none
      else if new.Prunes existing.entry then (toPrune new (i + 1) rest).map (i :: ·)
      else toPrune new (i + 1) rest

/-- The removal loop of `ingest_entry`. The positions are those of the vector
before the loop; each `remove` shifts what is behind it. -/
def removeAll (by_ : AuthorisedEntry) : List Nat → NamespaceStore → Option NamespaceStore
  | [], store => some store
  | i :: rest, store =>
      match store.entries[i]? with
      | none => none
      | some gone =>
          removeAll by_ rest
            { entries := store.entries.eraseIdx i
              events := store.events.insert fun id => .pruned id gone by_ }

/-- `EntryStore::ingest_entry` within the entry's namespace. -/
def NamespaceStore.ingestEntry (store : NamespaceStore) (entry : AuthorisedEntry)
    (origin : EntryOrigin) : Option (Bool × NamespaceStore) :=
  match toPrune entry.entry 0 store.entries with
  | none => some (false, store)
  | some positions =>
      (removeAll entry positions store).map fun store' =>
        (true,
          { entries := store'.entries ++ [entry]
            events := store'.events.insert fun id => .ingested id entry origin })

namespace EntryStore

/-- The store of a namespace, created when missing. -/
def namespaceStore (s : EntryStore) (ns : NamespaceId) : NamespaceStore := (s.stores ns).getD {}

/-- Replace the store of a namespace. -/
def setStore (s : EntryStore) (ns : NamespaceId) (store : NamespaceStore) : EntryStore :=
  ⟨Function.update s.stores ns (some store)⟩

@[simp] theorem namespaceStore_setStore (s : EntryStore) (ns : NamespaceId)
    (store : NamespaceStore) : (s.setStore ns store).namespaceStore ns = store := by
  simp [setStore, namespaceStore]

@[simp] theorem namespaceStore_empty (ns : NamespaceId) : empty.namespaceStore ns = {} := rfl

/-- `EntryStore::ingest_entry`. -/
def ingestEntry (s : EntryStore) (entry : AuthorisedEntry) (origin : EntryOrigin) :
    Option (Bool × EntryStore) :=
  ((s.namespaceStore entry.entry.namespaceId).ingestEntry entry origin).map fun (res, store) =>
    (res, s.setStore entry.entry.namespaceId store)

/-- `get_authorised_entries`. -/
def getAuthorisedEntries (s : EntryStore) (ns : NamespaceId) (range : Range3d) :
    List AuthorisedEntry :=
  (s.namespaceStore ns).entries.filter fun a => decide (range.IncludesEntry a.entry)

/-- `get_entry`. -/
def getEntry (s : EntryStore) (ns : NamespaceId) (subspace : SubspaceId) (path : Path) :
    Option AuthorisedEntry :=
  (s.namespaceStore ns).entries.find? fun a =>
    decide (a.entry.namespaceId = ns ∧ a.entry.subspaceId = subspace ∧ a.entry.path = path)

/-- `subscribe_area`: the progress id the stream starts at. -/
def subscribeArea (s : EntryStore) (ns : NamespaceId) : Nat × EntryStore :=
  let store := s.namespaceStore ns
  (store.events.nextProgressId, s.setStore ns store)

/-- Ingest a list of entries, one by one. -/
def ingestAll (s : EntryStore) : List (AuthorisedEntry × EntryOrigin) → Option EntryStore
  | [] => some s
  | (entry, origin) :: rest =>
      match s.ingestEntry entry origin with
      | none => none
      | some (_, s') => s'.ingestAll rest

theorem ingestAll_append (s : EntryStore) (l m : List (AuthorisedEntry × EntryOrigin)) :
    s.ingestAll (l ++ m) = (s.ingestAll l).bind (·.ingestAll m) := by
  induction l generalizing s with
  | nil => rfl
  | cons head rest ih =>
      obtain ⟨entry, origin⟩ := head
      simp only [List.cons_append, ingestAll]
      cases s.ingestEntry entry origin with
      | none => rfl
      | some res => exact ih res.2

end EntryStore

/-! ## What the scan collects -/

section Scan

variable {new : Entry} {i : Nat} {l : List AuthorisedEntry} {positions : List Nat}

/-- The scan returns early exactly when the new entry is covered. -/
theorem toPrune_eq_none_iff :
    toPrune new i l = none ↔ Frontier.Covered Entry.Prunes (entrySet l) new := by
  induction l generalizing i with
  | nil => simp [toPrune, Frontier.Covered, entrySet]
  | cons existing rest ih =>
      have hcons : Frontier.Covered Entry.Prunes (entrySet (existing :: rest)) new ↔
          (existing.entry = new ∨ existing.entry.Prunes new) ∨
            Frontier.Covered Entry.Prunes (entrySet rest) new := by
        simp [Frontier.Covered, entrySet]
      rw [hcons, ← ih (i := i + 1)]
      simp only [toPrune]
      split
      · simp_all
      · split
        · simp_all
        · split <;> simp_all

/-- Every collected position holds an entry that the new one prunes. -/
theorem of_mem_toPrune (h : toPrune new i l = some positions) {j : Nat} (hj : j ∈ positions) :
    ∃ k a, j = i + k ∧ l[k]? = some a ∧ new.Prunes a.entry := by
  induction l generalizing i positions with
  | nil => simp_all [toPrune]
  | cons existing rest ih =>
      have hlift : ∀ {ps : List Nat}, toPrune new (i + 1) rest = some ps → j ∈ ps →
          ∃ k a, j = i + k ∧ (existing :: rest)[k]? = some a ∧ new.Prunes a.entry := by
        intro ps hps hmem
        obtain ⟨k, a, rfl, ha, hpr⟩ := ih hps hmem
        exact ⟨k + 1, a, by omega, by simpa using ha, hpr⟩
      simp only [toPrune] at h
      split at h
      · cases h
      · split at h
        · cases h
        · split at h
          · rename_i hpr
            obtain ⟨ps, hps, rfl⟩ := Option.map_eq_some_iff.mp h
            rcases List.mem_cons.mp hj with rfl | hj
            · exact ⟨0, existing, rfl, rfl, hpr⟩
            · exact hlift hps hj
          · exact hlift h hj

/-- The positions are collected in ascending order. -/
theorem toPrune_sorted (h : toPrune new i l = some positions) : positions.Pairwise (· < ·) := by
  induction l generalizing i positions with
  | nil => simp_all [toPrune]
  | cons existing rest ih =>
      simp only [toPrune] at h
      split at h
      · cases h
      · split at h
        · cases h
        · split at h
          · obtain ⟨ps, hps, rfl⟩ := Option.map_eq_some_iff.mp h
            refine List.pairwise_cons.mpr ⟨fun j hj => ?_, ih hps⟩
            obtain ⟨k, _, rfl, -⟩ := of_mem_toPrune hps hj
            omega
          · exact ih h

/-- The entries that stay: those the new one does not prune. -/
def unpruned (new : Entry) (l : List AuthorisedEntry) : List AuthorisedEntry :=
  l.filter fun a => !decide (new.Prunes a.entry)

/-- When nothing is collected, nothing is pruned. -/
theorem unpruned_of_toPrune_nil (h : toPrune new i l = some []) : unpruned new l = l := by
  induction l generalizing i with
  | nil => rfl
  | cons existing rest ih =>
      simp only [toPrune] at h
      split at h
      · cases h
      · split at h
        · cases h
        · split at h
          · simp at h
          · rename_i hpr
            have := ih h
            unfold unpruned at this ⊢
            simp [hpr, this]

/-- When one position is collected, removing it removes what is pruned. -/
theorem unpruned_of_toPrune_singleton {j : Nat} (h : toPrune new i l = some [j]) :
    unpruned new l = l.eraseIdx (j - i) := by
  induction l generalizing i with
  | nil => simp [toPrune] at h
  | cons existing rest ih =>
      simp only [toPrune] at h
      split at h
      · cases h
      · split at h
        · cases h
        · split at h
          · rename_i hpr
            obtain ⟨ps, hps, heq⟩ := Option.map_eq_some_iff.mp h
            obtain ⟨rfl, rfl⟩ := List.cons.inj heq
            have := unpruned_of_toPrune_nil hps
            unfold unpruned at this ⊢
            simp [hpr, this]
          · rename_i hpr
            obtain ⟨k, _, hk, -⟩ := of_mem_toPrune h List.mem_cons_self
            have := ih h
            rw [show j - i = (j - (i + 1)) + 1 by omega, List.eraseIdx_cons_succ, ← this]
            unfold unpruned
            simp [hpr]

end Scan

/-! ## What the removal loop does -/

/-- Positions in front of all removed ones keep their entry. -/
theorem removeAll_getElem?_of_lt {by_ : AuthorisedEntry} {positions : List Nat}
    {store store' : NamespaceStore} {k : Nat} (h : removeAll by_ positions store = some store')
    (hk : ∀ i ∈ positions, k < i) : store'.entries[k]? = store.entries[k]? := by
  induction positions generalizing store with
  | nil =>
      obtain rfl := Option.some.inj h
      rfl
  | cons i rest ih =>
      simp only [removeAll] at h
      split at h
      · cases h
      · rw [ih h fun j hj => hk j (List.mem_cons_of_mem _ hj),
          List.getElem?_eraseIdx_of_lt (hk i List.mem_cons_self)]

/-- With two positions or more, the entry at the second one stays: the first
removal has moved it to the position in front. -/
theorem removeAll_keeps_second {by_ : AuthorisedEntry} {i j : Nat} {rest : List Nat}
    {store store' : NamespaceStore} {a : AuthorisedEntry}
    (h : removeAll by_ (i :: j :: rest) store = some store')
    (hsorted : (i :: j :: rest).Pairwise (· < ·)) (ha : store.entries[j]? = some a) :
    a ∈ store'.entries := by
  obtain ⟨hi, hrest⟩ := List.pairwise_cons.mp hsorted
  have hij : i < j := hi j List.mem_cons_self
  rw [removeAll] at h
  split at h
  · cases h
  · have hfront : ∀ m ∈ j :: rest, j - 1 < m := by
      intro m hm
      rcases List.mem_cons.mp hm with rfl | hm
      · omega
      · have := (List.pairwise_cons.mp hrest).1 m hm
        omega
    have hkeep := removeAll_getElem?_of_lt h hfront
    rw [List.getElem?_eraseIdx_of_ge (by omega), show j - 1 + 1 = j by omega, ha] at hkeep
    exact List.mem_of_getElem? hkeep

end IrohWillow.Memory
