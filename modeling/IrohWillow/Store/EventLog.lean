import IrohWillow.Lib.ChangeLog
import IrohWillow.Store.MemoryConvergence

/-!
# The event log of the in-memory store

`ingest_entry` of `store/memory.rs` writes down what it does: one `Pruned` event
for each entry it removes, one `Ingested` event for the entry it adds. The
removal loop may remove the wrong entry, but it names the entry it removed, so
the log explains the contents of the store after every run.

* `StoreEvent.change` reads an event as a change to a set of entries;
* `NamespaceStore.Explained` is the invariant that ties log and vector together.
-/

namespace IrohWillow

open ChangeLog

section Changes

variable [Meadowcap]

/-- What a subscriber that mirrors the store does with an event. -/
def StoreEvent.change : StoreEvent → Change AuthorisedEntry
  | .ingested _ entry _ => .add entry
  | .pruned _ gone _ => .remove gone

/-- The changes of a queue, in order. -/
def EventQueue.changes (queue : EventQueue StoreEvent) : List (Change AuthorisedEntry) :=
  queue.events.map StoreEvent.change

@[simp] theorem EventQueue.changes_insert (queue : EventQueue StoreEvent)
    (f : Nat → StoreEvent) :
    (queue.insert f).changes = queue.changes ++ [(f queue.nextProgressId).change] := by
  simp [changes, insert]

end Changes

@[simp] theorem EventQueue.offset_insert {α : Type} (queue : EventQueue α) (f : Nat → α) :
    (queue.insert f).offset = queue.offset := rfl

/-- Nothing was cut off: `get` reads the events from the first one on. -/
theorem EventQueue.get_of_offset {α : Type} {queue : EventQueue α} (h : queue.offset = 0)
    (progressId : Nat) : queue.get progressId = queue.events[progressId]? := by
  simp [get, h]

namespace Memory

section Log

variable [Meadowcap]

/-! ## The invariant -/

/-- The log of a namespace explains the vector of its entries, which holds no
entry twice. -/
structure NamespaceStore.Explained (store : NamespaceStore) : Prop where
  explains : Explains ∅ store.events.changes {a | a ∈ store.entries}
  nodup : (store.entries.map (·.entry)).Nodup
  offset : store.events.offset = 0

theorem NamespaceStore.Explained.empty : ({} : NamespaceStore).Explained where
  explains := by
    have hnone : {a : AuthorisedEntry | a ∈ ({} : NamespaceStore).entries} = ∅ := by simp
    rw [hnone]
    exact Explains.nil ∅
  nodup := List.nodup_nil
  offset := rfl

omit [Meadowcap] in
/-- Without repetitions, removing a position removes its entry. -/
theorem setOf_mem_eraseIdx {α : Type*} {l : List α} (h : l.Nodup) {i : Nat} {a : α}
    (ha : l[i]? = some a) : {b | b ∈ l.eraseIdx i} = {b | b ∈ l} \ {a} := by
  ext b
  rw [Set.mem_sdiff, Set.mem_singleton_iff, Set.mem_ofPred_eq, Set.mem_ofPred_eq,
    List.mem_eraseIdx_iff_getElem?]
  have hi : i < l.length := (List.getElem?_eq_some_iff.mp ha).1
  constructor
  · rintro ⟨k, hk, hb⟩
    refine ⟨List.mem_of_getElem? hb, ?_⟩
    rintro rfl
    exact hk ((List.getElem?_inj hi h).mp (ha.trans hb.symm)).symm
  · rintro ⟨hb, hne⟩
    obtain ⟨k, hk⟩ := List.mem_iff_getElem?.mp hb
    refine ⟨k, ?_, hk⟩
    rintro rfl
    exact hne (Option.some.inj (hk.symm.trans ha))

/-! ## One ingestion -/

section Step

variable {store store' : NamespaceStore} {entry : AuthorisedEntry}

/-- The removal loop logs what it removes, whatever positions it is given. -/
theorem NamespaceStore.Explained.removeAll {positions : List Nat} (h : store.Explained)
    (hrun : removeAll entry positions store = some store') : store'.Explained := by
  induction positions generalizing store with
  | nil =>
      obtain rfl := Option.some.inj hrun
      exact h
  | cons i rest ih =>
      rw [Memory.removeAll] at hrun
      split at hrun
      · cases hrun
      · rename_i gone hgone
        refine ih ⟨?_, ?_, ?_⟩ hrun
        · rw [EventQueue.changes_insert,
            setOf_mem_eraseIdx (List.Nodup.of_map _ h.nodup) hgone]
          exact h.explains.remove (List.mem_of_getElem? hgone)
        · exact h.nodup.sublist ((List.eraseIdx_sublist _ _).map _)
        · exact h.offset

/-- The removal loop adds no entry. -/
theorem removeAll_subset {positions : List Nat}
    (hrun : removeAll entry positions store = some store') :
    store'.entries ⊆ store.entries := by
  induction positions generalizing store with
  | nil =>
      obtain rfl := Option.some.inj hrun
      exact List.Subset.refl _
  | cons i rest ih =>
      rw [Memory.removeAll] at hrun
      split at hrun
      · cases hrun
      · exact List.Subset.trans (ih hrun) List.eraseIdx_subset

/-- One ingestion keeps log and vector together. -/
theorem NamespaceStore.Explained.ingestEntry {origin : EntryOrigin} {res : Bool}
    (h : store.Explained) (hrun : store.ingestEntry entry origin = some (res, store')) :
    store'.Explained := by
  unfold NamespaceStore.ingestEntry at hrun
  cases hscan : toPrune entry.entry 0 store.entries with
  | none =>
      rw [hscan] at hrun
      obtain ⟨-, rfl⟩ := Prod.mk.inj (Option.some.inj hrun)
      exact h
  | some positions =>
      rw [hscan] at hrun
      obtain ⟨mid, hmid, heq⟩ := Option.map_eq_some_iff.mp hrun
      obtain ⟨-, rfl⟩ := Prod.mk.inj heq
      have hloop := h.removeAll hmid
      -- an entry that is there already would have ended the scan
      have hnew : entry.entry ∉ mid.entries.map (·.entry) := by
        intro hmem
        obtain ⟨a, ha, hae⟩ := List.mem_map.mp hmem
        have hcovered : Frontier.Covered Entry.Prunes (entrySet store.entries) entry.entry :=
          .of_mem ⟨a, removeAll_subset hmid ha, hae⟩
        rw [toPrune_eq_none_iff.mpr hcovered] at hscan
        cases hscan
      refine ⟨?_, ?_, hloop.offset⟩
      · have hset : {a | a ∈ mid.entries ++ [entry]} = insert entry {a | a ∈ mid.entries} := by
          ext a
          simp [or_comm]
        rw [EventQueue.changes_insert]
        show Explains ∅ (mid.events.changes ++ [.add entry]) {a | a ∈ mid.entries ++ [entry]}
        rw [hset]
        exact hloop.explains.add entry
      · rw [List.map_append, List.map_singleton]
        exact List.nodup_append.mpr ⟨hloop.nodup, List.nodup_singleton _, fun e he e' he' heq =>
          hnew (by rwa [← List.mem_singleton.mp he', ← heq])⟩

/-- A skipped entry leaves the namespace alone. -/
theorem eq_of_ingestEntry_false {origin : EntryOrigin}
    (hrun : store.ingestEntry entry origin = some (false, store')) : store' = store := by
  unfold NamespaceStore.ingestEntry at hrun
  split at hrun
  · exact (Prod.mk.inj (Option.some.inj hrun)).2.symm
  · obtain ⟨mid, -, heq⟩ := Option.map_eq_some_iff.mp hrun
    cases (Prod.mk.inj heq).1

end Step

/-! ## Whole runs -/

namespace EntryStore

/-- The log of every namespace explains its entries. -/
def Explained (s : EntryStore) : Prop := ∀ ns, (s.namespaceStore ns).Explained

theorem namespaceStore_setStore_ne (s : EntryStore) {ns ns' : NamespaceId} (hne : ns' ≠ ns)
    (store : NamespaceStore) : (s.setStore ns store).namespaceStore ns' = s.namespaceStore ns' := by
  simp [setStore, namespaceStore, Function.update_of_ne hne]

variable {s s' : EntryStore} {entry : AuthorisedEntry} {origin : EntryOrigin} {res : Bool}

/-- Other namespaces are left alone. -/
theorem namespaceStore_ingestEntry_ne (h : s.ingestEntry entry origin = some (res, s'))
    {ns : NamespaceId} (hne : ns ≠ entry.entry.namespaceId) :
    s'.namespaceStore ns = s.namespaceStore ns := by
  obtain ⟨⟨res', store⟩, -, heq⟩ := Option.map_eq_some_iff.mp h
  obtain ⟨-, rfl⟩ := Prod.mk.inj heq
  exact namespaceStore_setStore_ne s hne store

theorem Explained.ingestEntry (h : s.Explained)
    (hrun : s.ingestEntry entry origin = some (res, s')) : s'.Explained := by
  intro ns
  by_cases hns : ns = entry.entry.namespaceId
  · subst hns
    exact (h _).ingestEntry (namespaceStore_ingestEntry hrun)
  · rw [namespaceStore_ingestEntry_ne hrun hns]
    exact h ns

theorem Explained.ingestAll {l : List (AuthorisedEntry × EntryOrigin)} (h : s.Explained)
    (hrun : s.ingestAll l = some s') : s'.Explained := by
  induction l generalizing s with
  | nil =>
      obtain rfl := Option.some.inj hrun
      exact h
  | cons x rest ih =>
      obtain ⟨entry, origin⟩ := x
      unfold EntryStore.ingestAll at hrun
      split at hrun
      · cases hrun
      · rename_i hstep
        exact ih (h.ingestEntry hstep) hrun

theorem namespaceStore_ingestEntry_false (h : s.ingestEntry entry origin = some (false, s'))
    (ns : NamespaceId) : s'.namespaceStore ns = s.namespaceStore ns := by
  by_cases hns : ns = entry.entry.namespaceId
  · subst hns
    exact eq_of_ingestEntry_false (namespaceStore_ingestEntry h)
  · exact namespaceStore_ingestEntry_ne h hns

end EntryStore

/-- **The log explains the store.** After every list of ingestions into the
empty store that does not panic, the events of each namespace, read from
progress id 0 on, lead from nothing to exactly the entries of its vector, and
each of them removes an entry that is there. A call that answers `false` changes
neither the events nor the entries of any namespace. -/
theorem ingestAll_events_explain (l : List (AuthorisedEntry × EntryOrigin)) (s : EntryStore)
    (h : EntryStore.empty.ingestAll l = some s) :
    (∀ ns, Explains ∅ (s.namespaceStore ns).events.changes
        {a | a ∈ (s.namespaceStore ns).entries} ∧
      ((s.namespaceStore ns).entries.map (·.entry)).Nodup ∧
      ∀ i, (s.namespaceStore ns).events.get i = (s.namespaceStore ns).events.events[i]?) ∧
    ∀ entry origin s', s.ingestEntry entry origin = some (false, s') →
      ∀ ns, s'.namespaceStore ns = s.namespaceStore ns := by
  have hstart : EntryStore.empty.Explained := fun _ => .empty
  have hend : s.Explained := hstart.ingestAll h
  refine ⟨fun ns => ⟨(hend ns).explains, (hend ns).nodup, ?_⟩, fun entry origin s' hfalse ns => ?_⟩
  · exact EventQueue.get_of_offset (hend ns).offset
  · exact EntryStore.namespaceStore_ingestEntry_false hfalse ns

end Log

section Samples

open IrohWillow.Sample

attribute [local instance] acceptingSignatures

/-- An entry and one that prunes it leave three events. -/
theorem ingestAll_events_explain_onePruned :
    ∃ s, EntryStore.empty.ingestAll onePruned = some s ∧
      Explains ∅ (s.namespaceStore namespaceId).events.changes
        {a | a ∈ (s.namespaceStore namespaceId).entries} ∧
      (s.namespaceStore namespaceId).events.events.length = 3 := by
  obtain ⟨s, hs, -⟩ := ingestAll_onePruned_survivors
  refine ⟨s, hs, ((ingestAll_events_explain onePruned s hs).1 namespaceId).1, ?_⟩
  have hlen : (EntryStore.empty.ingestAll onePruned).map
      (fun s => (s.namespaceStore namespaceId).events.events.length) = some 3 := by decide
  rw [hs] at hlen
  exact Option.some.inj hlen

end Samples

end Memory

end IrohWillow
