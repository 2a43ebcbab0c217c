import IrohWillow.Store.EventLog
import IrohWillow.Store.PersistentConvergence

/-!
# The event log of the persistent store

A subscriber that adds the entry of each `Ingested` event and removes the entry
of each `Pruned` event should hold what the store holds. `ingest_entry` of
`store/persistent.rs` reports the entries it deletes, but
`ns_node.insert` also drops the entry at the same point, and nothing reports
that one. `persistent_log_explains_iff` says that this is the only way in which
log and tree come apart.
-/

namespace IrohWillow.Persistent

open ChangeLog

/-! ## The entries of a tree -/

section Nodes

variable {ns : NamespaceId} {node : Node} {p : Point} {v : StoredAuthorisedEntry}

/-- The entries a tree holds for a namespace. -/
def nodeEntries (ns : NamespaceId) (node : Node) : Set Entry :=
  {e | ∃ v, node.lookup e.point = some v ∧ v.intoEntry ns e.point = e}

@[simp] theorem nodeEntries_empty : nodeEntries ns ∅ = ∅ := by
  simp [nodeEntries]

theorem intoEntry_mem_nodeEntries (h : node.lookup p = some v) :
    v.intoEntry ns p ∈ nodeEntries ns node := ⟨v, h, rfl⟩

/-- Deleting a point removes its entry. -/
theorem nodeEntries_erase (h : node.lookup p = some v) :
    nodeEntries ns (node.erase p) = nodeEntries ns node \ {v.intoEntry ns p} := by
  ext e
  simp only [nodeEntries, Set.mem_sdiff, Set.mem_ofPred_eq, Set.mem_singleton_iff]
  constructor
  · rintro ⟨w, hw, he⟩
    have hne : e.point ≠ p := by
      intro heq
      rw [heq, AList.lookup_erase] at hw
      cases hw
    rw [AList.lookup_erase_ne hne] at hw
    refine ⟨⟨w, hw, he⟩, ?_⟩
    rintro rfl
    exact hne rfl
  · rintro ⟨⟨w, hw, he⟩, hne⟩
    refine ⟨w, ?_, he⟩
    rw [AList.lookup_erase_ne, hw]
    intro heq
    rw [heq, h] at hw
    obtain rfl := Option.some.inj hw
    exact hne (by rw [← he, heq])

/-- Inserting at a point replaces its entry. -/
theorem nodeEntries_insert :
    nodeEntries ns (node.insert p v) =
      insert (v.intoEntry ns p) {e | e ∈ nodeEntries ns node ∧ e.point ≠ p} := by
  ext e
  simp only [nodeEntries, Set.mem_insert_iff, Set.mem_ofPred_eq]
  by_cases hp : e.point = p
  · subst hp
    rw [AList.lookup_insert]
    constructor
    · rintro ⟨w, hw, he⟩
      obtain rfl := Option.some.inj hw
      exact Or.inl he.symm
    · rintro (he | ⟨-, hne⟩)
      · exact ⟨v, rfl, he.symm⟩
      · exact absurd rfl hne
  · rw [AList.lookup_insert_ne hp]
    constructor
    · exact fun h => Or.inr ⟨h, hp⟩
    · rintro (rfl | h)
      · exact absurd rfl hp
      · exact h.1

/-- The candidates lie in the tree, at points of their own. -/
theorem query_candidates (node : Node) (range : QueryRange3d) :
    (∀ kv ∈ node.query range, node.lookup kv.1 = some kv.2) ∧
      ((node.query range).map Prod.fst).Nodup :=
  ⟨fun _ hkv => (Node.mem_query.mp hkv).1, node.nodup_query range⟩

end Nodes

section Log

variable [Meadowcap]

/-- The entries that lie in the tree of a namespace. -/
def Tables.stored (t : Tables) (ns : NamespaceId) : Set Entry := nodeEntries ns (t.node ns)

/-- The log of a namespace, as changes to a set of entries. -/
def Tables.entryChanges (t : Tables) (ns : NamespaceId) : List (Change Entry) :=
  (t.namespaceEvents ns).changes.map (Change.map (·.entry))

/-- When the whole namespace is read without an error, what is read are the
entries of its tree. -/
theorem entrySet_of_getAuthorisedEntries {t : Tables} {ns : NamespaceId}
    {read : List AuthorisedEntry} (h : t.getAuthorisedEntries ns .full = read.map .ok) :
    entrySet read = t.stored ns :=
  Set.ext fun _ => mem_entrySet_of_getAuthorisedEntries h

/-- The log of a namespace explains what its tree holds, and what is read from
it. -/
structure LogExplains (ns : NamespaceId) (t : Tables) : Prop where
  explains : Explains ∅ (t.entryChanges ns) (t.stored ns)
  read : ∀ read, t.getAuthorisedEntries ns .full = read.map .ok → entrySet read = t.stored ns

theorem logExplains_iff {ns : NamespaceId} {t : Tables} :
    LogExplains ns t ↔ Explains ∅ (t.entryChanges ns) (t.stored ns) :=
  ⟨LogExplains.explains, fun h => ⟨h, fun _ => entrySet_of_getAuthorisedEntries⟩⟩

/-- At the point of the entry lies a different one. -/
def Overwrites (t : Tables) (a : AuthorisedEntry) : Prop :=
  ∃ v, (t.node a.entry.namespaceId).lookup a.entry.point = some v ∧
    v.intoEntry a.entry.namespaceId a.entry.point ≠ a.entry

/-! ## The prune loop -/

/-- Removing a token touches neither the trees nor the events. -/
theorem removeEntryAuthToken_frame {t t' : Tables} {key : UserSignature}
    {res : Except StoreError Unit} (h : t.removeEntryAuthToken key = (res, t')) :
    t'.namespaceNodes = t.namespaceNodes ∧ t'.namespaceEvents = t.namespaceEvents := by
  unfold Tables.removeEntryAuthToken at h
  split at h
  · obtain rfl := congrArg Prod.snd h
    exact ⟨rfl, rfl⟩
  · split at h
    · split at h <;>
      · obtain rfl := congrArg Prod.snd h
        exact ⟨rfl, rfl⟩
    · obtain rfl := congrArg Prod.snd h
      exact ⟨rfl, rfl⟩

/-- The loop leaves the roots alone. -/
theorem pruneCandidates_namespaceNodes {entry : AuthorisedEntry}
    {candidates : List (Point × StoredAuthorisedEntry)} {node node' : Node} {t t' : Tables}
    {res : Except StoreError Unit}
    (hrun : pruneCandidates entry candidates node t = (res, node', t')) :
    t'.namespaceNodes = t.namespaceNodes := by
  induction candidates generalizing node t with
  | nil =>
      simp only [pruneCandidates_nil, Prod.mk.injEq] at hrun
      rw [hrun.2.2]
  | cons kv rest ih =>
      obtain ⟨pos, candidate⟩ := kv
      simp only [pruneCandidates_cons] at hrun
      split at hrun
      · rw [show t = t' from congrArg (·.2.2) hrun]
      · split at hrun
        · split at hrun
          · rename_i heq
            rw [← show _ = t' from congrArg (·.2.2) hrun, (removeEntryAuthToken_frame heq).1]
            rfl
          · rename_i heq
            rw [ih hrun, (removeEntryAuthToken_frame heq).1]
            rfl
        · exact ih hrun

theorem entryChanges_insertEvent (t : Tables) (ns ns' : NamespaceId) (f : Nat → StoreEvent) :
    (t.insertEvent ns f).entryChanges ns' =
      if ns' = ns then t.entryChanges ns ++
        [(f (t.namespaceEvents ns).nextProgressId).change.map (·.entry)]
      else t.entryChanges ns' := by
  unfold Tables.entryChanges Tables.insertEvent
  by_cases h : ns' = ns
  · subst h
    simp
  · simp [h]

/-- The loop logs every entry it deletes, and nothing else. -/
theorem explains_pruneCandidates {entry : AuthorisedEntry}
    {candidates : List (Point × StoredAuthorisedEntry)} {node node' : Node} {t t' : Tables}
    {S : Set Entry}
    (h : Explains S (t.entryChanges entry.entry.namespaceId)
      (nodeEntries entry.entry.namespaceId node))
    (hin : ∀ kv ∈ candidates, node.lookup kv.1 = some kv.2)
    (hnodup : (candidates.map Prod.fst).Nodup)
    (hrun : pruneCandidates entry candidates node t = (.ok (), node', t')) :
    Explains S (t'.entryChanges entry.entry.namespaceId)
        (nodeEntries entry.entry.namespaceId node') ∧
      ∀ ns, ns ≠ entry.entry.namespaceId → t'.entryChanges ns = t.entryChanges ns := by
  induction candidates generalizing node t with
  | nil =>
      simp only [pruneCandidates_nil, Prod.mk.injEq, true_and] at hrun
      obtain ⟨rfl, rfl⟩ := hrun
      exact ⟨h, fun _ _ => rfl⟩
  | cons kv rest ih =>
      obtain ⟨pos, candidate⟩ := kv
      rw [List.map_cons, List.nodup_cons] at hnodup
      have hhead : node.lookup pos = some candidate := hin (pos, candidate) List.mem_cons_self
      have hrest : ∀ kv ∈ rest, node.lookup kv.1 = some kv.2 := fun kv hkv =>
        hin kv (List.mem_cons_of_mem _ hkv)
      simp only [pruneCandidates_cons] at hrun
      split at hrun
      · cases congrArg Prod.fst hrun
      · rename_i pruned hread
        have hentry := readStored_eq_ok hread
        split at hrun
        · split at hrun
          · cases congrArg Prod.fst hrun
          · rename_i t'' heq
            -- removing the token logs nothing
            have hlog : ∀ ns, t''.entryChanges ns = (t.insertEvent entry.entry.namespaceId
                fun id => .pruned id pruned entry).entryChanges ns := by
              intro ns
              unfold Tables.entryChanges
              rw [(removeEntryAuthToken_frame heq).2]
            have hstep : Explains S (t''.entryChanges entry.entry.namespaceId)
                (nodeEntries entry.entry.namespaceId (node.erase pos)) := by
              rw [hlog, entryChanges_insertEvent, if_pos rfl, nodeEntries_erase hhead, ← hentry]
              exact h.remove (show pruned.entry ∈ _ by
                rw [hentry]
                exact intoEntry_mem_nodeEntries hhead)
            -- the other candidates lie at other points
            have hin' : ∀ kv ∈ rest, (node.erase pos).lookup kv.1 = some kv.2 := by
              intro kv hkv
              rw [AList.lookup_erase_ne, hrest kv hkv]
              intro heq
              exact hnodup.1 (List.mem_map.mpr ⟨kv, hkv, heq⟩)
            obtain ⟨hexp, hframe⟩ := ih hstep hin' hnodup.2 hrun
            refine ⟨hexp, fun ns hns => ?_⟩
            rw [hframe ns hns, hlog, entryChanges_insertEvent, if_neg hns]
        · exact ih h hrest hnodup.2 hrun

/-! ## One ingestion -/

section Ingest

variable [WillowStore] {t : Tables} {a : AuthorisedEntry} {origin : EntryOrigin} {res : Bool}

/-- What a successful ingestion does: the candidates are pruned, the entry is
inserted and logged. -/
theorem ingestEntry_spec (h : (t.ingestEntry a origin).1 = .ok res) :
    ∃ node' t', pruneCandidates a ((t.node a.entry.namespaceId).query
        (overwrittenRange a.entry)) (t.node a.entry.namespaceId) t = (.ok (), node', t') ∧
      (∀ ns, ((t.ingestEntry a origin).2).stored ns =
        if ns = a.entry.namespaceId then
          insert a.entry {e | e ∈ nodeEntries ns node' ∧ e.point ≠ a.entry.point}
        else t.stored ns) ∧
      ∀ ns, ((t.ingestEntry a origin).2).entryChanges ns =
        if ns = a.entry.namespaceId then t'.entryChanges ns ++ [.add a.entry]
        else t'.entryChanges ns := by
  obtain ⟨out, node', t', hloop⟩ : ∃ out node' t', pruneCandidates a
      ((t.node a.entry.namespaceId).query (overwrittenRange a.entry))
      (t.node a.entry.namespaceId) t = (out, node', t') := ⟨_, _, _, rfl⟩
  have hroots := pruneCandidates_namespaceNodes hloop
  cases out with
  | error e =>
      unfold Tables.node at hloop
      simp [Tables.ingestEntry_eq, hloop] at h
  | ok u =>
      refine ⟨node', t', hloop, fun ns => ?_, fun ns => ?_⟩
      · split
        · rename_i hns
          subst hns
          rw [Tables.stored, (ingestEntry_of_pruned origin hloop).2.1, nodeEntries_insert]
          rfl
        · rename_i hns
          unfold Tables.node at hloop
          simp only [Tables.stored, Tables.node, Tables.ingestEntry_eq, hloop,
            Function.update_of_ne hns, Tables.insertEvent, Tables.addEntryAuthToken, hroots]
      · -- after the loop only the ingestion itself is logged
        have hlog : (t.ingestEntry a origin).2.entryChanges ns =
            ((t'.addEntryAuthToken a.token).insertEvent a.entry.namespaceId
              fun id => .ingested id a origin).entryChanges ns := by
          unfold Tables.node at hloop
          simp only [Tables.ingestEntry_eq, hloop]
          rfl
        rw [hlog, entryChanges_insertEvent]
        split
        · rename_i hns
          rw [hns]
          rfl
        · rfl

/-- The point of the entry is not in the range that is searched. -/
theorem lookup_point_pruneCandidates {node' : Node} {t' : Tables} {out : Except StoreError Unit}
    (hloop : pruneCandidates a ((t.node a.entry.namespaceId).query
      (overwrittenRange a.entry)) (t.node a.entry.namespaceId) t = (out, node', t')) :
    node'.lookup a.entry.point = (t.node a.entry.namespaceId).lookup a.entry.point := by
  have hmem : a.entry.point ∉ ((t.node a.entry.namespaceId).query
      (overwrittenRange a.entry)).map Prod.fst := by
    intro hmem
    obtain ⟨⟨q, v⟩, hkv, rfl⟩ := List.mem_map.mp hmem
    have hlt : a.entry.timestamp < a.entry.timestamp := (Node.mem_query.mp hkv).2.2.1.2
    exact lt_irrefl _ hlt
  have hkeep := @pruneCandidates_lookup_of_notMem _ a _ (t.node a.entry.namespaceId) t _ hmem
  rwa [hloop] at hkeep

/-- An ingestion that overwrites nothing keeps log and tree together. -/
theorem LogExplains.ingestEntry (hlog : ∀ ns, LogExplains ns t)
    (hok : (t.ingestEntry a origin).1 = .ok res) (hnew : ¬ Overwrites t a) (ns : NamespaceId) :
    LogExplains ns (t.ingestEntry a origin).2 := by
  obtain ⟨node', t', hloop, hstored, hchanges⟩ := ingestEntry_spec hok
  obtain ⟨hin, hnodup⟩ := query_candidates (t.node a.entry.namespaceId) (overwrittenRange a.entry)
  obtain ⟨hexp, hframe⟩ := explains_pruneCandidates (hlog a.entry.namespaceId).explains hin hnodup
    hloop
  rw [logExplains_iff, hstored, hchanges]
  split
  · rename_i hns
    subst hns
    -- whatever lies at the point of the entry is the entry itself
    have hset : insert a.entry {e | e ∈ nodeEntries a.entry.namespaceId node' ∧
        e.point ≠ a.entry.point} = insert a.entry (nodeEntries a.entry.namespaceId node') := by
      ext e
      simp only [Set.mem_insert_iff, Set.mem_ofPred_eq]
      constructor
      · exact Or.imp id And.left
      · rintro (rfl | he)
        · exact Or.inl rfl
        · by_cases hp : e.point = a.entry.point
          · obtain ⟨v, hv, heq⟩ := he
            rw [hp, lookup_point_pruneCandidates hloop] at hv
            by_contra hne
            refine hnew ⟨v, hv, fun h => hne (Or.inl ?_)⟩
            rw [← heq, hp, h]
          · exact Or.inr ⟨he, hp⟩
    rw [hset]
    exact hexp.add a.entry
  · rename_i hns
    rw [hframe ns hns]
    exact (hlog ns).explains

/-- An entry that is overwritten stays in the log. -/
theorem not_overwrites_of_logExplains (hlog : LogExplains a.entry.namespaceId t)
    (hok : (t.ingestEntry a origin).1 = .ok res)
    (hlog' : LogExplains a.entry.namespaceId (t.ingestEntry a origin).2) : ¬ Overwrites t a := by
  rintro ⟨v, hv, hne⟩
  obtain ⟨node', t', hloop, hstored, hchanges⟩ := ingestEntry_spec hok
  obtain ⟨hin, hnodup⟩ := query_candidates (t.node a.entry.namespaceId) (overwrittenRange a.entry)
  obtain ⟨hexp, -⟩ := explains_pruneCandidates hlog.explains hin hnodup hloop
  have hexp' := hlog'.explains
  rw [hstored, hchanges, if_pos rfl, if_pos rfl] at hexp'
  -- both are what the log leads to, but only one of them holds the overwritten entry
  have heq := (hexp.add a.entry).unique hexp'
  have hmem : v.intoEntry a.entry.namespaceId a.entry.point ∈
      nodeEntries a.entry.namespaceId node' :=
    intoEntry_mem_nodeEntries ((lookup_point_pruneCandidates hloop).trans hv)
  have hgone := heq ▸ Set.mem_insert_of_mem a.entry hmem
  rcases hgone with h | ⟨-, h⟩
  · exact hne h
  · exact h rfl

end Ingest

/-! ## Whole runs -/

/-- Every call of the list succeeds. -/
def Succeeds [WillowStore] (l : List (AuthorisedEntry × EntryOrigin)) : Prop :=
  ∀ p x, p ++ [x] <+: l → ∃ res, ((({} : Tables).ingestAll p).ingestEntry x.1 x.2).1 = .ok res

theorem LogExplains.empty (ns : NamespaceId) : LogExplains ns ({} : Tables) := by
  rw [logExplains_iff]
  show Explains ∅ [] (nodeEntries ns ∅)
  rw [nodeEntries_empty]
  exact Explains.nil ∅

/-- **The log of the persistent store, exactly.** Along a list of successful
ingestions into the empty database, the events of every namespace explain the
entries of its tree after each call if and only if no call finds a different
entry at the point of its own. -/
theorem persistent_log_explains_iff [WillowStore] (l : List (AuthorisedEntry × EntryOrigin))
    (hok : Succeeds l) :
    (∀ p, p <+: l → ∀ ns, LogExplains ns (({} : Tables).ingestAll p)) ↔
      ∀ p x, p ++ [x] <+: l → ¬ Overwrites (({} : Tables).ingestAll p) x.1 := by
  constructor
  · intro hlog p x hpx
    obtain ⟨res, hres⟩ := hok p x hpx
    have hlast := hlog (p ++ [x]) hpx x.1.entry.namespaceId
    rw [Tables.ingestAll_concat] at hlast
    exact not_overwrites_of_logExplains
      (hlog p ((List.prefix_append _ _).trans hpx) x.1.entry.namespaceId) hres hlast
  · intro hnew p
    induction p using List.reverseRecOn with
    | nil => exact fun _ ns => LogExplains.empty ns
    | append_singleton p x ih =>
        intro hpx ns
        obtain ⟨res, hres⟩ := hok p x hpx
        rw [Tables.ingestAll_concat]
        exact LogExplains.ingestEntry (ih ((List.prefix_append _ _).trans hpx)) hres
          (hnew p x hpx) ns

end Log

/-! ### Two lists of ingestions -/

section Samples

open IrohWillow.Sample

attribute [local instance] acceptingSignatures Persistent.Sample.appendZero

theorem authorised_payloadAt (timestamp : Timestamp) (payload : Byte) :
    Meadowcap.isAuthorisedWrite { bareEntryAt [] timestamp with payloadDigest := .ofByte payload }
      ⟨writeCapability, .ofByte payload⟩ = true := (entryAt [] timestamp).authorised

/-- An entry at the root with a payload and a signature of its own. -/
def payloadAt (timestamp : Timestamp) (payload : Byte) : AuthorisedEntry × EntryOrigin :=
  ({ entry := { bareEntryAt [] timestamp with payloadDigest := .ofByte payload }
     token := ⟨writeCapability, .ofByte payload⟩
     authorised := authorised_payloadAt timestamp payload }, .localOrigin)

/-- Two payloads for one path at one time. -/
def samePoint : List (AuthorisedEntry × EntryOrigin) := [payloadAt 1 1, payloadAt 1 2]

theorem succeeds_pair {x y : AuthorisedEntry × EntryOrigin}
    (hx : (({} : Tables).ingestEntry x.1 x.2).1 = .ok true)
    (hy : ((({} : Tables).ingestEntry x.1 x.2).2.ingestEntry y.1 y.2).1 = .ok true) :
    Succeeds [x, y] := by
  intro p z hp
  have hlen : p.length ≤ 1 := by
    have := hp.length_le
    simpa using this
  match p, hlen with
  | [], _ =>
      obtain ⟨rfl, -⟩ := List.cons_prefix_cons.mp hp
      exact ⟨true, hx⟩
  | [w], _ =>
      obtain ⟨rfl, hp'⟩ := List.cons_prefix_cons.mp hp
      obtain ⟨rfl, -⟩ := List.cons_prefix_cons.mp hp'
      exact ⟨true, hy⟩

/-- The first payload leaves the tree without an event. -/
theorem samePoint_is_not_logged :
    ¬ ∀ (_ : Meadowcap) (_ : WillowStore) (l : List (AuthorisedEntry × EntryOrigin)),
      Succeeds l → ∀ ns, LogExplains ns (({} : Tables).ingestAll l) := by
  intro h
  have hlog := h acceptingSignatures Persistent.Sample.appendZero samePoint
    (succeeds_pair (by decide) (by decide)) namespaceId
  -- the log still has the first payload, the tree has the second one in its place
  have hmem : (payloadAt 1 1).1.entry ∈
      replay ∅ ((({} : Tables).ingestAll samePoint).entryChanges namespaceId) := by
    have hchanges : (({} : Tables).ingestAll samePoint).entryChanges namespaceId =
        [.add (payloadAt 1 1).1.entry, .add (payloadAt 1 2).1.entry] := by decide
    rw [hchanges]
    exact Set.mem_insert_of_mem _ (Set.mem_insert _ _)
  rw [hlog.explains.replay] at hmem
  obtain ⟨v, hv, heq⟩ := hmem
  have hlook : ((({} : Tables).ingestAll samePoint).node namespaceId).lookup
      (payloadAt 1 1).1.entry.point = some (.fromAuthorisedEntry (payloadAt 1 2).1) := by decide
  rw [hlook] at hv
  obtain rfl := Option.some.inj hv
  exact absurd heq (by decide)

theorem persistent_log_explains_inOrder :
    LogExplains namespaceId (({} : Tables).ingestAll inOrder) := by
  refine (persistent_log_explains_iff inOrder (succeeds_pair (by decide) (by decide))).mpr ?_
    inOrder (List.prefix_refl _) namespaceId
  intro p x hp
  have hlen : p.length ≤ 1 := by
    have := hp.length_le
    simpa [inOrder] using this
  rcases p with _ | ⟨w, _ | ⟨w', p⟩⟩
  · rintro ⟨v, hv, -⟩
    simp [Tables.ingestAll, Tables.node] at hv
  · obtain ⟨rfl, hp'⟩ := List.cons_prefix_cons.mp hp
    obtain ⟨rfl, -⟩ := List.cons_prefix_cons.mp hp'
    rintro ⟨v, hv, -⟩
    have hnone : ((({} : Tables).ingestAll [signedAt 1 1]).node namespaceId).lookup
        (signedAt 2 2).1.entry.point = none := by decide
    rw [show (signedAt 2 2).1.entry.namespaceId = namespaceId from rfl, hnone] at hv
    cases hv
  · exact absurd hlen (by simp)

end Samples

end IrohWillow.Persistent
