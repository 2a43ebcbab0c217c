import IrohWillow.Store.EventLog
import IrohWillow.Store.InsertEntry
import IrohWillow.Store.TokenCounts

/-!
# Is every stored entry authorised?

There are three ways into the store: an entry that a client inserts with
`Store::insert_entry`, an entry that was deserialised, and an entry of a remote
peer. The last two go through `AuthorisedEntry::new`, and so does an inserted
entry whose capability was selected by the caps storage, in effect: the
selector asks for what the check would. Only a capability that the caller
passes with `AuthForm::Exact` is compared with nothing.

`stored_entries_authorised_iff` is the exact statement for both storage
backends. In the persistent one a token is stored under its signature, so that
there it matters as well which entries share one.
-/

namespace IrohWillow

attribute [local instance] acceptAll

section Operations

variable [Signing] (κ : Type)

/-- The ways into the store. -/
inductive Operation where
  | insertEntry (call : InsertCall κ)
  /-- `Engine::ingest_entry` with an entry that was deserialised. -/
  | ingestDeserialised (entry : Entry) (token : AuthorisationToken)
  /-- An entry that a session receives, and the tokens it has bound. -/
  | ingestRemote (tokens : StaticTokens) (entry : Entry) (staticTokenHandle : Nat)
      (dynamicToken : DynamicToken) (session : Nat)

variable {κ} [CapsStorage κ]

/-- What an operation hands to `ingest_entry`. -/
def Operation.admitted : Operation κ → Option (AuthorisedEntry × EntryOrigin)
  | .insertEntry call =>
      match call.authorisedEntry with
      | .error _ => none
      | .ok a => some (a, .localOrigin)
  | .ingestDeserialised entry token =>
      (@AuthorisedEntry.new Signing.checks entry token).map fun a =>
        (forgetCheck a, .localOrigin)
  | .ingestRemote tokens entry staticTokenHandle dynamicToken session =>
      match @StaticTokens.authoriseEntryEventually Signing.checks tokens entry staticTokenHandle
        dynamicToken with
      | .ready (some a) => some (forgetCheck a, .remote session)
      | _ => none

/-- The operation inserts the entry under a capability of the caller, who holds
its secret, but the capability does not grant the entry. -/
def Operation.Oversteps (op : Operation κ) (entry : Entry) : Prop :=
  ∃ call cap secret, op = .insertEntry call ∧ call.auth = .exact cap ∧ call.toEntry = .ok entry ∧
    call.secrets cap.receiver = some secret ∧ Signing.id secret = cap.receiver ∧
    cap.accessMode = .write ∧ ¬ cap.Grants entry

variable [LawfulSigning] {op : Operation κ} {a : AuthorisedEntry} {origin : EntryOrigin}

/-- What oversteps gets in all the same, and nothing else gets in
unauthorised. -/
theorem Operation.oversteps_iff (h : op.admitted = some (a, origin)) :
    op.Oversteps a.entry ↔ ¬ Authorised a := by
  cases op with
  | insertEntry call =>
      simp only [admitted] at h
      split at h
      · cases h
      · rename_i b hcall
        obtain ⟨rfl, rfl⟩ := Prod.mk.inj (Option.some.inj h)
        cases hauth : call.auth with
        | any user =>
            -- a selected capability covers the entry
            constructor
            · rintro ⟨call', cap, secret, heq, hexact, -⟩
              obtain rfl := Operation.insertEntry.inj heq
              rw [hauth] at hexact
              cases hexact
            · exact fun hnot => absurd (call.authorised_of_any hcall hauth) hnot
        | exact cap =>
            -- a capability of the caller is not checked against the entry
            rw [call.authorised_iff_of_exact hcall hauth]
            constructor
            · rintro ⟨call', cap', secret, heq, hexact, -, -, -, -, hnot⟩
              obtain rfl := Operation.insertEntry.inj heq
              rw [hauth] at hexact
              obtain rfl := AuthForm.exact.inj hexact
              exact hnot
            · intro hnot
              obtain ⟨hentry, cap', secret, hcap, hsecret, htoken⟩ :=
                InsertCall.authorisedEntry_eq_ok hcall
              have heq : cap = cap' := by
                unfold InsertCall.capability at hcap
                rw [hauth] at hcap
                exact Except.ok.inj hcap
              subst heq
              rw [LawfulSigning.authorisationToken_eq] at htoken
              split at htoken
              · rename_i hcap'
                rw [hauth] at hsecret
                exact ⟨call, cap, secret, rfl, hauth, hentry, hsecret, hcap'.2, hcap'.1, hnot⟩
              · cases htoken
  | ingestDeserialised entry token =>
      -- the token was checked, so there is nothing unauthorised
      obtain ⟨b, -, heq⟩ := Option.map_eq_some_iff.mp h
      obtain ⟨rfl, -⟩ := Prod.mk.inj heq
      constructor
      · rintro ⟨call, cap, secret, ⟨⟩, -⟩
      · exact fun hnot => absurd (authorised_forgetCheck b) hnot
  | ingestRemote tokens entry staticTokenHandle dynamicToken session =>
      simp only [admitted] at h
      split at h
      · rename_i b hready
        obtain ⟨rfl, -⟩ := Prod.mk.inj (Option.some.inj h)
        constructor
        · rintro ⟨call, cap, secret, ⟨⟩, -⟩
        · exact fun hnot => absurd (authorised_forgetCheck b) hnot
      · cases h

/-- An operation that oversteps is not stopped in front of the store. -/
theorem Operation.Oversteps.admitted {entry : Entry} (h : op.Oversteps entry) :
    ∃ b, op.admitted = some (b, .localOrigin) ∧ b.entry = entry := by
  obtain ⟨call, cap, secret, rfl, hauth, hentry, hsecret, hid, hwrite, -⟩ := h
  refine ⟨newUnchecked entry ⟨cap, Signing.sign secret entry⟩, ?_, rfl⟩
  have htoken : Signing.authorisationToken cap entry secret =
      some ⟨cap, Signing.sign secret entry⟩ := by
    rw [LawfulSigning.authorisationToken_eq, if_pos ⟨hwrite, hid⟩]
  have hcall : call.authorisedEntry = .ok (newUnchecked entry ⟨cap, Signing.sign secret entry⟩) := by
    unfold InsertCall.authorisedEntry InsertCall.capability
    simp only [hentry, hauth, bind, Except.bind, AuthForm.userId, hsecret, htoken]
  simp only [Operation.admitted, hcall]

end Operations

/-! ## The in-memory store -/

namespace Memory

variable [Signing]

/-- Every stored entry is authorised by its token. -/
def AllAuthorised (s : EntryStore) : Prop :=
  ∀ ns, ∀ a ∈ (s.namespaceStore ns).entries, Authorised a

/-- One operation. It is undefined when `ingest_entry` panics. -/
def operate (s : EntryStore) (op : Operation CapsStore) : Option EntryStore :=
  match op.admitted with
  | none => some s
  | some (a, origin) => (s.ingestEntry a origin).map Prod.snd

/-- The operation inserts an entry that its capability does not grant, and no
stored entry makes it obsolete. -/
def Slips (s : EntryStore) (op : Operation CapsStore) : Prop :=
  ∃ entry, op.Oversteps entry ∧
    ¬ Frontier.Covered Entry.Prunes
      (entrySet (s.namespaceStore entry.namespaceId).entries) entry

section Step

variable {s s' : EntryStore} {a : AuthorisedEntry} {origin : EntryOrigin} {res : Bool}

omit [Signing] in
/-- After an ingestion the namespace holds nothing but what it held and the new
entry. -/
theorem ingestEntry_subset {store store' : NamespaceStore}
    (h : store.ingestEntry a origin = some (res, store')) :
    ∀ b ∈ store'.entries, b ∈ store.entries ∨ b = a := by
  unfold NamespaceStore.ingestEntry at h
  split at h
  · obtain ⟨-, rfl⟩ := Prod.mk.inj (Option.some.inj h)
    exact fun b hb => Or.inl hb
  · obtain ⟨mid, hmid, heq⟩ := Option.map_eq_some_iff.mp h
    obtain ⟨-, rfl⟩ := Prod.mk.inj heq
    intro b hb
    rcases List.mem_append.mp hb with hb | hb
    · exact Or.inl (removeAll_subset hmid hb)
    · exact Or.inr (List.mem_singleton.mp hb)

omit [Signing] in
/-- An entry that is not covered is stored. -/
theorem mem_ingestEntry {store store' : NamespaceStore}
    (h : store.ingestEntry a origin = some (res, store'))
    (hnew : ¬ Frontier.Covered Entry.Prunes (entrySet store.entries) a.entry) :
    a ∈ store'.entries := by
  unfold NamespaceStore.ingestEntry at h
  split at h
  · rename_i hscan
    exact absurd (toPrune_eq_none_iff.mp hscan) hnew
  · obtain ⟨mid, -, heq⟩ := Option.map_eq_some_iff.mp h
    obtain ⟨-, rfl⟩ := Prod.mk.inj heq
    exact List.mem_append_right _ (List.mem_singleton.mpr rfl)

/-- One ingestion keeps all entries authorised exactly if the new one is, or is
obsolete. -/
theorem AllAuthorised.ingestEntry_iff (h : AllAuthorised s)
    (hrun : s.ingestEntry a origin = some (res, s')) :
    AllAuthorised s' ↔ (¬ Frontier.Covered Entry.Prunes
      (entrySet (s.namespaceStore a.entry.namespaceId).entries) a.entry → Authorised a) := by
  have hstore := namespaceStore_ingestEntry hrun
  constructor
  · exact fun h' hnew => h' _ a (mem_ingestEntry hstore hnew)
  · intro hauth ns b hb
    by_cases hns : ns = a.entry.namespaceId
    · subst hns
      by_cases hcov : Frontier.Covered Entry.Prunes
          (entrySet (s.namespaceStore a.entry.namespaceId).entries) a.entry
      · rw [ingestEntry_of_covered hcov] at hstore
        obtain ⟨-, heq⟩ := Prod.mk.inj (Option.some.inj hstore)
        rw [← heq] at hb
        exact h _ b hb
      · rcases ingestEntry_subset hstore b hb with hb | rfl
        · exact h _ b hb
        · exact hauth hcov
    · rw [EntryStore.namespaceStore_ingestEntry_ne hrun hns] at hb
      exact h ns b hb

variable [LawfulSigning]

/-- One operation keeps all entries authorised exactly if it does not slip. -/
theorem AllAuthorised.operate_iff (h : AllAuthorised s) {op : Operation CapsStore}
    (hrun : operate s op = some s') : AllAuthorised s' ↔ ¬ Slips s op := by
  unfold operate at hrun
  split at hrun
  · rename_i hnone
    obtain rfl := Option.some.inj hrun
    refine ⟨?_, fun _ => h⟩
    rintro - ⟨entry, hover, -⟩
    obtain ⟨b, hb, -⟩ := hover.admitted
    rw [hnone] at hb
    cases hb
  · rename_i a origin hadmitted
    obtain ⟨⟨res, s''⟩, hingest, rfl⟩ := Option.map_eq_some_iff.mp hrun
    rw [h.ingestEntry_iff hingest]
    constructor
    · rintro hauth ⟨entry, hover, hnew⟩
      obtain ⟨b, hb, rfl⟩ := hover.admitted
      rw [hadmitted] at hb
      obtain ⟨rfl, -⟩ := Prod.mk.inj (Option.some.inj hb)
      exact (Operation.oversteps_iff hadmitted).mp hover (hauth hnew)
    · intro hnot hnew
      by_contra hauth
      exact hnot ⟨a.entry, (Operation.oversteps_iff hadmitted).mpr hauth, hnew⟩

end Step

end Memory

/-! ## The persistent store -/

namespace Persistent

section Model

variable [Signing]

/-- `into_authorised_entry`, when `AuthorisedEntry::new` checks the entry. -/
def authoriseChecked : Authorise := fun v ns point token =>
  (@AuthorisedEntry.new Signing.checks (v.intoEntry ns point) token).map forgetCheck

variable [WillowStore]

/-- `WillowStore::ingest_entry` of an entry that nobody has checked. The stored
entries that it reads are. -/
def Tables.ingestChecked (t : Tables) (entry : AuthorisedEntry) (origin : EntryOrigin) :
    Except StoreError Bool × Tables :=
  t.ingestEntryBy authoriseChecked entry origin

/-- Every stored entry has its token and is authorised by it. -/
def AllAuthorised (t : Tables) : Prop :=
  ∀ ns p v, (t.node ns).lookup p = some v → ∃ capability,
    t.authTokens v.authorisationTokenId = some capability ∧
      Signing.checks.isAuthorisedWrite (v.intoEntry ns p) ⟨capability, v.authorisationTokenId⟩ = true

/-- One operation. A call that fails leaves behind what it has done. -/
def operate (t : Tables) (op : Operation CapsTable) : Option Tables :=
  match op.admitted with
  | none => some t
  | some (a, origin) => some (t.ingestChecked a origin).2

/-- A stored entry that stays has the signature of the new one, whose
capability takes the place of its own, and is not authorised by it. -/
def Clashes (t : Tables) (a : AuthorisedEntry) : Prop :=
  ∃ ns p v, (t.node ns).lookup p = some v ∧ v.authorisationTokenId = a.token.signature ∧
    (ns, p) ≠ (a.entry.namespaceId, a.entry.point) ∧ (ns, p) ∉ prunedAt t a ∧
    ¬ Signing.checks.isAuthorisedWrite (v.intoEntry ns p) a.token = true

/-- The operation inserts an entry that its capability does not grant, or
brings a token that takes the place of another one. -/
def Slips (t : Tables) (op : Operation CapsTable) : Prop :=
  (∃ entry, op.Oversteps entry) ∨ ∃ a origin, op.admitted = some (a, origin) ∧ Clashes t a

end Model

/-! ### Reads that succeed -/

section Reading

/-- No token is replaced when one is removed. -/
theorem authTokens_removeEntryAuthToken {t : Tables} {key key' : UserSignature}
    {capability : McCapability}
    (h : (t.removeEntryAuthToken key).2.authTokens key' = some capability) :
    t.authTokens key' = some capability := by
  have hupdate : ∀ {c : McCapability},
      Function.update t.authTokens key none key' = some c → t.authTokens key' = some c := by
    intro c hc
    by_cases hkey : key' = key
    · rw [hkey, Function.update_self] at hc
      cases hc
    · rwa [Function.update_of_ne hkey] at hc
  unfold Tables.removeEntryAuthToken at h
  split at h
  · exact h
  · split at h
    · dsimp only at h
      split at h
      · exact hupdate h
      · exact hupdate h
    · exact h

variable [Signing]

/-- The tokens of the table authorise the candidate. -/
def Passes (t : Tables) (ns : NamespaceId) (kv : Point × StoredAuthorisedEntry) : Prop :=
  ∀ capability, t.authTokens kv.2.authorisationTokenId = some capability →
    Signing.checks.isAuthorisedWrite (kv.2.intoEntry ns kv.1)
      ⟨capability, kv.2.authorisationTokenId⟩ = true

/-- A candidate that passes is read as if nothing were checked. -/
theorem readChecked_of_passes {t : Tables} {ns : NamespaceId}
    {kv : Point × StoredAuthorisedEntry} (h : Passes t ns kv) :
    readStoredBy authoriseChecked t ns kv.1 kv.2 = readStored t ns kv.1 kv.2 := by
  unfold readStored readStoredBy authoriseChecked Tables.getEntryAuthToken
  cases htoken : t.authTokens kv.2.authorisationTokenId with
  | none => rfl
  | some capability =>
      have hauth := h capability htoken
      simp only [AuthorisedEntry.new, hauth, StoredAuthorisedEntry.intoAuthorisedEntry]
      rfl

theorem pruneChecked_of_passes (entry : AuthorisedEntry)
    {candidates : List (Point × StoredAuthorisedEntry)} {node : Node} {t : Tables}
    (h : ∀ kv ∈ candidates, Passes t entry.entry.namespaceId kv) :
    pruneCandidatesBy authoriseChecked entry candidates node t =
      pruneCandidates entry candidates node t := by
  induction candidates generalizing node t with
  | nil => rfl
  | cons kv rest ih =>
      obtain ⟨prunePos, candidate⟩ := kv
      have hread := readChecked_of_passes (h (prunePos, candidate) List.mem_cons_self)
      dsimp only at hread
      simp only [pruneCandidatesBy, pruneCandidates_cons, hread]
      cases readStored t entry.entry.namespaceId prunePos candidate with
      | error e => rfl
      | ok pruned =>
          dsimp only
          split
          · rcases hremove : (t.insertEvent entry.entry.namespaceId fun id =>
                .pruned id pruned entry).removeEntryAuthToken
                  candidate.authorisationTokenId with ⟨_ | _, t''⟩
            · rfl
            · refine ih fun kv hkv capability hcapability => ?_
              -- what the table still has it had before
              refine h kv (List.mem_cons_of_mem _ hkv) capability ?_
              rw [← show _ = t'' from congrArg Prod.snd hremove] at hcapability
              have hbefore := authTokens_removeEntryAuthToken hcapability
              exact hbefore
          · exact ih fun kv hkv => h kv (List.mem_cons_of_mem _ hkv)

omit [Signing] in
/-- Without checks no read fails for want of authority. -/
theorem pruneCandidates_ne_unauthorised (entry : AuthorisedEntry)
    (candidates : List (Point × StoredAuthorisedEntry)) (node : Node) (t : Tables) :
    (pruneCandidates entry candidates node t).1 ≠ .error .unauthorisedWrite := by
  have hread : ∀ (t : Tables) ns point v, readStored t ns point v ≠ .error .unauthorisedWrite := by
    intro t ns point v
    unfold readStored readStoredBy Tables.getEntryAuthToken
    cases t.authTokens v.authorisationTokenId with
    | none => simp
    | some capability =>
        intro heq
        cases heq
  have hremove : ∀ (t : Tables) key,
      (t.removeEntryAuthToken key).1 ≠ .error .unauthorisedWrite := by
    intro t key
    unfold Tables.removeEntryAuthToken
    repeat' split
    all_goals simp
  induction candidates generalizing node t with
  | nil => simp [pruneCandidates_nil]
  | cons kv rest ih =>
      obtain ⟨prunePos, candidate⟩ := kv
      simp only [pruneCandidates_cons]
      split
      · rename_i e he
        intro heq
        rw [Except.error.inj heq] at he
        exact hread _ _ _ _ he
      · split
        · split
          · rename_i e t'' he
            intro heq
            rw [Except.error.inj heq] at he
            exact hremove _ _ (congrArg Prod.fst he)
          · exact ih _ _
        · exact ih _ _

variable [WillowStore] {t : Tables} {a : AuthorisedEntry}

/-- While all stored entries are authorised, an ingestion runs as if nothing
were checked, and succeeds. -/
theorem AllAuthorised.ingested (h : AllAuthorised t) (hheld : Held t) (origin : EntryOrigin) :
    Ingested t a (t.ingestChecked a origin).2 := by
  have hpasses : ∀ kv ∈ prunedBy t a, Passes t a.entry.namespaceId kv := by
    intro kv hkv capability hcapability
    obtain ⟨capability', htoken, hauth⟩ := h _ _ _ (lookup_of_mem_prunedBy hkv)
    obtain rfl := Option.some.inj (htoken.symm.trans hcapability)
    exact hauth
  have hsame : t.ingestChecked a origin = t.ingestEntry a origin := by
    have hloop := @pruneChecked_of_passes _ a _ (t.node a.entry.namespaceId) _ hpasses
    unfold prunedBy Tables.node at hloop
    rw [Tables.ingestEntry_eq]
    unfold Tables.ingestChecked Tables.ingestEntryBy
    dsimp only
    rw [hloop]
  have hcall := tryIngest_none t a origin
  obtain ⟨hmissing, hinconsistent⟩ := hheld.tryIngest_ne_inconsistent ⟨a, origin, none⟩
  rw [hsame]
  cases hres : (t.ingestEntry a origin).1 with
  | ok res =>
      rw [hres] at hcall
      have hok := tryIngest_ok (c := ⟨a, origin, none⟩) (congrArg Prod.fst hcall)
      rw [hcall] at hok
      exact hok
  | error e =>
      exfalso
      rw [hres] at hcall
      rw [hcall] at hmissing hinconsistent
      cases e with
      | missingAuthToken => exact hmissing rfl
      | inconsistentState => exact hinconsistent rfl
      | unauthorisedWrite =>
          rw [Tables.ingestEntry_eq] at hres
          split at hres
          · rename_i e node' t' hloop
            have hne := pruneCandidates_ne_unauthorised a (prunedBy t a)
              (t.node a.entry.namespaceId) t
            rw [show pruneCandidates a (prunedBy t a) (t.node a.entry.namespaceId) t = _ from hloop]
              at hne
            exact hne (congrArg Except.error (Except.error.inj hres))
          · cases hres

end Reading

/-! ### One operation -/

section Step

variable [WillowStore] {t t' : Tables} {a : AuthorisedEntry}

/-- What the trees hold after a successful call. -/
theorem Ingested.lookup_iff (h : Ingested t a t') {ns : NamespaceId} {p : Point}
    {v : StoredAuthorisedEntry} :
    (t'.node ns).lookup p = some v ↔
      (ns, p) = (a.entry.namespaceId, a.entry.point) ∧ .fromAuthorisedEntry a = v ∨
      (ns, p) ≠ (a.entry.namespaceId, a.entry.point) ∧ (ns, p) ∉ prunedAt t a ∧
        (t.node ns).lookup p = some v := by
  simp only [prunedAt, Set.mem_ofPred_eq, Prod.mk.injEq, ne_eq]
  by_cases hns : ns = a.entry.namespaceId
  · subst hns
    rw [h.node p]
    by_cases hp : p = a.entry.point
    · simp [hp]
    · by_cases hmem : p ∈ (prunedBy t a).map Prod.fst
      · simp only [hp, hmem, if_false, if_true]
        simp
      · simp only [hp, hmem, if_false]
        simp
  · rw [h.roots ns hns]
    simp [hns]

variable [Signing]

/-- One ingestion keeps all entries authorised exactly if the new one is and no
token is replaced by one that does not do. -/
theorem AllAuthorised.ingested_iff (h : AllAuthorised t) (hheld : Held t)
    (hcall : Ingested t a t') : AllAuthorised t' ↔ Authorised a ∧ ¬ Clashes t a := by
  constructor
  · intro h'
    constructor
    · obtain ⟨capability, htoken, hauth⟩ := h' a.entry.namespaceId a.entry.point _
        (hcall.lookup_iff.mpr (Or.inl ⟨rfl, rfl⟩))
      obtain rfl := Option.some.inj (hcall.own.1.symm.trans htoken)
      exact hauth
    · rintro ⟨ns, p, v, hlook, hkey, hne, hstays, hnot⟩
      obtain ⟨capability, htoken, hauth⟩ := h' ns p v
        (hcall.lookup_iff.mpr (Or.inr ⟨hne, hstays, hlook⟩))
      rw [hkey] at htoken hauth
      obtain rfl := Option.some.inj (hcall.own.1.symm.trans htoken)
      exact hnot hauth
  · rintro ⟨hauth, hclash⟩ ns p v hlook'
    rcases hcall.lookup_iff.mp hlook' with ⟨heq, rfl⟩ | ⟨hne, hstays, hlook⟩
    · obtain ⟨rfl, rfl⟩ := Prod.mk.inj heq
      exact ⟨a.token.capability, hcall.own.1, hauth⟩
    · by_cases hkey : v.authorisationTokenId = a.token.signature
      · -- the entry is read with the new token from now on
        refine ⟨a.token.capability, by rw [hkey]; exact hcall.own.1, ?_⟩
        by_contra hnot
        refine hclash ⟨ns, p, v, hlook, hkey, hne, hstays, ?_⟩
        rwa [hkey] at hnot
      · -- its token is still there: what the call spends has no other reference
        have hspends : ¬ Spends t (prunedBy t a) v.authorisationTokenId := by
          intro hspends
          obtain ⟨kv, hkv, -, hrefs⟩ := hheld.refs_of_spends hspends
          have hmem : (ns, p) ∈ t.refs v.authorisationTokenId := ⟨v, hlook, rfl⟩
          rw [hrefs] at hmem
          obtain ⟨rfl, rfl⟩ := Prod.mk.inj hmem
          exact hstays ⟨rfl, List.mem_map_of_mem hkv⟩
        obtain ⟨capability, htoken, hold⟩ := h ns p v hlook
        refine ⟨capability, ?_, hold⟩
        rw [← htoken]
        exact congrArg Prod.fst (hcall.others _ hkey hspends)

variable [LawfulSigning]

/-- One operation keeps all entries authorised exactly if it does not slip. -/
theorem AllAuthorised.operate_iff (h : AllAuthorised t) (hheld : Held t)
    {op : Operation CapsTable} (hrun : operate t op = some t') :
    Held t' ∧ (AllAuthorised t' ↔ ¬ Slips t op) := by
  unfold operate at hrun
  split at hrun
  · rename_i hnone
    obtain rfl := Option.some.inj hrun
    refine ⟨hheld, ?_, fun _ => h⟩
    rintro - (⟨entry, hover⟩ | ⟨b, origin, hb, -⟩)
    · obtain ⟨b, hb, -⟩ := hover.admitted
      rw [hnone] at hb
      cases hb
    · rw [hnone] at hb
      cases hb
  · rename_i a origin hadmitted
    obtain rfl := Option.some.inj hrun
    have hcall : Ingested t a (t.ingestChecked a origin).2 := h.ingested hheld origin
    refine ⟨hheld.ingested hcall, ?_⟩
    rw [h.ingested_iff hheld hcall]
    constructor
    · rintro ⟨hauth, hclash⟩ (⟨entry, hover⟩ | ⟨b, origin', hb, hclash'⟩)
      · obtain ⟨b, hb, rfl⟩ := hover.admitted
        rw [hadmitted] at hb
        obtain ⟨rfl, -⟩ := Prod.mk.inj (Option.some.inj hb)
        exact (Operation.oversteps_iff hadmitted).mp hover hauth
      · rw [hadmitted] at hb
        obtain ⟨rfl, -⟩ := Prod.mk.inj (Option.some.inj hb)
        exact hclash hclash'
    · intro hnot
      constructor
      · by_contra hauth
        exact hnot (Or.inl ⟨a.entry, (Operation.oversteps_iff hadmitted).mpr hauth⟩)
      · exact fun hclash => hnot (Or.inr ⟨a, origin, hadmitted, hclash⟩)

end Step

end Persistent

/-! ## Whole runs -/

section Runs

variable [Signing] [LawfulSigning] [WillowStore]

/-- **Every stored entry is authorised, exactly when.** Along a list of
operations on an empty store, in memory or in the database, every stored entry
is authorised by its token after every operation, if and only if no operation
inserts an entry that the capability of the caller does not grant while nothing
makes the entry obsolete, and in the database no token takes the place of one
that another stored entry needs. -/
theorem stored_entries_authorised_iff :
    (∀ l : List (Operation Memory.CapsStore),
      (∀ p, p <+: l → ∀ s, Transition.run Memory.operate Memory.EntryStore.empty p = some s →
        Memory.AllAuthorised s) ↔
      ∀ p op, p ++ [op] <+: l → ∀ s s',
        Transition.run Memory.operate Memory.EntryStore.empty p = some s →
          Memory.operate s op = some s' → ¬ Memory.Slips s op) ∧
    ∀ l : List (Operation Persistent.CapsTable),
      (∀ p, p <+: l → ∀ t, Transition.run Persistent.operate {} p = some t →
        Persistent.AllAuthorised t) ↔
      ∀ p op, p ++ [op] <+: l → ∀ t t', Transition.run Persistent.operate {} p = some t →
        Persistent.operate t op = some t' → ¬ Persistent.Slips t op := by
  constructor
  · intro l
    refine Transition.forall_prefix_iff (I := fun _ => True) l ?_ trivial ?_
    · intro ns a ha
      rw [Memory.EntryStore.namespaceStore_empty] at ha
      cases ha
    · exact fun s op s' _ h _ hrun => ⟨trivial, h.operate_iff hrun⟩
  · intro l
    refine Transition.forall_prefix_iff (I := Persistent.Held) l ?_ Persistent.Held.empty ?_
    · intro ns p v hlook
      simp [Persistent.Tables.node] at hlook
    · exact fun t op t' _ h hheld hrun => h.operate_iff hheld hrun

end Runs

/-! ### Insertions under a capability of the caller -/

section Samples

open IrohWillow.Sample

/-- A user's secret is the user; signatures are taken to be good. -/
@[reducible] def Sample.goodSignatures : Signing where
  checks := acceptingSignatures
  UserSecretKey := UserId
  id secret := secret
  sign _ _ := .ofByte 0
  verifies _ _ _ := true
  authorisationToken cap _ secret :=
    if cap.accessMode = .write ∧ secret = cap.receiver then some ⟨cap, .ofByte 0⟩ else none

attribute [local instance] goodSignatures Persistent.Sample.appendZero

instance Sample.lawful : LawfulSigning where
  authorisationToken_eq _ _ _ := rfl
  isAuthorisedWrite_iff := by
    intro entry token
    show (decide _ && decide _ && decide _) = true ↔ _
    simp [McCapability.Grants, Signing.verifies, and_assoc]
  verifies_sign _ _ := rfl

/-- The user inserts an entry at `/b` under the capability. -/
def Sample.insertUnder (cap : McCapability) : Operation Memory.CapsStore :=
  .insertEntry
    { secrets := fun user => some user
      caps := ⟨fun _ => []⟩
      now := 0
      entry := .entry (bareEntryAt [[98]] 1)
      auth := .exact cap }

/-- The write capability of the sample user, restricted to `/a`. -/
def Sample.restrictedCapability : McCapability :=
  { writeCapability with grantedArea := { Area.full with path := pathOf [[97]] } }

/-- An entry at `/b` is stored under a capability for `/a`. -/
theorem restricted_entry_is_stored :
    ¬ ∀ (_ : Signing) (_ : LawfulSigning) (l : List (Operation Memory.CapsStore)) s,
      Transition.run Memory.operate Memory.EntryStore.empty l = some s →
        Memory.AllAuthorised s := by
  intro h
  have hrun : ((Transition.run Memory.operate Memory.EntryStore.empty
      [insertUnder restrictedCapability]).map fun s =>
        (s.namespaceStore namespaceId).entries) =
      some [newUnchecked (bareEntryAt [[98]] 1) ⟨restrictedCapability, .ofByte 0⟩] := by decide
  obtain ⟨s, hs, hentries⟩ := Option.map_eq_some_iff.mp hrun
  have hauth := h goodSignatures Sample.lawful _ s hs namespaceId
    (newUnchecked (bareEntryAt [[98]] 1) ⟨restrictedCapability, .ofByte 0⟩)
    (by rw [hentries]; exact List.mem_cons_self)
  revert hauth
  unfold Authorised
  decide

/-- Under the full capability the entry is authorised. -/
theorem stored_entries_authorised_full :
    ∃ s, Transition.run Memory.operate Memory.EntryStore.empty [insertUnder writeCapability] =
      some s ∧ (s.namespaceStore namespaceId).entries.length = 1 ∧ Memory.AllAuthorised s := by
  have hrun : ((Transition.run Memory.operate Memory.EntryStore.empty
      [insertUnder writeCapability]).map fun s =>
        (s.namespaceStore namespaceId).entries.length) = some 1 := by decide
  obtain ⟨s, hs, hlength⟩ := Option.map_eq_some_iff.mp hrun
  refine ⟨s, hs, hlength, ?_⟩
  refine (stored_entries_authorised_iff.1 [insertUnder writeCapability]).mpr ?_ _
    (List.prefix_refl _) s hs
  rintro p op hp s s' - - ⟨entry, ⟨call, cap, secret, rfl, hauth, hentry, -, -, -, hnot⟩, -⟩
  have hmem : Operation.insertEntry call ∈ [insertUnder writeCapability] := hp.subset (by simp)
  obtain rfl := Operation.insertEntry.inj (List.mem_singleton.mp hmem)
  obtain rfl := AuthForm.exact.inj hauth
  obtain rfl := Except.ok.inj hentry
  exact hnot (by decide)

end Samples

end IrohWillow
