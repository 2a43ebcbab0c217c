import IrohWillow.Store.FallibleIngest

/-!
# What a call of `ingest_entry` leaves behind

The prune candidates leave the tree, and a candidate whose token is counted
once takes the token with it (`Spends`). `tryIngest_ok` and `tryIngest_error`
say what the trees and the token tables hold after a call, as a function of
what they held before and wherever the call ends.
-/

namespace IrohWillow.Persistent

open Fallible

section Effects

variable [Meadowcap]

/-- The row of a key in both token tables. -/
def Tables.token (t : Tables) (key : UserSignature) : Option McCapability × Option Nat :=
  (t.authTokens key, t.authTokenRefcount key)

/-- One of the pruned entries holds the token, and the count of the token does
not survive the decrement. -/
def Spends (t₀ : Tables) (gone : List (Point × StoredAuthorisedEntry)) (key : UserSignature) :
    Prop :=
  (∃ kv ∈ gone, kv.2.authorisationTokenId = key) ∧
    ∃ n, t₀.authTokenRefcount key = some n ∧ n - 1 = 0

theorem Spends.mono {t₀ : Tables} {gone gone' : List (Point × StoredAuthorisedEntry)}
    {key : UserSignature} (h : Spends t₀ gone key) (hle : gone ⊆ gone') : Spends t₀ gone' key := by
  obtain ⟨⟨kv, hkv, hkey⟩, hcount⟩ := h
  exact ⟨⟨kv, hle hkv, hkey⟩, hcount⟩

theorem spends_concat {t₀ : Tables} {gone : List (Point × StoredAuthorisedEntry)}
    {kv : Point × StoredAuthorisedEntry} {key : UserSignature} :
    Spends t₀ (gone ++ [kv]) key ↔ Spends t₀ gone key ∨
      kv.2.authorisationTokenId = key ∧ ∃ n, t₀.authTokenRefcount key = some n ∧ n - 1 = 0 := by
  unfold Spends
  constructor
  · rintro ⟨⟨x, hx, hkey⟩, hcount⟩
    rcases List.mem_append.mp hx with hx | hx
    · exact Or.inl ⟨⟨x, hx, hkey⟩, hcount⟩
    · rw [List.mem_singleton.mp hx] at hkey
      exact Or.inr ⟨hkey, hcount⟩
  · rintro (⟨⟨x, hx, hkey⟩, hcount⟩ | ⟨hkey, hcount⟩)
    · exact ⟨⟨x, List.mem_append_left _ hx, hkey⟩, hcount⟩
    · exact ⟨⟨kv, by simp, hkey⟩, hcount⟩

/-! ## The prune loop -/

/-- The state of the closure after the candidates `gone` were pruned. -/
structure PrunedState (t₀ : Tables) (node₀ : Node) (gone : List (Point × StoredAuthorisedEntry))
    (s : Scratch) : Prop where
  roots : s.tables.namespaceNodes = t₀.namespaceNodes
  node : ∀ p, s.node.lookup p = if p ∈ gone.map Prod.fst then none else node₀.lookup p
  spent : ∀ key, Spends t₀ gone key → s.tables.token key = (none, none)
  others : ∀ key, ¬ Spends t₀ gone key → s.tables.token key = t₀.token key

/-- How the loop over `candidates` can end with an error. -/
structure LoopError (t₀ : Tables) (candidates : List (Point × StoredAuthorisedEntry))
    (e : IngestError) (s : Scratch) : Prop where
  roots : s.tables.namespaceNodes = t₀.namespaceNodes
  token : ∀ key, s.tables.token key = t₀.token key ∨
    Spends t₀ candidates key ∧ s.tables.authTokens key = none
  missing : e = .store .missingAuthToken → ∃ gone kv rest, candidates = gone ++ kv :: rest ∧
    (Spends t₀ gone kv.2.authorisationTokenId ∨ t₀.authTokens kv.2.authorisationTokenId = none)
  inconsistent : e = .store .inconsistentState → ∃ kv ∈ candidates,
    t₀.authTokens kv.2.authorisationTokenId = none

variable {t₀ : Tables} {node₀ : Node} {gone candidates : List (Point × StoredAuthorisedEntry)}
  {s : Scratch}

/-- A failing operation may end the loop between two candidates. -/
theorem PrunedState.loopError (h : PrunedState t₀ node₀ gone s) (hle : gone ⊆ candidates)
    {e : IngestError} (hmissing : e ≠ .store .missingAuthToken)
    (hinconsistent : e ≠ .store .inconsistentState) : LoopError t₀ candidates e s where
  roots := h.roots
  token := by
    intro key
    by_cases hspends : Spends t₀ gone key
    · exact Or.inr ⟨hspends.mono hle, congrArg Prod.fst (h.spent key hspends)⟩
    · exact Or.inl (h.others key hspends)
  missing := fun he => absurd he hmissing
  inconsistent := fun he => absurd he hinconsistent

/-- One more candidate leaves the tree. -/
theorem PrunedState.lookup_erase (h : PrunedState t₀ node₀ gone s)
    (kv : Point × StoredAuthorisedEntry) (p : Point) :
    (s.node.erase kv.1).lookup p =
      if p ∈ (gone ++ [kv]).map Prod.fst then none else node₀.lookup p := by
  by_cases hp : p = kv.1
  · subst hp
    rw [AList.lookup_erase, if_pos (by simp)]
  · have hmem : p ∈ (gone ++ [kv]).map Prod.fst ↔ p ∈ gone.map Prod.fst := by
      simp only [List.map_append, List.map_singleton, List.mem_append, List.mem_singleton, hp,
        or_false]
    rw [AList.lookup_erase_ne hp, h.node p]
    simp only [hmem]

/-- What `remove_entry_auth_token` starts from: the candidate has left the tree,
its token has not been dealt with. -/
structure Removing (t₀ : Tables) (node₀ : Node) (gone : List (Point × StoredAuthorisedEntry))
    (kv : Point × StoredAuthorisedEntry) (s : Scratch) : Prop where
  roots : s.tables.namespaceNodes = t₀.namespaceNodes
  node : ∀ p, s.node.lookup p =
    if p ∈ (gone ++ [kv]).map Prod.fst then none else node₀.lookup p
  spent : ∀ key, Spends t₀ gone key → s.tables.token key = (none, none)
  others : ∀ key, ¬ Spends t₀ gone key → s.tables.token key = t₀.token key

theorem Removing.loopError {kv : Point × StoredAuthorisedEntry} (h : Removing t₀ node₀ gone kv s)
    (hle : gone ⊆ candidates) : LoopError t₀ candidates .operation s where
  roots := h.roots
  token := by
    intro key
    by_cases hspends : Spends t₀ gone key
    · exact Or.inr ⟨hspends.mono hle, congrArg Prod.fst (h.spent key hspends)⟩
    · exact Or.inl (h.others key hspends)
  missing := by rintro ⟨⟩
  inconsistent := by rintro ⟨⟩

/-- A count that is still there is the old one. -/
theorem Removing.refcount {kv : Point × StoredAuthorisedEntry} (h : Removing t₀ node₀ gone kv s)
    {key : UserSignature} {n : Nat} (hn : s.tables.authTokenRefcount key = some n) :
    ¬ Spends t₀ gone key ∧ t₀.authTokenRefcount key = some n := by
  have hnot : ¬ Spends t₀ gone key := by
    intro hspends
    rw [show s.tables.authTokenRefcount key = none from congrArg Prod.snd (h.spent key hspends)]
      at hn
    cases hn
  exact ⟨hnot, (congrArg Prod.snd (h.others key hnot)).symm.trans hn⟩

/-- Without a count that ends, the token stays. -/
theorem Removing.keep {kv : Point × StoredAuthorisedEntry} (h : Removing t₀ node₀ gone kv s)
    (hkeep : ∀ n, t₀.authTokenRefcount kv.2.authorisationTokenId = some n → n - 1 = 0 →
      Spends t₀ gone kv.2.authorisationTokenId) : PrunedState t₀ node₀ (gone ++ [kv]) s where
  roots := h.roots
  node := h.node
  spent := by
    intro key hspends
    rcases spends_concat.mp hspends with hspends | ⟨rfl, n, hn, hzero⟩
    · exact h.spent key hspends
    · exact h.spent _ (hkeep n hn hzero)
  others := fun key hspends => h.others key fun hs => hspends (spends_concat.mpr (Or.inl hs))

theorem tryRemoveEntryAuthToken_spec {kv : Point × StoredAuthorisedEntry}
    (hle : gone ++ [kv] ⊆ candidates) :
    Spec (Removing t₀ node₀ gone kv) (tryRemoveEntryAuthToken kv.2.authorisationTokenId)
      (fun _ => PrunedState t₀ node₀ (gone ++ [kv])) (LoopError t₀ candidates) := by
  have hgone : gone ⊆ candidates := fun x hx => hle (List.mem_append_left _ hx)
  unfold tryRemoveEntryAuthToken query update
  apply Spec.bind (Q := fun refcount s => Removing t₀ node₀ gone kv s ∧
    refcount = s.tables.authTokenRefcount kv.2.authorisationTokenId)
  · exact Spec.operation (fun s hs => ⟨hs, rfl⟩) fun s hs => hs.loopError hgone
  · intro refcount
    cases refcount with
    | none =>
        -- no count: nothing to do
        refine Spec.pure fun s hs => ?_
        obtain ⟨hs, hnone⟩ := hs
        refine hs.keep fun n hn _ => ?_
        by_contra hspends
        have hsame : s.tables.authTokenRefcount kv.2.authorisationTokenId =
            t₀.authTokenRefcount kv.2.authorisationTokenId :=
          congrArg Prod.snd (hs.others _ hspends)
        rw [← hnone, hn] at hsame
        cases hsame
    | some n =>
        dsimp only
        split
        · rename_i hzero
          -- the last count: the token goes, then the count
          apply Spec.bind (Q := fun old s' => ∃ s, Removing t₀ node₀ gone kv s ∧
            s.tables.authTokenRefcount kv.2.authorisationTokenId = some n ∧
            old = s.tables.authTokens kv.2.authorisationTokenId ∧
            s' = { s with
              tables := s.tables.setAuthToken kv.2.authorisationTokenId none })
          · exact Spec.operation (fun s hs => ⟨s, hs.1, hs.2.symm, rfl, rfl⟩)
              fun s hs => hs.1.loopError hgone
          · have hgoes : ∀ s, Removing t₀ node₀ gone kv s →
                s.tables.authTokenRefcount kv.2.authorisationTokenId = some n →
                Spends t₀ (gone ++ [kv]) kv.2.authorisationTokenId := fun s hs hn =>
              spends_concat.mpr (Or.inr ⟨rfl, n, (hs.refcount hn).2, hzero⟩)
            -- the token is gone, whatever follows
            have hcut : ∀ s e, Removing t₀ node₀ gone kv s →
                s.tables.authTokenRefcount kv.2.authorisationTokenId = some n →
                e ≠ .store .missingAuthToken →
                (e = .store .inconsistentState → ∃ x ∈ candidates,
                  t₀.authTokens x.2.authorisationTokenId = none) →
                LoopError t₀ candidates e { s with
                  tables := s.tables.setAuthToken kv.2.authorisationTokenId none } := by
              intro s e hs hn hmissing hinconsistent
              refine ⟨hs.roots, fun key => ?_, fun he => absurd he hmissing, hinconsistent⟩
              by_cases hkey : key = kv.2.authorisationTokenId
              · subst hkey
                exact Or.inr ⟨(hgoes s hs hn).mono hle, Function.update_self _ _ _⟩
              · rcases (hs.loopError hgone).token key with h | ⟨h, hnone⟩
                · refine Or.inl (Eq.trans ?_ h)
                  simp [Tables.token, Tables.setAuthToken, Function.update_of_ne hkey]
                · exact Or.inr ⟨h, (Function.update_of_ne hkey _ _).trans hnone⟩
            intro old
            cases old with
            | none =>
                refine Spec.fail fun s' hs' => ?_
                obtain ⟨s, hs, hn, hold, rfl⟩ := hs'
                refine hcut s _ hs hn (by decide) fun _ => ⟨kv, hle (by simp), ?_⟩
                have hsame := congrArg Prod.fst (hs.others _ (hs.refcount hn).1)
                exact hsame.symm.trans hold.symm
            | some capability =>
                refine Spec.operation ?_ ?_
                · rintro s' ⟨s, hs, hn, -, rfl⟩
                  refine ⟨hs.roots, hs.node, fun key hspends => ?_, fun key hspends => ?_⟩
                  · by_cases hkey : key = kv.2.authorisationTokenId
                    · subst hkey
                      simp [Tables.token, Tables.setAuthToken, Tables.setRefcount]
                    · rcases spends_concat.mp hspends with h | ⟨h, -⟩
                      · rw [← hs.spent key h]
                        simp [Tables.token, Tables.setAuthToken, Tables.setRefcount, hkey]
                      · exact absurd h.symm hkey
                  · have hkey : key ≠ kv.2.authorisationTokenId := by
                      rintro rfl
                      exact hspends (hgoes s hs hn)
                    have hnot : ¬ Spends t₀ gone key := fun h =>
                      hspends (spends_concat.mpr (Or.inl h))
                    rw [← hs.others key hnot]
                    simp [Tables.token, Tables.setAuthToken, Tables.setRefcount, hkey]
                · rintro s' ⟨s, hs, hn, -, rfl⟩
                  exact hcut s _ hs hn (by decide) (by rintro ⟨⟩)
        · rename_i hzero
          -- decremented, but not written back
          refine Spec.pure fun s hs => ?_
          obtain ⟨hs, hn⟩ := hs
          refine hs.keep fun m hm hmzero => ?_
          rw [(hs.refcount hn.symm).2] at hm
          obtain rfl := Option.some.inj hm
          exact absurd hmzero hzero

/-- An entry is newer than all that it finds in the range it searches. -/
theorem isNewerThan_of_readBack {entry pruned : AuthorisedEntry}
    {kv : Point × StoredAuthorisedEntry} {token : AuthorisationToken}
    (hlt : kv.1.y < entry.entry.timestamp)
    (h : kv.2.intoAuthorisedEntry entry.entry.namespaceId kv.1 token = some pruned) :
    entry.entry.IsNewerThan pruned.entry := by
  refine Or.inl ?_
  rw [(AuthorisedEntry.new_eq_some h).1]
  exact hlt

/-- The loop, from the candidates `gone` on. -/
theorem tryPruneCandidates_spec {entry : AuthorisedEntry}
    (hlt : ∀ kv ∈ candidates, kv.1.y < entry.entry.timestamp)
    {rest : List (Point × StoredAuthorisedEntry)} (hcandidates : candidates = gone ++ rest) :
    Spec (PrunedState t₀ node₀ gone) (tryPruneCandidates entry rest)
      (fun _ => PrunedState t₀ node₀ candidates) (LoopError t₀ candidates) := by
  induction rest generalizing gone with
  | nil =>
      rw [List.append_nil] at hcandidates
      rw [hcandidates]
      exact Spec.pure fun s hs => hs
  | cons kv rest ih =>
      obtain ⟨pos, candidate⟩ := kv
      have hgone : gone ⊆ candidates := fun x hx =>
        hcandidates ▸ List.mem_append_left _ hx
      have hnext : gone ++ [(pos, candidate)] ⊆ candidates := by
        intro x hx
        rw [hcandidates]
        rcases List.mem_append.mp hx with hx | hx
        · exact List.mem_append_left _ hx
        · exact List.mem_append_right _ (List.mem_singleton.mp hx ▸ List.mem_cons_self)
      have hmem : (pos, candidate) ∈ candidates := hnext (by simp)
      unfold tryPruneCandidates tryGetEntryAuthToken query update
      apply Spec.bind (Q := fun _ => PrunedState t₀ node₀ gone)
      · apply Spec.bind (Q := fun capability s => PrunedState t₀ node₀ gone s ∧
          capability = s.tables.authTokens candidate.authorisationTokenId)
        · exact Spec.operation (fun s hs => ⟨hs, rfl⟩)
            fun s hs => hs.loopError hgone (by decide) (by decide)
        · intro capability
          cases capability with
          | none =>
              refine Spec.fail fun s hs => ?_
              obtain ⟨hs, hnone⟩ := hs
              refine ⟨hs.roots, (hs.loopError (e := .operation) hgone (by decide)
                (by decide)).token, fun _ => ⟨gone, (pos, candidate), rest, hcandidates, ?_⟩, ?_⟩
              · by_cases hspends : Spends t₀ gone candidate.authorisationTokenId
                · exact Or.inl hspends
                · exact Or.inr ((congrArg Prod.fst (hs.others _ hspends)).symm.trans hnone.symm)
              · rintro ⟨⟩
          | some capability => exact Spec.pure fun s hs => hs.1
      · intro token
        cases hread : candidate.intoAuthorisedEntry entry.entry.namespaceId pos token with
        | none => exact Spec.fail fun s hs => hs.loopError hgone (by decide) (by decide)
        | some pruned =>
            dsimp only
            rw [if_pos (isNewerThan_of_readBack (hlt _ hmem) hread)]
            -- the candidate leaves the tree, is logged, and gives its token back
            apply Spec.bind (Q := fun _ => Removing t₀ node₀ gone (pos, candidate))
            · exact Spec.operation
                (fun s hs => ⟨hs.roots, hs.lookup_erase (pos, candidate), hs.spent, hs.others⟩)
                fun s hs => hs.loopError hgone (by decide) (by decide)
            · intro _
              apply Spec.bind (Q := fun _ => Removing t₀ node₀ gone (pos, candidate))
              · exact Spec.action fun s hs => ⟨hs.roots, hs.node, hs.spent, hs.others⟩
              · intro _
                exact Spec.bind (tryRemoveEntryAuthToken_spec hnext) fun _ =>
                  ih (by rw [hcandidates, List.append_assoc]; rfl)

/-! ## The whole closure -/

section Call

variable [WillowStore]

/-- The stored entries that a call for `entry` finds to prune. -/
def prunedBy (t₀ : Tables) (entry : AuthorisedEntry) : List (Point × StoredAuthorisedEntry) :=
  (t₀.node entry.entry.namespaceId).query (overwrittenRange entry.entry)

theorem timestamp_lt_of_mem_prunedBy {t₀ : Tables} {entry : AuthorisedEntry}
    {kv : Point × StoredAuthorisedEntry} (h : kv ∈ prunedBy t₀ entry) :
    kv.1.y < entry.entry.timestamp := (Node.mem_query.mp h).2.2.1.2

theorem lookup_of_mem_prunedBy {t₀ : Tables} {entry : AuthorisedEntry}
    {kv : Point × StoredAuthorisedEntry} (h : kv ∈ prunedBy t₀ entry) :
    (t₀.node entry.entry.namespaceId).lookup kv.1 = some kv.2 := (Node.mem_query.mp h).1

/-- The count of a token after `add_entry_auth_token`. -/
def raised : Option Nat → Nat
  | none => 1
  | some refcount => refcount + 1

/-- The closure after the loop: the row of the entry's own token is as `own`
says, the others are as the loop left them. -/
structure Adding (t₀ : Tables) (entry : AuthorisedEntry)
    (own : Option McCapability → Option Nat → Prop) (s : Scratch) : Prop where
  roots : s.tables.namespaceNodes = t₀.namespaceNodes
  node : ∀ p, s.node.lookup p =
    if p ∈ (prunedBy t₀ entry).map Prod.fst then none
    else (t₀.node entry.entry.namespaceId).lookup p
  own : own (s.tables.authTokens entry.token.signature)
    (s.tables.authTokenRefcount entry.token.signature)
  spent : ∀ key ≠ entry.token.signature, Spends t₀ (prunedBy t₀ entry) key →
    s.tables.token key = (none, none)
  others : ∀ key ≠ entry.token.signature, ¬ Spends t₀ (prunedBy t₀ entry) key →
    s.tables.token key = t₀.token key

/-- The count of the entry's token when `add_entry_auth_token` starts. -/
def Remaining (t₀ : Tables) (entry : AuthorisedEntry) (refcount : Option Nat) : Prop :=
  (Spends t₀ (prunedBy t₀ entry) entry.token.signature → refcount = none) ∧
    (¬ Spends t₀ (prunedBy t₀ entry) entry.token.signature →
      refcount = t₀.authTokenRefcount entry.token.signature)

/-- What a call that ends with an error leaves: the trees as they were, and each
token untouched, taken away, or stored for the entry. -/
structure CutShort (t₀ : Tables) (entry : AuthorisedEntry) (e : IngestError) (t : Tables) :
    Prop where
  roots : t.namespaceNodes = t₀.namespaceNodes
  token : ∀ key, t.token key = t₀.token key ∨
    Spends t₀ (prunedBy t₀ entry) key ∧
      (t.authTokens key = none ∨ t.authTokenRefcount key = none) ∨
    key = entry.token.signature ∧ t.authTokens key = some entry.token.capability ∧
      ∃ refcount, Remaining t₀ entry refcount ∧
        (t.authTokenRefcount key = t₀.authTokenRefcount key ∨
          t.authTokenRefcount key = some (raised refcount))
  missing : e = .store .missingAuthToken → ∃ gone kv rest, prunedBy t₀ entry = gone ++ kv :: rest ∧
    (Spends t₀ gone kv.2.authorisationTokenId ∨ t₀.authTokens kv.2.authorisationTokenId = none)
  inconsistent : e = .store .inconsistentState → ∃ kv ∈ prunedBy t₀ entry,
    t₀.authTokens kv.2.authorisationTokenId = none

/-- What a successful call leaves. -/
structure Ingested (t₀ : Tables) (entry : AuthorisedEntry) (t : Tables) : Prop where
  roots : ∀ ns ≠ entry.entry.namespaceId, t.node ns = t₀.node ns
  node : ∀ p, (t.node entry.entry.namespaceId).lookup p =
    if p = entry.entry.point then some (.fromAuthorisedEntry entry)
    else if p ∈ (prunedBy t₀ entry).map Prod.fst then none
    else (t₀.node entry.entry.namespaceId).lookup p
  own : t.authTokens entry.token.signature = some entry.token.capability ∧
    ∃ refcount, Remaining t₀ entry refcount ∧
      t.authTokenRefcount entry.token.signature = some (raised refcount)
  spent : ∀ key ≠ entry.token.signature, Spends t₀ (prunedBy t₀ entry) key →
    t.token key = (none, none)
  others : ∀ key ≠ entry.token.signature, ¬ Spends t₀ (prunedBy t₀ entry) key →
    t.token key = t₀.token key

variable {entry : AuthorisedEntry} {own own' : Option McCapability → Option Nat → Prop}

/-- The row of the entry's token as the loop leaves it. -/
def Left (t₀ : Tables) (entry : AuthorisedEntry) (capability : Option McCapability)
    (refcount : Option Nat) : Prop :=
  (Spends t₀ (prunedBy t₀ entry) entry.token.signature → (capability, refcount) = (none, none)) ∧
    (¬ Spends t₀ (prunedBy t₀ entry) entry.token.signature →
      (capability, refcount) = t₀.token entry.token.signature)

theorem Left.remaining {capability : Option McCapability} {refcount : Option Nat}
    (h : Left t₀ entry capability refcount) : Remaining t₀ entry refcount :=
  ⟨fun hspends => congrArg Prod.snd (h.1 hspends), fun hspends => congrArg Prod.snd (h.2 hspends)⟩

theorem PrunedState.adding
    (h : PrunedState t₀ (t₀.node entry.entry.namespaceId) (prunedBy t₀ entry) s) :
    Adding t₀ entry (Left t₀ entry) s where
  roots := h.roots
  node := h.node
  own := ⟨fun hspends => h.spent _ hspends, fun hspends => h.others _ hspends⟩
  spent := fun key _ hspends => h.spent key hspends
  others := fun key _ hspends => h.others key hspends

/-- Only the row of the entry's own token changes. -/
theorem Adding.setOwn (h : Adding t₀ entry own s) {t : Tables}
    (hroots : t.namespaceNodes = s.tables.namespaceNodes)
    (hothers : ∀ key ≠ entry.token.signature, t.token key = s.tables.token key)
    (hown : own' (t.authTokens entry.token.signature)
      (t.authTokenRefcount entry.token.signature)) :
    Adding t₀ entry own' { s with tables := t } where
  roots := hroots.trans h.roots
  node := h.node
  own := hown
  spent := fun key hne hspends => (hothers key hne).trans (h.spent key hne hspends)
  others := fun key hne hspends => (hothers key hne).trans (h.others key hne hspends)

/-- An operation fails while the token is added. -/
theorem Adding.cutShort (h : Adding t₀ entry own s)
    (hown : own (s.tables.authTokens entry.token.signature)
        (s.tables.authTokenRefcount entry.token.signature) →
      s.tables.token entry.token.signature = t₀.token entry.token.signature ∨
      Spends t₀ (prunedBy t₀ entry) entry.token.signature ∧
        (s.tables.authTokens entry.token.signature = none ∨
          s.tables.authTokenRefcount entry.token.signature = none) ∨
      s.tables.authTokens entry.token.signature = some entry.token.capability ∧
        ∃ refcount, Remaining t₀ entry refcount ∧
          (s.tables.authTokenRefcount entry.token.signature =
              t₀.authTokenRefcount entry.token.signature ∨
            s.tables.authTokenRefcount entry.token.signature = some (raised refcount))) :
    CutShort t₀ entry .operation s.tables where
  roots := h.roots
  token := by
    intro key
    by_cases hkey : key = entry.token.signature
    · subst hkey
      exact (hown h.own).imp id (Or.imp id fun hstored => ⟨rfl, hstored⟩)
    · by_cases hspends : Spends t₀ (prunedBy t₀ entry) key
      · exact Or.inr (Or.inl ⟨hspends, Or.inl (congrArg Prod.fst (h.spent key hkey hspends))⟩)
      · exact Or.inl (h.others key hkey hspends)
  missing := by rintro ⟨⟩
  inconsistent := by rintro ⟨⟩

/-- The row of the entry's token once the capability is stored. -/
def Stored (t₀ : Tables) (entry : AuthorisedEntry) (capability : Option McCapability)
    (refcount : Option Nat) : Prop :=
  capability = some entry.token.capability ∧ Remaining t₀ entry refcount

/-- The row of the entry's token once it is counted. -/
def Counted (t₀ : Tables) (entry : AuthorisedEntry) (capability : Option McCapability)
    (refcount : Option Nat) : Prop :=
  capability = some entry.token.capability ∧
    ∃ before, Remaining t₀ entry before ∧ refcount = some (raised before)

theorem Adding.cutShort_left (h : Adding t₀ entry (Left t₀ entry) s) :
    CutShort t₀ entry .operation s.tables := by
  refine h.cutShort fun hleft => ?_
  by_cases hspends : Spends t₀ (prunedBy t₀ entry) entry.token.signature
  · exact Or.inr (Or.inl ⟨hspends, Or.inr (congrArg Prod.snd (hleft.1 hspends))⟩)
  · exact Or.inl (hleft.2 hspends)

theorem Adding.cutShort_stored (h : Adding t₀ entry (Stored t₀ entry) s) :
    CutShort t₀ entry .operation s.tables := by
  refine h.cutShort fun hstored => ?_
  by_cases hspends : Spends t₀ (prunedBy t₀ entry) entry.token.signature
  · exact Or.inr (Or.inl ⟨hspends, Or.inr (hstored.2.1 hspends)⟩)
  · exact Or.inr (Or.inr ⟨hstored.1, _, hstored.2, Or.inl (hstored.2.2 hspends)⟩)

theorem Adding.cutShort_counted (h : Adding t₀ entry (Counted t₀ entry) s) :
    CutShort t₀ entry .operation s.tables :=
  h.cutShort fun hcounted => Or.inr (Or.inr ⟨hcounted.1, hcounted.2.imp fun _ hbefore =>
    ⟨hbefore.1, Or.inr hbefore.2⟩⟩)

omit [WillowStore] in
theorem setAuthToken_token_ne {t : Tables} {key key' : UserSignature} (hne : key' ≠ key)
    (capability : Option McCapability) : (t.setAuthToken key capability).token key' = t.token key' := by
  simp [Tables.token, Tables.setAuthToken, hne]

omit [WillowStore] in
theorem setRefcount_token_ne {t : Tables} {key key' : UserSignature} (hne : key' ≠ key)
    (refcount : Option Nat) : (t.setRefcount key refcount).token key' = t.token key' := by
  simp [Tables.token, Tables.setRefcount, hne]

theorem tryAddEntryAuthToken_spec :
    Spec (Adding t₀ entry (Left t₀ entry)) (tryAddEntryAuthToken entry.token)
      (fun _ => Adding t₀ entry (Counted t₀ entry))
      (fun e s => CutShort t₀ entry e s.tables) := by
  unfold tryAddEntryAuthToken query update
  apply Spec.bind (Q := fun _ => Adding t₀ entry (Stored t₀ entry))
  · refine Spec.operation (fun s hs => ?_) fun s hs => hs.cutShort_left
    exact hs.setOwn rfl (fun key hne => setAuthToken_token_ne hne _)
      ⟨Function.update_self _ _ _, hs.own.remaining⟩
  · intro _
    apply Spec.bind (Q := fun refcount s => Adding t₀ entry (Stored t₀ entry) s ∧
      refcount = raised (s.tables.authTokenRefcount entry.token.signature))
    · refine Spec.operation (fun s hs => ⟨hs, ?_⟩) fun s hs => hs.cutShort_stored
      dsimp only
      cases s.tables.authTokenRefcount entry.token.signature <;> rfl
    · intro refcount
      refine Spec.operation (fun s hs => ?_) fun s hs => hs.1.cutShort_stored
      obtain ⟨hs, rfl⟩ := hs
      exact hs.setOwn rfl (fun key hne => setRefcount_token_ne hne _)
        ⟨hs.own.1, _, hs.own.2, Function.update_self _ _ _⟩

/-- **What a call leaves behind**, wherever it ends. -/
theorem ingestClosure_spec (t₀ : Tables) (entry : AuthorisedEntry) (origin : EntryOrigin) :
    Spec (fun s => s.tables = t₀) (ingestClosure entry origin)
      (fun _ s => Ingested t₀ entry s.tables) (fun e s => CutShort t₀ entry e s.tables) := by
  unfold ingestClosure query update
  dsimp only
  -- a failure before the loop
  have hbefore : ∀ s : Scratch, s.tables = t₀ → CutShort t₀ entry .operation s.tables := by
    rintro s rfl
    exact ⟨rfl, fun key => Or.inl rfl, by rintro ⟨⟩, by rintro ⟨⟩⟩
  apply Spec.bind (Q := fun _ s => s.tables = t₀ ∧ s.node = t₀.node entry.entry.namespaceId)
  · refine Spec.operation ?_ hbefore
    rintro s rfl
    exact ⟨rfl, rfl⟩
  · intro _
    apply Spec.bind (Q := fun candidates s => candidates = prunedBy t₀ entry ∧
      PrunedState t₀ (t₀.node entry.entry.namespaceId) [] s)
    · refine Spec.operation ?_ fun s hs => hbefore s hs.1
      rintro s ⟨rfl, hnode⟩
      refine ⟨by rw [hnode]; rfl, rfl, fun p => by rw [hnode]; rfl, ?_, fun _ _ => rfl⟩
      rintro key ⟨⟨kv, hkv, -⟩, -⟩
      cases hkv
    · intro candidates
      refine Spec.of_fact ?_
      rintro rfl
      apply Spec.bind
      · exact (tryPruneCandidates_spec (fun kv => timestamp_lt_of_mem_prunedBy)
          (List.nil_append _).symm).weaken (fun s hs => hs) (fun _ s hs => hs.adding)
          fun e s hs => ⟨hs.roots, fun key => (hs.token key).imp id fun h =>
            Or.inl ⟨h.1, Or.inl h.2⟩, hs.missing, hs.inconsistent⟩
      · intro _
        apply Spec.bind tryAddEntryAuthToken_spec
        intro _
        apply Spec.bind (Q := fun _ s' => ∃ s, Adding t₀ entry (Counted t₀ entry) s ∧
          s' = { s with node := s.node.insert entry.entry.point (.fromAuthorisedEntry entry) })
        · exact Spec.operation (fun s hs => ⟨s, hs, rfl⟩) fun s hs => hs.cutShort_counted
        · intro _
          apply Spec.bind (Q := fun _ s' => ∃ s, Adding t₀ entry (Counted t₀ entry) s ∧
            s' = { tables := s.tables.insertEvent entry.entry.namespaceId (.ingested · entry origin)
                   node := s.node.insert entry.entry.point (.fromAuthorisedEntry entry) })
          · refine Spec.action ?_
            rintro s' ⟨s, hs, rfl⟩
            exact ⟨s, hs, rfl⟩
          · intro _
            refine Spec.operation ?_ ?_
            · rintro s' ⟨s, hs, rfl⟩
              refine ⟨fun ns hne => ?_, fun p => ?_, hs.own, hs.spent, hs.others⟩
              · show ((Function.update s.tables.namespaceNodes _ _) ns).getD ∅ = _
                rw [Function.update_of_ne hne, hs.roots]
                rfl
              · show (((Function.update s.tables.namespaceNodes _ _) _).getD ∅).lookup p = _
                rw [Function.update_self, Option.getD_some]
                by_cases hp : p = entry.entry.point
                · rw [if_pos hp, hp, AList.lookup_insert]
                · rw [if_neg hp, AList.lookup_insert_ne hp, hs.node]
            · rintro s' ⟨s, hs, rfl⟩
              exact ⟨hs.roots, hs.cutShort_counted.token, by rintro ⟨⟩, by rintro ⟨⟩⟩

theorem tryIngest_ok {t : Tables} {c : IngestCall} {res : Bool}
    (h : (t.tryIngest c).1 = .ok res) : Ingested t c.entry (t.tryIngest c).2 := by
  obtain ⟨hok, -⟩ := ingestClosure_spec t c.entry c.origin c.left ⟨t, ∅⟩ rfl
  unfold Tables.tryIngest at h ⊢
  match hrun : ingestClosure c.entry c.origin c.left ⟨t, ∅⟩ with
  | (.ok (), left, s) =>
      rw [hrun] at hok
      exact hok () s rfl rfl
  | (.error e, left, s) =>
      rw [hrun] at h
      cases h

theorem tryIngest_error {t : Tables} {c : IngestCall} {e : IngestError}
    (h : (t.tryIngest c).1 = .error e) : CutShort t c.entry e (t.tryIngest c).2 := by
  obtain ⟨-, herr⟩ := ingestClosure_spec t c.entry c.origin c.left ⟨t, ∅⟩ rfl
  unfold Tables.tryIngest at h ⊢
  match hrun : ingestClosure c.entry c.origin c.left ⟨t, ∅⟩ with
  | (.ok (), left, s) =>
      rw [hrun] at h
      cases h
  | (.error e', left, s) =>
      rw [hrun] at h herr
      obtain rfl := Except.error.inj h
      exact herr e' s rfl rfl

/-- The other namespaces are left alone. -/
theorem tryIngest_node_ne (t : Tables) {c : IngestCall} {ns : NamespaceId}
    (hne : ns ≠ c.entry.entry.namespaceId) : (t.tryIngest c).2.node ns = t.node ns := by
  cases hres : (t.tryIngest c).1 with
  | ok res => exact (tryIngest_ok hres).roots ns hne
  | error e =>
      unfold Tables.node
      rw [(tryIngest_error hres).roots]

theorem tryAll_node_ne {t : Tables} {l : List IngestCall} {ns : NamespaceId}
    (hne : ∀ c ∈ l, ns ≠ c.entry.entry.namespaceId) : (t.tryAll l).node ns = t.node ns := by
  induction l using List.reverseRecOn with
  | nil => rfl
  | append_singleton l c ih =>
      rw [Tables.tryAll_concat, tryIngest_node_ne _ (hne c (by simp)),
        ih fun c hc => hne c (List.mem_append_left _ hc)]

end Call

end Effects

end IrohWillow.Persistent
