import IrohWillow.Store.IngestEffects

/-!
# How far a call of `ingest_entry` gets

Each operation of the closure may fail, and a candidate that does not read back
ends the loop. How far a call gets is a matter of the tables before the call
and of the number of operations that succeed: two before the loop, three for
each candidate and two more to take away its token, five to store the entry.

* `LoopRuns` says that every candidate reads back, `tryPruneCandidates_costs`
  counts the operations of such a loop;
* `tryPruneCandidates_ends` says what a loop that ends has taken;
* `tryIngest_isOk_iff` says which calls succeed.
-/

namespace IrohWillow.Persistent

open Fallible

section Progress

variable [Meadowcap]

/-- The count of the token does not survive a decrement. -/
def CountedOnce (t : Tables) (key : UserSignature) : Prop :=
  ∃ n, t.authTokenRefcount key = some n ∧ n - 1 = 0

instance (t : Tables) (key : UserSignature) : Decidable (CountedOnce t key) :=
  match h : t.authTokenRefcount key with
  | none => isFalse (by
      rintro ⟨n, hn, -⟩
      rw [h] at hn
      cases hn)
  | some n => decidable_of_iff (n - 1 = 0) (by simp [CountedOnce, h])

/-- The operations of the loop for one candidate: the token is read, the
candidate erased, the count read; then the token and the count removed. -/
def candidateCost (t : Tables) (kv : Point × StoredAuthorisedEntry) : Nat :=
  if CountedOnce t kv.2.authorisationTokenId then 5 else 3

/-- The operations of the loop. -/
def loopCost (t : Tables) (candidates : List (Point × StoredAuthorisedEntry)) : Nat :=
  (candidates.map (candidateCost t)).sum

/-- The candidate reads back after the candidates `gone` were pruned: its token
has not gone with them, and it authorises the candidate. -/
def Legible (t : Tables) (entry : AuthorisedEntry) (gone : List (Point × StoredAuthorisedEntry))
    (kv : Point × StoredAuthorisedEntry) : Prop :=
  ¬ Spends t gone kv.2.authorisationTokenId ∧
    ∃ a, readStored t entry.entry.namespaceId kv.1 kv.2 = .ok a

/-- Every candidate reads back when its turn comes. -/
def LoopRuns (t : Tables) (entry : AuthorisedEntry)
    (candidates : List (Point × StoredAuthorisedEntry)) : Prop :=
  ∀ gone kv rest, candidates = gone ++ kv :: rest → Legible t entry gone kv

variable {t : Tables} {entry : AuthorisedEntry} {node : Node}
  {gone candidates : List (Point × StoredAuthorisedEntry)} {kv : Point × StoredAuthorisedEntry}
  {s : Scratch}

@[simp] theorem loopCost_nil : loopCost t [] = 0 := rfl

@[simp] theorem loopCost_cons (rest : List (Point × StoredAuthorisedEntry)) :
    loopCost t (kv :: rest) = candidateCost t kv + loopCost t rest := by
  simp [loopCost]

@[simp] theorem loopCost_append (rest : List (Point × StoredAuthorisedEntry)) :
    loopCost t (gone ++ rest) = loopCost t gone + loopCost t rest := by
  simp [loopCost]

theorem loopRuns_nil : LoopRuns t entry [] := by
  intro gone kv rest h
  simp at h

theorem LoopRuns.left {rest : List (Point × StoredAuthorisedEntry)}
    (h : LoopRuns t entry (gone ++ rest)) : LoopRuns t entry gone := by
  intro gone' kv rest' hsplit
  refine h gone' kv (rest' ++ rest) ?_
  rw [hsplit, List.append_assoc, List.cons_append]

theorem loopRuns_concat : LoopRuns t entry (gone ++ [kv]) ↔
    LoopRuns t entry gone ∧ Legible t entry gone kv := by
  constructor
  · exact fun h => ⟨h.left, h gone kv [] rfl⟩
  · rintro ⟨hgone, hkv⟩ gone' kv' rest hsplit
    rcases rest.eq_nil_or_concat' with rfl | ⟨rest', last, rfl⟩
    · -- the last candidate
      obtain ⟨rfl, hlast⟩ := List.append_inj' hsplit rfl
      obtain rfl := List.singleton_injective hlast
      exact hkv
    · rw [← List.cons_append, ← List.append_assoc] at hsplit
      exact hgone gone' kv' rest' (List.append_inj' hsplit rfl).1

/-- A token that is spent was counted once. -/
theorem Spends.countedOnce {key : UserSignature} (h : Spends t gone key) : CountedOnce t key := h.2

theorem spends_of_mem (hkv : kv ∈ gone) (hcount : CountedOnce t kv.2.authorisationTokenId) :
    Spends t gone kv.2.authorisationTokenId := ⟨⟨kv, hkv, rfl⟩, hcount⟩

/-! ## One candidate -/

/-- The loop goes on with the rest. -/
theorem tryPruneCandidates_cons (kv : Point × StoredAuthorisedEntry)
    (rest : List (Point × StoredAuthorisedEntry)) :
    tryPruneCandidates entry (kv :: rest) =
      tryPruneCandidates entry [kv] >>= fun _ => tryPruneCandidates entry rest := by
  obtain ⟨pos, candidate⟩ := kv
  simp only [tryPruneCandidates, bind_assoc]
  congr 1
  funext token
  cases candidate.intoAuthorisedEntry entry.entry.namespaceId pos token with
  | none => rfl
  | some pruned =>
      dsimp only
      split
      · simp only [bind_assoc]
        rfl
      · rfl

theorem tryPruneCandidates_append (rest : List (Point × StoredAuthorisedEntry)) :
    tryPruneCandidates entry (gone ++ rest) =
      tryPruneCandidates entry gone >>= fun _ => tryPruneCandidates entry rest := by
  induction gone with
  | nil => rfl
  | cons kv gone ih =>
      rw [List.cons_append, tryPruneCandidates_cons, ih,
        tryPruneCandidates_cons kv gone, bind_assoc]

/-- What reads back in the tables before the call reads back in its turn. -/
theorem PrunedState.readStored_eq (h : PrunedState t node gone s) {ns : NamespaceId}
    (hspends : ¬ Spends t gone kv.2.authorisationTokenId) :
    readStored s.tables ns kv.1 kv.2 = readStored t ns kv.1 kv.2 := by
  have hsame := congrArg Prod.fst (h.others _ hspends)
  change s.tables.authTokens _ = t.authTokens _ at hsame
  unfold readStored readStoredBy Tables.getEntryAuthToken
  rw [hsame]

/-- A candidate whose token has gone does not read back. -/
theorem PrunedState.readStored_of_spends (h : PrunedState t node gone s) {ns : NamespaceId}
    (hspends : Spends t gone kv.2.authorisationTokenId) :
    readStored s.tables ns kv.1 kv.2 = .error .missingAuthToken := by
  have hnone := congrArg Prod.fst (h.spent _ hspends)
  change s.tables.authTokens _ = none at hnone
  unfold readStored readStoredBy Tables.getEntryAuthToken
  rw [hnone]

theorem PrunedState.legible_iff (h : PrunedState t node gone s) :
    (∃ a, readStored s.tables entry.entry.namespaceId kv.1 kv.2 = .ok a) ↔
      Legible t entry gone kv := by
  by_cases hspends : Spends t gone kv.2.authorisationTokenId
  · rw [h.readStored_of_spends hspends]
    exact iff_of_false (by rintro ⟨a, ⟨⟩⟩) fun hread => hread.1 hspends
  · rw [h.readStored_eq hspends]
    exact (and_iff_right hspends).symm

/-- A candidate is read with the first operation of the loop. -/
theorem tryPruneCandidates_read {pos : Point} {candidate : StoredAuthorisedEntry}
    (rest : List (Point × StoredAuthorisedEntry)) (k : Nat) (s : Scratch) :
    tryPruneCandidates entry ((pos, candidate) :: rest) (some (k + 1)) s =
      match readStored s.tables entry.entry.namespaceId pos candidate with
      | .error e => (.error (.store e), some k, s)
      | .ok pruned =>
          (if entry.entry.IsNewerThan pruned.entry then do
            update fun s => { s with node := s.node.erase pos }
            action fun s => { s with
              tables := s.tables.insertEvent entry.entry.namespaceId (.pruned · pruned entry) }
            tryRemoveEntryAuthToken candidate.authorisationTokenId
            tryPruneCandidates entry rest
          else tryPruneCandidates entry rest) (some k) s := by
  rw [tryPruneCandidates, tryGetEntryAuthToken, query, bind_apply, bind_apply, operation_succ]
  unfold readStored readStoredBy Tables.getEntryAuthToken
  dsimp only
  cases s.tables.authTokens candidate.authorisationTokenId with
  | none => rfl
  | some capability =>
      dsimp only [pure_apply]
      cases candidate.intoAuthorisedEntry entry.entry.namespaceId pos
          ⟨capability, candidate.authorisationTokenId⟩ with
      | none => rfl
      | some pruned => rfl

/-- What is read back of an older candidate is older. -/
theorem isNewerThan_of_readStored {pos : Point} {candidate : StoredAuthorisedEntry}
    {pruned : AuthorisedEntry} (hlt : pos.y < entry.entry.timestamp)
    (h : readStored t entry.entry.namespaceId pos candidate = .ok pruned) :
    entry.entry.IsNewerThan pruned.entry := by
  refine Or.inl ?_
  rw [readStored_eq_ok h]
  exact hlt

/-- A candidate that does not read back ends the loop, with nothing changed. -/
theorem tryPruneCandidates_unread {entry : AuthorisedEntry} (hread : ∀ a,
      readStored s.tables entry.entry.namespaceId kv.1 kv.2 ≠ .ok a) (left : Option Nat) :
    ∃ e left', tryPruneCandidates entry [kv] left s = (.error e, left', s) := by
  obtain ⟨pos, candidate⟩ := kv
  match left with
  | some 0 => exact ⟨_, _, rfl⟩
  | some (k + 1) =>
      rw [tryPruneCandidates_read [] k s]
      cases hres : readStored s.tables entry.entry.namespaceId pos candidate with
      | error e => exact ⟨_, _, rfl⟩
      | ok a => exact absurd hres (hread a)
  | none =>
      rw [tryPruneCandidates_none entry [(pos, candidate)] s.node s.tables, pruneCandidates_cons]
      cases hres : readStored s.tables entry.entry.namespaceId pos candidate with
      | error e => exact ⟨_, _, rfl⟩
      | ok a => exact absurd hres (hread a)

/-- Reading a token that is there takes one operation. -/
theorem tryGetEntryAuthToken_costs {key : UserSignature} {capability : McCapability}
    (h : s.tables.authTokens key = some capability) :
    Costs (tryGetEntryAuthToken key) s 1 ⟨capability, key⟩ s := by
  unfold tryGetEntryAuthToken query
  refine Costs.operation.bind (k := 0) ?_
  dsimp only
  rw [h]
  exact Costs.pure

/-- Giving a token back takes one operation, and two more if it goes. -/
theorem tryRemoveEntryAuthToken_costs {key : UserSignature} {capability : McCapability}
    (h : s.tables.authTokens key = some capability) :
    ∃ s', Costs (tryRemoveEntryAuthToken key) s (if CountedOnce s.tables key then 3 else 1) ()
      s' := by
  unfold tryRemoveEntryAuthToken query update
  cases hcount : s.tables.authTokenRefcount key with
  | none =>
      have hnot : ¬ CountedOnce s.tables key := by
        rintro ⟨n, hn, -⟩
        rw [hcount] at hn
        cases hn
      rw [if_neg hnot]
      refine ⟨s, Costs.operation.bind (k := 0) ?_⟩
      dsimp only
      rw [hcount]
      exact Costs.pure
  | some n =>
      have hiff : CountedOnce s.tables key ↔ n - 1 = 0 := by simp [CountedOnce, hcount]
      by_cases hzero : n - 1 = 0
      · rw [if_pos (hiff.mpr hzero)]
        refine ⟨{ s with tables := (s.tables.setAuthToken key none).setRefcount key none },
          Costs.operation.bind (k := 2) ?_⟩
        dsimp only
        rw [hcount]
        dsimp only
        rw [if_pos hzero]
        refine Costs.operation.bind (k := 1) ?_
        dsimp only
        rw [h]
        exact Costs.operation
      · rw [if_neg (mt hiff.mp hzero)]
        refine ⟨s, Costs.operation.bind (k := 0) ?_⟩
        dsimp only
        rw [hcount]
        dsimp only
        rw [if_neg hzero]
        exact Costs.pure

/-- A token that cannot be given back: the token goes before its count. -/
theorem tryRemoveEntryAuthToken_cut {key : UserSignature} {capability : McCapability}
    (h : s.tables.authTokens key = some capability) {j : Nat}
    (hj : j < if CountedOnce s.tables key then 3 else 1) :
    tryRemoveEntryAuthToken key (some j) s = (.error .operation, some 0,
      if j = 2 then { s with tables := s.tables.setAuthToken key none } else s) := by
  unfold tryRemoveEntryAuthToken query update
  match j with
  | 0 => rfl
  | j + 1 =>
      split at hj
      · rename_i hcount
        obtain ⟨n, hn, hzero⟩ := hcount
        rw [bind_apply, operation_succ]
        dsimp only
        rw [hn]
        dsimp only
        rw [if_pos hzero]
        match j with
        | 0 => rfl
        | 1 =>
            rw [bind_apply, operation_succ]
            dsimp only
            rw [h]
            rfl
        | j + 2 => omega
      · omega

/-- What reading a candidate back finds. -/
theorem readStored_found {a : AuthorisedEntry} {ns : NamespaceId}
    (h : readStored t ns kv.1 kv.2 = .ok a) : ∃ capability,
      t.authTokens kv.2.authorisationTokenId = some capability ∧
      kv.2.intoAuthorisedEntry ns kv.1 ⟨capability, kv.2.authorisationTokenId⟩ = some a := by
  unfold readStored readStoredBy Tables.getEntryAuthToken at h
  cases htoken : t.authTokens kv.2.authorisationTokenId with
  | none =>
      rw [htoken] at h
      cases h
  | some capability =>
      rw [htoken] at h
      dsimp only at h
      refine ⟨capability, rfl, ?_⟩
      cases hread : kv.2.intoAuthorisedEntry ns kv.1 ⟨capability, kv.2.authorisationTokenId⟩ with
      | none =>
          rw [hread] at h
          cases h
      | some b =>
          rw [hread] at h
          exact congrArg some (Except.ok.inj h)

/-- A token that is still there is counted as before the call. -/
theorem PrunedState.countedOnce_iff (h : PrunedState t node gone s) {key : UserSignature}
    (hspends : ¬ Spends t gone key) : CountedOnce s.tables key ↔ CountedOnce t key := by
  have hsame : s.tables.authTokenRefcount key = t.authTokenRefcount key :=
    congrArg Prod.snd (h.others key hspends)
  unfold CountedOnce
  rw [hsame]

/-- The operations for one candidate. -/
theorem PrunedState.costs (h : PrunedState t node gone s)
    (hlt : ∀ x ∈ gone ++ [kv], x.1.y < entry.entry.timestamp) (hread : Legible t entry gone kv) :
    ∃ s', Costs (tryPruneCandidates entry [kv]) s (candidateCost t kv) () s' ∧
      PrunedState t node (gone ++ [kv]) s' := by
  obtain ⟨a, ha⟩ := h.legible_iff.mpr hread
  obtain ⟨capability, htoken, hinto⟩ := readStored_found ha
  have hnewer := isNewerThan_of_readBack (hlt kv (by simp)) hinto
  have hcosts : ∃ s', Costs (tryPruneCandidates entry [kv]) s (candidateCost t kv) () s' := by
    obtain ⟨s', hremove⟩ := tryRemoveEntryAuthToken_costs
      (s := ⟨s.tables.insertEvent entry.entry.namespaceId (.pruned · a entry),
        s.node.erase kv.1⟩) htoken
    have hsum : 1 + (1 + (0 + ((if CountedOnce s.tables kv.2.authorisationTokenId then 3 else 1) +
        0))) = candidateCost t kv := by
      unfold candidateCost
      simp only [h.countedOnce_iff hread.1]
      split <;> rfl
    rw [← hsum]
    refine ⟨s', ?_⟩
    unfold tryPruneCandidates update
    refine (tryGetEntryAuthToken_costs htoken).bind ?_
    rw [hinto]
    dsimp only
    rw [if_pos hnewer]
    exact Costs.operation.bind (Costs.action.bind (hremove.bind Costs.pure))
  obtain ⟨s', hcosts⟩ := hcosts
  refine ⟨s', hcosts, ?_⟩
  -- what it leaves is known already
  have hspec := tryPruneCandidates_spec hlt rfl none s h
  rw [hcosts.always] at hspec
  exact hspec.1 () s' rfl rfl

/-- A candidate that reads back and is not dealt with to the end. -/
theorem PrunedState.cut (h : PrunedState t node gone s)
    (hlt : kv.1.y < entry.entry.timestamp) (hread : Legible t entry gone kv) {j : Nat}
    (hj : j < candidateCost t kv) :
    ∃ s', tryPruneCandidates entry [kv] (some j) s = (.error .operation, some 0, s') ∧
      ∀ key, s'.tables.token key =
        if j = 4 ∧ key = kv.2.authorisationTokenId then (none, t.authTokenRefcount key)
        else s.tables.token key := by
  obtain ⟨a, ha⟩ := h.legible_iff.mpr hread
  obtain ⟨capability, htoken, -⟩ := readStored_found ha
  match j with
  | 0 => exact ⟨s, rfl, fun key => by simp⟩
  | j + 1 =>
      have hrun : tryPruneCandidates entry ((kv.1, kv.2) :: []) (some (j + 1)) s = _ :=
        tryPruneCandidates_read [] j s
      rw [ha] at hrun
      dsimp only at hrun
      rw [if_pos (isNewerThan_of_readStored hlt ha)] at hrun
      match j with
      | 0 => exact ⟨s, hrun, fun key => by simp⟩
      | j + 1 =>
          -- the candidate is erased and logged, its token is not dealt with
          obtain ⟨s₁, hs₁⟩ : ∃ s₁ : Scratch, s₁ = ⟨s.tables.insertEvent entry.entry.namespaceId
            (.pruned · a entry), s.node.erase kv.1⟩ := ⟨_, rfl⟩
          have htables : ∀ key, s₁.tables.token key = s.tables.token key := by
            rw [hs₁]
            exact fun _ => rfl
          have hj' : j < if CountedOnce s₁.tables kv.2.authorisationTokenId then 3 else 1 := by
            have hiff : CountedOnce s₁.tables kv.2.authorisationTokenId ↔
                CountedOnce t kv.2.authorisationTokenId := by
              rw [hs₁]
              exact h.countedOnce_iff hread.1
            unfold candidateCost at hj
            simp only [hiff]
            split at hj
            · rw [if_pos ‹_›]
              omega
            · rw [if_neg ‹_›]
              omega
          have hremove := tryRemoveEntryAuthToken_cut (s := s₁) (by rw [hs₁]; exact htoken) hj'
          have hcut : tryPruneCandidates entry [kv] (some (j + 1 + 1)) s = (.error .operation,
              some 0, if j = 2 then { s₁ with
                tables := s₁.tables.setAuthToken kv.2.authorisationTokenId none } else s₁) := by
            refine hrun.trans ?_
            change (tryRemoveEntryAuthToken kv.2.authorisationTokenId >>= fun _ =>
              tryPruneCandidates entry []) (some j) ⟨s.tables.insertEvent
                entry.entry.namespaceId (.pruned · a entry), s.node.erase kv.1⟩ = _
            rw [← hs₁, bind_apply, hremove]
          refine ⟨_, hcut, fun key => ?_⟩
          by_cases hj2 : j = 2
          · rw [if_pos hj2]
            by_cases hkey : key = kv.2.authorisationTokenId
            · -- the token is gone, its count is not
              have hcount : (s₁.tables.token key).2 = t.authTokenRefcount key := by
                rw [htables, hkey]
                exact congrArg Prod.snd (h.others _ hread.1)
              rw [if_pos ⟨by omega, hkey⟩, ← hcount, hkey]
              simp [Tables.token, Tables.setAuthToken]
            · rw [if_neg fun hand => hkey hand.2, ← htables]
              exact setAuthToken_token_ne hkey _
          · rw [if_neg hj2, if_neg (by omega)]
            exact htables key

/-! ## The loop -/

/-- The operations of a loop whose candidates all read back. -/
theorem tryPruneCandidates_costs (h : PrunedState t node [] s)
    (hlt : ∀ kv ∈ candidates, kv.1.y < entry.entry.timestamp)
    (hruns : LoopRuns t entry candidates) :
    ∃ s', Costs (tryPruneCandidates entry candidates) s (loopCost t candidates) () s' ∧
      PrunedState t node candidates s' := by
  induction candidates using List.reverseRecOn with
  | nil => exact ⟨s, Costs.pure, h⟩
  | append_singleton gone kv ih =>
      obtain ⟨hgone, hread⟩ := loopRuns_concat.mp hruns
      obtain ⟨s₁, hcosts, hpruned⟩ := ih (fun x hx => hlt x (List.mem_append_left _ hx)) hgone
      obtain ⟨s', hcosts', hpruned'⟩ := hpruned.costs hlt hread
      refine ⟨s', ?_, hpruned'⟩
      rw [tryPruneCandidates_append, loopCost_append, loopCost_cons, loopCost_nil, Nat.add_zero]
      exact hcosts.bind hcosts'

/-- The loop gets as far as to remove the token: with the fourth operation for
the first candidate that has it, if it is counted once. Two operations come
before the loop. -/
def Takes (t : Tables) (entry : AuthorisedEntry) (left : Option Nat)
    (candidates : List (Point × StoredAuthorisedEntry)) (key : UserSignature) : Prop :=
  ∃ gone kv rest, candidates = gone ++ kv :: rest ∧ kv.2.authorisationTokenId = key ∧
    CountedOnce t key ∧ LoopRuns t entry (gone ++ [kv]) ∧ Lasts left (2 + loopCost t gone + 4)

variable {left : Option Nat} {key : UserSignature}

theorem takes_concat : Takes t entry left (gone ++ [kv]) key ↔ Takes t entry left gone key ∨
    kv.2.authorisationTokenId = key ∧ CountedOnce t key ∧ LoopRuns t entry (gone ++ [kv]) ∧
      Lasts left (2 + loopCost t gone + 4) := by
  constructor
  · rintro ⟨gone', kv', rest, hsplit, hkey, hcount, hruns, hleft⟩
    rcases rest.eq_nil_or_concat' with rfl | ⟨rest', last, rfl⟩
    · obtain ⟨rfl, hlast⟩ := List.append_inj' hsplit rfl
      obtain rfl := List.singleton_injective hlast
      exact Or.inr ⟨hkey, hcount, hruns, hleft⟩
    · rw [← List.cons_append, ← List.append_assoc] at hsplit
      exact Or.inl ⟨gone', kv', rest', (List.append_inj' hsplit rfl).1, hkey, hcount, hruns, hleft⟩
  · rintro (⟨gone', kv', rest, rfl, hkey, hcount, hruns, hleft⟩ | ⟨hkey, hcount, hruns, hleft⟩)
    · refine ⟨gone', kv', rest ++ [kv], ?_, hkey, hcount, hruns, hleft⟩
      rw [List.append_assoc, List.cons_append]
    · exact ⟨gone, kv, [], rfl, hkey, hcount, hruns, hleft⟩

theorem not_takes_nil : ¬ Takes t entry left [] key := by
  rintro ⟨gone, kv, rest, hsplit, -⟩
  simp at hsplit

theorem CountedOnce.candidateCost (h : CountedOnce t kv.2.authorisationTokenId) :
    candidateCost t kv = 5 := if_pos h

/-- A loop that runs to its end takes what it spends. -/
theorem takes_iff_spends (hruns : LoopRuns t entry candidates)
    (hleft : Lasts left (2 + loopCost t candidates)) :
    Takes t entry left candidates key ↔ Spends t candidates key := by
  constructor
  · rintro ⟨gone, kv, rest, rfl, rfl, hcount, -⟩
    exact spends_of_mem (by simp) hcount
  · rintro ⟨⟨kv, hkv, rfl⟩, hcount⟩
    obtain ⟨gone, rest, rfl⟩ := List.append_of_mem hkv
    refine ⟨gone, kv, rest, rfl, rfl, hcount, ?_, hleft.mono ?_⟩
    · rw [List.append_cons] at hruns
      exact hruns.left
    · rw [loopCost_append, loopCost_cons, CountedOnce.candidateCost hcount]
      omega

/-- How the loop ends, and what it has taken. -/
structure LoopEnds (t : Tables) (entry : AuthorisedEntry) (left : Option Nat)
    (candidates : List (Point × StoredAuthorisedEntry))
    (r : Except IngestError Unit × Option Nat × Scratch) : Prop where
  isOk : (∃ u, r.1 = .ok u) ↔
    LoopRuns t entry candidates ∧ Lasts left (2 + loopCost t candidates)
  taken : ∀ key, Takes t entry left candidates key → r.2.2.tables.authTokens key = none
  others : ∀ key, ¬ Takes t entry left candidates key →
    r.2.2.tables.token key = t.token key

/-- The last candidate does not read back. -/
theorem PrunedState.ends_unread (h : PrunedState t node gone s) (hruns : LoopRuns t entry gone)
    (hleft : Lasts left (2 + loopCost t gone)) (hread : ¬ Legible t entry gone kv)
    (rest : Option Nat) :
    LoopEnds t entry left (gone ++ [kv]) (tryPruneCandidates entry [kv] rest s) := by
  have hunread : ∀ a, readStored s.tables entry.entry.namespaceId kv.1 kv.2 ≠ .ok a :=
    fun a ha => hread (h.legible_iff.mp ⟨a, ha⟩)
  obtain ⟨e, left', hrun⟩ := tryPruneCandidates_unread hunread rest
  -- what has been taken is what was spent before
  have htakes : ∀ key, Takes t entry left (gone ++ [kv]) key ↔ Spends t gone key := by
    intro key
    rw [takes_concat, takes_iff_spends hruns hleft]
    exact or_iff_left fun hand => hread (loopRuns_concat.mp hand.2.2.1).2
  rw [hrun]
  constructor
  · exact iff_of_false (by rintro ⟨u, ⟨⟩⟩) fun h => hread (loopRuns_concat.mp h.1).2
  · intro key hkey
    exact congrArg Prod.fst (h.spent key ((htakes key).mp hkey))
  · intro key hkey
    exact h.others key (mt (htakes key).mpr hkey)

/-- An operation fails at the last candidate. -/
theorem PrunedState.ends_cut (h : PrunedState t node gone s)
    (hlt : kv.1.y < entry.entry.timestamp) (hnext : LoopRuns t entry (gone ++ [kv])) {j : Nat}
    (hj : j < candidateCost t kv) :
    LoopEnds t entry (some (2 + loopCost t gone + j)) (gone ++ [kv])
      (tryPruneCandidates entry [kv] (some j) s) := by
  obtain ⟨hruns, hread⟩ := loopRuns_concat.mp hnext
  have hsofar : ∀ key, Takes t entry (some (2 + loopCost t gone + j)) gone key ↔
      Spends t gone key := fun key =>
    takes_iff_spends hruns (lasts_some.mpr (Nat.le_add_right _ _))
  obtain ⟨s', hrun, htoken⟩ := h.cut hlt hread hj
  rw [hrun]
  -- the fourth operation takes the token
  have hfour : Lasts (some (2 + loopCost t gone + j)) (2 + loopCost t gone + 4) ↔ j = 4 := by
    have hle : candidateCost t kv ≤ 5 := by
      unfold candidateCost
      split <;> omega
    rw [lasts_some]
    omega
  constructor
  · refine iff_of_false (by rintro ⟨u, ⟨⟩⟩) fun hall => ?_
    have hge := lasts_some.mp hall.2
    rw [loopCost_append, loopCost_cons, loopCost_nil] at hge
    omega
  · intro key hkey
    have htok := congrArg Prod.fst (htoken key)
    rcases takes_concat.mp hkey with hkey | ⟨rfl, hcount, -, hlasts⟩
    · have hspent := congrArg Prod.fst (h.spent key ((hsofar key).mp hkey))
      split at htok
      · exact htok
      · exact htok.trans hspent
    · rw [if_pos ⟨hfour.mp hlasts, rfl⟩] at htok
      exact htok
  · intro key hkey
    have hnot := mt takes_concat.mpr hkey
    rw [htoken key]
    split
    · rename_i hand
      -- with a fourth operation the token is counted once
      refine absurd (Or.inr ⟨hand.2.symm, ?_, hnext, hfour.mpr hand.1⟩) hnot
      rw [hand.2]
      by_contra hcount
      have hthree : candidateCost t kv = 3 := if_neg hcount
      omega
    · exact h.others key fun hspends => hnot (Or.inl ((hsofar key).mpr hspends))

/-- The last candidate, after the others. -/
theorem PrunedState.ends (h : PrunedState t node gone s)
    (hlt : ∀ x ∈ gone ++ [kv], x.1.y < entry.entry.timestamp) (hruns : LoopRuns t entry gone)
    (hleft : Lasts left (2 + loopCost t gone)) :
    LoopEnds t entry left (gone ++ [kv]) (tryPruneCandidates entry [kv]
      ((left.map (· - 2)).map (· - loopCost t gone)) s) := by
  have htwo : Lasts left 2 := hleft.mono (by omega)
  have hloop : Lasts (left.map (· - 2)) (loopCost t gone) := (lasts_map_sub htwo).mpr hleft
  have hcost : 2 + loopCost t (gone ++ [kv]) = 2 + (loopCost t gone + candidateCost t kv) := by
    simp
  by_cases hread : Legible t entry gone kv
  · have hnext : LoopRuns t entry (gone ++ [kv]) := loopRuns_concat.mpr ⟨hruns, hread⟩
    by_cases hall : Lasts left (2 + loopCost t (gone ++ [kv]))
    · -- it is pruned
      obtain ⟨s', hcosts, hpruned⟩ := h.costs hlt hread
      rw [hcosts.run ((lasts_map_sub hloop).mpr ((lasts_map_sub htwo).mpr (hcost ▸ hall)))]
      constructor
      · exact iff_of_true ⟨(), rfl⟩ ⟨hnext, hall⟩
      · intro key hkey
        exact congrArg Prod.fst (hpruned.spent key ((takes_iff_spends hnext hall).mp hkey))
      · intro key hkey
        exact hpruned.others key (mt (takes_iff_spends hnext hall).mpr hkey)
    · -- an operation fails
      obtain ⟨k, rfl, hk⟩ := not_lasts_iff.mp hall
      obtain ⟨j, rfl⟩ := Nat.exists_eq_add_of_le (hleft k rfl)
      dsimp only [Option.map_some]
      rw [show 2 + loopCost t gone + j - 2 - loopCost t gone = j by omega]
      exact h.ends_cut (hlt kv (by simp)) hnext (by omega)
  · exact h.ends_unread hruns hleft hread _

theorem tryPruneCandidates_ends (h : PrunedState t node [] s) (hleft : Lasts left 2)
    (hlt : ∀ kv ∈ candidates, kv.1.y < entry.entry.timestamp) :
    LoopEnds t entry left candidates
      (tryPruneCandidates entry candidates (left.map (· - 2)) s) := by
  induction candidates using List.reverseRecOn with
  | nil =>
      constructor
      · exact iff_of_true ⟨(), rfl⟩ ⟨loopRuns_nil, hleft⟩
      · intro key htakes
        exact absurd htakes not_takes_nil
      · intro key _
        refine h.others key ?_
        rintro ⟨⟨kv, hkv, -⟩, -⟩
        cases hkv
  | append_singleton gone kv ih =>
      have hlt' : ∀ x ∈ gone, x.1.y < entry.entry.timestamp := fun x hx =>
        hlt x (List.mem_append_left _ hx)
      have hgone := ih hlt'
      rw [tryPruneCandidates_append, bind_apply]
      by_cases hruns : LoopRuns t entry gone ∧ Lasts left (2 + loopCost t gone)
      · -- the loop reaches the last candidate
        obtain ⟨s₁, hcosts, hpruned⟩ := tryPruneCandidates_costs h hlt' hruns.1
        rw [hcosts.run (lasts_map_sub hleft |>.mpr hruns.2)]
        exact hpruned.ends hlt hruns.1 hruns.2
      · -- the loop has ended before
        have hnot : ∀ u, (tryPruneCandidates entry gone (left.map (· - 2)) s).1 ≠ .ok u :=
          fun u hu => hruns (hgone.isOk.mp ⟨u, hu⟩)
        have htakes : ∀ key, Takes t entry left (gone ++ [kv]) key ↔
            Takes t entry left gone key := by
          intro key
          rw [takes_concat]
          refine or_iff_left ?_
          rintro ⟨-, -, hall, hlasts⟩
          exact hruns ⟨hall.left, hlasts.mono (by omega)⟩
        match hrun : tryPruneCandidates entry gone (left.map (· - 2)) s with
        | (.ok u, left', s') => exact absurd (congrArg Prod.fst hrun) (hnot u)
        | (.error e, left', s') =>
            rw [hrun] at hgone
            refine ⟨iff_of_false (by rintro ⟨u, ⟨⟩⟩) fun hall => hruns ⟨hall.1.left, ?_⟩,
              fun key hkey => hgone.taken key ((htakes key).mp hkey),
              fun key hkey => hgone.others key (mt (htakes key).mpr hkey)⟩
            refine hall.2.mono ?_
            rw [loopCost_append]
            omega

/-! ## The whole call -/

variable [WillowStore]

/-- The closure after the loop. -/
def storeEntry (entry : AuthorisedEntry) (origin : EntryOrigin) : Closure Unit := do
  tryAddEntryAuthToken entry.token
  update fun s => { s with node := s.node.insert entry.entry.point (.fromAuthorisedEntry entry) }
  action fun s => { s with
    tables := s.tables.insertEvent entry.entry.namespaceId (.ingested · entry origin) }
  update fun s => { s with tables := s.tables.setRoot entry.entry.namespaceId s.node }

/-- The root is read, and the candidates are queried. -/
theorem ingestClosure_of_two (origin : EntryOrigin) (k : Nat) :
    ingestClosure entry origin (some (k + 2)) ⟨t, ∅⟩ =
      (tryPruneCandidates entry (prunedBy t entry) >>= fun _ => storeEntry entry origin)
        (some k) ⟨t, t.node entry.entry.namespaceId⟩ := rfl

theorem ingestClosure_of_lasts (origin : EntryOrigin) (hleft : Lasts left 2) :
    ingestClosure entry origin left ⟨t, ∅⟩ =
      (tryPruneCandidates entry (prunedBy t entry) >>= fun _ => storeEntry entry origin)
        (left.map (· - 2)) ⟨t, t.node entry.entry.namespaceId⟩ := by
  cases left with
  | none => rfl
  | some k =>
      obtain ⟨j, rfl⟩ : ∃ j, k = j + 2 := Nat.exists_eq_add_of_le' (hleft k rfl)
      exact ingestClosure_of_two origin j

/-- A failure at the first two operations changes nothing. -/
theorem tryIngest_of_lt_two {c : IngestCall} {k : Nat} (hleft : c.left = some k) (hk : k < 2) :
    t.tryIngest c = (.error .operation, t) := by
  unfold Tables.tryIngest
  rw [hleft]
  match k, hk with
  | 0, _ => rfl
  | 1, _ => rfl

omit [WillowStore] in
/-- Storing the entry takes five operations. -/
theorem storeEntry_costs (entry : AuthorisedEntry) (origin : EntryOrigin) (s : Scratch) :
    ∃ s', Costs (storeEntry entry origin) s 5 () s' :=
  ⟨_, Costs.bind (n := 3) (k := 2)
    (Costs.operation.bind (k := 2) (Costs.operation.bind (k := 1) Costs.operation))
    (Costs.operation.bind (k := 1) (Costs.action.bind (n := 0) (k := 1) Costs.operation))⟩

omit [WillowStore] in
/-- The token is stored with the first of them, and counted with the third. -/
theorem storeEntry_cut (entry : AuthorisedEntry) (origin : EntryOrigin) (s : Scratch) {j : Nat}
    (hj : j < 5) :
    ∃ s', storeEntry entry origin (some j) s = (.error .operation, some 0, s') ∧
      (∀ key ≠ entry.token.signature, s'.tables.token key = s.tables.token key) ∧
      s'.tables.token entry.token.signature =
        (if j = 0 then s.tables.authTokens entry.token.signature else some entry.token.capability,
          if j < 3 then s.tables.authTokenRefcount entry.token.signature
          else some (raised (s.tables.authTokenRefcount entry.token.signature))) := by
  match j with
  | 0 => exact ⟨_, rfl, fun _ _ => rfl, rfl⟩
  | 1 =>
      refine ⟨_, rfl, fun key hkey => setAuthToken_token_ne hkey _, ?_⟩
      simp [Tables.token, Tables.setAuthToken]
  | 2 =>
      refine ⟨_, rfl, fun key hkey => setAuthToken_token_ne hkey _, ?_⟩
      simp [Tables.token, Tables.setAuthToken]
  | 3 =>
      refine ⟨_, rfl, fun key hkey => (setRefcount_token_ne hkey _).trans
        (setAuthToken_token_ne hkey _), ?_⟩
      refine Prod.ext (Function.update_self _ _ _)
        ((Function.update_self _ _ _).trans (congrArg some ?_))
      dsimp only [Tables.setAuthToken]
      cases s.tables.authTokenRefcount entry.token.signature <;> rfl
  | 4 =>
      refine ⟨_, rfl, fun key hkey => (setRefcount_token_ne hkey _).trans
        (setAuthToken_token_ne hkey _), ?_⟩
      refine Prod.ext (Function.update_self _ _ _)
        ((Function.update_self _ _ _).trans (congrArg some ?_))
      dsimp only [Tables.setAuthToken]
      cases s.tables.authTokenRefcount entry.token.signature <;> rfl
  | j + 5 => omega

omit [WillowStore] in
/-- The loop starts with nothing pruned. -/
theorem PrunedState.start (t : Tables) (ns : NamespaceId) :
    PrunedState t (t.node ns) [] ⟨t, t.node ns⟩ where
  roots := rfl
  node _ := rfl
  spent := by
    rintro key ⟨⟨kv, hkv, -⟩, -⟩
    cases hkv
  others _ _ := rfl

/-- Every candidate of the call reads back, and its first `n` operations after
the loop succeed. -/
def Completes (t : Tables) (c : IngestCall) (n : Nat) : Prop :=
  LoopRuns t c.entry (prunedBy t c.entry) ∧
    Lasts c.left (2 + loopCost t (prunedBy t c.entry) + n)

variable {c : IngestCall}

theorem Completes.mono {n n' : Nat} (h : Completes t c n) (hle : n' ≤ n) : Completes t c n' :=
  ⟨h.1, h.2.mono (by omega)⟩

/-- Where a call ends: before the loop or in it, while the entry is stored, or
with success. -/
theorem tryIngest_ends (t : Tables) (c : IngestCall) :
    (¬ Completes t c 0 ∧ (∃ e, (t.tryIngest c).1 = .error e) ∧
      (∀ key, Takes t c.entry c.left (prunedBy t c.entry) key →
        (t.tryIngest c).2.authTokens key = none) ∧
      ∀ key, ¬ Takes t c.entry c.left (prunedBy t c.entry) key →
        (t.tryIngest c).2.token key = t.token key) ∨
    (∃ j < 5, Completes t c j ∧ ¬ Completes t c (j + 1) ∧
      (∃ e, (t.tryIngest c).1 = .error e) ∧
      ∃ s, PrunedState t (t.node c.entry.entry.namespaceId) (prunedBy t c.entry) s ∧
        (∀ key ≠ c.entry.token.signature, (t.tryIngest c).2.token key = s.tables.token key) ∧
        (t.tryIngest c).2.token c.entry.token.signature =
          (if j = 0 then s.tables.authTokens c.entry.token.signature
            else some c.entry.token.capability,
            if j < 3 then s.tables.authTokenRefcount c.entry.token.signature
            else some (raised (s.tables.authTokenRefcount c.entry.token.signature)))) ∨
    (Completes t c 5 ∧ ∃ b, (t.tryIngest c).1 = .ok b) := by
  have hlt : ∀ kv ∈ prunedBy t c.entry, kv.1.y < c.entry.entry.timestamp := fun kv hkv =>
    timestamp_lt_of_mem_prunedBy hkv
  by_cases htwo : Lasts c.left 2
  · have hends := tryPruneCandidates_ends (PrunedState.start t c.entry.entry.namespaceId) htwo hlt
    unfold Tables.tryIngest
    rw [ingestClosure_of_lasts c.origin htwo, bind_apply]
    by_cases hloop : Completes t c 0
    · obtain ⟨s, hcosts, hpruned⟩ := tryPruneCandidates_costs
        (PrunedState.start t c.entry.entry.namespaceId) hlt hloop.1
      rw [hcosts.run ((lasts_map_sub htwo).mpr hloop.2)]
      dsimp only
      by_cases hall : Completes t c 5
      · -- enough operations for the whole call
        obtain ⟨s', hstore⟩ := storeEntry_costs c.entry c.origin s
        refine Or.inr (Or.inr ⟨hall, true, ?_⟩)
        rw [hstore.run]
        refine (lasts_map_sub ((lasts_map_sub htwo).mpr hloop.2)).mpr ?_
        exact (lasts_map_sub htwo).mpr (hall.2.mono (by omega))
      · -- the storing of the entry is cut short
        obtain ⟨k, hk, hless⟩ := not_lasts_iff.mp fun hlasts => hall ⟨hloop.1, hlasts⟩
        have hge : 2 + loopCost t (prunedBy t c.entry) ≤ k := hloop.2 k hk
        obtain ⟨s', hstore, hothers, hown⟩ := storeEntry_cut c.entry c.origin s
          (j := k - 2 - loopCost t (prunedBy t c.entry)) (by omega)
        refine Or.inr (Or.inl ⟨k - 2 - loopCost t (prunedBy t c.entry), by omega,
          ⟨hloop.1, ?_⟩, ?_, ?_, s, hpruned, ?_, ?_⟩)
        · intro i hi
          rw [hk] at hi
          obtain rfl := Option.some.inj hi
          omega
        · intro hnext
          have := hnext.2 k hk
          omega
        all_goals rw [hk]; dsimp only [Option.map_some]; rw [hstore]
        · exact ⟨_, rfl⟩
        · exact hothers
        · exact hown
    · refine Or.inl ⟨hloop, ?_⟩
      have hnot := mt hends.isOk.mp hloop
      match hrun : tryPruneCandidates c.entry (prunedBy t c.entry) (c.left.map (· - 2))
          ⟨t, t.node c.entry.entry.namespaceId⟩ with
      | (.ok u, left', s') =>
          rw [hrun] at hnot
          exact absurd ⟨u, rfl⟩ hnot
      | (.error e, left', s') =>
          rw [hrun] at hends
          exact ⟨⟨e, rfl⟩, hends.taken, hends.others⟩
  · obtain ⟨k, hk, hless⟩ := not_lasts_iff.mp htwo
    refine Or.inl ⟨fun hloop => htwo (hloop.2.mono (by omega)), ?_⟩
    rw [tryIngest_of_lt_two hk hless]
    refine ⟨⟨_, rfl⟩, ?_, fun _ _ => rfl⟩
    rintro key ⟨gone, kv, rest, -, -, -, -, hlasts⟩
    exact absurd (hlasts.mono (by omega)) htwo

/-- **Which calls succeed.** -/
theorem tryIngest_isOk_iff : (∃ b, (t.tryIngest c).1 = .ok b) ↔ Completes t c 5 := by
  rcases tryIngest_ends t c with ⟨hnot, ⟨e, he⟩, -⟩ | ⟨j, hj, -, hnot, ⟨e, he⟩, -⟩ | ⟨hall, hok⟩
  · rw [he]
    exact iff_of_false (by rintro ⟨b, ⟨⟩⟩) fun hall => hnot (hall.mono (by omega))
  · rw [he]
    exact iff_of_false (by rintro ⟨b, ⟨⟩⟩) fun hall => hnot (hall.mono (by omega))
  · exact iff_of_true hok hall

end Progress

end IrohWillow.Persistent
