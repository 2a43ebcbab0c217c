import IrohWillow.Session.Capabilities

/-!
# Revealing the challenge on both sides

Two sessions that have committed to their nonces, and any attempts to reveal a
nonce to one of them, right or wrong, once or again. The first nonce with the
committed hash is accepted (`afterReveals_eq`), and each peer computes from it
the challenge that it signs and the one that it verifies against.

When the accepted nonces are those of the peers, each verifies what the other
signs. A hash may collide, and then another nonce may be accepted:
`challenges_disagree_after_collision`.
-/

namespace IrohWillow

/-! ## Bits -/

/-- All bits differ. -/
def Bytes.Opposite {n : Nat} (a b : Bytes n) : Prop :=
  List.Forall₂ (fun x y : Byte => ∀ i < 8, x.val.testBit i ≠ y.val.testBit i) a.toList b.toList

theorem Byte.testBit_complement (x : Byte) {i : Nat} (hi : i < 8) :
    (255 - x : Byte).val.testBit i = !x.val.testBit i := by
  have hle : x ≤ 255 := Fin.le_last x
  have hval : (255 - x : Byte).val = 2 ^ 8 - (x.val + 1) := by
    rw [Fin.sub_val_of_le hle]
    show 255 - x.val = 256 - (x.val + 1)
    omega
  rw [hval, Nat.testBit_two_pow_sub_succ x.isLt]
  simp [hi]

theorem bitwiseComplement_opposite {n : Nat} (a : Bytes n) : a.Opposite (bitwiseComplement a) := by
  show List.Forall₂ _ a.toList (a.toList.map (255 - ·))
  rw [List.forall₂_map_right_iff]
  refine List.forall₂_same.mpr fun x _ i hi => ?_
  rw [Byte.testBit_complement x hi]
  cases x.val.testBit i <;> simp

theorem Bytes.Opposite.ne {n : Nat} {a b : Bytes n} (h : a.Opposite b) (hn : 0 < n) : a ≠ b := by
  rintro rfl
  unfold Bytes.Opposite at h
  rw [List.forall₂_same] at h
  cases hl : a.toList with
  | nil =>
      have hlen := a.length_eq
      rw [hl] at hlen
      exact absurd hlen.symm (Nat.ne_of_gt hn)
  | cons x rest => exact h x (by rw [hl]; exact List.mem_cons_self) 0 (by decide) rfl

/-! ## One peer -/

namespace ChallengeState

/-- `ChallengeState::get_theirs`. -/
def theirs : ChallengeState → Except Error AccessChallenge
  | .revealed _ theirs => .ok theirs
  | .committed _ _ => .error .invalidMessageInCurrentState

variable [ChallengeHash]

/-- The challenge of a role, from its own nonce and the accepted one. -/
def challengeOf (ourRole : Role) (ourNonce theirNonce : AccessChallenge) : AccessChallenge :=
  match ourRole with
  | .alfie => bitwiseXor ourNonce theirNonce
  | .betty => bitwiseXorComplement ourNonce theirNonce

/-- The state after a call of `reveal`, which an error leaves as it is. -/
def tryReveal (c : ChallengeState) (ourRole : Role) (theirNonce : AccessChallenge) :
    ChallengeState :=
  match c.reveal ourRole theirNonce with
  | .ok c' => c'
  | .error _ => c

theorem reveal_of_hash_eq {ourNonce commitment theirNonce : AccessChallenge}
    (h : ChallengeHash.hash theirNonce = commitment) (ourRole : Role) :
    (committed ourNonce commitment).reveal ourRole theirNonce =
      .ok (.revealed (challengeOf ourRole ourNonce theirNonce)
        (bitwiseComplement (challengeOf ourRole ourNonce theirNonce))) := by
  refine (if_neg (not_not.mpr h)).trans ?_
  cases ourRole <;> rfl

theorem reveal_of_hash_ne {ourNonce commitment theirNonce : AccessChallenge}
    (h : ChallengeHash.hash theirNonce ≠ commitment) (ourRole : Role) :
    (committed ourNonce commitment).reveal ourRole theirNonce = .error .brokenCommittement :=
  if_pos h

theorem tryReveal_of_isRevealed {c : ChallengeState} (h : c.isRevealed = true) (ourRole : Role)
    (theirNonce : AccessChallenge) : c.tryReveal ourRole theirNonce = c := by
  cases c with
  | committed n commitment => cases h
  | revealed ours theirs => rfl

end ChallengeState

/-! ## Two peers -/

namespace ChallengeState

variable [ChallengeHash]

/-- The two peers when they have sent their commitments. -/
def start (nonce : Role → AccessChallenge) (p : Role) : ChallengeState :=
  .committed (nonce p) (ChallengeHash.hash (nonce p.other))

/-- An attempt to reveal a nonce to one of the peers. -/
def attempt (s : Role → ChallengeState) (a : Role × AccessChallenge) : Role → ChallengeState :=
  Function.update s a.1 ((s a.1).tryReveal a.1 a.2)

/-- The two peers after some attempts. -/
def afterReveals (nonce : Role → AccessChallenge) (attempts : List (Role × AccessChallenge)) :
    Role → ChallengeState :=
  attempts.foldl attempt (start nonce)

/-- The nonce that a peer has accepted. -/
def accepted (nonce : Role → AccessChallenge) (attempts : List (Role × AccessChallenge))
    (p : Role) : Option AccessChallenge :=
  (attempts.find? fun a => decide (a.1 = p ∧
    ChallengeHash.hash a.2 = ChallengeHash.hash (nonce p.other))).map Prod.snd

variable {nonce : Role → AccessChallenge} {attempts : List (Role × AccessChallenge)}

theorem afterReveals_concat (attempts : List (Role × AccessChallenge))
    (a : Role × AccessChallenge) :
    afterReveals nonce (attempts ++ [a]) = attempt (afterReveals nonce attempts) a := by
  simp [afterReveals]

/-- What a peer has accepted stays accepted. -/
theorem accepted_concat_of_some {p : Role} {n : AccessChallenge}
    (h : accepted nonce attempts p = some n) (a : Role × AccessChallenge) :
    accepted nonce (attempts ++ [a]) p = some n := by
  obtain ⟨b, hb, rfl⟩ := Option.map_eq_some_iff.mp h
  unfold accepted
  rw [List.find?_append, hb]
  rfl

theorem accepted_concat_of_none {p : Role} (h : accepted nonce attempts p = none)
    (a : Role × AccessChallenge) : accepted nonce (attempts ++ [a]) p =
      if a.1 = p ∧ ChallengeHash.hash a.2 = ChallengeHash.hash (nonce p.other) then some a.2
      else none := by
  have hnone := Option.map_eq_none_iff.mp h
  unfold accepted
  rw [List.find?_append, hnone, Option.none_or, List.find?_singleton]
  by_cases ha : a.1 = p ∧ ChallengeHash.hash a.2 = ChallengeHash.hash (nonce p.other)
  · rw [if_pos ha, if_pos (decide_eq_true ha)]
    rfl
  · rw [if_neg ha, if_neg (by simpa using ha)]
    rfl

/-- A peer is where the first accepted nonce has brought it, or where it was. -/
theorem afterReveals_eq (nonce : Role → AccessChallenge)
    (attempts : List (Role × AccessChallenge)) (p : Role) :
    (accepted nonce attempts p = none ∧ afterReveals nonce attempts p = start nonce p) ∨
      ∃ n, accepted nonce attempts p = some n ∧ afterReveals nonce attempts p =
        .revealed (challengeOf p (nonce p) n) (bitwiseComplement (challengeOf p (nonce p) n)) := by
  induction attempts using List.reverseRecOn with
  | nil => exact Or.inl ⟨rfl, rfl⟩
  | append_singleton attempts a ih =>
      rw [afterReveals_concat]
      unfold attempt
      rcases ih with ⟨hnone, hstart⟩ | ⟨n, hsome, hrevealed⟩
      · rw [accepted_concat_of_none hnone]
        by_cases hp : a.1 = p
        · subst hp
          rw [Function.update_self, hstart]
          by_cases hhash : ChallengeHash.hash a.2 = ChallengeHash.hash (nonce a.1.other)
          · refine Or.inr ⟨a.2, if_pos ⟨rfl, hhash⟩, ?_⟩
            rw [tryReveal, start, reveal_of_hash_eq hhash]
          · refine Or.inl ⟨if_neg fun h => hhash h.2, ?_⟩
            rw [tryReveal, start, reveal_of_hash_ne hhash]
        · rw [Function.update_of_ne (Ne.symm hp)]
          exact Or.inl ⟨if_neg fun h => hp h.1, hstart⟩
      · refine Or.inr ⟨n, accepted_concat_of_some hsome a, ?_⟩
        by_cases hp : a.1 = p
        · subst hp
          rw [Function.update_self, hrevealed]
          exact tryReveal_of_isRevealed rfl _ _
        · rw [Function.update_of_ne (Ne.symm hp)]
          exact hrevealed

/-- Each peer signs what the other verifies against. -/
def Agree (s : Role → ChallengeState) : Prop :=
  ∀ p, ∃ challenge, (s p).signable = .ok challenge ∧ (s p.other).theirs = .ok challenge

/-- What two committed peers can rely on after any attempts. -/
structure RevealsSound (nonce : Role → AccessChallenge)
    (attempts : List (Role × AccessChallenge)) : Prop where
  /-- A reveal succeeds before the first success, with a nonce of the committed hash. -/
  reveal_iff : ∀ p n, (∃ c, (afterReveals nonce attempts p).reveal p n = .ok c) ↔
    (afterReveals nonce attempts p).isRevealed = false ∧
      ChallengeHash.hash n = ChallengeHash.hash (nonce p.other)
  /-- Otherwise nothing changes. -/
  unchanged : ∀ p n, (¬ ∃ c, (afterReveals nonce attempts p).reveal p n = .ok c) →
    afterReveals nonce (attempts ++ [(p, n)]) = afterReveals nonce attempts
  /-- After both reveals, of the nonces of the peers, the challenges agree. -/
  agree : (∀ p, (afterReveals nonce attempts p).isRevealed = true) →
    (∀ p n, accepted nonce attempts p = some n → n = nonce p.other) →
    Agree (afterReveals nonce attempts)
  /-- The challenges of the two directions differ in every bit. -/
  opposite : ∀ p ours theirs, (afterReveals nonce attempts p).signable = .ok ours →
    (afterReveals nonce attempts p).theirs = .ok theirs → ours.Opposite theirs ∧ ours ≠ theirs

theorem exists_reveal_iff (nonce : Role → AccessChallenge)
    (attempts : List (Role × AccessChallenge)) (p : Role) (n : AccessChallenge) :
    (∃ c, (afterReveals nonce attempts p).reveal p n = .ok c) ↔
      (afterReveals nonce attempts p).isRevealed = false ∧
        ChallengeHash.hash n = ChallengeHash.hash (nonce p.other) := by
  rcases afterReveals_eq nonce attempts p with ⟨-, hs⟩ | ⟨m, -, hs⟩
  · rw [hs]
    by_cases hhash : ChallengeHash.hash n = ChallengeHash.hash (nonce p.other)
    · exact ⟨fun _ => ⟨rfl, hhash⟩, fun _ => ⟨_, reveal_of_hash_eq hhash p⟩⟩
    · constructor
      · rintro ⟨c, hc⟩
        rw [start, reveal_of_hash_ne hhash] at hc
        cases hc
      · rintro ⟨-, h⟩
        exact absurd h hhash
  · rw [hs]
    constructor
    · rintro ⟨c, hc⟩
      cases hc
    · rintro ⟨h, -⟩
      cases h

theorem attempt_of_not_reveal {s : Role → ChallengeState} {p : Role} {n : AccessChallenge}
    (h : ¬ ∃ c, (s p).reveal p n = .ok c) : attempt s (p, n) = s := by
  have hsame : (s p).tryReveal p n = s p := by
    unfold tryReveal
    cases hr : (s p).reveal p n with
    | ok c => exact absurd ⟨c, hr⟩ h
    | error e => rfl
  show Function.update s p ((s p).tryReveal p n) = s
  rw [hsame, Function.update_eq_self]

omit [ChallengeHash] in
/-- With the nonces of the peers the state of a peer is the one of the session. -/
theorem challengeOf_eq_sessionChallenge (nonce : Role → AccessChallenge) (p : Role) :
    challengeOf p (nonce p) (nonce p.other) = sessionChallenge nonce p := by
  cases p <;> rfl

theorem agree_of_accepted (hrevealed : ∀ p, (afterReveals nonce attempts p).isRevealed = true)
    (haccepted : ∀ p n, accepted nonce attempts p = some n → n = nonce p.other) :
    Agree (afterReveals nonce attempts) := by
  have hstate (p : Role) : afterReveals nonce attempts p =
      .revealed (sessionChallenge nonce p) (sessionChallenge nonce p.other) := by
    rcases afterReveals_eq nonce attempts p with ⟨-, hs⟩ | ⟨n, hn, hs⟩
    · have h := hrevealed p
      rw [hs] at h
      cases h
    · rw [hs, haccepted p n hn, challengeOf_eq_sessionChallenge,
        bitwiseComplement_sessionChallenge]
  intro p
  refine ⟨sessionChallenge nonce p, by rw [hstate p]; rfl, ?_⟩
  rw [hstate p.other, Role.other_other]
  rfl

/-- A reveal succeeds exactly once and with a nonce of the committed hash; with
the nonces of the peers the challenges agree, and those of the two directions
differ in every bit. -/
theorem challenges_agree (nonce : Role → AccessChallenge)
    (attempts : List (Role × AccessChallenge)) : RevealsSound nonce attempts where
  reveal_iff := exists_reveal_iff nonce attempts
  unchanged := fun p n h => by rw [afterReveals_concat, attempt_of_not_reveal h]
  agree := agree_of_accepted
  opposite := fun p ours theirs hours htheirs => by
    rcases afterReveals_eq nonce attempts p with ⟨-, hs⟩ | ⟨n, -, hs⟩
    · rw [hs] at hours
      cases hours
    · rw [hs] at hours htheirs
      obtain rfl := Except.ok.inj hours
      obtain rfl := Except.ok.inj htheirs
      exact ⟨bitwiseComplement_opposite _, (bitwiseComplement_opposite _).ne (by decide)⟩

omit [ChallengeHash] in
/-- All hashes are zero, and Alfie accepts a nonce that Betty has not
committed to. -/
theorem challenges_disagree_after_collision :
    ¬ ∀ (_ : ChallengeHash) (nonce : Role → AccessChallenge)
      (attempts : List (Role × AccessChallenge)),
      (∀ p, (afterReveals nonce attempts p).isRevealed = true) →
        Agree (afterReveals nonce attempts) := by
  intro h
  have hagree := h ⟨fun _ => .ofByte 0⟩ (fun _ => .ofByte 0) [(.alfie, .ofByte 1), (.betty, .ofByte 0)]
    (by intro p; cases p <;> rfl)
  obtain ⟨challenge, hsigns, hverifies⟩ := hagree .alfie
  have heq := hsigns.trans hverifies.symm
  revert heq
  decide

end ChallengeState

end IrohWillow
