import IrohWillow.Proto.DataModel

/-!
# Successors of byte strings

`increment_by_one` (`util.rs`) gives `UserId` its `successor`, from which the
crate builds the range that holds exactly one subspace. It is proved here to
add one to the big-endian value of the bytes, and the lexicographic order on
byte strings of one length is the order of those values.
-/

namespace IrohWillow

/-- The loop of `increment_by_one` over the reversed bytes: bytes equal to 255
become 0, the first other byte is incremented and ends the loop. -/
def incrementReversed : List Byte → Option (List Byte)
  | [] => none
  | char :: rest =>
      if char ≠ 255 then some ((char + 1) :: rest)
      else (incrementReversed rest).map (0 :: ·)

theorem incrementReversed_length {l m : List Byte} (h : incrementReversed l = some m) :
    m.length = l.length := by
  induction l generalizing m with
  | nil => simp [incrementReversed] at h
  | cons char rest ih =>
      simp only [incrementReversed] at h
      split at h
      · obtain rfl := Option.some.inj h
        rfl
      · obtain ⟨m', hm', rfl⟩ := Option.map_eq_some_iff.mp h
        simp [ih hm']

/-- `increment_by_one`. -/
def incrementByOne {n : Nat} (value : Bytes n) : Option (Bytes n) :=
  match h : incrementReversed value.toList.reverse with
  | none => none
  | some out => some ⟨out.reverse, by
      rw [List.length_reverse, incrementReversed_length h, List.length_reverse, value.length_eq]⟩

/-- `SubspaceId::successor for UserId`. -/
def UserId.successor (id : UserId) : Option UserId := incrementByOne id

/-! ## Big-endian values -/

/-- The number a byte string spells in base 256, most significant byte first. -/
def beNat : List Byte → Nat
  | [] => 0
  | b :: rest => b.val * 256 ^ rest.length + beNat rest

theorem beNat_lt (l : List Byte) : beNat l < 256 ^ l.length := by
  induction l with
  | nil => simp [beNat]
  | cons b rest ih =>
      have hb : b.val + 1 ≤ 256 := b.isLt
      calc beNat (b :: rest) < b.val * 256 ^ rest.length + 256 ^ rest.length := by
            simp only [beNat]; omega
        _ = (b.val + 1) * 256 ^ rest.length := by ring
        _ ≤ 256 * 256 ^ rest.length := Nat.mul_le_mul_right _ hb
        _ = 256 ^ (b :: rest).length := by rw [List.length_cons, pow_succ]; ring

theorem beNat_append_singleton (l : List Byte) (b : Byte) :
    beNat (l ++ [b]) = beNat l * 256 + b.val := by
  induction l with
  | nil => simp [beNat]
  | cons c rest ih =>
      simp only [List.cons_append, beNat, ih, List.length_append, List.length_singleton,
        pow_succ]
      ring

/-- On byte strings of one length the lexicographic order is the order of the
big-endian values. -/
theorem lt_iff_beNat_lt {l m : List Byte} (hlen : l.length = m.length) :
    l < m ↔ beNat l < beNat m := by
  induction l generalizing m with
  | nil =>
      obtain rfl : m = [] := List.length_eq_zero_iff.mp hlen.symm
      simp [beNat]
  | cons b rest ih =>
      cases m with
      | nil => simp at hlen
      | cons c rest' =>
          have hlen' : rest.length = rest'.length := by simpa using hlen
          have h1 := beNat_lt rest
          have h2 := beNat_lt rest'
          rw [← hlen'] at h2
          simp only [List.cons_lt_cons_iff, beNat, ← hlen']
          constructor
          · rintro (hbc | ⟨rfl, hr⟩)
            · have hmul : (b.val + 1) * 256 ^ rest.length ≤ c.val * 256 ^ rest.length :=
                Nat.mul_le_mul_right _ hbc
              rw [Nat.add_one_mul] at hmul
              omega
            · have := (ih hlen').mp hr
              omega
          · intro h
            rcases lt_trichotomy b c with hbc | rfl | hbc
            · exact Or.inl hbc
            · exact Or.inr ⟨rfl, (ih hlen').mpr (by omega)⟩
            · exfalso
              have hmul : (c.val + 1) * 256 ^ rest.length ≤ b.val * 256 ^ rest.length :=
                Nat.mul_le_mul_right _ hbc
              rw [Nat.add_one_mul] at hmul
              omega

theorem beNat_replicate_zero (n : Nat) : beNat (List.replicate n 0) = 0 := by
  induction n with
  | zero => rfl
  | succ n ih => simp [List.replicate_succ, beNat, ih]

/-- Zeros are below all byte strings of their length. -/
theorem replicate_zero_le (l : List Byte) : List.replicate l.length 0 ≤ l := by
  refine not_lt.mp fun h => ?_
  rw [lt_iff_beNat_lt (by simp), beNat_replicate_zero] at h
  exact absurd h (Nat.not_lt_zero _)

/-- The loop adds one, and runs off the end exactly when there is no room. -/
theorem incrementReversed_beNat (l : List Byte) :
    (∀ m, incrementReversed l = some m → beNat m.reverse = beNat l.reverse + 1) ∧
      (incrementReversed l = none → beNat l.reverse + 1 = 256 ^ l.length) := by
  induction l with
  | nil => simp [incrementReversed, beNat]
  | cons char rest ih =>
      obtain ⟨ihSome, ihNone⟩ := ih
      simp only [incrementReversed, List.reverse_cons, beNat_append_singleton]
      by_cases hchar : char = 255
      · subst hchar
        simp only [ne_eq, not_true_eq_false, if_false, Option.map_eq_some_iff,
          Option.map_eq_none_iff]
        have h255 : ((255 : Byte) : Nat) = 255 := rfl
        refine ⟨?_, fun h => ?_⟩
        · rintro m ⟨m', hm', rfl⟩
          have := ihSome m' hm'
          simp only [List.reverse_cons, beNat_append_singleton, Fin.val_zero]
          omega
        · have := ihNone h
          rw [List.length_cons, pow_succ]
          omega
      · simp only [ne_eq, hchar, not_false_eq_true, if_true]
        refine ⟨?_, fun h => by simp at h⟩
        rintro m hm
        obtain rfl := Option.some.inj hm
        have hval : (char + 1).val = char.val + 1 := by
          have hlt : char.val ≠ 255 := fun h => hchar (Fin.ext h)
          have := char.isLt
          rw [Fin.val_add_one_of_lt]
          exact Fin.lt_def.mpr (by rw [Fin.val_last]; omega)
        simp only [List.reverse_cons, beNat_append_singleton, hval]
        omega

namespace Bytes

variable {n : Nat}

theorem lt_iff_beNat (v w : Bytes n) : v < w ↔ beNat v.toList < beNat w.toList :=
  lt_iff_beNat_lt (v.length_eq.trans w.length_eq.symm)

theorem le_iff_beNat (v w : Bytes n) : v ≤ w ↔ beNat v.toList ≤ beNat w.toList := by
  rw [← not_lt, lt_iff_beNat, not_lt]

theorem incrementByOne_some {v w : Bytes n} (h : incrementByOne v = some w) :
    beNat w.toList = beNat v.toList + 1 := by
  unfold incrementByOne at h
  split at h
  · cases h
  · rename_i out hout
    obtain rfl := Option.some.inj h
    simpa using (incrementReversed_beNat _).1 out hout

theorem incrementByOne_none {v : Bytes n} (h : incrementByOne v = none) :
    beNat v.toList + 1 = 256 ^ n := by
  unfold incrementByOne at h
  split at h
  · rename_i hout
    simpa [v.length_eq] using (incrementReversed_beNat _).2 hout
  · cases h

/-- Nothing lies between a byte string and its successor. -/
theorem eq_of_le_of_lt_increment {v w y : Bytes n} (h : incrementByOne v = some w)
    (hvy : v ≤ y) (hyw : y < w) : y = v := by
  rw [lt_iff_beNat, incrementByOne_some h] at hyw
  exact le_antisymm ((le_iff_beNat y v).mpr (by omega)) hvy

/-- Without a successor a byte string is the greatest of its length. -/
theorem eq_of_le_of_increment_none {v y : Bytes n} (h : incrementByOne v = none)
    (hvy : v ≤ y) : y = v := by
  have hlt := beNat_lt y.toList
  rw [y.length_eq, ← incrementByOne_none h] at hlt
  exact le_antisymm ((le_iff_beNat y v).mpr (by omega)) hvy

theorem lt_increment {v w : Bytes n} (h : incrementByOne v = some w) : v < w := by
  rw [lt_iff_beNat, incrementByOne_some h]
  omega

theorem beNat_inj {v w : Bytes n} (h : beNat v.toList = beNat w.toList) : v = w :=
  le_antisymm ((le_iff_beNat v w).mpr h.le) ((le_iff_beNat w v).mpr h.ge)

/-- Only the successor has the next big-endian value. -/
theorem incrementByOne_eq_some_iff (v w : Bytes n) :
    incrementByOne v = some w ↔ beNat w.toList = beNat v.toList + 1 := by
  constructor
  · exact incrementByOne_some
  · intro hw
    cases hv : incrementByOne v with
    | none =>
        -- without a successor there is no room for a greater value
        have hroom := beNat_lt w.toList
        rw [w.length_eq, ← incrementByOne_none hv, hw] at hroom
        exact absurd hroom (lt_irrefl _)
    | some w' =>
        have hw' := incrementByOne_some hv
        rw [beNat_inj (hw'.trans hw.symm)]

/-- The successor is the least of the greater byte strings. -/
theorem incrementByOne_eq_some_iff_isLeast (v w : Bytes n) :
    incrementByOne v = some w ↔ IsLeast {y | v < y} w := by
  constructor
  · intro h
    refine ⟨lt_increment h, fun y hy => ?_⟩
    have hvy : beNat v.toList < beNat y.toList := (lt_iff_beNat v y).mp hy
    rw [le_iff_beNat, incrementByOne_some h]
    omega
  · intro hw
    cases hv : incrementByOne v with
    | none => exact absurd (eq_of_le_of_increment_none hv (le_of_lt hw.1)) (ne_of_gt hw.1)
    | some w' =>
        have hle : w ≤ w' := hw.2 (lt_increment hv)
        have hge : ¬ w < w' := fun hlt =>
          ne_of_gt hw.1 (eq_of_le_of_lt_increment hv (le_of_lt hw.1) hlt)
        rw [le_antisymm hle (not_lt.mp hge)]

end Bytes

theorem incrementReversed_eq_none_iff (l : List Byte) :
    incrementReversed l = none ↔ ∀ b ∈ l, b = 255 := by
  induction l with
  | nil => simp [incrementReversed]
  | cons char rest ih =>
      by_cases hchar : char = 255
      · simp [incrementReversed, hchar, ih]
      · simp [incrementReversed, hchar]

theorem incrementByOne_eq_none_iff {n : Nat} (v : Bytes n) :
    incrementByOne v = none ↔ ∀ b ∈ v.toList, b = 255 := by
  have hloop := incrementReversed_eq_none_iff v.toList.reverse
  simp only [List.mem_reverse] at hloop
  rw [← hloop]
  unfold incrementByOne
  split
  · rename_i hnone
    simp [hnone]
  · rename_i out hsome
    simp [hsome]

/-- `increment_by_one` is the successor on byte strings of one length: it is
absent exactly when all bytes are 255, and otherwise it is the least greater
byte string, which is the one with the next big-endian value. From a value to
its successor there is only the value. -/
theorem increment_by_one_is_successor (n : Nat) (v : Bytes n) :
    (incrementByOne v = none ↔ ∀ b ∈ v.toList, b = 255) ∧
      (∀ w, incrementByOne v = some w ↔ IsLeast {y | v < y} w) ∧
      (∀ w, incrementByOne v = some w ↔ beNat w.toList = beNat v.toList + 1) ∧
      ∀ w, incrementByOne v = some w → ∀ y, (v ≤ y ∧ y < w) ↔ y = v := by
  refine ⟨incrementByOne_eq_none_iff v, Bytes.incrementByOne_eq_some_iff_isLeast v,
    Bytes.incrementByOne_eq_some_iff v, fun w hw y => ?_⟩
  constructor
  · rintro ⟨hvy, hyw⟩
    exact Bytes.eq_of_le_of_lt_increment hw hvy hyw
  · rintro rfl
    exact ⟨le_refl y, Bytes.lt_increment hw⟩

end IrohWillow
