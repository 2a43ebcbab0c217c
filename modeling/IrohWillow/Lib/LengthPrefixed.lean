import Mathlib

/-!
# Frames with a length header

A byte string is sent as a *frame*: its length in four big-endian bytes, then
the string. A reader that sees a beginning of a stream of frames either cuts
off the first frame or has to wait for more bytes.

* `ofBeBytes_toBeBytes`: the header is read back modulo `2 ^ 32`;
* `cut_frame_append`: a whole frame is cut off, whatever follows it;
* `cut_eq_none_of_isPrefix`: a beginning that is shorter than the frame waits.
-/

namespace LengthPrefixed

/-- The four big-endian bytes of a number, modulo `2 ^ 32`. -/
def toBeBytes (n : Nat) : List (Fin 256) :=
  [Fin.ofNat 256 (n / 2 ^ 24), Fin.ofNat 256 (n / 2 ^ 16), Fin.ofNat 256 (n / 2 ^ 8),
    Fin.ofNat 256 n]

/-- The number of four big-endian bytes. -/
def ofBeBytes : List (Fin 256) → Nat
  | [a, b, c, d] => a.val * 2 ^ 24 + b.val * 2 ^ 16 + c.val * 2 ^ 8 + d.val
  | _ => 0

@[simp] theorem length_toBeBytes (n : Nat) : (toBeBytes n).length = 4 := rfl

theorem ofBeBytes_toBeBytes (n : Nat) : ofBeBytes (toBeBytes n) = n % 2 ^ 32 := by
  show n / 2 ^ 24 % 256 * 2 ^ 24 + n / 2 ^ 16 % 256 * 2 ^ 16 + n / 2 ^ 8 % 256 * 2 ^ 8 +
    n % 256 = n % 2 ^ 32
  omega

/-- The frame of a byte string. -/
def frame (body : List (Fin 256)) : List (Fin 256) := toBeBytes body.length ++ body

@[simp] theorem length_frame (body : List (Fin 256)) : (frame body).length = body.length + 4 := by
  rw [frame, List.length_append, length_toBeBytes]
  omega

theorem frame_ne_nil (body : List (Fin 256)) : frame body ≠ [] := by
  intro h
  have := length_frame body
  rw [h] at this
  cases this

/-- Where the first frame ends, by its header. -/
def frameEnd (data : List (Fin 256)) : Nat := ofBeBytes (data.take 4) + 4

/-- The first frame and its length, when all its bytes are there. -/
def cut (data : List (Fin 256)) : Option (List (Fin 256) × Nat) :=
  if data.length < 4 ∨ data.length < frameEnd data then none
  else some ((data.take (frameEnd data)).drop 4, frameEnd data)

@[simp] theorem cut_nil : cut [] = none := rfl

/-- The header does not depend on what follows it. -/
theorem frameEnd_append {data : List (Fin 256)} (h : 4 ≤ data.length) (rest : List (Fin 256)) :
    frameEnd (data ++ rest) = frameEnd data := by
  rw [frameEnd, List.take_append_of_le_length h, frameEnd]

theorem frameEnd_of_isPrefix {data stream : List (Fin 256)} (h : data <+: stream)
    (hlen : 4 ≤ data.length) : frameEnd stream = frameEnd data := by
  obtain ⟨rest, rfl⟩ := h
  exact frameEnd_append hlen rest

theorem frameEnd_frame {body : List (Fin 256)} (h : body.length < 2 ^ 32)
    (rest : List (Fin 256)) : frameEnd (frame body ++ rest) = (frame body).length := by
  have htake : (frame body ++ rest).take 4 = toBeBytes body.length := by
    rw [frame, List.append_assoc, List.take_append_of_le_length (by simp)]
    rfl
  rw [frameEnd, htake, ofBeBytes_toBeBytes, Nat.mod_eq_of_lt h, length_frame]

/-- A frame is cut off, whatever follows it. -/
theorem cut_frame_append {body : List (Fin 256)} (h : body.length < 2 ^ 32)
    (rest : List (Fin 256)) :
    cut (frame body ++ rest) = some (body, (frame body).length) := by
  have hend := frameEnd_frame h rest
  have hlen : (frame body ++ rest).length = body.length + 4 + rest.length := by simp
  rw [cut, hend, if_neg (by rw [hlen, length_frame]; omega), List.take_left]
  rfl

/-- A beginning that is shorter than the frame has to wait. -/
theorem cut_eq_none_of_isPrefix {body data rest : List (Fin 256)} (h : body.length < 2 ^ 32)
    (hdata : data <+: frame body ++ rest) (hlen : data.length < (frame body).length) :
    cut data = none := by
  apply if_pos
  by_cases hheader : data.length < 4
  · exact Or.inl hheader
  · right
    rw [← frameEnd_of_isPrefix hdata (by omega), frameEnd_frame h rest]
    exact hlen

/-- A whole frame is cut off in the same way when more bytes come. -/
theorem cut_append {data : List (Fin 256)} {res : List (Fin 256) × Nat}
    (h : cut data = some res) (rest : List (Fin 256)) : cut (data ++ rest) = some res := by
  unfold cut at h
  split at h
  · cases h
  · rename_i hlen
    have hheader : 4 ≤ data.length := by omega
    rw [cut, frameEnd_append hheader rest, if_neg (by rw [List.length_append]; omega),
      List.take_append_of_le_length (by omega)]
    exact h

/-- What is cut off is a beginning of the data. -/
theorem cut_length_le {data body : List (Fin 256)} {consumed : Nat}
    (h : cut data = some (body, consumed)) :
    consumed = frameEnd data ∧ 4 ≤ consumed ∧ consumed ≤ data.length := by
  unfold cut at h
  split at h
  · cases h
  · rename_i hlen
    have hconsumed : consumed = frameEnd data := (Prod.mk.inj (Option.some.inj h)).2.symm
    refine ⟨hconsumed, ?_, ?_⟩
    · rw [hconsumed, frameEnd]
      omega
    · omega

/-- The bytes of the first frame are enough to cut it off. -/
theorem cut_take {data body : List (Fin 256)} {consumed : Nat}
    (h : cut data = some (body, consumed)) : cut (data.take consumed) = some (body, consumed) := by
  obtain ⟨hconsumed, hfour, hle⟩ := cut_length_le h
  have htake : (data.take consumed).length = consumed := List.length_take_of_le hle
  have hend : frameEnd (data.take consumed) = consumed := by
    rw [← frameEnd_of_isPrefix (List.take_prefix consumed data) (by omega), hconsumed]
  unfold cut at h ⊢
  rw [hend, if_neg (by omega)]
  split at h
  · cases h
  · rw [← hconsumed] at h
    rw [List.take_take, min_self]
    exact h

end LengthPrefixed
