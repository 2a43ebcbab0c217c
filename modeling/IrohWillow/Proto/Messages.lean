import IrohWillow.Lib.LengthPrefixed
import IrohWillow.Util.Channel

/-!
# Messages on the wire

`Encoder` and `Decoder` for `Message` of `proto/wgps/messages.rs`: the length
of the serialized message as four big-endian bytes, then the message in the
`postcard` format, which is a parameter here.
-/

namespace IrohWillow

open LengthPrefixed

/-- The functions of the `postcard` crate. -/
class Postcard (M : Type) where
  /-- `postcard::to_io`; its length is `serialized_size`. -/
  toIo : M → List Byte
  /-- `postcard::from_bytes`. -/
  fromBytes : List Byte → Option M

/-- `from_bytes` undoes `to_io`. -/
def Postcard.RoundTrips (M : Type) [Postcard M] : Prop :=
  ∀ m : M, fromBytes (toIo m) = some m

namespace Message

variable {M : Type} [Postcard M]

/-- `Message::encode_into`; the length is cut to 32 bits. -/
instance : Encoder M where
  encode m := toBeBytes ((Postcard.toIo m).length % 2 ^ 32) ++ Postcard.toIo m

/-- `Message::encoded_len`. -/
def encodedLen (m : M) : Nat := (Postcard.toIo m).length + 4

/-- `Message::decode_from`. -/
instance : Decoder M where
  decodeFrom data :=
    if data.length < 4 then .ok .needMoreData
    else
      let len := ofBeBytes (data.take 4)
      let stop := len + 4
      if data.length < stop then .ok .needMoreData
      else
        match Postcard.fromBytes ((data.take stop).drop 4) with
        | none => .error .malformed
        | some item => .ok (.decoded item stop)

theorem encode_eq (m : M) : Encoder.encode m = frame (Postcard.toIo m) := by
  have hmod (n : Nat) : toBeBytes (n % 2 ^ 32) = toBeBytes n := by
    have h1 : n % 2 ^ 32 / 2 ^ 24 % 256 = n / 2 ^ 24 % 256 := by omega
    have h2 : n % 2 ^ 32 / 2 ^ 16 % 256 = n / 2 ^ 16 % 256 := by omega
    have h3 : n % 2 ^ 32 / 2 ^ 8 % 256 = n / 2 ^ 8 % 256 := by omega
    have h4 : n % 2 ^ 32 % 256 = n % 256 := by omega
    simp only [toBeBytes, Fin.ofNat, h1, h2, h3, h4]
  show toBeBytes ((Postcard.toIo m).length % 2 ^ 32) ++ Postcard.toIo m = _
  rw [hmod, frame]

theorem length_encode (m : M) : (Encoder.encode m).length = encodedLen m := by
  rw [encode_eq, length_frame, encodedLen]

/-- Decoding is cutting off a frame and reading its body. -/
theorem decodeFrom_eq (data : List Byte) :
    Decoder.decodeFrom (T := M) data =
      match cut data with
      | none => .ok .needMoreData
      | some (body, consumed) =>
          match Postcard.fromBytes body with
          | none => .error .malformed
          | some item => .ok (.decoded item consumed) := by
  show (if data.length < 4 then _ else _) = _
  unfold cut frameEnd
  by_cases hheader : data.length < 4
  · rw [if_pos hheader, if_pos (Or.inl hheader)]
  · by_cases hbody : data.length < ofBeBytes (data.take 4) + 4
    · rw [if_neg hheader, if_pos (Or.inr hbody)]
      exact if_pos hbody
    · rw [if_neg hheader, if_neg (not_or.mpr ⟨hheader, hbody⟩)]
      exact if_neg hbody

@[simp] theorem decodeFrom_nil : Decoder.decodeFrom (T := M) [] = .ok .needMoreData := rfl

/-- The bytes that ask for more data: those with no whole frame. -/
theorem decodeFrom_eq_needMoreData_iff (data : List Byte) :
    Decoder.decodeFrom (T := M) data = .ok .needMoreData ↔ cut data = none := by
  rw [decodeFrom_eq]
  split
  · simp [*]
  · rename_i hcut
    rw [hcut]
    split <;> simp

theorem decodeFrom_eq_decoded_iff {data : List Byte} {item : M} {consumed : Nat} :
    Decoder.decodeFrom data = .ok (.decoded item consumed) ↔
      ∃ body, cut data = some (body, consumed) ∧ Postcard.fromBytes body = some item := by
  rw [decodeFrom_eq]
  cases hcut : cut data with
  | none => simp
  | some frame =>
      obtain ⟨body, stop⟩ := frame
      cases hbody : Postcard.fromBytes (M := M) body with
      | none => simp [hbody]
      | some item' => simp [hbody, and_comm]

/-- A message that is complete is decoded in the same way when more bytes
come. -/
theorem decodeFrom_append {data : List Byte} {item : M} {consumed : Nat}
    (h : Decoder.decodeFrom data = .ok (.decoded item consumed)) (rest : List Byte) :
    Decoder.decodeFrom (data ++ rest) = .ok (.decoded item consumed) := by
  obtain ⟨body, hcut, hbody⟩ := decodeFrom_eq_decoded_iff.mp h
  exact decodeFrom_eq_decoded_iff.mpr ⟨body, cut_append hcut rest, hbody⟩

/-! ## Sample messages -/

/-- `Message::ReconciliationTerminatePayload`, the thirteenth kind. -/
structure Sample where
  isFinal : Bool
  deriving DecidableEq

/-- Its `postcard` bytes: the index of the kind and the flag. -/
instance : Postcard Sample where
  toIo m := [12, if m.isFinal then 1 else 0]
  fromBytes
    | 12 :: 0 :: _ => some ⟨false⟩
    | 12 :: 1 :: _ => some ⟨true⟩
    | _ => none

theorem Sample.roundTrips : Postcard.RoundTrips Sample
  | ⟨false⟩ => rfl
  | ⟨true⟩ => rfl

example : Decoder.decodeFrom (T := Sample) (Encoder.encode (Sample.mk true) ++ [0, 0]) =
    .ok (.decoded ⟨true⟩ 6) := by decide

end Message

end IrohWillow
