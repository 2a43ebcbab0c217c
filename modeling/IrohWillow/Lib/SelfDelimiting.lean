import Mathlib

/-!
# Self-delimiting encodings

An encoding is *self-delimiting* when the end of an encoded value can be told
without what follows it: from two values, each with something after it, the
same string can only come when the values are the same.

* `of_length`: values encoded in one length each, one string a value;
* `append`: one value after the other;
* `counted`: a list, of which the number of elements is written first.

The predicate restricts the values, for a header that has room for small
numbers only.
-/

/-- The end of an encoded value does not depend on what follows it. -/
def SelfDelimiting {α β : Type} (valid : α → Prop) (encode : α → List β) : Prop :=
  ∀ a b, valid a → valid b → ∀ r s, encode a ++ r = encode b ++ s → a = b ∧ r = s

namespace SelfDelimiting

variable {α β γ : Type} {valid : α → Prop} {encode : α → List β}

theorem injOn (h : SelfDelimiting valid encode) {a b : α} (ha : valid a) (hb : valid b)
    (heq : encode a = encode b) : a = b :=
  (h a b ha hb [] [] (congrArg (· ++ []) heq)).1

theorem of_length (length : Nat) (hlength : ∀ a, valid a → (encode a).length = length)
    (hinj : ∀ a b, valid a → valid b → encode a = encode b → a = b) :
    SelfDelimiting valid encode := by
  intro a b ha hb r s h
  have hlen : (encode a).length = (encode b).length := (hlength a ha).trans (hlength b hb).symm
  obtain ⟨hab, hrs⟩ := List.append_inj h hlen
  exact ⟨hinj a b ha hb hab, hrs⟩

theorem append {valid' : γ → Prop} {encode' : γ → List β} (h : SelfDelimiting valid encode)
    (h' : SelfDelimiting valid' encode') :
    SelfDelimiting (fun p : α × γ => valid p.1 ∧ valid' p.2)
      (fun p => encode p.1 ++ encode' p.2) := by
  rintro ⟨a, c⟩ ⟨b, d⟩ ⟨ha, hc⟩ ⟨hb, hd⟩ r s heq
  simp only [List.append_assoc] at heq
  obtain ⟨rfl, hrest⟩ := h a b ha hb _ _ heq
  obtain ⟨rfl, hrs⟩ := h' c d hc hd _ _ hrest
  exact ⟨rfl, hrs⟩

/-- Two lists of one length, element by element. -/
theorem flatMap_append_inj (h : SelfDelimiting valid encode) {l m : List α}
    (hlen : l.length = m.length) (hl : ∀ a ∈ l, valid a) (hm : ∀ a ∈ m, valid a) {r s : List β}
    (heq : l.flatMap encode ++ r = m.flatMap encode ++ s) : l = m ∧ r = s := by
  induction l generalizing m with
  | nil =>
      obtain rfl : m = [] := List.length_eq_zero_iff.mp hlen.symm
      exact ⟨rfl, heq⟩
  | cons a l ih =>
      cases m with
      | nil => simp at hlen
      | cons b m =>
          simp only [List.flatMap_cons, List.append_assoc] at heq
          obtain ⟨rfl, hrest⟩ := h a b (hl a List.mem_cons_self) (hm b List.mem_cons_self) _ _ heq
          obtain ⟨rfl, hrs⟩ := ih (by simpa using hlen) (fun c hc => hl c (List.mem_cons_of_mem _ hc))
            (fun c hc => hm c (List.mem_cons_of_mem _ hc)) hrest
          exact ⟨rfl, hrs⟩

theorem counted {count : Nat → Prop} {header : Nat → List β} (hheader : SelfDelimiting count header)
    (h : SelfDelimiting valid encode) :
    SelfDelimiting (fun l : List α => count l.length ∧ ∀ a ∈ l, valid a)
      (fun l => header l.length ++ l.flatMap encode) := by
  rintro l m ⟨hl, hlvalid⟩ ⟨hm, hmvalid⟩ r s heq
  simp only [List.append_assoc] at heq
  obtain ⟨hlen, hrest⟩ := hheader l.length m.length hl hm _ _ heq
  exact h.flatMap_append_inj hlen hlvalid hmvalid hrest

end SelfDelimiting
