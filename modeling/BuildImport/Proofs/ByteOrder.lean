/-
The order of texts and the order of their bytes.

Texts are compared letter by letter, files and arguments are sorted by their bytes in UTF-8. This is one order
(`bytes_lt_iff`): of two different letters the smaller one has the smaller byte at the first place where their bytes
differ, and both have one there (`firstLess_encode`). So what follows the letters does not matter.
-/
import Mathlib.Tactic
import Mathlib.Data.String.Basic

namespace BuildImport.Text

/-- the bytes of a text in UTF-8 -/
def bytes (s : String) : List UInt8 := s.toUTF8.data.toList

theorem bytes_eq (s : String) : bytes s = s.toList.flatMap String.utf8EncodeChar := by
  rw [bytes, String.toUTF8_eq_toByteArray, ← String.utf8Encode_toList, List.utf8Encode,
    List.toList_data_toByteArray]

/-- at the first place where the lists differ both go on, the first one with the smaller byte -/
def FirstLess (xs ys : List UInt8) : Prop :=
  ∃ front x y xs' ys', xs = front ++ x :: xs' ∧ ys = front ++ y :: ys' ∧ x < y

theorem firstLess_of_lt {m n : Nat} (h : m < n) (hn : n < 256) (xs ys : List UInt8) :
    FirstLess (UInt8.ofNat m :: xs) (UInt8.ofNat n :: ys) := by
  refine ⟨[], UInt8.ofNat m, UInt8.ofNat n, xs, ys, rfl, rfl, ?_⟩
  rw [UInt8.lt_iff_toNat_lt, UInt8.toNat_ofNat', UInt8.toNat_ofNat']
  omega

/-- the first byte decides, or the rest where it is the same -/
theorem firstLess_cons {m n : Nat} {xs ys : List UInt8} (hle : m ≤ n) (hn : n < 256) (h : m = n → FirstLess xs ys) :
    FirstLess (UInt8.ofNat m :: xs) (UInt8.ofNat n :: ys) := by
  rcases lt_or_eq_of_le hle with hlt | heq
  · exact firstLess_of_lt hlt hn xs ys
  · obtain ⟨front, x, y, xs', ys', rfl, rfl, hlt⟩ := h heq
    exact ⟨UInt8.ofNat n :: front, x, y, xs', ys', by rw [heq]; rfl, rfl, hlt⟩

/-- **A smaller character has smaller bytes**, and its bytes are no beginning of those of another one. -/
theorem firstLess_encode {c d : Char} (h : c < d) : FirstLess (String.utf8EncodeChar c) (String.utf8EncodeChar d) := by
  have hd : d.val.toNat < 0x110000 := by
    rcases d.valid with hv | ⟨-, hv⟩
    · exact hv.trans (by decide)
    · exact hv
  have hlt : c.val.toNat < d.val.toNat := h
  rw [String.utf8EncodeChar.eq_1, String.utf8EncodeChar.eq_1]
  generalize c.val.toNat = m at hlt ⊢
  generalize d.val.toNat = n at hlt hd ⊢
  -- the smaller one has no more bytes; where it has fewer, the first byte tells
  split_ifs
  all_goals try omega
  · exact firstLess_of_lt (by omega) (by omega) _ _
  · exact firstLess_of_lt (by omega) (by omega) _ _
  · exact firstLess_of_lt (by omega) (by omega) _ _
  · exact firstLess_of_lt (by omega) (by omega) _ _
  · refine firstLess_cons (by omega) (by omega) fun h₁ => ?_
    exact firstLess_of_lt (by omega) (by omega) _ _
  · exact firstLess_of_lt (by omega) (by omega) _ _
  · exact firstLess_of_lt (by omega) (by omega) _ _
  · refine firstLess_cons (by omega) (by omega) fun h₁ => ?_
    refine firstLess_cons (by omega) (by omega) fun h₂ => ?_
    exact firstLess_of_lt (by omega) (by omega) _ _
  · exact firstLess_of_lt (by omega) (by omega) _ _
  · refine firstLess_cons (by omega) (by omega) fun h₁ => ?_
    refine firstLess_cons (by omega) (by omega) fun h₂ => ?_
    refine firstLess_cons (by omega) (by omega) fun h₃ => ?_
    exact firstLess_of_lt (by omega) (by omega) _ _

theorem FirstLess.append_lt {xs ys : List UInt8} (h : FirstLess xs ys) (as bs : List UInt8) : xs ++ as < ys ++ bs := by
  obtain ⟨front, x, y, xs', ys', rfl, rfl, hlt⟩ := h
  rw [List.append_assoc, List.append_assoc]
  induction front with
  | nil => exact List.cons_lt_cons_iff.2 (.inl hlt)
  | cons z front ih => exact List.cons_lt_cons_iff.2 (.inr ⟨rfl, ih⟩)

theorem append_lt_append {xs ys : List UInt8} (front : List UInt8) (h : xs < ys) : front ++ xs < front ++ ys := by
  induction front with
  | nil => exact h
  | cons z front ih => exact List.cons_lt_cons_iff.2 (.inr ⟨rfl, ih⟩)

theorem flatMap_encode_lt {s t : List Char} (h : s < t) :
    s.flatMap String.utf8EncodeChar < t.flatMap String.utf8EncodeChar := by
  induction s generalizing t with
  | nil =>
    cases t with
    | nil => exact absurd h (List.lt_irrefl _)
    | cons d t =>
      obtain ⟨b, bs, hb⟩ := List.exists_cons_of_ne_nil (String.utf8EncodeChar_ne_nil (c := d))
      rw [List.flatMap_cons, hb]
      exact List.nil_lt_cons _ _
  | cons c s ih =>
    cases t with
    | nil => exact absurd h (List.not_lt_nil _)
    | cons d t =>
      rw [List.flatMap_cons, List.flatMap_cons]
      rcases List.cons_lt_cons_iff.1 h with hlt | ⟨rfl, hlt⟩
      · exact (firstLess_encode hlt).append_lt _ _
      · exact append_lt_append _ (ih hlt)

/-- **The order of texts is the order of their bytes.** -/
theorem bytes_lt_iff {s t : String} : bytes s < bytes t ↔ s < t := by
  have hmono : ∀ {a b : String}, a < b → bytes a < bytes b := by
    intro a b hab
    rw [bytes_eq, bytes_eq]
    exact flatMap_encode_lt (String.lt_iff_toList_lt.1 hab)
  constructor
  · intro h
    rcases lt_trichotomy s t with hlt | rfl | hgt
    · exact hlt
    · exact absurd h (List.lt_irrefl _)
    · exact absurd h (List.lt_asymm (hmono hgt))
  · exact hmono

end BuildImport.Text
