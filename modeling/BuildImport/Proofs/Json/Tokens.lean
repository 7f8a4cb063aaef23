/-
Texts and numbers, written and scanned again.

- `string_quoted`: a text between quotes is scanned as itself, whatever characters it has and whatever follows.
- `numeral_digits`: a number written in digits is scanned as itself, unless it is too large to be held or what follows
  goes on with it; `isTooLarge_digits`: below `2 ^ 53` none is too large.
-/
import Mathlib.Tactic
import BuildImport.Json.Value
import BuildImport.Json.Scan

namespace BuildImport

open Json

namespace Scan

/-! ## Texts -/

theorem hexValue?_hexDigit {n : Nat} (h : n < 16) : hexValue? (hexDigit n) = some n := by
  have hall : ∀ k : Fin 16, hexValue? (hexDigit k) = some k.val := by decide
  exact hall ⟨n, h⟩

/-- a control is written with its code, and the code is read as the control -/
theorem unicodeEscape_control {c : Char} (h : c.toNat < 32) (rest : List Char) :
    unicodeEscape ('0' :: '0' :: hexDigit (c.toNat / 16) :: hexDigit (c.toNat % 16) :: rest) = .ok (c, rest) := by
  have hcode : hexCode ('0' :: '0' :: hexDigit (c.toNat / 16) :: hexDigit (c.toNat % 16) :: rest) =
      .ok (c.toNat, rest) := by
    have hzero : hexValue? '0' = some 0 := by decide
    simp only [hexCode, hzero, hexValue?_hexDigit (show c.toNat / 16 < 16 by omega),
      hexValue?_hexDigit (show c.toNat % 16 < 16 by omega)]
    congr 2
    omega
  have hlow : isLowSurrogate c.toNat = false := by
    simp only [isLowSurrogate, Bool.and_eq_false_iff, decide_eq_false_iff_not]
    omega
  have hhigh : isHighSurrogate c.toNat = false := by
    simp only [isHighSurrogate, Bool.and_eq_false_iff, decide_eq_false_iff_not]
    omega
  simp [unicodeEscape, hcode, bind, Except.bind, hlow, hhigh, pure, Except.pure]

/-- reading a written character gives the character -/
theorem readText_escape (fuel : Nat) (c : Char) (rest : List Char) :
    readText (fuel + 1) (escape c ++ rest) = do
      let (xs, rest) ← readText fuel rest
      return (c :: xs, rest) := by
  unfold escape
  split_ifs with hquote hslash hb hf hn hr ht hcontrol
  · subst hquote; rfl
  · subst hslash; rfl
  · subst hb; rfl
  · subst hf; rfl
  · subst hn; rfl
  · subst hr; rfl
  · subst ht; rfl
  · have hcode := unicodeEscape_control hcontrol rest
    simp only [List.cons_append, List.nil_append, readText, hcode]
    rfl
  · simp [readText, hquote, hslash, hcontrol]

theorem readText_escaped {fuel : Nat} {cs : List Char} (h : cs.length < fuel) (rest : List Char) :
    readText fuel (cs.flatMap escape ++ '"' :: rest) = .ok (cs, rest) := by
  induction cs generalizing fuel with
  | nil =>
    obtain ⟨fuel, rfl⟩ := Nat.exists_eq_succ_of_ne_zero (Nat.ne_of_gt h)
    rfl
  | cons c cs ih =>
    obtain ⟨fuel, rfl⟩ := Nat.exists_eq_succ_of_ne_zero (Nat.ne_of_gt (Nat.zero_lt_of_lt h))
    rw [List.flatMap_cons, List.append_assoc, readText_escape, ih (Nat.lt_of_succ_lt_succ h)]
    rfl

theorem length_le_flatMap_escape (cs : List Char) : cs.length ≤ (cs.flatMap escape).length := by
  induction cs with
  | nil => exact Nat.le_refl 0
  | cons c cs ih =>
    have hpos : 1 ≤ (escape c).length := by
      unfold escape
      split_ifs <;> simp
    rw [List.flatMap_cons, List.length_append, List.length_cons]
    omega

/-- **A text is scanned as it was written.** -/
theorem string_quoted (s : String) (rest : List Char) :
    string (s.toList.flatMap escape ++ '"' :: rest) = (.ok s, some rest) := by
  have hfuel : s.toList.length < (s.toList.flatMap escape ++ '"' :: rest).length + 1 := by
    have := length_le_flatMap_escape s.toList
    simp only [List.length_append, List.length_cons]
    omega
  rw [string, readText_escaped hfuel]
  simp only [String.ofList_toList]

/-! ## Numbers -/

/-- what cannot go on with a number -/
def EndsNumber (rest : List Char) : Prop :=
  ∀ c ∈ rest.head?, c.isDigit = false ∧ c ≠ '.' ∧ c ≠ 'e' ∧ c ≠ 'E'

theorem isDigit_of_mem_digits {n : Nat} {c : Char} (h : c ∈ digits n) : c.isDigit = true :=
  Nat.isDigit_of_mem_toDigits (by decide) (by decide) h

theorem digits_ne_nil (n : Nat) : digits n ≠ [] := by
  intro h
  rw [digits, Nat.toDigits_eq_if (by decide)] at h
  split at h <;> simp at h

theorem natOf_digits (n : Nat) : natOf (digits n) = n := by
  have hstep : (fun n d => n * 10 + digitValue d) = fun n (d : Char) => 10 * n + (d.toNat - '0'.toNat) := by
    funext n d
    rw [Nat.mul_comm, digitValue]
    rfl
  calc natOf (digits n) = Nat.ofDigitChars 10 (Nat.toDigits 10 n) 0 := by rw [natOf, hstep, digits, Nat.ofDigitChars]
    _ = n := Nat.ofDigitChars_ten_toDigits

/-- only zero starts with a zero, which then stands alone -/
theorem digits_head_zero {n : Nat} {ds : List Char} (h : digits n = '0' :: ds) : ds = [] := by
  induction n using Nat.strong_induction_on generalizing ds with
  | _ n ih =>
    rw [digits, Nat.toDigits_eq_if (by decide)] at h
    split at h
    · exact (List.cons.inj h).2.symm
    · next hlarge =>
      -- the front is a positive number of its own, which would be written as a zero alone
      exfalso
      cases hfront : Nat.toDigits 10 (n / 10) with
      | nil => exact digits_ne_nil (n / 10) hfront
      | cons c front =>
        rw [hfront] at h
        obtain rfl : c = '0' := (List.cons.inj h).1
        have hzero : front = [] := ih (n / 10) (by omega) hfront
        have hvalue := natOf_digits (n / 10)
        rw [digits, hfront, hzero] at hvalue
        have : n / 10 = 0 := by
          rw [← hvalue]
          rfl
        omega

theorem takeDigits_digits {n : Nat} {rest : List Char} (h : EndsNumber rest) :
    takeDigits (digits n ++ rest) = (digits n, rest) := by
  have htake : rest.takeWhile Char.isDigit = [] := by
    cases rest with
    | nil => rfl
    | cons c cs => exact List.takeWhile_cons_of_neg (by simp [(h c rfl).1])
  have hdrop : rest.dropWhile Char.isDigit = rest := by
    cases rest with
    | nil => rfl
    | cons c cs => exact List.dropWhile_cons_of_neg (by simp [(h c rfl).1])
  rw [takeDigits, List.takeWhile_append_of_pos fun c hc => isDigit_of_mem_digits hc,
    List.dropWhile_append_of_pos fun c hc => isDigit_of_mem_digits hc, htake, hdrop, List.append_nil]

theorem wholePart_digits {n : Nat} {rest : List Char} (h : EndsNumber rest) :
    wholePart (digits n ++ rest) = .ok (digits n, rest) := by
  have hsome : someDigits (digits n ++ rest) = .ok (digits n, rest) := by
    rw [someDigits, takeDigits_digits h]
    cases hds : digits n with
    | nil => exact absurd hds (digits_ne_nil n)
    | cons c ds => rfl
  rw [wholePart, hsome]
  simp only [bind, Except.bind]
  split
  · next c ds heq =>
    have := digits_head_zero heq
    simp at this
  · rfl

theorem fraction_of_endsNumber {rest : List Char} (h : EndsNumber rest) : fraction rest = .ok (none, rest) := by
  unfold fraction
  split
  · exact absurd rfl (h '.' rfl).2.1
  · rfl

theorem exponentPart_of_endsNumber {rest : List Char} (h : EndsNumber rest) : exponentPart rest = .ok (none, rest) := by
  cases rest with
  | nil => rfl
  | cons c cs =>
    obtain ⟨-, -, he, hE⟩ := h c rfl
    simp [exponentPart, he, hE]

/-- how large the number is that is written in the digits of `n` -/
def sizeOfDigits (n : Nat) : Magnitude := .ofDigits ((digits n).map digitValue) [] 0

/-- **A number is scanned as it was written**, or found too large. -/
theorem numeral_digits (n : Nat) {rest : List Char} (h : EndsNumber rest) :
    numeral false (digits n ++ rest) =
      (if (sizeOfDigits n).isTooLarge then flawed ⟨.malformed, none⟩ else number (some n), some rest) := by
  have hsize : Magnitude.ofDigits ((digits n).map digitValue) [] 0 = sizeOfDigits n := rfl
  unfold numeral
  simp only [wholePart_digits h, fraction_of_endsNumber h, exponentPart_of_endsNumber h, bind, Except.bind, pure,
    Except.pure, natOf_digits, Option.getD_none, List.map_nil, hsize]
  cases (sizeOfDigits n).isTooLarge <;> rfl

end Scan

namespace Magnitude

/-- digits whose number fits all go into the significand -/
theorem fill_eq {n : Nat} {ds : List Nat} (h : ds.foldl (fun n d => n * 10 + d) n < significandEnd) :
    fill n ds = (ds.foldl (fun n d => n * 10 + d) n, []) := by
  have hgrows : ∀ (ds : List Nat) (n : Nat), n ≤ ds.foldl (fun n d => n * 10 + d) n := by
    intro ds
    induction ds with
    | nil => exact fun n => Nat.le_refl n
    | cons d ds ih => exact fun n => Nat.le_trans (by omega) (ih (n * 10 + d))
  induction ds generalizing n with
  | nil => rfl
  | cons d ds ih =>
    have hfits : n * 10 + d < significandEnd := Nat.lt_of_le_of_lt (hgrows ds _) h
    rw [fill, if_pos hfits]
    exact ih h

end Magnitude

namespace Scan

/-- no number of at most fifty-three binary digits is too large -/
theorem isTooLarge_digits {n : Nat} (h : n < Nat.pow 2 53) : (sizeOfDigits n).isTooLarge = false := by
  have hvalue : ((digits n).map digitValue).foldl (fun n d => n * 10 + d) 0 = n := by
    rw [List.foldl_map]
    exact natOf_digits n
  have hend : Nat.pow 2 53 < Magnitude.significandEnd := by decide
  have hfill : Magnitude.fill 0 ((digits n).map digitValue) = (n, []) := by
    have hfits : ((digits n).map digitValue).foldl (fun n d => n * 10 + d) 0 < Magnitude.significandEnd := by
      rw [hvalue]
      omega
    rw [Magnitude.fill_eq hfits, hvalue]
  have hsize : sizeOfDigits n = ⟨n, 0⟩ := by
    rw [sizeOfDigits, Magnitude.ofDigits, hfill]
    rfl
  have hone : Magnitude.round 1 = 1 := Magnitude.round_of_lt (by decide)
  have hrange : Nat.pow 2 53 < Magnitude.rangeEnd := by
    have hbelow : ∀ k l m, 53 < k → l ≤ k → m = k + 1 → Nat.pow 2 53 < Nat.pow 2 m - Nat.pow 2 l := by
      rintro k l m hk hl rfl
      have hlarge : Nat.pow 2 53 < Nat.pow 2 k := Nat.pow_lt_pow_right (by decide) hk
      have hsmall : Nat.pow 2 l ≤ Nat.pow 2 k := Nat.pow_le_pow_right (by decide) hl
      have hdouble : Nat.pow 2 (k + 1) = Nat.pow 2 k * 2 := rfl
      generalize Nat.pow 2 (k + 1) = double at *
      omega
    unfold Magnitude.rangeEnd
    exact hbelow 1023 970 1024 (by decide) (by decide) rfl
  rw [hsize, Magnitude.isTooLarge]
  split_ifs with hzero
  · rfl
  · show (if 0 > 308 then true
      else decide (Magnitude.rangeEnd ≤ Magnitude.round n * Magnitude.round (Nat.pow 10 0))) = false
    have hten : Nat.pow 10 0 = 1 := rfl
    rw [if_neg (by decide), Magnitude.round_of_lt h, hten, hone, Nat.mul_one, decide_eq_false_iff_not]
    omega

end Scan

end BuildImport
