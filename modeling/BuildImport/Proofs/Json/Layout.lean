/-
Values, written and scanned again.

A value has many texts, since any blanks may stand between its parts (`Written`). The two written forms are two of them:
a `Layout` says which blanks they have.

- `value_written`: what is written is scanned as the value, whatever its blanks and whatever follows, unless it goes on
  with a number.
- `ofText_of_textOf`: so a whole text is, with blanks around it.
- `written_chars`, `chars_compact`, `chars_pretty`: a layout gives a text of a value, and the two forms are two layouts.
-/
import BuildImport.Proofs.Json.Tokens

namespace BuildImport

open Json

namespace Scan

/-! ## Blanks -/

/-- a piece of white space -/
def Blank (cs : List Char) : Prop := ∀ c ∈ cs, isSpace c = true

theorem blank_nil : Blank [] := by simp [Blank]

theorem skipSpace_append {blank cs : List Char} (h : Blank blank) : skipSpace (blank ++ cs) = skipSpace cs :=
  List.dropWhile_append_of_pos h

theorem skipSpace_cons {c : Char} {cs : List Char} (h : isSpace c = false) : skipSpace (c :: cs) = c :: cs :=
  List.dropWhile_cons_of_neg (by simp [h])

/-- blanks are skipped up to the next character -/
theorem skipSpace_blank {blank : List Char} {c : Char} {cs : List Char} (h : Blank blank) (hc : isSpace c = false) :
    skipSpace (blank ++ c :: cs) = c :: cs := by
  rw [skipSpace_append h, skipSpace_cons hc]

theorem endsNumber_cons {c : Char} {cs : List Char} (h : c.isDigit = false ∧ c ≠ '.' ∧ c ≠ 'e' ∧ c ≠ 'E') :
    EndsNumber (c :: cs) := by
  rintro _ ⟨⟩
  exact h

theorem endsNumber_blank {blank cs : List Char} (h : Blank blank) (hcs : EndsNumber cs) : EndsNumber (blank ++ cs) := by
  cases blank with
  | nil => exact hcs
  | cons c blank =>
    have hspace := h c List.mem_cons_self
    simp only [isSpace, Bool.or_eq_true, decide_eq_true_eq] at hspace
    apply endsNumber_cons
    rcases hspace with ((rfl | rfl) | rfl) | rfl <;> decide

/-! ## One step of the scan -/

theorem value_blank {blank cs : List Char} (h : Blank blank) (fuel : Nat) : value fuel (blank ++ cs) = value fuel cs := by
  cases fuel with
  | zero => rfl
  | succ fuel => rw [value, value, skipSpace_append h]

theorem quoted_append (s : String) (rest : List Char) :
    quoted s ++ rest = '"' :: (s.toList.flatMap escape ++ '"' :: rest) := by
  simp [quoted]

theorem value_text (fuel : Nat) (s : String) (rest : List Char) :
    value (fuel + 1) (quoted s ++ rest) = (text s, some rest) := by
  rw [quoted_append, value, skipSpace_cons (by decide)]
  simp only [string_quoted]

theorem isSpace_of_isDigit {c : Char} (h : c.isDigit = true) : isSpace c = false := by
  by_contra hc
  simp only [isSpace, Bool.not_eq_false, Bool.or_eq_true, decide_eq_true_eq] at hc
  rcases hc with ((rfl | rfl) | rfl) | rfl <;> simp at h

theorem value_number (fuel n : Nat) (rest : List Char) :
    value (fuel + 1) (digits n ++ rest) = numeral false (digits n ++ rest) := by
  cases hds : digits n with
  | nil => exact absurd hds (digits_ne_nil n)
  | cons c ds =>
    have hdigit : c.isDigit = true := isDigit_of_mem_digits (hds ▸ List.mem_cons_self)
    rw [List.cons_append, value, skipSpace_cons (isSpace_of_isDigit hdigit)]
    split
    -- a digit starts no other value
    case h_9 heq =>
      obtain ⟨rfl, rfl⟩ := List.cons.inj heq
      rw [if_pos hdigit]
    all_goals
      simp_all

theorem value_array {c : Char} {cs rest : List Char} (hcs : skipSpace cs = c :: rest) (hc : c ≠ ']') (fuel : Nat) :
    value (fuel + 1) ('[' :: cs) =
      (array (elements fuel (c :: rest)).1 (elements fuel (c :: rest)).2.1, (elements fuel (c :: rest)).2.2) := by
  rw [value, skipSpace_cons (by decide)]
  simp only [hcs]
  split
  · contradiction
  · next heq => exact absurd (List.cons.inj heq).1 hc
  · rfl

theorem value_object {cs rest : List Char} (hcs : skipSpace cs = '"' :: rest) (fuel : Nat) :
    value (fuel + 1) ('{' :: cs) =
      (object (members fuel rest).1 (members fuel rest).2.1, (members fuel rest).2.2) := by
  rw [value, skipSpace_cons (by decide)]
  simp only [hcs]

theorem elements_last {fuel : Nat} {cs rest after : List Char} {v : Scan} (hv : value fuel cs = (v, some rest))
    (hclose : skipSpace rest = ']' :: after) : elements (fuel + 1) cs = ([v], none, some after) := by
  simp only [elements, hv, hclose]
  rfl

theorem elements_more {fuel : Nat} {c : Char} {cs rest next more : List Char} {v : Scan}
    (hv : value fuel cs = (v, some rest)) (hcomma : skipSpace rest = ',' :: next) (hnext : skipSpace next = c :: more)
    (hc : c ≠ ']') :
    elements (fuel + 1) cs =
      (v :: (elements fuel (c :: more)).1, (elements fuel (c :: more)).2.1, (elements fuel (c :: more)).2.2) := by
  simp only [elements, hv, hcomma, hnext]
  split
  · next heq => exact absurd (List.cons.inj heq).1 hc
  · rfl

theorem members_last {fuel : Nat} {cs colon rest next after : List Char} {k : String} {v : Scan}
    (hk : string cs = (.ok k, some colon)) (hcolon : skipSpace colon = ':' :: rest)
    (hv : value fuel rest = (v, some next)) (hclose : skipSpace next = '}' :: after) :
    members (fuel + 1) cs = ([(.ok k, v)], none, some after) := by
  simp only [members, hk, hcolon, hv, hclose]
  rfl

theorem members_more {fuel : Nat} {cs colon rest next later more : List Char} {k : String} {v : Scan}
    (hk : string cs = (.ok k, some colon)) (hcolon : skipSpace colon = ':' :: rest)
    (hv : value fuel rest = (v, some next)) (hcomma : skipSpace next = ',' :: later)
    (hlater : skipSpace later = '"' :: more) :
    members (fuel + 1) cs =
      ((.ok k, v) :: (members fuel more).1, (members fuel more).2.1, (members fuel more).2.2) := by
  simp only [members, hk, hcolon, hv, hcomma, hlater]

/-! ## The scan of a value -/

mutual
/-- what a value is scanned as; a number that is too large to be held is a flaw -/
def ofJson : Json → Scan
  | .null => null
  | .bool b => bool b
  | .number n => if (sizeOfDigits n).isTooLarge then flawed ⟨.malformed, none⟩ else number (some n)
  | .text s => text s
  | .array vs => array (ofItems vs) none
  | .object ms => object (ofMembers ms) none

def ofItems : List Json → List Scan
  | [] => []
  | v :: vs => ofJson v :: ofItems vs

def ofMembers : List (String × Json) → List (Except Flaw String × Scan)
  | [] => []
  | (k, v) :: ms => (.ok k, ofJson v) :: ofMembers ms
end

/-! ## Texts of a value -/

mutual
/-- texts of a value: any blanks may stand between its parts -/
inductive Written : Json → List Char → Prop
  | null : Written .null ['n', 'u', 'l', 'l']
  | yes : Written (.bool true) ['t', 'r', 'u', 'e']
  | no : Written (.bool false) ['f', 'a', 'l', 's', 'e']
  | number (n : Nat) : Written (.number n) (digits n)
  | text (s : String) : Written (.text s) (quoted s)
  | noElements {blank : List Char} : Blank blank → Written (.array []) ('[' :: (blank ++ [']']))
  | array {vs : List Json} {blank cs : List Char} :
      Blank blank → WrittenElements vs cs → Written (.array vs) ('[' :: (blank ++ cs))
  | noMembers {blank : List Char} : Blank blank → Written (.object []) ('{' :: (blank ++ ['}']))
  | object {ms : List (String × Json)} {blank cs : List Char} :
      Blank blank → WrittenMembers ms cs → Written (.object ms) ('{' :: (blank ++ '"' :: cs))

/-- the elements of an array, with the bracket that closes it -/
inductive WrittenElements : List Json → List Char → Prop
  | last {v : Json} {cs blank : List Char} : Written v cs → Blank blank → WrittenElements [v] (cs ++ (blank ++ [']']))
  | more {v : Json} {vs : List Json} {cs blank blank' rest : List Char} :
      Written v cs → Blank blank → Blank blank' → WrittenElements vs rest →
      WrittenElements (v :: vs) (cs ++ (blank ++ ',' :: (blank' ++ rest)))

/-- the members of an object, with the bracket that closes it; the quote that opens the first key is gone -/
inductive WrittenMembers : List (String × Json) → List Char → Prop
  | last {k : String} {v : Json} {colon gap cs blank : List Char} :
      Blank colon → Blank gap → Written v cs → Blank blank →
      WrittenMembers [(k, v)] (k.toList.flatMap escape ++ '"' :: (colon ++ ':' :: (gap ++ (cs ++ (blank ++ ['}'])))))
  | more {k : String} {v : Json} {ms : List (String × Json)} {colon gap cs blank blank' rest : List Char} :
      Blank colon → Blank gap → Written v cs → Blank blank → Blank blank' → WrittenMembers ms rest →
      WrittenMembers ((k, v) :: ms)
        (k.toList.flatMap escape ++
          '"' :: (colon ++ ':' :: (gap ++ (cs ++ (blank ++ ',' :: (blank' ++ '"' :: rest))))))
end

/-- a value starts with no blank, and not with the end of an array -/
theorem Written.exists_cons {v : Json} {cs : List Char} (h : Written v cs) :
    ∃ c rest, cs = c :: rest ∧ isSpace c = false ∧ c ≠ ']' := by
  cases h with
  | number n =>
    cases hds : digits n with
    | nil => exact absurd hds (digits_ne_nil n)
    | cons c ds =>
      have hdigit : c.isDigit = true := isDigit_of_mem_digits (hds ▸ List.mem_cons_self)
      refine ⟨c, ds, rfl, isSpace_of_isDigit hdigit, ?_⟩
      rintro rfl
      simp at hdigit
  | null | yes | no | text | noElements | array | noMembers | object =>
    exact ⟨_, _, rfl, by decide, by decide⟩

theorem WrittenElements.exists_cons {vs : List Json} {cs : List Char} (h : WrittenElements vs cs) :
    ∃ c rest, cs = c :: rest ∧ isSpace c = false ∧ c ≠ ']' := by
  cases h with
  | last hv _ | more hv _ _ _ =>
    obtain ⟨c, rest, rfl, hc⟩ := hv.exists_cons
    exact ⟨c, _, rfl, hc⟩

-- By induction on the fuel, as the scan goes. Elements and their values spend it alike, so two units to a character are
-- enough.
mutual
/-- **What is written is scanned as the value**, whatever blanks it has. -/
theorem value_written {v : Json} {cs : List Char} (h : Written v cs) {fuel : Nat} {rest : List Char}
    (hfuel : 2 * cs.length ≤ fuel) (hrest : EndsNumber rest) : value fuel (cs ++ rest) = (ofJson v, some rest) := by
  match fuel with
  | 0 =>
    obtain ⟨c, cs, rfl, -⟩ := h.exists_cons
    simp at hfuel
  | fuel + 1 =>
    match h with
    | .null | .yes | .no => rfl
    | .number n => rw [value_number, numeral_digits n hrest, ofJson]
    | .text s => exact value_text fuel s rest
    | .noElements hblank =>
      rw [List.cons_append, List.append_assoc, value, skipSpace_cons (by decide)]
      simp only [List.singleton_append, skipSpace_blank hblank (show isSpace ']' = false by decide)]
      rfl
    | @Written.array vs blank cs hblank hvs =>
      simp only [List.length_cons, List.length_append] at hfuel
      obtain ⟨c, tail, htext, hspace, hc⟩ := hvs.exists_cons
      have hskip : skipSpace (blank ++ (cs ++ rest)) = c :: (tail ++ rest) := by
        rw [htext]
        exact skipSpace_blank hblank hspace
      have hscan : elements fuel (cs ++ rest) = (ofItems vs, none, some rest) := elements_written hvs (by omega)
      rw [htext, List.cons_append] at hscan
      rw [List.cons_append, List.append_assoc, value_array hskip hc, hscan]
      rfl
    | .noMembers hblank =>
      rw [List.cons_append, List.append_assoc, value, skipSpace_cons (by decide)]
      simp only [List.singleton_append, skipSpace_blank hblank (show isSpace '}' = false by decide)]
      rfl
    | @Written.object ms blank cs hblank hms =>
      simp only [List.length_cons, List.length_append] at hfuel
      have hskip : skipSpace (blank ++ '"' :: (cs ++ rest)) = '"' :: (cs ++ rest) := skipSpace_blank hblank (by decide)
      rw [List.cons_append, List.append_assoc, List.cons_append, value_object hskip,
        members_written hms (show 2 * cs.length < fuel by omega)]
      rfl

theorem elements_written {vs : List Json} {cs : List Char} (h : WrittenElements vs cs) {fuel : Nat} {rest : List Char}
    (hfuel : 2 * cs.length < fuel) : elements fuel (cs ++ rest) = (ofItems vs, none, some rest) := by
  match fuel with
  | 0 => omega
  | fuel + 1 =>
    match h with
    | @WrittenElements.last v cs blank hv hblank =>
      simp only [List.length_append, List.length_singleton] at hfuel
      have hend : EndsNumber (blank ++ ']' :: rest) := endsNumber_blank hblank (endsNumber_cons (by decide))
      have hclose : skipSpace (blank ++ ']' :: rest) = ']' :: rest := skipSpace_blank hblank (by decide)
      rw [List.append_assoc, List.append_assoc]
      exact elements_last (value_written hv (by omega) hend) hclose
    | @WrittenElements.more v vs cs blank blank' more hv hblank hblank' hvs =>
      simp only [List.length_append, List.length_cons] at hfuel
      have hend : EndsNumber (blank ++ ',' :: (blank' ++ (more ++ rest))) :=
        endsNumber_blank hblank (endsNumber_cons (by decide))
      obtain ⟨c, tail, htext, hspace, hc⟩ := hvs.exists_cons
      have hskip : skipSpace (blank' ++ (more ++ rest)) = c :: (tail ++ rest) := by
        rw [htext]
        exact skipSpace_blank hblank' hspace
      have hscan : elements fuel (more ++ rest) = (ofItems vs, none, some rest) := elements_written hvs (by omega)
      rw [htext, List.cons_append] at hscan
      simp only [List.append_assoc, List.cons_append]
      rw [elements_more (value_written hv (by omega) hend) (skipSpace_blank hblank (by decide)) hskip hc, hscan]
      rfl

theorem members_written {ms : List (String × Json)} {cs : List Char} (h : WrittenMembers ms cs) {fuel : Nat}
    {rest : List Char} (hfuel : 2 * cs.length < fuel) : members fuel (cs ++ rest) = (ofMembers ms, none, some rest) := by
  match fuel with
  | 0 => omega
  | fuel + 1 =>
    match h with
    | @WrittenMembers.last k v colon gap cs blank hcolon hgap hv hblank =>
      simp only [List.length_append, List.length_cons] at hfuel
      have hend : EndsNumber (blank ++ '}' :: rest) := endsNumber_blank hblank (endsNumber_cons (by decide))
      have hvalue : value fuel (gap ++ (cs ++ (blank ++ '}' :: rest))) = (ofJson v, some (blank ++ '}' :: rest)) := by
        rw [value_blank hgap]
        exact value_written hv (by omega) hend
      simp only [List.append_assoc, List.cons_append, List.nil_append]
      exact members_last (string_quoted k _) (skipSpace_blank hcolon (by decide)) hvalue
        (skipSpace_blank hblank (by decide))
    | @WrittenMembers.more k v ms colon gap cs blank blank' more hcolon hgap hv hblank hblank' hms =>
      simp only [List.length_append, List.length_cons] at hfuel
      have hend : EndsNumber (blank ++ ',' :: (blank' ++ '"' :: (more ++ rest))) :=
        endsNumber_blank hblank (endsNumber_cons (by decide))
      have hvalue : value fuel (gap ++ (cs ++ (blank ++ ',' :: (blank' ++ '"' :: (more ++ rest))))) =
          (ofJson v, some (blank ++ ',' :: (blank' ++ '"' :: (more ++ rest)))) := by
        rw [value_blank hgap]
        exact value_written hv (by omega) hend
      simp only [List.append_assoc, List.cons_append]
      rw [members_more (string_quoted k _) (skipSpace_blank hcolon (by decide)) hvalue
          (skipSpace_blank hblank (by decide)) (skipSpace_blank hblank' (by decide)),
        members_written hms (by omega)]
      rfl
end

end Scan

/-! ## Layouts -/

/-- the blanks between the parts of a written value -/
structure Layout where
  /-- what a part that stands so deep starts with -/
  line : Nat → List Char
  /-- what stands between a colon and its value -/
  gap : List Char
  line_blank : ∀ depth, Scan.Blank (line depth)
  gap_blank : Scan.Blank gap

namespace Layout

def compact : Layout where
  line _ := []
  gap := []
  line_blank _ := Scan.blank_nil
  gap_blank := Scan.blank_nil

@[simp] theorem compact_line (depth : Nat) : compact.line depth = [] := rfl

@[simp] theorem compact_gap : compact.gap = [] := rfl

def pretty : Layout where
  line := newLine
  gap := [' ']
  line_blank depth := by
    intro c hc
    rcases List.mem_cons.1 hc with rfl | hc
    · decide
    · rw [List.eq_of_mem_replicate hc]
      decide
  gap_blank := by simp [Scan.Blank, Scan.isSpace]

@[simp] theorem pretty_line (depth : Nat) : pretty.line depth = newLine depth := rfl

@[simp] theorem pretty_gap : pretty.gap = [' '] := rfl

mutual
/-- a value that stands `depth` steps in -/
def chars (l : Layout) (depth : Nat) : Json → List Char
  | .null => ['n', 'u', 'l', 'l']
  | .bool true => ['t', 'r', 'u', 'e']
  | .bool false => ['f', 'a', 'l', 's', 'e']
  | .number n => digits n
  | .text s => quoted s
  | .array [] => ['[', ']']
  | .array (v :: vs) =>
    '[' :: l.line (depth + 1) ++ l.chars (depth + 1) v ++ l.itemChars (depth + 1) vs ++ l.line depth ++ [']']
  | .object [] => ['{', '}']
  | .object ((k, v) :: ms) =>
    '{' :: l.line (depth + 1) ++ quoted k ++ ':' :: l.gap ++ l.chars (depth + 1) v ++ l.memberChars (depth + 1) ms ++
      l.line depth ++ ['}']

/-- the elements after the first -/
def itemChars (l : Layout) (depth : Nat) : List Json → List Char
  | [] => []
  | v :: vs => ',' :: l.line depth ++ l.chars depth v ++ l.itemChars depth vs

/-- the members after the first -/
def memberChars (l : Layout) (depth : Nat) : List (String × Json) → List Char
  | [] => []
  | (k, v) :: ms => ',' :: l.line depth ++ quoted k ++ ':' :: l.gap ++ l.chars depth v ++ l.memberChars depth ms
end

/-! ## The two written forms -/

mutual
theorem chars_compact (depth : Nat) : ∀ v : Json, compact.chars depth v = compactChars v
  | .null | .bool true | .bool false | .number _ | .text _ | .array [] | .object [] => by simp [chars, compactChars]
  | .array (v :: vs) => by simp [chars, compactChars, chars_compact, items_compact]
  | .object ((k, v) :: ms) => by simp [chars, compactChars, chars_compact, members_compact]

theorem items_compact (depth : Nat) : ∀ vs : List Json, compact.itemChars depth vs = compactItems vs
  | [] => rfl
  | v :: vs => by simp [itemChars, compactItems, chars_compact, items_compact]

theorem members_compact (depth : Nat) : ∀ ms : List (String × Json), compact.memberChars depth ms = compactMembers ms
  | [] => rfl
  | (k, v) :: ms => by simp [memberChars, compactMembers, chars_compact, members_compact]
end

mutual
theorem chars_pretty (depth : Nat) : ∀ v : Json, pretty.chars depth v = prettyChars depth v
  | .null | .bool true | .bool false | .number _ | .text _ | .array [] | .object [] => by simp [chars, prettyChars]
  | .array (v :: vs) => by simp [chars, prettyChars, chars_pretty, items_pretty]
  | .object ((k, v) :: ms) => by simp [chars, prettyChars, chars_pretty, members_pretty]

theorem items_pretty (depth : Nat) : ∀ vs : List Json, pretty.itemChars depth vs = prettyItems depth vs
  | [] => rfl
  | v :: vs => by simp [itemChars, prettyItems, chars_pretty, items_pretty]

theorem members_pretty (depth : Nat) : ∀ ms : List (String × Json), pretty.memberChars depth ms = prettyMembers depth ms
  | [] => rfl
  | (k, v) :: ms => by simp [memberChars, prettyMembers, chars_pretty, members_pretty]
end

open Scan

mutual
/-- **A layout gives one of the texts of a value.** -/
theorem written_chars (l : Layout) (depth : Nat) : ∀ v : Json, Written v (l.chars depth v)
  | .null => .null
  | .bool true => .yes
  | .bool false => .no
  | .number n => .number n
  | .text s => .text s
  | .array [] => .noElements blank_nil
  | .array (v :: vs) => by
    have hvs := written_items l (depth + 1) vs (written_chars l (depth + 1) v) (l.line_blank depth)
    simpa [chars] using Written.array (l.line_blank (depth + 1)) hvs
  | .object [] => .noMembers blank_nil
  | .object ((k, v) :: ms) => by
    have hms := written_members l (depth + 1) ms k (written_chars l (depth + 1) v) (l.line_blank depth)
    simpa [chars, quoted] using Written.object (l.line_blank (depth + 1)) hms

theorem written_items (l : Layout) (depth : Nat) : ∀ (vs : List Json) {v : Json} {cs blank : List Char}, Written v cs →
    Blank blank → WrittenElements (v :: vs) (cs ++ (l.itemChars depth vs ++ (blank ++ [']'])))
  | [], _, _, _, hv, hblank => .last hv hblank
  | v' :: vs, _, _, _, hv, hblank => by
    have hvs := written_items l depth vs (written_chars l depth v') hblank
    simpa [itemChars] using WrittenElements.more hv blank_nil (l.line_blank depth) hvs

theorem written_members (l : Layout) (depth : Nat) : ∀ (ms : List (String × Json)) (k : String) {v : Json}
    {cs blank : List Char}, Written v cs → Blank blank →
    WrittenMembers ((k, v) :: ms)
      (k.toList.flatMap escape ++ '"' :: ':' :: (l.gap ++ (cs ++ (l.memberChars depth ms ++ (blank ++ ['}'])))))
  | [], _, _, _, _, hv, hblank => .last blank_nil l.gap_blank hv hblank
  | (k', v') :: ms, _, _, _, _, hv, hblank => by
    have hms := written_members l depth ms k' (written_chars l depth v') hblank
    simpa [memberChars, quoted] using
      WrittenMembers.more blank_nil l.gap_blank hv blank_nil (l.line_blank depth) hms
end

end Layout

/-! ## Whole texts -/

namespace Scan

/-- the texts of a value, with blanks before and after it -/
def TextOf (v : Json) (s : String) : Prop :=
  ∃ blank cs blank', s.toList = blank ++ (cs ++ blank') ∧ Blank blank ∧ Written v cs ∧ Blank blank'

/-- **A text of a value is scanned as the value**, and only blanks are left. -/
theorem ofText_of_textOf {v : Json} {s : String} (h : TextOf v s) :
    ∃ blank, Blank blank ∧ ofText s = (ofJson v, some blank) := by
  obtain ⟨blank, cs, blank', htext, hblank, hwritten, hblank'⟩ := h
  have hend : EndsNumber blank' := by
    rw [← List.append_nil blank']
    exact endsNumber_blank hblank' (by simp [EndsNumber])
  refine ⟨blank', hblank', ?_⟩
  rw [ofText, htext, value_blank hblank]
  apply value_written hwritten _ hend
  rw [← String.length_toList, htext, List.length_append, List.length_append]
  omega

/-- a layout gives a text of a value -/
theorem textOf_chars (l : Layout) (v : Json) : TextOf v (String.ofList (l.chars 0 v)) :=
  ⟨[], _, [], by simp, blank_nil, l.written_chars 0 v, blank_nil⟩

theorem textOf_pretty (v : Json) : TextOf v v.pretty := by
  rw [Json.pretty, ← Layout.chars_pretty 0 v]
  exact textOf_chars .pretty v

theorem ofText_chars (l : Layout) (v : Json) : ofText (String.ofList (l.chars 0 v)) = (ofJson v, some []) := by
  have hfuel : 2 * (l.chars 0 v).length ≤ 2 * (l.chars 0 v).length + 2 := Nat.le_add_right _ 2
  have hscan := value_written (l.written_chars 0 v) hfuel (show EndsNumber [] by simp [EndsNumber])
  simpa [ofText] using hscan

theorem ofText_compact (v : Json) : ofText v.compact = (ofJson v, some []) := by
  rw [Json.compact, ← Layout.chars_compact 0 v]
  exact ofText_chars .compact v

theorem ofText_pretty (v : Json) : ofText v.pretty = (ofJson v, some []) := by
  rw [Json.pretty, ← Layout.chars_pretty 0 v]
  exact ofText_chars .pretty v

end Scan

end BuildImport
