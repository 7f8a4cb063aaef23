/-
Cutting, trimming and joining of text, worked out on lists of characters.

`cutFirst` and `cutLast` split a text at a separator, `splitOn` splits at every one of them, `dropPrefix?` and
`dropSuffix?` take off a known end. Main facts: a cut loses nothing but the separator (`eq_of_cutFirst`,
`eq_of_cutLast`), the part before a first cut holds no separator (`not_mem_of_cutFirst`), and joining undoes splitting
(`joinWith_splitOn`).
-/
namespace BuildImport.Text

/-! ## Cuts -/

/-- the parts before and after the first `c`; none where there is no `c` -/
def cutFirst (c : Char) : List Char → Option (List Char × List Char)
  | [] => none
  | d :: r => if d = c then some ([], r) else (cutFirst c r).map fun (a, b) => (d :: a, b)

/-- the parts before and after the last `c`; none where there is no `c` -/
def cutLast (c : Char) : List Char → Option (List Char × List Char)
  | [] => none
  | d :: r =>
    match cutLast c r with
    | some (a, b) => some (d :: a, b)
    | none => if d = c then some ([], r) else none

/-- what follows the first occurrence of `pattern` -/
def afterFirst (pattern : List Char) : List Char → Option (List Char)
  | [] => if pattern.isEmpty then some [] else none
  | d :: r => if pattern.isPrefixOf (d :: r) then some ((d :: r).drop pattern.length) else afterFirst pattern r

/-- the pieces between the separators, one more than there are separators -/
def splitOn (c : Char) : List Char → List (List Char)
  | [] => [[]]
  | d :: r =>
    if d = c then [] :: splitOn c r
    else
      match splitOn c r with
      | [] => [[d]]
      | piece :: pieces => (d :: piece) :: pieces

/-- the pieces put together again with `c` between them -/
def joinWith (c : Char) : List (List Char) → List Char
  | [] => []
  | [piece] => piece
  | piece :: pieces => piece ++ c :: joinWith c pieces

/-! ## Trimming -/

/-- drops the longest end on which `p` holds -/
def dropEndWhile {α : Type} (p : α → Bool) (xs : List α) : List α :=
  (xs.reverse.dropWhile p).reverse

/-- drops both ends on which `p` holds -/
def trim (p : Char → Bool) (s : String) : String :=
  String.ofList (dropEndWhile p (s.toList.dropWhile p))

/-- drops every `c` at the end -/
def trimEnd (c : Char) (s : String) : String :=
  String.ofList (dropEndWhile (· == c) s.toList)

/-! ## Known ends -/

def startsWith (pattern s : String) : Bool :=
  pattern.toList.isPrefixOf s.toList

def endsWith (pattern s : String) : Bool :=
  pattern.toList.isSuffixOf s.toList

/-- the text after a beginning that it must have -/
def dropPrefix? (pattern s : String) : Option String :=
  if startsWith pattern s then some (String.ofList (s.toList.drop pattern.length)) else none

/-- the text before an end that it must have -/
def dropSuffix? (pattern s : String) : Option String :=
  if endsWith pattern s then some (String.ofList (s.toList.take (s.length - pattern.length))) else none

/-- takes `pattern` off the front as often as it stands there -/
def dropPrefixes (pattern s : String) : String :=
  String.ofList (go s.length s.toList)
where
  /-- at most `n` times -/
  go : Nat → List Char → List Char
    | 0, cs => cs
    | n + 1, cs =>
      if pattern.toList.isPrefixOf cs ∧ pattern ≠ "" then go n (cs.drop pattern.length) else cs

/-! ## Lines -/

/-- the lines of a text: a line feed ends a line, together with a carriage return right before it; no line follows
the last line feed -/
def lines (s : String) : List (List Char) :=
  match (splitOn '\n' s.toList).reverse with
  | [] => []
  | last :: ended =>
    (ended.reverse.map fun line => if line.getLast? = some '\r' then line.dropLast else line) ++
      (if last.isEmpty then [] else [last])

/-! ## Facts -/

theorem eq_of_cutFirst {c : Char} {s a b : List Char} (h : cutFirst c s = some (a, b)) : s = a ++ c :: b := by
  induction s generalizing a with
  | nil => simp [cutFirst] at h
  | cons d r ih =>
    unfold cutFirst at h
    split at h
    · next hd => simp only [Option.some.injEq, Prod.mk.injEq] at h; obtain ⟨rfl, rfl⟩ := h; simp [hd]
    · obtain ⟨⟨a', b'⟩, hr, heq⟩ := Option.map_eq_some_iff.1 h
      simp only [Prod.mk.injEq] at heq
      obtain ⟨rfl, rfl⟩ := heq
      simp [ih hr]

theorem not_mem_of_cutFirst {c : Char} {s a b : List Char} (h : cutFirst c s = some (a, b)) : c ∉ a := by
  induction s generalizing a with
  | nil => simp [cutFirst] at h
  | cons d r ih =>
    unfold cutFirst at h
    split at h
    · simp only [Option.some.injEq, Prod.mk.injEq] at h; obtain ⟨rfl, _⟩ := h; simp
    · next hd =>
      obtain ⟨⟨a', b'⟩, hr, heq⟩ := Option.map_eq_some_iff.1 h
      simp only [Prod.mk.injEq] at heq
      obtain ⟨rfl, rfl⟩ := heq
      simp only [List.mem_cons, not_or]
      exact ⟨fun e => hd e.symm, ih hr⟩

theorem splitOn_ne_nil (c : Char) (s : List Char) : splitOn c s ≠ [] := by
  cases s with
  | nil => simp [splitOn]
  | cons d r =>
    unfold splitOn
    split
    · simp
    · split <;> simp

/-- joining undoes splitting -/
theorem joinWith_splitOn (c : Char) (s : List Char) : joinWith c (splitOn c s) = s := by
  induction s with
  | nil => rfl
  | cons d r ih =>
    unfold splitOn
    split
    · next hd =>
      cases hr : splitOn c r with
      | nil => exact absurd hr (splitOn_ne_nil c r)
      | cons piece pieces => rw [hr] at ih; simp [joinWith, ih, hd]
    · cases hr : splitOn c r with
      | nil => exact absurd hr (splitOn_ne_nil c r)
      | cons piece pieces =>
        rw [hr] at ih
        cases pieces with
        | nil => simp_all [joinWith]
        | cons q qs => simpa [joinWith] using ih

end BuildImport.Text
