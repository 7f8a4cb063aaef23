/-
Components of paths: what a join adds to them and what stripping a prefix gives back.

A package of a build label is written canonically if it is empty or a list of pieces, none of which is empty or `.`,
with a slash between two of them (`Path.Canonical`). For such a package, seen from any base directory:
- `components_join`: joining appends its pieces and changes nothing before them;
- `join_injective`: two packages with one directory, compared by components, are one text;
- `stripPrefix?_join`: the base is stripped off again, and what is left is the very text of the package.
Any relative path is appended (`components_join_of_relative`), but the rest does not hold of other ones: `a/./b` and
`a/b` join to one directory.

Order and equality: `compare_eq_iff` says that two paths are equal in the order if their components are.
-/
import Mathlib.Tactic
import BuildImport.Path

namespace BuildImport

open Std Text

/-! ## Order and equality -/

instance : LawfulEqOrd Component where
  eq_of_compare {a b} h := by
    have h : compareLex (compareOn Component.rank) (compareOn Component.text) a b = .eq := h
    obtain ⟨h1, h2⟩ := compareLex_eq_eq.1 h
    have hr : a.rank = b.rank := LawfulEqOrd.eq_of_compare h1
    have ht : a.text = b.text := LawfulEqOrd.eq_of_compare h2
    cases a <;> cases b <;> simp_all [Component.rank, Component.text]

namespace Path

theorem compare_eq_iff (p q : Path) : compare p q = .eq ↔ p.components = q.components := by
  change compare p.components q.components = .eq ↔ _
  exact Std.LawfulEqOrd.compare_eq_iff_eq

theorem same_iff (p q : Path) : p.same q = true ↔ p.components = q.components := by
  simp [same]

theorem same_refl (p : Path) : p.same p = true := by
  simp [same]

theorem same_symm {p q : Path} (h : p.same q = true) : q.same p = true := by
  rw [same_iff] at h ⊢
  exact h.symm

theorem same_trans {p q r : Path} (h : p.same q = true) (h' : q.same r = true) : p.same r = true := by
  rw [same_iff] at h h' ⊢
  exact h.trans h'

/-- equal paths are equal to the same paths -/
theorem same_congr {p q : Path} (h : p.same q = true) (r : Path) : r.same p = r.same q := by
  simp only [same_iff] at h
  simp [same, h]

theorem compare_beq_eq_same (p q : Path) : (compare p q == .eq) = p.same q := by
  rw [Bool.eq_iff_iff, beq_iff_eq, compare_eq_iff, same_iff]

end Path

/-! ## Splitting -/

namespace Text

theorem splitOn_append (c : Char) (a b : List Char) : splitOn c (a ++ c :: b) = splitOn c a ++ splitOn c b := by
  induction a with
  | nil => simp [splitOn]
  | cons d a ih =>
    by_cases hd : d = c
    · simp [splitOn, hd, ih]
    · cases ha : splitOn c a with
      | nil => exact absurd ha (splitOn_ne_nil c a)
      | cons piece pieces => simp [splitOn, hd, ih, ha]

theorem joinWith_append {c : Char} {ps qs : List (List Char)} (hp : ps ≠ []) (hq : qs ≠ []) :
    joinWith c (ps ++ qs) = joinWith c ps ++ c :: joinWith c qs := by
  obtain ⟨q, qs, rfl⟩ := List.exists_cons_of_ne_nil hq
  induction ps with
  | nil => exact absurd rfl hp
  | cons p ps ih =>
    cases ps with
    | nil => rfl
    | cons p' ps => simpa [joinWith] using ih (List.cons_ne_nil p' ps)

theorem splitOn_injective (c : Char) {a b : List Char} (h : splitOn c a = splitOn c b) : a = b := by
  rw [← joinWith_splitOn c a, ← joinWith_splitOn c b, h]

/-- nothing is dropped where nothing at the end is to go -/
theorem dropEndWhile_eq_self {α : Type} {p : α → Bool} {xs : List α} (h : ∀ x ∈ xs.getLast?, p x = false) :
    dropEndWhile p xs = xs := by
  unfold dropEndWhile
  cases hr : xs.reverse with
  | nil => simp_all
  | cons x rest =>
    have hx : xs.getLast? = some x := by rw [List.getLast?_eq_head?_reverse, hr]; rfl
    rw [List.dropWhile_cons_of_neg (by simp [h x hx]), ← hr, List.reverse_reverse]

/-- empty, or with a slash at the end -/
def Closed (front : List Char) : Prop := ∀ c ∈ front.getLast?, c = '/'

-- the instance for a statement about all characters would go through all of them
instance (front : List Char) : Decidable (Closed front) :=
  decidable_of_iff (front.getLast?.all (· == '/') = true) (by simp [Closed, Option.all_eq_true])

end Text

namespace Path

/-! ## Canonical packages -/

/-- empty, or pieces that are neither empty nor `.` with a slash between two of them -/
def Canonical (package : String) : Prop :=
  package = "" ∨ ∀ piece ∈ splitOn '/' package.toList, piece ≠ [] ∧ piece ≠ ['.']

instance (package : String) : Decidable (Canonical package) := by
  unfold Canonical; infer_instance

/-- what a relative path stands for behind another one -/
def tail (q : Path) : List Component := q.pieces.filterMap Component.ofPiece?

theorem ofPiece?_eq_none_iff (piece : List Char) : Component.ofPiece? piece = none ↔ piece = [] ∨ piece = ['.'] := by
  unfold Component.ofPiece?
  split <;> simp_all

theorem insignificant_iff (piece : List Char) : insignificant piece = true ↔ piece = [] ∨ piece = ['.'] := by
  rw [← ofPiece?_eq_none_iff, insignificant, Option.isNone_iff_eq_none]

theorem ofPiece?_injective {a b : List Char} {c : Component} (ha : Component.ofPiece? a = some c)
    (hb : Component.ofPiece? b = some c) : a = b := by
  have hs : (Component.ofPiece? b).isSome := by simp [hb]
  rw [← hb] at ha
  unfold Component.ofPiece? at ha hs
  split at ha <;> split at ha <;> simp_all [String.ofList_inj]

theorem pieces_ne_nil (p : Path) : p.pieces ≠ [] := splitOn_ne_nil '/' p.text.toList

/-- the pieces of a canonical package that is not empty all count -/
theorem Canonical.significant {package : String} (h : Canonical package) (hne : package ≠ "") {piece : List Char}
    (hp : piece ∈ pieces ⟨package⟩) : insignificant piece = false := by
  rw [← Bool.not_eq_true, insignificant_iff, not_or]
  exact h.resolve_left hne piece hp

theorem Canonical.not_absolute {package : String} (h : Canonical package) : isAbsolute ⟨package⟩ = false := by
  rcases h with rfl | h
  · decide
  · rw [← Bool.not_eq_true]
    intro ha
    obtain ⟨rest, hr⟩ := List.isPrefixOf_iff_prefix.1 ha
    have hm : [] ∈ splitOn '/' package.toList := by rw [← hr]; simp [splitOn]
    exact (h [] hm).1 rfl

/-- where everything in two lists counts, one is the beginning of the other if what it stands for is -/
theorem prefix_of_filterMap {α β : Type} {f : α → Option β} {xs ys : List α} (hx : ∀ x ∈ xs, (f x).isSome)
    (hy : ∀ y ∈ ys, (f y).isSome) (hf : ∀ a b c, f a = some c → f b = some c → a = b)
    (h : xs.filterMap f <+: ys.filterMap f) : xs <+: ys := by
  induction xs generalizing ys with
  | nil => exact List.nil_prefix
  | cons x xs ih =>
    obtain ⟨c, hc⟩ := Option.isSome_iff_exists.1 (hx x List.mem_cons_self)
    cases ys with
    | nil => simp [hc] at h
    | cons y ys =>
      obtain ⟨d, hd⟩ := Option.isSome_iff_exists.1 (hy y List.mem_cons_self)
      rw [List.filterMap_cons_some hc, List.filterMap_cons_some hd, List.cons_prefix_cons] at h
      rw [hf x y c hc (h.1 ▸ hd), List.cons_prefix_cons]
      exact ⟨rfl, ih (fun a ha => hx a (List.mem_cons_of_mem _ ha)) (fun a ha => hy a (List.mem_cons_of_mem _ ha)) h.2⟩

theorem filterMap_injective {α β : Type} {f : α → Option β} {xs ys : List α} (hx : ∀ x ∈ xs, (f x).isSome)
    (hy : ∀ y ∈ ys, (f y).isSome) (hf : ∀ a b c, f a = some c → f b = some c → a = b)
    (h : xs.filterMap f = ys.filterMap f) : xs = ys := by
  have hxy : xs <+: ys := prefix_of_filterMap hx hy hf (h ▸ List.prefix_refl _)
  have hyx : ys <+: xs := prefix_of_filterMap hy hx hf (h ▸ List.prefix_refl _)
  exact hxy.eq_of_length_le hyx.length_le

theorem tail_empty : tail ⟨""⟩ = [] := by decide

theorem Canonical.tail_ne_nil {package : String} (h : Canonical package) (hne : package ≠ "") :
    tail ⟨package⟩ ≠ [] := by
  intro ht
  obtain ⟨piece, hp⟩ := List.exists_mem_of_ne_nil _ (pieces_ne_nil ⟨package⟩)
  have hs := h.significant hne hp
  rw [tail, List.filterMap_eq_nil_iff] at ht
  simp [insignificant, ht piece hp] at hs

theorem Canonical.isSome_ofPiece? {package : String} (h : Canonical package) (hne : package ≠ "") :
    ∀ piece ∈ pieces ⟨package⟩, (Component.ofPiece? piece).isSome := by
  intro piece hp
  have hs := h.significant hne hp
  rwa [insignificant, Option.isNone_eq_false_iff] at hs

/-- a canonical package is told by what it stands for -/
theorem Canonical.tail_injective {a b : String} (ha : Canonical a) (hb : Canonical b)
    (h : tail ⟨a⟩ = tail ⟨b⟩) : a = b := by
  by_cases ha' : a = ""
  · by_contra hne
    have hb' : b ≠ "" := fun e => hne (ha'.trans e.symm)
    exact hb.tail_ne_nil hb' (by rw [← h, ha', tail_empty])
  · have hb' : b ≠ "" := by
      rintro rfl
      exact ha.tail_ne_nil ha' (by rw [h, tail_empty])
    have hp : pieces ⟨a⟩ = pieces ⟨b⟩ :=
      filterMap_injective (ha.isSome_ofPiece? ha') (hb.isSome_ofPiece? hb') (fun _ _ _ => ofPiece?_injective) h
    exact String.toList_inj.1 (splitOn_injective '/' hp)

/-- where a canonical package stands for the beginning of what another one stands for, it is empty or the other one, or
the other one goes on behind it with a slash -/
theorem Canonical.tail_prefix {a b : String} (ha : Canonical a) (hb : Canonical b) (h : tail ⟨a⟩ <+: tail ⟨b⟩) :
    a = "" ∨ a = b ∨ ∃ rest, b = a ++ "/" ++ rest := by
  by_cases ha' : a = ""
  · exact .inl ha'
  · have hb' : b ≠ "" := by
      rintro rfl
      rw [tail_empty, List.prefix_nil] at h
      exact ha.tail_ne_nil ha' h
    obtain ⟨rest, hrest⟩ : pieces ⟨a⟩ <+: pieces ⟨b⟩ :=
      prefix_of_filterMap (ha.isSome_ofPiece? ha') (hb.isSome_ofPiece? hb') (fun _ _ _ => ofPiece?_injective) h
    have hjoin : b.toList = joinWith '/' (splitOn '/' a.toList ++ rest) := by
      rw [← joinWith_splitOn '/' b.toList]
      exact congrArg (joinWith '/') hrest.symm
    cases rest with
    | nil =>
      rw [List.append_nil, joinWith_splitOn] at hjoin
      exact .inr (.inl (String.toList_inj.1 hjoin.symm))
    | cons piece rest =>
      rw [joinWith_append (splitOn_ne_nil _ _) (List.cons_ne_nil _ _), joinWith_splitOn] at hjoin
      refine .inr (.inr ⟨String.ofList (joinWith '/' (piece :: rest)), ?_⟩)
      rw [← String.toList_inj, hjoin]
      simp

/-! ## Joins -/

/-- what stands in front of a relative path that is appended -/
def lead (p : Path) : String := if p.text = "" ∨ endsWith "/" p.text then p.text else p.text ++ "/"

theorem join_eq (p q : Path) : p.join q = if q.isAbsolute then q else ⟨p.lead ++ q.text⟩ := by
  unfold join lead
  split_ifs <;> rfl

theorem closed_lead (p : Path) : Closed p.lead.toList := by
  unfold lead
  split_ifs with h
  · rcases h with h | h
    · simp [h, Closed]
    · obtain ⟨front, hfront⟩ := List.isSuffixOf_iff_suffix.1 h
      simp [Closed, ← hfront]
  · simp [Closed]

theorem componentsOf_named {piece : List Char} (h : insignificant piece = false) (rest : List (List Char)) :
    componentsOf (piece :: rest) = (piece :: rest).filterMap Component.ofPiece? := by
  rw [← Bool.not_eq_true, insignificant_iff, not_or] at h
  unfold componentsOf
  split <;> simp_all

/-- a piece with others behind it is a component, whatever it is -/
theorem exists_componentsOf_cons (piece : List Char) :
    ∃ c, ∀ rest, rest ≠ [] → componentsOf (piece :: rest) = c :: rest.filterMap Component.ofPiece? := by
  cases h : insignificant piece with
  | false =>
    obtain ⟨c, hc⟩ := Option.isSome_iff_exists.1 (Option.isNone_eq_false_iff.1 h)
    exact ⟨c, fun rest _ => by rw [componentsOf_named h, List.filterMap_cons_some hc]⟩
  | true =>
    rcases (insignificant_iff piece).1 h with rfl | rfl
    · refine ⟨.root, fun rest hr => ?_⟩
      obtain ⟨q, qs, rfl⟩ := List.exists_cons_of_ne_nil hr
      rfl
    · exact ⟨.here, fun rest _ => rfl⟩

theorem filterMap_append_nil (ps : List (List Char)) :
    (ps ++ [[]]).filterMap Component.ofPiece? = ps.filterMap Component.ofPiece? := by
  rw [List.filterMap_append]
  exact List.append_nil _

/-- pieces behind others add what they stand for; what they stand behind counts as if a slash followed -/
theorem componentsOf_append {ps qs : List (List Char)} (hp : ps ≠ []) (hq : qs ≠ []) :
    componentsOf (ps ++ qs) = componentsOf (ps ++ [[]]) ++ qs.filterMap Component.ofPiece? := by
  obtain ⟨p, ps, rfl⟩ := List.exists_cons_of_ne_nil hp
  obtain ⟨c, hc⟩ := exists_componentsOf_cons p
  rw [List.cons_append, List.cons_append, hc (ps ++ qs) (by simp [hq]), hc (ps ++ [[]]) (by simp),
    filterMap_append_nil, List.filterMap_append, List.cons_append]

/-- a slash at the end of a path that is not empty does not count -/
theorem componentsOf_append_nil {ps : List (List Char)} (hp : ps ≠ []) (hne : ps ≠ [[]]) :
    componentsOf (ps ++ [[]]) = componentsOf ps := by
  obtain ⟨p, ps, rfl⟩ := List.exists_cons_of_ne_nil hp
  obtain ⟨c, hc⟩ := exists_componentsOf_cons p
  by_cases hps : ps = []
  · subst hps
    cases h : insignificant p with
    | false =>
      rw [List.cons_append, componentsOf_named h, componentsOf_named h, ← List.cons_append, filterMap_append_nil]
    | true =>
      rcases (insignificant_iff p).1 h with rfl | rfl
      · exact absurd rfl hne
      · rfl
  · rw [List.cons_append, hc (ps ++ [[]]) (by simp), hc ps hps, filterMap_append_nil]

theorem pieces_eq_singleton_nil {p : Path} (h : p.pieces = [[]]) : p.text = "" := by
  have h : p.text.toList = [] := splitOn_injective '/' h
  simpa using h

/-- The pieces of a join. The base ends in a slash or gets one; in both cases its own pieces `ps` are those up to it,
and they tell its components. -/
theorem exists_pieces_join {base q : Path} (hb : base.text ≠ "") (hq : q.isAbsolute = false) :
    ∃ ps, ps ≠ [] ∧ (base.join q).pieces = ps ++ q.pieces ∧ componentsOf (ps ++ [[]]) = base.components := by
  by_cases he : endsWith "/" base.text = true
  · obtain ⟨front, hf⟩ := List.isSuffixOf_iff_suffix.1 he
    have hf : base.text.toList = front ++ ['/'] := by simpa using hf.symm
    refine ⟨splitOn '/' front, splitOn_ne_nil '/' front, ?_, ?_⟩
    · simp [join, hq, hb, he, pieces, hf, splitOn_append]
    · simp [components, pieces, hf, splitOn_append, splitOn]
  · refine ⟨base.pieces, pieces_ne_nil base, ?_, ?_⟩
    · simp [join, hq, hb, he, pieces, splitOn_append]
    · exact componentsOf_append_nil (pieces_ne_nil base) fun h => hb (pieces_eq_singleton_nil h)

theorem components_eq_nil {base : Path} (h : base.text = "") : base.components = [] := by
  simp [components, pieces, h, splitOn, componentsOf]

/-- the components that a path has behind `base`; a `.` at its front only counts where nothing is before it -/
def behind (base q : Path) : List Component := if base.text = "" then q.components else q.tail

/-- joining a relative path appends its components and changes nothing before them -/
theorem components_join_of_relative (base : Path) {q : Path} (hq : q.isAbsolute = false) :
    (base.join q).components = base.components ++ behind base q := by
  unfold behind
  by_cases hb : base.text = ""
  · have hj : base.join q = q := by simp [join, hq, hb]
    rw [if_pos hb, hj, components_eq_nil hb, List.nil_append]
  · obtain ⟨ps, hps, hpieces, hcomponents⟩ := exists_pieces_join hb hq
    rw [if_neg hb, components, hpieces, componentsOf_append hps (pieces_ne_nil _), hcomponents, tail]

theorem Canonical.components_eq_tail {package : String} (h : Canonical package) :
    components ⟨package⟩ = tail ⟨package⟩ := by
  by_cases hp : package = ""
  · subst hp; decide
  · obtain ⟨piece, rest, hr⟩ := List.exists_cons_of_ne_nil (pieces_ne_nil ⟨package⟩)
    have hs : insignificant piece = false := h.significant hp (by rw [hr]; exact List.mem_cons_self)
    rw [components, tail, hr, componentsOf_named hs]

/-- joining a package appends what it stands for -/
theorem components_join (base : Path) {package : String} (h : Canonical package) :
    (base.join ⟨package⟩).components = base.components ++ tail ⟨package⟩ := by
  have hbehind : behind base ⟨package⟩ = tail ⟨package⟩ := by
    rw [behind, h.components_eq_tail, ite_self]
  rw [components_join_of_relative base h.not_absolute, hbehind]

/-- **Packages are told by their directories.** -/
theorem join_injective (base : Path) {a b : String} (ha : Canonical a) (hb : Canonical b)
    (h : (base.join ⟨a⟩).same (base.join ⟨b⟩) = true) : a = b := by
  rw [same_iff, components_join base ha, components_join base hb] at h
  exact ha.tail_injective hb (List.append_cancel_left h)

/-! ## Prefixes -/

/-- dropping as many components as the front has leaves the rest, perhaps behind pieces that do not count -/
theorem dropComponents_append (ps qs : List (List Char)) :
    ∃ left, (∀ piece ∈ left, insignificant piece = true) ∧
      dropComponents (ps.filterMap Component.ofPiece?).length (ps ++ qs) = left ++ qs := by
  induction ps with
  | nil => exact ⟨[], by simp, by simp [dropComponents]⟩
  | cons p ps ih =>
    obtain ⟨left, hl, he⟩ := ih
    cases hc : Component.ofPiece? p with
    | none =>
      have hp : insignificant p = true := by simp [insignificant, hc]
      rw [List.filterMap_cons_none hc]
      cases hn : (ps.filterMap Component.ofPiece?).length with
      | zero =>
        refine ⟨p :: ps, ?_, by simp [dropComponents]⟩
        rw [List.length_eq_zero_iff, List.filterMap_eq_nil_iff] at hn
        intro piece hm
        rcases List.mem_cons.1 hm with rfl | hm
        · exact hp
        · simp [insignificant, hn piece hm]
      | succ n =>
        rw [hn] at he
        exact ⟨left, hl, by rw [List.cons_append, dropComponents, if_pos hp, he]⟩
    | some c =>
      have hp : insignificant p = false := by simp [insignificant, hc]
      refine ⟨left, hl, ?_⟩
      rw [List.filterMap_cons_some hc, List.length_cons, List.cons_append, dropComponents, if_neg (by simp [hp]), he]

/-- neither end of a canonical package is dropped, and it is put together again as it was -/
theorem Canonical.joinWith_trimmed {package : String} (h : Canonical package) :
    joinWith '/' (dropEndWhile insignificant ((pieces ⟨package⟩).dropWhile insignificant)) = package.toList := by
  by_cases hp : package = ""
  · subst hp; decide
  · have hs : ∀ piece ∈ pieces ⟨package⟩, insignificant piece = false := fun piece hm => h.significant hp hm
    obtain ⟨piece, rest, hr⟩ := List.exists_cons_of_ne_nil (pieces_ne_nil ⟨package⟩)
    have hd : (pieces ⟨package⟩).dropWhile insignificant = pieces ⟨package⟩ := by
      rw [hr, List.dropWhile_cons_of_neg (by simp [hs piece (by rw [hr]; exact List.mem_cons_self)])]
    rw [hd, dropEndWhile_eq_self fun piece hm => hs piece (List.mem_of_getLast? hm)]
    exact joinWith_splitOn '/' package.toList

theorem mk_ofList {cs : List Char} {text : String} (h : cs = text.toList) : (⟨String.ofList cs⟩ : Path) = ⟨text⟩ := by
  rw [h, String.ofList_toList]

/-- nothing is stripped off where the base is empty -/
theorem stripPrefix?_empty {package : String} (h : Canonical package) :
    stripPrefix? ⟨package⟩ ⟨""⟩ = some ⟨package⟩ := by
  by_cases hp : package = ""
  · subst hp; decide
  · obtain ⟨first, rest, hr⟩ := List.exists_cons_of_ne_nil (pieces_ne_nil ⟨package⟩)
    have hs : ∀ piece ∈ first :: rest, insignificant piece = false := by
      intro piece hm
      exact h.significant hp (hr ▸ hm)
    have hf : first ≠ [] := by
      rintro rfl
      exact absurd (hs [] List.mem_cons_self) (by decide)
    have he : dropEndWhile insignificant rest = rest :=
      dropEndWhile_eq_self fun piece hm => hs piece (List.mem_cons_of_mem _ (List.mem_of_getLast? hm))
    have hpieces : ofPieces (first :: rest) = ⟨package⟩ := by
      unfold ofPieces
      split
      · next heq => simp only [List.cons.injEq] at heq; exact absurd heq.1 hf
      · exact mk_ofList (by rw [← hr]; exact joinWith_splitOn '/' package.toList)
    simp [stripPrefix?, components_eq_nil, hr, hf, he, hpieces]

/-- **What a package adds to a directory is its own text.** -/
theorem stripPrefix?_join (base : Path) {package : String} (h : Canonical package) :
    (base.join ⟨package⟩).stripPrefix? base = some ⟨package⟩ := by
  by_cases hb : base.text = ""
  · have hj : base.join ⟨package⟩ = ⟨package⟩ := by simp [join, h.not_absolute, hb]
    have he : base = ⟨""⟩ := congrArg Path.mk hb
    rw [hj, he, stripPrefix?_empty h]
  · have hprefix : base.components.isPrefixOf (base.join ⟨package⟩).components = true := by
      rw [components_join base h, List.isPrefixOf_iff_prefix]
      exact List.prefix_append _ _
    obtain ⟨ps, hps, hpieces, hcomponents⟩ := exists_pieces_join hb h.not_absolute
    obtain ⟨first, ps, rfl⟩ := List.exists_cons_of_ne_nil hps
    obtain ⟨c, hc⟩ := exists_componentsOf_cons first
    have hlen : base.components.length = (ps.filterMap Component.ofPiece?).length + 1 := by
      rw [← hcomponents, List.cons_append, hc _ (by simp), filterMap_append_nil, List.length_cons]
    obtain ⟨left, hl, hd⟩ := dropComponents_append ps (pieces ⟨package⟩)
    rw [stripPrefix?, if_pos hprefix, hpieces, hlen, List.cons_append]
    simp only [hd, List.dropWhile_append_of_pos hl, Option.some.injEq]
    exact mk_ofList h.joinWith_trimmed

theorem Canonical.trimEnd_eq {package : String} (h : Canonical package) : trimEnd '/' package = package := by
  have hlast : ∀ c ∈ package.toList.getLast?, (c == '/') = false := by
    intro c hc
    rw [beq_eq_false_iff_ne]
    rintro rfl
    obtain ⟨front, hf⟩ := List.getLast?_eq_some_iff.1 hc
    rcases h with rfl | h
    · simp at hf
    · have hm : [] ∈ splitOn '/' package.toList := by
        rw [hf, splitOn_append]
        simp [splitOn]
      exact (h [] hm).1 rfl
  rw [trimEnd, dropEndWhile_eq_self hlast, String.ofList_toList]

end Path

end BuildImport
