/-
The names of a package, and where they end a directory.

A package is what clauses name, put together with dots; its names stand between the dots (`names_intercalate`). All of
them are made of word characters (`IsPlain`), so that each names one directory: joining them to a path appends them to
its components (`Path.components_under`).

A root is made by taking names off the end of a directory, the last one first. This succeeds just where the directory
ends with all of them (`exists_strip?_iff`), and else nothing is taken off: `ofFile?_strips`.
-/
import Mathlib.Tactic
import BuildImport.Proofs.Extensions
import BuildImport.Proofs.SourceRoots

namespace BuildImport

open Text

namespace Text

theorem mem_of_mem_splitOn {c d : Char} {s piece : List Char} (h : piece ∈ splitOn c s) (hd : d ∈ piece) : d ∈ s := by
  obtain ⟨before, after, heq⟩ := List.append_of_mem h
  obtain ⟨front, hjoin⟩ := exists_joinWith_append c before
  rw [← joinWith_splitOn c s, heq, hjoin]
  exact List.mem_append_left _ (List.mem_append_right _ hd)

set_option maxRecDepth 4000 in
/-- no word character comes before the digits: no dot, no slash and no line feed -/
theorem isWord_of_lt {c : Char} (h : c.toNat < 0x30) : isWord c = false := by
  have hfirst : (wordRanges.all fun r => 0x30 ≤ r.1) = true := by decide
  rw [isWord, List.any_eq_false]
  intro r hr hword
  have hlow : 0x30 ≤ r.1 := of_decide_eq_true (List.all_eq_true.1 hfirst r hr)
  rw [Bool.and_eq_true, decide_eq_true_iff] at hword
  omega

end Text

/-! ## Plain names -/

/-- a name of word characters, of which there is at least one -/
def IsPlain (n : String) : Prop := n ≠ "" ∧ ∀ c ∈ n.toList, isWord c = true

instance (n : String) : Decidable (IsPlain n) :=
  decidable_of_iff (n ≠ "" ∧ n.toList.all isWord = true) (by rw [IsPlain, List.all_eq_true])

theorem IsPlain.not_mem {n : String} (h : IsPlain n) {c : Char} (hc : isWord c = false) : c ∉ n.toList := by
  intro hmem
  rw [h.2 c hmem] at hc
  cases hc

/-- a plain name is one piece, and a name -/
theorem IsPlain.pieces {n : String} (h : IsPlain n) : Path.pieces ⟨n⟩ = [n.toList] :=
  splitOn_of_not_mem (h.not_mem (isWord_of_lt (by decide)))

theorem IsPlain.ofPiece? {n : String} (h : IsPlain n) : Component.ofPiece? n.toList = some (.name n) := by
  have hdot : '.' ∉ n.toList := h.not_mem (isWord_of_lt (by decide))
  unfold Component.ofPiece?
  split
  · next hnil => exact absurd (String.toList_eq_nil_iff.1 hnil) h.1
  · next heq => simp [heq] at hdot
  · next heq => simp [heq] at hdot
  · rw [String.ofList_toList]

theorem IsPlain.canonical {n : String} (h : IsPlain n) : Path.Canonical n := by
  have hone : splitOn '/' n.toList = [n.toList] := h.pieces
  refine .inr fun piece hpiece => ?_
  rw [hone, List.mem_singleton] at hpiece
  have hsome := h.ofPiece?
  constructor <;> rintro rfl <;> rw [← hpiece] at hsome <;> cases hsome

namespace Path

/-- the directory with these names below `base`, each in the one before it -/
def under (base : Path) (names : List String) : Path := names.foldl (fun p n => p.join ⟨n⟩) base

/-- joining plain names appends them to the components -/
theorem components_under {names : List String} (h : ∀ n ∈ names, IsPlain n) (base : Path) :
    (base.under names).components = base.components ++ names.map .name := by
  induction names generalizing base with
  | nil => exact (List.append_nil _).symm
  | cons n names ih =>
    have hn : IsPlain n := h n List.mem_cons_self
    have htail : tail ⟨n⟩ = [.name n] := by
      rw [tail, hn.pieces, List.filterMap_cons_some hn.ofPiece?, List.filterMap_nil]
    have hrest := ih (fun m hm => h m (List.mem_cons_of_mem _ hm)) (base.join ⟨n⟩)
    rw [components_join base hn.canonical, htail, List.append_assoc] at hrest
    exact hrest

theorem fileName?_of_getLast? {p : Path} {n : String} (h : p.components.getLast? = some (.name n)) :
    p.fileName? = some n := by
  rw [fileName?, h]

end Path

/-! ## Packages -/

namespace SourceRoot

variable {text package : String} {chained : Bool}

theorem names_append_dot (a b : String) : names (a ++ "." ++ b) = names a ++ names b := by
  have hsplit : splitOn '.' (a ++ "." ++ b).toList = splitOn '.' a.toList ++ splitOn '.' b.toList := by
    rw [← splitOn_append]
    simp
  rw [names, hsplit, List.filter_append, List.map_append]
  rfl

/-- the names of packages put together with dots are those of the packages, in order -/
theorem names_intercalate (packages : List String) : names (".".intercalate packages) = packages.flatMap names := by
  induction packages with
  | nil => rfl
  | cons p rest ih =>
    cases rest with
    | nil => rw [String.intercalate_singleton, List.flatMap_cons, List.flatMap_nil, List.append_nil]
    | cons q rest => rw [String.intercalate_cons_cons, names_append_dot, ih, ← List.flatMap_cons]

/-- a clause names a package in word characters and dots -/
theorem isNameChar_of_clause? {line : List Char} (h : clause? line = some package) {c : Char}
    (hc : c ∈ package.toList) : isNameChar c = true := by
  obtain ⟨rest, -, hname⟩ := Option.bind_eq_some_iff.1 h
  dsimp only at hname
  split_ifs at hname
  rw [← Option.some.inj hname, String.toList_ofList] at hc
  exact List.mem_takeWhile_imp hc

/-- every name in a clause is plain -/
theorem isPlain_of_clause? {line : List Char} (h : clause? line = some package) {n : String} (hn : n ∈ names package) :
    IsPlain n := by
  obtain ⟨piece, hpiece, rfl⟩ := List.mem_map.1 hn
  obtain ⟨hmem, hne⟩ := List.mem_filter.1 hpiece
  constructor
  · rintro hempty
    simp_all
  · intro c hc
    rw [String.toList_ofList] at hc
    have hdot : c ≠ '.' := fun he => not_mem_of_mem_splitOn hmem (he ▸ hc)
    have hchar := isNameChar_of_clause? h (mem_of_mem_splitOn hmem hc)
    simpa [isNameChar, hdot] using hchar

theorem isPlain_of_mem_clauses (h : package ∈ clauses text) {n : String} (hn : n ∈ names package) : IsPlain n := by
  obtain ⟨line, -, hline⟩ := List.mem_filterMap.1 h
  exact isPlain_of_clause? hline hn

/-- a package is the first clause of its text, or all of them -/
theorem names_of_package? (h : package? chained text = some package) :
    ∃ used, used ⊆ clauses text ∧ names package = used.flatMap names := by
  unfold package? at h
  split at h
  · cases h
  · next first rest hclauses =>
    cases chained with
    | true =>
      obtain rfl : ".".intercalate (first :: rest) = package := Option.some.inj h
      exact ⟨first :: rest, hclauses ▸ List.Subset.refl _, names_intercalate _⟩
    | false =>
      obtain rfl : first = package := Option.some.inj h
      exact ⟨[first], by simp [hclauses], by simp⟩

theorem isPlain_of_package? (h : package? chained text = some package) : ∀ n ∈ names package, IsPlain n := by
  obtain ⟨used, hused, hnames⟩ := names_of_package? h
  intro n hn
  rw [hnames] at hn
  obtain ⟨clause, hclause, hn⟩ := List.mem_flatMap.1 hn
  exact isPlain_of_mem_clauses (hused hclause) hn

/-! ## Directories that end with names -/

/-- **All names can be taken off** just where the directory ends with them. -/
theorem exists_strip?_iff {d : Path} {ns : List String} :
    (∃ r, strip? d ns = some r) ↔ ns.reverse.map .name <:+ d.components := by
  constructor
  · rintro ⟨r, hr⟩
    exact ⟨r.components, (components_of_strip? hr).symm⟩
  · intro h
    induction ns generalizing d with
    | nil => exact ⟨d, rfl⟩
    | cons n ns ih =>
      obtain ⟨front, hfront⟩ := h
      rw [List.reverse_cons, List.map_append, ← List.append_assoc] at hfront
      have hlast : d.components.getLast? = some (.name n) := by rw [← hfront]; exact List.getLast?_concat
      have hparent := Path.components_parent? d
      rw [if_neg (by rintro (he | he) <;> simp [he] at hlast)] at hparent
      obtain ⟨parent, hp, hcomponents⟩ := Option.map_eq_some_iff.1 hparent
      have hrest : ns.reverse.map Component.name <:+ parent.components := by
        rw [hcomponents, ← hfront, List.map_singleton, List.dropLast_concat]
        exact List.suffix_append _ _
      obtain ⟨r, hr⟩ := ih hrest
      exact ⟨r, by rw [strip?, if_pos (Path.fileName?_of_getLast? hlast), hp, Option.bind_some, hr]⟩

/-- the package that a file is found to be of -/
def packageOf? (t : FileTree) (chained : Bool) (file : Path) : Option String :=
  (t.readText file).toOption.bind (package? chained)

theorem isPlain_of_packageOf? {t : FileTree} {file : Path} (h : packageOf? t chained file = some package) :
    ∀ n ∈ names package, IsPlain n := by
  obtain ⟨text, -, htext⟩ := Option.bind_eq_some_iff.1 h
  exact isPlain_of_package? htext

theorem ofFile?_eq_some {t : FileTree} {file d : Path} (hd : file.parent? = some d) :
    ofFile? t chained file = some (ofPackage d (packageOf? t chained file)) := by
  rw [ofFile?, hd, Option.map_some, packageOf?]

/-- **The whole package is taken off, or nothing.** Only a path without a parent has no root. The root of any other file
is its directory, or the names of the package that is found, joined to the root one by one, give the directory; and so
it is wherever the directory ends with these names. -/
theorem ofFile?_strips (t : FileTree) (chained : Bool) (file : Path) :
    (ofFile? t chained file = none ↔ file.parent? = none) ∧
      ∀ d, file.parent? = some d → ∃ r, ofFile? t chained file = some r ∧
        (r = d ∨ ∃ package, packageOf? t chained file = some package ∧ (r.under (names package)).same d = true) ∧
        ∀ package, packageOf? t chained file = some package → (names package).map .name <:+ d.components →
          (r.under (names package)).same d = true := by
  constructor
  · rw [ofFile?, Option.map_eq_none_iff]
  · intro d hd
    rw [ofFile?_eq_some hd]
    refine ⟨_, rfl, ?_⟩
    cases hpackage : packageOf? t chained file with
    | none => exact ⟨.inl rfl, fun _ h => by cases h⟩
    | some package =>
      have hwhole : ∀ r, strip? d (names package).reverse = some r → (r.under (names package)).same d = true := by
        intro r hr
        rw [Path.same_iff, Path.components_under (isPlain_of_packageOf? hpackage), components_of_strip? hr,
          List.reverse_reverse]
      rw [ofPackage_some]
      cases hs : strip? d (names package).reverse with
      | some r => exact ⟨.inr ⟨package, rfl, hwhole r hs⟩, by rintro _ ⟨⟩ -; exact hwhole r hs⟩
      | none =>
        refine ⟨.inl rfl, ?_⟩
        rintro _ ⟨⟩ hends
        obtain ⟨r, hr⟩ := exists_strip?_iff.2 (by rwa [List.reverse_reverse])
        rw [hs] at hr
        cases hr

/-- the chained clauses of a file end the directory, in whatever spelling, and the first one alone does not -/
theorem core_strips :
    Path.parent? ⟨"/ws//app/./acme/core/Core.scala"⟩ = some ⟨"/ws//app/./acme/core"⟩ ∧
      packageOf? Mapping.writtenSources true ⟨"/ws//app/./acme/core/Core.scala"⟩ = some "acme.core" ∧
      (names "acme.core").map .name <:+ Path.components ⟨"/ws//app/./acme/core"⟩ ∧
      (∃ r, ofFile? Mapping.writtenSources true ⟨"/ws//app/./acme/core/Core.scala"⟩ = some r ∧
        (r.under (names "acme.core")).same ⟨"/ws//app/./acme/core"⟩ = true) ∧
      ofFile? Mapping.writtenSources false ⟨"/ws//app/./acme/core/Core.scala"⟩ = some ⟨"/ws//app/./acme/core"⟩ := by
  have hparent : Path.parent? ⟨"/ws//app/./acme/core/Core.scala"⟩ = some ⟨"/ws//app/./acme/core"⟩ := by decide +kernel
  have hpackage : packageOf? Mapping.writtenSources true ⟨"/ws//app/./acme/core/Core.scala"⟩ = some "acme.core" := by
    decide +kernel
  have hends : (names "acme.core").map .name <:+ Path.components ⟨"/ws//app/./acme/core"⟩ := by decide +kernel
  obtain ⟨-, hroot⟩ := ofFile?_strips Mapping.writtenSources true ⟨"/ws//app/./acme/core/Core.scala"⟩
  obtain ⟨r, hr, -, hwhole⟩ := hroot _ hparent
  exact ⟨hparent, hpackage, hends, ⟨r, hr, hwhole _ hpackage hends⟩, by decide +kernel⟩

end SourceRoot

end BuildImport
