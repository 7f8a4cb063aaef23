/-
Package clauses that stand later in a file.

Where clauses are chained, a file is of the package that all its clauses name together, wherever they stand: names of
later lines are added to those of earlier ones (`chainedNames_append`), whatever lies between. So what follows a line may
always change the root, whatever that line is, unless nothing that may follow lets the names end the directory of the
file (`later_text_ignored_iff`). Then the root is that directory in any case.

`later_comment_counts` is about a comment behind a class, one line of which begins like a clause.
-/
import Mathlib.Tactic
import BuildImport.Proofs.PackageNames
import BuildImport.Proofs.SoundTrees

namespace BuildImport

open Text Outcome

/-! ## Lines -/

namespace Text

/-- the lines of a text whose pieces between line feeds are known -/
theorem lines_of_splitOn {s : String} {ended : List (List Char)} {last : List Char}
    (h : splitOn '\n' s.toList = ended ++ [last]) :
    lines s = (ended.map fun line => if line.getLast? = some '\r' then line.dropLast else line) ++
      (if last.isEmpty then [] else [last]) := by
  simp only [lines, h, List.reverse_append, List.reverse_singleton, List.singleton_append, List.reverse_reverse]

/-- what follows a line feed has lines of its own -/
theorem lines_append (a b : String) : lines (a ++ "\n" ++ b) = lines (a ++ "\n") ++ lines b := by
  obtain ⟨ended, last, hb⟩ : ∃ ended last, splitOn '\n' b.toList = ended ++ [last] :=
    ⟨_, _, (List.dropLast_append_getLast (splitOn_ne_nil '\n' b.toList)).symm⟩
  have ha : splitOn '\n' (a ++ "\n").toList = splitOn '\n' a.toList ++ [[]] := by
    rw [String.toList_append]
    exact splitOn_append '\n' a.toList []
  have hab : splitOn '\n' (a ++ "\n" ++ b).toList = (splitOn '\n' a.toList ++ ended) ++ [last] := by
    rw [List.append_assoc, ← hb, ← splitOn_append]
    simp
  rw [lines_of_splitOn hab, lines_of_splitOn ha, lines_of_splitOn hb]
  simp

/-- no word holds a blank -/
theorem isBlank_of_isWord {c : Char} (h : isWord c = true) : isBlank c = false := by
  have hapart : ∀ code ∈ blankCodes, (wordRanges.any fun r => r.1 ≤ code && code ≤ r.2) = false := by decide +kernel
  rw [← Bool.not_eq_true, isBlank, List.contains_iff_mem]
  intro hmem
  rw [isWord, hapart _ hmem] at h
  cases h

end Text

/-- a file that can be read could hold any other text, unless it is a device -/
theorem FileTree.exists_readText {t : FileTree} {file : Path} {text : String} (h : t.readText file = .ok text)
    (hne : text ≠ "") (text' : String) : ∃ t' : FileTree, t'.readText file = .ok text' := by
  obtain ⟨bytes, hread, htext⟩ := bind_eq_ok_iff.1 h
  obtain ⟨⟨key, n⟩, hfind, hbytes⟩ := bind_eq_ok_iff.1 hread
  cases n with
  | directory => cases hbytes
  | sink =>
    cases hbytes
    exact absurd (Except.ok.inj htext).symm hne
  | file content =>
    obtain ⟨place, hplace, hat⟩ := bind_eq_ok_iff.1 hfind
    cases place with
    | directory key' => cases hat
    | named key' slash =>
      obtain ⟨rfl, hnode, hends⟩ := at?_named_eq_ok_iff.1 hat
      obtain rfl : slash = false := hends.resolve_left nofun
      obtain ⟨-, hkey⟩ := fileName?_of_locate hplace
      have hkeeps : t.Keeps (t.set key (.file text'.toUTF8)) := keeps_set t hkey (by rw [hnode]; exact nofun)
      refine ⟨t.set key (.file text'.toUTF8), ?_⟩
      rw [readText, read_of_locate (locate_of_keeps hkeeps hplace) (by rw [node?_set t hkey, if_pos rfl])]
      exact textOf_toUTF8 text'

namespace SourceRoot

variable {t : FileTree} {file d : Path} {ns : List String}

/-! ## Chains of clauses -/

theorem clauses_append (a b : String) : clauses (a ++ "\n" ++ b) = clauses (a ++ "\n") ++ clauses b := by
  rw [clauses, lines_append, List.filterMap_append]
  rfl

/-- the names of all clauses of a text -/
def chainedNames (text : String) : List String := (clauses text).flatMap names

theorem chainedNames_append (a b : String) :
    chainedNames (a ++ "\n" ++ b) = chainedNames (a ++ "\n") ++ chainedNames b := by
  rw [chainedNames, clauses_append, List.flatMap_append]
  rfl

theorem isPlain_of_mem_chainedNames {text n : String} (h : n ∈ chainedNames text) : IsPlain n := by
  obtain ⟨clause, hclause, hn⟩ := List.mem_flatMap.1 h
  exact isPlain_of_mem_clauses hclause hn

/-- nothing follows a word where no blank does -/
theorem afterWord?_eq_none {word line : List Char} (h : ∀ c ∈ line, isBlank c = false) :
    afterWord? word line = none := by
  unfold afterWord?
  split_ifs
  · split
    · next c rest hdrop =>
      have hc : c ∈ line := List.mem_of_mem_drop (hdrop ▸ List.mem_cons_self)
      rw [h c hc]
      rfl
    · rfl
  · rfl

/-- a line may name any plain name -/
theorem clause?_of_isPlain {n : String} (h : IsPlain n) : clause? ("package ".toList ++ n.toList) = some n := by
  have hblank : ∀ c ∈ n.toList, isBlank c = false := fun c hc => isBlank_of_isWord (h.2 c hc)
  have hstart : ("package ".toList ++ n.toList).dropWhile isBlank = "package ".toList ++ n.toList := rfl
  have hrest : n.toList.dropWhile isBlank = n.toList := by
    rw [List.dropWhile_eq_self_iff]
    intro hlength
    simp [hblank _ (List.getElem_mem hlength)]
  have hword : afterWord? "package".toList ("package ".toList ++ n.toList) = some (n.toList.dropWhile isBlank) := rfl
  have hname : nameAt n.toList = n.toList := by
    rw [nameAt, List.takeWhile_eq_self_iff]
    intro c hc
    simp [isNameChar, h.2 c hc]
  have hne : n.toList.isEmpty = false := by simpa using h.1
  rw [clause?, hstart, hword, hrest, Option.bind_eq_bind, Option.bind_some, afterWord?_eq_none hblank, hname]
  simp [hne]

/-- a text of one clause for each name -/
def chain : List String → String
  | [] => ""
  | n :: ns => "package " ++ n ++ "\n" ++ chain ns

theorem names_of_isPlain {n : String} (h : IsPlain n) : names n = [n] := by
  have hdot : splitOn '.' n.toList = [n.toList] := splitOn_of_not_mem (h.not_mem (isWord_of_lt (by decide)))
  have hne : n.toList.isEmpty = false := by simpa using h.1
  rw [names, hdot]
  simp [hne]

/-- every list of plain names is that of a text -/
theorem chainedNames_chain (h : ∀ n ∈ ns, IsPlain n) : chainedNames (chain ns) = ns := by
  induction ns with
  | nil => rfl
  | cons n ns ih =>
    have hn : IsPlain n := h n List.mem_cons_self
    have hfeed : '\n' ∉ n.toList := hn.not_mem (isWord_of_lt (by decide))
    have hreturn : '\r' ∉ n.toList := hn.not_mem (isWord_of_lt (by decide))
    have hsplit : splitOn '\n' ("package " ++ n ++ "\n").toList = ["package ".toList ++ n.toList] ++ [[]] := by
      rw [String.toList_append, String.toList_append]
      refine (splitOn_append '\n' _ []).trans ?_
      rw [splitOn_of_not_mem (by simp [hfeed])]
      rfl
    have hline : lines ("package " ++ n ++ "\n") = ["package ".toList ++ n.toList] := by
      have hlast : ("package ".toList ++ n.toList).getLast? ≠ some '\r' := by
        intro he
        have hmem := List.mem_of_getLast? he
        simp [hreturn] at hmem
      rw [lines_of_splitOn hsplit, List.map_singleton, if_neg hlast]
      rfl
    have hclauses : clauses ("package " ++ n ++ "\n") = [n] := by
      rw [clauses, hline, List.filterMap_cons_some (clause?_of_isPlain hn), List.filterMap_nil]
    rw [chain, chainedNames_append, chainedNames, hclauses, List.flatMap_singleton, names_of_isPlain hn,
      ih fun m hm => h m (List.mem_cons_of_mem _ hm)]
    rfl

/-! ## Roots of chains -/

/-- the directory without these names at its end, or the directory itself -/
def rootOf (d : Path) (ns : List String) : Path := (strip? d ns.reverse).getD d

theorem ofPackage_chained (d : Path) (text : String) :
    ofPackage d (package? true text) = rootOf d (chainedNames text) := by
  unfold package? chainedNames
  split
  · next hnone => rw [hnone]; rfl
  · next first rest hsome => rw [hsome, if_pos rfl, ofPackage_some, names_intercalate, rootOf]

theorem ofFile?_chained (hd : file.parent? = some d) {text : String} (h : t.readText file = .ok text) :
    ofFile? t true file = some (rootOf d (chainedNames text)) := by
  have hpackage : packageOf? t true file = package? true text := by rw [packageOf?, h]; rfl
  rw [ofFile?_eq_some hd, hpackage, ofPackage_chained]

/-- the root is the directory itself unless it ends with the names -/
theorem rootOf_eq_self_iff : rootOf d ns = d ↔ ns = [] ∨ ¬ ns.map .name <:+ d.components := by
  have hends : (∃ r, strip? d ns.reverse = some r) ↔ ns.map .name <:+ d.components := by
    rw [exists_strip?_iff, List.reverse_reverse]
  rw [rootOf, ← hends]
  cases hs : strip? d ns.reverse with
  | none => simp
  | some r =>
    have hcomponents := components_of_strip? hs
    rw [List.reverse_reverse] at hcomponents
    constructor
    · intro he
      obtain rfl : r = d := he
      exact .inl (by simpa using hcomponents)
    · rintro (rfl | hno)
      · exact (Option.some.inj hs).symm
      · exact absurd ⟨r, rfl⟩ hno

/-- **When later text does not count.** What follows a line of a file never changes the root just if no further names
let those of the clauses up to there end the file's directory. -/
theorem later_text_ignored_iff {front rest : String} (hd : file.parent? = some d)
    (hread : t.readText file = .ok (front ++ "\n" ++ rest)) :
    (∀ t' rest', t'.readText file = .ok (front ++ "\n" ++ rest') → ofFile? t' true file = ofFile? t true file) ↔
      ¬ ∃ more, (∀ n ∈ more, IsPlain n) ∧ chainedNames (front ++ "\n") ++ more ≠ [] ∧
        (chainedNames (front ++ "\n") ++ more).map .name <:+ d.components := by
  have hroot : ∀ t' rest', t'.readText file = .ok (front ++ "\n" ++ rest') →
      ofFile? t' true file = some (rootOf d (chainedNames (front ++ "\n") ++ chainedNames rest')) := by
    intro t' rest' h'
    rw [ofFile?_chained hd h', chainedNames_append]
  constructor
  · rintro hsame ⟨more, hplain, hsome, hends⟩
    -- with `more` names are taken off, and with more names than the directory has components none are
    have hne : front ++ "\n" ++ rest ≠ "" := by simp
    have hx : ∀ n ∈ List.replicate (d.components.length + 1) "x", IsPlain n := by
      intro n hn
      rw [List.eq_of_mem_replicate hn]
      decide
    obtain ⟨t₁, h₁⟩ := FileTree.exists_readText hread hne (front ++ "\n" ++ chain more)
    obtain ⟨t₂, h₂⟩ :=
      FileTree.exists_readText hread hne (front ++ "\n" ++ chain (List.replicate (d.components.length + 1) "x"))
    have heq := (hroot _ _ h₁).symm.trans ((hsame _ _ h₁).trans ((hsame _ _ h₂).symm.trans (hroot _ _ h₂)))
    rw [chainedNames_chain hplain, chainedNames_chain hx, Option.some_inj] at heq
    have hlong : rootOf d (chainedNames (front ++ "\n") ++ List.replicate (d.components.length + 1) "x") = d := by
      refine rootOf_eq_self_iff.2 (.inr fun hsuffix => ?_)
      have hle := hsuffix.length_le
      simp only [List.length_map, List.length_append, List.length_replicate] at hle
      omega
    rcases rootOf_eq_self_iff.1 (heq.trans hlong) with hnil | hno
    · exact hsome hnil
    · exact hno hends
  · intro hno t' rest' h'
    have hself : ∀ text, rootOf d (chainedNames (front ++ "\n") ++ chainedNames text) = d := by
      intro text
      refine rootOf_eq_self_iff.2 (or_iff_not_imp_left.2 fun hsome hends => ?_)
      exact hno ⟨chainedNames text, fun n hn => isPlain_of_mem_chainedNames hn, hsome, hends⟩
    rw [hroot t' rest' h', hroot t rest hread, hself, hself]

/-- a class behind a clause, and what follows it, in a directory of the package and in another one -/
def packagedClass (later : String) : FileTree :=
  ⟨.ofList
    [(["src"], .directory), (["src", "acme"], .directory),
     (["src", "acme", "A.scala"], .file ("package acme\n\nclass A" ++ "\n" ++ later).toUTF8),
     (["lib"], .directory), (["lib", "A.scala"], .file ("package acme\n\nclass A" ++ "\n" ++ later).toUTF8)], []⟩

theorem readText_packagedClass (later : String) :
    (packagedClass later).readText ⟨"/src/acme/A.scala"⟩ = .ok ("package acme\n\nclass A" ++ "\n" ++ later) ∧
      (packagedClass later).readText ⟨"/lib/A.scala"⟩ = .ok ("package acme\n\nclass A" ++ "\n" ++ later) := by
  have hread : ∀ p key, (packagedClass later).locate p = .ok (.named key false) →
      (packagedClass later).node? key = some (.file ("package acme\n\nclass A" ++ "\n" ++ later).toUTF8) →
      (packagedClass later).readText p = .ok ("package acme\n\nclass A" ++ "\n" ++ later) := by
    intro p key hplace hnode
    rw [FileTree.readText, FileTree.read_of_locate hplace hnode]
    exact FileTree.textOf_toUTF8 _
  exact ⟨hread _ _ rfl rfl, hread _ _ rfl rfl⟩

/-- in the directory of the package later text counts, in the other one it does not -/
theorem packagedClass_ignored_iff :
    Path.parent? ⟨"/src/acme/A.scala"⟩ = some ⟨"/src/acme"⟩ ∧ Path.parent? ⟨"/lib/A.scala"⟩ = some ⟨"/lib"⟩ ∧
      (¬ ∀ t' rest', t'.readText ⟨"/src/acme/A.scala"⟩ = .ok ("package acme\n\nclass A" ++ "\n" ++ rest') →
        ofFile? t' true ⟨"/src/acme/A.scala"⟩ = ofFile? (packagedClass "") true ⟨"/src/acme/A.scala"⟩) ∧
      ∀ t' rest', t'.readText ⟨"/lib/A.scala"⟩ = .ok ("package acme\n\nclass A" ++ "\n" ++ rest') →
        ofFile? t' true ⟨"/lib/A.scala"⟩ = ofFile? (packagedClass "") true ⟨"/lib/A.scala"⟩ := by
  have hacme : Path.parent? ⟨"/src/acme/A.scala"⟩ = some ⟨"/src/acme"⟩ := rfl
  have hlib : Path.parent? ⟨"/lib/A.scala"⟩ = some ⟨"/lib"⟩ := rfl
  have hnames : chainedNames ("package acme\n\nclass A" ++ "\n") = ["acme"] := rfl
  refine ⟨hacme, hlib, fun hignored => ?_, ?_⟩
  · refine (later_text_ignored_iff hacme (readText_packagedClass "").1).1 hignored ⟨[], by simp, ?_, ?_⟩
    · rw [hnames]
      decide
    · rw [hnames]
      decide
  · refine (later_text_ignored_iff hlib (readText_packagedClass "").2).2 ?_
    rintro ⟨more, -, -, hends⟩
    rw [hnames] at hends
    have hmem : Component.name "acme" ∈ Path.components ⟨"/lib"⟩ := hends.subset List.mem_cons_self
    exact absurd hmem (by decide)

/-- the last line stands behind a clause and is neither one itself nor blank -/
def IsInterrupted (front : String) : Prop :=
  ∃ before line, lines (front ++ "\n") = before ++ [line] ∧ (∃ l ∈ before, (clause? l).isSome = true) ∧
    clause? line = none ∧ ∃ c ∈ line, isBlank c = false

/-- **A comment behind a class changes the root**, since a line of it begins like a clause. -/
theorem later_comment_counts :
    IsInterrupted "package acme\n\nclass A" ∧
      (packagedClass "").readText ⟨"/src/acme/A.scala"⟩ = .ok ("package acme\n\nclass A" ++ "\n" ++ "") ∧
      (packagedClass "/*\n package private\n */\n").readText ⟨"/src/acme/A.scala"⟩ =
        .ok ("package acme\n\nclass A" ++ "\n" ++ "/*\n package private\n */\n") ∧
      ofFile? (packagedClass "") true ⟨"/src/acme/A.scala"⟩ = some ⟨"/src"⟩ ∧
      ofFile? (packagedClass "/*\n package private\n */\n") true ⟨"/src/acme/A.scala"⟩ = some ⟨"/src/acme"⟩ := by
  have hinterrupted : IsInterrupted "package acme\n\nclass A" :=
    ⟨["package acme".toList, []], "class A".toList, by decide +kernel, ⟨_, List.mem_cons_self, by decide +kernel⟩,
      by decide +kernel, 'c', by decide +kernel, by decide +kernel⟩
  exact ⟨hinterrupted, (readText_packagedClass _).1, (readText_packagedClass _).1, by decide +kernel, by decide +kernel⟩

end SourceRoot

end BuildImport
