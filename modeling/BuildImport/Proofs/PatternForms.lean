/-
What the usual forms of a pattern select, and how the patterns of a view work together.

- `selects_subtree_iff`: `//p/...` and `//p/...:all` select the targets of the package `p` and of those below it. A
  package whose name goes on behind `p` without a slash is not below it.
- `selects_package_iff`: `//p`, `//p:all`, `//p:*` and `//p:all-targets` select the targets of `p` alone.
- `selectsLabel_perm`: the order of the patterns does not count.
- `selectsLabel_added_iff`, `selectsLabel_taken_iff`: one more pattern adds what it selects and no exclusion takes away;
  with a mark in front it takes away what it selects, wherever it stands.
- `selectsLabel_buildArgs`: the arguments of a build are the patterns in another order (`buildArgs_perm`), and a view of
  them selects the same.

`patterns_select_exactly` puts these together. It says nothing about forms in which `p` ends in a slash or in dots: with
`p` a slash the first of them is for everything (`Boundless`).
-/
import Mathlib.Tactic
import BuildImport.Proofs.WrittenViews

namespace BuildImport

open Text

/-! ## Ends of texts -/

namespace Text

theorem not_endsWith_slashes {ending s : String} (h : endsWith ending s = false) (hone : ending ≠ "/" ++ s)
    (htwo : ending ≠ "//" ++ s) : endsWith ending ("//" ++ s) = false := by
  rw [endsWith, ← Bool.not_eq_true, List.isSuffixOf_iff_suffix] at h ⊢
  intro hend
  have hend : ending.toList <:+ '/' :: '/' :: s.toList := by simpa using hend
  rcases List.suffix_cons_iff.1 hend with heq | hend
  · exact htwo (String.toList_inj.1 (by simpa using heq))
  · rcases List.suffix_cons_iff.1 hend with heq | hend
    · exact hone (String.toList_inj.1 (by simpa using heq))
    · exact h hend

theorem trimEnd_of_not_endsWith {s : String} (h : endsWith "/" s = false) : trimEnd '/' s = s := by
  rw [← String.toList_inj, toList_trimEnd, List.rdropWhile_eq_self_iff]
  intro hne hlast
  have hend : ['/'] <:+ s.toList := by
    rw [← List.dropLast_append_getLast hne, beq_iff_eq.1 hlast]
    exact List.suffix_append _ _
  rw [endsWith, ← Bool.not_eq_true, List.isSuffixOf_iff_suffix] at h
  exact h hend

theorem trimEnd_append_slash (s : String) : trimEnd '/' (s ++ "/") = trimEnd '/' s := by
  rw [← String.toList_inj, toList_trimEnd, toList_trimEnd, String.toList_append]
  exact List.rdropWhile_concat_pos _ _ _ rfl

theorem mem_of_cutFirst {c : Char} {s : List Char} {parts : List Char × List Char} (h : cutFirst c s = some parts) :
    c ∈ s := by
  rw [eq_of_cutFirst h]
  exact List.mem_append_right _ List.mem_cons_self

theorem cutFirst_eq_none {c : Char} {s : List Char} (h : c ∉ s) : cutFirst c s = none :=
  Option.eq_none_iff_forall_ne_some.2 fun _ hcut => h (mem_of_cutFirst hcut)

end Text

namespace ProjectView

variable {p q e pattern label : String}

/-! ## Forms of patterns -/

/-- what stands for a package in a pattern: no blanks, no colon, and neither a slash nor dots at the end -/
structure NamesPackage (p : String) : Prop where
  nonempty : p ≠ ""
  clear : p.toList.any isBlank = false
  colon : ':' ∉ p.toList
  slash : endsWith "/" p = false
  dots : endsWith "..." p = false

/-- what stands behind a package in the patterns for it and all below it -/
def subtreeEnds : List String := ["/...", "/...:all"]

/-- what stands behind a package in the patterns for it alone: nothing, or a word for all of its targets -/
def packageEnds : List String := "" :: wholePackage.map (":" ++ ·)

theorem clear_of_mem_ends (he : e ∈ subtreeEnds ++ packageEnds) : e.toList.any isBlank = false := by
  have hall : ∀ e ∈ subtreeEnds ++ packageEnds, e.toList.any isBlank = false := by decide
  exact hall e he

theorem neat_of_clear {s : String} (hne : s ≠ "") (h : s.toList.any isBlank = false) : Neat s where
  nonempty := hne
  front c hc := Bool.eq_false_iff.2 (List.any_eq_false.1 h c (List.mem_of_head? hc))
  back c hc := Bool.eq_false_iff.2 (List.any_eq_false.1 h c (List.mem_of_getLast? hc))

theorem NamesPackage.neat (h : NamesPackage p) (he : e ∈ subtreeEnds ++ packageEnds) : Neat ("//" ++ p ++ e) := by
  apply neat_of_clear
  · simp [h.nonempty]
  · have hslashes : "//".toList.any isBlank = false := by decide
    rw [String.toList_append, String.toList_append, List.any_append, List.any_append, hslashes, h.clear,
      clear_of_mem_ends he]
    rfl

theorem unmarked_form (p e : String) : startsWith exclusion ("//" ++ p ++ e) = false := by
  simp [startsWith, exclusion, List.isPrefixOf]

theorem NamesPackage.not_endsWith_slash (h : NamesPackage p) : endsWith "/" ("//" ++ p) = false := by
  apply not_endsWith_slashes h.slash
  · intro heq
    simp [← String.toList_inj, h.nonempty] at heq
  · intro heq
    simp [← String.toList_inj] at heq

theorem NamesPackage.not_endsWith_dots (h : NamesPackage p) : endsWith "..." ("//" ++ p) = false := by
  apply not_endsWith_slashes h.dots
  · intro heq
    simp [← String.toList_inj] at heq
  · intro heq
    simp [← String.toList_inj] at heq

/-! ## What they select -/

/-- only labels of the main workspace with a package and a name are selected -/
theorem target_of_selects (h : selects pattern label = true) : startsWith "//" label = true ∧ ':' ∈ label.toList := by
  rw [selects, Bool.and_eq_true] at h
  obtain ⟨hmain, h⟩ := h
  refine ⟨hmain, ?_⟩
  cases hcut : cutFirst ':' label.toList with
  | none => simp [hcut] at h
  | some parts => exact mem_of_cutFirst hcut

theorem NamesPackage.subtree?_eq_some (h : NamesPackage p) (he : e ∈ subtreeEnds) :
    subtree? ("//" ++ p ++ e) = some ("//" ++ p) := by
  have hsplit : ∀ dots : String, "//" ++ p ++ ("/" ++ dots) = "//" ++ p ++ "/" ++ dots :=
    fun _ => String.append_assoc.symm
  refine subtree?_eq_some_iff.2 ⟨"//" ++ p ++ "/", ?_, ?_⟩
  · simp only [subtreeEnds, List.mem_cons, List.not_mem_nil, or_false] at he
    rcases he with rfl | rfl
    · exact .inl (hsplit "...")
    · exact .inr (hsplit "...:all")
  · rw [trimEnd_append_slash, trimEnd_of_not_endsWith h.not_endsWith_slash]

theorem subtree?_eq_none (hdots : endsWith "..." pattern = false) (hall : endsWith "...:all" pattern = false) :
    subtree? pattern = none := by
  simp [subtree?, dropSuffix?, hdots, hall]

theorem NamesPackage.subtree?_eq_none (h : NamesPackage p) (he : e ∈ packageEnds) :
    subtree? ("//" ++ p ++ e) = none := by
  rcases List.mem_cons.1 he with rfl | he
  · rw [String.append_empty]
    apply ProjectView.subtree?_eq_none h.not_endsWith_dots
    rw [endsWith, ← Bool.not_eq_true, List.isSuffixOf_iff_suffix]
    intro hend
    have hcolon : ':' ∈ ("//" ++ p).toList := hend.mem (by decide)
    simp [h.colon] at hcolon
  · obtain ⟨word, hword, rfl⟩ := List.mem_map.1 he
    have hdots := h.not_endsWith_dots
    simp only [wholePackage, List.mem_cons, List.not_mem_nil, or_false] at hword
    -- the ends are told apart by their last characters, and behind `:all` dots would be those of `p`
    apply ProjectView.subtree?_eq_none
    · rcases hword with rfl | rfl | rfl <;> simp [endsWith, List.isSuffixOf, List.isPrefixOf]
    · rcases hword with rfl | rfl | rfl
      · simpa [endsWith, List.isSuffixOf, List.isPrefixOf] using hdots
      · simp [endsWith, List.isSuffixOf, List.isPrefixOf]
      · simp [endsWith, List.isSuffixOf, List.isPrefixOf]

/-- **Patterns for a package and all below it.** -/
theorem selects_subtree_iff (h : NamesPackage p) (he : e ∈ subtreeEnds) (hq : ':' ∉ q.toList) (name : String) :
    selects ("//" ++ p ++ e) ("//" ++ q ++ ":" ++ name) = true ↔ q = p ∨ startsWith (p ++ "/") q = true := by
  have hbelow : startsWith ("//" ++ p ++ "/") ("//" ++ q) = startsWith (p ++ "/") q := by
    rw [String.append_assoc, startsWith_append_append]
  rw [selects_target hq, h.subtree?_eq_some he]
  simp [hbelow]

/-- **Patterns for a package alone.** -/
theorem selects_package_iff (h : NamesPackage p) (he : e ∈ packageEnds) (hq : ':' ∉ q.toList) (name : String) :
    selects ("//" ++ p ++ e) ("//" ++ q ++ ":" ++ name) = true ↔ q = p := by
  have hsame : ("//" ++ p == "//" ++ q) = true ↔ q = p := by
    rw [beq_iff_eq, eq_comm]
    simp
  rw [selects_target hq, h.subtree?_eq_none he]
  rcases List.mem_cons.1 he with rfl | he
  · rw [String.append_empty, cutFirst_eq_none (by simp [h.colon])]
    exact hsame
  · obtain ⟨word, hword, rfl⟩ := List.mem_map.1 he
    have hwhole : wholePackage.contains word = true := List.contains_iff_mem.2 hword
    rw [← String.append_assoc, cutFirst_target h.colon word]
    simp only [String.ofList_toList, hwhole, if_true]
    exact hsame

/-! ## Patterns in a view -/

variable {v w : ProjectView}

/-- **The order of the patterns does not count.** -/
theorem selectsLabel_perm (h : v.patterns.Perm w.patterns) (label : String) :
    v.selectsLabel label = w.selectsLabel label := by
  have hincluded : v.included.Perm w.included := h.filter _
  have hexcluded : v.excluded.Perm w.excluded := h.filterMap _
  rw [selectsLabel, selectsLabel, hincluded.any_eq, hexcluded.any_eq]

theorem ofPatterns_perm {ps qs : List String} (h : ps.Perm qs) :
    (ofPatterns ps).patterns.Perm (ofPatterns qs).patterns :=
  (h.map _).filter _

theorem ofPatterns_cons_of_neat (h : Neat pattern) (ps : List String) :
    ofPatterns (pattern :: ps) = ⟨pattern :: (ofPatterns ps).patterns⟩ := by
  obtain ⟨htrim, hne⟩ := neat_iff.1 h
  have hcons := ofPatterns_cons pattern ps
  rw [htrim, if_neg hne] at hcons
  rw [← hcons]

theorem Neat.marked (h : Neat pattern) : Neat (exclusion ++ pattern) where
  nonempty := by simp [exclusion]
  front := by
    intro c hc
    have hc : '-' = c := by simpa [exclusion] using hc
    subst hc
    decide
  back := by
    intro c hc
    rw [String.toList_append, List.getLast?_append_of_ne_nil _ (String.toList_eq_nil_iff.not.2 h.nonempty)] at hc
    exact h.back c hc

theorem selectsLabel_iff :
    v.selectsLabel label = true ↔
      (∃ x ∈ v.included, selects x label = true) ∧ ∀ x ∈ v.excluded, selects x label = false := by
  simp [selectsLabel]

theorem selectsLabel_cons_unmarked (h : startsWith exclusion pattern = false) (v : ProjectView) (label : String) :
    selectsLabel ⟨pattern :: v.patterns⟩ label = true ↔
      v.selectsLabel label = true ∨ selects pattern label = true ∧ ∀ x ∈ v.excluded, selects x label = false := by
  cases v with
  | mk ps =>
    obtain ⟨hi, he⟩ := parts_unmarked h ps
    rw [selectsLabel_iff, selectsLabel_iff, hi, he]
    simp only [List.mem_cons, exists_eq_or_imp]
    rw [or_and_right, or_comm]

theorem selectsLabel_cons_marked (pattern : String) (v : ProjectView) (label : String) :
    selectsLabel ⟨(exclusion ++ pattern) :: v.patterns⟩ label = true ↔
      v.selectsLabel label = true ∧ selects pattern label = false := by
  cases v with
  | mk ps =>
    obtain ⟨hi, he⟩ := parts_marked pattern ps
    rw [selectsLabel_iff, selectsLabel_iff, hi, he, List.forall_mem_cons, and_left_comm, and_comm]

theorem selectsLabel_alone (hneat : Neat pattern) (hmark : startsWith exclusion pattern = false) (label : String) :
    (ofPatterns [pattern]).selectsLabel label = selects pattern label := by
  rw [Bool.eq_iff_iff, ofPatterns_cons_of_neat hneat, selectsLabel_cons_unmarked hmark]
  simp [selectsLabel, ofPatterns, included, excluded]

/-- **One more pattern** adds what it selects and no exclusion takes away. -/
theorem selectsLabel_added_iff (hneat : Neat pattern) (hmark : startsWith exclusion pattern = false)
    (before after : List String) (label : String) :
    (ofPatterns (before ++ pattern :: after)).selectsLabel label = true ↔
      (ofPatterns (before ++ after)).selectsLabel label = true ∨
        selects pattern label = true ∧ ∀ x ∈ (ofPatterns (before ++ after)).excluded, selects x label = false := by
  rw [selectsLabel_perm (ofPatterns_perm List.perm_middle), ofPatterns_cons_of_neat hneat,
    selectsLabel_cons_unmarked hmark]

/-- **One more exclusion** takes away what its pattern selects, wherever it stands. -/
theorem selectsLabel_taken_iff (hneat : Neat pattern) (before after : List String) (label : String) :
    (ofPatterns (before ++ (exclusion ++ pattern) :: after)).selectsLabel label = true ↔
      (ofPatterns (before ++ after)).selectsLabel label = true ∧ selects pattern label = false := by
  rw [selectsLabel_perm (ofPatterns_perm List.perm_middle), ofPatterns_cons_of_neat hneat.marked,
    selectsLabel_cons_marked]

/-! ## Arguments of a build -/

theorem neat_of_mem_ofPatterns {ps : List String} (h : pattern ∈ (ofPatterns ps).patterns) : Neat pattern := by
  obtain ⟨hmem, hne⟩ := List.mem_filter.1 h
  obtain ⟨written, -, rfl⟩ := List.mem_map.1 hmem
  exact neat_iff.2 ⟨trim_trim isBlank written, by simpa using hne⟩

/-- the arguments of a build are the patterns, those that take away at the end -/
theorem buildArgs_perm (ps : List String) : (buildArgs ⟨ps⟩).Perm ps := by
  induction ps with
  | nil => exact .refl _
  | cons p ps ih =>
    rcases unmarked_or_marked p with h | ⟨rest, rfl⟩
    · obtain ⟨hi, he⟩ := parts_unmarked h ps
      rw [buildArgs, hi, he]
      exact ih.cons p
    · obtain ⟨hi, he⟩ := parts_marked rest ps
      rw [buildArgs, hi, he]
      exact List.perm_middle.trans (ih.cons _)

/-- **A view of the arguments of a build selects what the view does.** -/
theorem selectsLabel_buildArgs (ps : List String) (label : String) :
    (ofPatterns (ofPatterns ps).buildArgs).selectsLabel label = (ofPatterns ps).selectsLabel label := by
  have hneat : ofPatterns (ofPatterns ps).patterns = ofPatterns ps := ofPatterns_of_neat fun _ => neat_of_mem_ofPatterns
  rw [selectsLabel_perm (ofPatterns_perm (buildArgs_perm (ofPatterns ps).patterns)), hneat]

/-- **What patterns select.** Only labels of the main workspace with a package and a name are selected. The patterns for
`p` and all below it select the targets of `p` and of packages that go on behind it with a slash, those for `p` alone
the targets of `p`. Wherever such a pattern stands in a view, it adds what it selects by itself and no exclusion takes
away; with a mark in front it takes away what it selects by itself, and nothing else. The order does not count, and the
arguments of a build select the same. -/
theorem patterns_select_exactly :
    (∀ ps label, (ofPatterns ps).selectsLabel label = true → startsWith "//" label = true ∧ ':' ∈ label.toList) ∧
    (∀ p q name, NamesPackage p → ':' ∉ q.toList →
      (∀ e ∈ subtreeEnds, (ofPatterns ["//" ++ p ++ e]).selectsLabel ("//" ++ q ++ ":" ++ name) = true ↔
        q = p ∨ startsWith (p ++ "/") q = true) ∧
      ∀ e ∈ packageEnds, (ofPatterns ["//" ++ p ++ e]).selectsLabel ("//" ++ q ++ ":" ++ name) = true ↔ q = p) ∧
    (∀ p e, NamesPackage p → e ∈ subtreeEnds ++ packageEnds → ∀ before after label,
      ((ofPatterns (before ++ ("//" ++ p ++ e) :: after)).selectsLabel label = true ↔
        (ofPatterns (before ++ after)).selectsLabel label = true ∨
          (ofPatterns ["//" ++ p ++ e]).selectsLabel label = true ∧
            ∀ x ∈ (ofPatterns (before ++ after)).excluded, selects x label = false) ∧
      ((ofPatterns (before ++ ("-" ++ ("//" ++ p ++ e)) :: after)).selectsLabel label = true ↔
        (ofPatterns (before ++ after)).selectsLabel label = true ∧
          (ofPatterns ["//" ++ p ++ e]).selectsLabel label = false)) ∧
    (∀ ps qs : List String, ps.Perm qs → ∀ label,
      (ofPatterns ps).selectsLabel label = (ofPatterns qs).selectsLabel label) ∧
    ∀ ps label, (ofPatterns (ofPatterns ps).buildArgs).selectsLabel label = (ofPatterns ps).selectsLabel label := by
  have halone : ∀ p e, NamesPackage p → e ∈ subtreeEnds ++ packageEnds → ∀ label,
      (ofPatterns ["//" ++ p ++ e]).selectsLabel label = selects ("//" ++ p ++ e) label :=
    fun p e hp he => selectsLabel_alone (hp.neat he) (unmarked_form p e)
  refine ⟨?_, ?_, ?_, fun ps qs h => selectsLabel_perm (ofPatterns_perm h), selectsLabel_buildArgs⟩
  · intro ps label h
    obtain ⟨⟨x, -, hx⟩, -⟩ := selectsLabel_iff.1 h
    exact target_of_selects hx
  · intro p q name hp hq
    constructor
    · intro e he
      rw [halone p e hp (List.mem_append_left _ he)]
      exact selects_subtree_iff hp he hq name
    · intro e he
      rw [halone p e hp (List.mem_append_right _ he)]
      exact selects_package_iff hp he hq name
  · intro p e hp he before after label
    rw [halone p e hp he]
    constructor
    · exact selectsLabel_added_iff (hp.neat he) (unmarked_form p e) before after label
    · exact selectsLabel_taken_iff (hp.neat he) before after label

/-- a package below `a/b` and one beside it, in views with `//a/b/...` and without it -/
theorem package_below_selected :
    NamesPackage "a/b" ∧ ':' ∉ "a/b/c".toList ∧ ':' ∉ "a/bc".toList ∧
      (ofPatterns ["//a/b/..."]).selectsLabel "//a/b/c:x" = true ∧
      (ofPatterns ["//a/b/..."]).selectsLabel "//a/bc:x" = false ∧
      (ofPatterns ["//a/b:*"]).selectsLabel "//a/b/c:x" = false ∧
      (ofPatterns ["-//a/b/...", "//..."]).selectsLabel "//a/b/c:x" = false ∧
      (ofPatterns ["-//a/b/...", "//..."]).selectsLabel "//a/bc:x" = true := by
  have hp : NamesPackage "a/b" := ⟨by decide, by decide, by decide, by decide, by decide⟩
  have hbelow : ':' ∉ "a/b/c".toList := by decide
  have hbeside : ':' ∉ "a/bc".toList := by decide
  obtain ⟨-, hforms, hviews, -, -⟩ := patterns_select_exactly
  obtain ⟨hsubtree, hpackage⟩ := hforms "a/b" "a/b/c" "x" hp hbelow
  obtain ⟨hbesides, -⟩ := hforms "a/b" "a/bc" "x" hp hbeside
  have hselected : (ofPatterns ["//a/b/..."]).selectsLabel "//a/b/c:x" = true :=
    (hsubtree "/..." (by decide)).2 (.inr (by decide))
  have hmissed : (ofPatterns ["//a/b/..."]).selectsLabel "//a/bc:x" = false :=
    Bool.eq_false_iff.2 fun h => absurd ((hbesides "/..." (by decide)).1 h) (by decide)
  have hpart : (ofPatterns ["//a/b:*"]).selectsLabel "//a/b/c:x" = false :=
    Bool.eq_false_iff.2 fun h => absurd ((hpackage ":*" (by decide)).1 h) (by decide)
  have htaken : ∀ label, (ofPatterns ["-//a/b/...", "//..."]).selectsLabel label = true ↔
      (ofPatterns ["//..."]).selectsLabel label = true ∧ (ofPatterns ["//a/b/..."]).selectsLabel label = false :=
    fun label => (hviews "a/b" "/..." hp (by decide) [] ["//..."] label).2
  refine ⟨hp, hbelow, hbeside, hselected, hmissed, hpart, Bool.eq_false_iff.2 fun h => ?_, ?_⟩
  · have hno := ((htaken "//a/b/c:x").1 h).2
    rw [hselected] at hno
    cases hno
  · exact (htaken "//a/bc:x").2 ⟨by decide, hmissed⟩

end ProjectView

end BuildImport
