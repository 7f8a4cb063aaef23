/-
The topmost directories of an import of a part of the workspace.

Base directories are grouped by their texts. A text is `Minimal` if no other base directory's text is a beginning of it.
The scan that finds the groups only compares a text with the last one it kept; `minimal_iff_mem_topmost` says that this
is enough, because in their order the texts that begin alike stand together.

- `exists_minimal`, `Minimal.unique`: every base directory's text begins with exactly one minimal text.
- `make_marks_topmost`: an import of a part makes a placeholder for just the minimal texts that are no source root, in
  the order of their bytes. Grouping goes by texts, source roots are compared by components.
-/
import Mathlib.Tactic
import BuildImport.Proofs.ByteOrder
import BuildImport.Proofs.Placeholders

namespace BuildImport

open Text

namespace Placeholder

/-! ## Minimal texts -/

/-- the text of a base directory, and no other base directory's text is a beginning of it -/
structure Minimal (ms : List Module) (text : String) : Prop where
  listed : ∃ x ∈ ms, x.baseDirectory.text = text
  first : ∀ x ∈ ms, x.baseDirectory.text.toList <+: text.toList → x.baseDirectory.text = text

instance (ms : List Module) (text : String) : Decidable (Minimal ms text) :=
  decidable_of_iff
    ((∃ x ∈ ms, x.baseDirectory.text = text) ∧
      ∀ x ∈ ms, x.baseDirectory.text.toList <+: text.toList → x.baseDirectory.text = text)
    ⟨fun h => ⟨h.1, h.2⟩, fun h => ⟨h.1, h.2⟩⟩

variable {ms : List Module} {text : String}

/-- **The scan keeps the minimal texts.** -/
theorem minimal_iff_mem_topmost : Minimal ms text ↔ (⟨text⟩ : Path) ∈ topmost ms := by
  have htext : ∀ x : Module, x.baseDirectory = ⟨text⟩ ↔ x.baseDirectory.text = text := by
    intro x
    constructor
    · intro h
      rw [h]
    · rintro rfl
      rfl
  rw [mem_topmost_iff]
  simp only [htext, startsWith_iff]
  exact ⟨fun h => ⟨h.listed, h.first⟩, fun h => ⟨h.1, h.2⟩⟩

/-- of two minimal texts with which a third one begins, one is a beginning of the other, and so the other -/
theorem Minimal.unique {front front' : String} (h : Minimal ms front) (h' : Minimal ms front')
    (hb : front.toList <+: text.toList) (hb' : front'.toList <+: text.toList) : front = front' := by
  obtain ⟨x, hx, hxt⟩ := h.listed
  obtain ⟨y, hy, hyt⟩ := h'.listed
  rcases List.prefix_or_prefix_of_prefix hb hb' with hle | hle
  · rw [← hxt]
    exact h'.first x hx (by rw [hxt]; exact hle)
  · rw [← hyt]
    exact (h.first y hy (by rw [hyt]; exact hle)).symm

/-- the shortest base directory that a text begins with is minimal -/
theorem exists_minimal {x : Module} (hx : x ∈ ms) :
    ∃ front, Minimal ms front ∧ front.toList <+: x.baseDirectory.text.toList := by
  induction hn : x.baseDirectory.text.toList.length using Nat.strong_induction_on generalizing x with
  | _ n ih =>
    by_cases hmin : Minimal ms x.baseDirectory.text
    · exact ⟨_, hmin, List.prefix_refl _⟩
    · obtain ⟨y, hy, hyx, hne⟩ : ∃ y ∈ ms, y.baseDirectory.text.toList <+: x.baseDirectory.text.toList ∧
          y.baseDirectory.text ≠ x.baseDirectory.text := by
        by_contra hno
        push Not at hno
        exact hmin ⟨⟨x, hx, rfl⟩, fun y hy hyx => hno y hy hyx⟩
      have hlt : y.baseDirectory.text.toList.length < n := by
        apply lt_of_le_of_ne (hn ▸ hyx.length_le)
        intro heq
        exact hne (String.toList_inj.1 (hyx.eq_of_length (heq.trans hn.symm)))
      obtain ⟨front, hfront, hb⟩ := ih _ hlt hy rfl
      exact ⟨front, hfront, hb.trans hyx⟩

/-! ## The placeholders of an import of a part -/

theorem isSourceRoot_iff {d : Path} :
    isSourceRoot ms d = true ↔ ∃ x ∈ ms, ∃ root ∈ x.sourceSet.roots.toList, root.same d = true := by
  simp only [isSourceRoot, SortedSet.contains, Path.compare_beq_eq_same, List.any_eq_true]
  refine exists_congr fun x => and_congr_right fun _ => exists_congr fun root => and_congr_right fun _ => ?_
  exact ⟨Path.same_symm, Path.same_symm⟩

variable {workspace : Path} {view : ProjectView}

/-- the directories of the placeholders, in their order -/
theorem directories_make (h : view.isFull = false) :
    (make workspace ms view).map (·.baseDirectory) = (topmost ms).filter fun d => !isSourceRoot ms d := by
  unfold make
  rw [if_neg (by simp [h]), List.map_map]
  exact List.map_id' _

theorem exists_make_iff (h : view.isFull = false) :
    (∃ x ∈ make workspace ms view, x.baseDirectory.text = text) ↔ Minimal ms text ∧ isSourceRoot ms ⟨text⟩ = false := by
  have hmem : (∃ x ∈ make workspace ms view, x.baseDirectory.text = text) ↔
      (⟨text⟩ : Path) ∈ (make workspace ms view).map (·.baseDirectory) := by
    rw [List.mem_map]
    refine exists_congr fun x => and_congr_right fun _ => ⟨?_, ?_⟩
    · rintro rfl
      rfl
    · intro hx
      rw [hx]
  rw [hmem, directories_make h, List.mem_filter, ← minimal_iff_mem_topmost, Bool.not_eq_true']

/-- **Where placeholders stand.** An import of a part of the workspace has a placeholder for each minimal text of a base
directory, unless this is a source root in some spelling, and for nothing else. They come in the strict order of their
bytes, so there is one for each. And every base directory's text begins with exactly one minimal text, whether there is
a placeholder for it or not. -/
theorem make_marks_topmost (h : view.isFull = false) :
    ((make workspace ms view).map (·.baseDirectory.text)).Pairwise (fun a b => bytes a < bytes b) ∧
    (∀ text, text ∈ (make workspace ms view).map (·.baseDirectory.text) ↔
      Minimal ms text ∧ ∀ x ∈ ms, ∀ root ∈ x.sourceSet.roots.toList, root.components ≠ (⟨text⟩ : Path).components) ∧
    ∀ x ∈ ms, ∃! text, Minimal ms text ∧ text.toList <+: x.baseDirectory.text.toList := by
  refine ⟨?_, ?_, ?_⟩
  · have hdirectories : (make workspace ms view).map (·.baseDirectory) = _ := directories_make h
    have htexts : (make workspace ms view).map (·.baseDirectory.text) =
        ((topmost ms).filter fun d => !isSourceRoot ms d).map Path.text := by
      rw [← hdirectories, List.map_map]
      rfl
    rw [htexts, List.pairwise_map]
    exact ((pairwise_topmost ms).filter _).imp bytes_lt_iff.2
  · intro text
    rw [List.mem_map, exists_make_iff h, ← Bool.not_eq_true, isSourceRoot_iff]
    simp only [Path.same_iff]
    push Not
    rfl
  · intro x hx
    obtain ⟨front, hmin, hb⟩ := exists_minimal hx
    exact ⟨front, ⟨hmin, hb⟩, fun other ho => ho.1.unique hmin ho.2 hb⟩

/-- a module in this directory with these source roots -/
def rootedAt (label directory : String) (roots : List String) : Module :=
  { label := ⟨label⟩, baseDirectory := ⟨directory⟩, sourceSet := { roots := .ofList (roots.map Path.mk) } }

/-- packages below two directories; one of these is a source root in another spelling, and the name of a third
directory begins as the other one's does -/
def neighbours : List Module :=
  [rootedAt "//x/y:y" "/ws/x/y" ["/ws/x//y/"], rootedAt "//a/b/c:c" "/ws/a/b/c" ["/ws/a/b/c/src"],
   rootedAt "//a/bc:bc" "/ws/a/bc" [], rootedAt "//a/b:b" "/ws/a/b" [], rootedAt "//a/b:tests" "/ws/a/b" []]

/-- a view of a part of the workspace -/
def partView : ProjectView := .ofPatterns ["//a/...", "//x/..."]

/-- of `neighbours` one directory has a placeholder; a text that it begins is under it, whatever its components are -/
theorem neighbours_marked :
    partView.isFull = false ∧
      ((make ⟨"/ws"⟩ neighbours partView).map (·.baseDirectory.text)).Pairwise (fun a b => bytes a < bytes b) ∧
      "/ws/a/b" ∈ (make ⟨"/ws"⟩ neighbours partView).map (·.baseDirectory.text) ∧
      "/ws/a/bc" ∉ (make ⟨"/ws"⟩ neighbours partView).map (·.baseDirectory.text) ∧
      "/ws/x/y" ∉ (make ⟨"/ws"⟩ neighbours partView).map (·.baseDirectory.text) ∧
      ∃! text, Minimal neighbours text ∧ text.toList <+: "/ws/a/bc".toList := by
  have hpart : partView.isFull = false := by decide
  obtain ⟨hascending, hmarked, hone⟩ := @make_marks_topmost neighbours ⟨"/ws"⟩ partView hpart
  refine ⟨hpart, hascending, ?_, ?_, ?_, hone (rootedAt "//a/bc:bc" "/ws/a/bc" []) (by simp [neighbours])⟩
  · exact (hmarked "/ws/a/b").2 ⟨by decide, by decide⟩
  · intro h
    exact absurd ((hmarked "/ws/a/bc").1 h).1 (by decide)
  · intro h
    exact absurd ((hmarked "/ws/x/y").1 h).2 (by decide)

end Placeholder

end BuildImport
