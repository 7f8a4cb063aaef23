/-
Which directories a tree with placeholders covers, and where placeholders stand in covered ground.

A directory is covered if it lies at or below a placeholder or a source root, by components. Placeholders are made by
texts, so the two may differ: a text that begins another one may break off in the middle of a name (`CutsName`), and
then the other directory does not lie below it.

- `isAbove_of_beginning`, `isAbove_join_iff`: a beginning that breaks off no name is a directory above; of directories
  of packages no others are.
- `coverage_exactly`: an import of the whole workspace covers every base directory. One of a part covers those that lie
  below a minimal directory or a source root. This leaves out no directory but one whose name goes on behind the name of
  a minimal one, as that of `/ws/a/bc` behind `/ws/a/b` (`longer_name_left_out`).
- `unplanted_iff`: a directory that lies below a source root has a placeholder unless it is a source root itself
  (`package_planted_inside`). There is none where every source root lies below a base directory.
-/
import Mathlib.Tactic
import BuildImport.Proofs.Parents
import BuildImport.Proofs.Topmost

namespace BuildImport

open Text

/-! ## Beginnings of directories -/

namespace Path

instance (p q : Path) : Decidable (p.IsAbove q) := by
  unfold IsAbove; infer_instance

theorem IsAbove.trans {p q r : Path} (h : p.IsAbove q) (h' : q.IsAbove r) : p.IsAbove r :=
  List.IsPrefix.trans h h'

theorem IsAbove.antisymm {p q : Path} (h : p.IsAbove q) (h' : q.IsAbove p) : p.components = q.components :=
  List.IsPrefix.eq_of_length_le h h'.length_le

/-- `front` breaks off in the middle of a name of `text` -/
def CutsName (front text : String) : Prop :=
  ¬ Closed front.toList ∧ ∃ c rest, text.toList = front.toList ++ c :: rest ∧ c ≠ '/'

theorem CutsName.beginning {front text : String} (h : CutsName front text) : front.toList <+: text.toList := by
  obtain ⟨-, c, rest, htext, -⟩ := h
  exact ⟨c :: rest, htext.symm⟩

/-- what follows a slash adds components -/
theorem components_slash (front rest : List Char) :
    components ⟨String.ofList (front ++ '/' :: rest)⟩ =
      componentsOf (splitOn '/' front ++ [[]]) ++ (splitOn '/' rest).filterMap Component.ofPiece? := by
  rw [components, pieces, String.toList_ofList, splitOn_append,
    componentsOf_append (splitOn_ne_nil _ _) (splitOn_ne_nil _ _)]

theorem isAbove_of_slash {front text : String} {rest : List Char} (h : text.toList = front.toList ++ '/' :: rest) :
    IsAbove ⟨front⟩ ⟨text⟩ := by
  have htext : text = String.ofList (front.toList ++ '/' :: rest) := by rw [← h, String.ofList_toList]
  by_cases hempty : front = ""
  · rw [IsAbove, components_eq_nil hempty]
    exact List.nil_prefix
  · have hne : pieces ⟨front⟩ ≠ [[]] := fun hp => hempty (pieces_eq_singleton_nil hp)
    have hfront : componentsOf (splitOn '/' front.toList ++ [[]]) = components ⟨front⟩ :=
      componentsOf_append_nil (pieces_ne_nil _) hne
    rw [IsAbove, htext, components_slash, hfront]
    exact List.prefix_append _ _

theorem isAbove_of_closed {front text : String} {rest : List Char} (hclosed : Closed front.toList)
    (h : text.toList = front.toList ++ rest) : IsAbove ⟨front⟩ ⟨text⟩ := by
  rcases List.eq_nil_or_concat' front.toList with hnil | ⟨before, d, hd⟩
  · rw [IsAbove, components_eq_nil (String.toList_eq_nil_iff.1 hnil)]
    exact List.nil_prefix
  · obtain rfl : d = '/' := hclosed d (by simp [hd])
    have hfront : front = String.ofList (before ++ '/' :: []) := by rw [← hd, String.ofList_toList]
    have htext : text = String.ofList (before ++ '/' :: rest) := by
      rw [← String.ofList_toList (s := text), h, hd, List.append_assoc, List.singleton_append]
    rw [IsAbove, hfront, htext, components_slash, components_slash, List.prefix_append_right_inj]
    exact List.nil_prefix

/-- **A beginning that breaks off no name is a directory above.** -/
theorem isAbove_of_beginning {front text : String} (h : front.toList <+: text.toList) (hcut : ¬ CutsName front text) :
    IsAbove ⟨front⟩ ⟨text⟩ := by
  obtain ⟨rest, hrest⟩ := h
  by_cases hclosed : Closed front.toList
  · exact isAbove_of_closed hclosed hrest.symm
  · cases rest with
    | nil =>
      rw [List.append_nil, String.toList_inj] at hrest
      rw [hrest]
      exact .refl _
    | cons c rest =>
      obtain rfl : c = '/' := by
        by_contra hc
        exact hcut ⟨hclosed, c, rest, hrest.symm, hc⟩
      exact isAbove_of_slash hrest.symm

/-- **Of directories of packages no others are above.** -/
theorem isAbove_join_iff (base : Path) {a b : String} (ha : Canonical a) (hb : Canonical b) :
    (base.join ⟨a⟩).IsAbove (base.join ⟨b⟩) ↔
      (base.join ⟨a⟩).text.toList <+: (base.join ⟨b⟩).text.toList ∧
        ¬ CutsName (base.join ⟨a⟩).text (base.join ⟨b⟩).text := by
  constructor
  · intro h
    have htext : ∀ {c : String}, Canonical c → (base.join ⟨c⟩).text.toList = base.lead.toList ++ c.toList := by
      intro c hc
      rw [join_eq, if_neg (by simp [hc.not_absolute]), String.toList_append]
    rw [IsAbove, components_join base ha, components_join base hb, List.prefix_append_right_inj] at h
    rcases ha.tail_prefix hb h with rfl | rfl | ⟨rest, rfl⟩
    · refine ⟨?_, fun hcut => hcut.1 ?_⟩
      · rw [htext ha, htext hb, List.prefix_append_right_inj]
        exact List.nil_prefix
      · rw [htext ha, String.toList_empty, List.append_nil]
        exact base.closed_lead
    · refine ⟨List.prefix_refl _, fun ⟨_, c, rest, he, _⟩ => ?_⟩
      simp at he
    · refine ⟨?_, fun ⟨_, c, more, he, hc⟩ => hc ?_⟩
      · rw [htext ha, htext hb, List.prefix_append_right_inj, String.append_assoc, String.toList_append]
        exact List.prefix_append _ _
      · rw [htext ha, htext hb] at he
        have he : '/' :: rest.toList = c :: more := by simpa using he
        exact (List.cons.inj he).1.symm
  · rintro ⟨hbegin, hcut⟩
    exact isAbove_of_beginning hbegin hcut

end Path

namespace Module

variable {workspace : Path} {x y : Module}

theorem Located.isAbove (hx : x.Located workspace) : workspace.IsAbove x.baseDirectory := by
  obtain ⟨package, -, hc, hb⟩ := hx
  rw [hb, Path.IsAbove, Path.components_join workspace hc]
  exact List.prefix_append _ _

/-- where modules stand in the directories of their packages, one stands below another one just if its text goes on
behind the other one's without breaking off a name -/
theorem Located.isAbove_iff (hx : x.Located workspace) (hy : y.Located workspace) :
    x.baseDirectory.IsAbove y.baseDirectory ↔
      x.baseDirectory.text.toList <+: y.baseDirectory.text.toList ∧
        ¬ Path.CutsName x.baseDirectory.text y.baseDirectory.text := by
  obtain ⟨a, -, ha, hxa⟩ := hx
  obtain ⟨b, -, hb, hyb⟩ := hy
  rw [hxa, hyb]
  exact Path.isAbove_join_iff workspace ha hb

end Module

namespace Placeholder

variable {workspace : Path} {ms : List Module} {view : ProjectView} {d : Path}

/-! ## Covered directories -/

/-- the directory is a source root of one of the modules, in some spelling -/
def IsRoot (ms : List Module) (d : Path) : Prop :=
  ∃ x ∈ ms, ∃ root ∈ x.sourceSet.roots.toList, root.components = d.components

/-- a source root of one of the modules is the directory or lies above it -/
def RootAbove (ms : List Module) (d : Path) : Prop := ∃ x ∈ ms, ∃ root ∈ x.sourceSet.roots.toList, root.IsAbove d

/-- the directory lies at or below a placeholder or a source root -/
def Covered (workspace : Path) (ms : List Module) (view : ProjectView) (d : Path) : Prop :=
  (∃ x ∈ make workspace ms view, x.baseDirectory.IsAbove d) ∨ RootAbove ms d

instance (ms : List Module) (d : Path) : Decidable (RootAbove ms d) := by
  unfold RootAbove; infer_instance

theorem isRoot_iff : isSourceRoot ms d = true ↔ IsRoot ms d := by
  rw [isSourceRoot_iff]
  simp only [Path.same_iff, IsRoot]

theorem not_isRoot_iff : isSourceRoot ms d = false ↔ ¬ IsRoot ms d := by
  rw [← isRoot_iff, Bool.not_eq_true]

theorem IsRoot.rootAbove {d' : Path} (h : IsRoot ms d) (hd : d.IsAbove d') : RootAbove ms d' := by
  obtain ⟨x, hx, root, hroot, heq⟩ := h
  refine ⟨x, hx, root, hroot, ?_⟩
  rw [Path.IsAbove, heq]
  exact hd

/-- the one placeholder of an import of the whole workspace -/
theorem exists_make_full_iff (h : view.isFull = true) (p : Path → Prop) :
    (∃ x ∈ make workspace ms view, p x.baseDirectory) ↔ ¬ IsRoot ms workspace ∧ p workspace := by
  unfold make
  rw [if_pos h]
  cases hroot : isSourceRoot ms workspace with
  | true =>
    have hr : IsRoot ms workspace := isRoot_iff.1 hroot
    simp [hr]
  | false =>
    have hr : ¬ IsRoot ms workspace := not_isRoot_iff.1 hroot
    simp [hr, ofDirectory]

/-- the placeholders of an import of a part -/
theorem exists_make_part_iff (h : view.isFull = false) (p : Path → Prop) :
    (∃ x ∈ make workspace ms view, p x.baseDirectory) ↔
      ∃ text, Minimal ms text ∧ ¬ IsRoot ms ⟨text⟩ ∧ p ⟨text⟩ := by
  constructor
  · rintro ⟨x, hx, hp⟩
    obtain ⟨hmin, hroot⟩ := (exists_make_iff h).1 ⟨x, hx, rfl⟩
    exact ⟨x.baseDirectory.text, hmin, not_isRoot_iff.1 hroot, hp⟩
  · rintro ⟨text, hmin, hroot, hp⟩
    obtain ⟨x, hx, rfl⟩ : ∃ x ∈ make workspace ms view, x.baseDirectory.text = text :=
      (exists_make_iff h).2 ⟨hmin, not_isRoot_iff.2 hroot⟩
    exact ⟨x, hx, hp⟩

/-- an import of the whole workspace covers what lies in it -/
theorem covered_of_full (h : view.isFull = true) (hd : workspace.IsAbove d) : Covered workspace ms view d := by
  by_cases hroot : IsRoot ms workspace
  · exact .inr (hroot.rootAbove hd)
  · exact .inl ((exists_make_full_iff h (·.IsAbove d)).2 ⟨hroot, hd⟩)

/-- an import of a part covers what lies below minimal directories and source roots -/
theorem covered_of_part_iff (h : view.isFull = false) :
    Covered workspace ms view d ↔ RootAbove ms d ∨ ∃ text, Minimal ms text ∧ (⟨text⟩ : Path).IsAbove d := by
  unfold Covered
  rw [exists_make_part_iff h (·.IsAbove d)]
  constructor
  · rintro (⟨text, hmin, -, hd⟩ | hroot)
    · exact .inr ⟨text, hmin, hd⟩
    · exact .inl hroot
  · rintro (hroot | ⟨text, hmin, hd⟩)
    · exact .inr hroot
    · by_cases hr : IsRoot ms ⟨text⟩
      · exact .inr (hr.rootAbove hd)
      · exact .inl ⟨text, hmin, hr, hd⟩

/-- **Which base directories are covered.** Where all base directories lie in the workspace, an import of all of it
covers each of them. One of a part covers those at or below a source root or a minimal directory. A base directory that
is not covered goes on behind a minimal text in the middle of a name. Where modules stand in the directories of their
packages, every one that does so and has no source root at or above it is left out. -/
theorem coverage_exactly {x : Module} (hin : ∀ y ∈ ms, workspace.IsAbove y.baseDirectory) (hx : x ∈ ms) :
    (Covered workspace ms view x.baseDirectory ↔
      view.isFull = true ∨ RootAbove ms x.baseDirectory ∨
        ∃ text, Minimal ms text ∧ (⟨text⟩ : Path).IsAbove x.baseDirectory) ∧
    (Covered workspace ms view x.baseDirectory ∨
      ∃ text, Minimal ms text ∧ Path.CutsName text x.baseDirectory.text) ∧
    ((∀ y ∈ ms, y.Located workspace) →
      (Covered workspace ms view x.baseDirectory ↔
        view.isFull = true ∨ RootAbove ms x.baseDirectory ∨
          ∀ text, Minimal ms text → ¬ Path.CutsName text x.baseDirectory.text)) := by
  have hcovered : Covered workspace ms view x.baseDirectory ↔
      view.isFull = true ∨ RootAbove ms x.baseDirectory ∨
        ∃ text, Minimal ms text ∧ (⟨text⟩ : Path).IsAbove x.baseDirectory := by
    cases hfull : view.isFull with
    | true => exact iff_of_true (covered_of_full hfull (hin x hx)) (.inl rfl)
    | false => simp [covered_of_part_iff hfull]
  obtain ⟨front, hmin, hbegin⟩ := exists_minimal hx
  refine ⟨hcovered, ?_, fun hl => ?_⟩
  · by_cases hcut : Path.CutsName front x.baseDirectory.text
    · exact .inr ⟨front, hmin, hcut⟩
    · exact .inl (hcovered.2 (.inr (.inr ⟨front, hmin, Path.isAbove_of_beginning hbegin hcut⟩)))
  · rw [hcovered]
    refine or_congr_right (or_congr_right ⟨?_, ?_⟩)
    · rintro ⟨text, htext, habove⟩ other hother hcut
      obtain ⟨y, hy, rfl⟩ := htext.listed
      obtain ⟨hbegins, hno⟩ := ((hl y hy).isAbove_iff (hl x hx)).1 habove
      rw [hother.unique htext hcut.beginning hbegins] at hcut
      exact hno hcut
    · intro hno
      exact ⟨front, hmin, Path.isAbove_of_beginning hbegin (hno front hmin)⟩

/-- two packages side by side, and the name of the second one goes on behind the name of the first -/
def longerName : List Module := [rootedAt "//a/b:b" "/ws/a/b" [], rootedAt "//a/bc:bc" "/ws/a/bc" []]

theorem located_longerName : ∀ y ∈ longerName, y.Located ⟨"/ws"⟩ := by
  intro y hy
  simp only [longerName, List.mem_cons, List.not_mem_nil, or_false] at hy
  rcases hy with rfl | rfl
  · exact ⟨"a/b", rfl, by decide, by decide⟩
  · exact ⟨"a/bc", rfl, by decide, by decide⟩

/-- the first of them is covered and the second one is left out, as its name goes on in the middle -/
theorem longerName_coverage :
    (∀ y ∈ longerName, Path.IsAbove ⟨"/ws"⟩ y.baseDirectory) ∧ (∀ y ∈ longerName, y.Located ⟨"/ws"⟩) ∧
      rootedAt "//a/b:b" "/ws/a/b" [] ∈ longerName ∧ rootedAt "//a/bc:bc" "/ws/a/bc" [] ∈ longerName ∧
      Covered ⟨"/ws"⟩ longerName partView ⟨"/ws/a/b"⟩ ∧ ¬ Covered ⟨"/ws"⟩ longerName partView ⟨"/ws/a/bc"⟩ := by
  have hin : ∀ y ∈ longerName, Path.IsAbove ⟨"/ws"⟩ y.baseDirectory := by decide
  have hfirst : rootedAt "//a/b:b" "/ws/a/b" [] ∈ longerName := by simp [longerName]
  have hsecond : rootedAt "//a/bc:bc" "/ws/a/bc" [] ∈ longerName := by simp [longerName]
  refine ⟨hin, located_longerName, hfirst, hsecond, ?_, ?_⟩
  · obtain ⟨hcovered, -, -⟩ := @coverage_exactly ⟨"/ws"⟩ longerName partView _ hin hfirst
    exact hcovered.2 (.inr (.inr ⟨"/ws/a/b", by decide, by decide⟩))
  · obtain ⟨-, -, hcuts⟩ := @coverage_exactly ⟨"/ws"⟩ longerName partView _ hin hsecond
    intro h
    rcases (hcuts located_longerName).1 h with hfull | hroot | hno
    · exact absurd hfull (by decide)
    · exact absurd hroot (by decide)
    · exact hno "/ws/a/b" (by decide) ⟨by decide, 'c', [], by decide, by decide⟩

/-- **A directory is left out** because its name goes on behind that of another one, which it does not lie below. -/
theorem longer_name_left_out :
    (∀ y ∈ longerName, Path.IsAbove ⟨"/ws"⟩ y.baseDirectory) ∧ partView.isFull = false ∧
      (∃ y ∈ longerName, y.baseDirectory = ⟨"/ws/a/bc"⟩) ∧ ¬ Covered ⟨"/ws"⟩ longerName partView ⟨"/ws/a/bc"⟩ := by
  have hpart : partView.isFull = false := by decide
  refine ⟨by decide, hpart, by decide, ?_⟩
  rw [covered_of_part_iff hpart]
  rintro (hroot | ⟨text, hmin, habove⟩)
  · exact absurd hroot (by decide)
  · obtain ⟨y, hy, rfl⟩ := hmin.listed
    have hno : ∀ y ∈ longerName, Minimal longerName y.baseDirectory.text → ¬ y.baseDirectory.IsAbove ⟨"/ws/a/bc"⟩ := by
      decide
    exact hno y hy hmin habove

/-! ## Placeholders in covered ground -/

/-- where every source root lies at or below a base directory, none lies above a base directory without being it -/
theorem isRoot_of_rootAbove
    (hroots : ∀ y ∈ ms, ∀ root ∈ y.sourceSet.roots.toList, ∃ z ∈ ms, z.baseDirectory.IsAbove root)
    (hd : ∀ z ∈ ms, z.baseDirectory.IsAbove d → d.IsAbove z.baseDirectory) (h : RootAbove ms d) : IsRoot ms d := by
  obtain ⟨y, hy, root, hroot, habove⟩ := h
  obtain ⟨z, hz, hbase⟩ := hroots y hy root hroot
  have hdz : d.IsAbove z.baseDirectory := hd z hz (hbase.trans habove)
  exact ⟨y, hy, root, hroot, habove.antisymm (hdz.trans hbase)⟩

/-- the workspace is marked unless it is a source root itself -/
theorem unplanted_full_iff (h : view.isFull = true) :
    (∀ x ∈ make workspace ms view, ¬ RootAbove ms x.baseDirectory) ↔ (RootAbove ms workspace → IsRoot ms workspace) :=
  calc (∀ x ∈ make workspace ms view, ¬ RootAbove ms x.baseDirectory)
      ↔ ¬ ∃ x ∈ make workspace ms view, RootAbove ms x.baseDirectory := by simp only [not_exists, not_and]
    _ ↔ ¬ (¬ IsRoot ms workspace ∧ RootAbove ms workspace) := not_congr (exists_make_full_iff h (RootAbove ms ·))
    _ ↔ (RootAbove ms workspace → IsRoot ms workspace) := by tauto

/-- a minimal directory is marked unless it is a source root itself -/
theorem unplanted_part_iff (h : view.isFull = false) :
    (∀ x ∈ make workspace ms view, ¬ RootAbove ms x.baseDirectory) ↔
      ∀ text, Minimal ms text → RootAbove ms ⟨text⟩ → IsRoot ms ⟨text⟩ :=
  calc (∀ x ∈ make workspace ms view, ¬ RootAbove ms x.baseDirectory)
      ↔ ¬ ∃ x ∈ make workspace ms view, RootAbove ms x.baseDirectory := by simp only [not_exists, not_and]
    _ ↔ ¬ ∃ text, Minimal ms text ∧ ¬ IsRoot ms ⟨text⟩ ∧ RootAbove ms ⟨text⟩ :=
      not_congr (exists_make_part_iff h (RootAbove ms ·))
    _ ↔ ∀ text, Minimal ms text → RootAbove ms ⟨text⟩ → IsRoot ms ⟨text⟩ := by
      rw [not_exists]
      exact forall_congr' fun text => by tauto

/-- **Where source roots lie below base directories, no placeholder stands in covered ground.** -/
theorem unplanted_of_roots_below (hl : ∀ y ∈ ms, y.Located workspace)
    (hroots : ∀ y ∈ ms, ∀ root ∈ y.sourceSet.roots.toList, ∃ z ∈ ms, z.baseDirectory.IsAbove root) :
    ∀ x ∈ make workspace ms view, ¬ RootAbove ms x.baseDirectory := by
  cases h : view.isFull with
  | true =>
    apply (unplanted_full_iff h).2
    intro hroot
    refine isRoot_of_rootAbove hroots (fun z hz _ => ?_) hroot
    exact (hl z hz).isAbove
  | false =>
    apply (unplanted_part_iff h).2
    intro text hmin hroot
    refine isRoot_of_rootAbove hroots (fun z hz habove => ?_) hroot
    -- the base directory above a minimal one is this one
    obtain ⟨y, hy, rfl⟩ := hmin.listed
    have hbegin := (((hl z hz).isAbove_iff (hl y hy)).1 habove).1
    rw [Path.IsAbove, congrArg Path.mk (hmin.first z hz hbegin).symm]

/-- **Which placeholders stand in covered ground.** An import has no placeholder at or below a source root just if the
directories it would mark (the workspace, or the minimal ones) are source roots where they lie at or below one. So it is
where modules stand in the directories of their packages and every source root lies at or below one of these. -/
theorem unplanted_iff :
    (view.isFull = true → ((∀ x ∈ make workspace ms view, ¬ RootAbove ms x.baseDirectory) ↔
      (RootAbove ms workspace → IsRoot ms workspace))) ∧
    (view.isFull = false → ((∀ x ∈ make workspace ms view, ¬ RootAbove ms x.baseDirectory) ↔
      ∀ text, Minimal ms text → RootAbove ms ⟨text⟩ → IsRoot ms ⟨text⟩)) ∧
    ((∀ y ∈ ms, y.Located workspace) →
      (∀ y ∈ ms, ∀ root ∈ y.sourceSet.roots.toList, ∃ z ∈ ms, z.baseDirectory.IsAbove root) →
      ∀ x ∈ make workspace ms view, ¬ RootAbove ms x.baseDirectory) :=
  ⟨unplanted_full_iff, unplanted_part_iff, unplanted_of_roots_below⟩

/-- the sources of a package lie in its directory, and their source root above -/
def stripped : List Module := [rootedAt "//java/com/acme:acme" "/ws/java/com/acme" ["/ws/java"]]

/-- a view of the packages below a directory -/
def javaView : ProjectView := .ofPatterns ["//java/..."]

theorem located_neighbours : ∀ y ∈ neighbours, y.Located ⟨"/ws"⟩ := by
  intro y hy
  simp only [neighbours, List.mem_cons, List.not_mem_nil, or_false] at hy
  rcases hy with rfl | rfl | rfl | rfl | rfl
  · exact ⟨"x/y", rfl, by decide, by decide⟩
  · exact ⟨"a/b/c", rfl, by decide, by decide⟩
  · exact ⟨"a/bc", rfl, by decide, by decide⟩
  · exact ⟨"a/b", rfl, by decide, by decide⟩
  · exact ⟨"a/b", rfl, by decide, by decide⟩

/-- of `stripped` a minimal directory lies below a source root and is none, which an import of the whole workspace does
not mark; the roots of `neighbours` lie below the base directories -/
theorem stripped_unplanted :
    ProjectView.standard.isFull = true ∧ javaView.isFull = false ∧
      (∀ x ∈ make ⟨"/ws"⟩ stripped .standard, ¬ RootAbove stripped x.baseDirectory) ∧
      ¬ (∀ x ∈ make ⟨"/ws"⟩ stripped javaView, ¬ RootAbove stripped x.baseDirectory) ∧
      (∀ y ∈ neighbours, y.Located ⟨"/ws"⟩) ∧
      (∀ y ∈ neighbours, ∀ root ∈ y.sourceSet.roots.toList, ∃ z ∈ neighbours, z.baseDirectory.IsAbove root) ∧
      ∀ x ∈ make ⟨"/ws"⟩ neighbours partView, ¬ RootAbove neighbours x.baseDirectory := by
  have hfull : ProjectView.standard.isFull = true := by decide
  have hpart : javaView.isFull = false := by decide
  have hroots : ∀ y ∈ neighbours, ∀ root ∈ y.sourceSet.roots.toList,
      ∃ z ∈ neighbours, z.baseDirectory.IsAbove root := by decide
  obtain ⟨hwhole, -, -⟩ := @unplanted_iff ⟨"/ws"⟩ stripped .standard
  obtain ⟨-, hminimal, -⟩ := @unplanted_iff ⟨"/ws"⟩ stripped javaView
  obtain ⟨-, -, hbelow⟩ := @unplanted_iff ⟨"/ws"⟩ neighbours partView
  refine ⟨hfull, hpart, (hwhole hfull).2 fun habove => absurd habove (by decide), fun hno => ?_,
    located_neighbours, hroots, hbelow located_neighbours hroots⟩
  have hroot : IsRoot stripped ⟨"/ws/java/com/acme"⟩ :=
    (hminimal hpart).1 hno "/ws/java/com/acme" (by decide) (by decide)
  exact absurd (isRoot_iff.2 hroot) (by decide)

/-- **A placeholder stands below a source root**, at a package whose source root is stripped of the package's name. -/
theorem package_planted_inside :
    javaView.isFull = false ∧ ∃ x ∈ make ⟨"/ws"⟩ stripped javaView,
      x.baseDirectory = ⟨"/ws/java/com/acme"⟩ ∧ RootAbove stripped x.baseDirectory := by
  have hpart : javaView.isFull = false := by decide
  refine ⟨hpart, ?_⟩
  apply (exists_make_part_iff hpart fun d => d = ⟨"/ws/java/com/acme"⟩ ∧ RootAbove stripped d).2
  refine ⟨"/ws/java/com/acme", by decide, ?_, rfl, by decide⟩
  exact not_isRoot_iff.1 (by decide)

end Placeholder

end BuildImport
