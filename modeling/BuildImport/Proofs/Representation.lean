/-
How the dependencies of a module are represented.

A dependency that is a root is left out of the archives with sources, since roots have modules of their own. Not every
root has one, though: one whose id names no package is passed over, and one of a rule without a module, or marked in its
build file, is hidden. `represented_iff` says which dependencies are represented in one of the two ways, and
`archive_lost` gives one that is in neither.

- `mem_selected_iff`, `exists_imported_iff`: which ids have a module in the end.
- `Plugin.contains_dependencySources`: which archives a module shows.
-/
import Mathlib.Tactic
import BuildImport.Proofs.Closure
import BuildImport.Proofs.Identity

namespace BuildImport

open Std Outcome

/-! ## Roots with a module -/

/-- what hides a target: its rule, or its build file -/
theorem Tag.contains_noIde_iff {r : TargetRecord} :
    (ofRecord r).contains noIde = true ↔ ofRule r.kind = noIde ∨ hiddenMark ∈ r.tags := by
  have hbeq : ∀ t : Tag, (compare noIde t == .eq) = true ↔ t = noIde := by
    intro t
    cases t <;> decide
  unfold ofRecord
  by_cases hm : hiddenMark ∈ r.tags
  · simp [SortedSet.contains_insert, hm]
  · simp [SortedSet.contains_singleton, hm, ← hbeq]

namespace Mapping

variable {m : Mapping} {t : FileTree} {u : Universe} {view : ProjectView} {stop : Bool} {p : Project}

/-- a root with this record has a module: its id names a package, and nothing hides it -/
def Shown (r : TargetRecord) : Prop :=
  (∃ package, Roots.packageOf ⟨r.id⟩ = .ok package) ∧ Tag.ofRule r.kind ≠ .noIde ∧ Tag.hiddenMark ∉ r.tags

theorem mem_selected_iff (hk : u.Keyed) {r : TargetRecord} :
    r ∈ selected u ↔ u.isRoot r.id = true ∧ u.find? r.id = some r := by
  rw [selected, hk.mem_recordsAt, Universe.isRoot, SortedSet.contains_iff_mem, and_comm]

/-- **Which ids have a module.** Those of roots whose record is shown. -/
theorem exists_imported_iff (hk : u.Keyed) {d : String} {s : TargetRecord} (hs : u.find? d = some s) :
    (∃ y ∈ m.imported t u, y.label = ⟨d⟩) ↔ u.isRoot d = true ∧ Shown s := by
  have hid : s.id = d := hk.id_eq hs
  constructor
  · rintro ⟨y, hy, hl⟩
    obtain ⟨r, hr, hmade, htag⟩ := mem_imported.1 hy
    obtain ⟨base, hb, rfl⟩ := createModule_eq_ok_iff.1 hmade
    obtain ⟨hroot, hfind⟩ := (mem_selected_iff hk).1 hr
    obtain rfl : r.id = d := Label.mk.inj hl
    obtain rfl : r = s := Option.some.inj (hfind.symm.trans hs)
    obtain ⟨package, hp, -⟩ := Roots.directoryOf_eq_ok_iff.1 hb
    have hshow : ¬ (Tag.ofRule r.kind = .noIde ∨ Tag.hiddenMark ∈ r.tags) := by
      rw [← Tag.contains_noIde_iff, Bool.not_eq_true]
      exact htag
    rw [not_or] at hshow
    exact ⟨hroot, ⟨package, hp⟩, hshow⟩
  · rintro ⟨hroot, ⟨package, hp⟩, hshow⟩
    subst hid
    have hdir : (m.prepare u).roots.directoryOf ⟨s.id⟩ = .ok (m.roots.workspace.join ⟨package⟩) :=
      Roots.directoryOf_eq_ok_iff.2 ⟨package, hp, rfl⟩
    have htag : (Tag.ofRecord s).contains .noIde = false := by
      rw [← Bool.not_eq_true, Tag.contains_noIde_iff, not_or]
      exact hshow
    refine ⟨_, mem_imported.2 ⟨s, (mem_selected_iff hk).2 ⟨hroot, hs⟩,
      createModule_eq_ok_iff.2 ⟨_, hdir, rfl⟩, htag⟩, rfl⟩

end Mapping

/-! ## Archives with sources -/

namespace Plugin

/-- whether modules for the Java machine are made by it -/
def isJvm : Plugin → Bool
  | scala _ => true
  | java _ => true
  | _ => false

/-- the archive is on the record's own class path of sources, or a compilation wrote it that is reached through a direct
dependency that is no root -/
def Supplies (u : Universe) (record : TargetRecord) (l : FileLocation) : Prop :=
  (∃ info, record.java = some info ∧ l ∈ info.sourceClasspath) ∨
    ∃ d ∈ u.listed record.id, u.isRoot d = false ∧ ∃ b s info,
      u.Reaches d b ∧ u.find? b = some s ∧ s.java = some info ∧ l ∈ sourceJars info

/-- a direct dependency that is no root supplies its own archives -/
theorem supplies_of_not_root {u : Universe} {record s : TargetRecord} {info : JavaInfo} {d : String} {l : FileLocation}
    (hrecord : u.find? record.id = some record) (hd : d ∈ record.dependencies) (hroot : u.isRoot d = false)
    (hs : u.find? d = some s) (hinfo : s.java = some info) (hl : l ∈ sourceJars info) : Supplies u record l := by
  have hlisted : d ∈ u.listed record.id := by
    rw [Universe.listed, hrecord]
    exact hd
  exact .inr ⟨d, hlisted, hroot, d, s, info, .refl (Universe.mem_ids_iff.2 ⟨s, hs⟩), hs, hinfo, hl⟩

/-- **Which archives a module shows.** -/
theorem contains_dependencySources {p : Plugin} (hp : p.isJvm = true) {r : Roots} {t : FileTree} {u : Universe}
    {record : TargetRecord} {info : JavaInfo} (hj : record.java = some info) (file : Path) :
    (p.dependencySources r t u record).contains file = true ↔
      ∃ l, Supplies u record l ∧ file.same (r.resolve t l) = true := by
  have heq : p.dependencySources r t u record =
      .ofList ((info.sourceClasspath ++ ((u.withoutRoots record.id).filterMap (·.java)).flatMap sourceJars).map
        (r.resolve t)) := by
    cases p <;> simp_all [isJvm, dependencySources]
  rw [heq, SortedSet.contains_ofList]
  simp only [Path.compare_beq_eq_same, List.any_map, List.any_eq_true, List.mem_append, List.mem_flatMap,
    List.mem_filterMap, Universe.mem_withoutRoots, Function.comp_apply]
  constructor
  · rintro ⟨l, hl | ⟨i, ⟨s, ⟨d, hd, hroot, b, hb, hs⟩, hi⟩, hl⟩, hsame⟩
    · exact ⟨l, .inl ⟨info, hj, hl⟩, hsame⟩
    · exact ⟨l, .inr ⟨d, hd, hroot, b, s, i, hb, hs, hi, hl⟩, hsame⟩
  · rintro ⟨l, ⟨i, hi, hl⟩ | ⟨d, hd, hroot, b, s, i, hb, hs, hi, hl⟩, hsame⟩
    · obtain rfl : info = i := Option.some.inj (hj.symm.trans hi)
      exact ⟨l, .inl hl, hsame⟩
    · exact ⟨l, .inr ⟨i, ⟨s, ⟨d, hd, hroot, b, hb, hs⟩, hi⟩, hl⟩, hsame⟩

end Plugin

/-! ## Dependencies -/

namespace Mapping

variable {m : Mapping} {t : FileTree} {u : Universe} {view : ProjectView} {stop : Bool} {p : Project}

/-- an import that does not merge gives the imported modules and placeholders -/
theorem mem_modules_iff (hoff : m.merge.enabled = false) (h : m.createProject t u view stop = .ok p) {y : Module} :
    y ∈ p.modules ↔ y ∈ m.imported t u ∨ y ∈ m.placeholdersFor view (m.imported t u) := by
  obtain ⟨-, ms, hms, rfl⟩ := createProject_eq_ok_iff.1 h
  rw [mergeModules_eq_ok_iff, if_neg (by simp [hoff])] at hms
  subst hms
  exact List.mem_append

/-- the module of a record is what its plugin makes of it -/
theorem dependencySources_of_mem_imported (hk : u.Keyed) {x : Module} (hx : x ∈ m.imported t u) {r : TargetRecord}
    (hr : u.find? r.id = some r) (hl : x.label = ⟨r.id⟩) :
    x.dependencySources = ((m.prepare u).pluginFor r).dependencySources m.roots t u r := by
  obtain ⟨r', hr', hmade, -⟩ := mem_imported.1 hx
  obtain ⟨base, -, rfl⟩ := createModule_eq_ok_iff.1 hmade
  have hid : r'.id = r.id := Label.mk.inj hl
  have hfind := ((mem_selected_iff hk).1 hr').2
  rw [hid, hr] at hfind
  obtain rfl : r = r' := Option.some.inj hfind
  rfl

/-- a module with a target is an imported one -/
theorem mem_imported_of_mem_modules (hoff : m.merge.enabled = false) (h : m.createProject t u view stop = .ok p)
    {x : Module} (hx : x ∈ p.modules) (hreal : x.isSynthetic = false) : x ∈ m.imported t u := by
  rcases (mem_modules_iff hoff h).1 hx with hx | hx
  · exact hx
  · have hsynthetic := isSynthetic_of_mem_placeholdersFor hx
    simp [hreal] at hsynthetic

/-- a module has the label if a root with this id is shown, or a placeholder is called so -/
theorem exists_module_iff (hk : u.Keyed) (hoff : m.merge.enabled = false)
    (h : m.createProject t u view stop = .ok p) {d : String} {s : TargetRecord} (hs : u.find? d = some s) :
    (∃ y ∈ p.modules, y.label = ⟨d⟩) ↔
      (u.isRoot d = true ∧ Shown s) ∨ ∃ y ∈ p.modules, y.isSynthetic = true ∧ y.label = ⟨d⟩ := by
  rw [← exists_imported_iff (m := m) (t := t) hk hs]
  constructor
  · rintro ⟨y, hy, hl⟩
    cases hreal : y.isSynthetic with
    | false => exact .inl ⟨y, mem_imported_of_mem_modules hoff h hy hreal, hl⟩
    | true => exact .inr ⟨y, hy, hreal, hl⟩
  · rintro (⟨y, hy, hl⟩ | ⟨y, hy, -, hl⟩)
    · exact ⟨y, (mem_modules_iff hoff h).2 (.inl hy), hl⟩
    · exact ⟨y, hy, hl⟩

/-- **When a dependency is represented.** For a module that the Java or Scala plugin makes of the record `r`, and a
direct dependency `d` of `r` with a compilation behind it: the project has a module labelled `d`, or the module shows all
archives with sources of that compilation, just if `d` is no root, or a root that is shown, or a placeholder happens to
be called so, or all these archives reach the module on another way. -/
theorem represented_iff (hk : u.Keyed) (hoff : m.merge.enabled = false) (h : m.createProject t u view stop = .ok p)
    {x : Module} (hx : x ∈ p.modules) (hreal : x.isSynthetic = false) {r : TargetRecord} {info : JavaInfo}
    (hr : u.find? r.id = some r) (hl : x.label = ⟨r.id⟩) (hplugin : ((m.prepare u).pluginFor r).isJvm = true)
    (hinfo : r.java = some info) {d : String} (hd : d ∈ r.dependencies) {s : TargetRecord} {compilation : JavaInfo}
    (hs : u.find? d = some s) (hcompilation : s.java = some compilation) :
    ((∃ y ∈ p.modules, y.label = ⟨d⟩) ∨
        ∀ l ∈ Plugin.sourceJars compilation, x.dependencySources.contains (m.roots.resolve t l) = true) ↔
      u.isRoot d = false ∨ Shown s ∨ (∃ y ∈ p.modules, y.isSynthetic = true ∧ y.label = ⟨d⟩) ∨
        ∀ l ∈ Plugin.sourceJars compilation, ∃ l', Plugin.Supplies u r l' ∧
          (m.roots.resolve t l).same (m.roots.resolve t l') = true := by
  have hshows : ∀ l, x.dependencySources.contains (m.roots.resolve t l) = true ↔
      ∃ l', Plugin.Supplies u r l' ∧ (m.roots.resolve t l).same (m.roots.resolve t l') = true := by
    intro l
    rw [dependencySources_of_mem_imported hk (mem_imported_of_mem_modules hoff h hx hreal) hr hl]
    exact Plugin.contains_dependencySources hplugin hinfo _
  have hown : u.isRoot d = false → ∀ l ∈ Plugin.sourceJars compilation, ∃ l', Plugin.Supplies u r l' ∧
      (m.roots.resolve t l).same (m.roots.resolve t l') = true := by
    intro hroot l hl'
    exact ⟨l, Plugin.supplies_of_not_root hr hd hroot hs hcompilation hl', Path.same_refl _⟩
  rw [exists_module_iff hk hoff h hs]
  simp only [hshows]
  constructor
  · rintro ((⟨-, hshown⟩ | hsynthetic) | hall)
    · exact .inr (.inl hshown)
    · exact .inr (.inr (.inl hsynthetic))
    · exact .inr (.inr (.inr hall))
  · rintro (hroot | hshown | hsynthetic | hall)
    · exact .inr (hown hroot)
    · cases hroot : u.isRoot d with
      | true => exact .inl (.inl ⟨rfl, hshown⟩)
      | false => exact .inr (hown hroot)
    · exact .inl (.inr hsynthetic)
    · exact .inr hall

/-- the compilation behind an archive that comes with its sources -/
def archived : JavaInfo := { jars := [{ source := [.source "third_party/guava-sources.jar"] }] }

/-- an archive from elsewhere; no module is made for its rule -/
def archive : TargetRecord := { id := "//third_party:guava", kind := "java_import", java := some archived }

/-- a library that depends on the archive -/
def library : TargetRecord :=
  { id := "//app:app", kind := "java_library", dependencies := ["//third_party:guava"],
    sources := [.source "app/Main.java"], java := some {} }

/-- an import of a whole workspace, which is given no files -/
def fullImport : Mapping := { roots := ⟨⟨"/ws"⟩, ⟨"/ws/bazel-out/exec"⟩⟩ }

/-- both of them roots -/
def bothRoots : Universe := .ofLists [library, archive] ["//app:app", "//third_party:guava"]

/-- **A hidden root is lost.** The import of `bothRoots` has no module for the archive, and the library's module does not
show its sources. -/
theorem archive_lost :
    fullImport.merge.enabled = false ∧ bothRoots.find? library.id = some library ∧
      ((fullImport.prepare bothRoots).pluginFor library).isJvm = true ∧ library.java.isSome = true ∧
      archive.id ∈ library.dependencies ∧ bothRoots.find? archive.id = some archive ∧
      ∃ p, fullImport.createProject ⟨∅, []⟩ bothRoots .standard false = .ok p ∧
        ∃ x ∈ p.modules, x.isSynthetic = false ∧ x.label = ⟨library.id⟩ ∧
          ¬ ((∃ y ∈ p.modules, y.label = ⟨archive.id⟩) ∨
            ∀ l ∈ Plugin.sourceJars archived,
              x.dependencySources.contains (fullImport.roots.resolve ⟨∅, []⟩ l) = true) := by
  refine ⟨rfl, by decide, by decide, rfl, by decide, by decide, ?_⟩
  obtain ⟨p, hp, hx⟩ : ∃ p, fullImport.createProject ⟨∅, []⟩ bothRoots .standard false = .ok p ∧
      decide (∃ x ∈ p.modules, x.isSynthetic = false ∧ x.label = ⟨library.id⟩ ∧
        ¬ ((∃ y ∈ p.modules, y.label = ⟨archive.id⟩) ∨
          ∀ l ∈ Plugin.sourceJars archived,
            x.dependencySources.contains (fullImport.roots.resolve ⟨∅, []⟩ l) = true)) = true :=
    any_toOption_iff.1 (by decide +kernel)
  exact ⟨p, hp, of_decide_eq_true hx⟩

/-- the condition for the archive, at the module of the library -/
theorem archive_represented_iff :
    ∃ p, fullImport.createProject ⟨∅, []⟩ bothRoots .standard false = .ok p ∧
      ∃ x ∈ p.modules, x.isSynthetic = false ∧ x.label = ⟨library.id⟩ ∧
        (((∃ y ∈ p.modules, y.label = ⟨archive.id⟩) ∨
            ∀ l ∈ Plugin.sourceJars archived,
              x.dependencySources.contains (fullImport.roots.resolve ⟨∅, []⟩ l) = true) ↔
          bothRoots.isRoot archive.id = false ∨ Shown archive ∨
            (∃ y ∈ p.modules, y.isSynthetic = true ∧ y.label = ⟨archive.id⟩) ∨
            ∀ l ∈ Plugin.sourceJars archived, ∃ l', Plugin.Supplies bothRoots library l' ∧
              (fullImport.roots.resolve ⟨∅, []⟩ l).same (fullImport.roots.resolve ⟨∅, []⟩ l') = true) := by
  obtain ⟨p, hp, hx⟩ : ∃ p, fullImport.createProject ⟨∅, []⟩ bothRoots .standard false = .ok p ∧
      decide (∃ x ∈ p.modules, x.isSynthetic = false ∧ x.label = ⟨library.id⟩) = true :=
    any_toOption_iff.1 (by decide +kernel)
  obtain ⟨x, hx, hreal, hl⟩ := of_decide_eq_true hx
  exact ⟨p, hp, x, hx, hreal, hl, represented_iff (Universe.keyed_ofLists _ _) rfl hp hx hreal (by decide) hl (by decide)
    rfl (by decide) (by decide) rfl⟩

end Mapping

end BuildImport
