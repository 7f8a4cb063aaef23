/-
When a target is among its own dependencies.

A target is never among all of its dependencies. Those without the roots are put together from closures of direct
dependencies, though, and each of these leaves out only the one that it belongs to. So a target is listed among its own
if it depends on itself and the way begins with a dependency that is no root (`Universe.ComesBack`). That is all in which
the second list goes beyond the first (`Universe.Keyed.find?_of_beyond`).

For the Java machine, what is listed supplies its archives with sources. A module of such a target shows its own ones as
if they were those of a dependency (`own_archive_shown`).

`withoutRoots_within_iff` says for which targets this happens and for which it does not.
-/
import Mathlib.Tactic
import BuildImport.Proofs.DependencyIndex
import BuildImport.Proofs.Representation

namespace BuildImport

open Relation

namespace Universe

variable {u : Universe} {id : String} {r : TargetRecord}

/-- a way leads from a direct dependency that is no root back to `id` -/
def ComesBack (u : Universe) (id : String) : Prop :=
  ∃ d, u.DependsOn id d ∧ u.isRoot d = false ∧ ReflTransGen u.DependsOn d id

theorem ComesBack.exists_record (h : u.ComesBack id) : ∃ r, u.find? id = some r := by
  obtain ⟨d, ⟨r, hr, -⟩, -⟩ := h
  exact ⟨r, hr⟩

namespace Keyed

/-- **What is listed is among all dependencies**, unless it is the target itself. -/
theorem mem_transitive_of_mem_withoutRoots (hk : u.Keyed) (h : r ∈ u.withoutRoots id) (hne : r.id ≠ id) :
    r ∈ u.transitive id := by
  obtain ⟨hr, d, hedge, -, hway⟩ := hk.mem_withoutRoots_iff.1 h
  exact hk.mem_transitive.2 ⟨hr, hne, TransGen.head'_iff.2 ⟨d, hedge, hway⟩⟩

theorem find?_of_beyond (hk : u.Keyed) (h : r ∈ u.withoutRoots id) (hbeyond : r ∉ u.transitive id) :
    u.find? id = some r := by
  have hid : r.id = id := by
    by_contra hne
    exact hbeyond (hk.mem_transitive_of_mem_withoutRoots h hne)
  exact hid ▸ (hk.mem_withoutRoots_iff.1 h).1

/-- **A target is listed among its own dependencies** just if it comes back. -/
theorem mem_withoutRoots_self_iff (hk : u.Keyed) (hr : u.find? id = some r) :
    r ∈ u.withoutRoots id ↔ u.ComesBack id := by
  obtain rfl := hk.id_eq hr
  rw [hk.mem_withoutRoots_iff, and_iff_right hr, ComesBack]

theorem within_iff (hk : u.Keyed) (id : String) :
    (∀ r ∈ u.withoutRoots id, r ∈ u.transitive id) ↔ ¬ u.ComesBack id := by
  constructor
  · intro hall hback
    obtain ⟨r, hr⟩ := hback.exists_record
    have hself := hall r ((hk.mem_withoutRoots_self_iff hr).2 hback)
    exact (hk.mem_transitive.1 hself).2.1 (hk.id_eq hr)
  · intro hno r hr
    by_contra hbeyond
    exact hno ((hk.mem_withoutRoots_self_iff (hk.find?_of_beyond hr hbeyond)).1 hr)

end Keyed

end Universe

/-! ## Archives -/

namespace Plugin

/-- the file is on the class path of sources, or a compilation behind one of the records wrote it with its sources -/
def ShownBy (r : Roots) (t : FileTree) (info : JavaInfo) (rs : List TargetRecord) (file : Path) : Prop :=
  (∃ l ∈ info.sourceClasspath, file.same (r.resolve t l) = true) ∨
    ∃ s ∈ rs, ∃ i, s.java = some i ∧ ∃ l ∈ sourceJars i, file.same (r.resolve t l) = true

/-- what a module shows is its own class path of sources and the archives of what is listed without the roots -/
theorem contains_dependencySources_iff {p : Plugin} (hp : p.isJvm = true) {r : Roots} {t : FileTree} {u : Universe}
    {record : TargetRecord} {info : JavaInfo} (hj : record.java = some info) (file : Path) :
    (p.dependencySources r t u record).contains file = true ↔ ShownBy r t info (u.withoutRoots record.id) file := by
  rw [contains_dependencySources hp hj, ShownBy]
  constructor
  · rintro ⟨l, ⟨i, hi, hl⟩ | ⟨d, hd, hroot, b, s, i, hb, hs, hi, hl⟩, hsame⟩
    · obtain rfl : info = i := Option.some.inj (hj.symm.trans hi)
      exact .inl ⟨l, hl, hsame⟩
    · exact .inr ⟨s, Universe.mem_withoutRoots.2 ⟨d, hd, hroot, b, hb, hs⟩, i, hi, l, hl, hsame⟩
  · rintro (⟨l, hl, hsame⟩ | ⟨s, hs, i, hi, l, hl, hsame⟩)
    · exact ⟨l, .inl ⟨info, hj, hl⟩, hsame⟩
    · obtain ⟨d, hd, hroot, b, hb, hfind⟩ := Universe.mem_withoutRoots.1 hs
      exact ⟨l, .inr ⟨d, hd, hroot, b, s, i, hb, hfind, hi, hl⟩, hsame⟩

end Plugin

namespace Universe

open Plugin

variable {u : Universe}

/-- **When the dependencies without the roots are among all dependencies.** Just for the targets that do not come back;
for one that does, only its own record is listed beyond them. A module of a target that comes back shows all archives of
its own compilation. A module of another one shows nothing but its class path of sources and archives of what it depends
on, itself left out. -/
theorem withoutRoots_within_iff (hk : u.Keyed) (id : String) :
    ((∀ r ∈ u.withoutRoots id, r ∈ u.transitive id) ↔ ¬ u.ComesBack id) ∧
    (∀ r ∈ u.withoutRoots id, r ∉ u.transitive id → u.find? id = some r) ∧
    ∀ (record : TargetRecord) (info : JavaInfo), u.find? id = some record → record.java = some info →
      ∀ (p : Plugin) (paths : Roots) (t : FileTree), p.isJvm = true →
        (u.ComesBack id → ∀ l ∈ sourceJars info,
          (p.dependencySources paths t u record).contains (paths.resolve t l) = true) ∧
        (¬ u.ComesBack id → ∀ file, (p.dependencySources paths t u record).contains file = true →
          ShownBy paths t info ((u.transitive id).filter fun s => s.id ≠ id) file) := by
  refine ⟨hk.within_iff id, fun r => hk.find?_of_beyond, fun record info hr hj p paths t hp => ⟨?_, ?_⟩⟩
  · intro hback l hl
    have hself : record ∈ u.withoutRoots record.id := by
      rw [hk.id_eq hr]
      exact (hk.mem_withoutRoots_self_iff hr).2 hback
    rw [contains_dependencySources_iff hp hj]
    exact .inr ⟨record, hself, info, hj, l, hl, Path.same_refl _⟩
  · intro hno file hfile
    rw [contains_dependencySources_iff hp hj, hk.id_eq hr] at hfile
    rcases hfile with hfile | ⟨s, hs, hsupplied⟩
    · exact .inl hfile
    · have hall := (hk.within_iff id).2 hno s hs
      have hother : s.id ≠ id := (hk.mem_transitive.1 hall).2.1
      exact .inr ⟨s, List.mem_filter.2 ⟨hall, decide_eq_true hother⟩, hsupplied⟩

/-- the compilation of a library that comes with its sources -/
def withSources : JavaInfo := { jars := [{ source := [.generated "bazel-out/bin" "a/a-src.jar"] }] }

/-- a library with these sources, which depends on another one -/
def twin : TargetRecord :=
  { id := "//a:a", kind := "java_library", dependencies := ["//b:b"], java := some withSources }

/-- the two libraries depend on each other, and a program depends on one of them; `twin` is the only root -/
def onCycle : Universe :=
  .ofLists
    [twin, { id := "//b:b", kind := "java_library", dependencies := ["//a:a"] },
     { id := "//app:app", kind := "java_binary", dependencies := ["//b:b"] }]
    [twin.id]

theorem twin_comesBack : onCycle.ComesBack twin.id := by
  have hto : onCycle.DependsOn twin.id "//b:b" := ⟨_, rfl, by decide, _, rfl⟩
  have hback : onCycle.DependsOn "//b:b" twin.id := ⟨_, rfl, by decide, _, rfl⟩
  exact ⟨"//b:b", hto, by decide, .single hback⟩

/-- what is left for the library goes beyond all of its dependencies, for the program it does not -/
theorem onCycle_parted :
    onCycle.Keyed ∧ (¬ ∀ r ∈ onCycle.withoutRoots twin.id, r ∈ onCycle.transitive twin.id) ∧
      ¬ onCycle.ComesBack "//app:app" := by
  have hk : onCycle.Keyed := keyed_ofLists _ _
  have hprogram : onCycle.withoutRoots "//app:app" = onCycle.transitive "//app:app" := by cbv
  refine ⟨hk, fun hall => (withoutRoots_within_iff hk _).1.1 hall twin_comesBack, ?_⟩
  exact (withoutRoots_within_iff hk _).1.1 fun r hr => hprogram ▸ hr

/-- **A target lists itself**, and its module shows its own archive. -/
theorem own_archive_shown :
    onCycle.find? twin.id = some twin ∧ twin ∈ onCycle.withoutRoots twin.id ∧ twin ∉ onCycle.transitive twin.id ∧
      twin.java = some withSources ∧ ∃ l ∈ sourceJars withSources, l ∉ withSources.sourceClasspath ∧
        ((Plugin.java none).dependencySources ⟨⟨"/ws"⟩, ⟨"/ws/exec"⟩⟩ ⟨∅, []⟩ onCycle twin).contains
          (Roots.resolve ⟨⟨"/ws"⟩, ⟨"/ws/exec"⟩⟩ ⟨∅, []⟩ l) = true := by
  have hk : onCycle.Keyed := keyed_ofLists _ _
  have hself : twin ∈ onCycle.withoutRoots twin.id := (hk.mem_withoutRoots_self_iff rfl).2 twin_comesBack
  refine ⟨rfl, hself, fun h => (hk.mem_transitive.1 h).2.1 rfl, rfl, .generated "bazel-out/bin" "a/a-src.jar",
    by decide, by decide, ?_⟩
  exact (contains_dependencySources_iff rfl rfl _).2 (.inr ⟨twin, hself, _, rfl, _, by decide, Path.same_refl _⟩)

end Universe

end BuildImport
