/-
Sources and their roots belong together.

A module lists source files, and the directories that their packages start from. `Paired` says that the two lists fit:
every source lies at or below one of the roots, and every root has a source at or below it. Spellings do not matter
(`Paired.congr`), so sets may keep any of two equal paths.

- `SourceRoot.isAbove_ofPackage`: whatever a file says about its package, the root that is made of it is the file's
  directory or one above it. Hence every plugin finds roots for all sources that have a parent, and above them
  (`Plugin.exists_sourceRoot?_eq`).
- `Merging.Folds.paired`: merging unites both lists, or empties both.

`createProject_paired`: in the project of an import, merged or not, sources and roots of every module are paired.
-/
import Mathlib.Tactic
import BuildImport.Proofs.Identity
import BuildImport.Proofs.Parents

namespace BuildImport

open Std Outcome

/-! ## The root of a file -/

namespace SourceRoot

/-- stripping takes off just the names it is given, the last one first -/
theorem components_of_strip? {d r : Path} {ns : List String} (h : strip? d ns = some r) :
    d.components = r.components ++ ns.reverse.map .name := by
  induction ns generalizing d with
  | nil =>
    rw [Option.some.inj h]
    exact (List.append_nil _).symm
  | cons n ns ih =>
    unfold strip? at h
    split_ifs at h with hn
    obtain ⟨parent, hp, hr⟩ := Option.bind_eq_some_iff.1 h
    obtain ⟨c, hc⟩ := Path.components_of_parent? hp
    have hlast := Path.getLast?_components_of_fileName? hn
    rw [hc, List.getLast?_concat] at hlast
    rw [hc, Option.some.inj hlast, ih hr, List.reverse_cons, List.map_append, List.append_assoc]
    rfl

theorem ofPackage_some (d : Path) (package : String) :
    ofPackage d (some package) = (strip? d (names package).reverse).getD d := rfl

/-- **The root is the directory or one above it**, whatever package the file names. -/
theorem isAbove_ofPackage (d : Path) (package : Option String) : (ofPackage d package).IsAbove d := by
  cases package with
  | none => exact .refl d
  | some package =>
    rw [ofPackage_some]
    cases hs : strip? d (names package).reverse with
    | none => exact .refl d
    | some r =>
      rw [Option.getD_some, Path.IsAbove, components_of_strip? hs]
      exact List.prefix_append _ _

end SourceRoot

/-- **Every plugin finds a root for a file that has a parent**, and there or above. -/
theorem Plugin.exists_sourceRoot?_eq (p : Plugin) (t : FileTree) (file : Path) :
    ∃ root : Path → Path, (∀ d, (root d).IsAbove d) ∧ p.sourceRoot? t file = file.parent?.map root := by
  cases p with
  | scala version => exact ⟨_, fun d => SourceRoot.isAbove_ofPackage d _, rfl⟩
  | java version => exact ⟨_, fun d => SourceRoot.isAbove_ofPackage d _, rfl⟩
  | plain => exact ⟨id, Path.IsAbove.refl, (Option.map_id_apply).symm⟩
  | interrupting target languages => exact ⟨id, Path.IsAbove.refl, (Option.map_id_apply).symm⟩

/-! ## Pairs -/

/-- each source with a parent has a root at or above it, and each root has such a source -/
structure Paired (sources roots : List Path) : Prop where
  rooted : ∀ s ∈ sources, ∀ d, s.parent? = some d → ∃ r ∈ roots, r.IsAbove d
  used : ∀ r ∈ roots, ∃ s ∈ sources, ∃ d, s.parent? = some d ∧ r.IsAbove d

/-- the same paths, in whatever spelling -/
def Alike (ps qs : List Path) : Prop := (∀ p ∈ ps, ∃ q ∈ qs, p.same q = true) ∧ ∀ q ∈ qs, ∃ p ∈ ps, p.same q = true

theorem Alike.refl (ps : List Path) : Alike ps ps :=
  ⟨fun p hp => ⟨p, hp, Path.same_refl p⟩, fun p hp => ⟨p, hp, Path.same_refl p⟩⟩

/-- a set has the paths of its list -/
theorem alike_ofList (ps : List Path) : Alike ps (SortedSet.ofList ps).toList := by
  have hany : ∀ c : Path, (SortedSet.ofList ps).toList.any c.same = ps.any c.same := by
    intro c
    have h := SortedSet.contains_ofList ps c
    simp only [SortedSet.contains, Path.compare_beq_eq_same] at h
    exact h
  constructor
  · intro p hp
    exact List.any_eq_true.1 ((hany p).trans (List.any_eq_true.2 ⟨p, hp, Path.same_refl p⟩))
  · intro q hq
    obtain ⟨p, hp, hsame⟩ := List.any_eq_true.1 ((hany q).symm.trans (List.any_eq_true.2 ⟨q, hq, Path.same_refl q⟩))
    exact ⟨p, hp, Path.same_symm hsame⟩

namespace Paired

variable {sources sources' roots roots' : List Path}

/-- **Spellings do not matter.** -/
theorem congr (h : Paired sources roots) (hs : Alike sources sources') (hr : Alike roots roots') :
    Paired sources' roots' := by
  constructor
  · intro s' hs' d' hd'
    obtain ⟨s, hsmem, hsame⟩ := hs.2 s' hs'
    obtain ⟨d, hd, hdd⟩ := Option.map_eq_some_iff.1 ((Path.parent?_congr hsame).trans (by rw [hd', Option.map_some]))
    obtain ⟨r, hrmem, habove⟩ := h.rooted s hsmem d hd
    obtain ⟨r', hr', hrr⟩ := hr.1 r hrmem
    exact ⟨r', hr', (habove.congr_left hrr).congr_right hdd⟩
  · intro r' hr'
    obtain ⟨r, hrmem, hrr⟩ := hr.2 r' hr'
    obtain ⟨s, hsmem, d, hd, habove⟩ := h.used r hrmem
    obtain ⟨s', hs', hsame⟩ := hs.1 s hsmem
    obtain ⟨d', hd', hdd⟩ := Option.map_eq_some_iff.1 ((Path.parent?_congr hsame).symm.trans (by rw [hd, Option.map_some]))
    exact ⟨s', hs', d', hd', (habove.congr_left hrr).congr_right hdd.symm⟩

/-- the roots that a plugin finds for sources go with them -/
theorem of_sourceRoot? (p : Plugin) (t : FileTree) (sources : List Path) :
    Paired sources (sources.filterMap (p.sourceRoot? t)) := by
  constructor
  · intro s hs d hd
    obtain ⟨root, habove, hroot⟩ := p.exists_sourceRoot?_eq t s
    rw [hd, Option.map_some] at hroot
    exact ⟨root d, List.mem_filterMap.2 ⟨s, hs, hroot⟩, habove d⟩
  · intro r hr
    obtain ⟨s, hs, hsr⟩ := List.mem_filterMap.1 hr
    obtain ⟨root, habove, hroot⟩ := p.exists_sourceRoot?_eq t s
    obtain ⟨d, hd, rfl⟩ := Option.map_eq_some_iff.1 (hroot.symm.trans hsr)
    exact ⟨s, hs, d, hd, habove d⟩

/-- pairs can be put together -/
theorem flatMap {ms : List Module} {f g : Module → List Path} (h : ∀ x ∈ ms, Paired (f x) (g x)) :
    Paired (ms.flatMap f) (ms.flatMap g) := by
  constructor
  · intro s hs d hd
    obtain ⟨x, hx, hs⟩ := List.mem_flatMap.1 hs
    obtain ⟨r, hr, habove⟩ := (h x hx).rooted s hs d hd
    exact ⟨r, List.mem_flatMap.2 ⟨x, hx, hr⟩, habove⟩
  · intro r hr
    obtain ⟨x, hx, hr⟩ := List.mem_flatMap.1 hr
    obtain ⟨s, hs, d, hd, habove⟩ := (h x hx).used r hr
    exact ⟨s, List.mem_flatMap.2 ⟨x, hx, hs⟩, d, hd, habove⟩

theorem nil : Paired [] [] := ⟨by simp, by simp⟩

end Paired

/-- the sources and the roots of the module are paired -/
def Module.IsPaired (x : Module) : Prop := Paired x.sourceSet.sources.toList x.sourceSet.roots.toList

/-! ## Merging -/

namespace Merging

/-- the sources of several modules stay paired, also where they are dropped -/
theorem paired_mergeSources (ignored : List String) {ms : List Module} (h : ∀ x ∈ ms, x.IsPaired) :
    Paired (mergeSources ignored ms).sources.toList (mergeSources ignored ms).roots.toList := by
  unfold mergeSources
  dsimp only
  split_ifs
  · exact .nil
  · exact (Paired.flatMap h).congr (alike_ofList _) (alike_ofList _)

theorem Folds.isPaired {ignored : List String} {g : List Module} {n : Module} (h : Folds ignored g n)
    (hg : ∀ x ∈ g, x.IsPaired) : n.IsPaired := by
  rcases folds_iff.1 h with rfl | ⟨head, second, rest, payload, rfl, -, rfl⟩
  · exact hg n List.mem_cons_self
  · exact paired_mergeSources ignored hg

/-- **Merging keeps sources and roots paired.** -/
theorem isPaired_of_mem_merge {ignored : List String} {ms out : List Module} (h : merge ignored ms = .ok out)
    (hms : ∀ x ∈ ms, x.IsPaired) {o : Module} (ho : o ∈ out) : o.IsPaired := by
  obtain ⟨g, hg, n, hf, rfl⟩ := exists_folds_of_mem h ho
  exact hf.isPaired fun x hx => hms x (mem_of_mem_group hg hx)

end Merging

/-! ## Projects -/

/-- a placeholder has neither sources nor roots -/
theorem Placeholder.isPaired_of_mem_make {workspace : Path} {ms : List Module} {view : ProjectView} {x : Module}
    (hx : x ∈ make workspace ms view) : x.IsPaired := by
  have hof : ∀ label d, (ofDirectory label d).IsPaired := fun _ _ => Paired.nil
  unfold make at hx
  split_ifs at hx
  · simp at hx
  · rw [List.mem_singleton.1 hx]
    exact hof _ _
  · obtain ⟨d, -, rfl⟩ := List.mem_map.1 hx
    exact hof _ _

namespace Mapping

variable {m : Mapping} {t : FileTree} {u : Universe} {view : ProjectView} {stop : Bool} {p : Project}

theorem isPaired_of_createModule {r : TargetRecord} {x : Module} (h : m.createModule t u r = .ok x) : x.IsPaired := by
  obtain ⟨base, -, rfl⟩ := createModule_eq_ok_iff.1 h
  exact (Paired.of_sourceRoot? _ t _).congr (.refl _) (alike_ofList _)

/-- **Sources and source roots stay paired.** In every module of every project that an import gives, each source that has
a parent has a source root at or above it, and each source root is at or above the parent of a source; by components, and
whatever the files hold, the plugins find and merging ignores. -/
theorem createProject_paired (h : m.createProject t u view stop = .ok p) {x : Module} (hx : x ∈ p.modules) :
    (∀ s ∈ x.sourceSet.sources.toList, ∀ d, s.parent? = some d → ∃ r ∈ x.sourceSet.roots.toList, r.IsAbove d) ∧
      ∀ r ∈ x.sourceSet.roots.toList, ∃ s ∈ x.sourceSet.sources.toList, ∃ d, s.parent? = some d ∧ r.IsAbove d := by
  obtain ⟨-, ms, hms, rfl⟩ := createProject_eq_ok_iff.1 h
  have himported : ∀ y ∈ m.imported t u, y.IsPaired := by
    intro y hy
    obtain ⟨r, -, hmade, -⟩ := mem_imported.1 hy
    exact isPaired_of_createModule hmade
  have hpaired : x.IsPaired := by
    rcases List.mem_append.1 hx with hx | hx
    · rw [mergeModules_eq_ok_iff] at hms
      split_ifs at hms
      · exact Merging.isPaired_of_mem_merge hms.2 himported hx
      · exact himported x (hms ▸ hx)
    · exact Placeholder.isPaired_of_mem_make (mem_make_of_mem_placeholdersFor hx)
  exact ⟨hpaired.rooted, hpaired.used⟩

/-- two sources, of which the second has two package clauses -/
def writtenSources : FileTree :=
  ⟨.ofList
    [(["ws"], .directory), (["ws", "app"], .directory), (["ws", "app", "acme"], .directory),
     (["ws", "app", "acme", "Lib.java"], .file "package acme;\n".toUTF8),
     (["ws", "app", "acme", "core"], .directory),
     (["ws", "app", "acme", "core", "Core.scala"], .file "package acme\npackage core\n".toUTF8)], []⟩

/-- A library and its tests in one package, with a source in common in two spellings and one that is not there; and two
tools in another package. -/
def severalSources : Universe :=
  .ofLists
    [{ id := "//app:lib", kind := "java_library",
       sources := [.source "app/acme/Lib.java", .source "app/gen/Gone.java"] },
     { id := "//app:tests", kind := "scala_test",
       sources := [.source "app/acme/core/Core.scala", .source "app//acme/Lib.java"] },
     { id := "//tools:a", kind := "scala_binary", sources := [.source "tools/src/main/scala/A.scala"] },
     { id := "//tools:b", kind := "scala_binary", sources := [.source "tools/src/main/scala/b/B.scala"] }]
    ["//app:lib", "//app:tests", "//tools:a", "//tools:b"]

/-- a merging import that ignores the sources of tools -/
def ignoringImport : Mapping := { partImport with merge := ⟨true, ["tools/src/main/scala/"]⟩ }

/-- in the project of `severalSources` the library's sources keep both roots, and those of the tools are dropped -/
theorem severalSources_paired :
    ∃ p, ignoringImport.createProject writtenSources severalSources .standard false = .ok p ∧
      (p.modules.map fun x => (x.sourceSet.sources.toList, x.sourceSet.roots.toList)) =
        [([⟨"/ws/app//acme/Lib.java"⟩, ⟨"/ws/app/acme/core/Core.scala"⟩, ⟨"/ws/app/gen/Gone.java"⟩],
            [⟨"/ws/app"⟩, ⟨"/ws/app/gen"⟩]), ([], []), ([], [])] ∧
      ∀ x ∈ p.modules,
        (∀ s ∈ x.sourceSet.sources.toList, ∀ d, s.parent? = some d → ∃ r ∈ x.sourceSet.roots.toList, r.IsAbove d) ∧
          ∀ r ∈ x.sourceSet.roots.toList, ∃ s ∈ x.sourceSet.sources.toList, ∃ d, s.parent? = some d ∧ r.IsAbove d := by
  obtain ⟨p, hp, hsources⟩ := any_toOption_iff.1 (show
    (ignoringImport.createProject writtenSources severalSources .standard false).toOption.any
      (fun p => decide ((p.modules.map fun x => (x.sourceSet.sources.toList, x.sourceSet.roots.toList)) =
        [([⟨"/ws/app//acme/Lib.java"⟩, ⟨"/ws/app/acme/core/Core.scala"⟩, ⟨"/ws/app/gen/Gone.java"⟩],
            [⟨"/ws/app"⟩, ⟨"/ws/app/gen"⟩]), ([], []), ([], [])])) = true by decide +kernel)
  exact ⟨p, hp, of_decide_eq_true hsources, fun x hx => createProject_paired hp hx⟩

end Mapping

end BuildImport
