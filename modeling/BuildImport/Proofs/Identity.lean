/-
Labels identify the modules of a project.

Labels come from three places: ids of records, names of merged modules and names of placeholders. `Settled` is what
keeps them apart: every module stands where its label says, and no two have one label. Imported modules are settled
(`settled_imported`); merging keeps them so, because a merged module is of the package of its members and there is one
module for a directory afterwards (`Settled.merge`); and no label of a placeholder names a package.

`createProject_identifies`: in the project of an import labels are distinct and lead to the directories of the modules,
and looking up the owner of a file finds the last module that owns it.
-/
import Mathlib.Tactic
import BuildImport.Proofs.Grouping
import BuildImport.Proofs.Ownership
import BuildImport.Proofs.Placeholders

namespace BuildImport

open Outcome

/-- modules of targets, each where its label says, and no two with one label -/
structure Settled (workspace : Path) (ms : List Module) : Prop where
  located : ∀ x ∈ ms, x.Located workspace
  real : ∀ x ∈ ms, x.isSynthetic = false
  distinct : (ms.map (·.label)).Nodup

/-! ## Merged modules -/

namespace Merging

/-- another target name leaves a module where it is -/
theorem located_withName {workspace : Path} {x y : Module} (hx : x.Located workspace)
    (hl : y.label = x.label.withName mergedName) (hb : y.baseDirectory = x.baseDirectory) : y.Located workspace := by
  obtain ⟨package, hp, hc, hd⟩ := hx
  exact ⟨package, by rw [hl]; exact Roots.packageOf_withName hp (by decide), hc, hb.trans hd⟩

theorem Folds.located {ignored : List String} {workspace : Path} {g : List Module} {n : Module} (h : Folds ignored g n)
    (hg : ∀ x ∈ g, x.Located workspace) : n.Located workspace := by
  rcases folds_iff.1 h with rfl | ⟨head, second, rest, payload, rfl, -, rfl⟩
  · exact hg n List.mem_cons_self
  · exact located_withName (hg head List.mem_cons_self) rfl rfl

theorem Folds.isSynthetic_eq {ignored : List String} {g : List Module} {n : Module} (h : Folds ignored g n)
    (hg : ∀ x ∈ g, x.isSynthetic = false) : n.isSynthetic = false := by
  rcases folds_iff.1 h with rfl | ⟨head, second, rest, payload, rfl, -, rfl⟩
  · exact hg n List.mem_cons_self
  · simp [together, hg head List.mem_cons_self]

/-- modules for different groups stand in different directories -/
theorem pairwise_directories_of_merge {ignored : List String} {ms out : List Module} (h : merge ignored ms = .ok out) :
    out.Pairwise fun o o' => o.baseDirectory.same o'.baseDirectory = false := by
  refine pairwise_of_directories (R := fun d e => d.same e = false) ?_ h (pairwise_directories ms)
  intro d d' e e' hd he hne
  rw [← Bool.not_eq_true] at hne ⊢
  intro hs
  exact hne (Path.same_trans hd (Path.same_trans hs (Path.same_symm he)))

end Merging

/-- **Merging keeps modules settled.** -/
theorem Settled.merge {ignored : List String} {workspace : Path} {ms out : List Module} (hs : Settled workspace ms)
    (h : Merging.merge ignored ms = .ok out) : Settled workspace out := by
  have hlocated : ∀ o ∈ out, o.Located workspace := by
    intro o ho
    obtain ⟨g, hg, n, hf, rfl⟩ := Merging.exists_folds_of_mem h ho
    exact hf.located fun x hx => hs.located x (Merging.mem_of_mem_group hg hx)
  have hreal : ∀ o ∈ out, o.isSynthetic = false := by
    intro o ho
    obtain ⟨g, hg, n, hf, rfl⟩ := Merging.exists_folds_of_mem h ho
    exact hf.isSynthetic_eq fun x hx => hs.real x (Merging.mem_of_mem_group hg hx)
  exact ⟨hlocated, hreal, Module.nodup_labels_of_directories hlocated (Merging.pairwise_directories_of_merge h)⟩

/-! ## Projects -/

namespace Mapping

variable {m : Mapping} {t : FileTree} {u : Universe} {view : ProjectView} {stop : Bool} {p : Project}

/-- **Imported modules are settled.** -/
theorem settled_imported (m : Mapping) (t : FileTree) (hk : u.Keyed) (hc : u.HasCanonicalPackages) :
    Settled m.roots.workspace (m.imported t u) where
  located _ hx := located_of_mem_imported hc hx
  real _ hx := not_isSynthetic_of_mem_imported hx
  distinct := nodup_labels_imported m t hk

theorem settled_mergeModules {ms out : List Module} (hs : Settled m.roots.workspace ms)
    (h : m.mergeModules false ms = .ok out) : Settled m.roots.workspace out := by
  rw [mergeModules_eq_ok_iff] at h
  split_ifs at h
  · exact hs.merge h.2
  · exact h ▸ hs

/-- a project is settled modules with their placeholders behind them -/
theorem exists_settled_of_createProject (hk : u.Keyed) (hc : u.HasCanonicalPackages)
    (h : m.createProject t u view stop = .ok p) :
    ∃ ms, Settled m.roots.workspace ms ∧ p = .ofModules m.roots.workspace (ms ++ m.placeholdersFor view ms) := by
  obtain ⟨-, ms, hms, rfl⟩ := createProject_eq_ok_iff.1 h
  exact ⟨ms, settled_mergeModules (settled_imported m t hk hc) hms, rfl⟩

theorem mem_make_of_mem_placeholdersFor {ms : List Module} {x : Module} (h : x ∈ m.placeholdersFor view ms) :
    x ∈ Placeholder.make m.roots.workspace ms view := by
  unfold placeholdersFor at h
  split_ifs at h
  · exact h
  · simp at h

theorem isSynthetic_of_mem_placeholdersFor {ms : List Module} {x : Module} (h : x ∈ m.placeholdersFor view ms) :
    x.isSynthetic = true :=
  Placeholder.isSynthetic_of_mem_make (mem_make_of_mem_placeholdersFor h)

/-- the label of a module with a target names a package, that of a placeholder does not -/
theorem label_ne_of_mem_placeholdersFor {ms : List Module} (hs : Settled m.roots.workspace ms) {x y : Module}
    (hx : x ∈ ms) (hy : y ∈ m.placeholdersFor view ms) : x.label ≠ y.label := by
  intro he
  obtain ⟨package, hp, -⟩ := hs.located x hx
  have hno := Placeholder.packageOf_of_mem_make hs.located (mem_make_of_mem_placeholdersFor hy)
  rw [← he, hp] at hno
  exact absurd hno (by simp)

theorem nodup_labels_with_placeholders {ms : List Module} (hs : Settled m.roots.workspace ms) :
    ((ms ++ m.placeholdersFor view ms).map (·.label)).Nodup := by
  rw [List.map_append]
  refine List.Nodup.append hs.distinct ?_ ?_
  · unfold placeholdersFor
    split_ifs
    · exact Placeholder.nodup_labels_make hs.located view
    · exact List.nodup_nil
  · intro l hl hl'
    obtain ⟨x, hx, rfl⟩ := List.mem_map.1 hl
    obtain ⟨y, hy, he⟩ := List.mem_map.1 hl'
    exact label_ne_of_mem_placeholdersFor hs hx hy he.symm

/-- **Labels identify modules.** In the project of an import no two modules have one label, placeholders included; the
label of a module with a target, merged or not, leads to its directory; and looking up the owner of a file finds the
last module that owns it, if there is one. -/
theorem createProject_identifies (hk : u.Keyed) (hc : u.HasCanonicalPackages)
    (h : m.createProject t u view stop = .ok p) :
    (p.modules.map (·.label)).Nodup ∧
    (∀ x ∈ p.modules, x.isSynthetic = false → m.roots.directoryOf x.label = .ok x.baseDirectory) ∧
    ∀ file,
      (∀ x, p.findOwner? file = some x ↔
        ∃ before after, p.modules = before ++ x :: after ∧ x.owns file = true ∧ ∀ y ∈ after, y.owns file = false) ∧
      (p.findOwner? file = none ↔ ∀ x ∈ p.modules, x.owns file = false) := by
  obtain ⟨ms, hs, rfl⟩ := exists_settled_of_createProject hk hc h
  have hd : ((ms ++ m.placeholdersFor view ms).map (·.label)).Nodup := nodup_labels_with_placeholders hs
  refine ⟨hd, ?_, ?_⟩
  · intro x hx hreal
    rcases List.mem_append.1 hx with hx | hx
    · exact (hs.located x hx).directoryOf_eq
    · have hsynthetic := isSynthetic_of_mem_placeholdersFor hx
      simp [hreal] at hsynthetic
  · intro file
    rw [Project.findOwner?_eq hd]
    exact ⟨fun x => Project.lastOwner?_eq_some_iff, Project.lastOwner?_eq_none_iff⟩

/-- a library and its tests in one package, with a source in common, and a program in another one -/
def twoPackages : Universe :=
  .ofLists
    [{ id := "//lib:lib", kind := "scala_library", sources := [.source "lib/Lib.scala"] },
     { id := "//lib:tests", kind := "scala_test", dependencies := ["//lib:lib"],
       sources := [.source "lib/LibTest.scala", .source "lib/Lib.scala"] },
     { id := "//app:app", kind := "java_binary", dependencies := ["//lib:lib"], sources := [.source "app/Main.java"] }]
    ["//lib:tests", "//app:app", "//lib:lib"]

/-- an import of a part of a workspace, which is given no files -/
def partImport : Mapping := { roots := ⟨⟨"/ws"⟩, ⟨"/ws/bazel-out/exec"⟩⟩, merge := ⟨true, []⟩ }

/-- the modules of `twoPackages`, a merged one among them, are identified by their labels -/
theorem twoPackages_identified :
    ∃ p, twoPackages.Keyed ∧ twoPackages.HasCanonicalPackages ∧
      partImport.createProject ⟨∅, []⟩ twoPackages ⟨["//lib", "//app"]⟩ false = .ok p ∧
      (p.modules.map (·.label)).Nodup ∧
      (∀ x ∈ p.modules, x.isSynthetic = false → partImport.roots.directoryOf x.label = .ok x.baseDirectory) ∧
      ∀ file,
        (∀ x, p.findOwner? file = some x ↔
          ∃ before after, p.modules = before ++ x :: after ∧ x.owns file = true ∧ ∀ y ∈ after, y.owns file = false) ∧
        (p.findOwner? file = none ↔ ∀ x ∈ p.modules, x.owns file = false) := by
  have hk : twoPackages.Keyed := Universe.keyed_ofLists _ _
  have hc : twoPackages.HasCanonicalPackages := by decide
  obtain ⟨p, hp, -⟩ : ∃ p, partImport.createProject ⟨∅, []⟩ twoPackages ⟨["//lib", "//app"]⟩ false = .ok p ∧ true :=
    any_toOption_iff.1 (by decide +kernel)
  exact ⟨p, hk, hc, hp, createProject_identifies hk hc hp⟩

end Mapping

end BuildImport
