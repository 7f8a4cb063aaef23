/-
The modules that an import makes of a universe, before they are merged.

- `createProject_eq_ok_iff`: an import that nobody stops gives the imported modules, merged if so configured, with
  placeholders behind them. `imported` are the modules of all roots that have one and show it.
- `pairwise_imported`: they come in the strict order of their labels.
- `located_of_mem_imported`: each stands where its label says (`Module.Located`), so that label and directory tell each
  other (`Module.Located.directoryOf_eq`, `Module.Located.packageOf_eq`).

What is asked of a universe: its records are filed under their ids (`Universe.Keyed`), as those of lists are
(`Universe.keyed_ofLists`), and the packages that these name are canonical (`Universe.HasCanonicalPackages`).
-/
import Mathlib.Tactic
import BuildImport.Mapping
import BuildImport.Proofs.Components
import BuildImport.Proofs.Membership
import BuildImport.Proofs.Outcomes
import BuildImport.Proofs.PackageLabels

namespace BuildImport

open Std Outcome

/-! ## Universes -/

namespace Universe

/-- every record is filed under its id -/
def Keyed (u : Universe) : Prop := ∀ e ∈ u.records.entries, e.2.id = e.1

instance (u : Universe) : Decidable u.Keyed := by
  unfold Keyed; infer_instance

/-- ids that name packages name canonical ones -/
def HasCanonicalPackages (u : Universe) : Prop :=
  ∀ e ∈ u.records.entries, ∀ package, Roots.packageOf ⟨e.2.id⟩ = .ok package → Path.Canonical package

instance (u : Universe) : Decidable u.HasCanonicalPackages :=
  decidable_of_iff
    (∀ e ∈ u.records.entries, ∀ package ∈ (Roots.packageOf ⟨e.2.id⟩).toOption, Path.Canonical package) <| by
    unfold HasCanonicalPackages
    refine forall₂_congr fun e _ => forall_congr' fun package => ?_
    cases Roots.packageOf ⟨e.2.id⟩ <;> simp [Except.toOption]

/-- **Universes of lists are keyed.** -/
theorem keyed_ofLists (rs : List TargetRecord) (roots : List String) : (ofLists rs roots).Keyed := by
  intro e he
  obtain ⟨r, -, rfl⟩ := List.mem_map.1 (SortedMap.mem_entries_ofList he)
  rfl

theorem mem_entries_of_find? {u : Universe} {id : String} {r : TargetRecord} (h : u.find? id = some r) :
    (id, r) ∈ u.records.entries :=
  SortedMap.mem_of_find? h

theorem Keyed.id_eq {u : Universe} (hk : u.Keyed) {id : String} {r : TargetRecord} (h : u.find? id = some r) :
    r.id = id :=
  hk (id, r) (mem_entries_of_find? h)

theorem Keyed.pairwise_recordsAt {u : Universe} (hk : u.Keyed) (s : SortedSet String) :
    (u.recordsAt s.toList).Pairwise fun r r' => compare r.id r'.id = .lt := by
  apply List.Pairwise.filterMap _ _ s.ascending
  intro a a' hlt r hr r' hr'
  rw [hk.id_eq hr, hk.id_eq hr']
  exact hlt

theorem exists_mem_of_mem_recordsAt {u : Universe} {ids : List String} {r : TargetRecord} (h : r ∈ u.recordsAt ids) :
    ∃ id ∈ ids, u.find? id = some r := by
  obtain ⟨id, hid, hr⟩ := List.mem_filterMap.1 h
  exact ⟨id, hid, hr⟩

theorem Keyed.mem_recordsAt {u : Universe} (hk : u.Keyed) {ids : List String} {r : TargetRecord} :
    r ∈ u.recordsAt ids ↔ u.find? r.id = some r ∧ r.id ∈ ids := by
  constructor
  · intro h
    obtain ⟨id, hid, hr⟩ := exists_mem_of_mem_recordsAt h
    obtain rfl := hk.id_eq hr
    exact ⟨hr, hid⟩
  · rintro ⟨hr, hid⟩
    exact List.mem_filterMap.2 ⟨r.id, hid, hr⟩

end Universe

/-! ## Label and directory -/

namespace Module

/-- the module stands in the directory of the package that its label names -/
def Located (workspace : Path) (x : Module) : Prop :=
  ∃ package, Roots.packageOf x.label = .ok package ∧ Path.Canonical package ∧
    x.baseDirectory = workspace.join ⟨package⟩

theorem Located.directoryOf_eq {r : Roots} {x : Module} (h : x.Located r.workspace) :
    r.directoryOf x.label = .ok x.baseDirectory := by
  obtain ⟨package, hp, -, hb⟩ := h
  exact Roots.directoryOf_eq_ok_iff.2 ⟨package, hp, hb.symm⟩

/-- modules of one directory, in whatever spelling, are of one package -/
theorem Located.packageOf_eq {workspace : Path} {x y : Module} (hx : x.Located workspace) (hy : y.Located workspace)
    (h : x.baseDirectory.same y.baseDirectory = true) : Roots.packageOf x.label = Roots.packageOf y.label := by
  obtain ⟨a, ha, hca, hxa⟩ := hx
  obtain ⟨b, hb, hcb, hyb⟩ := hy
  rw [hxa, hyb] at h
  rw [ha, hb, Path.join_injective workspace hca hcb h]

/-- so their directories are spelled alike -/
theorem Located.baseDirectory_eq {workspace : Path} {x y : Module} (hx : x.Located workspace)
    (hy : y.Located workspace) (h : x.baseDirectory.same y.baseDirectory = true) :
    x.baseDirectory = y.baseDirectory := by
  have hxy := hx.packageOf_eq hy h
  obtain ⟨a, ha, -, hxa⟩ := hx
  obtain ⟨b, hb, -, hyb⟩ := hy
  rw [ha, hb, Except.ok.injEq] at hxy
  rw [hxa, hyb, hxy]

/-- and where directories are distinct, so are labels -/
theorem nodup_labels_of_directories {workspace : Path} {ms : List Module} (hl : ∀ x ∈ ms, x.Located workspace)
    (hd : ms.Pairwise fun x y => x.baseDirectory.same y.baseDirectory = false) : (ms.map (·.label)).Nodup := by
  rw [List.nodup_iff_pairwise_ne, List.pairwise_map]
  apply hd.imp_of_mem
  intro x y hx hy hne he
  obtain ⟨a, ha, -, hxa⟩ := hl x hx
  obtain ⟨b, hb, -, hyb⟩ := hl y hy
  rw [he, hb, Except.ok.injEq] at ha
  rw [hxa, hyb, ha, Path.same_refl] at hne
  exact absurd hne (by decide)

end Module

/-! ## Making modules -/

namespace Mapping

/-- the module of a record, once its directory is known -/
def moduleOf (m : Mapping) (t : FileTree) (u : Universe) (r : TargetRecord) (base : Path) : Module where
  label := ⟨r.id⟩
  dependencies := r.dependencies.map Label.mk
  languages := m.languagesOf r
  tags := Tag.ofRecord r
  baseDirectory := base
  sourceSet := sourceSetOf (m.pluginFor r) t (.ofList (r.sources.map (m.roots.resolve t)))
  resources := .ofList (r.resources.map (m.roots.resolve t))
  dependencySources := (m.pluginFor r).dependencySources m.roots t u r
  payload := (m.pluginFor r).payload? m.roots t r

theorem createModule_eq (m : Mapping) (t : FileTree) (u : Universe) (r : TargetRecord) :
    m.createModule t u r = (m.roots.directoryOf ⟨r.id⟩).map (m.moduleOf t u r) := by
  unfold createModule
  cases m.roots.directoryOf ⟨r.id⟩ <;> rfl

theorem createModule_eq_ok_iff {m : Mapping} {t : FileTree} {u : Universe} {r : TargetRecord} {x : Module} :
    m.createModule t u r = .ok x ↔ ∃ base, m.roots.directoryOf ⟨r.id⟩ = .ok base ∧ m.moduleOf t u r base = x := by
  unfold createModule
  rw [bind_eq_ok_iff]
  exact exists_congr fun base => and_congr_right fun _ => pure_eq_ok_iff

/-- whoever utters the wish to stop, what is made is made of the records in order -/
theorem createModules_eq {m : Mapping} {t : FileTree} {u : Universe} {stop stop' : Bool} {rs : List TargetRecord}
    {ms : List Module} (h : m.createModules t u stop rs = .ok (ms, stop')) :
    ms = rs.filterMap fun r => (m.createModule t u r).toOption := by
  induction rs generalizing stop stop' ms with
  | nil =>
    obtain ⟨rfl, -⟩ := Prod.mk.inj (Except.ok.inj h)
    rfl
  | cons r rest ih =>
    unfold createModules at h
    split_ifs at h
    cases hr : m.createModule t u r with
    | error e =>
      rw [hr] at h
      rw [List.filterMap_cons_none (by rw [hr]; rfl)]
      exact ih h
    | ok x =>
      rw [hr] at h
      obtain ⟨⟨made, stop''⟩, hrest, he⟩ := bind_eq_ok_iff.1 h
      obtain ⟨rfl, -⟩ := Prod.mk.inj (pure_eq_ok_iff.1 he)
      rw [List.filterMap_cons_some (by rw [hr]; rfl), ih hrest]

/-- the modules of the roots that have one, those to be hidden left out -/
def imported (m : Mapping) (t : FileTree) (u : Universe) : List Module :=
  ((selected u).filterMap fun r => ((m.prepare u).createModule t u r).toOption).filter fun x => !x.hasTag .noIde

/-- nobody asks to stop, neither at the beginning nor while modules are made -/
def Undisturbed (m : Mapping) (t : FileTree) (u : Universe) (stop : Bool) : Prop :=
  stop = false ∧ ∃ ms, (m.prepare u).createModules t u false (selected u) = .ok (ms, false)

theorem check_eq_ok_iff {stop : Bool} {x : Unit} : check stop = .ok x ↔ stop = false := by
  cases stop <;> simp [check]

theorem mergeModules_eq_ok_iff {m : Mapping} {stop : Bool} {ms out : List Module} :
    m.mergeModules stop ms = .ok out ↔
      if m.merge.enabled then stop = false ∧ Merging.merge m.merge.ignoredRoots ms = .ok out else ms = out := by
  unfold mergeModules
  split_ifs
  · rw [bind_eq_ok_iff]
    simp [check_eq_ok_iff]
  · exact Except.ok.injEq ms out ▸ Iff.rfl

/-- **What an import gives.** It succeeds iff nobody stops it and the imported modules can be merged, as far as they are
to be; these and their placeholders are the project. -/
theorem createProject_eq_ok_iff {m : Mapping} {t : FileTree} {u : Universe} {view : ProjectView} {stop : Bool}
    {p : Project} :
    m.createProject t u view stop = .ok p ↔
      m.Undisturbed t u stop ∧ ∃ ms, m.mergeModules false (m.imported t u) = .ok ms ∧
        .ofModules m.roots.workspace (ms ++ m.placeholdersFor view ms) = p := by
  unfold createProject Undisturbed
  simp only [bind_eq_ok_iff, check_eq_ok_iff, pure_eq_ok_iff, exists_and_left, exists_const, Prod.exists]
  constructor
  · rintro ⟨rfl, made, stop', hmade, ms, hms, rfl, he⟩
    exact ⟨⟨rfl, made, hmade⟩, ms, by rw [imported, ← createModules_eq hmade]; exact hms, he⟩
  · rintro ⟨⟨rfl, made, hmade⟩, ms, hms, he⟩
    exact ⟨rfl, made, false, hmade, ms, by rw [imported, ← createModules_eq hmade] at hms; exact hms, rfl, he⟩

/-! ## Imported modules -/

theorem mem_imported {m : Mapping} {t : FileTree} {u : Universe} {x : Module} :
    x ∈ m.imported t u ↔
      ∃ r ∈ selected u, (m.prepare u).createModule t u r = .ok x ∧ x.hasTag .noIde = false := by
  unfold imported
  simp only [List.mem_filter, List.mem_filterMap, Bool.not_eq_true', toOption_eq_some_iff]
  constructor
  · rintro ⟨⟨r, hr, hx⟩, ht⟩
    exact ⟨r, hr, hx, ht⟩
  · rintro ⟨r, hr, hx, ht⟩
    exact ⟨⟨r, hr, hx⟩, ht⟩

/-- a module has the label of its record -/
theorem label_of_createModule {m : Mapping} {t : FileTree} {u : Universe} {r : TargetRecord} {x : Module}
    (h : m.createModule t u r = .ok x) : x.label = ⟨r.id⟩ := by
  obtain ⟨base, -, rfl⟩ := createModule_eq_ok_iff.1 h
  rfl

/-- **Imported modules come in the order of their labels.** -/
theorem pairwise_imported (m : Mapping) (t : FileTree) {u : Universe} (hk : u.Keyed) :
    (m.imported t u).Pairwise fun x y => compare x.label y.label = .lt := by
  apply List.Pairwise.filter
  apply List.Pairwise.filterMap _ _ (hk.pairwise_recordsAt u.roots)
  intro r r' hlt x hx x' hx'
  rw [label_of_createModule (toOption_eq_some_iff.1 hx), label_of_createModule (toOption_eq_some_iff.1 hx')]
  exact hlt

theorem nodup_labels_imported (m : Mapping) (t : FileTree) {u : Universe} (hk : u.Keyed) :
    ((m.imported t u).map (·.label)).Nodup := by
  rw [List.nodup_iff_pairwise_ne, List.pairwise_map]
  apply (pairwise_imported m t hk).imp
  intro x y hlt he
  have heq : compare x.label y.label = .eq := by rw [he]; exact ReflCmp.compare_self
  simp [heq] at hlt

/-- **Imported modules stand where their labels say.** -/
theorem located_of_mem_imported {m : Mapping} {t : FileTree} {u : Universe} (hc : u.HasCanonicalPackages) {x : Module}
    (h : x ∈ m.imported t u) : x.Located m.roots.workspace := by
  obtain ⟨r, hr, hx, -⟩ := mem_imported.1 h
  obtain ⟨base, hb, rfl⟩ := createModule_eq_ok_iff.1 hx
  obtain ⟨package, hp, rfl⟩ := Roots.directoryOf_eq_ok_iff.1 hb
  obtain ⟨id, -, hid⟩ := Universe.exists_mem_of_mem_recordsAt hr
  exact ⟨package, hp, hc _ (Universe.mem_entries_of_find? hid) package hp, rfl⟩

theorem not_isSynthetic_of_mem_imported {m : Mapping} {t : FileTree} {u : Universe} {x : Module}
    (h : x ∈ m.imported t u) : x.isSynthetic = false := by
  obtain ⟨r, -, hx, -⟩ := mem_imported.1 h
  obtain ⟨base, -, rfl⟩ := createModule_eq_ok_iff.1 hx
  rfl

end Mapping

end BuildImport
