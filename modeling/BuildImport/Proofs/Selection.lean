/-
Which records an import makes modules of, and what it does not look at.

A root becomes a module if it has a record, its id names a directory, and nothing hides it (`Mapping.Importable`). The
roots that are turned away leave no trace: one without a record, because it is nobody's dependency in the universe; one
whose id names no directory, unless another record depends on it or it asks for a language level, which is agreed on for
the whole project.

- `Mapping.createProject_of_quiet`: an import that nobody stops can fail only while merging. The plugins for the Java
  machine stop none (`Mapping.createProject_eq`).
- `Mapping.imported_congr`: what decides about the imported modules. The language level, the importable records and
  their dependencies are all that an import reads from the universe.
- `Mapping.createProject_addRoots`, `Mapping.createProject_addRecord`: what changes none of these.

`importable_roots_become_modules` puts this together for an import that does not merge.
-/
import Mathlib.Tactic
import BuildImport.Proofs.Growth
import BuildImport.Proofs.Representation

namespace BuildImport

open Std Outcome

/-! ## Imports that nobody stops -/

namespace Plugin

/-- the plugins for the Java machine never ask to stop, and neither does the plain one -/
theorem interrupts_choose {u : Universe} {ps : List Plugin} (hps : ps = standard.map (prepare u))
    (ls : SortedSet Language) (r : TargetRecord) : (choose ps ls).interrupts r = false := by
  subst hps
  unfold choose
  cases hf : (standard.map (prepare u)).find? fun p => p.languages.any ls.contains with
  | none => rfl
  | some p =>
    obtain ⟨q, hq, rfl⟩ := List.mem_map.1 (List.mem_of_find?_eq_some hf)
    simp only [standard, List.mem_cons, List.not_mem_nil, or_false] at hq
    rcases hq with rfl | rfl <;> rfl

end Plugin

namespace Mapping

variable {m : Mapping} {t : FileTree} {u : Universe} {view : ProjectView}

/-- making the module of the record asks to stop the import: its id names a directory, and the plugin for its languages
asks when it meets the record -/
def AsksToStop (m : Mapping) (r : TargetRecord) : Prop :=
  (∃ d, m.roots.directoryOf ⟨r.id⟩ = .ok d) ∧ (m.pluginFor r).interrupts r = true

/-- where no record asks to stop, all of them are gone through -/
theorem createModules_of_quiet {rs : List TargetRecord} (h : ∀ r ∈ rs, ¬ m.AsksToStop r) :
    m.createModules t u false rs = .ok (rs.filterMap fun r => (m.createModule t u r).toOption, false) := by
  induction rs with
  | nil => rfl
  | cons r rest ih =>
    have ih := ih fun r' hr' => h r' (List.mem_cons_of_mem _ hr')
    unfold createModules
    cases hr : m.createModule t u r with
    | error e =>
      rw [List.filterMap_cons_none (by rw [hr]; rfl)]
      exact ih
    | ok x =>
      obtain ⟨d, hd, -⟩ := createModule_eq_ok_iff.1 hr
      have hquiet : (m.pluginFor r).interrupts r = false := by
        rw [← Bool.not_eq_true]
        exact fun hasks => h r List.mem_cons_self ⟨⟨d, hd⟩, hasks⟩
      rw [List.filterMap_cons_some (by rw [hr]; rfl)]
      simp only [Bool.false_eq_true, if_false, hquiet, ih]
      rfl

/-- **An import that nobody stops.** Only merging can fail. -/
theorem createProject_of_quiet (h : ∀ r ∈ selected u, ¬ (m.prepare u).AsksToStop r) :
    m.createProject t u view false =
      (m.mergeModules false (m.imported t u)).map fun ms =>
        .ofModules m.roots.workspace (ms ++ m.placeholdersFor view ms) := by
  unfold createProject
  dsimp only
  rw [createModules_of_quiet h]
  change ((m.mergeModules false (m.imported t u)).bind fun ms => _) = _
  cases m.mergeModules false (m.imported t u) <;> rfl

/-- the plugins for the Java machine stop no import -/
theorem createProject_eq (hp : m.plugins = Plugin.standard) :
    m.createProject t u view false =
      (m.mergeModules false (m.imported t u)).map fun ms =>
        .ofModules m.roots.workspace (ms ++ m.placeholdersFor view ms) := by
  have hquiet : ∀ r, ((m.prepare u).pluginFor r).interrupts r = false := fun r =>
    Plugin.interrupts_choose (by rw [prepare, hp]) _ r
  refine createProject_of_quiet fun r _ hr => ?_
  have hasks := hr.2
  simp [hquiet] at hasks

/-! ## Records that become modules -/

/-- the record is one of a root, its id names a directory, and nothing hides it -/
structure Importable (m : Mapping) (u : Universe) (r : TargetRecord) : Prop where
  root : u.isRoot r.id = true
  record : u.find? r.id = some r
  placed : ∃ d, m.roots.directoryOf ⟨r.id⟩ = .ok d
  shown : (Tag.ofRecord r).contains .noIde = false

/-- the records that become modules, in the order of their ids -/
def importable (m : Mapping) (u : Universe) : List TargetRecord :=
  (selected u).filter fun r =>
    (m.roots.directoryOf ⟨r.id⟩).toOption.isSome && !(Tag.ofRecord r).contains .noIde

theorem mem_importable_iff (hk : u.Keyed) {r : TargetRecord} : r ∈ m.importable u ↔ m.Importable u r := by
  have hplaced : (m.roots.directoryOf ⟨r.id⟩).toOption.isSome = true ↔ ∃ d, m.roots.directoryOf ⟨r.id⟩ = .ok d := by
    simp only [Option.isSome_iff_exists, toOption_eq_some_iff]
  unfold importable
  rw [List.mem_filter, mem_selected_iff hk, Bool.and_eq_true, Bool.not_eq_true', hplaced]
  constructor
  · rintro ⟨⟨hroot, hrecord⟩, hp, hs⟩
    exact ⟨hroot, hrecord, hp, hs⟩
  · rintro ⟨hroot, hrecord, hp, hs⟩
    exact ⟨⟨hroot, hrecord⟩, hp, hs⟩

theorem pairwise_importable (hk : u.Keyed) :
    (m.importable u).Pairwise fun r r' => compare r.id r'.id = .lt :=
  (hk.pairwise_recordsAt u.roots).filter _

/-- which records become modules is all there is to know about their list -/
theorem importable_congr {u' : Universe} (hk : u.Keyed) (hk' : u'.Keyed)
    (h : ∀ r, m.Importable u' r ↔ m.Importable u r) : m.importable u' = m.importable u := by
  refine eq_of_pairwise_keys (pairwise_importable hk') (pairwise_importable hk) fun r => ?_
  rw [mem_importable_iff hk', mem_importable_iff hk, h]

/-- the imported modules are those of the importable records -/
theorem imported_eq (m : Mapping) (t : FileTree) (u : Universe) :
    m.imported t u = (m.importable u).filterMap fun r => ((m.prepare u).createModule t u r).toOption := by
  unfold imported importable
  rw [List.filter_filterMap, List.filterMap_filter]
  apply List.filterMap_congr
  intro r _
  have htag : ∀ base, ((m.prepare u).moduleOf t u r base).hasTag .noIde = (Tag.ofRecord r).contains .noIde :=
    fun _ => rfl
  have hdir : (m.prepare u).roots.directoryOf ⟨r.id⟩ = m.roots.directoryOf ⟨r.id⟩ := rfl
  rw [createModule_eq, hdir]
  cases m.roots.directoryOf ⟨r.id⟩ with
  | error e => simp [Except.map, Except.toOption]
  | ok base => cases hs : (Tag.ofRecord r).contains .noIde <;> simp [Except.map, Except.toOption, htag, hs]

/-- each importable record has its module -/
theorem forall₂_imported (m : Mapping) (t : FileTree) (u : Universe) :
    List.Forall₂ (fun r x => (m.prepare u).createModule t u r = .ok x) (m.importable u) (m.imported t u) := by
  rw [imported_eq]
  apply forall₂_filterMap_toOption
  intro r hr
  obtain ⟨d, hd⟩ := Option.isSome_iff_exists.1 (Bool.and_eq_true_iff.1 (List.mem_filter.1 hr).2).1
  exact ⟨_, createModule_eq_ok_iff.2 ⟨d, toOption_eq_some_iff.1 hd, rfl⟩⟩

/-! ## What an import reads from the universe -/

theorem createModule_congr {u' : Universe} {r : TargetRecord} (h : u'.withoutRoots r.id = u.withoutRoots r.id) :
    m.createModule t u' r = m.createModule t u r := by
  unfold createModule Plugin.dependencySources
  rw [h]

theorem prepare_congr {u' : Universe} (h : Plugin.level u' = Plugin.level u) : m.prepare u' = m.prepare u := by
  have hplugin : Plugin.prepare u' = Plugin.prepare u := by
    funext p
    cases p <;> simp [Plugin.prepare, h]
  rw [prepare, hplugin, prepare]

/-- **What decides about the imported modules**: the language level, the importable records and their dependencies. -/
theorem imported_congr {u' : Universe} (hlevel : Plugin.level u' = Plugin.level u)
    (hrecords : m.importable u' = m.importable u)
    (hdependencies : ∀ r ∈ m.importable u, u'.withoutRoots r.id = u.withoutRoots r.id) :
    m.imported t u' = m.imported t u := by
  rw [imported_eq, imported_eq, hrecords, prepare_congr hlevel]
  exact List.filterMap_congr fun r hr => by rw [createModule_congr (hdependencies r hr)]

theorem createProject_congr {u' : Universe} (hp : m.plugins = Plugin.standard)
    (h : m.imported t u' = m.imported t u) : m.createProject t u' view false = m.createProject t u view false := by
  rw [createProject_eq hp, createProject_eq hp, h]

/-- **Roots without a record change nothing.** -/
theorem createProject_addRoots (hk : u.Keyed) (hp : m.plugins = Plugin.standard) {ids : List String}
    (h : ∀ id ∈ ids, u.find? id = none) :
    m.createProject t (u.addRoots ids) view false = m.createProject t u view false := by
  have hroot : ∀ {r : TargetRecord}, u.find? r.id = some r → (u.addRoots ids).isRoot r.id = u.isRoot r.id := by
    intro r hr
    refine Universe.isRoot_addRoots_of_not_mem fun hid => ?_
    simp [h _ hid] at hr
  have himportable : ∀ r, m.Importable (u.addRoots ids) r ↔ m.Importable u r := by
    intro r
    constructor
    · rintro ⟨hr, hrecord, hplaced, hshown⟩
      exact ⟨(hroot hrecord).symm.trans hr, hrecord, hplaced, hshown⟩
    · rintro ⟨hr, hrecord, hplaced, hshown⟩
      exact ⟨(hroot hrecord).trans hr, hrecord, hplaced, hshown⟩
  exact createProject_congr hp <| imported_congr rfl (importable_congr hk (hk.addRoots ids) himportable)
    fun r _ => hk.withoutRoots_addRoots h r.id

/-- **A record changes nothing** that does not become a module, that no module reaches and that names no language
level. -/
theorem createProject_addRecord (hk : u.Keyed) (hp : m.plugins = Plugin.standard) {x : TargetRecord}
    (hnew : u.find? x.id = none) (hlevel : Plugin.NamesNoLevel x) (hout : ¬ m.Importable (u.addRecord x) x)
    (hx : ∀ r, m.Importable u r → ∀ d ∈ u.listed r.id, ¬ (u.addRecord x).Reaches d x.id) :
    m.createProject t (u.addRecord x) view false = m.createProject t u view false := by
  have hne : ∀ {r : TargetRecord}, u.find? r.id = some r → r.id ≠ x.id := by
    intro r hr he
    simp [he, hnew] at hr
  have himportable : ∀ r, m.Importable (u.addRecord x) r ↔ m.Importable u r := by
    intro r
    by_cases he : r.id = x.id
    · constructor
      · intro hr
        have hrx : some x = some r := by
          rw [← hr.record, Universe.find?_addRecord, if_pos he]
        exact absurd (Option.some.inj hrx ▸ hr) hout
      · exact fun hr => absurd he (hne hr.record)
    · have hfind := Universe.find?_addRecord_of_ne (u := u) he
      constructor
      · rintro ⟨hroot, hrecord, hplaced, hshown⟩
        exact ⟨hroot, hfind.symm.trans hrecord, hplaced, hshown⟩
      · rintro ⟨hroot, hrecord, hplaced, hshown⟩
        exact ⟨hroot, hfind.trans hrecord, hplaced, hshown⟩
  refine createProject_congr hp <|
    imported_congr (Plugin.level_addRecord hnew hlevel) (importable_congr hk (hk.addRecord x) himportable) ?_
  intro r hr
  have hr := (mem_importable_iff hk).1 hr
  exact hk.withoutRoots_addRecord hnew (hne hr.record) (hx r hr)

/-- a record changes nothing whose id names no directory, on which no record depends, and that names no language level -/
theorem createProject_addRecord_misplaced (hk : u.Keyed) (hp : m.plugins = Plugin.standard) {x : TargetRecord}
    {fault : Error} (hnew : u.find? x.id = none) (hplaced : m.roots.directoryOf ⟨x.id⟩ = .error fault)
    (hno : ∀ e ∈ u.records.entries, x.id ∉ e.2.dependencies) (hlevel : Plugin.NamesNoLevel x) :
    m.createProject t (u.addRecord x) view false = m.createProject t u view false := by
  have hout : ¬ m.Importable (u.addRecord x) x := by
    rintro ⟨-, -, ⟨d, hd⟩, -⟩
    simp [hplaced] at hd
  refine createProject_addRecord hk hp hnew hlevel hout fun r hr d hd => ?_
  apply Universe.not_reaches_of_no_dependent hno
  rintro rfl
  rw [Universe.listed, hr.record] at hd
  exact hno _ (Universe.mem_entries_of_find? hr.record) hd

/-! ## Imports that do not merge -/

/-- without merging the project has the imported modules and their placeholders -/
theorem createProject_of_not_merging (hp : m.plugins = Plugin.standard) (hoff : m.merge.enabled = false) :
    m.createProject t u view false =
      .ok (.ofModules m.roots.workspace (m.imported t u ++ m.placeholdersFor view (m.imported t u))) := by
  have hmerge : m.mergeModules false (m.imported t u) = .ok (m.imported t u) := by
    rw [mergeModules_eq_ok_iff, if_neg (by simp [hoff])]
  rw [createProject_eq hp, hmerge]
  rfl

/-- **Every importable root becomes one module, and nothing else does.** An import with the plugins for the Java machine
that does not merge gives a project. Its modules are those of the importable records, one for each in the order of their
ids, and placeholders behind them. Further roots without a record change nothing; and neither does one more record,
itself a root or not, if its id names no directory, no record depends on it and it names no language level. -/
theorem importable_roots_become_modules (hk : u.Keyed) (hp : m.plugins = Plugin.standard)
    (hoff : m.merge.enabled = false) :
    (∃ p rs ms placeholders, m.createProject t u view false = .ok p ∧ p.modules = ms ++ placeholders ∧
      (∀ r, r ∈ rs ↔ m.Importable u r) ∧ (rs.Pairwise fun r r' => r.id < r'.id) ∧
      List.Forall₂ (fun r x => (m.prepare u).createModule t u r = .ok x) rs ms ∧
      ∀ x ∈ placeholders, x.isSynthetic = true) ∧
    (∀ ids, (∀ id ∈ ids, u.find? id = none) →
      m.createProject t (u.addRoots ids) view false = m.createProject t u view false) ∧
    ∀ x fault, u.find? x.id = none → m.roots.directoryOf ⟨x.id⟩ = .error fault →
      (∀ e ∈ u.records.entries, x.id ∉ e.2.dependencies) → Plugin.NamesNoLevel x →
      m.createProject t (u.addRecord x) view false = m.createProject t u view false ∧
        m.createProject t ((u.addRoots [x.id]).addRecord x) view false = m.createProject t u view false := by
  refine ⟨?_, fun ids hids => createProject_addRoots hk hp hids, ?_⟩
  · refine ⟨_, m.importable u, m.imported t u, _, createProject_of_not_merging hp hoff, rfl,
      fun r => mem_importable_iff hk, ?_, forall₂_imported m t u, fun x hx => isSynthetic_of_mem_placeholdersFor hx⟩
    exact (pairwise_importable hk).imp fun hlt => compare_lt_iff_lt.1 hlt
  · intro x fault hnew hplaced hno hlevel
    refine ⟨createProject_addRecord_misplaced hk hp hnew hplaced hno hlevel, ?_⟩
    have hroots : ∀ id ∈ [x.id], u.find? id = none := by
      intro id hid
      rw [List.mem_singleton.1 hid, hnew]
    rw [createProject_addRecord_misplaced (hk.addRoots [x.id]) hp hnew hplaced hno hlevel,
      createProject_addRoots hk hp hroots]

/-- A program, the library it needs, and roots of all kinds that are turned away: one of a rule without a module, one
that its build file hides, one whose id names no directory, and one without a record. -/
def mixedRoots : Universe :=
  .ofLists
    [{ id := "//app:app", kind := "java_binary", dependencies := ["//lib:lib", "//gone:gone"],
       sources := [.source "app/Main.java"], java := some { javacOpts := ["--release", "17"] } },
     { id := "//lib:lib", kind := "java_library", java := some { jars := [{ source := [.source "lib/lib-src.jar"] }] } },
     { id := "//gen:gen", kind := "genrule" },
     { id := "//lib:hidden", kind := "java_library", tags := ["no-ide"] },
     { id := "lib:broken", kind := "java_library" }]
    ["//gen:gen", "//lib:hidden", "lib:broken", "//app:app", "//missing:missing"]

/-- a library whose id has a colon too many -/
def misplaced : TargetRecord :=
  { id := "//lib:a:b", kind := "java_library", dependencies := ["//app:app", "//lib:a:b"],
    java := some { javacOpts := ["-Xlint"] } }

/-- of `mixedRoots` the program becomes a module; one more unknown root and `misplaced` change nothing -/
theorem mixedRoots_become_modules :
    mixedRoots.Keyed ∧ fullImport.plugins = Plugin.standard ∧ fullImport.merge.enabled = false ∧
    (∃ p rs ms placeholders, fullImport.createProject ⟨∅, []⟩ mixedRoots .standard false = .ok p ∧
      p.modules = ms ++ placeholders ∧ (∀ r, r ∈ rs ↔ fullImport.Importable mixedRoots r) ∧
      (rs.Pairwise fun r r' => r.id < r'.id) ∧
      List.Forall₂ (fun r x => (fullImport.prepare mixedRoots).createModule ⟨∅, []⟩ mixedRoots r = .ok x) rs ms ∧
      ∀ x ∈ placeholders, x.isSynthetic = true) ∧
    (∀ id ∈ ["//gone:gone"], mixedRoots.find? id = none) ∧
    fullImport.createProject ⟨∅, []⟩ (mixedRoots.addRoots ["//gone:gone"]) .standard false =
      fullImport.createProject ⟨∅, []⟩ mixedRoots .standard false ∧
    mixedRoots.find? misplaced.id = none ∧
    fullImport.roots.directoryOf ⟨misplaced.id⟩ = .error (.malformedLabel ⟨misplaced.id⟩ .notOneColon) ∧
    (∀ e ∈ mixedRoots.records.entries, misplaced.id ∉ e.2.dependencies) ∧ Plugin.NamesNoLevel misplaced ∧
    fullImport.createProject ⟨∅, []⟩ (mixedRoots.addRecord misplaced) .standard false =
      fullImport.createProject ⟨∅, []⟩ mixedRoots .standard false ∧
    fullImport.createProject ⟨∅, []⟩ ((mixedRoots.addRoots [misplaced.id]).addRecord misplaced) .standard false =
      fullImport.createProject ⟨∅, []⟩ mixedRoots .standard false := by
  have hk : mixedRoots.Keyed := Universe.keyed_ofLists _ _
  have hgone : ∀ id ∈ ["//gone:gone"], mixedRoots.find? id = none := by decide
  have hnew : mixedRoots.find? misplaced.id = none := by decide
  have hplaced : fullImport.roots.directoryOf ⟨misplaced.id⟩ = .error (.malformedLabel ⟨misplaced.id⟩ .notOneColon) := by
    rfl
  have hno : ∀ e ∈ mixedRoots.records.entries, misplaced.id ∉ e.2.dependencies := by decide
  have hlevel : Plugin.NamesNoLevel misplaced := by decide
  obtain ⟨hmodules, hroots, hrecord⟩ :=
    @importable_roots_become_modules fullImport ⟨∅, []⟩ mixedRoots .standard hk rfl rfl
  exact ⟨hk, rfl, rfl, hmodules, hgone, hroots _ hgone, hnew, hplaced, hno, hlevel,
    hrecord _ _ hnew hplaced hno hlevel⟩

end Mapping

end BuildImport
