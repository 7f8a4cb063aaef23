/-
Imports that are stopped.

The wish to stop is there from the beginning, or a plugin utters it while it makes the module of a record. Once uttered
it is never taken back (`Stopped`), and it is looked at before each further record, before merging and at the end.
Whichever of these looks comes first, none of them lets anything else out.

- `stopped_createModules_of_stop`, `stopped_createModules_of_asks`: the walk through the records passes the wish on, or
  fails with it.
- `createProject_of_stopped`: whatever comes after the walk gives the one error of stopping.
- `createProject_ne_cancelled`: and this error has no other cause.

`createProject_stopped_iff` says which imports are stopped. It holds of the last record as of any other, of records that
are hidden once they are made, and of imports that could not have been merged.
-/
import Mathlib.Tactic
import BuildImport.Proofs.Payloads

namespace BuildImport

open Std Outcome

/-! ## A look at the universe -/

namespace Plugin

/-- what a plugin learns from the universe changes neither its languages nor what it asks for -/
@[simp] theorem languages_prepare (u : Universe) (p : Plugin) : (prepare u p).languages = p.languages := by
  cases p <;> rfl

@[simp] theorem interrupts_prepare (u : Universe) (p : Plugin) (r : TargetRecord) :
    (prepare u p).interrupts r = p.interrupts r := by
  cases p <;> rfl

/-- so it changes no choice -/
theorem choose_prepare (u : Universe) (ps : List Plugin) (ls : SortedSet Language) :
    choose (ps.map (prepare u)) ls = prepare u (choose ps ls) := by
  have hsame : ((fun p => p.languages.any ls.contains) ∘ prepare u) = fun p => p.languages.any ls.contains := by
    funext p
    simp
  unfold choose
  rw [List.find?_map, hsame]
  cases ps.find? fun p => p.languages.any ls.contains <;> rfl

end Plugin

namespace Mapping

variable {m : Mapping} {t : FileTree} {u : Universe} {view : ProjectView} {stop : Bool}

theorem asksToStop_prepare {r : TargetRecord} : (m.prepare u).AsksToStop r ↔ m.AsksToStop r := by
  have hplugin : (m.prepare u).pluginFor r = (m.pluginFor r).prepare u := Plugin.choose_prepare u m.plugins _
  unfold AsksToStop
  rw [hplugin, Plugin.interrupts_prepare]
  rfl

/-! ## The walk through the records -/

/-- the walk failed because somebody asked to stop, or it came to its end and somebody had asked by then -/
def Stopped (walk : Except Error (List Module × Bool)) : Prop :=
  walk = .error .cancelled ∨ ∃ ms, walk = .ok (ms, true)

/-- one more module in front does not take the wish back -/
theorem Stopped.cons {walk : Except Error (List Module × Bool)} (h : Stopped walk) (made : Module) :
    Stopped (walk >>= fun (ms, stop) => pure (made :: ms, stop)) := by
  rcases h with rfl | ⟨ms, rfl⟩
  · exact .inl rfl
  · exact .inr ⟨made :: ms, rfl⟩

theorem stopped_createModules_of_stop (rs : List TargetRecord) : Stopped (m.createModules t u true rs) := by
  cases rs with
  | nil => exact .inr ⟨[], rfl⟩
  | cons r rest => exact .inl rfl

/-- one record: where it asks, the walk goes on with the wish, and else with what there was -/
theorem createModules_cons (r : TargetRecord) (rest : List TargetRecord) :
    m.createModules t u false (r :: rest) =
      match m.createModule t u r with
      | .error _ => m.createModules t u false rest
      | .ok made =>
        m.createModules t u ((m.pluginFor r).interrupts r) rest >>= fun (ms, stop) => pure (made :: ms, stop) := by
  rw [createModules]
  rfl

/-- **No wish is lost.** Wherever the record stands that asks to stop, the walk ends with the wish. -/
theorem stopped_createModules_of_asks {rs : List TargetRecord} (h : ∃ r ∈ rs, m.AsksToStop r) :
    Stopped (m.createModules t u stop rs) := by
  induction rs generalizing stop with
  | nil =>
    obtain ⟨r, hr, -⟩ := h
    simp at hr
  | cons r rest ih =>
    cases stop with
    | true => exact stopped_createModules_of_stop _
    | false =>
      rw [createModules_cons]
      obtain ⟨r', hr', hasks⟩ := h
      rcases List.mem_cons.1 hr' with rfl | hr'
      · -- the record that asks is made here, and the walk goes on with its wish
        obtain ⟨d, hd⟩ := hasks.1
        have hmade : m.createModule t u r' = .ok (m.moduleOf t u r' d) := createModule_eq_ok_iff.2 ⟨d, hd, rfl⟩
        rw [hmade, hasks.2]
        exact (stopped_createModules_of_stop rest).cons _
      · have hrest : ∀ stop, Stopped (m.createModules t u stop rest) := fun stop => ih ⟨r', hr', hasks⟩
        cases m.createModule t u r with
        | error e => exact hrest false
        | ok made => exact (hrest _).cons made

/-! ## The whole import -/

/-- **Nothing comes after the wish.** Whether it merges or not, an import whose walk is stopped gives no project, and no
other error. -/
theorem createProject_of_stopped (h : Stopped ((m.prepare u).createModules t u stop (selected u))) :
    m.createProject t u view stop = .error .cancelled := by
  unfold createProject
  dsimp only
  cases stop with
  | true => rfl
  | false =>
    rcases h with h | ⟨ms, h⟩
    · rw [h]
      rfl
    · rw [h]
      -- the look before merging stops it, or the one at the end
      cases hon : m.merge.enabled <;> simp [mergeModules, prepare, hon, check, bind, Except.bind]

/-- merging fails for other reasons -/
theorem createProject_ne_cancelled (h : ∀ r ∈ selected u, ¬ m.AsksToStop r) :
    m.createProject t u view false ≠ .error .cancelled := by
  rw [createProject_of_quiet fun r hr hasks => h r hr (asksToStop_prepare.1 hasks)]
  intro hfails
  rw [map_eq_error_iff, mergeModules_eq_error_iff, Merging.merge_eq_error_iff] at hfails
  exact absurd hfails.2.1 (by decide)

/-- **Which imports are stopped.** An import fails because it is stopped just if somebody asked to stop it before, or a
plugin does when it meets a record of a root whose id names a directory. No such import gives a project or fails in
another way. -/
theorem createProject_stopped_iff (hk : u.Keyed) :
    m.createProject t u view stop = .error .cancelled ↔
      stop = true ∨ ∃ r, u.isRoot r.id = true ∧ u.find? r.id = some r ∧ m.AsksToStop r := by
  have hselected : (∃ r, u.isRoot r.id = true ∧ u.find? r.id = some r ∧ m.AsksToStop r) ↔
      ∃ r ∈ selected u, m.AsksToStop r := by
    simp only [mem_selected_iff hk, and_assoc]
  rw [hselected]
  constructor
  · intro h
    by_contra hno
    rw [not_or, Bool.not_eq_true] at hno
    obtain ⟨rfl, hno⟩ := hno
    exact createProject_ne_cancelled (fun r hr hasks => hno ⟨r, hr, hasks⟩) h
  · rintro (rfl | ⟨r, hr, hasks⟩)
    · exact createProject_of_stopped (stopped_createModules_of_stop _)
    · exact createProject_of_stopped (stopped_createModules_of_asks ⟨r, hr, asksToStop_prepare.2 hasks⟩)

/-- two Java libraries of one package, and a generated one behind them whose rule has no module -/
def generatedLast : Universe :=
  .ofLists
    [javaLibrary "//svc:a", javaLibrary "//svc:b",
     { id := "//svc:z", kind := "genrule", sources := [.source "svc/gen.py"] }]
    ["//svc:a", "//svc:b", "//svc:z"]

/-- a merging import with one more plugin, which asks to stop at the last of these -/
def stoppedImport : Mapping :=
  { partImport with plugins := .interrupting "//svc:z" [.python] :: Plugin.standard }

/-- the wish comes with the last record, which is then hidden; without it the payloads would have clashed -/
theorem generatedLast_stopped :
    generatedLast.Keyed ∧
      (∃ r, generatedLast.isRoot r.id = true ∧ generatedLast.find? r.id = some r ∧ stoppedImport.AsksToStop r ∧
        (Tag.ofRecord r).contains .noIde = true) ∧
      stoppedImport.createProject ⟨∅, []⟩ generatedLast .standard false = .error .cancelled ∧
      partImport.createProject ⟨∅, []⟩ generatedLast .standard false = .error (.mergeUnsupported .java .java) := by
  have hk : generatedLast.Keyed := Universe.keyed_ofLists _ _
  have hclash : partImport.Clashes ⟨∅, []⟩ generatedLast := ⟨rfl, ⟨"/ws/svc"⟩, by decide +kernel⟩
  have hasks : stoppedImport.AsksToStop { id := "//svc:z", kind := "genrule", sources := [.source "svc/gen.py"] } :=
    ⟨⟨⟨"/ws/svc"⟩, rfl⟩, by decide⟩
  refine ⟨hk, ⟨_, ?_, ?_, hasks, by decide⟩, ?_, (createProject_eq_error_iff rfl).2 ⟨rfl, hclash⟩⟩
  · decide
  · decide
  · exact (createProject_stopped_iff hk).2 (.inr ⟨_, by decide, by decide, hasks⟩)

end Mapping

end BuildImport
