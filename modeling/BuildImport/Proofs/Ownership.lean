/-
Who owns a file.

A module owns the files that it lists, in whatever spelling (`Module.owns`). The index of a project is filled module
after module and a later entry replaces an earlier one, so it holds the label of the last owner (`find?_indexOf`). Where
labels tell modules apart, looking up the label gives that module back (`findOwner?_eq`).
-/
import Mathlib.Tactic
import BuildImport.Project
import BuildImport.Proofs.Components
import BuildImport.Proofs.Membership

namespace BuildImport

open Std

/-- whether the file is a source or a resource of the module -/
def Module.owns (x : Module) (file : Path) : Bool := x.owned.any file.same

namespace Project

/-! ## The last owner -/

/-- the last of the modules that owns the file -/
def lastOwner? (ms : List Module) (file : Path) : Option Module := ms.reverse.find? (·.owns file)

theorem lastOwner?_append (ms ms' : List Module) (file : Path) :
    lastOwner? (ms ++ ms') file = (lastOwner? ms' file).or (lastOwner? ms file) := by
  rw [lastOwner?, List.reverse_append, List.find?_append]
  rfl

theorem lastOwner?_cons (x : Module) (ms : List Module) (file : Path) :
    lastOwner? (x :: ms) file = (lastOwner? ms file).or (if x.owns file then some x else none) := by
  rw [← List.singleton_append, lastOwner?_append]
  congr 1
  cases h : x.owns file <;> simp [lastOwner?, h]

theorem lastOwner?_eq_none_iff {ms : List Module} {file : Path} :
    lastOwner? ms file = none ↔ ∀ x ∈ ms, x.owns file = false := by
  simp [lastOwner?]

theorem lastOwner?_eq_some_iff {ms : List Module} {file : Path} {x : Module} :
    lastOwner? ms file = some x ↔
      ∃ before after, ms = before ++ x :: after ∧ x.owns file = true ∧ ∀ y ∈ after, y.owns file = false := by
  rw [lastOwner?, List.find?_eq_some_iff_append]
  constructor
  · rintro ⟨hx, as, bs, he, has⟩
    have hms : ms = bs.reverse ++ x :: as.reverse := by
      rw [← List.reverse_reverse ms, he]
      simp
    have hafter : ∀ y ∈ as.reverse, y.owns file = false := by
      intro y hy
      simpa using has y (List.mem_reverse.1 hy)
    exact ⟨bs.reverse, as.reverse, hms, hx, hafter⟩
  · rintro ⟨before, after, rfl, hx, hafter⟩
    refine ⟨hx, after.reverse, before.reverse, by simp, ?_⟩
    intro y hy
    simpa using hafter y (List.mem_reverse.1 hy)

/-! ## The index -/

/-- what one more module changes in the index -/
theorem find?_indexModule_owns (owners : SortedMap Path Label) (x : Module) (file : Path) :
    (indexModule owners x).find? file = if x.owns file then some x.label else owners.find? file := by
  simp only [find?_indexModule, Path.compare_beq_eq_same]
  rfl

theorem find?_foldl_indexModule (owners : SortedMap Path Label) (ms : List Module) (file : Path) :
    (ms.foldl indexModule owners).find? file = ((lastOwner? ms file).map (·.label)).or (owners.find? file) := by
  induction ms generalizing owners with
  | nil => rfl
  | cons x ms ih =>
    rw [List.foldl_cons, ih, find?_indexModule_owns, lastOwner?_cons]
    cases lastOwner? ms file with
    | some y => rfl
    | none => cases x.owns file <;> rfl

/-- **The index holds the label of the last owner.** -/
theorem find?_indexOf (ms : List Module) (file : Path) :
    (indexOf ms).find? file = (lastOwner? ms file).map (·.label) := by
  rw [indexOf, find?_foldl_indexModule]
  exact Option.or_none

@[simp] theorem ofModules_modules (workspace : Path) (ms : List Module) :
    (ofModules workspace ms).modules = ms := rfl

@[simp] theorem ofModules_owners (workspace : Path) (ms : List Module) :
    (ofModules workspace ms).owners = indexOf ms := rfl

/-! ## Looking up the owner -/

/-- **Where labels tell modules apart, the owner of a file is the last module that owns it.** -/
theorem findOwner?_eq {workspace : Path} {ms : List Module} (hd : (ms.map (·.label)).Nodup) (file : Path) :
    (ofModules workspace ms).findOwner? file = lastOwner? ms file := by
  unfold findOwner?
  rw [ofModules_owners, find?_indexOf]
  cases ho : lastOwner? ms file with
  | none => rfl
  | some x => exact find?_of_nodup hd (List.mem_reverse.1 (List.mem_of_find?_eq_some ho))

end Project

end BuildImport
