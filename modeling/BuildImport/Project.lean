/-
Projects: the modules of a workspace with an index from files to the labels of their owners.

When two modules own one file the later one has it. Main fact: `find?_indexModule`, what the index holds at
a path after one more module.
-/
import BuildImport.Module
import BuildImport.SortedMap

namespace BuildImport

open Std

structure Project where
  workspaceRoot : Path
  modules : List Module
  /-- the owner of each source and resource -/
  owners : SortedMap Path Label
  deriving DecidableEq, Inhabited

namespace Project

/-- the index after one more module -/
def indexModule (owners : SortedMap Path Label) (m : Module) : SortedMap Path Label :=
  m.owned.foldl (fun owners p => owners.insert p m.label) owners

/-- who owns what, module after module -/
def indexOf (modules : List Module) : SortedMap Path Label := modules.foldl indexModule .empty

/-- the project of these modules -/
def ofModules (workspaceRoot : Path) (modules : List Module) : Project :=
  ⟨workspaceRoot, modules, indexOf modules⟩

/-- the first module with the label -/
def find? (p : Project) (l : Label) : Option Module := p.modules.find? fun m => m.label == l

/-- the module that owns a file -/
def findOwner? (p : Project) (file : Path) : Option Module := (p.owners.find? file).bind p.find?

/-! ## Facts -/

theorem find?_foldl_insert (l : Label) (files : List Path) (owners : SortedMap Path Label) (file : Path) :
    (files.foldl (fun owners p => owners.insert p l) owners).find? file =
      if files.any (fun p => compare file p == .eq) then some l else owners.find? file := by
  induction files generalizing owners with
  | nil => simp
  | cons p files ih =>
    simp only [List.foldl_cons, ih, SortedMap.find?_insert, List.any_cons, Bool.or_eq_true, beq_iff_eq]
    by_cases h : compare file p = .eq <;> by_cases h' : files.any (fun p => compare file p == .eq) <;> simp [h, h']

/-- what one more module changes in the index -/
theorem find?_indexModule (owners : SortedMap Path Label) (m : Module) (file : Path) :
    (indexModule owners m).find? file =
      if m.owned.any (fun p => compare file p == .eq) then some m.label else owners.find? file :=
  find?_foldl_insert m.label m.owned owners file

/-! ## Written form -/

open RecordField Datum

instance : Encoded Project where
  schema := .record
    [required "workspace_root" .text, required "modules" (.list (Encoded.schema Module)),
     required "source_to_target" (.dictionary .text)]
  toDatum p := .record
    [.text p.workspaceRoot.text, .list (p.modules.map Encoded.toDatum),
     .dictionary (p.owners.entries.map fun e => (e.1.text, .text e.2.text))]
  ofDatum?
    | .record [.text root, modules, .dictionary owners] => do
      let owners ← owners.mapM fun e => do return (⟨e.1⟩, ⟨← e.2.asText?⟩)
      return ⟨⟨root⟩, ← asList? Encoded.ofDatum? modules, .ofList owners⟩
    | _ => none

end Project

end BuildImport
