/-
The target universe: the records of all targets that were visited, and the ids of the roots among them.

Every dependency query is answered within the universe: an id without a record has no dependencies and is nobody's
dependency. Root targets become modules of their own, so what they depend on is already in the project; `withoutRoots`
leaves their closure out.
-/
import BuildImport.TargetRecord
import BuildImport.SortedMap
import BuildImport.SortedSet
import BuildImport.Search

namespace BuildImport

structure Universe where
  records : SortedMap String TargetRecord
  roots : SortedSet String
  deriving Inhabited

namespace Universe

/-- the records by their ids; of two with one id the later counts -/
def recordsOf (rs : List TargetRecord) : SortedMap String TargetRecord := .ofList (rs.map fun r => (r.id, r))

def ofLists (rs : List TargetRecord) (roots : List String) : Universe := ⟨recordsOf rs, .ofList roots⟩

def find? (u : Universe) (id : String) : Option TargetRecord := u.records.find? id

/-- the ids that have a record -/
def ids (u : Universe) : List String := u.records.keys

def isRoot (u : Universe) (id : String) : Bool := u.roots.contains id

/-- the ids that the record of `id` lists -/
def listed (u : Universe) (id : String) : List String := ((u.find? id).map (·.dependencies)).getD []

/-- the records of ids, as far as there are any -/
def recordsAt (u : Universe) (ids : List String) : List TargetRecord := ids.filterMap u.find?

/-- the dependencies of `id` in the order listed, each once -/
def direct (u : Universe) (id : String) : List TargetRecord := u.recordsAt (u.listed id).eraseDups

/-- the ids other than `id` that can be reached from it, in their order -/
def closure (u : Universe) (id : String) : SortedSet String :=
  .ofList ((Search.reached u.listed u.ids [id]).filter (· ≠ id))

/-- direct and transitive dependencies of `id`, in the order of their ids -/
def transitive (u : Universe) (id : String) : List TargetRecord := u.recordsAt (u.closure id).toList

/-- the dependencies of `id` that are no roots, and all of theirs, in the order of their ids -/
def withoutRoots (u : Universe) (id : String) : List TargetRecord :=
  let starts := (u.listed id).filter fun d => !u.isRoot d && u.records.contains d
  u.recordsAt (SortedSet.ofList (starts.flatMap fun d => d :: (u.closure d).toList)).toList

end Universe

end BuildImport
