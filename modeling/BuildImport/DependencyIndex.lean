/-
The dependency index: a universe together with the closures that were asked for.

The closures of targets that depend on each other overlap, and an import asks for many of them. So the index searches
for the closure of an id when it is first needed, and keeps it in a table. All dependencies of an id are its closure;
those that are not represented by roots are put together from the closures of its direct dependencies. Both kinds of
questions fill the table and are answered from it.

A search sets out from the direct dependencies of an id. It never enters the id itself, nor an id without a record, and
no id twice.
-/
import BuildImport.Universe

namespace BuildImport

namespace Universe

/-- the ids that a search for the closure of `id` finds, in their order -/
def search (u : Universe) (id : String) : SortedSet String :=
  .ofList (Search.reached u.listed (u.ids.filter (· ≠ id)) (u.listed id))

end Universe

structure DependencyIndex where
  targets : Universe
  /-- the closures that were searched for, by their ids -/
  closures : SortedMap String (SortedSet String) := ∅
  deriving Inhabited

namespace DependencyIndex

/-- what may be asked about the dependencies of an id -/
inductive Query where
  | direct (id : String)
  | transitive (id : String)
  | withoutRoots (id : String)
  deriving DecidableEq, Repr, Inhabited

/-- an index that was not asked yet -/
def ofUniverse (u : Universe) : DependencyIndex := { targets := u }

/-- the closure of an id, from the table if it is there -/
def closure (i : DependencyIndex) (id : String) : SortedSet String × DependencyIndex :=
  match i.closures.find? id with
  | some found => (found, i)
  | none =>
    let found := i.targets.search id
    (found, { i with closures := i.closures.insert id found })

/-- adds to `ids` the dependencies that have a record and are no roots, each with its closure -/
def gather (i : DependencyIndex) (ids : SortedSet String) : List String → SortedSet String × DependencyIndex
  | [] => (ids, i)
  | d :: rest =>
    if !i.targets.isRoot d && i.targets.records.contains d then
      let (found, i) := i.closure d
      gather i (found.toList.foldl .insert (ids.insert d)) rest
    else gather i ids rest

/-- the answer, and the index after it -/
def ask (i : DependencyIndex) : Query → List TargetRecord × DependencyIndex
  | .direct id => (i.targets.direct id, i)
  | .transitive id =>
    let (found, i) := i.closure id
    (i.targets.recordsAt found.toList, i)
  | .withoutRoots id =>
    let (ids, i) := i.gather ∅ (i.targets.listed id)
    (i.targets.recordsAt ids.toList, i)

/-- the index after several questions -/
def after (i : DependencyIndex) (asked : List Query) : DependencyIndex := asked.foldl (fun i q => (i.ask q).2) i

end DependencyIndex

end BuildImport
