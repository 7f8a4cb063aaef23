/-
The current project of a session: a slot, the listeners who are told of a new project, and a store behind it.

`get` answers from the slot, else from the store, else it resolves. A refresh always resolves. It takes two steps: in the
first, under the lock, it resolves, fills the slot and stores; in the second the listeners of that moment are told. What
is resolved, loaded and stored is left open: a `Backend` works on a world of any kind, so that a failure can be had at
every point.

The slot never loses a project again, and a store that fails does not empty it.
-/
import BuildImport.Error

namespace BuildImport

/-- where projects come from and go to. `resolve` is given whether the import is to stop, and says whether it is to stop
afterwards. -/
structure Backend (σ α : Type) where
  resolve : Bool → σ → (Except Error α × Bool) × σ
  load : σ → Except Error (Option α) × σ
  store : α → σ → Except Error Unit × σ

/-- the slot and the listeners -/
structure ProjectCache (ℓ α : Type) where
  slot : Option α := none
  listeners : List ℓ := []
  deriving Inhabited

namespace ProjectCache

variable {σ ℓ α : Type}

/-- the project at hand -/
def current (c : ProjectCache ℓ α) : Option α := c.slot

/-- one more listener, told after all others -/
def listen (c : ProjectCache ℓ α) (l : ℓ) : ProjectCache ℓ α := { c with listeners := c.listeners ++ [l] }

/-- stores a project and words a failure -/
def store (b : Backend σ α) (a : α) (world : σ) : Except Error Unit × σ :=
  let (done, world) := b.store a world
  (done.mapError .cacheStore, world)

/-- resolves, fills the slot and stores -/
def resolveAndStore (b : Backend σ α) (c : ProjectCache ℓ α) (stop : Bool) (world : σ) :
    Except Error α × ProjectCache ℓ α × σ :=
  match b.resolve stop world with
  | ((.error e, _), world) => (.error e, c, world)
  | ((.ok a, _), world) =>
    let (done, world) := store b a world
    (done.map fun _ => a, { c with slot := some a }, world)

/-- the project at hand, else the stored one, else a new one; what cannot be loaded counts as not stored -/
def get (b : Backend σ α) (c : ProjectCache ℓ α) (stop : Bool) (world : σ) :
    Except Error α × ProjectCache ℓ α × σ :=
  match c.slot with
  | some a => (.ok a, c, world)
  | none =>
    match b.load world with
    | (.ok (some a), world) => (.ok a, { c with slot := some a }, world)
    | (_, world) => resolveAndStore b c stop world

/-- what the first step of a refresh leaves: nothing to tell, or a project to tell of and how storing it went -/
inductive Refreshed (α : Type) where
  | failed (e : Error)
  | filled (a : α) (stored : Except Error Unit)

namespace Refreshed

/-- the answer to the caller -/
def answer : Refreshed α → Except Error α
  | failed e => .error e
  | filled a stored => stored.map fun _ => a

end Refreshed

/-- the step of a refresh under the lock: resolves, fills the slot unless the import was stopped meanwhile, and stores -/
def refreshLocked (b : Backend σ α) (c : ProjectCache ℓ α) (stop : Bool) (world : σ) :
    Refreshed α × ProjectCache ℓ α × σ :=
  match b.resolve stop world with
  | ((.error e, _), world) => (.failed e, c, world)
  | ((.ok _, true), world) => (.failed .cancelled, c, world)
  | ((.ok a, false), world) =>
    let (stored, world) := store b a world
    (.filled a stored, { c with slot := some a }, world)

/-- the second step of a refresh: who is told of what -/
def deliveries (c : ProjectCache ℓ α) : Refreshed α → List (ℓ × α)
  | .failed _ => []
  | .filled a _ => c.listeners.map fun l => (l, a)

end ProjectCache

end BuildImport
