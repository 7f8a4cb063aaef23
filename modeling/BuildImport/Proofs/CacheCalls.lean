/-
Calls on one cache, one after the other.

A cache is asked for the project, told to refresh, looked at, and given listeners, in any order. Behind it a backend
answers as it likes: every resolution, every load and every store may fail. `perform` is one call with all that comes of
it: the answer, the cache and the world afterwards, what the backend was asked and who was told. A refresh tells the
listeners there are at that moment; what they do in turn are further calls.

- `step_perform`: the ways that a call can go, with every place at which it can fail. All else follows from these.
- `perform_get`, `perform_refresh`: writing down what the backend is asked changes nothing.
- `orderly_perform`: what holds of one call; `orderly_of_run`: what holds of every call in every run, and where no load
  or store fails, the slot is what is stored.
-/
import Mathlib.Tactic
import BuildImport.ProjectCache
import BuildImport.Storage

namespace BuildImport

/-! ## Requests -/

/-- what a backend was asked, and its answer -/
inductive Request (α : Type) where
  | resolve (answer : Except Error α) (stopped : Bool)
  | load (answer : Except Error (Option α))
  | store (a : α) (answer : Except Error Unit)

namespace Request

variable {α : Type}

/-- a store that went wrong -/
def storeFailed : Request α → Bool
  | store _ (.error _) => true
  | _ => false

/-- a load or a store that went wrong -/
def storageFailed : Request α → Bool
  | load (.error _) => true
  | q => q.storeFailed

end Request

namespace Backend

variable {σ α : Type}

/-- the backend, writing down what it is asked -/
def recorded (b : Backend σ α) : Backend (σ × List (Request α)) α where
  resolve stop w :=
    let (r, world) := b.resolve stop w.1
    (r, world, w.2 ++ [.resolve r.1 r.2])
  load w :=
    let (r, world) := b.load w.1
    (r, world, w.2 ++ [.load r])
  store a w :=
    let (r, world) := b.store a w.1
    (r, world, w.2 ++ [.store a r])

variable {b : Backend σ α} {world world' : σ} (log : List (Request α))

theorem recorded_resolve {stop stopped : Bool} {r : Except Error α}
    (h : b.resolve stop world = ((r, stopped), world')) :
    b.recorded.resolve stop (world, log) = ((r, stopped), world', log ++ [.resolve r stopped]) := by
  simp [recorded, h]

theorem recorded_load {r : Except Error (Option α)} (h : b.load world = (r, world')) :
    b.recorded.load (world, log) = (r, world', log ++ [.load r]) := by
  simp [recorded, h]

theorem recorded_store {a : α} {done : Except Error Unit} (h : b.store a world = (done, world')) :
    b.recorded.store a (world, log) = (done, world', log ++ [.store a done]) := by
  simp [recorded, h]

/-- `content` is what is stored: loads give it, stores set it, and nobody else writes it -/
structure Stores (b : Backend σ α) (content : σ → Option α) : Prop where
  resolve_keeps : ∀ stop world, content (b.resolve stop world).2 = content world
  load_keeps : ∀ world, content (b.load world).2 = content world
  load_eq : ∀ world r, (b.load world).1 = .ok r → r = content world
  store_eq : ∀ a world, (b.store a world).1 = .ok () → content (b.store a world).2 = some a

namespace Stores

variable {content : σ → Option α}

theorem content_resolve (hb : b.Stores content) {stop : Bool} {r : Except Error α × Bool}
    (h : b.resolve stop world = (r, world')) : content world' = content world := by
  rw [← hb.resolve_keeps stop world, h]

theorem content_load (hb : b.Stores content) {r : Except Error (Option α)} (h : b.load world = (r, world')) :
    content world' = content world := by
  rw [← hb.load_keeps world, h]

theorem content_store (hb : b.Stores content) {a : α} (h : b.store a world = (.ok (), world')) :
    content world' = some a := by
  have hdone : (b.store a world).1 = .ok () := by rw [h]
  rw [← hb.store_eq a world hdone, h]

end Stores

end Backend

namespace ProjectCache

variable {σ ℓ α : Type}

/-! ## Calls -/

inductive Call (ℓ : Type) where
  | get (stop : Bool)
  | refresh (stop : Bool)
  | current
  | listen (l : ℓ)

/-- the listener that a call brings -/
def Call.listener? : Call ℓ → Option ℓ
  | listen l => some l
  | _ => none

/-- a call with all that comes of it; `current` answers with the slot, `listen` with nothing -/
structure Turn (σ ℓ α : Type) where
  answer : Except Error (Option α)
  cache : ProjectCache ℓ α
  world : σ
  requests : List (Request α)
  told : List (ℓ × α)

def perform (b : Backend σ α) (call : Call ℓ) (c : ProjectCache ℓ α) (world : σ) : Turn σ ℓ α :=
  match call with
  | .get stop =>
    let (r, c, world, requests) := c.get b.recorded stop (world, [])
    ⟨r.map some, c, world, requests, []⟩
  | .refresh stop =>
    let (r, c, world, requests) := c.refreshLocked b.recorded stop (world, [])
    ⟨r.answer.map some, c, world, requests, c.deliveries r⟩
  | .current => ⟨.ok c.current, c, world, [], []⟩
  | .listen l => ⟨.ok none, c.listen l, world, [], []⟩

/-- the cache and the world after a list of calls -/
def run (b : Backend σ α) (calls : List (Call ℓ)) (c : ProjectCache ℓ α) (world : σ) : ProjectCache ℓ α × σ :=
  calls.foldl (fun s call => ((perform b call s.1 s.2).cache, (perform b call s.1 s.2).world)) (c, world)

theorem run_snoc (b : Backend σ α) (calls : List (Call ℓ)) (call : Call ℓ) (c : ProjectCache ℓ α) (world : σ) :
    run b (calls ++ [call]) c world =
      let s := run b calls c world
      ((perform b call s.1 s.2).cache, (perform b call s.1 s.2).world) := by
  simp [run]

/-- whether no load and no store goes wrong in a list of calls -/
def untroubled (b : Backend σ α) : List (Call ℓ) → ProjectCache ℓ α → σ → Bool
  | [], _, _ => true
  | call :: calls, c, world =>
    let t := perform b call c world
    t.requests.all (!·.storageFailed) && untroubled b calls t.cache t.world

theorem untroubled_snoc {b : Backend σ α} {calls : List (Call ℓ)} {call : Call ℓ} {c : ProjectCache ℓ α} {world : σ} :
    untroubled b (calls ++ [call]) c world = true ↔
      untroubled b calls c world = true ∧
        ∀ q ∈ (perform b call (run b calls c world).1 (run b calls c world).2).requests, q.storageFailed = false := by
  induction calls generalizing c world with
  | nil => simp [untroubled, run]
  | cons first calls ih =>
    rw [List.cons_append, untroubled, untroubled, Bool.and_eq_true, Bool.and_eq_true, ih, and_assoc]
    rfl

/-! ## How a call can go -/

/-- The ways that a call can go. A `get` finds the slot filled, or loads, or resolves and stores; a refresh resolves,
looks whether it was stopped meanwhile, and stores. -/
inductive Step (b : Backend σ α) (c : ProjectCache ℓ α) (world : σ) : Call ℓ → Turn σ ℓ α → Prop
  | looked : Step b c world .current ⟨.ok c.slot, c, world, [], []⟩
  | listened (l : ℓ) : Step b c world (.listen l) ⟨.ok none, c.listen l, world, [], []⟩
  | found {stop : Bool} {a : α} : c.slot = some a → Step b c world (.get stop) ⟨.ok (some a), c, world, [], []⟩
  | loaded {stop : Bool} {a : α} {w₁ : σ} : c.slot = none → b.load world = (.ok (some a), w₁) →
      Step b c world (.get stop) ⟨.ok (some a), { c with slot := some a }, w₁, [.load (.ok (some a))], []⟩
  | unresolved {stop : Bool} {r : Except Error (Option α)} {e : Error} {stopped : Bool} {w₁ w₂ : σ} :
      c.slot = none → b.load world = (r, w₁) → (∀ a, r ≠ .ok (some a)) →
      b.resolve stop w₁ = ((.error e, stopped), w₂) →
      Step b c world (.get stop) ⟨.error e, c, w₂, [.load r, .resolve (.error e) stopped], []⟩
  | resolved {stop : Bool} {r : Except Error (Option α)} {a : α} {stopped : Bool} {done : Except Error Unit}
      {w₁ w₂ w₃ : σ} :
      c.slot = none → b.load world = (r, w₁) → (∀ a, r ≠ .ok (some a)) →
      b.resolve stop w₁ = ((.ok a, stopped), w₂) → b.store a w₂ = (done, w₃) →
      Step b c world (.get stop)
        ⟨(done.mapError .cacheStore).map fun _ => some a, { c with slot := some a }, w₃,
          [.load r, .resolve (.ok a) stopped, .store a done], []⟩
  | refreshFailed {stop : Bool} {e : Error} {stopped : Bool} {w₁ : σ} :
      b.resolve stop world = ((.error e, stopped), w₁) →
      Step b c world (.refresh stop) ⟨.error e, c, w₁, [.resolve (.error e) stopped], []⟩
  | refreshStopped {stop : Bool} {a : α} {w₁ : σ} : b.resolve stop world = ((.ok a, true), w₁) →
      Step b c world (.refresh stop) ⟨.error .cancelled, c, w₁, [.resolve (.ok a) true], []⟩
  | refreshed {stop : Bool} {a : α} {done : Except Error Unit} {w₁ w₂ : σ} :
      b.resolve stop world = ((.ok a, false), w₁) → b.store a w₁ = (done, w₂) →
      Step b c world (.refresh stop)
        ⟨(done.mapError .cacheStore).map fun _ => some a, { c with slot := some a }, w₂,
          [.resolve (.ok a) false, .store a done], c.listeners.map fun l => (l, a)⟩

/-- a stored project that cannot be had counts as none -/
theorem get_of_not_loaded {b : Backend σ α} {c : ProjectCache ℓ α} {stop : Bool} {world w₁ : σ}
    {r : Except Error (Option α)} (hslot : c.slot = none) (hload : b.load world = (r, w₁))
    (hnot : ∀ a, r ≠ .ok (some a)) : c.get b stop world = resolveAndStore b c stop w₁ := by
  unfold get
  rw [hslot]
  simp only [hload]

theorem step_get (b : Backend σ α) (c : ProjectCache ℓ α) (stop : Bool) (world : σ) :
    Step b c world (.get stop) (perform b (.get stop) c world) := by
  cases hslot : c.slot with
  | some a =>
    have hperform : perform b (.get stop) c world = ⟨.ok (some a), c, world, [], []⟩ := by
      simp [perform, get, hslot, Except.map]
    rw [hperform]
    exact .found hslot
  | none =>
    obtain ⟨r, w₁, hload⟩ : ∃ r w₁, b.load world = (r, w₁) := ⟨_, _, rfl⟩
    have hloaded := Backend.recorded_load [] hload
    by_cases hnot : ∀ a, r ≠ .ok (some a)
    · have hget : c.get b.recorded stop (world, []) = resolveAndStore b.recorded c stop (w₁, [] ++ [.load r]) :=
        get_of_not_loaded hslot hloaded hnot
      obtain ⟨outcome, stopped, w₂, hresolve⟩ : ∃ outcome stopped w₂, b.resolve stop w₁ = ((outcome, stopped), w₂) :=
        ⟨_, _, _, rfl⟩
      have hresolved := Backend.recorded_resolve ([] ++ [.load r]) hresolve
      cases outcome with
      | error e =>
        have hperform : perform b (.get stop) c world =
            ⟨.error e, c, w₂, [.load r, .resolve (.error e) stopped], []⟩ := by
          simp only [perform, hget, resolveAndStore, hresolved]
          rfl
        rw [hperform]
        exact .unresolved hslot hload hnot hresolve
      | ok a =>
        obtain ⟨done, w₃, hstore⟩ : ∃ done w₃, b.store a w₂ = (done, w₃) := ⟨_, _, rfl⟩
        have hstored := Backend.recorded_store ([] ++ [.load r] ++ [.resolve (.ok a) stopped]) hstore
        have hperform : perform b (.get stop) c world =
            ⟨(done.mapError .cacheStore).map fun _ => some a, { c with slot := some a }, w₃,
              [.load r, .resolve (.ok a) stopped, .store a done], []⟩ := by
          simp only [perform, hget, resolveAndStore, store, hresolved, hstored]
          cases done <;> rfl
        rw [hperform]
        exact .resolved hslot hload hnot hresolve hstore
    · simp only [not_forall, not_not] at hnot
      obtain ⟨a, rfl⟩ := hnot
      have hperform : perform b (.get stop) c world =
          ⟨.ok (some a), { c with slot := some a }, w₁, [.load (.ok (some a))], []⟩ := by
        simp only [perform, get, hslot, hloaded]
        rfl
      rw [hperform]
      exact .loaded hslot hload

theorem step_refresh (b : Backend σ α) (c : ProjectCache ℓ α) (stop : Bool) (world : σ) :
    Step b c world (.refresh stop) (perform b (.refresh stop) c world) := by
  obtain ⟨outcome, stopped, w₁, hresolve⟩ : ∃ outcome stopped w₁, b.resolve stop world = ((outcome, stopped), w₁) :=
    ⟨_, _, _, rfl⟩
  have hresolved := Backend.recorded_resolve [] hresolve
  cases outcome with
  | error e =>
    have hperform : perform b (.refresh stop) c world = ⟨.error e, c, w₁, [.resolve (.error e) stopped], []⟩ := by
      simp only [perform, refreshLocked, hresolved]
      rfl
    rw [hperform]
    exact .refreshFailed hresolve
  | ok a =>
    cases stopped with
    | true =>
      have hperform : perform b (.refresh stop) c world = ⟨.error .cancelled, c, w₁, [.resolve (.ok a) true], []⟩ := by
        simp only [perform, refreshLocked, hresolved]
        rfl
      rw [hperform]
      exact .refreshStopped hresolve
    | false =>
      obtain ⟨done, w₂, hstore⟩ : ∃ done w₂, b.store a w₁ = (done, w₂) := ⟨_, _, rfl⟩
      have hstored := Backend.recorded_store ([] ++ [.resolve (.ok a) false]) hstore
      have hperform : perform b (.refresh stop) c world =
          ⟨(done.mapError .cacheStore).map fun _ => some a, { c with slot := some a }, w₂,
            [.resolve (.ok a) false, .store a done], c.listeners.map fun l => (l, a)⟩ := by
        simp only [perform, refreshLocked, store, hresolved, hstored]
        cases done <;> rfl
      rw [hperform]
      exact .refreshed hresolve hstore

/-- **How a call can go.** -/
theorem step_perform (b : Backend σ α) (call : Call ℓ) (c : ProjectCache ℓ α) (world : σ) :
    Step b c world call (perform b call c world) := by
  cases call with
  | get stop => exact step_get b c stop world
  | refresh stop => exact step_refresh b c stop world
  | current => exact .looked
  | listen l => exact .listened l

/-- writing down what the backend is asked changes nothing in a `get` -/
theorem perform_get (b : Backend σ α) (c : ProjectCache ℓ α) (stop : Bool) (world : σ) :
    ((perform b (.get stop) c world).answer, (perform b (.get stop) c world).cache,
      (perform b (.get stop) c world).world) = ((c.get b stop world).1.map some, (c.get b stop world).2) := by
  have hstep := step_get b c stop world
  generalize perform b (.get stop) c world = t at hstep
  cases hstep with
  | found hslot => simp [get, hslot, Except.map]
  | loaded hslot hload => simp [get, hslot, hload, Except.map]
  | unresolved hslot hload hnot hresolve =>
    rw [get_of_not_loaded hslot hload hnot]
    simp [resolveAndStore, hresolve, Except.map]
  | @resolved _ _ _ _ done _ _ _ hslot hload hnot hresolve hstore =>
    rw [get_of_not_loaded hslot hload hnot]
    cases done <;> simp [resolveAndStore, store, hresolve, hstore, Except.map, Except.mapError]

/-- nor in a refresh -/
theorem perform_refresh (b : Backend σ α) (c : ProjectCache ℓ α) (stop : Bool) (world : σ) :
    ((perform b (.refresh stop) c world).answer, (perform b (.refresh stop) c world).cache,
      (perform b (.refresh stop) c world).world) =
      ((c.refreshLocked b stop world).1.answer.map some, (c.refreshLocked b stop world).2) := by
  have hstep := step_refresh b c stop world
  generalize perform b (.refresh stop) c world = t at hstep
  cases hstep with
  | refreshFailed hresolve => simp [refreshLocked, hresolve, Refreshed.answer, Except.map]
  | refreshStopped hresolve => simp [refreshLocked, hresolve, Refreshed.answer, Except.map]
  | @refreshed _ _ done _ _ hresolve hstore =>
    cases done <;> simp [refreshLocked, store, hresolve, hstore, Refreshed.answer, Except.map, Except.mapError]

/-! ## What every call keeps -/

/-- the call has `a` for the slot: a `get` that loads or resolves it, or a refresh that resolves it and is not stopped -/
inductive Brings (requests : List (Request α)) : Call ℓ → α → Prop
  | loaded {stop : Bool} {a : α} : .load (.ok (some a)) ∈ requests → Brings requests (.get stop) a
  | resolved {stop stopped : Bool} {a : α} : .resolve (.ok a) stopped ∈ requests → Brings requests (.get stop) a
  | refreshed {stop : Bool} {a : α} : .resolve (.ok a) false ∈ requests → Brings requests (.refresh stop) a

section

variable {requests : List (Request α)} {stop : Bool} {a : α}

@[simp]
theorem brings_get : Brings requests (.get stop : Call ℓ) a ↔
    .load (.ok (some a)) ∈ requests ∨ ∃ stopped, .resolve (.ok a) stopped ∈ requests := by
  constructor
  · rintro (h | h)
    · exact .inl h
    · exact .inr ⟨_, h⟩
  · rintro (h | ⟨_, h⟩)
    · exact .loaded h
    · exact .resolved h

@[simp]
theorem brings_refresh : Brings requests (.refresh stop : Call ℓ) a ↔ .resolve (.ok a) false ∈ requests :=
  ⟨fun (.refreshed h) => h, .refreshed⟩

@[simp]
theorem not_brings_current : ¬ Brings requests (.current : Call ℓ) a := nofun

@[simp]
theorem not_brings_listen {l : ℓ} : ¬ Brings requests (.listen l) a := nofun

end

/-- What one call does to a cache; `listeners` are those that were registered before. -/
structure Orderly (listeners : List ℓ) (call : Call ℓ) (c : ProjectCache ℓ α) (world : σ) (t : Turn σ ℓ α) : Prop where
  /-- a filled slot is not emptied -/
  filled : c.slot.isSome → t.cache.slot.isSome
  /-- the slot changes only to a project that the call brings -/
  changed : t.cache.slot ≠ c.slot → ∃ a, Brings t.requests call a ∧ t.cache.slot = some a
  /-- and it does so whatever becomes of storing the project -/
  brought : ∀ a, Brings t.requests call a → t.cache.slot = some a
  /-- a `get` brings one only where it found the slot empty -/
  found_empty : ∀ stop a, call = .get stop → Brings t.requests call a → c.slot = none
  /-- a call that fails, and not for its store, leaves the cache and stores nothing -/
  failed : ∀ e, t.answer = .error e → (∀ q ∈ t.requests, q.storeFailed = false) →
    t.cache = c ∧ ∀ a done, .store a done ∉ t.requests
  /-- a `get` that finds the slot filled returns it and asks nobody -/
  hit : ∀ stop a, call = .get stop → c.slot = some a → t = ⟨.ok (some a), c, world, [], []⟩
  /-- a refresh that brings a project tells each listener of it, once -/
  told : ∀ stop a, call = .refresh stop → Brings t.requests call a → t.told = listeners.map fun l => (l, a)
  /-- no other call tells anyone -/
  silent : t.told ≠ [] → ∃ stop a, call = .refresh stop ∧ Brings t.requests call a

/-- after a resolution only the store can spoil the answer -/
theorem not_stored_of_answer {requests : List (Request α)} {a : α} {done : Except Error Unit} {e : Error}
    (he : ((done.mapError Error.cacheStore).map fun _ => some a) = .error e) (hmem : .store a done ∈ requests) :
    ¬∀ q ∈ requests, q.storeFailed = false := by
  intro hstored
  have hok := hstored _ hmem
  cases done with
  | error _ => cases hok
  | ok _ => cases he

/-- **What holds of one call.** -/
theorem orderly_perform (b : Backend σ α) (call : Call ℓ) (c : ProjectCache ℓ α) (world : σ) :
    Orderly c.listeners call c world (perform b call c world) := by
  have hstep := step_perform b call c world
  generalize perform b call c world = t at hstep
  cases hstep with
  | looked => constructor <;> simp
  | listened l => constructor <;> simp [listen]
  | found hslot => constructor <;> simp [hslot]
  | loaded hslot hload => constructor <;> simp [hslot]
  | unresolved hslot hload hnot hresolve =>
    constructor
    case brought =>
      intro a ha
      rcases brings_get.1 ha with hmem | ⟨_, hmem⟩
      · simp only [List.mem_cons, Request.load.injEq, reduceCtorEq, List.not_mem_nil, or_false] at hmem
        exact absurd hmem.symm (hnot a)
      · simp at hmem
    all_goals simp [hslot]
  | resolved hslot hload hnot hresolve hstore =>
    constructor
    case brought =>
      intro a ha
      rcases brings_get.1 ha with hmem | ⟨_, hmem⟩
      · simp only [List.mem_cons, Request.load.injEq, reduceCtorEq, List.not_mem_nil, or_false] at hmem
        exact absurd hmem.symm (hnot a)
      · simp_all
    case failed =>
      intro e he hstored
      exact absurd hstored (not_stored_of_answer he (by simp))
    all_goals simp [hslot]
  | refreshFailed hresolve => constructor <;> simp
  | refreshStopped hresolve => constructor <;> simp
  | refreshed hresolve hstore =>
    constructor
    case failed =>
      intro e he hstored
      exact absurd hstored (not_stored_of_answer he (by simp))
    all_goals simp

/-! ## Runs -/

/-- the listeners after a call are those before, and the one that it brings -/
theorem listeners_perform (b : Backend σ α) (call : Call ℓ) (c : ProjectCache ℓ α) (world : σ) :
    (perform b call c world).cache.listeners = c.listeners ++ call.listener?.toList := by
  have hstep := step_perform b call c world
  generalize perform b call c world = t at hstep
  cases hstep <;> simp [Call.listener?, listen]

/-- after a run the listeners are those that were registered in it, in this order -/
theorem listeners_run (b : Backend σ α) (calls : List (Call ℓ)) (world : σ) :
    (run b calls {} world).1.listeners = calls.filterMap Call.listener? := by
  induction calls using List.reverseRecOn with
  | nil => rfl
  | append_singleton calls call ih =>
    rw [run_snoc, List.filterMap_append]
    simp only [listeners_perform, ih]
    cases call <;> rfl

section

variable {b : Backend σ α} {content : σ → Option α}

/-- a call that fails, and not for its store, leaves what is stored -/
theorem content_perform_of_failed (hb : b.Stores content) {call : Call ℓ} {c : ProjectCache ℓ α} {world : σ} {e : Error}
    (he : (perform b call c world).answer = .error e)
    (hstored : ∀ q ∈ (perform b call c world).requests, q.storeFailed = false) :
    content (perform b call c world).world = content world := by
  have hstep := step_perform b call c world
  generalize perform b call c world = t at hstep he hstored
  cases hstep with
  | looked | listened | found _ | loaded _ _ => simp at he
  | unresolved _ hload _ hresolve => exact (hb.content_resolve hresolve).trans (hb.content_load hload)
  | refreshFailed hresolve | refreshStopped hresolve => exact hb.content_resolve hresolve
  | resolved | refreshed => exact absurd hstored (not_stored_of_answer he (by simp))

/-- the slot is empty, or holds what is stored -/
def Agrees (content : σ → Option α) (c : ProjectCache ℓ α) (world : σ) : Prop :=
  ∀ a, c.slot = some a → content world = some a

/-- a call whose loads and stores go well keeps slot and store together -/
theorem agrees_perform (hb : b.Stores content) {call : Call ℓ} {c : ProjectCache ℓ α} {world : σ}
    (h : Agrees content c world) (hstorage : ∀ q ∈ (perform b call c world).requests, q.storageFailed = false) :
    Agrees content (perform b call c world).cache (perform b call c world).world := by
  have hstores : ∀ {a done w w'}, b.store a w = (done, w') → (Request.store a done).storageFailed = false →
      content w' = some a := by
    intro a done w w' hstore hok
    cases done with
    | error e => cases hok
    | ok _ => exact hb.content_store hstore
  have hstep := step_perform b call c world
  generalize perform b call c world = t at hstep hstorage
  cases hstep with
  | looked | listened | found _ => exact h
  | @loaded _ a w₁ hslot hload =>
    have hcontent : content world = some a := by
      have hok : (b.load world).1 = .ok (some a) := by rw [hload]
      exact (hb.load_eq world _ hok).symm
    intro a' ha'
    rw [hb.content_load hload, hcontent]
    exact ha'
  | unresolved hslot _ _ _ =>
    intro a ha
    simp [hslot] at ha
  | resolved _ _ _ _ hstore =>
    intro a ha
    rw [← ha]
    exact hstores hstore (hstorage _ (List.mem_cons_of_mem _ (List.mem_cons_of_mem _ List.mem_cons_self)))
  | refreshFailed hresolve | refreshStopped hresolve =>
    intro a ha
    rw [hb.content_resolve hresolve]
    exact h a ha
  | refreshed _ hstore =>
    intro a ha
    rw [← ha]
    exact hstores hstore (hstorage _ (List.mem_cons_of_mem _ List.mem_cons_self))

theorem agrees_run (hb : b.Stores content) {calls : List (Call ℓ)} {world : σ}
    (h : untroubled b calls {} world = true) :
    Agrees content (run b calls {} world).1 (run b calls {} world).2 := by
  induction calls using List.reverseRecOn with
  | nil =>
    intro a ha
    cases ha
  | append_singleton calls call ih =>
    obtain ⟨hcalls, hcall⟩ := untroubled_snoc.1 h
    rw [run_snoc]
    exact agrees_perform hb (ih hcalls) hcall

end

/-- **Every call in every run is orderly**, whatever fails in it. A call that fails, and not for its store, leaves what is
stored; and where no load and no store goes wrong in the run, a filled slot holds what is stored. -/
theorem orderly_of_run (b : Backend σ α) (before : List (Call ℓ)) (call : Call ℓ) (world : σ) :
    let c := (run b before {} world).1
    let w := (run b before {} world).2
    let t := perform b call c w
    Orderly (before.filterMap Call.listener?) call c w t ∧
      ∀ content, b.Stores content →
        (∀ e, t.answer = .error e → (∀ q ∈ t.requests, q.storeFailed = false) → content t.world = content w) ∧
        (untroubled b (before ++ [call]) {} world = true → ∀ a, t.cache.slot = some a → content t.world = some a) := by
  intro c w t
  have horderly : Orderly (before.filterMap Call.listener?) call c w t := by
    rw [← listeners_run b before world]
    exact orderly_perform b call c w
  refine ⟨horderly, fun content hb => ⟨fun e he hstored => content_perform_of_failed hb he hstored, fun hcalls => ?_⟩⟩
  have hagrees := agrees_run hb hcalls
  rw [run_snoc] at hagrees
  exact hagrees

/-- resolves a new project each time and keeps it in memory; counts the projects -/
def counting : Backend (Nat × MemoryStorage) Project where
  resolve stop w :=
    if stop then ((.error .cancelled, true), w) else ((.ok (.ofModules ⟨toString w.1⟩ []), false), w.1 + 1, w.2)
  load w := (.ok w.2.load, w)
  store p w := (.ok (), w.1, w.2.store p)

theorem counting_stores : counting.Stores fun w => w.2.held where
  resolve_keeps stop w := by cases stop <;> rfl
  load_keeps _ := rfl
  load_eq _ _ h := (Except.ok.inj h).symm
  store_eq _ _ _ := rfl

/-- a second refresh, after one that was stopped, tells the two listeners of the second project, which is stored -/
theorem counting_orderly :
    let before : List (Call String) := [.listen "tree", .get false, .listen "index", .refresh true]
    let c := (run counting before {} (0, {})).1
    let w := (run counting before {} (0, {})).2
    let t := perform counting (.refresh false) c w
    Orderly ["tree", "index"] (.refresh false) c w t ∧
      (∀ e, t.answer = .error e → (∀ q ∈ t.requests, q.storeFailed = false) → t.world.2.held = w.2.held) ∧
      (∀ a, t.cache.slot = some a → t.world.2.held = some a) ∧
      c.slot = some (.ofModules ⟨"0"⟩ []) ∧ t.cache.slot = some (.ofModules ⟨"1"⟩ []) := by
  intro before c w t
  obtain ⟨horderly, hstored⟩ := orderly_of_run counting before (.refresh false) (0, {})
  obtain ⟨hfailed, hagrees⟩ := hstored _ counting_stores
  exact ⟨horderly, hfailed, hagrees (by decide), by decide, by decide⟩

end ProjectCache

end BuildImport
