/-
Refreshes that overlap.

A refresh takes two steps. In the first, under the lock, it fills the slot; in the second it tells the listeners of that
moment. Nothing holds the two together: between them other refreshes may take either step, and listeners may come. A
`Course` is what has happened so far on one cache, in whatever order the steps were taken; a refresh is known by its place
among those that filled the slot.

- `Course.Coherent`: what every step keeps. The slot holds what the last refresh to fill it brought, and whoever was told
  anything is still a listener, and was told last by the last refresh to tell.
- `lastTold_eq_slot_iff`: so a listener ends with the project in the slot just if the last refresh to tell brought that
  project; and all do if the refreshes tell in the order in which they filled the slot.

Witness `crossed_deliveries`: two refreshes that tell in the other order. The listener is left with the first project, and
the slot holds the second.
-/
import Mathlib.Tactic
import BuildImport.Proofs.CacheCalls

namespace BuildImport.ProjectCache

variable {σ ℓ α : Type}

/-! ## Steps of refreshes -/

/-- one of the two steps of a refresh, or a call that falls between them -/
inductive Event (ℓ : Type) where
  /-- a refresh takes its first step -/
  | fill (stop : Bool)
  /-- the refresh that filled the slot as number `n` takes its second step -/
  | tell (n : Nat)
  | get (stop : Bool)
  | listen (l : ℓ)

/-- what has happened on a cache -/
structure Course (σ ℓ α : Type) where
  cache : ProjectCache ℓ α
  world : σ
  /-- the projects that refreshes filled the slot with, and how storing them went -/
  filled : List (α × Except Error Unit) := []
  /-- the numbers of the refreshes that took their second step, in this order -/
  finished : List Nat := []
  /-- who was told of what -/
  told : List (ℓ × α) := []

namespace Course

variable {b : Backend σ α} {s : Course σ ℓ α}

/-- a refresh that does not fill the slot is over; one that does has its second step before it -/
def fill (b : Backend σ α) (s : Course σ ℓ α) (stop : Bool) : Course σ ℓ α :=
  match s.cache.refreshLocked b stop s.world with
  | (.failed _, cache, world) => { s with cache, world }
  | (.filled a stored, cache, world) => { s with cache, world, filled := s.filled ++ [(a, stored)] }

/-- a refresh tells the listeners once -/
def tell (s : Course σ ℓ α) (n : Nat) : Course σ ℓ α :=
  match s.filled[n]? with
  | some (a, stored) =>
    if n ∈ s.finished then s
    else { s with finished := s.finished ++ [n], told := s.told ++ s.cache.deliveries (.filled a stored) }
  | none => s

def get (b : Backend σ α) (s : Course σ ℓ α) (stop : Bool) : Course σ ℓ α :=
  { s with cache := (s.cache.get b stop s.world).2.1, world := (s.cache.get b stop s.world).2.2 }

def step (b : Backend σ α) (s : Course σ ℓ α) : Event ℓ → Course σ ℓ α
  | .fill stop => s.fill b stop
  | .tell n => s.tell n
  | .get stop => s.get b stop
  | .listen l => { s with cache := s.cache.listen l }

/-- the events one after the other, from a new cache on -/
def run (b : Backend σ α) (world : σ) (events : List (Event ℓ)) : Course σ ℓ α :=
  events.foldl (step b) { cache := {}, world }

theorem run_snoc (world : σ) (events : List (Event ℓ)) (e : Event ℓ) :
    run b world (events ++ [e]) = (run b world events).step b e := by
  simp [run]

/-- every refresh that filled the slot took its second step too -/
def AllFinished (s : Course σ ℓ α) : Prop := ∀ n < s.filled.length, n ∈ s.finished

/-- the refreshes took their second steps in the order of their first ones -/
def InOrder (s : Course σ ℓ α) : Prop := s.finished.Pairwise (· < ·)

instance : Decidable s.AllFinished := inferInstanceAs (Decidable (∀ n < s.filled.length, n ∈ s.finished))

instance : Decidable s.InOrder := inferInstanceAs (Decidable (s.finished.Pairwise (· < ·)))

/-- the project of the last refresh that filled the slot -/
def lastFilled? (s : Course σ ℓ α) : Option α := s.filled.getLast?.map (·.1)

/-- the project of the last refresh that told the listeners -/
def lastFinished? (s : Course σ ℓ α) : Option α := (s.finished.getLast?.bind (s.filled[·]?)).map (·.1)

/-- what a listener was told last -/
def lastTold? [BEq ℓ] (s : Course σ ℓ α) (l : ℓ) : Option α := s.told.reverse.lookup l

/-! ## What every step keeps -/

/-- The slot holds what it was filled with last, and whoever was told was told last by the last refresh to tell. -/
structure Coherent [BEq ℓ] (s : Course σ ℓ α) : Prop where
  slot : ∀ a, s.lastFilled? = some a → s.cache.slot = some a
  registered : ∀ e ∈ s.told, e.1 ∈ s.cache.listeners
  numbered : ∀ n ∈ s.finished, n < s.filled.length
  last : ∀ l a, s.lastTold? l = some a → s.lastFinished? = some a

/-- what a refresh that takes its first step changes -/
theorem fill_cases (s : Course σ ℓ α) (stop : Bool) :
    (∃ world, s.fill b stop = { s with world }) ∨
      ∃ a stored world, s.fill b stop =
        { s with cache := { s.cache with slot := some a }, world, filled := s.filled ++ [(a, stored)] } := by
  unfold fill refreshLocked
  obtain ⟨outcome, stopped, world, hresolve⟩ :
      ∃ outcome stopped world, b.resolve stop s.world = ((outcome, stopped), world) := ⟨_, _, _, rfl⟩
  simp only [hresolve]
  cases outcome with
  | error e => exact .inl ⟨world, rfl⟩
  | ok a =>
    cases stopped with
    | true => exact .inl ⟨world, rfl⟩
    | false => exact .inr ⟨a, (store b a world).1, (store b a world).2, rfl⟩

/-- a `get` keeps the listeners, and the project in a slot that is filled -/
theorem get_keeps (s : Course σ ℓ α) (stop : Bool) :
    (s.get b stop).cache.listeners = s.cache.listeners ∧
      ∀ a, s.cache.slot = some a → (s.get b stop).cache.slot = some a := by
  have hperform := perform_get b s.cache stop s.world
  have hcache : (s.get b stop).cache = (perform b (.get stop) s.cache s.world).cache :=
    (congrArg (fun r => r.2.1) hperform).symm
  rw [hcache, listeners_perform]
  refine ⟨by simp [Call.listener?], fun a ha => ?_⟩
  rw [(orderly_perform b (.get stop) s.cache s.world).hit stop a rfl ha]
  exact ha

section

variable [BEq ℓ]

theorem Coherent.fill (h : s.Coherent) (stop : Bool) : (s.fill b stop).Coherent := by
  obtain ⟨world, heq⟩ | ⟨a, stored, world, heq⟩ := fill_cases (b := b) s stop
  · rw [heq]
    exact ⟨h.slot, h.registered, h.numbered, h.last⟩
  · rw [heq]
    refine ⟨?_, h.registered, ?_, ?_⟩
    · intro a' ha'
      simpa [lastFilled?] using ha'
    · intro n hn
      rw [List.length_append]
      exact Nat.lt_add_right _ (h.numbered n hn)
    · intro l a' hlast
      obtain ⟨r, hr, rfl⟩ := Option.map_eq_some_iff.1 (h.last l a' hlast)
      obtain ⟨n, hn, hfilled⟩ := Option.bind_eq_some_iff.1 hr
      simp only [lastFinished?, hn, Option.bind_some]
      rw [List.getElem?_append_left (h.numbered n (List.mem_of_getLast? hn)), hfilled]
      rfl

variable [LawfulBEq ℓ]

/-- those who are told now are told last of this -/
theorem lookup_told (told : List (ℓ × α)) (listeners : List ℓ) (a : α) (l : ℓ) :
    (told ++ listeners.map fun l => (l, a)).reverse.lookup l =
      if l ∈ listeners then some a else told.reverse.lookup l := by
  have hnow : (listeners.map fun l => (l, a)).reverse.lookup l = if l ∈ listeners then some a else none := by
    have hmem : l ∈ listeners.reverse ↔ l ∈ listeners := List.mem_reverse
    rw [← List.map_reverse, ← if_congr hmem rfl rfl]
    clear hmem
    induction listeners.reverse with
    | nil => rfl
    | cons k ks ih =>
      rw [List.map_cons, List.lookup_cons, ih]
      by_cases h : l = k
      · simp [h]
      · simp [beq_false_of_ne h, h]
  rw [List.reverse_append, List.lookup_append, hnow]
  split_ifs <;> rfl

/-- only those who were told have been told something last -/
theorem mem_of_lastTold? {l : ℓ} {a : α} (h : s.lastTold? l = some a) : (l, a) ∈ s.told := by
  obtain ⟨later, earlier, htold, -⟩ := List.lookup_eq_some_iff.1 h
  rw [← List.mem_reverse, htold]
  exact List.mem_append_right _ List.mem_cons_self

theorem Coherent.tell (h : s.Coherent) (n : Nat) : (s.tell n).Coherent := by
  unfold Course.tell
  cases hfilled : s.filled[n]? with
  | none => exact h
  | some r =>
    obtain ⟨a, stored⟩ := r
    simp only
    split_ifs with hn
    · exact h
    · refine ⟨h.slot, ?_, ?_, ?_⟩
      · intro e he
        rcases List.mem_append.1 he with he | he
        · exact h.registered e he
        · obtain ⟨l, hl, rfl⟩ := List.mem_map.1 he
          exact hl
      · intro k hk
        rcases List.mem_append.1 hk with hk | hk
        · exact h.numbered k hk
        · rw [List.mem_singleton.1 hk]
          exact (List.getElem?_eq_some_iff.1 hfilled).1
      · intro l a' hlast
        have hfinished : (s.finished ++ [n]).getLast? = some n := List.getLast?_concat
        simp only [lastFinished?, hfinished, Option.bind_some, hfilled, Option.map_some]
        have htold : (s.told ++ s.cache.listeners.map fun l => (l, a)).reverse.lookup l = some a' := hlast
        rw [lookup_told] at htold
        split_ifs at htold with hl
        · exact htold
        -- who was told before is still a listener
        · exact absurd (h.registered _ (mem_of_lastTold? htold)) hl

theorem Coherent.step (h : s.Coherent) (e : Event ℓ) : (s.step b e).Coherent := by
  cases e with
  | fill stop => exact h.fill stop
  | tell n => exact h.tell n
  | get stop =>
    obtain ⟨hlisteners, hslot⟩ := get_keeps (b := b) s stop
    refine ⟨fun a ha => hslot a (h.slot a ha), fun e he => ?_, h.numbered, h.last⟩
    change e.1 ∈ (s.get b stop).cache.listeners
    rw [hlisteners]
    exact h.registered e he
  | listen l => exact ⟨h.slot, fun e he => List.mem_append_left _ (h.registered e he), h.numbered, h.last⟩

/-- **Every course is coherent**, in whatever order the steps are taken. -/
theorem coherent_run (b : Backend σ α) (world : σ) (events : List (Event ℓ)) : (run b world events).Coherent := by
  induction events using List.reverseRecOn with
  | nil => exact ⟨nofun, nofun, nofun, nofun⟩
  | append_singleton events e ih =>
    rw [run_snoc]
    exact ih.step e

/-! ## Where listeners end -/

omit [LawfulBEq ℓ] in
/-- refreshes that tell in order, all of them, end with the one that filled the slot last -/
theorem getLast?_finished (h : s.Coherent) (hall : s.AllFinished) (horder : s.InOrder) (hne : s.filled ≠ []) :
    s.finished.getLast? = some (s.filled.length - 1) := by
  have hpos : 0 < s.filled.length := List.length_pos_iff.2 hne
  have hmem : s.filled.length - 1 ∈ s.finished := hall _ (by omega)
  have hfinished : s.finished ≠ [] := List.ne_nil_of_mem hmem
  have hlast : s.finished.getLast hfinished < s.filled.length := h.numbered _ (List.getLast_mem hfinished)
  have hle : s.filled.length - 1 ≤ s.finished.getLast hfinished := by
    have hsorted : s.finished.Pairwise (· ≤ ·) := horder.imp Nat.le_of_lt
    exact hsorted.rel_getLast hmem
  rw [List.getLast?_eq_some_getLast hfinished]
  congr 1
  omega

/-- **Where listeners end.** However the steps of refreshes on one cache fall, a listener who was told of a project was
told last of the one that the last refresh to tell brought. This is the project in the slot just if it is also what the
last refresh to fill the slot brought; and so it is once all refreshes have finished, if they told in the order in which
they filled it. -/
theorem lastTold_eq_slot_iff (b : Backend σ α) (world : σ) (events : List (Event ℓ)) {l : ℓ} {a : α}
    (h : (run b world events).lastTold? l = some a) :
    let s := run b world events
    s.lastFinished? = some a ∧ (s.cache.slot = some a ↔ s.lastFinished? = s.lastFilled?) ∧
      (s.AllFinished → s.InOrder → s.cache.slot = some a) := by
  intro s
  have hs : s.Coherent := coherent_run b world events
  have hfinished : s.lastFinished? = some a := hs.last l a h
  -- a refresh that told had filled the slot
  obtain ⟨last, hlast⟩ : ∃ last, s.filled.getLast? = some last := by
    obtain ⟨r, hr, -⟩ := Option.map_eq_some_iff.1 hfinished
    obtain ⟨n, -, hn⟩ := Option.bind_eq_some_iff.1 hr
    exact ⟨_, List.getLast?_eq_some_getLast (List.ne_nil_of_mem (List.mem_of_getElem? hn))⟩
  have hfilled : s.lastFilled? = some last.1 := by rw [lastFilled?, hlast, Option.map_some]
  have hslot : s.cache.slot = some last.1 := hs.slot _ hfilled
  refine ⟨hfinished, by rw [hslot, hfinished, hfilled, eq_comm], fun hall horder => ?_⟩
  have hne : s.filled ≠ [] := by
    intro hnil
    simp [hnil] at hlast
  have hsame : s.lastFinished? = s.lastFilled? := by
    rw [lastFinished?, getLast?_finished hs hall horder hne, Option.bind_some, ← List.getLast?_eq_getElem?, lastFilled?]
  rw [hslot, ← hfilled, ← hsame, hfinished]

end

/-- two refreshes that overlap and tell in order; a second listener comes before the second of them tells -/
theorem overlapping_in_order :
    let s := run counting (0, {}) [.listen "tree", .fill false, .get false, .fill false, .tell 0, .listen "index", .tell 1]
    s.lastTold? "tree" = some (.ofModules ⟨"1"⟩ []) ∧ s.AllFinished ∧ s.InOrder ∧
      s.cache.slot = some (.ofModules ⟨"1"⟩ []) := by
  intro s
  have htold : s.lastTold? "tree" = some (.ofModules ⟨"1"⟩ []) := by decide
  have hall : s.AllFinished := by decide
  have horder : s.InOrder := by decide
  exact ⟨htold, hall, horder, (lastTold_eq_slot_iff counting (0, {}) _ htold).2.2 hall horder⟩

/-- **A listener is left behind.** Two refreshes fill the slot, and the second of them tells first: in the end, with both
finished, the listener was told last of the first project, and the slot holds the second. -/
theorem crossed_deliveries :
    let s := run counting (0, {}) [.listen "tree", .fill false, .fill false, .tell 1, .tell 0]
    s.AllFinished ∧ s.told = [("tree", .ofModules ⟨"1"⟩ []), ("tree", .ofModules ⟨"0"⟩ [])] ∧
      s.lastTold? "tree" = some (.ofModules ⟨"0"⟩ []) ∧ s.cache.slot = some (.ofModules ⟨"1"⟩ []) ∧
      ¬ ∀ l a, s.lastTold? l = some a → s.cache.slot = some a := by
  intro s
  have htold : s.lastTold? "tree" = some (.ofModules ⟨"0"⟩ []) := by decide
  have hslot : s.cache.slot = some (.ofModules ⟨"1"⟩ []) := by decide
  refine ⟨by decide, by decide, htold, hslot, fun h => ?_⟩
  have hsame := (h "tree" _ htold).symm.trans hslot
  exact absurd hsame (by decide)

end Course

end BuildImport.ProjectCache
