/-
Resolutions that are stopped inside a call on the cache.

A source may find that the import is to stop and fail with that, or it may go on and hand out a project all the same. A
refresh looks after the resolution whether it was stopped meanwhile, so it does not matter what the source does. A `get`
does not look: what it is handed, it keeps.

- `untouched_of_failed`: a call whose resolution fails answers with a failure and leaves slot and store.
- `untouched_of_refresh`: a refresh whose resolution was stopped does so too.
- `installed_of_resolved`: a `get` that is handed a project has it in the slot and stores it, stopped or not.

`untouched_iff_of_stopped` puts this together: of the calls whose resolution was stopped, exactly a `get` whose source
hands out a project changes anything.
Witness `careless_installed`: the source that never minds. Its `get` fills the slot and the store with a project that was
to be given up, and its refresh does not.
-/
import Mathlib.Tactic
import BuildImport.Proofs.CacheCalls

namespace BuildImport.ProjectCache

variable {σ ℓ α : Type} {b : Backend σ α} {call : Call ℓ} {c : ProjectCache ℓ α} {world : σ}

/-- the call resolved, with this outcome, and the import was to stop by the end of it -/
def ResolvedStopped (t : Turn σ ℓ α) (r : Except Error α) : Prop := .resolve r true ∈ t.requests

/-- the call failed, asked for nothing to be stored, and left the cache as it was and what is stored -/
structure Untouched (b : Backend σ α) (c : ProjectCache ℓ α) (world : σ) (t : Turn σ ℓ α) : Prop where
  fails : ∃ e, t.answer = .error e
  cache_eq : t.cache = c
  unasked : ∀ a done, .store a done ∉ t.requests
  kept : ∀ content, b.Stores content → content t.world = content world

/-! ## One call -/

/-- a failure that is not that of the store leaves everything -/
theorem untouched_of_error {e : Error} (he : (perform b call c world).answer = .error e)
    (hstored : ∀ q ∈ (perform b call c world).requests, q.storeFailed = false) :
    Untouched b c world (perform b call c world) := by
  obtain ⟨hcache, hunasked⟩ := (orderly_perform b call c world).failed e he hstored
  exact ⟨⟨e, he⟩, hcache, hunasked, fun _ hb => content_perform_of_failed hb he hstored⟩

/-- **A resolution that fails changes nothing.** -/
theorem untouched_of_failed {e : Error} {stopped : Bool}
    (h : .resolve (.error e) stopped ∈ (perform b call c world).requests) :
    Untouched b c world (perform b call c world) := by
  have hanswer : (perform b call c world).answer = .error e ∧
      ∀ q ∈ (perform b call c world).requests, q.storeFailed = false := by
    have hstep := step_perform b call c world
    generalize perform b call c world = t at hstep h
    cases hstep with
    | unresolved | refreshFailed => simp_all [Request.storeFailed]
    | looked | listened | found | loaded | resolved | refreshStopped | refreshed => simp at h
  exact untouched_of_error hanswer.1 hanswer.2

/-- **A refresh looks whether it was stopped**, and then changes nothing. -/
theorem untouched_of_refresh {stop : Bool} {r : Except Error α}
    (h : ResolvedStopped (perform b (.refresh stop) c world) r) :
    Untouched b c world (perform b (.refresh stop) c world) := by
  obtain ⟨e, he, hstored⟩ : ∃ e, (perform b (.refresh stop) c world).answer = .error e ∧
      ∀ q ∈ (perform b (.refresh stop) c world).requests, q.storeFailed = false := by
    unfold ResolvedStopped at h
    have hstep := step_refresh b c stop world
    generalize perform b (.refresh stop) c world = t at hstep h
    cases hstep with
    | refreshFailed | refreshStopped => exact ⟨_, rfl, by simp [Request.storeFailed]⟩
    | refreshed => simp at h
  exact untouched_of_error he hstored

/-- **A `get` does not look.** It has the project in the slot and asks for it to be stored. -/
theorem installed_of_resolved {stop stopped : Bool} {a : α}
    (h : .resolve (.ok a) stopped ∈ (perform b (.get stop) c world).requests) :
    (perform b (.get stop) c world).cache.slot = some a ∧
      ∃ done, .store a done ∈ (perform b (.get stop) c world).requests := by
  have hstep := step_get b c stop world
  generalize perform b (.get stop) c world = t at hstep h
  cases hstep with
  | found | loaded | unresolved => simp at h
  | resolved => simp_all

/-! ## Stopped resolutions -/

/-- a call that resolves is a `get` or a refresh -/
theorem get_or_refresh_of_resolve {r : Except Error α} {stopped : Bool}
    (h : .resolve r stopped ∈ (perform b call c world).requests) :
    ∃ stop, call = .get stop ∨ call = .refresh stop := by
  cases call with
  | get stop => exact ⟨stop, .inl rfl⟩
  | refresh stop => exact ⟨stop, .inr rfl⟩
  | current | listen => simp [perform] at h

/-- **When a stopped resolution changes nothing.** For every backend, cache and world: a call whose resolution was
stopped fails and leaves slot and store just if it is a refresh, or the source itself failed. -/
theorem untouched_iff_of_stopped {r : Except Error α} (h : ResolvedStopped (perform b call c world) r) :
    Untouched b c world (perform b call c world) ↔ (∃ stop, call = .refresh stop) ∨ ∃ e, r = .error e := by
  constructor
  · intro huntouched
    obtain ⟨stop, rfl | rfl⟩ := get_or_refresh_of_resolve h
    · cases r with
      | error e => exact .inr ⟨e, rfl⟩
      | ok a =>
        obtain ⟨-, done, hstore⟩ := installed_of_resolved h
        exact absurd hstore (huntouched.unasked a done)
    · exact .inl ⟨stop, rfl⟩
  · rintro (⟨stop, rfl⟩ | ⟨e, rfl⟩)
    · exact untouched_of_refresh h
    · exact untouched_of_failed h

/-- finds the import stopped while it resolves, and hands out a project all the same; keeps projects in memory -/
def careless : Backend MemoryStorage Project where
  resolve _ w := ((.ok (.ofModules ⟨"/ws"⟩ []), true), w)
  load w := (.ok w.load, w)
  store p w := (.ok (), w.store p)

/-- **A stopped resolution is installed.** The first `get` over `careless` succeeds, and afterwards slot and store hold the
project of a resolution that was stopped. -/
theorem careless_installed :
    let t : Turn MemoryStorage String Project := perform careless (.get false) {} {}
    ResolvedStopped t (.ok (.ofModules ⟨"/ws"⟩ [])) ∧ ¬ Untouched careless {} {} t ∧
      t.cache.slot = some (.ofModules ⟨"/ws"⟩ []) ∧ t.world.held = some (.ofModules ⟨"/ws"⟩ []) := by
  intro t
  have hrequests : t.requests =
      [.load (.ok none), .resolve (.ok (.ofModules ⟨"/ws"⟩ [])) true, .store (.ofModules ⟨"/ws"⟩ []) (.ok ())] := rfl
  have hslot : t.cache.slot = some (.ofModules ⟨"/ws"⟩ []) := rfl
  refine ⟨by simp [ResolvedStopped, hrequests], ?_, hslot, rfl⟩
  intro huntouched
  rw [huntouched.cache_eq] at hslot
  cases hslot

/-- over `careless` a refresh gives up what a `get` keeps, and leaves an older project in slot and store -/
theorem careless_untouched_iff :
    let old : Project := .ofModules ⟨"/old"⟩ []
    let held : ProjectCache String Project := { slot := some old, listeners := ["tree"] }
    let got : Turn MemoryStorage String Project := perform careless (.get false) {} {}
    let refreshed := perform careless (.refresh false) held ⟨some old⟩
    ResolvedStopped got (.ok (.ofModules ⟨"/ws"⟩ [])) ∧ ¬ Untouched careless {} {} got ∧
      ResolvedStopped refreshed (.ok (.ofModules ⟨"/ws"⟩ [])) ∧ Untouched careless held ⟨some old⟩ refreshed := by
  intro old held got refreshed
  have hgot : ResolvedStopped got (.ok (.ofModules ⟨"/ws"⟩ [])) := by
    have hrequests : got.requests =
        [.load (.ok none), .resolve (.ok (.ofModules ⟨"/ws"⟩ [])) true, .store (.ofModules ⟨"/ws"⟩ []) (.ok ())] := rfl
    simp [ResolvedStopped, hrequests]
  have hrefreshed : ResolvedStopped refreshed (.ok (.ofModules ⟨"/ws"⟩ [])) := by
    have hrequests : refreshed.requests = [.resolve (.ok (.ofModules ⟨"/ws"⟩ [])) true] := rfl
    simp [ResolvedStopped, hrequests]
  refine ⟨hgot, (untouched_iff_of_stopped hgot).not.2 ?_, hrefreshed, ?_⟩
  · rintro (⟨_, hcall⟩ | ⟨_, hr⟩)
    · cases hcall
    · cases hr
  · exact (untouched_iff_of_stopped hrefreshed).2 (.inl ⟨false, rfl⟩)

end BuildImport.ProjectCache
