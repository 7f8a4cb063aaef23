/-
What is reached in a universe.

`Universe.Reaches` says that one record depends on another one, directly or through records between them, or is it;
`Reaches.of_closed` is the induction along such a way.
`mem_closure` and `mem_withoutRoots` say that the closures that the universe computes are exactly what is reached: all of
it, and what is reached through a direct dependency that is no root.
-/
import Mathlib.Tactic
import BuildImport.Universe
import BuildImport.Proofs.Membership

namespace BuildImport

open Search

/-- what is reached from one start is reached from a member of the domain -/
theorem Search.Reachable.start_mem {α : Type} {next : α → List α} {domain : List α} {a x : α}
    (h : Reachable next domain [a] x) : a ∈ domain := by
  induction h with
  | start hs hd => exact List.mem_singleton.1 hs ▸ hd
  | step _ _ _ ih => exact ih

theorem Search.Reachable.mem {α : Type} {next : α → List α} {domain starts : List α} {x : α}
    (h : Reachable next domain starts x) : x ∈ domain := by
  cases h with
  | start _ hd => exact hd
  | step _ _ hd => exact hd

namespace Universe

/-- a path of direct dependencies leads from `a` to `b`, each of them with a record -/
def Reaches (u : Universe) (a b : String) : Prop := Reachable u.listed u.ids [a] b

theorem mem_ids_iff {u : Universe} {id : String} : id ∈ u.ids ↔ ∃ r, u.find? id = some r := by
  constructor
  · intro h
    obtain ⟨e, he, rfl⟩ := List.mem_map.1 h
    have hsome : (u.records.entries.find? fun e' => compare e.1 e'.1 == .eq).isSome := by
      rw [List.find?_isSome]
      exact ⟨e, he, by simp⟩
    obtain ⟨e', he'⟩ := Option.isSome_iff_exists.1 hsome
    exact ⟨e'.2, by rw [find?, SortedMap.find?, he']; rfl⟩
  · rintro ⟨r, hr⟩
    exact List.mem_map.2 ⟨(id, r), SortedMap.mem_of_find? hr, rfl⟩

theorem contains_iff_mem_ids {u : Universe} {id : String} : u.records.contains id = true ↔ id ∈ u.ids := by
  rw [mem_ids_iff, SortedMap.contains, Option.isSome_iff_exists]
  rfl

theorem Reaches.refl {u : Universe} {id : String} (h : id ∈ u.ids) : u.Reaches id id :=
  .start List.mem_cons_self h

/-- a way that starts with a listed dependency -/
theorem Reaches.of_listed {u : Universe} {a d b : String} (ha : a ∈ u.ids) (hd : d ∈ u.listed a) (h : u.Reaches d b) :
    u.Reaches a b := by
  induction h with
  | start hs hm => exact .step (Reaches.refl ha) (List.mem_singleton.1 hs ▸ hd) hm
  | step _ hc hm ih => exact .step ih hc hm

/-- what is handed on from ids to those that they list holds along every way -/
theorem Reaches.of_closed {u : Universe} {P : String → Prop} (hP : ∀ c, P c → ∀ d ∈ u.listed c, P d) {a b : String}
    (ha : P a) (h : u.Reaches a b) : P b := by
  induction h with
  | start hs _ => exact List.mem_singleton.1 hs ▸ ha
  | step _ hc _ ih => exact hP _ ih _ hc

/-- **The closure of an id is what it reaches**, itself left out. -/
theorem mem_closure {u : Universe} {a b : String} : b ∈ (u.closure a).toList ↔ u.Reaches a b ∧ b ≠ a := by
  rw [closure, SortedSet.mem_ofList, List.mem_filter, mem_reached, decide_eq_true_eq]
  rfl

/-- **What is left without the roots** is reached through a direct dependency that is none. -/
theorem mem_withoutRoots {u : Universe} {a : String} {r : TargetRecord} :
    r ∈ u.withoutRoots a ↔
      ∃ d ∈ u.listed a, u.isRoot d = false ∧ ∃ b, u.Reaches d b ∧ u.find? b = some r := by
  unfold withoutRoots recordsAt
  simp only [List.mem_filterMap, SortedSet.mem_ofList, List.mem_flatMap, List.mem_filter, Bool.and_eq_true,
    Bool.not_eq_true', contains_iff_mem_ids, List.mem_cons, mem_closure]
  constructor
  · rintro ⟨b, ⟨d, ⟨hd, hroot, hid⟩, hb⟩, hr⟩
    refine ⟨d, hd, hroot, b, ?_, hr⟩
    rcases hb with rfl | hb
    · exact .refl hid
    · exact hb.1
  · rintro ⟨d, hd, hroot, b, hb, hr⟩
    refine ⟨b, ⟨d, ⟨hd, hroot, hb.start_mem⟩, ?_⟩, hr⟩
    by_cases he : b = d
    · exact .inl he
    · exact .inr ⟨hb, he⟩

end Universe

end BuildImport
