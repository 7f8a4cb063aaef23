/-
Universes that grow: further roots, or one more record.

What an import asks of a universe is which records are roots, which language level the project has, and for each module
what its record depends on. The last two answers stay as they are where the new record asks for no level
(`Plugin.level_addRecord`) and is not reached from the module (`Universe.Keyed.withoutRoots_addRecord`). New roots
change nothing for dependencies if they have no record (`Universe.Keyed.withoutRoots_addRoots`).

`Universe.Keyed.withoutRoots_congr` is behind both: dependencies come in the order of their ids, so it is enough to know
which they are.
-/
import Mathlib.Tactic
import BuildImport.Plugin
import BuildImport.Proofs.Closure
import BuildImport.Proofs.Imported

namespace BuildImport

open Std Search Text

namespace Universe

/-- the universe with further roots -/
def addRoots (u : Universe) (ids : List String) : Universe := { u with roots := .ofList (u.roots.toList ++ ids) }

/-- the universe with one more record -/
def addRecord (u : Universe) (x : TargetRecord) : Universe := { u with records := u.records.insert x.id x }

variable {u : Universe} {x : TargetRecord}

/-! ## Roots and records -/

theorem isRoot_addRoots {ids : List String} {id : String} :
    (u.addRoots ids).isRoot id = true ↔ u.isRoot id = true ∨ id ∈ ids := by
  unfold isRoot addRoots
  rw [SortedSet.contains_iff_mem, SortedSet.contains_iff_mem, SortedSet.mem_ofList, List.mem_append]

/-- a root that is not among the new ones was one before -/
theorem isRoot_addRoots_of_not_mem {ids : List String} {id : String} (h : id ∉ ids) :
    (u.addRoots ids).isRoot id = u.isRoot id := by
  rw [Bool.eq_iff_iff, isRoot_addRoots]
  simp [h]

theorem find?_addRecord (id : String) : (u.addRecord x).find? id = if id = x.id then some x else u.find? id := by
  unfold find? addRecord
  simp only [SortedMap.find?_insert, Std.compare_eq_iff_eq]

theorem find?_addRecord_of_ne {id : String} (h : id ≠ x.id) : (u.addRecord x).find? id = u.find? id := by
  rw [find?_addRecord, if_neg h]

theorem listed_addRecord_of_ne {id : String} (h : id ≠ x.id) : (u.addRecord x).listed id = u.listed id := by
  unfold listed
  rw [find?_addRecord_of_ne h]

theorem mem_ids_addRecord {id : String} : id ∈ (u.addRecord x).ids ↔ id = x.id ∨ id ∈ u.ids := by
  rw [mem_ids_iff, mem_ids_iff, find?_addRecord]
  by_cases h : id = x.id <;> simp [h]

theorem Keyed.addRoots (hk : u.Keyed) (ids : List String) : (u.addRoots ids).Keyed := hk

theorem Keyed.addRecord (hk : u.Keyed) (x : TargetRecord) : (u.addRecord x).Keyed := by
  intro e he
  rcases SortedMap.mem_put he with rfl | he
  · rfl
  · exact hk e he

/-! ## What is reached -/

/-- with one more record nothing is reached less -/
theorem Reaches.addRecord (hnew : u.find? x.id = none) {a b : String} (h : u.Reaches a b) :
    (u.addRecord x).Reaches a b := by
  have hne : ∀ {id}, id ∈ u.ids → id ≠ x.id := by
    rintro id hid rfl
    obtain ⟨r, hr⟩ := mem_ids_iff.1 hid
    simp [hnew] at hr
  induction h with
  | start hs hd => exact .start hs (mem_ids_addRecord.2 (.inr hd))
  | step hb hc hd ih =>
    exact .step ih (by rwa [listed_addRecord_of_ne (hne hb.mem)]) (mem_ids_addRecord.2 (.inr hd))

/-- **A record that is not reached opens no way.** -/
theorem reaches_addRecord_iff (hnew : u.find? x.id = none) {a b : String} (hx : ¬ (u.addRecord x).Reaches a x.id) :
    (u.addRecord x).Reaches a b ↔ u.Reaches a b := by
  have hne : ∀ {id}, (u.addRecord x).Reaches a id → id ≠ x.id := by
    rintro id h rfl
    exact hx h
  refine ⟨fun h => ?_, Reaches.addRecord hnew⟩
  induction h with
  | start hs hd =>
    have ha : _ ≠ x.id := hne (.start hs hd)
    exact .start hs ((mem_ids_addRecord.1 hd).resolve_left ha)
  | step hb hc hd ih =>
    have hcx : _ ≠ x.id := hne (.step hb hc hd)
    rw [listed_addRecord_of_ne (hne hb)] at hc
    exact .step ih hc ((mem_ids_addRecord.1 hd).resolve_left hcx)

/-- what no record depends on is not reached from elsewhere -/
theorem not_reaches_of_no_dependent (h : ∀ e ∈ u.records.entries, x.id ∉ e.2.dependencies) {a : String}
    (ha : a ≠ x.id) : ¬ (u.addRecord x).Reaches a x.id := by
  have hno : ∀ c, c ≠ x.id → ∀ d ∈ (u.addRecord x).listed c, d ≠ x.id := by
    rintro c hc _ hd rfl
    rw [listed_addRecord_of_ne hc] at hd
    unfold listed at hd
    cases hr : u.find? c with
    | none => simp [hr] at hd
    | some r =>
      rw [hr] at hd
      exact h _ (mem_entries_of_find? hr) hd
  exact fun hx => hx.of_closed hno ha rfl

/-! ## Dependencies without roots -/

/-- dependencies come in the order of their ids, so it is enough to know which they are -/
theorem Keyed.withoutRoots_congr {u' : Universe} (hk : u.Keyed) (hk' : u'.Keyed) {a : String}
    (h : ∀ r, r ∈ u'.withoutRoots a ↔ r ∈ u.withoutRoots a) : u'.withoutRoots a = u.withoutRoots a :=
  eq_of_pairwise_keys (hk'.pairwise_recordsAt _) (hk.pairwise_recordsAt _) h

/-- roots without a record are nobody's dependencies -/
theorem Keyed.withoutRoots_addRoots (hk : u.Keyed) {ids : List String} (h : ∀ id ∈ ids, u.find? id = none)
    (a : String) : (u.addRoots ids).withoutRoots a = u.withoutRoots a := by
  have hroot : ∀ {d b}, u.Reaches d b → (u.addRoots ids).isRoot d = u.isRoot d := by
    intro d b hr
    apply isRoot_addRoots_of_not_mem
    intro hd
    obtain ⟨r, hr⟩ := mem_ids_iff.1 hr.start_mem
    simp [h d hd] at hr
  refine hk.withoutRoots_congr (hk.addRoots ids) fun r => ?_
  rw [mem_withoutRoots, mem_withoutRoots]
  constructor
  · rintro ⟨d, hd, hno, b, hb, hr⟩
    exact ⟨d, hd, (hroot hb).symm.trans hno, b, hb, hr⟩
  · rintro ⟨d, hd, hno, b, hb, hr⟩
    exact ⟨d, hd, (hroot hb).trans hno, b, hb, hr⟩

/-- **A record that is not reached is among nobody's dependencies.** -/
theorem Keyed.withoutRoots_addRecord (hk : u.Keyed) (hnew : u.find? x.id = none) {a : String} (ha : a ≠ x.id)
    (hx : ∀ d ∈ u.listed a, ¬ (u.addRecord x).Reaches d x.id) :
    (u.addRecord x).withoutRoots a = u.withoutRoots a := by
  refine hk.withoutRoots_congr (hk.addRecord x) fun r => ?_
  rw [mem_withoutRoots, mem_withoutRoots, listed_addRecord_of_ne ha]
  constructor
  · rintro ⟨d, hd, hno, b, hb, hr⟩
    have hne : b ≠ x.id := by
      rintro rfl
      exact hx d hd hb
    exact ⟨d, hd, hno, b, (reaches_addRecord_iff hnew (hx d hd)).1 hb, (find?_addRecord_of_ne hne).symm.trans hr⟩
  · rintro ⟨d, hd, hno, b, hb, hr⟩
    have hne : b ≠ x.id := by
      rintro rfl
      simp [hnew] at hr
    exact ⟨d, hd, hno, b, hb.addRecord hnew, (find?_addRecord_of_ne hne).trans hr⟩

end Universe

/-! ## The language level -/

namespace Plugin

/-- the compiler option, or the one after it, names a language level -/
def NamesLevel (opt : String) : Prop := opt = "-source" ∨ opt = "--release" ∨ startsWith "--release=" opt = true

instance (opt : String) : Decidable (NamesLevel opt) := by
  unfold NamesLevel; infer_instance

/-- none of the record's compiler options names a language level -/
def NamesNoLevel (x : TargetRecord) : Prop := ∀ info ∈ x.java, ∀ opt ∈ info.javacOpts, ¬ NamesLevel opt

instance (x : TargetRecord) : Decidable (NamesNoLevel x) := by
  unfold NamesNoLevel; infer_instance

theorem levelsIn_eq_nil {opts : List String} (h : ∀ opt ∈ opts, ¬ NamesLevel opt) : levelsIn opts = [] := by
  have hno : ∀ {opt}, ¬ NamesLevel opt → dropPrefix? "--release=" opt = none := by
    intro opt ho
    rw [dropPrefix?, if_neg fun hp => ho (.inr (.inr hp))]
  fun_induction levelsIn opts with
  | case1 => rfl
  | case2 opt => rw [hno (h opt List.mem_cons_self)]; rfl
  | case3 opt value rest hopt ih =>
    exact absurd (hopt.imp_right .inl) (h opt List.mem_cons_self)
  | case4 opt value rest hopt ih =>
    rw [hno (h opt List.mem_cons_self), ih fun o ho => h o (List.mem_cons_of_mem _ ho)]
    rfl

/-- **A record that names no language level leaves that of the project.** -/
theorem level_addRecord {u : Universe} {x : TargetRecord} (hnew : u.find? x.id = none) (hx : NamesNoLevel x) :
    level (u.addRecord x) = level u := by
  obtain ⟨before, after, hes, hput⟩ := SortedMap.exists_put_eq (v := x) (SortedMap.find?_eq_none_iff.1 hnew)
  have hnone : ((x.java.map (·.javacOpts)).map levelsIn).getD [] = [] := by
    cases hj : x.java with
    | none => rfl
    | some info => exact levelsIn_eq_nil (hx info hj)
  have hlevels : levels (u.addRecord x) = levels u := by
    unfold levels SortedMap.values
    change ((SortedMap.put x.id x u.records.entries).map (·.2)).flatMap _ = _
    rw [hput, hes, List.map_append, List.map_append, List.map_cons, List.flatMap_append, List.flatMap_append,
      List.flatMap_cons, hnone, List.nil_append]
  rw [level, hlevels, level]

end Plugin

end BuildImport
