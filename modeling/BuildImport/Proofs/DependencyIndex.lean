/-
What the dependency index answers.

Whatever was asked before, an index answers as the universe does. Its table holds only what a search finds (`Faithful`).
Each question keeps it so (`ask_spec`), hence any questions do (`faithful_after`). So nobody sees what the table holds.
There is an answer to every question, since a search enters no id twice (`Search.explore`).

What the answers are is told by the graph of the universe, in which an id depends on another if its record lists it and
both have one (`Universe.DependsOn`). There may be cycles, and edges from an id to itself.

- `Universe.mem_search`: a search finds all that a way leads to but the id that it sets out from. It never goes through
  this id. Nothing is lost by that: a way that comes back to its start can begin there the last time.
- `Universe.Keyed.mem_transitive`, `Universe.Keyed.mem_withoutRoots_iff`: what is answered to the two kinds of questions.

`answers_exactly` puts these together.
-/
import Mathlib.Tactic
import BuildImport.DependencyIndex
import BuildImport.Proofs.Closure
import BuildImport.Proofs.Imported

namespace BuildImport

open Relation

namespace Universe

variable {u : Universe} {a b : String}

/-! ## The graph -/

/-- the record of `a` lists `b`, and `b` has a record, too -/
def DependsOn (u : Universe) (a b : String) : Prop :=
  ∃ r, u.find? a = some r ∧ b ∈ r.dependencies ∧ ∃ s, u.find? b = some s

theorem dependsOn_iff : u.DependsOn a b ↔ b ∈ u.listed a ∧ b ∈ u.ids := by
  rw [mem_ids_iff, DependsOn, listed]
  cases u.find? a <;> simp

/-- what is reached from an id is the id itself, or a way leads there -/
theorem reaches_iff : u.Reaches a b ↔ a ∈ u.ids ∧ ReflTransGen u.DependsOn a b := by
  constructor
  · intro h
    refine ⟨h.start_mem, ?_⟩
    induction h with
    | start hs _ => exact List.mem_singleton.1 hs ▸ .refl
    | step _ hlisted hid ih => exact ih.tail (dependsOn_iff.2 ⟨hlisted, hid⟩)
  · rintro ⟨ha, hway⟩
    induction hway with
    | refl => exact .refl ha
    | tail _ hedge ih => exact .step ih (dependsOn_iff.1 hedge).1 (dependsOn_iff.1 hedge).2

/-- **A search finds what a way leads to**, the id that it sets out from left out. -/
theorem mem_search : b ∈ (u.search a).toList ↔ TransGen u.DependsOn a b ∧ b ≠ a := by
  rw [search, SortedSet.mem_ofList, Search.mem_reached]
  have hdomain : ∀ {c}, c ∈ u.ids.filter (· ≠ a) ↔ c ∈ u.ids ∧ c ≠ a := by simp
  constructor
  · intro h
    refine ⟨?_, (hdomain.1 h.mem).2⟩
    induction h with
    | start hs hd => exact .single (dependsOn_iff.2 ⟨hs, (hdomain.1 hd).1⟩)
    | step _ hlisted hd ih => exact ih.tail (dependsOn_iff.2 ⟨hlisted, (hdomain.1 hd).1⟩)
  · rintro ⟨hway, hne⟩
    induction hway with
    | single hedge =>
      obtain ⟨hlisted, hid⟩ := dependsOn_iff.1 hedge
      exact .start hlisted (hdomain.2 ⟨hid, hne⟩)
    | @tail c b _ hedge ih =>
      obtain ⟨hlisted, hid⟩ := dependsOn_iff.1 hedge
      -- the way is cut where it comes back to `a`
      by_cases hc : c = a
      · exact .start (hc ▸ hlisted) (hdomain.2 ⟨hid, hne⟩)
      · exact .step (ih hc) hlisted (hdomain.2 ⟨hid, hne⟩)

theorem search_eq_closure (u : Universe) (id : String) : u.search id = u.closure id := by
  apply SortedSet.ext_mem
  intro b
  rw [mem_search, mem_closure, reaches_iff, reflTransGen_iff_eq_or_transGen]
  constructor
  · rintro ⟨hway, hne⟩
    obtain ⟨c, hedge, -⟩ := TransGen.head'_iff.1 hway
    obtain ⟨r, hr, -⟩ := hedge
    exact ⟨⟨mem_ids_iff.2 ⟨r, hr⟩, .inr hway⟩, hne⟩
  · rintro ⟨⟨-, heq | hway⟩, hne⟩
    · exact absurd heq hne
    · exact ⟨hway, hne⟩

/-! ## Records -/

/-- an id without a record depends on nothing -/
theorem transitive_of_unknown (h : u.find? a = none) : u.transitive a = [] := by
  rw [transitive, ← search_eq_closure, search, listed, h, Option.map_none, Option.getD_none, Search.reached,
    Search.explore]
  rfl

theorem withoutRoots_of_unknown (h : u.find? a = none) : u.withoutRoots a = [] := by
  rw [withoutRoots, listed, h]
  rfl

namespace Keyed

variable {r : TargetRecord} {id : String}

/-- **All dependencies** are the records that a way leads to. -/
theorem mem_transitive (hk : u.Keyed) :
    r ∈ u.transitive id ↔ u.find? r.id = some r ∧ r.id ≠ id ∧ TransGen u.DependsOn id r.id := by
  rw [transitive, hk.mem_recordsAt, ← search_eq_closure, mem_search, and_comm (a := TransGen _ _ _)]

theorem eq_or_mem_transitive_iff (hk : u.Keyed) {d : TargetRecord} (hd : u.find? d.id = some d) :
    r = d ∨ r ∈ u.transitive d.id ↔ u.find? r.id = some r ∧ ReflTransGen u.DependsOn d.id r.id := by
  rw [hk.mem_transitive, reflTransGen_iff_eq_or_transGen]
  constructor
  · rintro (rfl | ⟨hr, -, hway⟩)
    · exact ⟨hd, .inl rfl⟩
    · exact ⟨hr, .inr hway⟩
  · rintro ⟨hr, hway⟩
    by_cases he : r.id = d.id
    · rw [he, hd] at hr
      exact .inl (Option.some.inj hr).symm
    · exact .inr ⟨hr, he, hway.resolve_left he⟩

/-- **Those without the roots** are the records that a way leads to from a direct dependency that is none. -/
theorem mem_withoutRoots_iff (hk : u.Keyed) :
    r ∈ u.withoutRoots id ↔
      u.find? r.id = some r ∧ ∃ d, u.DependsOn id d ∧ u.isRoot d = false ∧ ReflTransGen u.DependsOn d r.id := by
  rw [Universe.mem_withoutRoots]
  constructor
  · rintro ⟨d, hd, hroot, b, hb, hr⟩
    obtain rfl := hk.id_eq hr
    exact ⟨hr, d, dependsOn_iff.2 ⟨hd, hb.start_mem⟩, hroot, (reaches_iff.1 hb).2⟩
  · rintro ⟨hr, d, hedge, hroot, hway⟩
    obtain ⟨hlisted, hid⟩ := dependsOn_iff.1 hedge
    exact ⟨d, hlisted, hroot, r.id, reaches_iff.2 ⟨hid, hway⟩, hr⟩

/-- So they are these direct dependencies and all of theirs. -/
theorem mem_withoutRoots_iff_transitive (hk : u.Keyed) :
    r ∈ u.withoutRoots id ↔
      ∃ d, u.find? d.id = some d ∧ u.DependsOn id d.id ∧ u.isRoot d.id = false ∧ (r = d ∨ r ∈ u.transitive d.id) := by
  rw [hk.mem_withoutRoots_iff]
  constructor
  · rintro ⟨hr, d, hedge, hroot, hway⟩
    obtain ⟨s, hs⟩ := mem_ids_iff.1 (dependsOn_iff.1 hedge).2
    obtain rfl := hk.id_eq hs
    exact ⟨s, hs, hedge, hroot, (hk.eq_or_mem_transitive_iff hs).2 ⟨hr, hway⟩⟩
  · rintro ⟨d, hd, hedge, hroot, h⟩
    obtain ⟨hr, hway⟩ := (hk.eq_or_mem_transitive_iff hd).1 h
    exact ⟨hr, d.id, hedge, hroot, hway⟩

end Keyed

end Universe

namespace DependencyIndex

variable {u : Universe} {i : DependencyIndex}

/-! ## The table -/

/-- an index of the universe, whose table holds only what a search finds -/
structure Faithful (u : Universe) (i : DependencyIndex) : Prop where
  targets : i.targets = u
  closures : ∀ id found, i.closures.find? id = some found → found = u.search id

theorem faithful_ofUniverse (u : Universe) : Faithful u (ofUniverse u) := ⟨rfl, fun _ _ h => by cases h⟩

/-- what is found is the same, from the table or not, and goes into the table -/
theorem closure_spec (hf : Faithful u i) (id : String) :
    (i.closure id).1 = u.search id ∧ Faithful u (i.closure id).2 := by
  unfold closure
  cases h : i.closures.find? id with
  | some found => exact ⟨hf.closures id found h, hf⟩
  | none =>
    refine ⟨by rw [hf.targets], hf.targets, fun id' found hfound => ?_⟩
    rw [SortedMap.find?_insert] at hfound
    split_ifs at hfound with heq
    · rw [Std.LawfulEqOrd.eq_of_compare heq, ← hf.targets]
      exact (Option.some.inj hfound).symm
    · exact hf.closures id' found hfound

/-- what is gathered, one dependency after the other -/
theorem gather_spec (hf : Faithful u i) (ids : SortedSet String) (ds : List String) :
    (∀ b, b ∈ (i.gather ids ds).1.toList ↔ b ∈ ids.toList ∨
      ∃ d ∈ ds, (!u.isRoot d && u.records.contains d) = true ∧ b ∈ d :: (u.search d).toList) ∧
    Faithful u (i.gather ids ds).2 := by
  induction ds generalizing i ids with
  | nil => exact ⟨fun b => by simp [gather], hf⟩
  | cons d rest ih =>
    unfold gather
    rw [hf.targets]
    split_ifs with hd
    · obtain ⟨hfound, hf'⟩ := closure_spec hf d
      obtain ⟨hmem, hrest⟩ := ih hf' ((i.closure d).1.toList.foldl .insert (ids.insert d))
      refine ⟨fun b => ?_, hrest⟩
      rw [hmem, SortedSet.mem_foldl_insert, SortedSet.mem_insert, hfound, List.exists_mem_cons_iff, and_iff_right hd,
        List.mem_cons, or_assoc, or_assoc, or_left_comm, or_assoc]
    · obtain ⟨hmem, hrest⟩ := ih hf ids
      refine ⟨fun b => ?_, hrest⟩
      have hno : ¬ ((!u.isRoot d && u.records.contains d) = true ∧ b ∈ d :: (u.search d).toList) := fun h => hd h.1
      rw [hmem, List.exists_mem_cons_iff, or_iff_right hno]

/-! ## Questions -/

/-- what the universe answers -/
def answer (u : Universe) : Query → List TargetRecord
  | .direct id => u.direct id
  | .transitive id => u.transitive id
  | .withoutRoots id => u.withoutRoots id

/-- a question is answered as the universe does, and leaves nothing else in the table -/
theorem ask_spec (hf : Faithful u i) (q : Query) : (i.ask q).1 = answer u q ∧ Faithful u (i.ask q).2 := by
  cases q with
  | direct id => exact ⟨by rw [ask, hf.targets, answer], hf⟩
  | transitive id =>
    obtain ⟨hfound, hf'⟩ := closure_spec hf id
    refine ⟨?_, hf'⟩
    dsimp only [ask, answer]
    rw [hf'.targets, hfound, Universe.search_eq_closure, Universe.transitive]
  | withoutRoots id =>
    obtain ⟨hmem, hf'⟩ := gather_spec hf ∅ (u.listed id)
    refine ⟨?_, by rw [ask, hf.targets]; exact hf'⟩
    have hids : (i.gather ∅ (u.listed id)).1 =
        .ofList (((u.listed id).filter fun d => !u.isRoot d && u.records.contains d).flatMap fun d =>
          d :: (u.closure d).toList) := by
      apply SortedSet.ext_mem
      intro b
      have hempty : b ∉ (∅ : SortedSet String).toList := List.not_mem_nil
      rw [hmem, SortedSet.mem_ofList, List.mem_flatMap, or_iff_right hempty]
      simp only [List.mem_filter, and_assoc, Universe.search_eq_closure]
    dsimp only [ask, answer]
    rw [hf.targets, hf'.targets, hids, Universe.withoutRoots]

theorem faithful_after (hf : Faithful u i) (asked : List Query) : Faithful u (i.after asked) := by
  induction asked generalizing i with
  | nil => exact hf
  | cons q rest ih => exact ih (ask_spec hf q).2

/-- **Whatever was asked before, the index answers as the universe does.** -/
theorem ask_after (u : Universe) (asked : List Query) (q : Query) :
    (((ofUniverse u).after asked).ask q).1 = answer u q :=
  (ask_spec (faithful_after (faithful_ofUniverse u) asked) q).1

/-! ## Answers -/

/-- the records with the property, in the strict order of their ids -/
structure Lists (rs : List TargetRecord) (p : TargetRecord → Prop) : Prop where
  ascending : rs.Pairwise fun r r' => compare r.id r'.id = .lt
  mem_iff : ∀ r, r ∈ rs ↔ p r

/-- it answers as if nothing had been asked before, namely what the graph of the universe tells -/
structure AnswersExactly (u : Universe) (i : DependencyIndex) : Prop where
  fresh : ∀ q, (i.ask q).1 = ((ofUniverse u).ask q).1
  transitive : ∀ id, Lists (i.ask (.transitive id)).1 fun r =>
    u.find? r.id = some r ∧ r.id ≠ id ∧ TransGen u.DependsOn id r.id
  withoutRoots : ∀ id, Lists (i.ask (.withoutRoots id)).1 fun r =>
    ∃ d, u.find? d.id = some d ∧ u.DependsOn id d.id ∧ u.isRoot d.id = false ∧
      (r = d ∨ r ∈ (i.ask (.transitive d.id)).1)
  unknown : ∀ id, u.find? id = none → (i.ask (.transitive id)).1 = [] ∧ (i.ask (.withoutRoots id)).1 = []

theorem lists_transitive (hk : u.Keyed) (id : String) : Lists (u.transitive id) fun r =>
    u.find? r.id = some r ∧ r.id ≠ id ∧ TransGen u.DependsOn id r.id :=
  ⟨hk.pairwise_recordsAt _, fun _ => hk.mem_transitive⟩

theorem lists_withoutRoots (hk : u.Keyed) (id : String) : Lists (u.withoutRoots id) fun r =>
    ∃ d, u.find? d.id = some d ∧ u.DependsOn id d.id ∧ u.isRoot d.id = false ∧ (r = d ∨ r ∈ u.transitive d.id) :=
  ⟨hk.pairwise_recordsAt _, fun _ => hk.mem_withoutRoots_iff_transitive⟩

/-- **The index answers exactly, whatever was asked before.** -/
theorem answers_exactly (hk : u.Keyed) (asked : List Query) : AnswersExactly u ((ofUniverse u).after asked) := by
  have hask : ∀ q, (((ofUniverse u).after asked).ask q).1 = answer u q := ask_after u asked
  have hfresh : ∀ q, ((ofUniverse u).ask q).1 = answer u q := ask_after u []
  refine ⟨fun q => (hask q).trans (hfresh q).symm, fun id => ?_, fun id => ?_, fun id hunknown => ?_⟩
  · rw [hask]
    exact lists_transitive hk id
  · simp only [hask]
    exact lists_withoutRoots hk id
  · rw [hask, hask]
    exact ⟨Universe.transitive_of_unknown hunknown, Universe.withoutRoots_of_unknown hunknown⟩

/-- two libraries that depend on each other, one of them on itself, too; one is listed twice, and one has no record -/
def tangled : Universe :=
  .ofLists
    [{ id := "//app:app", kind := "java_binary", dependencies := ["//lib:lib", "//util:util", "//lib:lib"] },
     { id := "//lib:lib", kind := "java_library", dependencies := ["//util:util", "//lib:lib", "@ext//:missing"] },
     { id := "//util:util", kind := "java_library", dependencies := ["//base:base", "//lib:lib"] },
     { id := "//base:base", kind := "java_library" }]
    ["//app:app", "//util:util"]

/-- questions about all of them, and about one that has no record -/
def questions : List Query :=
  [.withoutRoots "//app:app", .transitive "//lib:lib", .direct "//util:util", .transitive "//lib:lib",
   .withoutRoots "@ext//:missing"]

/-- an index of `tangled` after the questions, with two of its answers -/
theorem tangled_answered :
    tangled.Keyed ∧ AnswersExactly tangled ((ofUniverse tangled).after questions) ∧
      (((ofUniverse tangled).after questions).ask (.transitive "//lib:lib")).1.map (·.id) =
        ["//base:base", "//util:util"] ∧
      (((ofUniverse tangled).after questions).ask (.withoutRoots "//app:app")).1.map (·.id) =
        ["//base:base", "//lib:lib", "//util:util"] := by
  refine ⟨Universe.keyed_ofLists _ _, answers_exactly (Universe.keyed_ofLists _ _) questions, ?_, ?_⟩
  · rw [ask_after]
    cbv
  · rw [ask_after]
    cbv

end DependencyIndex

end BuildImport
