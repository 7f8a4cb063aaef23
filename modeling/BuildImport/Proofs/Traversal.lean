/-
The order in which records and roots arrive, and the order in which they are gone through.

A universe keeps records and roots in the order of their ids. So it does not matter in which order they arrive, nor how
often a root does (`Universe.ofLists_congr`).

A universe kept in hash tables is gone through in an order that nobody knows. Where an import lists what is in a table it
must therefore not depend on the order: where it selects the records of the roots, and where the plugins vote on the
language level, first over the records and then over the levels that were counted. A `Traversal` is any such order, and
`createProjectInOrder` the import that goes by it.

- `greatest_perm`: the greatest element does not depend on the order if only equal ones tie. The vote is of this kind,
  since of two levels named equally often the smaller wins (`Plugin.mostFrequent_eq_greatest`).
- `Mapping.selectedInOrder_eq`: sorting by distinct ids forgets the order.

`createProject_order_free` puts arrival and traversal together.
-/
import Mathlib.Tactic
import BuildImport.Proofs.Selection

namespace BuildImport

open Std

/-! ## Arrival -/

/-- sets of the same elements are the same -/
theorem SortedSet.ofList_congr {α : Type} [Ord α] [TransOrd α] [LawfulEqOrd α] {xs ys : List α}
    (h : ∀ a, a ∈ xs ↔ a ∈ ys) : ofList xs = ofList ys :=
  ext_mem fun a => by rw [mem_ofList, mem_ofList, h]

/-- **The universe does not depend on the order of arrival.** -/
theorem Universe.ofLists_congr {rs rs' : List TargetRecord} {roots roots' : List String}
    (hids : (rs.map (·.id)).Nodup) (hperm : rs'.Perm rs) (hroots : ∀ id, id ∈ roots' ↔ id ∈ roots) :
    ofLists rs' roots' = ofLists rs roots := by
  have hdistinct : (rs.map fun r => (r.id, r)).Pairwise fun a b => compare a.1 b.1 ≠ .eq :=
    List.pairwise_map.2 ((List.pairwise_map.1 hids).imp fun hne heq => hne (LawfulEqOrd.eq_of_compare heq))
  have hrecords : recordsOf rs' = recordsOf rs := SortedMap.ofList_perm hdistinct (hperm.map _)
  rw [ofLists, ofLists, hrecords, SortedSet.ofList_congr hroots]

/-! ## Greatest elements -/

section Greatest

variable {α : Type} (cmp : α → α → Ordering)

/-- the greater of two elements, the second one if they are equal -/
def greater (a b : α) : α := if cmp a b = .gt then a else b

/-- the greatest of the elements, the last of several -/
def greatest (xs : List α) : Option α := xs.foldl (fun best x => some (best.elim x fun b => greater cmp b x)) none

variable {cmp}

theorem greater_comm [OrientedCmp cmp] [LawfulEqCmp cmp] (a b : α) : greater cmp a b = greater cmp b a := by
  unfold greater
  rcases h : cmp a b with _ | _ | _
  · simp [OrientedCmp.gt_iff_lt.2 h]
  · rw [LawfulEqCmp.eq_of_compare h]
    simp [ReflCmp.compare_self]
  · simp [OrientedCmp.gt_iff_lt.1 h]

theorem greater_assoc [TransCmp cmp] (a b c : α) :
    greater cmp (greater cmp a b) c = greater cmp a (greater cmp b c) := by
  unfold greater
  by_cases hab : cmp a b = .gt <;> by_cases hbc : cmp b c = .gt <;> simp [hab, hbc]
  · exact fun hac => absurd (TransCmp.gt_trans hab hbc) hac
  · have hac : (cmp a c).isLE := TransCmp.isLE_trans (Ordering.isLE_iff_ne_gt.2 hab) (Ordering.isLE_iff_ne_gt.2 hbc)
    exact fun hgt => absurd hgt (Ordering.isLE_iff_ne_gt.1 hac)

/-- **The greatest element does not depend on the order**, if only equal elements tie. -/
theorem greatest_perm [TransCmp cmp] [LawfulEqCmp cmp] {xs ys : List α} (h : xs.Perm ys) :
    greatest cmp xs = greatest cmp ys := by
  refine h.foldl_eq' (fun x _ y _ best => ?_) none
  cases best with
  | none => exact congrArg some (greater_comm x y)
  | some b =>
    change some (greater cmp (greater cmp b x) y) = some (greater cmp (greater cmp b y) x)
    rw [greater_assoc, greater_assoc, greater_comm x y]

end Greatest

/-! ## Going through a universe -/

/-- an order of the records, of the roots, and of the language levels that a plugin counted -/
structure Traversal where
  records : List TargetRecord
  roots : List String
  levels : Plugin → List String

/-- each record, root and level is visited once -/
structure Traversal.Visits (o : Traversal) (u : Universe) : Prop where
  records : o.records.Perm u.records.values
  roots : o.roots.Perm u.roots.toList
  levels : ∀ p, (o.levels p).Perm (SortedSet.ofList (Plugin.levels u)).toList

namespace Plugin

/-- the language levels that records ask for -/
def levelsOf (rs : List TargetRecord) : List String :=
  rs.flatMap fun r => ((r.java.map (·.javacOpts)).map levelsIn).getD []

/-- a level is greater if it is named more often; of levels named equally often the smaller text is greater -/
def byVotes (votes : List String) : String → String → Ordering :=
  compareLex (compareOn votes.count) fun a b => compare b a

instance (votes : List String) : TransCmp (byVotes votes) :=
  have : TransCmp fun a b : String => compare b a := TransCmp.opposite
  inferInstanceAs (TransCmp (compareLex _ _))

instance (votes : List String) : LawfulEqCmp (byVotes votes) where
  eq_of_compare {a b} h := by
    have htext : compare b a = .eq := (compareLex_eq_eq.1 h).2
    exact (LawfulEqOrd.eq_of_compare htext).symm

/-- votes count the same in every order -/
theorem byVotes_perm {votes votes' : List String} (h : votes.Perm votes') : byVotes votes = byVotes votes' := by
  have hcount : votes.count = votes'.count := funext h.count_eq
  rw [byVotes, hcount, byVotes]

/-- of two levels the greater text wins iff it is named more often -/
theorem greater_byVotes {votes : List String} {a b : String} (h : compare a b = .lt) :
    greater (byVotes votes) a b = if votes.count a < votes.count b then b else a := by
  have hvotes : byVotes votes a b = (compare (votes.count a) (votes.count b)).then .gt := by
    rw [← OrientedCmp.gt_iff_lt.2 h]
    rfl
  have hlt : votes.count a < votes.count b ↔ compare (votes.count a) (votes.count b) = .lt := compare_lt_iff_lt.symm
  rw [greater, hvotes, if_congr hlt rfl rfl]
  cases compare (votes.count a) (votes.count b) <;> rfl

/-- going up, the smallest of the most frequent levels comes first and stays -/
theorem foldl_greater_byVotes (votes : List String) {xs : List String}
    (hxs : xs.Pairwise fun a b => compare a b = .lt) {best : Option String}
    (hbest : ∀ b ∈ best, ∀ x ∈ xs, compare b x = .lt) :
    xs.foldl (fun best x =>
        match best with
        | none => some x
        | some b => if votes.count b < votes.count x then some x else some b) best =
      xs.foldl (fun best x => some (best.elim x fun b => greater (byVotes votes) b x)) best := by
  induction xs generalizing best with
  | nil => rfl
  | cons x rest ih =>
    obtain ⟨hx, hrest⟩ := List.pairwise_cons.1 hxs
    rw [List.foldl_cons, List.foldl_cons]
    cases best with
    | none => exact ih hrest fun b hb => Option.some.inj hb ▸ hx
    | some b =>
      have hb := hbest b rfl
      dsimp only [Option.elim]
      rw [greater_byVotes (hb x List.mem_cons_self)]
      split_ifs
      · exact ih hrest fun c hc => Option.some.inj hc ▸ hx
      · exact ih hrest fun c hc y hy => Option.some.inj hc ▸ hb y (List.mem_cons_of_mem _ hy)

/-- **The vote goes to the greatest level**, by its number of votes. -/
theorem mostFrequent_eq_greatest (votes : List String) :
    mostFrequent votes = greatest (byVotes votes) (SortedSet.ofList votes).toList :=
  foldl_greater_byVotes votes (SortedSet.ofList votes).ascending (by simp)

/-- the language level that a plugin finds on its way -/
def levelInOrder (o : Traversal) (p : Plugin) : Option String := greatest (byVotes (levelsOf o.records)) (o.levels p)

/-- **Every traversal finds the level of the universe.** -/
theorem levelInOrder_eq {o : Traversal} {u : Universe} (h : o.Visits u) (p : Plugin) : levelInOrder o p = level u := by
  have hvotes : (levelsOf o.records).Perm (levels u) := h.records.flatMap_right _
  rw [levelInOrder, byVotes_perm hvotes, greatest_perm (h.levels p), ← mostFrequent_eq_greatest, level]

/-- the plugin after a look at the universe in an order of its own -/
def prepareInOrder (o : Traversal) : Plugin → Plugin
  | scala version => scala (levelInOrder o (scala version))
  | java version => java (levelInOrder o (java version))
  | p => p

theorem prepareInOrder_eq {o : Traversal} {u : Universe} (h : o.Visits u) : prepareInOrder o = prepare u := by
  funext p
  cases p <;> simp [prepareInOrder, prepare, levelInOrder_eq h]

end Plugin

namespace Mapping

variable {m : Mapping} {t : FileTree} {u : Universe} {view : ProjectView} {stop : Bool}

/-- the records of the roots as they are met, sorted by their ids -/
def selectedInOrder (u : Universe) (o : Traversal) : List TargetRecord :=
  (u.recordsAt o.roots).mergeSort fun a b => (compare a.id b.id).isLE

/-- **Sorting forgets the order of the roots.** -/
theorem selectedInOrder_eq (hk : u.Keyed) {o : Traversal} (ho : o.Visits u) : selectedInOrder u o = selected u := by
  have hperm : (selectedInOrder u o).Perm (selected u) := (List.mergeSort_perm _ _).trans (ho.roots.filterMap _)
  have htotal : ∀ a b : TargetRecord, ((compare a.id b.id).isLE || (compare b.id a.id).isLE) = true := by
    intro a b
    rw [OrientedOrd.eq_swap]
    cases compare b.id a.id <;> rfl
  have hsorted : (selectedInOrder u o).Pairwise fun a b => (compare a.id b.id).isLE = true :=
    List.pairwise_mergeSort (fun _ _ _ => TransCmp.isLE_trans) htotal _
  refine hperm.eq_of_pairwise ?_ hsorted ((hk.pairwise_recordsAt u.roots).imp fun h => by simp [h])
  intro a b ha hb hab hba
  have hid : a.id = b.id := LawfulEqOrd.eq_of_compare (OrientedCmp.isLE_antisymm hab hba)
  have hrecord := ((mem_selected_iff hk).1 (hperm.subset ha)).2
  rw [hid, ((mem_selected_iff hk).1 hb).2] at hrecord
  exact (Option.some.inj hrecord).symm

/-- the mapping after its plugins went through the universe -/
def prepareInOrder (m : Mapping) (o : Traversal) : Mapping :=
  { m with plugins := m.plugins.map (Plugin.prepareInOrder o) }

/-- the project of a universe that is gone through in this order -/
def createProjectInOrder (m : Mapping) (t : FileTree) (u : Universe) (o : Traversal) (view : ProjectView)
    (stop : Bool) : Except Error Project := do
  let m := m.prepareInOrder o
  check stop
  let (ms, stop) ← m.createModules t u stop (selectedInOrder u o)
  let ms ← m.mergeModules stop (ms.filter fun x => !x.hasTag .noIde)
  check stop
  return .ofModules m.roots.workspace (ms ++ m.placeholdersFor view ms)

theorem createProjectInOrder_eq (hk : u.Keyed) {o : Traversal} (ho : o.Visits u) :
    m.createProjectInOrder t u o view stop = m.createProject t u view stop := by
  have hprepare : m.prepareInOrder o = m.prepare u := by
    rw [prepareInOrder, Plugin.prepareInOrder_eq ho, prepare]
  rw [createProjectInOrder, hprepare, selectedInOrder_eq hk ho, createProject]

/-- **Order does not matter.** Lists of records with distinct ids that are permutations of each other, and roots that are
the same up to order and repetition, give the same project or fail in the same way; and so does every traversal of their
universe, whatever order it goes by. -/
theorem createProject_order_free {rs rs' : List TargetRecord} {roots roots' : List String}
    (hids : (rs.map (·.id)).Nodup) (hperm : rs'.Perm rs) (hroots : ∀ id, id ∈ roots' ↔ id ∈ roots) :
    m.createProject t (.ofLists rs' roots') view stop = m.createProject t (.ofLists rs roots) view stop ∧
      ∀ o : Traversal, o.Visits (.ofLists rs' roots') →
        m.createProjectInOrder t (.ofLists rs' roots') o view stop =
          m.createProject t (.ofLists rs roots) view stop := by
  have harrival := Universe.ofLists_congr hids hperm hroots
  refine ⟨by rw [harrival], fun o ho => ?_⟩
  rw [createProjectInOrder_eq (Universe.keyed_ofLists _ _) ho, harrival]

/-- a program and two libraries, of which two ask for different language levels -/
def tiedLevels : List TargetRecord :=
  [{ id := "//app:app", kind := "java_binary", dependencies := ["//lib:b", "//lib:a"],
     sources := [.source "app/Main.java"], java := some { javacOpts := ["--release", "17"] } },
   { id := "//lib:a", kind := "java_library", sources := [.source "lib/A.java"],
     java := some { javacOpts := ["-source", "11"] } },
   { id := "//lib:b", kind := "java_library", java := some { jars := [{ source := [.source "lib/b-src.jar"] }] } }]

/-- goes through everything backwards -/
def backwards : Traversal :=
  { records := tiedLevels.reverse, roots := ["//lib:a", "//app:app"], levels := fun _ => ["17", "11"] }

/-- whichever of the two levels comes first, the smaller one wins -/
theorem tiedLevels_order_free :
    (tiedLevels.map (·.id)).Nodup ∧ tiedLevels.reverse.Perm tiedLevels ∧
      (∀ id, id ∈ ["//lib:a", "//app:app", "//lib:a"] ↔ id ∈ ["//app:app", "//lib:a"]) ∧
      backwards.Visits (.ofLists tiedLevels.reverse ["//lib:a", "//app:app", "//lib:a"]) ∧
      Plugin.level (.ofLists tiedLevels ["//app:app", "//lib:a"]) = some "11" ∧
      partImport.createProject ⟨∅, []⟩ (.ofLists tiedLevels.reverse ["//lib:a", "//app:app", "//lib:a"]) .standard false =
        partImport.createProject ⟨∅, []⟩ (.ofLists tiedLevels ["//app:app", "//lib:a"]) .standard false ∧
      partImport.createProjectInOrder ⟨∅, []⟩ (.ofLists tiedLevels.reverse ["//lib:a", "//app:app", "//lib:a"]) backwards
          .standard false =
        partImport.createProject ⟨∅, []⟩ (.ofLists tiedLevels ["//app:app", "//lib:a"]) .standard false := by
  have hids : (tiedLevels.map (·.id)).Nodup := by decide
  have hperm : tiedLevels.reverse.Perm tiedLevels := List.reverse_perm _
  have hroots : ∀ id, id ∈ ["//lib:a", "//app:app", "//lib:a"] ↔ id ∈ ["//app:app", "//lib:a"] := by
    intro id
    simp only [List.mem_cons, List.not_mem_nil, or_false]
    tauto
  have hvisits : backwards.Visits (.ofLists tiedLevels.reverse ["//lib:a", "//app:app", "//lib:a"]) := by
    refine ⟨by decide, by decide, fun _ => ?_⟩
    change ["17", "11"].Perm _
    decide
  obtain ⟨harrival, htraversal⟩ :=
    @createProject_order_free partImport ⟨∅, []⟩ .standard false _ _ _ _ hids hperm hroots
  exact ⟨hids, hperm, hroots, hvisits, by decide, harrival, htraversal backwards hvisits⟩

end Mapping

end BuildImport
