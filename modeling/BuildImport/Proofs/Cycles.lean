/-
Merging and cycles of dependencies.

Merging drops the dependencies of a module on itself and looks no further. So modules that depend on each other without a
cycle may get one: two directories each of which has a module that depends on one of the other (`merge_closes_cycle`).
What decides is the graph of the directories, in which one depends on another if any of its modules does: `Crosses`.

- `Acyclic.comap`: a graph has no cycle if its edges correspond to those of a graph that has none.
- `directoryOf_of_mem_merge`, `same_iff_label_eq`: the modules of the result have the labels of their directories, so that
  labels tell directories apart.
- `dependsIn_iff_crosses`: the result depends as the directories do.

`acyclic_merge_iff`: no module of the result depends on itself, and the result has no cycle just if the directories have
none.
-/
import Mathlib.Tactic
import BuildImport.Proofs.PackageLabels
import BuildImport.Proofs.Quotient

namespace BuildImport

open Relation

/-! ## Graphs without cycles -/

/-- no way along edges leads back to where it starts -/
def Acyclic {α : Type} (edge : α → α → Prop) : Prop := ∀ a, ¬ TransGen edge a a

variable {α β : Type} {edge : α → α → Prop} {edge' : β → β → Prop} {corr : α → β → Prop} {rank : α → ℕ}

/-- a way between elements is one between those that correspond to them -/
theorem transGen_of_corresponds (hsource : ∀ a a', edge a a' → ∃ b, corr a b)
    (hedge : ∀ a a' b b', edge a a' → corr a b → corr a' b' → edge' b b') {a a' : α} {b b' : β}
    (hway : TransGen edge a a') (hb : corr a b) (hb' : corr a' b') : TransGen edge' b b' := by
  induction hway generalizing b' with
  | single he => exact .single (hedge _ _ _ _ he hb hb')
  | tail _ he ih =>
    obtain ⟨c, hc⟩ := hsource _ _ he
    exact (ih hc).tail (hedge _ _ _ _ he hc hb')

/-- **A graph that corresponds to one without cycles has none.** -/
theorem Acyclic.comap (corr : α → β → Prop) (h : Acyclic edge') (hsource : ∀ a a', edge a a' → ∃ b, corr a b)
    (hedge : ∀ a a' b b', edge a a' → corr a b → corr a' b' → edge' b b') : Acyclic edge := by
  intro a hcycle
  obtain ⟨a', haa', -⟩ := TransGen.head'_iff.1 hcycle
  obtain ⟨b, hb⟩ := hsource a a' haa'
  exact h b (transGen_of_corresponds hsource hedge hcycle hb hb)

theorem rank_lt_of_transGen (h : ∀ a a', edge a a' → rank a' < rank a) {a a' : α} (hway : TransGen edge a a') :
    rank a' < rank a := by
  induction hway with
  | single he => exact h _ _ he
  | tail _ he ih => exact (h _ _ he).trans ih

/-- a rank that falls along every edge rules out cycles -/
theorem acyclic_of_rank (rank : α → ℕ) (h : ∀ a a', edge a a' → rank a' < rank a) : Acyclic edge := by
  intro a hcycle
  exact lt_irrefl _ (rank_lt_of_transGen h hcycle)

namespace Merging

open BuildImport.Path

/-! ## Dependencies between modules and between directories -/

/-- one listed module has a direct dependency on another -/
def DependsIn (ms : List Module) (x y : Module) : Prop := x ∈ ms ∧ y ∈ ms ∧ y.label ∈ x.dependencies

/-- the label leads to the directory of `y`: it is that of a module there, or, if no listed module has it, the one that
the modules there get -/
def LeadsTo (ms : List Module) (l : Label) (y : Module) : Prop :=
  (∃ z ∈ inDirectory ms y.baseDirectory, z.label = l) ∨ (∀ z ∈ ms, z.label ≠ l) ∧ l = quotient ms y.label

/-- the directory of `x` depends on that of `y`, which is another one: a module there has a dependency that leads there -/
def Crosses (ms : List Module) (x y : Module) : Prop :=
  x ∈ ms ∧ y ∈ ms ∧ x.baseDirectory.same y.baseDirectory = false ∧
    ∃ z ∈ inDirectory ms x.baseDirectory, ∃ l ∈ z.dependencies, LeadsTo ms l y

/-! ## Labels and directories of the result -/

section

variable {r : Roots} {ignored : List String} {ms out : List Module}

theorem Folds.directoryOf_eq {g : List Module} {n : Module} (h : Folds ignored g n)
    (hg : ∀ x ∈ g, r.directoryOf x.label = .ok x.baseDirectory) : r.directoryOf n.label = .ok n.baseDirectory := by
  rcases folds_iff.1 h with rfl | ⟨head, second, rest, payload, rfl, -, rfl⟩
  · exact hg n List.mem_cons_self
  · exact Roots.directoryOf_withName (hg head List.mem_cons_self) (by decide)

/-- merged modules, too, stand in the directories that their labels name -/
theorem directoryOf_of_mem_merge (hdir : ∀ x ∈ ms, r.directoryOf x.label = .ok x.baseDirectory)
    (h : merge ignored ms = .ok out) {o : Module} (ho : o ∈ out) : r.directoryOf o.label = .ok o.baseDirectory := by
  obtain ⟨g, hg, n, hn, rfl⟩ := exists_folds_of_mem h ho
  exact hn.directoryOf_eq (r := r) fun x hx => hdir x (mem_of_mem_group hg hx)

theorem exists_member (h : merge ignored ms = .ok out) {o : Module} (ho : o ∈ out) : ∃ x, x ∈ members ms o := by
  obtain ⟨g, hg, n, hn, rfl⟩ := exists_folds_of_mem h ho
  have hmembers : members ms (redirect (renamingTable ms) n) = g := hn.inDirectory_eq hg
  rw [hmembers]
  exact List.exists_mem_of_ne_nil _ (group_ne_nil hg)

/-- modules of the result with members in one directory have one label, and others have others -/
theorem same_iff_label_eq (hd : (ms.map (·.label)).Nodup) (hdir : ∀ x ∈ ms, r.directoryOf x.label = .ok x.baseDirectory)
    (h : merge ignored ms = .ok out) {o o' x y : Module} (ho : o ∈ out) (ho' : o' ∈ out) (hx : x ∈ members ms o)
    (hy : y ∈ members ms o') : x.baseDirectory.same y.baseDirectory = true ↔ o.label = o'.label := by
  have hxo := (mem_inDirectory.1 hx).2
  have hyo' := (mem_inDirectory.1 hy).2
  constructor
  · intro hs
    have hxo' : x ∈ members ms o' := mem_inDirectory.2 ⟨(mem_inDirectory.1 hx).1, same_trans hs hyo'⟩
    exact ((merged_module hd h ho).1 x hx).symm.trans ((merged_module hd h ho').1 x hxo')
  · intro hl
    have hb : o.baseDirectory = o'.baseDirectory := by
      have hob := directoryOf_of_mem_merge hdir h ho
      rw [hl, directoryOf_of_mem_merge hdir h ho'] at hob
      exact (Except.ok.inj hob).symm
    exact same_trans hxo (hb ▸ same_symm hyo')

/-- what leads to the directory of a member is what becomes the label of its module -/
theorem leadsTo_iff (hd : (ms.map (·.label)).Nodup) (hdir : ∀ x ∈ ms, r.directoryOf x.label = .ok x.baseDirectory)
    (h : merge ignored ms = .ok out) {o y : Module} (ho : o ∈ out) (hy : y ∈ members ms o) (l : Label) :
    LeadsTo ms l y ↔ quotient ms l = o.label := by
  have hyo : quotient ms y.label = o.label := (merged_module hd h ho).1 y hy
  have hsame : inDirectory ms y.baseDirectory = members ms o := inDirectory_congr (mem_inDirectory.1 hy).2 ms
  unfold LeadsTo
  rw [hyo, hsame]
  constructor
  · rintro (⟨z, hz, rfl⟩ | ⟨hunlisted, rfl⟩)
    · exact (merged_module hd h ho).1 z hz
    · exact quotient_of_unlisted hunlisted
  · intro hl
    by_cases hlisted : ∃ z ∈ ms, z.label = l
    · obtain ⟨z, hz, rfl⟩ := hlisted
      obtain ⟨t, ht, hzt⟩ := exists_merged_module h hz
      have hto : t.label = o.label := ((merged_module hd h ht).1 z hzt).symm.trans hl
      have hzy : z.baseDirectory.same y.baseDirectory = true := (same_iff_label_eq hd hdir h ht ho hzt hy).2 hto
      exact .inl ⟨z, mem_inDirectory.2 ⟨hz, same_trans hzy (mem_inDirectory.1 hy).2⟩, rfl⟩
    · push Not at hlisted
      exact .inr ⟨hlisted, (quotient_of_unlisted hlisted).symm.trans hl⟩

theorem mem_dependencies_iff (hd : (ms.map (·.label)).Nodup) (h : merge ignored ms = .ok out) {o : Module} (ho : o ∈ out)
    {l : Label} :
    l ∈ o.dependencies ↔ l ≠ o.label ∧ ∃ z ∈ members ms o, ∃ l' ∈ z.dependencies, quotient ms l' = l := by
  rw [(merged_module hd h ho).2, List.mem_eraseDups, List.mem_filter, images, List.map_flatMap, List.mem_flatMap,
    and_comm]
  simp only [List.mem_map, decide_eq_true_eq]

/-- **The result depends as the directories do.** -/
theorem dependsIn_iff_crosses (hd : (ms.map (·.label)).Nodup)
    (hdir : ∀ x ∈ ms, r.directoryOf x.label = .ok x.baseDirectory) (h : merge ignored ms = .ok out) {o o' x y : Module}
    (ho : o ∈ out) (ho' : o' ∈ out) (hx : x ∈ members ms o) (hy : y ∈ members ms o') :
    DependsIn out o o' ↔ Crosses ms x y := by
  have hother : x.baseDirectory.same y.baseDirectory = false ↔ o'.label ≠ o.label := by
    rw [← Bool.not_eq_true, same_iff_label_eq hd hdir h ho ho' hx hy, ne_comm]
  have hsame : inDirectory ms x.baseDirectory = members ms o := inDirectory_congr (mem_inDirectory.1 hx).2 ms
  unfold DependsIn Crosses
  simp only [mem_dependencies_iff hd h ho, hother, hsame, leadsTo_iff hd hdir h ho' hy, ho, ho', (mem_inDirectory.1 hx).1,
    (mem_inDirectory.1 hy).1, true_and]

/-! ## Cycles -/

/-- **When the result has no cycle.** If modules have distinct labels and stand in the directories that these name, no
module of the result depends on itself; and the result has no cycle of dependencies just if the directories have none. -/
theorem acyclic_merge_iff (hd : (ms.map (·.label)).Nodup)
    (hdir : ∀ x ∈ ms, r.directoryOf x.label = .ok x.baseDirectory) (h : merge ignored ms = .ok out) :
    (∀ o ∈ out, o.label ∉ o.dependencies) ∧ (Acyclic (DependsIn out) ↔ Acyclic (Crosses ms)) := by
  refine ⟨fun o ho hself => ?_, fun hout => ?_, fun hms => ?_⟩
  · exact ((mem_dependencies_iff hd h ho).1 hself).1 rfl
  · refine hout.comap (fun x o => o ∈ out ∧ x ∈ members ms o) ?_ ?_
    · rintro x y ⟨hx, -⟩
      exact exists_merged_module h hx
    · rintro x y o o' hxy ⟨ho, hx⟩ ⟨ho', hy⟩
      exact (dependsIn_iff_crosses hd hdir h ho ho' hx hy).2 hxy
  · refine hms.comap (fun o x => o ∈ out ∧ x ∈ members ms o) ?_ ?_
    · rintro o o' ⟨ho, -⟩
      obtain ⟨x, hx⟩ := exists_member h ho
      exact ⟨x, ho, hx⟩
    · rintro o o' x y hoo' ⟨ho, hx⟩ ⟨ho', hy⟩
      exact (dependsIn_iff_crosses hd hdir h ho ho' hx hy).1 hoo'

end

/-- Two directories of two modules; in each one module depends on the other directory, and the other is depended on. -/
def entangled : List Module :=
  [{ label := ⟨"//a:w"⟩, baseDirectory := ⟨"/ws/a"⟩ },
   { label := ⟨"//a:x"⟩, baseDirectory := ⟨"/ws/a"⟩, dependencies := [⟨"//b:y"⟩] },
   { label := ⟨"//b:y"⟩, baseDirectory := ⟨"/ws/b"⟩ },
   { label := ⟨"//b:z"⟩, baseDirectory := ⟨"/ws/b"⟩, dependencies := [⟨"//a:w"⟩] }]

theorem nodup_entangled : (entangled.map (·.label)).Nodup := by decide

theorem directoryOf_entangled :
    ∀ x ∈ entangled, Roots.directoryOf ⟨⟨"/ws"⟩, ⟨"/exec"⟩⟩ x.label = .ok x.baseDirectory := by
  decide

/-- once they are merged, the two directories depend on each other -/
theorem exists_merge_entangled : ∃ out, merge [] entangled = .ok out ∧ ¬ Acyclic (DependsIn out) := by
  obtain ⟨out, hout, o, ho, o', ho', hthere, hback⟩ : ∃ out, merge [] entangled = .ok out ∧
      ∃ o ∈ out, ∃ o' ∈ out, o'.label ∈ o.dependencies ∧ o.label ∈ o'.dependencies := ⟨_, rfl, by decide⟩
  exact ⟨out, hout, fun h => h o (.tail (.single ⟨ho, ho', hthere⟩) ⟨ho', ho, hback⟩)⟩

/-- merging gives modules without a cycle one -/
theorem merge_closes_cycle :
    (entangled.map (·.label)).Nodup ∧
    (∀ x ∈ entangled, Roots.directoryOf ⟨⟨"/ws"⟩, ⟨"/exec"⟩⟩ x.label = .ok x.baseDirectory) ∧
    Acyclic (DependsIn entangled) ∧ ∃ out, merge [] entangled = .ok out ∧ ¬ Acyclic (DependsIn out) := by
  refine ⟨nodup_entangled, directoryOf_entangled, ?_, exists_merge_entangled⟩
  -- the two modules that depend on others are not themselves depended on
  have hfalls : ∀ x ∈ entangled, ∀ y ∈ entangled, y.label ∈ x.dependencies →
      y.dependencies.length < x.dependencies.length := by decide
  exact acyclic_of_rank (·.dependencies.length) fun x y ⟨hx, hy, hxy⟩ => hfalls x hx y hy hxy

/-- the directories of `entangled` have a cycle, and so has what they are merged to, though not of one module -/
theorem entangled_crosses :
    ∃ out, merge [] entangled = .ok out ∧ (∀ o ∈ out, o.label ∉ o.dependencies) ∧ ¬ Acyclic (Crosses entangled) := by
  obtain ⟨out, hout, hcycle⟩ := exists_merge_entangled
  obtain ⟨hself, hiff⟩ := acyclic_merge_iff nodup_entangled directoryOf_entangled hout
  exact ⟨out, hout, hself, fun h => hcycle (hiff.2 h)⟩

end Merging

end BuildImport
