/-
Merging as a quotient of the dependency graph.

The nodes of the graph are labels. `quotient ms` sends the label of a module that shares its directory to the merged label
of that directory and leaves all other labels, those of no listed module among them. The merger computes it from a table
of renamings which it fills group by group (`rename_eq_quotient`), and drops repeated dependencies twice, before and after
renaming; once is the same (`eraseDups_filter_map_eraseDups`).

`merge_takes_quotient`: the dependencies of a module of the result are the images of the dependencies of its members,
itself left out, each once and in the order in which they first appear; an image of a listed module is a label of the
result.
-/
import Mathlib.Tactic
import BuildImport.Proofs.Grouping
import BuildImport.Proofs.Membership

namespace BuildImport.Merging

open BuildImport.Path

/-! ## First occurrences -/

theorem filter_map_filter_ne {α β : Type} [BEq α] [LawfulBEq α] {f : α → β} {p : β → Bool} {x : α}
    (hx : p (f x) = false) (xs : List α) : ((xs.filter fun y => !y == x).map f).filter p = (xs.map f).filter p := by
  rw [List.filter_map, List.filter_map, List.filter_filter]
  congr 1
  apply List.filter_congr
  intro y _
  by_cases hy : y = x
  · simp [hy, hx]
  · simp [hy]

/-- dropping repeated elements before a list is mapped and filtered is no gain if they are dropped afterwards -/
theorem eraseDups_filter_map_eraseDups {α β : Type} [BEq α] [LawfulBEq α] [BEq β] [LawfulBEq β] (f : α → β)
    (p : β → Bool) (xs : List α) : ((xs.eraseDups.map f).filter p).eraseDups = ((xs.map f).filter p).eraseDups := by
  match xs with
  | [] => rfl
  | x :: rest =>
    rw [List.eraseDups_cons, List.map_cons, List.map_cons]
    cases hp : p (f x) with
    | false =>
      rw [List.filter_cons_of_neg (by simp [hp]), List.filter_cons_of_neg (by simp [hp]),
        eraseDups_filter_map_eraseDups f p, filter_map_filter_ne hp]
    | true =>
      rw [List.filter_cons_of_pos hp, List.filter_cons_of_pos hp, List.eraseDups_cons, List.eraseDups_cons,
        List.filter_filter, List.filter_filter, eraseDups_filter_map_eraseDups f, filter_map_filter_ne (by simp)]
termination_by xs.length
decreasing_by all_goals exact Nat.lt_succ_of_le (List.length_filter_le _ _)

/-- what is left of repeated elements stands in the order of first occurrences -/
theorem pairwise_idxOf_eraseDups {α : Type} [BEq α] [LawfulBEq α] (p : α → Bool) (xs : List α) :
    (xs.filter p).eraseDups.Pairwise fun a b => xs.idxOf a < xs.idxOf b := by
  induction xs generalizing p with
  | nil => exact .nil
  | cons x xs ih =>
    -- whatever differs from the head comes one place later than in the tail
    have hshift : ∀ q : α → Bool, q x = false →
        (xs.filter q).eraseDups.Pairwise fun a b => (x :: xs).idxOf a < (x :: xs).idxOf b := by
      intro q hq
      apply (ih q).imp_of_mem
      intro a b ha hb hab
      have hne : ∀ c ∈ (xs.filter q).eraseDups, x ≠ c := by
        rintro c hc rfl
        have := List.of_mem_filter (List.mem_eraseDups.1 hc)
        simp [hq] at this
      rw [List.idxOf_cons_ne _ (hne a ha), List.idxOf_cons_ne _ (hne b hb)]
      exact Nat.succ_lt_succ hab
    cases hp : p x with
    | false =>
      rw [List.filter_cons_of_neg (by simp [hp])]
      exact hshift p hp
    | true =>
      rw [List.filter_cons_of_pos hp, List.eraseDups_cons, List.filter_filter]
      have hhead : ∀ a ∈ (xs.filter fun b => !b == x && p b).eraseDups, (x :: xs).idxOf x < (x :: xs).idxOf a := by
        intro a ha
        have hne : x ≠ a := by
          rintro rfl
          have := List.of_mem_filter (List.mem_eraseDups.1 ha)
          simp at this
        rw [List.idxOf_cons_self, List.idxOf_cons_ne _ hne]
        exact Nat.succ_pos _
      exact List.pairwise_cons.2 ⟨hhead, hshift _ (by simp)⟩

/-! ## The quotient -/

/-- the label that stands for `l` once the modules of each directory are one -/
def quotient (ms : List Module) (l : Label) : Label :=
  match ms.find? fun m => m.label == l with
  | some m => labelOf (inDirectory ms m.baseDirectory) l
  | none => l

theorem quotient_of_mem {ms : List Module} (hd : (ms.map (·.label)).Nodup) {m : Module} (hm : m ∈ ms) :
    quotient ms m.label = labelOf (inDirectory ms m.baseDirectory) m.label := by
  unfold quotient
  rw [find?_of_nodup hd hm]

theorem quotient_of_unlisted {ms : List Module} {l : Label} (h : ∀ m ∈ ms, m.label ≠ l) : quotient ms l = l := by
  unfold quotient
  rw [List.find?_eq_none.2 fun m hm => by simp [h m hm]]

/-- a renaming of a group takes a member to the label of the group's module -/
theorem mem_renamings {g : List Module} {l k : Label} (h : (l, k) ∈ renamings g) :
    ∃ m ∈ g, m.label = l ∧ k = labelOf g l := by
  match g with
  | [] => simp [renamings] at h
  | [m] => simp [renamings] at h
  | head :: second :: rest =>
    obtain ⟨m, hm, he⟩ := List.mem_map.1 h
    obtain ⟨hl, hk⟩ := Prod.mk.inj he
    exact ⟨m, hm, hl, hk.symm⟩

/-- a group without a renaming for its member is that member alone -/
theorem labelOf_of_not_mem {g : List Module} {m : Module} (hm : m ∈ g) (h : ∀ k, (m.label, k) ∉ renamings g) :
    labelOf g m.label = m.label := by
  match g with
  | [] => rfl
  | [_] => rfl
  | head :: second :: rest =>
    have hk : (m.label, head.label.withName mergedName) ∈ renamings (head :: second :: rest) :=
      List.mem_map.2 ⟨m, hm, rfl⟩
    exact absurd hk (h _)

theorem lookup_reverse_eq_some {table : List (Label × Label)} {l k : Label} (hm : (l, k) ∈ table)
    (hf : ∀ k', (l, k') ∈ table → k' = k) : table.reverse.lookup l = some k := by
  cases h : table.reverse.lookup l with
  | none =>
    have := List.lookup_eq_none_iff.1 h _ (List.mem_reverse.2 hm)
    simp at this
  | some k' =>
    obtain ⟨front, back, he, -⟩ := List.lookup_eq_some_iff.1 h
    have : (l, k') ∈ table := List.mem_reverse.1 (by rw [he]; simp)
    rw [hf k' this]

/-- the renamings of a listed module are those of its group, all to one label -/
theorem mem_renamingTable_iff {ms : List Module} (hd : (ms.map (·.label)).Nodup) {m : Module} (hm : m ∈ ms)
    {k : Label} :
    (m.label, k) ∈ renamingTable ms ↔ (m.label, k) ∈ renamings (inDirectory ms m.baseDirectory) := by
  unfold renamingTable
  rw [List.mem_flatMap]
  constructor
  · rintro ⟨g, hg, hk⟩
    obtain ⟨n, hn, hl, -⟩ := mem_renamings hk
    obtain rfl : n = m := List.inj_on_of_nodup_map hd (mem_of_mem_group hg hn) hm hl
    rwa [← eq_inDirectory_of_mem hg hn]
  · intro hk
    exact ⟨_, mem_groups_iff.2 ⟨m, hm, rfl⟩, hk⟩

/-- **The table of renamings is the quotient.** -/
theorem rename_eq_quotient {ms : List Module} (hd : (ms.map (·.label)).Nodup) (l : Label) :
    rename (renamingTable ms) l = quotient ms l := by
  unfold rename
  by_cases hl : ∃ m ∈ ms, m.label = l
  · obtain ⟨m, hm, rfl⟩ := hl
    rw [quotient_of_mem hd hm]
    by_cases hk : ∃ k, (m.label, k) ∈ renamings (inDirectory ms m.baseDirectory)
    · obtain ⟨k, hk⟩ := hk
      obtain ⟨-, -, -, he⟩ := mem_renamings hk
      rw [lookup_reverse_eq_some ((mem_renamingTable_iff hd hm).2 hk), he]
      · rfl
      · intro k' hk'
        obtain ⟨-, -, -, he'⟩ := mem_renamings ((mem_renamingTable_iff hd hm).1 hk')
        rw [he, he']
    · have hnone : (renamingTable ms).reverse.lookup m.label = none := by
        rw [List.lookup_eq_none_iff]
        rintro ⟨l', k⟩ hk'
        rw [bne_iff_ne]
        rintro rfl
        exact hk ⟨k, (mem_renamingTable_iff hd hm).1 (List.mem_reverse.1 hk')⟩
      rw [hnone, labelOf_of_not_mem (mem_inDirectory.2 ⟨hm, same_refl _⟩) fun k h => hk ⟨k, h⟩]
      rfl
  · push Not at hl
    have hnone : (renamingTable ms).reverse.lookup l = none := by
      rw [List.lookup_eq_none_iff]
      rintro ⟨l', k⟩ hk
      obtain ⟨g, hg, hk⟩ := List.mem_flatMap.1 (List.mem_reverse.1 hk)
      obtain ⟨m, hm, hl', -⟩ := mem_renamings hk
      rw [bne_iff_ne]
      rintro rfl
      exact hl m (mem_of_mem_group hg hm) hl'
    rw [hnone, quotient_of_unlisted hl]
    rfl

/-! ## Dependencies of the result -/

/-- the listed modules that a module of the result stands for: all of its directory -/
def members (ms : List Module) (o : Module) : List Module := inDirectory ms o.baseDirectory

/-- the images of all dependencies of these members, as they come -/
def images (ms : List Module) (o : Module) : List Label :=
  ((members ms o).flatMap (·.dependencies)).map (quotient ms)

theorem Folds.redirected_dependencies {ignored : List String} {g : List Module} {n : Module} (h : Folds ignored g n)
    (f : Label → Label) (p : Label → Bool) :
    ((n.dependencies.map f).filter p).eraseDups = (((g.flatMap (·.dependencies)).map f).filter p).eraseDups := by
  rcases folds_iff.1 h with rfl | ⟨head, second, rest, payload, rfl, -, rfl⟩
  · simp
  · exact eraseDups_filter_map_eraseDups f p _

/-- a module of the result has its label, its members and their redirected dependencies from its group -/
theorem merged_module {ignored : List String} {ms out : List Module} (hd : (ms.map (·.label)).Nodup)
    (h : merge ignored ms = .ok out) {o : Module} (ho : o ∈ out) :
    (∀ m ∈ members ms o, quotient ms m.label = o.label) ∧
      o.dependencies = ((images ms o).filter (· ≠ o.label)).eraseDups := by
  obtain ⟨g, hg, n, hf, rfl⟩ := exists_folds_of_mem h ho
  have hmembers : members ms (redirect (renamingTable ms) n) = g := hf.inDirectory_eq hg
  constructor
  · intro m hm
    rw [hmembers] at hm
    rw [quotient_of_mem hd (mem_of_mem_group hg hm), ← eq_inDirectory_of_mem hg hm]
    exact (hf.label_eq hm).symm
  · have hrename : rename (renamingTable ms) = quotient ms := funext (rename_eq_quotient hd)
    change ((n.dependencies.map (rename (renamingTable ms))).filter (· ≠ n.label)).eraseDups = _
    rw [images, hmembers, hrename]
    exact hf.redirected_dependencies _ _

theorem exists_merged_module {ignored : List String} {ms out : List Module} (h : merge ignored ms = .ok out)
    {m : Module} (hm : m ∈ ms) : ∃ o ∈ out, m ∈ members ms o := by
  obtain ⟨g, hg, hmg⟩ := exists_group hm
  obtain ⟨n, hf, hout⟩ := exists_mem_of_group h hg
  exact ⟨_, hout, by rw [members]; exact (hf.inDirectory_eq hg).symm ▸ hmg⟩

/-- **Merging takes the quotient of the dependency graph.** Every listed module is a member of a module of the result,
and the quotient sends it there. The dependencies of a module of the result are the images of its members'
dependencies, other than itself: each once, in the order in which they first appear among the members, and with a module
behind each one that is the image of a listed module. -/
theorem merge_takes_quotient {ignored : List String} {ms out : List Module} (hd : (ms.map (·.label)).Nodup)
    (h : merge ignored ms = .ok out) :
    (∀ m ∈ ms, ∃ o ∈ out, m ∈ members ms o) ∧
    ∀ o ∈ out,
      (∀ m ∈ members ms o, quotient ms m.label = o.label) ∧
      (∀ l, l ∈ o.dependencies ↔ l ≠ o.label ∧ ∃ m ∈ members ms o, ∃ d ∈ m.dependencies, quotient ms d = l) ∧
      o.dependencies.Nodup ∧
      (o.dependencies.Pairwise fun a b => (images ms o).idxOf a < (images ms o).idxOf b) ∧
      ∀ m ∈ members ms o, ∀ d ∈ m.dependencies, (∃ n ∈ ms, n.label = d) → ∃ t ∈ out, t.label = quotient ms d := by
  refine ⟨fun m hm => exists_merged_module h hm, ?_⟩
  intro o ho
  obtain ⟨hlabel, hdeps⟩ := merged_module hd h ho
  have horder := pairwise_idxOf_eraseDups (fun l => decide (l ≠ o.label)) (images ms o)
  refine ⟨hlabel, ?_, ?_, ?_, ?_⟩
  · intro l
    rw [hdeps, List.mem_eraseDups, List.mem_filter]
    simp only [images, List.mem_map, List.mem_flatMap, decide_eq_true_eq]
    constructor
    · rintro ⟨⟨d, ⟨m, hm, hmd⟩, rfl⟩, hne⟩
      exact ⟨hne, m, hm, d, hmd, rfl⟩
    · rintro ⟨hne, m, hm, d, hmd, rfl⟩
      exact ⟨⟨d, ⟨m, hm, hmd⟩, rfl⟩, hne⟩
  · rw [hdeps]
    exact horder.imp fun hlt he => absurd (he ▸ hlt) (lt_irrefl _)
  · rw [hdeps]
    exact horder
  · rintro m - d - ⟨n, hn, rfl⟩
    obtain ⟨t, ht, hnt⟩ := exists_merged_module h hn
    exact ⟨t, ht, ((merged_module hd h ht).1 n hnt).symm⟩

/-- A library and its tests, in two spellings of one directory, that use each other and a program elsewhere. -/
def siblings : List Module :=
  [{ label := ⟨"//lib:lib"⟩, baseDirectory := ⟨"/ws/lib"⟩, dependencies := [⟨"//lib:tests"⟩, ⟨"//gone:gone"⟩] },
   { label := ⟨"//app:app"⟩, baseDirectory := ⟨"/ws/app"⟩, dependencies := [⟨"//lib:tests"⟩, ⟨"//lib:lib"⟩] },
   { label := ⟨"//lib:tests"⟩, baseDirectory := ⟨"/ws//lib/"⟩, dependencies := [⟨"//lib:lib"⟩, ⟨"//app:app"⟩] }]

/-- the quotient of `siblings` is taken -/
theorem siblings_merged :
    ∃ out, (siblings.map (·.label)).Nodup ∧ merge [] siblings = .ok out ∧
      (∀ m ∈ siblings, ∃ o ∈ out, m ∈ members siblings o) ∧
      ∀ o ∈ out,
        (∀ m ∈ members siblings o, quotient siblings m.label = o.label) ∧
        (∀ l, l ∈ o.dependencies ↔
          l ≠ o.label ∧ ∃ m ∈ members siblings o, ∃ d ∈ m.dependencies, quotient siblings d = l) ∧
        o.dependencies.Nodup ∧
        (o.dependencies.Pairwise fun a b => (images siblings o).idxOf a < (images siblings o).idxOf b) ∧
        ∀ m ∈ members siblings o, ∀ d ∈ m.dependencies, (∃ n ∈ siblings, n.label = d) →
          ∃ t ∈ out, t.label = quotient siblings d := by
  have hd : (siblings.map (·.label)).Nodup := by decide
  obtain ⟨out, hm⟩ : ∃ out, merge [] siblings = .ok out := ⟨_, rfl⟩
  exact ⟨out, hd, hm, merge_takes_quotient hd hm⟩

end BuildImport.Merging
