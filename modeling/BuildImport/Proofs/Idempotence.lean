/-
Merging again.

What merging gives has nothing left to merge: every module is alone in its directory, none depends on itself, and none
lists a dependency twice. `Merged` names this, and it is all that a further merging could change: whatever roots it is to
ignore, it forms groups of one module each (`groups_of_apart`), has no label to rename, and finds no dependency to drop
(`redirect_nil`). So the merged lists are those that merging gives back as they are (`merge_eq_self_iff`).

`merge_again`: the result of merging is one of them.
-/
import Mathlib.Tactic
import BuildImport.Proofs.Identity
import BuildImport.Proofs.Quotient

namespace BuildImport.Merging

/-- nothing is left to merge -/
structure Merged (ms : List Module) : Prop where
  apart : ms.Pairwise fun x y => x.baseDirectory.same y.baseDirectory = false
  irreflexive : ∀ m ∈ ms, m.label ∉ m.dependencies
  nodup : ∀ m ∈ ms, m.dependencies.Nodup

/-! ## Dependencies -/

theorem nodup_eraseDups_filter {α : Type} [BEq α] [LawfulBEq α] (p : α → Bool) (xs : List α) :
    (xs.filter p).eraseDups.Nodup :=
  (pairwise_idxOf_eraseDups p xs).imp fun hlt he => absurd (he ▸ hlt) (lt_irrefl _)

theorem eraseDups_of_nodup {α : Type} [BEq α] [LawfulBEq α] {xs : List α} (h : xs.Nodup) : xs.eraseDups = xs := by
  induction xs with
  | nil => rfl
  | cons x xs ih =>
    obtain ⟨hx, hxs⟩ := List.nodup_cons.1 h
    have hfilter : (xs.filter fun y => !y == x) = xs := by
      apply List.filter_eq_self.2
      intro y hy
      have hne : y ≠ x := fun he => hx (he ▸ hy)
      simp [hne]
    rw [List.eraseDups_cons, hfilter, ih hxs]

/-- whatever is renamed, no dependency on the module itself is left, and none comes twice -/
theorem redirect_spec (table : List (Label × Label)) (m : Module) :
    (redirect table m).label ∉ (redirect table m).dependencies ∧ (redirect table m).dependencies.Nodup := by
  refine ⟨fun hself => ?_, nodup_eraseDups_filter _ _⟩
  have hne := (List.mem_filter.1 (List.mem_eraseDups.1 hself)).2
  exact absurd rfl (of_decide_eq_true hne)

/-- where nothing is renamed, such dependencies stay as they are -/
theorem redirect_nil {m : Module} (hself : m.label ∉ m.dependencies) (hnodup : m.dependencies.Nodup) :
    redirect [] m = m := by
  have hrename : m.dependencies.map (rename []) = m.dependencies := List.map_id _
  have hkeep : (m.dependencies.filter fun l => decide (l ≠ m.label)) = m.dependencies := by
    apply List.filter_eq_self.2
    intro l hl
    exact decide_eq_true fun he => hself (he ▸ hl)
  rw [redirect, hrename, hkeep, eraseDups_of_nodup hnodup]

/-! ## Groups of one module -/

theorem groups_of_apart {ms : List Module} (h : ms.Pairwise fun x y => x.baseDirectory.same y.baseDirectory = false) :
    groups ms = ms.map fun m => [m] := by
  induction ms with
  | nil => rfl
  | cons m rest ih =>
    obtain ⟨hm, hrest⟩ := List.pairwise_cons.1 h
    have hother : ∀ n ∈ rest, n.baseDirectory.same m.baseDirectory = false := by
      intro n hn
      rw [← Bool.not_eq_true]
      intro hs
      have hno := hm n hn
      simp [Path.same_symm hs] at hno
    have halone : inDirectory rest m.baseDirectory = [] :=
      List.filter_eq_nil_iff.2 fun n hn => by simp [hother n hn]
    have hall : elsewhere m rest = rest := List.filter_eq_self.2 fun n hn => by simp [hother n hn]
    rw [groups_cons, halone, hall, ih hrest, List.map_cons]

theorem renamingTable_of_apart {ms : List Module}
    (h : ms.Pairwise fun x y => x.baseDirectory.same y.baseDirectory = false) : renamingTable ms = [] := by
  rw [renamingTable, groups_of_apart h, List.flatMap_map]
  exact List.flatMap_eq_nil_iff.2 fun m _ => rfl

/-! ## What is merged -/

theorem merged_of_merge {ignored : List String} {ms out : List Module} (h : merge ignored ms = .ok out) : Merged out := by
  have hredirected : ∀ o ∈ out, o.label ∉ o.dependencies ∧ o.dependencies.Nodup := by
    intro o ho
    obtain ⟨g, -, n, -, rfl⟩ := exists_folds_of_mem h ho
    exact redirect_spec _ n
  exact ⟨pairwise_directories_of_merge h, fun o ho => (hredirected o ho).1, fun o ho => (hredirected o ho).2⟩

theorem Merged.merge_eq {ms : List Module} (hm : Merged ms) (ignored : List String) : merge ignored ms = .ok ms := by
  rw [merge_eq_ok_iff, groups_of_apart hm.apart, renamingTable_of_apart hm.apart]
  have hfolds : List.Forall₂ (Folds ignored) (ms.map fun m => [m]) ms := by
    rw [List.forall₂_map_left_iff, List.forall₂_same]
    exact fun m _ => folds_iff.2 (.inl rfl)
  have hkeep : ms.map (redirect []) = ms := by
    have hsame : ∀ m ∈ ms, redirect [] m = m := fun m hmem => redirect_nil (hm.irreflexive m hmem) (hm.nodup m hmem)
    rw [List.map_congr_left hsame, List.map_id']
  exact ⟨ms, hfolds, hkeep.symm⟩

/-- **Merging leaves a list as it is** just if nothing is left to merge, whatever it ignores. -/
theorem merge_eq_self_iff {ignored : List String} {ms : List Module} : merge ignored ms = .ok ms ↔ Merged ms :=
  ⟨merged_of_merge, fun hm => hm.merge_eq ignored⟩

/-- **Merging again changes nothing.** What merging gives is given back as it is, dependencies included, whatever roots
are ignored the second time. -/
theorem merge_again {ignored : List String} {ms out : List Module} (h : merge ignored ms = .ok out)
    (ignored' : List String) : merge ignored' out = .ok out :=
  merge_eq_self_iff.2 (merged_of_merge h)

/-- the modules of `siblings`, merged twice, the second time ignoring what the first time counted -/
theorem siblings_merged_again :
    ∃ out, merge [] siblings = .ok out ∧ out.length < siblings.length ∧ merge ["lib", "app"] out = .ok out := by
  obtain ⟨out, hout, hlt⟩ : ∃ out, merge [] siblings = .ok out ∧ out.length < siblings.length := ⟨_, rfl, by decide⟩
  exact ⟨out, hout, hlt, merge_again hout _⟩

end BuildImport.Merging
