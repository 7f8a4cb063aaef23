/-
The groups that merging forms: all modules of one directory, the directories in order of first appearance.

- `groups_cons`: the recursion behind `groups`. The first module takes the modules of its directory out of the rest, and
  the rest is grouped by itself; `directory_induction` is the induction that goes with it.
- `mem_groups_iff`: a group is what some listed module finds in its directory.
- `merge_eq_ok_iff`: merging succeeds iff every group can be made one module, and gives these in order, with their
  dependencies redirected. `Folds` names the relation between a group and its module.
- `Folds.label_eq`, `Folds.inDirectory_eq`: the module has its label from its group, and leads back to it.
-/
import Mathlib.Tactic
import BuildImport.Merging
import BuildImport.Proofs.Components
import BuildImport.Proofs.Outcomes

namespace BuildImport.Merging

open BuildImport.Path Outcome

/-! ## Groups -/

/-- the modules of the list that are not in the directory of `m` -/
def elsewhere (m : Module) (ms : List Module) : List Module :=
  ms.filter fun n => !n.baseDirectory.same m.baseDirectory

/-- induction that removes one directory at a time -/
theorem directory_induction {P : List Module → Prop} (nil : P [])
    (cons : ∀ m rest, P (elsewhere m rest) → P (m :: rest)) (ms : List Module) : P ms := by
  match ms with
  | [] => exact nil
  | m :: rest => exact cons m rest (directory_induction nil cons _)
termination_by ms.length
decreasing_by exact Nat.lt_succ_of_le (List.length_filter_le _ _)

theorem not_same_of_mem_elsewhere {m n : Module} {ms : List Module} (h : n ∈ elsewhere m ms) :
    m.baseDirectory.same n.baseDirectory = false := by
  have hne : n.baseDirectory.same m.baseDirectory = false := by simpa using (List.mem_filter.1 h).2
  rw [← Bool.not_eq_true]
  intro hs
  simp [same_symm hs] at hne

theorem directories_cons (m : Module) (rest : List Module) :
    directories (m :: rest) = m.baseDirectory :: directories (elsewhere m rest) := by
  unfold directories elsewhere
  rw [List.map_cons, List.eraseDupsBy_cons, List.filter_map]
  simp [Function.comp_def]

theorem inDirectory_congr {d e : Path} (h : d.same e = true) (ms : List Module) :
    inDirectory ms d = inDirectory ms e := by
  unfold inDirectory
  exact List.filter_congr fun m _ => same_congr h m.baseDirectory

theorem mem_inDirectory {ms : List Module} {d : Path} {m : Module} :
    m ∈ inDirectory ms d ↔ m ∈ ms ∧ m.baseDirectory.same d = true := by
  simp [inDirectory]

theorem exists_of_mem_directories {ms : List Module} {d : Path} (h : d ∈ directories ms) :
    ∃ m ∈ ms, m.baseDirectory = d := by
  induction ms using directory_induction with
  | nil => simp [directories] at h
  | cons m rest ih =>
    rw [directories_cons] at h
    rcases List.mem_cons.1 h with rfl | h
    · exact ⟨m, List.mem_cons_self, rfl⟩
    · obtain ⟨n, hn, rfl⟩ := ih h
      exact ⟨n, List.mem_cons_of_mem _ (List.mem_of_mem_filter hn), rfl⟩

theorem exists_directory {ms : List Module} {m : Module} (h : m ∈ ms) :
    ∃ d ∈ directories ms, m.baseDirectory.same d = true := by
  induction ms using directory_induction with
  | nil => simp at h
  | cons n rest ih =>
    rw [directories_cons]
    by_cases hs : m.baseDirectory.same n.baseDirectory = true
    · exact ⟨_, List.mem_cons_self, hs⟩
    · rcases List.mem_cons.1 h with rfl | h
      · exact absurd (same_refl _) hs
      · obtain ⟨d, hd, hsame⟩ := ih (List.mem_filter.2 ⟨h, by simpa using hs⟩)
        exact ⟨d, List.mem_cons_of_mem _ hd, hsame⟩

/-- no directory is listed twice, in whatever spelling -/
theorem pairwise_directories (ms : List Module) : (directories ms).Pairwise fun d e => d.same e = false := by
  induction ms using directory_induction with
  | nil => exact .nil
  | cons m rest ih =>
    rw [directories_cons]
    have hhead : ∀ d ∈ directories (elsewhere m rest), m.baseDirectory.same d = false := by
      intro d hd
      obtain ⟨n, hn, rfl⟩ := exists_of_mem_directories hd
      exact not_same_of_mem_elsewhere hn
    exact List.pairwise_cons.2 ⟨hhead, ih⟩

/-- The recursion behind `groups`. -/
theorem groups_cons (m : Module) (rest : List Module) :
    groups (m :: rest) = (m :: inDirectory rest m.baseDirectory) :: groups (elsewhere m rest) := by
  unfold groups
  rw [directories_cons, List.map_cons]
  congr 1
  · simp [inDirectory, same_refl]
  · apply List.map_congr_left
    intro d hd
    obtain ⟨n, hn, rfl⟩ := exists_of_mem_directories hd
    have hm : m.baseDirectory.same n.baseDirectory = false := not_same_of_mem_elsewhere hn
    have hk : ∀ k : Module, k.baseDirectory.same n.baseDirectory = true →
        k.baseDirectory.same m.baseDirectory = false := by
      intro k hkn
      rw [← Bool.not_eq_true]
      intro hkm
      simp [same_trans (same_symm hkm) hkn] at hm
    unfold inDirectory elsewhere
    rw [List.filter_cons_of_neg (by simp [hm]), List.filter_filter]
    apply List.filter_congr
    intro k _
    cases hkn : k.baseDirectory.same n.baseDirectory with
    | true => simp [hk k hkn]
    | false => simp

theorem mem_groups_iff {ms g : List Module} : g ∈ groups ms ↔ ∃ m ∈ ms, g = inDirectory ms m.baseDirectory := by
  unfold groups
  rw [List.mem_map]
  constructor
  · rintro ⟨d, hd, rfl⟩
    obtain ⟨m, hm, rfl⟩ := exists_of_mem_directories hd
    exact ⟨m, hm, rfl⟩
  · rintro ⟨m, hm, rfl⟩
    obtain ⟨d, hd, hs⟩ := exists_directory hm
    exact ⟨d, hd, (inDirectory_congr hs ms).symm⟩

theorem eq_inDirectory_of_mem {ms g : List Module} (hg : g ∈ groups ms) {m : Module} (hm : m ∈ g) :
    g = inDirectory ms m.baseDirectory := by
  obtain ⟨n, -, rfl⟩ := mem_groups_iff.1 hg
  exact inDirectory_congr (same_symm (mem_inDirectory.1 hm).2) ms

theorem mem_of_mem_group {ms g : List Module} (hg : g ∈ groups ms) {m : Module} (hm : m ∈ g) : m ∈ ms := by
  obtain ⟨n, -, rfl⟩ := mem_groups_iff.1 hg
  exact (mem_inDirectory.1 hm).1

theorem exists_group {ms : List Module} {m : Module} (hm : m ∈ ms) : ∃ g ∈ groups ms, m ∈ g :=
  ⟨_, mem_groups_iff.2 ⟨m, hm, rfl⟩, mem_inDirectory.2 ⟨hm, same_refl _⟩⟩

theorem group_ne_nil {ms g : List Module} (hg : g ∈ groups ms) : g ≠ [] := by
  obtain ⟨m, hm, rfl⟩ := mem_groups_iff.1 hg
  exact List.ne_nil_of_mem (mem_inDirectory.2 ⟨hm, same_refl _⟩)

/-! ## One module for a group -/

/-- `n` is the module for the group `g` -/
def Folds (ignored : List String) (g : List Module) (n : Module) : Prop := mergeGroup ignored g = .ok (some n)

/-- the module for a directory with several, once it is known what stays of their payloads -/
def together (ignored : List String) (head : Module) (rest : List Module) (payload : Option Payload) : Module where
  label := head.label.withName mergedName
  isSynthetic := (head :: rest).all (·.isSynthetic)
  dependencies := ((head :: rest).flatMap (·.dependencies)).eraseDups
  languages := .ofList ((head :: rest).flatMap (·.languages.toList))
  tags := .ofList ((head :: rest).flatMap (·.tags.toList))
  baseDirectory := head.baseDirectory
  sourceSet := mergeSources ignored (head :: rest)
  resources := .ofList ((head :: rest).flatMap (·.resources.toList))
  dependencySources := .ofList ((head :: rest).flatMap (·.dependencySources.toList))
  payload

theorem mergeMany_eq (ignored : List String) (head : Module) (rest : List Module) :
    mergeMany ignored head rest =
      (mergePayloads ((head :: rest).filterMap (·.payload))).map (together ignored head rest) := by
  unfold mergeMany
  dsimp only
  cases mergePayloads ((head :: rest).filterMap (·.payload)) <;> rfl

theorem mergeGroup_of_two (ignored : List String) (head second : Module) (rest : List Module) :
    mergeGroup ignored (head :: second :: rest) =
      (mergePayloads ((head :: second :: rest).filterMap (·.payload))).map
        fun payload => some (together ignored head (second :: rest) payload) := by
  simp only [mergeGroup, mergeMany_eq]
  cases mergePayloads ((head :: second :: rest).filterMap (·.payload)) <;> rfl

/-- **What merging makes of a group.** A module that is alone stays; several become one if their payloads allow it. -/
theorem folds_iff {ignored : List String} {g : List Module} {n : Module} :
    Folds ignored g n ↔
      g = [n] ∨ ∃ head second rest payload, g = head :: second :: rest ∧
        mergePayloads (g.filterMap (·.payload)) = .ok payload ∧ n = together ignored head (second :: rest) payload := by
  unfold Folds
  match g with
  | [] => simp [mergeGroup]
  | [m] => simp [mergeGroup]
  | head :: second :: rest =>
    rw [mergeGroup_of_two, map_eq_ok_iff]
    constructor
    · rintro ⟨payload, hp, h⟩
      exact .inr ⟨head, second, rest, payload, rfl, hp, (Option.some.inj h).symm⟩
    · rintro (h | ⟨head', second', rest', payload, h, hp, rfl⟩)
      · simp at h
      · obtain ⟨rfl, rfl, rfl⟩ : head = head' ∧ second = second' ∧ rest = rest' := by simpa using h
        exact ⟨payload, hp, rfl⟩

theorem exists_folds_of_mergeGroup {ignored : List String} {g : List Module} {o : Option Module} (hg : g ≠ [])
    (h : mergeGroup ignored g = .ok o) : ∃ n, Folds ignored g n ∧ o = some n := by
  match g with
  | [] => exact absurd rfl hg
  | [m] => exact ⟨m, rfl, (Except.ok.inj h).symm⟩
  | head :: second :: rest =>
    obtain ⟨payload, -, rfl⟩ := map_eq_ok_iff.1 ((mergeGroup_of_two ignored head second rest).symm.trans h)
    exact ⟨_, h, rfl⟩

/-- the label of the module for a group; `own` is the label of the member that it is asked for -/
def labelOf (g : List Module) (own : Label) : Label :=
  match g with
  | first :: _ :: _ => first.label.withName mergedName
  | _ => own

theorem Folds.label_eq {ignored : List String} {g : List Module} {n m : Module} (h : Folds ignored g n) (hm : m ∈ g) :
    n.label = labelOf g m.label := by
  rcases folds_iff.1 h with rfl | ⟨head, second, rest, payload, rfl, -, rfl⟩
  · rw [List.mem_singleton.1 hm]
    rfl
  · rfl

theorem Folds.exists_baseDirectory_eq {ignored : List String} {g : List Module} {n : Module} (h : Folds ignored g n) :
    ∃ m ∈ g, n.baseDirectory = m.baseDirectory := by
  rcases folds_iff.1 h with rfl | ⟨head, second, rest, payload, rfl, -, rfl⟩
  · exact ⟨n, List.mem_cons_self, rfl⟩
  · exact ⟨head, List.mem_cons_self, rfl⟩

/-- the directory of the module for a group gives the group back -/
theorem Folds.inDirectory_eq {ignored : List String} {ms g : List Module} {n : Module} (h : Folds ignored g n)
    (hg : g ∈ groups ms) : inDirectory ms n.baseDirectory = g := by
  obtain ⟨m, hm, hb⟩ := h.exists_baseDirectory_eq
  rw [hb, eq_inDirectory_of_mem hg hm]

/-! ## All modules -/

/-- where the labels of all members go -/
def renamingTable (ms : List Module) : List (Label × Label) := (groups ms).flatMap renamings

theorem mapM_mergeGroup_eq_ok_iff {ignored : List String} {gs : List (List Module)} {os : List (Option Module)}
    (hg : ∀ g ∈ gs, g ≠ []) :
    gs.mapM (mergeGroup ignored) = .ok os ↔ ∃ ns, List.Forall₂ (Folds ignored) gs ns ∧ os = ns.map some := by
  rw [mapM_eq_ok_iff]
  constructor
  · intro h
    induction h with
    | nil => exact ⟨[], .nil, rfl⟩
    | cons h _ ih =>
      obtain ⟨n, hn, rfl⟩ := exists_folds_of_mergeGroup (hg _ List.mem_cons_self) h
      obtain ⟨ns, hns, rfl⟩ := ih fun g h' => hg g (List.mem_cons_of_mem _ h')
      exact ⟨n :: ns, .cons hn hns, rfl⟩
  · rintro ⟨ns, hns, rfl⟩
    exact List.forall₂_map_right_iff.2 hns

theorem merge_eq (ignored : List String) (ms : List Module) :
    merge ignored ms =
      ((groups ms).mapM (mergeGroup ignored)).map fun os => (os.filterMap id).map (redirect (renamingTable ms)) := by
  unfold merge renamingTable
  cases (groups ms).mapM (mergeGroup ignored) <;> rfl

/-- **What merging gives.** One module for each group, in the order of the groups, with redirected dependencies. -/
theorem merge_eq_ok_iff {ignored : List String} {ms out : List Module} :
    merge ignored ms = .ok out ↔
      ∃ ns, List.Forall₂ (Folds ignored) (groups ms) ns ∧ out = ns.map (redirect (renamingTable ms)) := by
  have hsome : ∀ ns : List Module, (ns.map some).filterMap id = ns := fun ns => by simp [List.filterMap_map]
  rw [merge_eq, map_eq_ok_iff]
  constructor
  · rintro ⟨os, hos, rfl⟩
    obtain ⟨ns, hns, rfl⟩ := (mapM_mergeGroup_eq_ok_iff fun g hg => group_ne_nil hg).1 hos
    exact ⟨ns, hns, by rw [hsome]⟩
  · rintro ⟨ns, hns, rfl⟩
    exact ⟨ns.map some, (mapM_mergeGroup_eq_ok_iff fun g hg => group_ne_nil hg).2 ⟨ns, hns, rfl⟩, by rw [hsome]⟩

/-- every module of the result stands for a group -/
theorem exists_folds_of_mem {ignored : List String} {ms out : List Module} (h : merge ignored ms = .ok out)
    {o : Module} (ho : o ∈ out) :
    ∃ g ∈ groups ms, ∃ n, Folds ignored g n ∧ o = redirect (renamingTable ms) n := by
  obtain ⟨ns, hns, rfl⟩ := merge_eq_ok_iff.1 h
  obtain ⟨n, hn, rfl⟩ := List.mem_map.1 ho
  obtain ⟨g, hg, hf⟩ := exists_of_mem_right hns hn
  exact ⟨g, hg, n, hf, rfl⟩

/-- every group has its module in the result -/
theorem exists_mem_of_group {ignored : List String} {ms out : List Module} (h : merge ignored ms = .ok out)
    {g : List Module} (hg : g ∈ groups ms) :
    ∃ n, Folds ignored g n ∧ redirect (renamingTable ms) n ∈ out := by
  obtain ⟨ns, hns, rfl⟩ := merge_eq_ok_iff.1 h
  obtain ⟨n, hn, hf⟩ := exists_of_mem_left hns hg
  exact ⟨n, hf, List.mem_map_of_mem hn⟩

/-- what holds between the directories in order, however they are spelled, holds between the modules of the result -/
theorem pairwise_of_directories {R : Path → Path → Prop}
    (hR : ∀ {d d' e e' : Path}, d.same d' = true → e.same e' = true → R d e → R d' e') {ignored : List String}
    {ms out : List Module} (h : merge ignored ms = .ok out) (hd : (directories ms).Pairwise R) :
    out.Pairwise fun o o' => R o.baseDirectory o'.baseDirectory := by
  obtain ⟨ns, hns, rfl⟩ := merge_eq_ok_iff.1 h
  have hgroups : (groups ms).Pairwise fun g g' => ∀ x ∈ g, ∀ x' ∈ g', R x.baseDirectory x'.baseDirectory := by
    rw [groups, List.pairwise_map]
    apply hd.imp
    intro d d' hdd x hx x' hx'
    exact hR (same_symm (mem_inDirectory.1 hx).2) (same_symm (mem_inDirectory.1 hx').2) hdd
  rw [List.pairwise_map]
  apply pairwise_right hns hgroups
  intro g g' n n' hn hn' hgg
  obtain ⟨x, hx, hb⟩ := hn.exists_baseDirectory_eq
  obtain ⟨x', hx', hb'⟩ := hn'.exists_baseDirectory_eq
  have hxx := hgg x hx x' hx'
  rwa [← hb, ← hb'] at hxx

end BuildImport.Merging
