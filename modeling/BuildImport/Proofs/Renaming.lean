/-
Merging only renames owners.

Two imports of one universe, one that merges and one that does not, are compared. Both make the same modules first. Since
these come in the order of their labels, the modules of a package, and so those of a directory, stand next to each
other, and putting the groups behind one another gives the list back (`flatten_groups`). Hence the last owner of a file
is in the last group that owns it, and its label is what the quotient makes of the owner's label (`lastOwner?_merge`).

Placeholders depend on the directories and on the source roots, of which merging loses none (`make_merge`).

`merging_renames_owners` puts this together, for the index of the whole project.
-/
import Mathlib.Tactic
import BuildImport.Proofs.Identity
import BuildImport.Proofs.Quotient

namespace BuildImport

open Outcome Project

/-! ## Contents of merged modules -/

/-- a module owns what is among its sources or its resources -/
theorem Module.owns_eq (x : Module) (file : Path) :
    x.owns file = (x.sourceSet.sources.contains file || x.resources.contains file) := by
  rw [Module.owns, Module.owned, List.any_append]
  simp only [SortedSet.contains, Path.compare_beq_eq_same]

namespace Merging

/-- nothing is left out where no source root is ignored -/
theorem mergeSources_nil (g : List Module) :
    mergeSources [] g =
      ⟨.ofList (g.flatMap (·.sourceSet.sources.toList)), .ofList (g.flatMap (·.sourceSet.roots.toList))⟩ := by
  simp [mergeSources, isIgnored]

/-- a merged module owns what its members own -/
theorem Folds.owns_eq {g : List Module} {n : Module} (h : Folds [] g n) (file : Path) :
    n.owns file = g.any (·.owns file) := by
  rcases folds_iff.1 h with rfl | ⟨head, second, rest, payload, rfl, -, rfl⟩
  · simp
  · simp only [Module.owns_eq, together, mergeSources_nil,
      SortedSet.contains_ofList_flatMap fun x : Module => x.sourceSet.sources,
      SortedSet.contains_ofList_flatMap Module.resources]
    rw [Bool.eq_iff_iff]
    simp only [Bool.or_eq_true, List.any_eq_true, and_or_left, exists_or]

/-- it has the source roots of its members -/
theorem Folds.roots_contains {g : List Module} {n : Module} (h : Folds [] g n) (d : Path) :
    n.sourceSet.roots.contains d = g.any (·.sourceSet.roots.contains d) := by
  rcases folds_iff.1 h with rfl | ⟨head, second, rest, payload, rfl, -, rfl⟩
  · simp
  · simp only [together, mergeSources_nil, SortedSet.contains_ofList_flatMap fun x : Module => x.sourceSet.roots]

/-! ## Groups behind one another -/

/-- what has a property comes first, so taking it out first changes nothing -/
theorem filter_append_filter_not {α : Type} {p : α → Bool} {xs : List α}
    (h : xs.Pairwise fun a b => p b = true → p a = true) : xs.filter p ++ xs.filter (fun a => !p a) = xs := by
  induction xs with
  | nil => rfl
  | cons x xs ih =>
    obtain ⟨hx, hxs⟩ := List.pairwise_cons.1 h
    cases hp : p x with
    | true => rw [List.filter_cons_of_pos hp, List.filter_cons_of_neg (by simp [hp]), List.cons_append, ih hxs]
    | false =>
      have hno : ∀ y ∈ x :: xs, p y = false := by
        intro y hy
        rcases List.mem_cons.1 hy with rfl | hy
        · exact hp
        · rw [← Bool.not_eq_true]
          exact fun hpy => by simp [hx y hy hpy] at hp
      rw [List.filter_eq_nil_iff.2 fun y hy => by simp [hno y hy], List.filter_eq_self.2 fun y hy => by simp [hno y hy]]
      rfl

/-- where modules stand in their packages and come in the order of their labels, no other one comes between two of a
directory -/
theorem pairwise_sameDirectory {workspace : Path} {m : Module} {rest : List Module}
    (hl : ∀ x ∈ m :: rest, x.Located workspace)
    (ha : (m :: rest).Pairwise fun x y => compare x.label y.label = .lt) :
    rest.Pairwise fun x y => y.baseDirectory.same m.baseDirectory = true →
      x.baseDirectory.same m.baseDirectory = true := by
  obtain ⟨hm, hrest⟩ := List.pairwise_cons.1 ha
  apply hrest.imp_of_mem
  intro x y hx hy hxy hs
  have hlm := hl m List.mem_cons_self
  have hyp := (hl y (List.mem_cons_of_mem _ hy)).packageOf_eq hlm hs
  obtain ⟨package, hp, -, hb⟩ := hlm
  obtain ⟨other, ho, -, hxb⟩ := hl x (List.mem_cons_of_mem _ hx)
  have heq : other = package := Roots.packageOf_between hp ho (hyp.trans hp) (hm x hx) hxy
  rw [hxb, hb, heq]
  exact Path.same_refl _

/-- **Putting the groups behind one another gives the modules back.** -/
theorem flatten_groups {workspace : Path} {ms : List Module} (hl : ∀ x ∈ ms, x.Located workspace)
    (ha : ms.Pairwise fun x y => compare x.label y.label = .lt) : (groups ms).flatten = ms := by
  induction ms using directory_induction with
  | nil => rfl
  | cons m rest ih =>
    have hsub : (elsewhere m rest).Sublist (m :: rest) := List.filter_sublist.trans (List.sublist_cons_self m rest)
    rw [groups_cons, List.flatten_cons, ih (fun x hx => hl x (hsub.subset hx)) (ha.sublist hsub), List.cons_append,
      inDirectory, elsewhere, filter_append_filter_not (pairwise_sameDirectory hl ha)]

/-! ## Owners -/

/-- the last owner in a group is renamed to the group's module -/
theorem Folds.lastOwner?_eq {g : List Module} {n : Module} (h : Folds [] g n) {f : Label → Label}
    (hf : ∀ x ∈ g, f x.label = n.label) (file : Path) :
    (lastOwner? g file).map (fun x => f x.label) = if n.owns file then some n.label else none := by
  rw [h.owns_eq file]
  cases ho : lastOwner? g file with
  | none =>
    have hnone : g.any (·.owns file) = false := by simpa using lastOwner?_eq_none_iff.1 ho
    rw [hnone]
    rfl
  | some x =>
    obtain ⟨before, after, rfl, hx, -⟩ := lastOwner?_eq_some_iff.1 ho
    have hany : (before ++ x :: after).any (·.owns file) = true := by simp [hx]
    rw [hany]
    exact congrArg some (hf x (by simp))

theorem lastOwner?_folds {gs : List (List Module)} {ns : List Module} (h : List.Forall₂ (Folds []) gs ns)
    {f : Label → Label} (hf : ∀ g ∈ gs, ∀ n, Folds [] g n → ∀ x ∈ g, f x.label = n.label) (file : Path) :
    (lastOwner? ns file).map (·.label) = (lastOwner? gs.flatten file).map fun x => f x.label := by
  induction h with
  | nil => rfl
  | @cons g n gs ns hg _ ih =>
    have ih := ih fun g' h' => hf g' (List.mem_cons_of_mem _ h')
    have hfirst := hg.lastOwner?_eq (hf g List.mem_cons_self n hg) file
    rw [lastOwner?_cons, List.flatten_cons, lastOwner?_append, Option.map_or, Option.map_or, ih, hfirst]
    cases n.owns file <;> rfl

/-- **The last owner is renamed.** -/
theorem lastOwner?_merge {workspace : Path} {ms out : List Module} (hs : Settled workspace ms)
    (ha : ms.Pairwise fun x y => compare x.label y.label = .lt) (h : merge [] ms = .ok out) (file : Path) :
    (lastOwner? out file).map (·.label) = (lastOwner? ms file).map fun x => quotient ms x.label := by
  obtain ⟨ns, hns, rfl⟩ := merge_eq_ok_iff.1 h
  have hredirect : (lastOwner? (ns.map (redirect (renamingTable ms))) file).map (·.label) =
      (lastOwner? ns file).map (·.label) := by
    rw [lastOwner?, ← List.map_reverse, List.find?_map, Option.map_map]
    rfl
  rw [hredirect, lastOwner?_folds hns (f := quotient ms), flatten_groups hs.located ha]
  intro g hg n hn x hx
  rw [quotient_of_mem hs.distinct (mem_of_mem_group hg hx), ← eq_inDirectory_of_mem hg hx, hn.label_eq hx]

/-! ## Placeholders -/

theorem exists_baseDirectory_merge {ignored : List String} {workspace : Path} {ms out : List Module}
    (hl : ∀ x ∈ ms, x.Located workspace) (h : merge ignored ms = .ok out) (d : Path) :
    (∃ x ∈ out, x.baseDirectory = d) ↔ ∃ x ∈ ms, x.baseDirectory = d := by
  constructor
  · rintro ⟨o, ho, rfl⟩
    obtain ⟨g, hg, n, hn, rfl⟩ := exists_folds_of_mem h ho
    obtain ⟨x, hx, hb⟩ := hn.exists_baseDirectory_eq
    exact ⟨x, mem_of_mem_group hg hx, hb.symm⟩
  · rintro ⟨x, hx, rfl⟩
    obtain ⟨g, hg, hxg⟩ := exists_group hx
    obtain ⟨n, hn, ho⟩ := exists_mem_of_group h hg
    obtain ⟨y, hy, hb⟩ := hn.exists_baseDirectory_eq
    -- the directory of another member is spelled as this one's
    have hsame : y.baseDirectory.same x.baseDirectory = true := by
      rw [eq_inDirectory_of_mem hg hxg] at hy
      exact (mem_inDirectory.1 hy).2
    exact ⟨_, ho, hb.trans ((hl y (mem_of_mem_group hg hy)).baseDirectory_eq (hl x hx) hsame)⟩

theorem isSourceRoot_merge {ms out : List Module} (h : merge [] ms = .ok out) (d : Path) :
    Placeholder.isSourceRoot out d = Placeholder.isSourceRoot ms d := by
  unfold Placeholder.isSourceRoot
  rw [Bool.eq_iff_iff, List.any_eq_true, List.any_eq_true]
  constructor
  · rintro ⟨o, ho, hd⟩
    obtain ⟨g, hg, n, hn, rfl⟩ := exists_folds_of_mem h ho
    obtain ⟨x, hx, hd⟩ := List.any_eq_true.1 ((hn.roots_contains d).symm.trans hd)
    exact ⟨x, mem_of_mem_group hg hx, hd⟩
  · rintro ⟨x, hx, hd⟩
    obtain ⟨g, hg, hxg⟩ := exists_group hx
    obtain ⟨n, hn, ho⟩ := exists_mem_of_group h hg
    exact ⟨_, ho, (hn.roots_contains d).trans (List.any_eq_true.2 ⟨x, hxg, hd⟩)⟩

/-- **Merged modules need the placeholders of their members.** -/
theorem make_merge {workspace : Path} {ms out : List Module} (hl : ∀ x ∈ ms, x.Located workspace)
    (h : merge [] ms = .ok out) (view : ProjectView) :
    Placeholder.make workspace out view = Placeholder.make workspace ms view :=
  Placeholder.make_congr view (exists_baseDirectory_merge hl h) (isSourceRoot_merge h)

end Merging

/-! ## Two imports -/

namespace Mapping

/-- the import with merging turned on or off, and no source root ignored -/
def withMerge (m : Mapping) (enabled : Bool) : Mapping := { m with merge := ⟨enabled, []⟩ }

variable {m : Mapping} {t : FileTree} {u : Universe} {view : ProjectView} {stop : Bool}

theorem prepare_withMerge (enabled : Bool) : (m.withMerge enabled).prepare u = (m.prepare u).withMerge enabled := rfl

theorem mergeModules_withMerge_true {ms out : List Module} :
    (m.withMerge true).mergeModules false ms = .ok out ↔ Merging.merge [] ms = .ok out := by
  simp [mergeModules_eq_ok_iff, withMerge]

theorem mergeModules_withMerge_false (ms : List Module) : (m.withMerge false).mergeModules false ms = .ok ms := by
  simp [mergeModules_eq_ok_iff, withMerge]

theorem createModules_withMerge (enabled : Bool) (rs : List TargetRecord) :
    (m.withMerge enabled).createModules t u stop rs = m.createModules t u stop rs := by
  induction rs generalizing stop with
  | nil => rfl
  | cons r rest ih =>
    unfold createModules
    simp only [ih]
    rfl

theorem undisturbed_withMerge (enabled : Bool) :
    (m.withMerge enabled).Undisturbed t u stop ↔ m.Undisturbed t u stop := by
  unfold Undisturbed
  exact and_congr_right fun _ => exists_congr fun ms => by rw [prepare_withMerge, createModules_withMerge]

theorem imported_withMerge (enabled : Bool) : (m.withMerge enabled).imported t u = m.imported t u := rfl

theorem placeholdersFor_withMerge (enabled : Bool) (ms : List Module) :
    (m.withMerge enabled).placeholdersFor view ms = m.placeholdersFor view ms := rfl

/-- the project of an import that does not merge -/
theorem createProject_unmerged (h : m.Undisturbed t u stop) :
    (m.withMerge false).createProject t u view stop =
      .ok (.ofModules m.roots.workspace (m.imported t u ++ m.placeholdersFor view (m.imported t u))) := by
  exact createProject_eq_ok_iff.2
    ⟨(undisturbed_withMerge false).2 h, m.imported t u, mergeModules_withMerge_false _, rfl⟩

/-- the project of an import that merges has the same placeholders -/
theorem exists_merge_of_createProject {p : Project} (hc : u.HasCanonicalPackages)
    (h : (m.withMerge true).createProject t u view stop = .ok p) :
    m.Undisturbed t u stop ∧ ∃ ms, Merging.merge [] (m.imported t u) = .ok ms ∧
      p = .ofModules m.roots.workspace (ms ++ m.placeholdersFor view (m.imported t u)) := by
  obtain ⟨hu, ms, hms, rfl⟩ := createProject_eq_ok_iff.1 h
  rw [imported_withMerge, mergeModules_withMerge_true] at hms
  have hplaceholders : m.placeholdersFor view ms = m.placeholdersFor view (m.imported t u) := by
    unfold placeholdersFor
    rw [Merging.make_merge (fun x hx => located_of_mem_imported hc hx) hms]
  refine ⟨(undisturbed_withMerge true).1 hu, ms, hms, ?_⟩
  rw [placeholdersFor_withMerge, hplaceholders]
  rfl

theorem filter_real_append {ms : List Module} (hs : Settled m.roots.workspace ms) (ms' : List Module) :
    ((ms ++ m.placeholdersFor view ms').filter fun x => !x.isSynthetic) = ms := by
  have hreal : ms.filter (fun x => !x.isSynthetic) = ms := List.filter_eq_self.2 fun x hx => by simp [hs.real x hx]
  have hnone : (m.placeholdersFor view ms').filter (fun x => !x.isSynthetic) = [] :=
    List.filter_eq_nil_iff.2 fun x hx => by
      simp [isSynthetic_of_mem_placeholdersFor hx]
  rw [List.filter_append, hreal, hnone, List.append_nil]

theorem filter_synthetic_append {ms : List Module} (hs : Settled m.roots.workspace ms) (ms' : List Module) :
    (ms ++ m.placeholdersFor view ms').filter (·.isSynthetic) = m.placeholdersFor view ms' := by
  have hnone : ms.filter (·.isSynthetic) = [] := List.filter_eq_nil_iff.2 fun x hx => by simp [hs.real x hx]
  have hall : (m.placeholdersFor view ms').filter (·.isSynthetic) = m.placeholdersFor view ms' :=
    List.filter_eq_self.2 fun x hx => isSynthetic_of_mem_placeholdersFor hx
  rw [List.filter_append, hnone, hall, List.nil_append]

/-- the index with merged modules is the one without, renamed -/
theorem find?_indexOf_merge {ms out : List Module} (hs : Settled m.roots.workspace ms)
    (ha : ms.Pairwise fun x y => compare x.label y.label = .lt) (h : Merging.merge [] ms = .ok out) (file : Path) :
    (indexOf (out ++ m.placeholdersFor view ms)).find? file =
      ((indexOf (ms ++ m.placeholdersFor view ms)).find? file).map (Merging.quotient ms) := by
  have hfix : ∀ x ∈ m.placeholdersFor view ms, Merging.quotient ms x.label = x.label := fun x hx =>
    Merging.quotient_of_unlisted fun y hy => label_ne_of_mem_placeholdersFor hs hy hx
  rw [find?_indexOf, find?_indexOf, lastOwner?_append, lastOwner?_append, Option.map_map, Option.map_or, Option.map_or,
    Merging.lastOwner?_merge hs ha h]
  congr 1
  cases ho : lastOwner? (m.placeholdersFor view ms) file with
  | none => rfl
  | some x => exact congrArg some (hfix x (List.mem_reverse.1 (List.mem_of_find?_eq_some ho))).symm

/-- **Merging only renames owners.** Where an import that merges, with no source root ignored, gives a project, so does
the one that does not. Both have the same files in their index. The owner of a file in the one is what the quotient of
the imported modules makes of its owner in the other; and the placeholders are the same. -/
theorem merging_renames_owners {merged : Project} (hk : u.Keyed) (hc : u.HasCanonicalPackages)
    (h : (m.withMerge true).createProject t u view stop = .ok merged) :
    ∃ plain, (m.withMerge false).createProject t u view stop = .ok plain ∧
      (∀ file, merged.owners.contains file = plain.owners.contains file ∧
        merged.owners.find? file =
          (plain.owners.find? file).map (Merging.quotient (plain.modules.filter fun x => !x.isSynthetic))) ∧
      merged.modules.filter (·.isSynthetic) = plain.modules.filter (·.isSynthetic) := by
  obtain ⟨hu, ms, hms, rfl⟩ := exists_merge_of_createProject hc h
  have hs : Settled m.roots.workspace (m.imported t u) := settled_imported m t hk hc
  have howner := @find?_indexOf_merge m view _ _ hs (pairwise_imported m t hk) hms
  refine ⟨_, createProject_unmerged hu, ?_, ?_⟩
  · intro file
    simp only [SortedMap.contains, ofModules_owners, ofModules_modules, howner file, filter_real_append hs,
      Option.isSome_map, and_self]
  · rw [ofModules_modules, ofModules_modules, filter_synthetic_append (hs.merge hms), filter_synthetic_append hs]

/-- the owner of the source in common is renamed, and nothing else changes for `twoPackages` -/
theorem twoPackages_renamed :
    ∃ merged, twoPackages.Keyed ∧ twoPackages.HasCanonicalPackages ∧
      (partImport.withMerge true).createProject ⟨∅, []⟩ twoPackages ⟨["//lib", "//app"]⟩ false = .ok merged ∧
      ∃ plain, (partImport.withMerge false).createProject ⟨∅, []⟩ twoPackages ⟨["//lib", "//app"]⟩ false = .ok plain ∧
        (∀ file, merged.owners.contains file = plain.owners.contains file ∧
          merged.owners.find? file =
            (plain.owners.find? file).map (Merging.quotient (plain.modules.filter fun x => !x.isSynthetic))) ∧
        merged.modules.filter (·.isSynthetic) = plain.modules.filter (·.isSynthetic) := by
  have hk : twoPackages.Keyed := Universe.keyed_ofLists _ _
  have hc : twoPackages.HasCanonicalPackages := by decide
  obtain ⟨merged, hm, -⟩ : ∃ merged,
      (partImport.withMerge true).createProject ⟨∅, []⟩ twoPackages ⟨["//lib", "//app"]⟩ false = .ok merged ∧ true :=
    any_toOption_iff.1 (by decide +kernel)
  exact ⟨merged, hk, hc, hm, merging_renames_owners hk hc hm⟩

end Mapping

end BuildImport
