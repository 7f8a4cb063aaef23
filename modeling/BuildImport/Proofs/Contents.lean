/-
What merged modules hold.

Merging gives one module for each directory, in the order in which the directories first appear. A module that is alone
in its directory changes in its dependencies only; several become one that holds what they hold together. Two paths may
be one in two spellings, and then the union keeps the spelling of the last module that has it (`LastIn`).

This matters for ignored source roots, which are told by their text: a root that is ignored in one spelling is not in
another. Merging looks at the spellings that the union keeps, and then drops all sources and roots or none. So a module
whose own root is ignored may still give its sources to the merged one (`respelled_root_kept`).

- `SortedSet.isUnion_ofList`: what is left of sets that are put together one after the other.
- `pairwise_firstIn`: the modules of the result come in the order of their directories.
- `holdsTogether`: the contents of the module for several.

`merge_partitions` puts these together.
-/
import Mathlib.Tactic
import BuildImport.Proofs.Quotient

namespace BuildImport

open Std

/-! ## Unions of sets -/

/-- the element is in one of the sets, in this spelling, and in none behind it -/
def LastIn {α : Type} [Ord α] (parts : List (SortedSet α)) (a : α) : Prop :=
  ∃ before part after, parts = before ++ part :: after ∧ a ∈ part.toList ∧ ∀ later ∈ after, later.contains a = false

/-- a set holds what the others hold together; of equal elements it has the one that comes last -/
structure IsUnion {α : Type} [Ord α] (s : SortedSet α) (parts : List (SortedSet α)) : Prop where
  contains_iff : ∀ a, s.contains a = true ↔ ∃ part ∈ parts, part.contains a = true
  mem_iff : ∀ a, a ∈ s.toList ↔ LastIn parts a

theorem not_lastIn_nil {α : Type} [Ord α] (a : α) : ¬ LastIn [] a := by
  rintro ⟨before, part, after, he, -⟩
  simp at he

theorem lastIn_concat_iff {α : Type} [Ord α] {parts : List (SortedSet α)} {part : SortedSet α} {a : α} :
    LastIn (parts ++ [part]) a ↔ a ∈ part.toList ∨ LastIn parts a ∧ part.contains a = false := by
  constructor
  · rintro ⟨before, found, after, he, ha, hlater⟩
    rcases List.eq_nil_or_concat after with rfl | ⟨after, last, rfl⟩
    · obtain ⟨-, hpart⟩ := List.append_inj' he rfl
      rw [List.singleton_inj] at hpart
      exact .inl (hpart ▸ ha)
    · rw [List.concat_eq_append, ← List.cons_append, ← List.append_assoc] at he
      obtain ⟨rfl, hlast⟩ := List.append_inj' he rfl
      rw [List.singleton_inj] at hlast
      subst hlast
      exact .inr ⟨⟨before, found, after, rfl, ha, fun later h => hlater later (by simp [h])⟩, hlater _ (by simp)⟩
  · rintro (ha | ⟨⟨before, found, after, rfl, ha, hlater⟩, hno⟩)
    · exact ⟨parts, part, [], rfl, ha, by simp⟩
    · refine ⟨before, found, after ++ [part], by simp, ha, ?_⟩
      intro later hmem
      rcases List.mem_append.1 hmem with hmem | hmem
      · exact hlater later hmem
      · rwa [List.mem_singleton.1 hmem]

namespace SortedSet

variable {α : Type} [Ord α] [TransOrd α]

theorem compare_ne_eq_of_lt {a b : α} (h : compare a b = .lt) : compare b a ≠ .eq := by
  intro heq
  rw [OrientedCmp.eq_symm heq] at h
  simp at h

/-- placing an element takes out the one that it is equal to -/
theorem mem_place_new {a c : α} {xs : List α} (h : xs.Pairwise fun a b => compare a b = .lt) :
    c ∈ place (fun _ a => a) a xs ↔ c = a ∨ c ∈ xs ∧ compare c a ≠ .eq := by
  induction xs with
  | nil => simp [place]
  | cons b rest ih =>
    obtain ⟨hb, hrest⟩ := List.pairwise_cons.1 h
    unfold place
    split
    · next hlt =>
      have habove : ∀ d ∈ b :: rest, compare d a ≠ .eq := by
        intro d hd
        rcases List.mem_cons.1 hd with rfl | hd
        · exact compare_ne_eq_of_lt hlt
        · exact compare_ne_eq_of_lt (TransCmp.lt_trans hlt (hb d hd))
      rw [List.mem_cons]
      exact or_congr_right (and_iff_left_of_imp (habove c)).symm
    · next heq =>
      have habove : ∀ d ∈ rest, compare d a ≠ .eq := fun d hd =>
        compare_ne_eq_of_lt (TransCmp.lt_of_eq_of_lt heq (hb d hd))
      have hbelow : ¬ (c = b ∧ compare c a ≠ .eq) := by
        rintro ⟨rfl, hne⟩
        exact hne (OrientedCmp.eq_symm heq)
      rw [List.mem_cons, List.mem_cons, or_and_right, or_iff_right hbelow]
      exact or_congr_right (and_iff_left_of_imp (habove c)).symm
    · next hgt =>
      have hbelow : c = b → compare c a ≠ .eq := by
        rintro rfl heq
        rw [OrientedCmp.eq_symm heq] at hgt
        simp at hgt
      rw [List.mem_cons, List.mem_cons, ih hrest, or_and_right, and_iff_left_of_imp hbelow, or_left_comm]

/-- what is added last is there as it is spelled, and takes the place of what it is equal to -/
theorem mem_foldl_replace {xs : List α} (hx : xs.Pairwise fun a b => compare a b = .lt) (s : SortedSet α) (c : α) :
    c ∈ (xs.foldl replace s).toList ↔ c ∈ xs ∨ c ∈ s.toList ∧ ∀ x ∈ xs, compare c x ≠ .eq := by
  induction xs generalizing s with
  | nil => simp
  | cons x xs ih =>
    obtain ⟨hhead, htail⟩ := List.pairwise_cons.1 hx
    have hplace : c ∈ (s.replace x).toList ↔ c = x ∨ c ∈ s.toList ∧ compare c x ≠ .eq := mem_place_new s.ascending
    have hother : c = x → ∀ y ∈ xs, compare c y ≠ .eq := by
      rintro rfl y hy heq
      simp [hhead y hy] at heq
    rw [List.foldl_cons, ih htail, hplace, List.mem_cons, List.forall_mem_cons, or_and_right,
      and_iff_left_of_imp hother, and_assoc, or_left_comm, or_assoc]

/-- **Sets put together one after the other are their union.** -/
theorem isUnion_ofList {ι : Type} (f : ι → SortedSet α) (xs : List ι) :
    IsUnion (ofList (xs.flatMap fun x => (f x).toList)) (xs.map f) := by
  constructor
  · intro a
    rw [contains_ofList_flatMap, List.any_eq_true]
    simp only [List.mem_map, exists_exists_and_eq_and]
  · intro a
    induction xs using List.reverseRecOn with
    | nil => exact iff_of_false (by simp [ofList, empty]) (not_lastIn_nil a)
    | append_singleton xs x ih =>
      have hofList : ofList ((xs ++ [x]).flatMap fun y => (f y).toList) =
          (f x).toList.foldl replace (ofList (xs.flatMap fun y => (f y).toList)) := by
        rw [ofList, List.flatMap_append, List.foldl_append, List.flatMap_singleton, ofList]
      have hno : (∀ b ∈ (f x).toList, compare a b ≠ .eq) ↔ (f x).contains a = false := by
        simp [contains]
      rw [hofList, mem_foldl_replace (f x).ascending, ih, hno, List.map_append, List.map_singleton, lastIn_concat_iff]

end SortedSet

namespace Merging

open BuildImport.Path Text Outcome

/-! ## The order of the directories -/

/-- the place of the first module in the directory -/
def firstIn (ms : List Module) (d : Path) : Nat := ms.findIdx fun m => m.baseDirectory.same d

theorem firstIn_congr {d e : Path} (h : d.same e = true) (ms : List Module) : firstIn ms d = firstIn ms e := by
  unfold firstIn
  congr 1
  funext m
  exact same_congr h m.baseDirectory

/-- leaving out elements does not change which of two others is found first -/
theorem findIdx_lt_of_filter {α : Type} {keep p q : α → Bool} (hp : ∀ x, p x = true → keep x = true)
    (hq : ∀ x, q x = true → keep x = true) {xs : List α} (h : (xs.filter keep).findIdx p < (xs.filter keep).findIdx q) :
    xs.findIdx p < xs.findIdx q := by
  induction xs with
  | nil => simp at h
  | cons x xs ih =>
    by_cases hx : keep x = true
    · rw [List.filter_cons_of_pos hx] at h
      rw [List.findIdx_cons, List.findIdx_cons] at h ⊢
      cases hqx : q x with
      | true =>
        rw [hqx, cond_true] at h
        exact absurd h (Nat.not_lt_zero _)
      | false =>
        rw [hqx, cond_false] at h
        cases hpx : p x with
        | true => exact Nat.succ_pos _
        | false =>
          rw [hpx, cond_false] at h
          exact Nat.succ_lt_succ (ih (Nat.lt_of_succ_lt_succ h))
    · have hpx : p x = false := by
        rw [← Bool.not_eq_true]
        exact fun hpx => hx (hp x hpx)
      have hqx : q x = false := by
        rw [← Bool.not_eq_true]
        exact fun hqx => hx (hq x hqx)
      rw [List.filter_cons_of_neg hx] at h
      simpa [List.findIdx_cons, hpx, hqx] using ih h

/-- directories are listed in the order of their first modules -/
theorem pairwise_firstIn_directories (ms : List Module) :
    (directories ms).Pairwise fun d e => firstIn ms d < firstIn ms e := by
  induction ms using directory_induction with
  | nil => exact .nil
  | cons m rest ih =>
    rw [directories_cons]
    have hother : ∀ d ∈ directories (elsewhere m rest), m.baseDirectory.same d = false := by
      intro d hd
      obtain ⟨n, hn, rfl⟩ := exists_of_mem_directories hd
      exact not_same_of_mem_elsewhere hn
    have hstep : ∀ d ∈ directories (elsewhere m rest), firstIn (m :: rest) d = firstIn rest d + 1 := by
      intro d hd
      rw [firstIn, List.findIdx_cons, hother d hd]
      rfl
    refine List.pairwise_cons.2 ⟨fun d hd => ?_, ?_⟩
    · rw [hstep d hd, firstIn, List.findIdx_cons, same_refl]
      exact Nat.succ_pos _
    · apply ih.imp_of_mem
      intro d e hd he hlt
      rw [hstep d hd, hstep e he]
      have hkeep : ∀ d ∈ directories (elsewhere m rest), ∀ n : Module, n.baseDirectory.same d = true →
          (!n.baseDirectory.same m.baseDirectory) = true := by
        intro d hd n hn
        rw [Bool.not_eq_true', ← Bool.not_eq_true]
        intro hnm
        have := hother d hd
        simp [same_trans (same_symm hnm) hn] at this
      exact Nat.succ_lt_succ (findIdx_lt_of_filter (hkeep d hd) (hkeep e he) hlt)

/-- **The modules of the result come in the order in which their directories first appear.** -/
theorem pairwise_firstIn {ignored : List String} {ms out : List Module} (h : merge ignored ms = .ok out) :
    out.Pairwise fun o o' => firstIn ms o.baseDirectory < firstIn ms o'.baseDirectory := by
  refine pairwise_of_directories (R := fun d e => firstIn ms d < firstIn ms e) ?_ h (pairwise_firstIn_directories ms)
  intro d d' e e' hd he hlt
  rwa [← firstIn_congr hd, ← firstIn_congr he]

/-- a listed module is a member of only one module of the result -/
theorem eq_of_mem_members {ignored : List String} {ms out : List Module} (h : merge ignored ms = .ok out)
    {m o o' : Module} (ho : o ∈ out) (ho' : o' ∈ out) (hm : m ∈ members ms o) (hm' : m ∈ members ms o') : o = o' := by
  have hne : out.Pairwise fun o o' => firstIn ms o.baseDirectory ≠ firstIn ms o'.baseDirectory :=
    (pairwise_firstIn h).imp Nat.ne_of_lt
  have hsymm : Std.Symm fun o o' : Module => firstIn ms o.baseDirectory ≠ firstIn ms o'.baseDirectory :=
    ⟨fun _ _ => Ne.symm⟩
  by_contra hoo
  apply hne.forall ho ho' hoo
  rw [← firstIn_congr (mem_inDirectory.1 hm).2, ← firstIn_congr (mem_inDirectory.1 hm').2]

/-! ## Contents -/

/-- the root ends in an ignored one; slashes at the ends of both do not count, and one of slashes only ignores nothing -/
def EndsIgnored (ignored : List String) (root : Path) : Prop :=
  ∃ i ∈ ignored, trimEnd '/' i ≠ "" ∧ (trimEnd '/' i).toList <:+ (trimEnd '/' root.text).toList

theorem isIgnored_iff {ignored : List String} {root : Path} : isIgnored ignored root = true ↔ EndsIgnored ignored root := by
  simp [isIgnored, EndsIgnored, endsWith]

/-- a source root of the modules is ignored, in the spelling of the last of them that has it -/
def HasIgnoredRoot (ignored : List String) (g : List Module) : Prop :=
  ∃ root, LastIn (g.map (·.sourceSet.roots)) root ∧ EndsIgnored ignored root

/-- what the module that stands for several holds -/
structure HoldsTogether (ignored : List String) (g : List Module) (o : Module) : Prop where
  languages : IsUnion o.languages (g.map (·.languages))
  tags : IsUnion o.tags (g.map (·.tags))
  resources : IsUnion o.resources (g.map (·.resources))
  dependencySources : IsUnion o.dependencySources (g.map (·.dependencySources))
  synthetic : o.isSynthetic = true ↔ ∀ m ∈ g, m.isSynthetic = true
  dropped : HasIgnoredRoot ignored g → o.sourceSet.isEmpty = true
  kept : ¬ HasIgnoredRoot ignored g →
    IsUnion o.sourceSet.sources (g.map (·.sourceSet.sources)) ∧ IsUnion o.sourceSet.roots (g.map (·.sourceSet.roots))

/-- the sources of several modules are their union, or none if one of the roots left is ignored -/
theorem mergeSources_cases (ignored : List String) (g : List Module) :
    HasIgnoredRoot ignored g ∧ (mergeSources ignored g).isEmpty = true ∨
      ¬ HasIgnoredRoot ignored g ∧
        IsUnion (mergeSources ignored g).sources (g.map (·.sourceSet.sources)) ∧
        IsUnion (mergeSources ignored g).roots (g.map (·.sourceSet.roots)) := by
  have hroots := SortedSet.isUnion_ofList (fun m : Module => m.sourceSet.roots) g
  have hany : (SortedSet.ofList (g.flatMap (·.sourceSet.roots.toList))).toList.any (isIgnored ignored) = true ↔
      HasIgnoredRoot ignored g := by
    simp only [List.any_eq_true, hroots.mem_iff, isIgnored_iff, HasIgnoredRoot]
  unfold mergeSources
  dsimp only
  split_ifs with h
  · exact .inl ⟨hany.1 h, rfl⟩
  · exact .inr ⟨fun hr => h (hany.2 hr), SortedSet.isUnion_ofList (fun m : Module => m.sourceSet.sources) g, hroots⟩

theorem holdsTogether (ignored : List String) (head : Module) (rest : List Module) (payload : Option Payload) :
    HoldsTogether ignored (head :: rest) (together ignored head rest payload) where
  languages := SortedSet.isUnion_ofList Module.languages _
  tags := SortedSet.isUnion_ofList Module.tags _
  resources := SortedSet.isUnion_ofList Module.resources _
  dependencySources := SortedSet.isUnion_ofList Module.dependencySources _
  synthetic := List.all_eq_true
  dropped hr := ((mergeSources_cases ignored (head :: rest)).resolve_right fun h => h.1 hr).2
  kept hno := ((mergeSources_cases ignored (head :: rest)).resolve_left fun h => hno h.1).2

/-- **What a module of the result holds.** All of a module that was alone but its dependencies, else what its members hold
together. -/
theorem contents_of_mem_merge {ignored : List String} {ms out : List Module} (h : merge ignored ms = .ok out)
    {o : Module} (ho : o ∈ out) :
    (∀ m, members ms o = [m] → o = { m with dependencies := o.dependencies }) ∧
      (1 < (members ms o).length → HoldsTogether ignored (members ms o) o) := by
  obtain ⟨g, hg, n, hf, rfl⟩ := exists_folds_of_mem h ho
  have hmembers : members ms (redirect (renamingTable ms) n) = g := hf.inDirectory_eq hg
  rw [hmembers]
  rcases folds_iff.1 hf with rfl | ⟨head, second, rest, payload, rfl, -, rfl⟩
  · refine ⟨fun m hm => ?_, fun hlt => by simp at hlt⟩
    rw [← List.singleton_inj.1 hm]
    rfl
  · refine ⟨fun m hm => by simp at hm, fun _ => ?_⟩
    -- redirecting changes nothing but the dependencies
    have hcontents := holdsTogether ignored head (second :: rest) payload
    exact ⟨hcontents.languages, hcontents.tags, hcontents.resources, hcontents.dependencySources, hcontents.synthetic,
      hcontents.dropped, hcontents.kept⟩

/-- **Merging partitions the modules and keeps what they hold.** Each listed module is a member of one module of the
result, and each of these has members: all modules of its directory. They come in the order in which the directories
first appear. A module that is alone changes in its dependencies only. One that stands for several holds the unions of
what they hold and is synthetic just if they all are; but it has neither sources nor roots if a root that is left is
ignored. -/
theorem merge_partitions {ignored : List String} {ms out : List Module} (h : merge ignored ms = .ok out) :
    (∀ m ∈ ms, ∃! o, o ∈ out ∧ m.baseDirectory.same o.baseDirectory = true) ∧
    (∀ o ∈ out, ∃ m ∈ ms, m.baseDirectory.same o.baseDirectory = true) ∧
    (out.Pairwise fun o o' => firstIn ms o.baseDirectory < firstIn ms o'.baseDirectory) ∧
    ∀ o ∈ out,
      (∀ m, members ms o = [m] → o = { m with dependencies := o.dependencies }) ∧
      (1 < (members ms o).length → HoldsTogether ignored (members ms o) o) := by
  refine ⟨fun m hm => ?_, fun o ho => ?_, pairwise_firstIn h, fun o ho => contents_of_mem_merge h ho⟩
  · obtain ⟨o, ho, hmo⟩ := exists_merged_module h hm
    refine ⟨o, ⟨ho, (mem_inDirectory.1 hmo).2⟩, ?_⟩
    rintro o' ⟨ho', hsame⟩
    exact eq_of_mem_members h ho' ho (mem_inDirectory.2 ⟨hm, hsame⟩) hmo
  · obtain ⟨g, hg, n, hf, rfl⟩ := exists_folds_of_mem h ho
    obtain ⟨m, hm, hb⟩ := hf.exists_baseDirectory_eq
    exact ⟨m, mem_of_mem_group hg hm, hb ▸ same_refl _⟩

/-- A library and its tests with generated sources below one root, which they spell in two ways, and a program of another
directory between them. -/
def generatedSources : List Module :=
  [{ label := ⟨"//lib:lib"⟩, baseDirectory := ⟨"/ws/lib"⟩, tags := .ofList [.library],
     sourceSet := ⟨.ofList [⟨"/ws/lib/gen/Lib.java"⟩], .ofList [⟨"/ws/lib/gen"⟩]⟩ },
   { label := ⟨"//app:app"⟩, baseDirectory := ⟨"/ws/app"⟩, dependencies := [⟨"//lib:lib"⟩],
     sourceSet := ⟨.ofList [⟨"/ws/app/App.java"⟩], .ofList [⟨"/ws/app"⟩]⟩ },
   { label := ⟨"//lib:tests"⟩, baseDirectory := ⟨"/ws//lib/"⟩, tags := .ofList [.test],
     sourceSet := ⟨.ofList [⟨"/ws/lib/gen/./LibTest.java"⟩], .ofList [⟨"/ws/lib/gen/."⟩]⟩ }]

/-- **A root in another spelling is not ignored.** The root of the library ends in an ignored one, but the module that it
is merged into has sources: the root is left as the tests spell it. -/
theorem respelled_root_kept :
    ∃ out, merge ["gen/"] generatedSources = .ok out ∧ ∃ o ∈ out, 1 < (members generatedSources o).length ∧
      (∃ m ∈ members generatedSources o, ∃ root ∈ m.sourceSet.roots.toList, EndsIgnored ["gen/"] root) ∧
      ¬ o.sourceSet.isEmpty = true := by
  simp only [← isIgnored_iff]
  exact ⟨_, rfl, by decide⟩

/-- what `generatedSources` are merged to -/
theorem generatedSources_partitioned :
    ∃ out, merge ["gen/"] generatedSources = .ok out ∧
      (∀ m ∈ generatedSources, ∃! o, o ∈ out ∧ m.baseDirectory.same o.baseDirectory = true) ∧
      (∀ o ∈ out, ∃ m ∈ generatedSources, m.baseDirectory.same o.baseDirectory = true) ∧
      (out.Pairwise fun o o' => firstIn generatedSources o.baseDirectory < firstIn generatedSources o'.baseDirectory) ∧
      ∀ o ∈ out,
        (∀ m, members generatedSources o = [m] → o = { m with dependencies := o.dependencies }) ∧
        (1 < (members generatedSources o).length → HoldsTogether ["gen/"] (members generatedSources o) o) := by
  obtain ⟨out, hm⟩ : ∃ out, merge ["gen/"] generatedSources = .ok out := ⟨_, rfl⟩
  exact ⟨out, hm, merge_partitions hm⟩

end Merging

end BuildImport
