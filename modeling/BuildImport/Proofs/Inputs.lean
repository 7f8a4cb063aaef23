/-
The input files of a target.

`IsInput` says what an input is without any search: an action of the target takes a set, references lead from it to
another one, that one lists an artifact, and the artifact has a path. References may run in circles or dangle, and of
several definitions of one id the last counts. `mem_inputs_iff` says that a target's inputs are exactly these, in
ascending order.

- `path?_eq_some_iff`: the path of an artifact is its own, or the names on its fragment's line of parents.
- `mem_expand_iff`: the sets that are searched are the ones that references lead to.
-/
import Mathlib.Tactic
import Mathlib.Data.List.Sort
import Mathlib.Data.String.Basic
import BuildImport.Proofs.Outcomes
import BuildImport.Proofs.ParentChains

namespace BuildImport.ActionGraph

open Search Text Relation

/-! ## Definitions -/

variable {g : ActionGraph}

theorem artifact?_eq_some_iff {id : Nat} {a : Artifact} :
    g.artifact? id = some a ↔ LastAt Artifact.id g.artifacts id a :=
  find?_reverse_eq_some_iff

theorem fileSet?_eq_some_iff {id : Nat} {s : FileSet} : g.fileSet? id = some s ↔ LastAt FileSet.id g.fileSets id s :=
  find?_reverse_eq_some_iff

/-! ## Paths of artifacts -/

/-- an artifact's path: its own, else the names down to its fragment -/
def HasPath (g : ActionGraph) (a : Artifact) (path : String) : Prop :=
  a.execPath = some path ∨ a.execPath = none ∧
    ∃ id names, a.fragmentId = some id ∧ g.Lineage id names ∧ path = "/".intercalate names

theorem path?_eq_some_iff {id : Nat} {path : String} :
    g.path? id = some path ↔ ∃ a, LastAt Artifact.id g.artifacts id a ∧ g.HasPath a path := by
  simp only [path?, Option.bind_eq_bind, Option.bind_eq_some_iff, artifact?_eq_some_iff]
  refine exists_congr fun a => and_congr_right fun _ => ?_
  unfold HasPath
  cases a.execPath with
  | some own => simp
  | none =>
    cases a.fragmentId with
    | none => simp
    | some f => simp [fragmentPath?_eq_some_iff]

/-! ## Sets of files -/

/-- the set `a` refers to the set `b`; both are defined -/
def Refers (g : ActionGraph) (a b : Nat) : Prop :=
  ∃ s t, LastAt FileSet.id g.fileSets a s ∧ b ∈ s.sets ∧ LastAt FileSet.id g.fileSets b t

theorem mem_subsets_iff {a b : Nat} : b ∈ g.subsets a ↔ ∃ s, LastAt FileSet.id g.fileSets a s ∧ b ∈ s.sets := by
  simp only [← fileSet?_eq_some_iff, subsets]
  cases g.fileSet? a <;> simp

theorem mem_members_iff {a id : Nat} :
    id ∈ g.members a ↔ ∃ s, LastAt FileSet.id g.fileSets a s ∧ id ∈ s.artifacts := by
  simp only [← fileSet?_eq_some_iff, members]
  cases g.fileSet? a <;> simp

/-- the walk through sets goes where references between defined sets lead -/
theorem reachable_iff {starts : List Nat} {b : Nat} :
    Reachable g.subsets (g.fileSets.map (·.id)) starts b ↔
      ∃ a ∈ starts, a ∈ g.fileSets.map (·.id) ∧ ReflTransGen g.Refers a b := by
  constructor
  · intro h
    induction h with
    | start hs hd => exact ⟨_, hs, hd, .refl⟩
    | step _ hy hd ih =>
      obtain ⟨a, ha, had, hab⟩ := ih
      obtain ⟨s, hs, hmem⟩ := mem_subsets_iff.1 hy
      obtain ⟨t, ht⟩ := exists_lastAt_iff.2 hd
      exact ⟨a, ha, had, hab.tail ⟨s, t, hs, hmem, ht⟩⟩
  · rintro ⟨a, ha, had, hab⟩
    induction hab with
    | refl => exact .start ha had
    | tail _ href ih =>
      obtain ⟨s, t, hs, hmem, ht⟩ := href
      exact .step ih (mem_subsets_iff.2 ⟨s, hs, hmem⟩) ht.mem_map

/-- **What a list of sets holds**: what is listed in a set that references lead to. -/
theorem mem_expand_iff {starts : List Nat} {id : Nat} :
    id ∈ (g.expand starts).toList ↔
      ∃ a ∈ starts, ∃ b s, ReflTransGen g.Refers a b ∧ LastAt FileSet.id g.fileSets b s ∧ id ∈ s.artifacts := by
  simp only [expand, SortedSet.mem_ofList, List.mem_flatMap, mem_reached, reachable_iff, mem_members_iff]
  constructor
  · rintro ⟨b, ⟨a, ha, -, hab⟩, s, hs, hid⟩
    exact ⟨a, ha, b, s, hab, hs, hid⟩
  · rintro ⟨a, ha, b, s, hab, hs, hid⟩
    -- a set that refers to another one is defined, and so is one that lists an artifact
    have had : a ∈ g.fileSets.map (·.id) := by
      rcases hab.cases_head with rfl | ⟨c, ⟨r, -, hr, -⟩, -⟩
      · exact hs.mem_map
      · exact hr.mem_map
    exact ⟨b, ⟨a, ha, had, hab⟩, s, hs, hid⟩

/-! ## Inputs -/

/-- the first target with the label, whose id counts -/
def FirstLabelled (ts : List Target) (label : String) (t : Target) : Prop :=
  ∃ before after, ts = before ++ t :: after ∧ t.label = label ∧ ∀ u ∈ before, u.label ≠ label

theorem targetId_eq_ok_iff {label : String} {id : Nat} :
    g.targetId label = .ok id ↔ ∃ t, FirstLabelled g.targets label t ∧ t.id = id := by
  have hfirst : ∀ t, g.targets.find? (fun t => t.label == label) = some t ↔ FirstLabelled g.targets label t := by
    intro t
    rw [List.find?_eq_some_iff_append, FirstLabelled]
    simp only [beq_iff_eq, Bool.not_eq_true', beq_eq_false_iff_ne]
    constructor
    · rintro ⟨hl, before, after, heq, hb⟩
      exact ⟨before, after, heq, hl, hb⟩
    · rintro ⟨before, after, heq, hl, hb⟩
      exact ⟨hl, before, after, heq, hb⟩
  simp only [← hfirst, targetId]
  cases g.targets.find? fun t => t.label == label <;> simp

theorem exists_targetId {label : String} (h : ∃ t ∈ g.targets, t.label = label) : ∃ id, g.targetId label = .ok id := by
  obtain ⟨t, ht, hl⟩ := h
  have hsome : (g.targets.find? fun t => t.label == label).isSome := by
    rw [List.find?_isSome]
    exact ⟨t, ht, by simpa using hl⟩
  obtain ⟨u, hu⟩ := Option.isSome_iff_exists.1 hsome
  exact ⟨u.id, by rw [targetId, hu]⟩

/-- The address `uri` is an input of the target: an action of the first target with the label takes a set, references
lead from this one to another, that one lists an artifact with a path, and the address has this path and one of the
endings. -/
structure IsInput (g : ActionGraph) (label : String) (endings : List String) (uri : String) : Prop where
  found : ∃ t, FirstLabelled g.targets label t ∧ ∃ action ∈ g.actions, action.targetId = t.id ∧
    ∃ a ∈ action.inputSets, ∃ b s, ReflTransGen g.Refers a b ∧ LastAt FileSet.id g.fileSets b s ∧
      ∃ id ∈ s.artifacts, ∃ artifact, LastAt Artifact.id g.artifacts id artifact ∧
        ∃ path, g.HasPath artifact path ∧ uri = scheme ++ path
  ending : ∃ e ∈ endings, e.toList <:+ uri.toList

theorem hasEnding_iff {endings : List String} {s : String} :
    hasEnding endings s = true ↔ ∃ e ∈ endings, e.toList <:+ s.toList := by
  simp [hasEnding, endsWith, List.isSuffixOf_iff_suffix]

theorem inputs_eq_ok_iff {label : String} {endings uris : List String} :
    g.inputs label endings = .ok uris ↔ ∃ id, g.targetId label = .ok id ∧
      uris = (SortedSet.ofList ((((g.expand
        ((g.actions.filter fun a => a.targetId == id).flatMap (·.inputSets))).toList.filterMap g.path?).map
          (scheme ++ ·)).filter (hasEnding endings))).toList := by
  simp only [inputs, actionsOf, Outcome.bind_eq_ok_iff, Outcome.pure_eq_ok_iff]
  constructor
  · rintro ⟨actions, ⟨id, hid, rfl⟩, rfl⟩
    exact ⟨id, hid, rfl⟩
  · rintro ⟨id, hid, rfl⟩
    exact ⟨_, ⟨id, hid, rfl⟩, rfl⟩

/-- what is found for a target is an input of it, and every input is found -/
theorem mem_of_inputs_eq_ok {label : String} {endings uris : List String} (h : g.inputs label endings = .ok uris)
    {uri : String} : uri ∈ uris ↔ g.IsInput label endings uri := by
  obtain ⟨id, hid, rfl⟩ := inputs_eq_ok_iff.1 h
  simp only [SortedSet.mem_ofList, List.mem_filter, List.mem_map, List.mem_filterMap, mem_expand_iff,
    List.mem_flatMap, hasEnding_iff, path?_eq_some_iff, beq_iff_eq]
  constructor
  · rintro ⟨⟨path, ⟨file, ⟨a, ⟨action, ⟨haction, htarget⟩, ha⟩, b, s, hab, hs, hfile⟩, artifact, hartifact, hpath⟩,
      rfl⟩, hending⟩
    obtain ⟨t, ht, rfl⟩ := targetId_eq_ok_iff.1 hid
    exact ⟨⟨t, ht, action, haction, htarget, a, ha, b, s, hab, hs, file, hfile, artifact, hartifact, path, hpath, rfl⟩,
      hending⟩
  · rintro ⟨⟨t, ht, action, haction, htarget, a, ha, b, s, hab, hs, file, hfile, artifact, hartifact, path, hpath, rfl⟩,
      hending⟩
    have hsame : t.id = id := Except.ok.inj ((targetId_eq_ok_iff.2 ⟨t, ht, rfl⟩).symm.trans hid)
    exact ⟨⟨path, ⟨file, ⟨a, ⟨action, ⟨haction, htarget.trans hsame⟩, ha⟩, b, s, hab, hs, hfile⟩, artifact, hartifact,
      hpath⟩, rfl⟩, hending⟩

/-- **The inputs of a target.** For a label that some target carries they are found: a strictly ascending list of
exactly the addresses that are inputs. -/
theorem mem_inputs_iff {label : String} (h : ∃ t ∈ g.targets, t.label = label) (endings : List String) :
    ∃ uris, g.inputs label endings = .ok uris ∧ uris.Pairwise (· < ·) ∧
      ∀ uri, uri ∈ uris ↔ g.IsInput label endings uri := by
  obtain ⟨id, hid⟩ := exists_targetId h
  obtain ⟨uris, hok⟩ : ∃ uris, g.inputs label endings = .ok uris := ⟨_, inputs_eq_ok_iff.2 ⟨id, hid, rfl⟩⟩
  have hascending : uris.Pairwise (· < ·) := by
    obtain ⟨-, -, rfl⟩ := inputs_eq_ok_iff.1 hok
    exact (SortedSet.ascending _).imp fun hlt => compare_lt_iff_lt.1 hlt
  exact ⟨uris, hok, hascending, fun uri => mem_of_inputs_eq_ok hok⟩

/-- Sets in a circle that refer to a missing one, a set and an artifact defined twice, fragments in a circle, and two
targets with one label. -/
def tangled : ActionGraph where
  artifacts :=
    [⟨1, none, some "old.jar"⟩, ⟨1, none, some "lib/b.jar"⟩, ⟨2, some 3, none⟩, ⟨3, some 5, none⟩, ⟨4, none, none⟩]
  actions := [{ targetId := 7, inputSets := [10, 99] }, { targetId := 8, inputSets := [12] }]
  targets := [⟨7, "//app:app"⟩, ⟨8, "//app:app"⟩]
  fileSets := [⟨11, [8], []⟩, ⟨10, [1, 9], [11, 98]⟩, ⟨11, [2, 3, 4, 1], [10, 11]⟩, ⟨12, [1], []⟩]
  fragments := [⟨1, "out", 0⟩, ⟨3, "a.jar", 1⟩, ⟨5, "x", 6⟩, ⟨6, "y", 5⟩]

/-- the inputs of the tangled target; `out/a.jar` is one, through the set 11, which is first entered from the set 10 -/
theorem tangled_inputs :
    (∃ t ∈ tangled.targets, t.label = "//app:app") ∧
      ∃ uris, tangled.inputs "//app:app" [".jar"] = .ok uris ∧ uris.Pairwise (· < ·) ∧
        (∀ uri, uri ∈ uris ↔ tangled.IsInput "//app:app" [".jar"] uri) ∧ "exec-root://out/a.jar" ∈ uris := by
  have hlabel : ∃ t ∈ tangled.targets, t.label = "//app:app" := by decide
  obtain ⟨uris, hok, hascending, hmem⟩ := mem_inputs_iff hlabel [".jar"]
  have htarget : FirstLabelled tangled.targets "//app:app" ⟨7, "//app:app"⟩ := ⟨[], _, rfl, rfl, by simp⟩
  have hten : LastAt FileSet.id tangled.fileSets 10 ⟨10, [1, 9], [11, 98]⟩ := fileSet?_eq_some_iff.1 (by decide)
  have heleven : LastAt FileSet.id tangled.fileSets 11 ⟨11, [2, 3, 4, 1], [10, 11]⟩ :=
    fileSet?_eq_some_iff.1 (by decide)
  have hartifact : LastAt Artifact.id tangled.artifacts 2 ⟨2, some 3, none⟩ := artifact?_eq_some_iff.1 (by decide)
  have hline : tangled.Lineage 3 ["out", "a.jar"] :=
    .child (by decide) (fragment?_eq_some_iff.1 (by decide : tangled.fragment? 3 = some ⟨3, "a.jar", 1⟩))
      (.child (by decide) (fragment?_eq_some_iff.1 (by decide : tangled.fragment? 1 = some ⟨1, "out", 0⟩)) .outside)
  have hinput : tangled.IsInput "//app:app" [".jar"] "exec-root://out/a.jar" :=
    { found := ⟨_, htarget, { targetId := 7, inputSets := [10, 99] }, by decide, rfl, 10, by decide, 11, _,
        .single ⟨_, _, hten, by decide, heleven⟩, heleven, 2, by decide, _, hartifact, "out/a.jar",
        .inr ⟨rfl, 3, _, rfl, hline, by decide⟩, by decide⟩
      ending := by decide }
  exact ⟨hlabel, uris, hok, hascending, hmem, (hmem _).2 hinput⟩

end BuildImport.ActionGraph
