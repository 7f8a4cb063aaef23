/-
Lists of actions over one set of definitions.

The actions of a graph may come in several lists (`withActions`). What a list makes and takes for a target is told by
the list and by the definitions of targets, sets, artifacts and fragments, which all lists share.

- What is made is listed action by action, so the files of two lists stand one after the other (`outputsOf_append`).
- What is taken is found by one walk through the sets of all actions. Two lists may share sets, and walks may meet in
  circles; one walk from both still finds just what a walk from each finds (`reachable_append_iff`), so that files taken
  unite (`mem_inputsOf_append`).

`appended_actions` puts both together, with the one failure there is: an unknown target, reported alike whatever the
actions are.
-/
import Mathlib.Tactic
import BuildImport.Proofs.Inputs

namespace BuildImport

/-- what can be reached from two lists can be reached from one of them -/
theorem Search.reachable_append_iff {α : Type} {next : α → List α} {domain xs ys : List α} {x : α} :
    Reachable next domain (xs ++ ys) x ↔ Reachable next domain xs x ∨ Reachable next domain ys x := by
  constructor
  · intro h
    induction h with
    | start hs hd => exact (List.mem_append.1 hs).imp (fun hs => .start hs hd) fun hs => .start hs hd
    | step _ hy hd ih => exact ih.imp (fun hx => .step hx hy hd) fun hx => .step hx hy hd
  · rintro (h | h)
    · induction h with
      | start hs hd => exact .start (List.mem_append_left ys hs) hd
      | step _ hy hd ih => exact .step ih hy hd
    · induction h with
      | start hs hd => exact .start (List.mem_append_right xs hs) hd
      | step _ hy hd ih => exact .step ih hy hd

namespace ActionGraph

open Search Outcome

/-- the definitions of `g` with other actions -/
def withActions (g : ActionGraph) (as : List Action) : ActionGraph := { g with actions := as }

variable {g : ActionGraph} {label : String} {endings : List String} {as bs : List Action} {target : Nat}

theorem path?_withActions (as : List Action) : (g.withActions as).path? = g.path? := by
  have hclimb : ∀ bound id names, (g.withActions as).climb bound id names = g.climb bound id names := by
    intro bound id names
    fun_induction climb g bound id names with
    | case1 => rw [climb, if_pos rfl]
    | case2 id names hid hlong => rw [climb, if_neg hid, if_pos hlong]
    | case3 id names hid hshort hnone =>
      rw [climb, if_neg hid, if_neg hshort, show (g.withActions as).fragment? id = none from hnone]
    | case4 id names hid hshort f hf ih =>
      rw [climb, if_neg hid, if_neg hshort, show (g.withActions as).fragment? id = some f from hf]
      exact ih
  have hway : (g.withActions as).way = g.way := by
    funext id
    exact hclimb g.fragmentIds.size id []
  funext id
  simp only [path?, fragmentPath?, hway]
  rfl

/-! ## Files made -/

/-- the files that the actions of one target make, action by action -/
def outputsOf (g : ActionGraph) (endings : List String) (as : List Action) (target : Nat) : List String :=
  (((as.filter fun a => a.targetId == target).flatMap (·.outputs)).filterMap g.path?).filter (hasEnding endings)

theorem outputsOf_append :
    g.outputsOf endings (as ++ bs) target = g.outputsOf endings as target ++ g.outputsOf endings bs target := by
  simp only [outputsOf, List.filter_append, List.flatMap_append, List.filterMap_append]

theorem outputs_withActions :
    (g.withActions as).outputs label endings = (g.targetId label).map (g.outputsOf endings as) := by
  have htarget : (g.withActions as).targetId label = g.targetId label := rfl
  simp only [outputs, actionsOf, path?_withActions, htarget]
  cases g.targetId label <;> rfl

/-! ## Files taken -/

/-- what two lists of sets hold is what they hold one by one, also where they refer to the same sets -/
theorem mem_expand_append {xs ys : List Nat} {id : Nat} :
    id ∈ (g.expand (xs ++ ys)).toList ↔ id ∈ (g.expand xs).toList ∨ id ∈ (g.expand ys).toList := by
  simp only [expand, SortedSet.mem_ofList, List.mem_flatMap, mem_reached, reachable_append_iff, or_and_right, exists_or]

/-- the files that the actions of one target take, as a set of addresses -/
def inputsOf (g : ActionGraph) (endings : List String) (as : List Action) (target : Nat) : SortedSet String :=
  .ofList ((((g.expand ((as.filter fun a => a.targetId == target).flatMap (·.inputSets))).toList.filterMap
    g.path?).map (scheme ++ ·)).filter (hasEnding endings))

theorem mem_inputsOf_append {uri : String} :
    uri ∈ (g.inputsOf endings (as ++ bs) target).toList ↔
      uri ∈ (g.inputsOf endings as target).toList ∨ uri ∈ (g.inputsOf endings bs target).toList := by
  simp only [inputsOf, SortedSet.mem_ofList, List.mem_filter, List.mem_map, List.mem_filterMap, List.filter_append,
    List.flatMap_append, mem_expand_append, or_and_right, exists_or]

theorem inputs_withActions :
    (g.withActions as).inputs label endings = (g.targetId label).map fun id => (g.inputsOf endings as id).toList := by
  have htarget : (g.withActions as).targetId label = g.targetId label := rfl
  have hexpand : (g.withActions as).expand = g.expand := rfl
  simp only [inputs, actionsOf, path?_withActions, htarget, hexpand]
  cases g.targetId label <;> rfl

/-! ## Lists put together -/

theorem targetId_of_unknown (h : ∀ t ∈ g.targets, t.label ≠ label) :
    g.targetId label = .error (.targetNotFound label (g.targets.map (·.label))) := by
  have hnone : (g.targets.find? fun t => t.label == label) = none := by
    rw [List.find?_eq_none]
    simpa using h
  rw [targetId, hnone]

/-- **Outputs concatenate, inputs unite.** For a target that is defined, the outputs of two lists of actions put together
are those of the first list with those of the second behind them, and the inputs are those of either list, ascending
strictly. For any other target all queries fail alike, whatever the actions are, and name the labels of all targets in
their order. -/
theorem appended_actions (g : ActionGraph) (as bs : List Action) (label : String) (endings : List String) :
    ((∃ t ∈ g.targets, t.label = label) → ∃ outs outs' ins ins' all,
      (g.withActions as).outputs label endings = .ok outs ∧ (g.withActions bs).outputs label endings = .ok outs' ∧
      (g.withActions (as ++ bs)).outputs label endings = .ok (outs ++ outs') ∧
      (g.withActions as).inputs label endings = .ok ins ∧ (g.withActions bs).inputs label endings = .ok ins' ∧
      (g.withActions (as ++ bs)).inputs label endings = .ok all ∧
      all.Pairwise (· < ·) ∧ ∀ uri, uri ∈ all ↔ uri ∈ ins ∨ uri ∈ ins') ∧
    ((∀ t ∈ g.targets, t.label ≠ label) → ∀ actions : List Action,
      (g.withActions actions).outputs label endings = .error (.targetNotFound label (g.targets.map (·.label))) ∧
      (g.withActions actions).inputs label endings = .error (.targetNotFound label (g.targets.map (·.label)))) := by
  constructor
  · intro h
    obtain ⟨id, hid⟩ := exists_targetId h
    have houtputs : ∀ actions, (g.withActions actions).outputs label endings = .ok (g.outputsOf endings actions id) :=
      fun actions => by rw [outputs_withActions, hid]; rfl
    have hinputs : ∀ actions, (g.withActions actions).inputs label endings = .ok (g.inputsOf endings actions id).toList :=
      fun actions => by rw [inputs_withActions, hid]; rfl
    have hascending : (g.inputsOf endings (as ++ bs) id).toList.Pairwise (· < ·) :=
      (SortedSet.ascending _).imp fun hlt => compare_lt_iff_lt.1 hlt
    refine ⟨_, _, _, _, _, houtputs as, houtputs bs, ?_, hinputs as, hinputs bs, hinputs (as ++ bs), hascending,
      fun uri => mem_inputsOf_append⟩
    rw [houtputs, outputsOf_append]
  · intro h actions
    rw [outputs_withActions, inputs_withActions, targetId_of_unknown h]
    exact ⟨rfl, rfl⟩

/-- two sets in a circle, and a third one that refers to them -/
def circling : ActionGraph where
  artifacts := [⟨1, none, some "a.jar"⟩, ⟨2, none, some "b.jar"⟩, ⟨3, none, some "c.jar"⟩]
  targets := [⟨7, "//app:app"⟩, ⟨8, "//lib:lib"⟩]
  fileSets := [⟨10, [1], [11]⟩, ⟨11, [2], [10]⟩, ⟨12, [3], [11]⟩]

/-- takes a set of the circle and makes a file twice -/
def firstActions : List Action := [{ targetId := 7, inputSets := [10], outputs := [3, 1, 3] }]

/-- one of another target, and one that takes the set outside the circle -/
def laterActions : List Action :=
  [{ targetId := 8, inputSets := [10], outputs := [2] }, { targetId := 7, inputSets := [12], outputs := [1] }]

/-- both lists lead to `b.jar`, through sets that they share -/
theorem circling_appended :
    (∃ t ∈ circling.targets, t.label = "//app:app") ∧ (∀ t ∈ circling.targets, t.label ≠ "//gone:gone") ∧
      (circling.withActions (firstActions ++ laterActions)).outputs "//app:app" [".jar"] =
        .ok ["c.jar", "a.jar", "c.jar", "a.jar"] ∧
      (∃ ins ins' all, (circling.withActions firstActions).inputs "//app:app" [".jar"] = .ok ins ∧
        (circling.withActions laterActions).inputs "//app:app" [".jar"] = .ok ins' ∧
        (circling.withActions (firstActions ++ laterActions)).inputs "//app:app" [".jar"] = .ok all ∧
        all.Pairwise (· < ·) ∧ (∀ uri, uri ∈ all ↔ uri ∈ ins ∨ uri ∈ ins') ∧
        "exec-root://b.jar" ∈ ins ∧ "exec-root://b.jar" ∈ ins') ∧
      (circling.withActions laterActions).inputs "//gone:gone" [".jar"] =
        .error (.targetNotFound "//gone:gone" ["//app:app", "//lib:lib"]) := by
  have hknown : ∃ t ∈ circling.targets, t.label = "//app:app" := by decide
  have hunknown : ∀ t ∈ circling.targets, t.label ≠ "//gone:gone" := by decide
  obtain ⟨hfound, -⟩ := appended_actions circling firstActions laterActions "//app:app" [".jar"]
  obtain ⟨-, hlost⟩ := appended_actions circling firstActions laterActions "//gone:gone" [".jar"]
  obtain ⟨outs, outs', ins, ins', all, houts, houts', hboth, hins, hins', hall, hascending, hmem⟩ := hfound hknown
  obtain rfl : outs = ["c.jar", "a.jar", "c.jar"] := Except.ok.inj (houts.symm.trans (by cbv))
  obtain rfl : outs' = ["a.jar"] := Except.ok.inj (houts'.symm.trans (by cbv))
  -- the set 11 lists `b.jar`, and both 10 and 12 refer to it
  have heleven : LastAt FileSet.id circling.fileSets 11 ⟨11, [2], [10]⟩ := fileSet?_eq_some_iff.1 (by decide)
  have hten : LastAt FileSet.id circling.fileSets 10 ⟨10, [1], [11]⟩ := fileSet?_eq_some_iff.1 (by decide)
  have htwelve : LastAt FileSet.id circling.fileSets 12 ⟨12, [3], [11]⟩ := fileSet?_eq_some_iff.1 (by decide)
  have hfirst : 2 ∈ (circling.expand [10]).toList :=
    mem_expand_iff.2 ⟨10, by decide, 11, _, .single ⟨_, _, hten, by decide, heleven⟩, heleven, by decide⟩
  have hlater : 2 ∈ (circling.expand [12]).toList :=
    mem_expand_iff.2 ⟨12, by decide, 11, _, .single ⟨_, _, htwelve, by decide, heleven⟩, heleven, by decide⟩
  have haddress : ∀ sets actions, (actions.filter fun a => a.targetId == 7).flatMap (·.inputSets) = sets →
      2 ∈ (circling.expand sets).toList → "exec-root://b.jar" ∈ (circling.inputsOf [".jar"] actions 7).toList := by
    rintro sets actions rfl htwo
    rw [inputsOf, SortedSet.mem_ofList, List.mem_filter, List.mem_map]
    exact ⟨⟨"b.jar", List.mem_filterMap.2 ⟨2, htwo, by decide⟩, by decide⟩, by decide⟩
  rw [inputs_withActions] at hins hins'
  obtain rfl := Except.ok.inj hins
  obtain rfl := Except.ok.inj hins'
  exact ⟨hknown, hunknown, hboth, ⟨_, _, all, inputs_withActions, inputs_withActions, hall, hascending, hmem,
    haddress [10] firstActions rfl hfirst, haddress [12] laterActions rfl hlater⟩, (hlost hunknown laterActions).2⟩

end ActionGraph

end BuildImport
