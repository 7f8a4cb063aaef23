/-
The one language level of a project.

Compiler options ask for a language level in two ways, and are read from left to right, so that the argument of an option
is never taken for an option itself: `Asks` are the rules. Every record with Java settings has its say, whether a module
is made of it or not. The level that is asked for most often wins, the smallest of several (`Wins`).

- `asks_iff`, `Universe.asked_iff`: options ask for just one list of levels, and so do the records of a universe.
- `wins_iff`: a list of levels has just one winner, that of the vote.
- `exists_imported_of_payload`: a payload in a project, merged or not, is that of an imported module.

`createProject_one_level`: all Java settings in the project of an import, a module's own and those inside settings for
Scala, have the winner for their level.
-/
import Mathlib.Tactic
import BuildImport.Proofs.Payloads
import BuildImport.Proofs.Traversal

namespace BuildImport

open Std Text Outcome

/-! ## Asking for a level -/

namespace Plugin

/-- the options whose argument is a language level -/
def TakesLevel (opt : String) : Prop := opt = "-source" ∨ opt = "--release"

instance (opt : String) : Decidable (TakesLevel opt) := inferInstanceAs (Decidable (_ ∨ _))

/-- options, from left to right, and the language levels that they ask for -/
inductive Asks : List String → List String → Prop
  | nothing : Asks [] []
  /-- whatever stands behind such an option is its argument, and not read again -/
  | argument {opt value : String} {opts levels : List String} :
      TakesLevel opt → Asks opts levels → Asks (opt :: value :: opts) (value :: levels)
  | unfinished {opt : String} : TakesLevel opt → Asks [opt] []
  | joined {value : String} {opts levels : List String} :
      Asks opts levels → Asks (("--release=" ++ value) :: opts) (value :: levels)
  | other {opt : String} {opts levels : List String} :
      ¬ TakesLevel opt → (∀ value, opt ≠ "--release=" ++ value) → Asks opts levels → Asks (opt :: opts) levels

theorem not_takesLevel_joined (value : String) : ¬ TakesLevel ("--release=" ++ value) := by
  have hlong : 10 ≤ ("--release=" ++ value).length := by
    rw [String.length_append]
    exact Nat.le_add_right 10 _
  rintro (h | h)
  all_goals
    rw [h] at hlong
    exact absurd hlong (by decide)

theorem dropPrefix?_takesLevel {opt : String} (h : TakesLevel opt) : dropPrefix? "--release=" opt = none := by
  rcases h with rfl | rfl <;> decide

theorem levelsIn_argument {opt : String} (h : TakesLevel opt) (value : String) (opts : List String) :
    levelsIn (opt :: value :: opts) = value :: levelsIn opts :=
  if_pos h

/-- an option that takes no argument is read by itself -/
theorem levelsIn_cons {opt : String} (h : ¬ TakesLevel opt) (opts : List String) :
    levelsIn (opt :: opts) = (dropPrefix? "--release=" opt).toList ++ levelsIn opts := by
  cases opts with
  | nil => simp [levelsIn]
  | cons value rest => exact if_neg h

theorem Asks.cons {opt : String} {opts levels : List String} (hopt : ¬ TakesLevel opt) (h : Asks opts levels) :
    Asks (opt :: opts) ((dropPrefix? "--release=" opt).toList ++ levels) := by
  cases hjoined : dropPrefix? "--release=" opt with
  | none =>
    refine .other hopt (fun value hvalue => ?_) h
    rw [Roots.dropPrefix?_eq_some_iff.2 hvalue] at hjoined
    cases hjoined
  | some value =>
    rw [Roots.dropPrefix?_eq_some_iff.1 hjoined]
    exact .joined h

theorem asks_levelsIn (opts : List String) : Asks opts (levelsIn opts) := by
  induction opts using levelsIn.induct with
  | case1 => exact .nothing
  | case2 opt =>
    by_cases hopt : TakesLevel opt
    · rw [levelsIn, dropPrefix?_takesLevel hopt]
      exact .unfinished hopt
    · rw [levelsIn_cons hopt]
      exact .cons hopt .nothing
  | case3 opt value rest hopt ih =>
    rw [levelsIn_argument hopt]
    exact .argument hopt ih
  | case4 opt value rest hopt ih =>
    rw [levelsIn_cons hopt]
    exact .cons hopt ih

/-- **Options ask for just one list of levels.** -/
theorem asks_iff {opts levels : List String} : Asks opts levels ↔ levels = levelsIn opts := by
  refine ⟨fun h => ?_, fun h => h ▸ asks_levelsIn opts⟩
  induction h with
  | nothing => rfl
  | argument hopt _ ih => rw [ih, levelsIn_argument hopt]
  | unfinished hopt => rw [levelsIn, dropPrefix?_takesLevel hopt]; rfl
  | joined _ ih => rw [ih, levelsIn_cons (not_takesLevel_joined _), Roots.dropPrefix?_eq_some_iff.2 rfl]; rfl
  | other hopt hother _ ih =>
    rw [ih, levelsIn_cons hopt,
      Option.eq_none_iff_forall_ne_some.2 fun v hv => hother v (Roots.dropPrefix?_eq_some_iff.1 hv)]
    rfl

end Plugin

/-- what the records with Java settings ask for, one after the other -/
def Universe.Asked (u : Universe) (votes : List String) : Prop :=
  ∃ parts, List.Forall₂ (fun info levels => Plugin.Asks info.javacOpts levels)
      (u.records.values.filterMap (·.java)) parts ∧
    votes = parts.flatten

/-- **The records of a universe ask for just one list of levels.** -/
theorem Universe.asked_iff {u : Universe} {votes : List String} : u.Asked votes ↔ votes = Plugin.levels u := by
  have hparts : ∀ infos parts,
      List.Forall₂ (fun (info : JavaInfo) levels => Plugin.Asks info.javacOpts levels) infos parts ↔
        parts = infos.map fun info => Plugin.levelsIn info.javacOpts := by
    intro infos parts
    simp only [Plugin.asks_iff]
    induction infos generalizing parts with
    | nil => simp
    | cons info infos ih => cases parts <;> simp [ih]
  have hlevels : Plugin.levels u =
      ((u.records.values.filterMap (·.java)).map fun info => Plugin.levelsIn info.javacOpts).flatten := by
    unfold Plugin.levels
    induction u.records.values with
    | nil => rfl
    | cons r rs ih =>
      rw [List.flatMap_cons, ih]
      cases hr : r.java with
      | none => rw [List.filterMap_cons_none hr]; rfl
      | some info => rw [List.filterMap_cons_some hr]; rfl
  simp only [Asked, hparts, exists_eq_left, hlevels]

/-! ## The winner -/

/-- the level that was asked for most often, the smallest of several; there is none of none -/
inductive Wins (votes : List String) : Option String → Prop
  | nobody : votes = [] → Wins votes none
  | most {level : String} : level ∈ votes →
      (∀ other ∈ votes, votes.count other < votes.count level ∨
        votes.count other = votes.count level ∧ level ≤ other) →
      Wins votes (some level)

theorem Wins.unique {votes : List String} {a b : Option String} (ha : Wins votes a) (hb : Wins votes b) : a = b := by
  cases ha with
  | nobody hnil =>
    cases hb with
    | nobody => rfl
    | most hb => simp [hnil] at hb
  | most hx hxmost =>
    cases hb with
    | nobody hnil => simp [hnil] at hx
    | most hy hymost =>
      -- neither of the two is asked for more often than the other, so they tie, and neither is greater
      rcases hxmost _ hy with hlt | ⟨htie, hxy⟩
      · rcases hymost _ hx with hgt | ⟨htie, -⟩ <;> omega
      · rcases hymost _ hx with hgt | ⟨-, hyx⟩
        · omega
        · rw [Std.le_antisymm hxy hyx]

section Greatest

variable {α : Type} {cmp : α → α → Ordering}

theorem greatest_append_singleton (xs : List α) (x : α) :
    greatest cmp (xs ++ [x]) = some ((greatest cmp xs).elim x fun b => greater cmp b x) := by
  unfold greatest
  rw [List.foldl_append]
  rfl

theorem greater_mem (a b : α) : greater cmp a b = a ∨ greater cmp a b = b := by
  unfold greater
  split_ifs
  · exact .inl rfl
  · exact .inr rfl

theorem isLE_greater_left [OrientedCmp cmp] (a b : α) : (cmp a (greater cmp a b)).isLE := by
  unfold greater
  split_ifs with h
  · simp [ReflCmp.compare_self]
  · exact Ordering.isLE_iff_ne_gt.2 h

theorem isLE_greater_right [OrientedCmp cmp] (a b : α) : (cmp b (greater cmp a b)).isLE := by
  unfold greater
  split_ifs with h
  · simp [OrientedCmp.gt_iff_lt.1 h]
  · simp [ReflCmp.compare_self]

theorem greatest_eq_none_iff {xs : List α} : greatest cmp xs = none ↔ xs = [] := by
  induction xs using List.reverseRecOn with
  | nil => simp [greatest]
  | append_singleton xs x _ => simp [greatest_append_singleton]

/-- **The greatest element is one of them, and none is greater.** -/
theorem greatest_spec [TransCmp cmp] {xs : List α} {g : α} (h : greatest cmp xs = some g) :
    g ∈ xs ∧ ∀ x ∈ xs, (cmp x g).isLE := by
  induction xs using List.reverseRecOn generalizing g with
  | nil => simp [greatest] at h
  | append_singleton xs x ih =>
    rw [greatest_append_singleton] at h
    cases hbest : greatest cmp xs with
    | none =>
      rw [hbest] at h
      obtain rfl : x = g := Option.some.inj h
      simp [greatest_eq_none_iff.1 hbest, ReflCmp.compare_self]
    | some b =>
      rw [hbest] at h
      obtain rfl : greater cmp b x = g := Option.some.inj h
      obtain ⟨hmem, hle⟩ := ih hbest
      constructor
      · have hone : greater cmp b x = b ∨ greater cmp b x = x := greater_mem b x
        rcases hone with he | he <;> simp [he, hmem]
      · intro y hy
        rcases List.mem_append.1 hy with hy | hy
        · exact TransCmp.isLE_trans (hle y hy) (isLE_greater_left b x)
        · rw [List.mem_singleton.1 hy]
          exact isLE_greater_right b x

end Greatest

theorem isLE_byVotes_iff {votes : List String} {a b : String} :
    (Plugin.byVotes votes a b).isLE ↔ votes.count a < votes.count b ∨ votes.count a = votes.count b ∧ b ≤ a := by
  have hvotes : Plugin.byVotes votes a b = (compare (votes.count a) (votes.count b)).then (compare b a) := rfl
  have hle : b ≤ a ↔ (compare b a).isLE := compare_le_iff_le.symm.trans Ordering.isLE_iff_ne_gt.symm
  rw [hvotes, hle, ← Nat.compare_eq_lt, ← Nat.compare_eq_eq]
  cases compare (votes.count a) (votes.count b) <;> simp

/-- **A list of levels has just one winner**, that of the vote. -/
theorem wins_iff {votes : List String} {level : Option String} :
    Wins votes level ↔ level = Plugin.mostFrequent votes := by
  have hwins : Wins votes (Plugin.mostFrequent votes) := by
    rw [Plugin.mostFrequent_eq_greatest]
    cases hg : greatest (Plugin.byVotes votes) (SortedSet.ofList votes).toList with
    | none =>
      refine .nobody (List.eq_nil_iff_forall_not_mem.2 fun v hv => ?_)
      have hv := SortedSet.mem_ofList.2 hv
      simp [greatest_eq_none_iff.1 hg] at hv
    | some level =>
      obtain ⟨hmem, hmost⟩ := greatest_spec hg
      exact .most (SortedSet.mem_ofList.1 hmem) fun other ho =>
        isLE_byVotes_iff.1 (hmost other (SortedSet.mem_ofList.2 ho))
  exact ⟨fun h => h.unique hwins, fun h => h ▸ hwins⟩

/-! ## The level in a project -/

namespace Plugin

/-- a plugin for the Java machine that had a look at the universe gives its payloads the level of the universe -/
theorem javaVersion_of_payload? {u : Universe} {ps : List Plugin} (hps : ps = standard.map (prepare u))
    {ls : SortedSet Language} {r : Roots} {t : FileTree} {record : TargetRecord} {payload : Payload}
    (h : (choose ps ls).payload? r t record = some payload) {j : JavaPayload} (hj : payload.java? = some j) :
    j.javaVersion = level u := by
  have hjava : ∀ {j}, javaPayload? (level u) r t record = some j → j.javaVersion = level u := by
    intro j hj
    obtain ⟨info, -, rfl⟩ := Option.map_eq_some_iff.1 hj
    rfl
  subst hps
  unfold choose at h
  cases hf : (standard.map (prepare u)).find? fun p => p.languages.any ls.contains with
  | none =>
    rw [hf] at h
    cases h
  | some p =>
    rw [hf] at h
    obtain ⟨q, hq, rfl⟩ := List.mem_map.1 (List.mem_of_find?_eq_some hf)
    simp only [standard, List.mem_cons, List.not_mem_nil, or_false] at hq
    rcases hq with rfl | rfl
    · obtain ⟨info, -, rfl⟩ := Option.map_eq_some_iff.1 h
      exact hjava hj
    · obtain ⟨j', hj', rfl⟩ := Option.map_eq_some_iff.1 h
      exact hjava (hj'.trans hj)

end Plugin

/-- what is left of payloads is one of them -/
theorem Merging.Survives.mem {ps : List Payload} {payload : Payload} (h : Survives ps (some payload)) :
    payload ∈ ps := by
  cases payload with
  | java j =>
    have h : ps = [.java j] := h
    simp [h]
  | scala s =>
    obtain ⟨before, after, rfl, -⟩ := h
    simp

theorem Placeholder.payload_of_mem_make {workspace : Path} {ms : List Module} {view : ProjectView} {x : Module}
    (hx : x ∈ make workspace ms view) : x.payload = none := by
  unfold make at hx
  split_ifs at hx
  · simp at hx
  · rw [List.mem_singleton.1 hx]
    rfl
  · obtain ⟨d, -, rfl⟩ := List.mem_map.1 hx
    rfl

namespace Mapping

variable {m : Mapping} {t : FileTree} {u : Universe} {view : ProjectView} {stop : Bool} {p : Project}

/-- **Payloads are those of imported modules**, whether these are merged or not. -/
theorem exists_imported_of_payload (h : m.createProject t u view stop = .ok p) {x : Module} (hx : x ∈ p.modules)
    {payload : Payload} (hpayload : x.payload = some payload) :
    ∃ y ∈ m.imported t u, y.payload = some payload := by
  obtain ⟨-, ms, hms, rfl⟩ := createProject_eq_ok_iff.1 h
  rcases List.mem_append.1 hx with hx | hx
  · rw [mergeModules_eq_ok_iff] at hms
    split_ifs at hms
    · have hleft := Merging.survives_of_mem_merge hms.2 hx
      rw [hpayload] at hleft
      obtain ⟨y, hy, hyp⟩ := List.mem_filterMap.1 hleft.mem
      exact ⟨y, (Merging.mem_inDirectory.1 hy).1, hyp⟩
    · exact ⟨x, hms ▸ hx, hpayload⟩
  · rw [Placeholder.payload_of_mem_make (mem_make_of_mem_placeholdersFor hx)] at hpayload
    cases hpayload

theorem javaVersion_of_mem_imported (hp : m.plugins = Plugin.standard) {x : Module} (hx : x ∈ m.imported t u)
    {payload : Payload} (hpayload : x.payload = some payload) {j : JavaPayload} (hj : payload.java? = some j) :
    j.javaVersion = Plugin.level u := by
  obtain ⟨r, -, hmade, -⟩ := mem_imported.1 hx
  obtain ⟨base, -, rfl⟩ := createModule_eq_ok_iff.1 hmade
  exact Plugin.javaVersion_of_payload? (by rw [prepare, hp]) hpayload hj

/-- **One language level for a project.** The compiler options of all records with Java settings, roots or not, ask for
some levels. In a project that an import gives with the plugins for the Java machine, all Java settings have the level
that is asked for most often, the smallest of several, and none if none is asked for. -/
theorem createProject_one_level (hp : m.plugins = Plugin.standard) (h : m.createProject t u view stop = .ok p) :
    ∃ votes level, u.Asked votes ∧ Wins votes level ∧
      ∀ x ∈ p.modules, ∀ payload ∈ x.payload, ∀ j ∈ payload.java?, j.javaVersion = level := by
  refine ⟨Plugin.levels u, Plugin.level u, Universe.asked_iff.2 rfl, wins_iff.2 rfl, ?_⟩
  intro x hx payload hpayload j hj
  obtain ⟨y, hy, hyp⟩ := exists_imported_of_payload h hx hpayload
  exact javaVersion_of_mem_imported hp hy hyp hj

/-- a program and two libraries, one of them for Scala, and a library elsewhere that no module is made of -/
def dividedLevels : Universe :=
  .ofLists
    [{ id := "//app:app", kind := "java_binary", sources := [.source "app/Main.java"],
       java := some { javacOpts := ["-source", "--release=8", "-Xlint", "--release=17"] } },
     { id := "//lib:core", kind := "scala_library", sources := [.source "lib/Core.scala"],
       java := some { javacOpts := ["--release", "17", "-source"] }, scala := some {} },
     { id := "//gen:gen", kind := "java_import", java := some { javacOpts := ["-source", "11", "--release=11"] } }]
    ["//app:app", "//lib:core"]

/-- `17` and `11` are asked for twice each, and `--release=8` is the argument of an option; both modules have `11` -/
theorem dividedLevels_one_level :
    partImport.plugins = Plugin.standard ∧
    ∃ p, partImport.createProject ⟨∅, []⟩ dividedLevels .standard false = .ok p ∧
      p.modules.filterMap (fun x => x.payload.map fun payload => (payload.kind, payload.java?.map (·.javaVersion))) =
        [(.java, some (some "11")), (.scala, some (some "11"))] ∧
      Plugin.levels dividedLevels = ["--release=8", "17", "11", "11", "17"] ∧
      ∃ votes level, dividedLevels.Asked votes ∧ Wins votes level ∧
        ∀ x ∈ p.modules, ∀ payload ∈ x.payload, ∀ j ∈ payload.java?, j.javaVersion = level := by
  obtain ⟨p, hp, hlevels⟩ := any_toOption_iff.1 (show
    (partImport.createProject ⟨∅, []⟩ dividedLevels .standard false).toOption.any (fun p => decide
      (p.modules.filterMap (fun x => x.payload.map fun payload => (payload.kind, payload.java?.map (·.javaVersion))) =
        [(.java, some (some "11")), (.scala, some (some "11"))])) = true by decide +kernel)
  exact ⟨rfl, p, hp, of_decide_eq_true hlevels, by decide, createProject_one_level rfl hp⟩

end Mapping

end BuildImport
