/-
What merging leaves of payloads, and when it fails.

The payloads of a directory are put together two by two, in the order of their modules. Two for Java do not go together;
but one for Scala, once met, stays whatever follows. So only the first two payloads can clash, and of those that do not
clash the first one for Scala is left, else the only one there is.

- `mergePayloads_of_clash`, `exists_survives_of_not_clash`: a list of payloads clashes or leaves one (`Survives`).
- `merge_eq_error_iff`, `merges_iff`: merging fails iff the payloads of some directory clash, always with one error.
- `survives_of_mem_merge`: the payload of each module of the result is what its directory leaves.

`createProject_fails_iff` says this of imports, where the modules of a directory stand in the order of their labels.
-/
import Mathlib.Tactic
import BuildImport.Proofs.Grouping
import BuildImport.Proofs.Selection

namespace BuildImport

open Outcome

namespace Merging

/-! ## Payloads in their order -/

/-- the first two payloads are both for Java -/
def Clash (ps : List Payload) : Prop := (ps.map (·.kind)).take 2 = [.java, .java]

instance (ps : List Payload) : Decidable (Clash ps) := inferInstanceAs (Decidable (_ = _))

/-- what is left of payloads that do not clash: nothing of none, else the first one for Scala, else the only one -/
def Survives (ps : List Payload) : Option Payload → Prop
  | none => ps = []
  | some (.scala s) => ∃ before after, ps = before ++ .scala s :: after ∧ ∀ p ∈ before, p.kind = .java
  | some (.java j) => ps = [.java j]

/-- the one error of merging -/
def twoJava : Error := .mergeUnsupported .java .java

/-- a payload for Scala stays, whatever follows -/
theorem foldlM_mergeTwo_scala (s : ScalaPayload) (ps : List Payload) :
    ps.foldlM mergeTwo (.scala s) = .ok (.scala s) := by
  induction ps with
  | nil => rfl
  | cons p ps ih => exact ih

theorem mergePayloads_scala (s : ScalaPayload) (ps : List Payload) :
    mergePayloads (.scala s :: ps) = .ok (some (.scala s)) := by
  rw [mergePayloads, foldlM_mergeTwo_scala]
  rfl

theorem mergePayloads_java_scala (j : JavaPayload) (s : ScalaPayload) (ps : List Payload) :
    mergePayloads (.java j :: .scala s :: ps) = .ok (some (.scala s)) := by
  have hfold : (Payload.scala s :: ps).foldlM mergeTwo (.java j) = ps.foldlM mergeTwo (.scala s) := rfl
  rw [mergePayloads, hfold, foldlM_mergeTwo_scala]
  rfl

/-- **Payloads that clash cannot be put together.** -/
theorem mergePayloads_of_clash {ps : List Payload} (h : Clash ps) : mergePayloads ps = .error twoJava := by
  match ps with
  | [] => simp [Clash] at h
  | [_] => simp [Clash] at h
  | .java _ :: .java _ :: _ => rfl
  | .java _ :: .scala _ :: _ => simp [Clash, Payload.kind] at h
  | .scala _ :: _ :: _ => simp [Clash, Payload.kind] at h

/-- **Payloads that do not clash leave one**, if there is any. -/
theorem exists_survives_of_not_clash {ps : List Payload} (h : ¬ Clash ps) :
    ∃ o, mergePayloads ps = .ok o ∧ Survives ps o := by
  match ps with
  | [] => exact ⟨none, rfl, rfl⟩
  | [.java j] => exact ⟨some (.java j), rfl, rfl⟩
  | .scala s :: rest => exact ⟨some (.scala s), mergePayloads_scala s rest, [], rest, rfl, by simp⟩
  | .java j :: .scala s :: rest =>
    exact ⟨some (.scala s), mergePayloads_java_scala j s rest, [.java j], rest, rfl, by simp [Payload.kind]⟩
  | .java _ :: .java _ :: _ => exact absurd rfl h

theorem survives_of_mergePayloads {ps : List Payload} {o : Option Payload} (h : mergePayloads ps = .ok o) :
    Survives ps o := by
  by_cases hc : Clash ps
  · simp [mergePayloads_of_clash hc] at h
  · obtain ⟨o', ho', hs⟩ := exists_survives_of_not_clash hc
    obtain rfl : o' = o := Except.ok.inj (ho'.symm.trans h)
    exact hs

/-! ## Groups -/

/-- one payload does not clash -/
theorem not_clash_singleton (m : Module) : ¬ Clash ([m].filterMap (·.payload)) := by
  cases hp : m.payload <;> simp [Clash, hp]

theorem mergeGroup_of_clash {ignored : List String} {g : List Module} (h : Clash (g.filterMap (·.payload))) :
    mergeGroup ignored g = .error twoJava := by
  match g with
  | [] => simp [Clash] at h
  | [m] => exact absurd h (not_clash_singleton m)
  | head :: second :: rest =>
    rw [mergeGroup_of_two, mergePayloads_of_clash h]
    rfl

theorem exists_mergeGroup_of_not_clash (ignored : List String) {g : List Module}
    (h : ¬ Clash (g.filterMap (·.payload))) : ∃ o, mergeGroup ignored g = .ok o := by
  match g with
  | [] => exact ⟨none, rfl⟩
  | [m] => exact ⟨some m, rfl⟩
  | head :: second :: rest =>
    obtain ⟨o, ho, -⟩ := exists_survives_of_not_clash h
    rw [mergeGroup_of_two, ho]
    exact ⟨_, rfl⟩

theorem mergeGroup_eq_error_iff {ignored : List String} {g : List Module} {e : Error} :
    mergeGroup ignored g = .error e ↔ e = twoJava ∧ Clash (g.filterMap (·.payload)) := by
  by_cases hc : Clash (g.filterMap (·.payload))
  · simp [mergeGroup_of_clash hc, hc, eq_comm]
  · obtain ⟨o, ho⟩ := exists_mergeGroup_of_not_clash ignored hc
    simp [ho, hc]

/-- **The payload of the module for a group** is what the payloads of its members leave. -/
theorem Folds.survives {ignored : List String} {g : List Module} {n : Module} (h : Folds ignored g n) :
    Survives (g.filterMap (·.payload)) n.payload := by
  rcases folds_iff.1 h with rfl | ⟨head, second, rest, payload, rfl, hp, rfl⟩
  · cases hp : n.payload with
    | none => simp [Survives, hp]
    | some p =>
      cases p with
      | java j => simp [Survives, hp]
      | scala s => exact ⟨[], [], by simp [hp], by simp⟩
  · exact survives_of_mergePayloads hp

/-! ## All modules -/

/-- the payloads that the modules of a directory carry, in the order of the modules -/
def payloadsIn (ms : List Module) (d : Path) : List Payload := (inDirectory ms d).filterMap (·.payload)

/-- the payloads of some group clash just if those of some directory do -/
theorem exists_clash_iff {ms : List Module} :
    (∃ g ∈ groups ms, Clash (g.filterMap (·.payload))) ↔ ∃ d, Clash (payloadsIn ms d) := by
  constructor
  · rintro ⟨g, hg, hc⟩
    obtain ⟨x, -, rfl⟩ := mem_groups_iff.1 hg
    exact ⟨x.baseDirectory, hc⟩
  · rintro ⟨d, hc⟩
    obtain ⟨x, hx⟩ : ∃ x, x ∈ inDirectory ms d := by
      apply List.exists_mem_of_ne_nil
      intro hnil
      simp [payloadsIn, hnil, Clash] at hc
    obtain ⟨hx, hs⟩ := mem_inDirectory.1 hx
    refine ⟨_, mem_groups_iff.2 ⟨x, hx, rfl⟩, ?_⟩
    rwa [payloadsIn, ← inDirectory_congr hs] at hc

/-- **When merging fails.** The payloads of some directory clash; the error is always the same. -/
theorem merge_eq_error_iff {ignored : List String} {ms : List Module} {e : Error} :
    merge ignored ms = .error e ↔ e = twoJava ∧ ∃ d, Clash (payloadsIn ms d) := by
  rw [merge_eq, map_eq_error_iff, mapM_eq_error_iff fun g _ e he => (mergeGroup_eq_error_iff.1 he).1, ← exists_clash_iff]
  simp only [mergeGroup_eq_error_iff, true_and]

/-- merging succeeds -/
def Merges (ignored : List String) (ms : List Module) : Prop := ∃ out, merge ignored ms = .ok out

theorem merges_iff {ignored : List String} {ms : List Module} :
    Merges ignored ms ↔ ∀ d, ¬ Clash (payloadsIn ms d) := by
  rw [← not_exists]
  constructor
  · rintro ⟨out, hout⟩ hc
    rw [merge_eq_error_iff.2 ⟨rfl, hc⟩] at hout
    simp at hout
  · intro hc
    cases h : merge ignored ms with
    | error e => exact absurd (merge_eq_error_iff.1 h).2 hc
    | ok out => exact ⟨out, h⟩

/-- **The payload of a module of the result** is what the payloads of its directory leave. -/
theorem survives_of_mem_merge {ignored : List String} {ms out : List Module} (h : merge ignored ms = .ok out)
    {o : Module} (ho : o ∈ out) : Survives (payloadsIn ms o.baseDirectory) o.payload := by
  obtain ⟨g, hg, n, hn, rfl⟩ := exists_folds_of_mem h ho
  have hdirectory : inDirectory ms (redirect (renamingTable ms) n).baseDirectory = g := hn.inDirectory_eq hg
  rw [payloadsIn, hdirectory]
  exact hn.survives

end Merging

/-! ## Imports -/

namespace Mapping

variable {m : Mapping} {t : FileTree} {u : Universe} {view : ProjectView}

/-- the import is to merge, and the payloads of some directory clash -/
def Clashes (m : Mapping) (t : FileTree) (u : Universe) : Prop :=
  m.merge.enabled = true ∧ ∃ d, Merging.Clash (Merging.payloadsIn (m.imported t u) d)

theorem mergeModules_eq_error_iff {ms : List Module} {e : Error} :
    m.mergeModules false ms = .error e ↔
      m.merge.enabled = true ∧ Merging.merge m.merge.ignoredRoots ms = .error e := by
  unfold mergeModules
  split_ifs with henabled
  · rw [bind_eq_error_iff]
    simp [check, henabled]
  · simp [henabled]

theorem createProject_eq_error_iff (hp : m.plugins = Plugin.standard) {e : Error} :
    m.createProject t u view false = .error e ↔ e = .mergeUnsupported .java .java ∧ m.Clashes t u := by
  rw [createProject_eq hp, map_eq_error_iff, mergeModules_eq_error_iff, Merging.merge_eq_error_iff, and_left_comm]
  rfl

/-- in a project of merged modules each module with a target has the payload that its directory leaves -/
theorem survives_of_createProject {stop : Bool} {p : Project} (hon : m.merge.enabled = true)
    (h : m.createProject t u view stop = .ok p) {x : Module} (hx : x ∈ p.modules) (hreal : x.isSynthetic = false) :
    Merging.Survives (Merging.payloadsIn (m.imported t u) x.baseDirectory) x.payload := by
  obtain ⟨-, ms, hms, rfl⟩ := createProject_eq_ok_iff.1 h
  rw [mergeModules_eq_ok_iff, if_pos hon] at hms
  rcases List.mem_append.1 hx with hx | hx
  · exact Merging.survives_of_mem_merge hms.2 hx
  · have hsynthetic := isSynthetic_of_mem_placeholdersFor hx
    simp [hreal] at hsynthetic

/-- **When an import fails, and which payload is left.** With the plugins for the Java machine an import fails just if it
is to merge and the first two payloads of some directory are both for Java, its modules taken in the order of their
labels; and the error says so. Any other import gives a project, and if it merges, the payload of a module is what those
of its members leave: nothing of none, else the first one for Scala, else the only one. -/
theorem createProject_fails_iff (hk : u.Keyed) (hp : m.plugins = Plugin.standard) :
    ((m.imported t u).Pairwise fun x y => x.label.text < y.label.text) ∧
    (∀ e, m.createProject t u view false = .error e ↔ e = .mergeUnsupported .java .java ∧ m.Clashes t u) ∧
    (¬ m.Clashes t u → ∃ p, m.createProject t u view false = .ok p ∧
      (m.merge.enabled = true → ∀ x ∈ p.modules, x.isSynthetic = false →
        Merging.Survives (Merging.payloadsIn (m.imported t u) x.baseDirectory) x.payload)) := by
  refine ⟨?_, fun e => createProject_eq_error_iff hp, fun hno => ?_⟩
  · apply (pairwise_imported m t hk).imp
    intro x y hlt
    have hlt : compare x.label.text y.label.text = .lt := hlt
    exact compare_lt_iff_lt.1 hlt
  · cases h : m.createProject t u view false with
    | error e => exact absurd ((createProject_eq_error_iff hp).1 h).2 hno
    | ok p => exact ⟨p, rfl, fun hon x hx hreal => survives_of_createProject hon h hx hreal⟩

def javaLibrary (id : String) : TargetRecord :=
  { id, kind := "java_library", sources := [.source "svc/Service.java"], java := some {} }

def scalaLibrary (id : String) : TargetRecord :=
  { id, kind := "scala_library", sources := [.source "svc/Service.scala"], scala := some {} }

/-- three libraries of one package; the one for Scala comes last -/
def scalaLast : Universe :=
  .ofLists [javaLibrary "//svc:a", javaLibrary "//svc:b", scalaLibrary "//svc:c"] ["//svc:a", "//svc:b", "//svc:c"]

/-- the same libraries by other names; the one for Scala comes second -/
def scalaSecond : Universe :=
  .ofLists [javaLibrary "//svc:a", scalaLibrary "//svc:b", javaLibrary "//svc:c"] ["//svc:a", "//svc:b", "//svc:c"]

/-- the import of `scalaLast` fails, that of `scalaSecond` leaves the payload for Scala -/
theorem scalaLast_fails :
    scalaLast.Keyed ∧ scalaSecond.Keyed ∧ partImport.plugins = Plugin.standard ∧
    partImport.Clashes ⟨∅, []⟩ scalaLast ∧ ¬ partImport.Clashes ⟨∅, []⟩ scalaSecond ∧
    partImport.createProject ⟨∅, []⟩ scalaLast .standard false = .error (.mergeUnsupported .java .java) ∧
    ((partImport.imported ⟨∅, []⟩ scalaSecond).Pairwise fun x y => x.label.text < y.label.text) ∧
    ∃ p, partImport.createProject ⟨∅, []⟩ scalaSecond .standard false = .ok p ∧
      (partImport.merge.enabled = true → ∀ x ∈ p.modules, x.isSynthetic = false →
        Merging.Survives (Merging.payloadsIn (partImport.imported ⟨∅, []⟩ scalaSecond) x.baseDirectory) x.payload) := by
  have hlast : scalaLast.Keyed := Universe.keyed_ofLists _ _
  have hsecond : scalaSecond.Keyed := Universe.keyed_ofLists _ _
  have hclash : partImport.Clashes ⟨∅, []⟩ scalaLast := ⟨rfl, ⟨"/ws/svc"⟩, by decide +kernel⟩
  have hno : ¬ partImport.Clashes ⟨∅, []⟩ scalaSecond := by
    rintro ⟨-, h⟩
    rw [← Merging.exists_clash_iff] at h
    exact absurd h (by decide +kernel)
  obtain ⟨-, hfails, -⟩ := @createProject_fails_iff partImport ⟨∅, []⟩ scalaLast .standard hlast rfl
  obtain ⟨horder, -, hgives⟩ := @createProject_fails_iff partImport ⟨∅, []⟩ scalaSecond .standard hsecond rfl
  exact ⟨hlast, hsecond, rfl, hclash, hno, (hfails _).2 ⟨rfl, hclash⟩, horder, hgives hno⟩

end Mapping

end BuildImport
