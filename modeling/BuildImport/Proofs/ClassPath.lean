/-
The class path inputs of a target as paths.

An address is the path of a file with the scheme in front. Addresses are found, kept by their endings and put in order;
then the scheme is taken off again and what is left is joined to an execution root. `inputPaths_spec` says what comes of
this for each path that the target takes (`Takes`).

- Endings and order are those of the paths (`isInput_classpath_iff`, `lt_of_scheme_lt`): the scheme ends in a slash,
  before which no ending reaches, and it is the same in front of all of them.
- The scheme is taken off as often as it stands there. So a path that itself begins with the scheme does not come back
  (`join_dropPrefixes_iff`), and may meet another file's path (`nested_path_lost`). All other paths come back.
-/
import Mathlib.Tactic
import BuildImport.Proofs.ActionLists
import BuildImport.Proofs.ByteOrder
import BuildImport.Proofs.InputForms

namespace BuildImport.ActionGraph

open Text Relation

variable {g : ActionGraph} {label path : String} {endings : List String} {root : Path}

/-! ## Paths taken -/

/-- an action of the first target with the label takes a set, and references lead from it to one that lists an artifact
with the path -/
def Takes (g : ActionGraph) (label path : String) : Prop :=
  ∃ t, FirstLabelled g.targets label t ∧ ∃ action ∈ g.actions, action.targetId = t.id ∧
    ∃ a ∈ action.inputSets, ∃ b s, ReflTransGen g.Refers a b ∧ LastAt FileSet.id g.fileSets b s ∧
      ∃ id ∈ s.artifacts, ∃ artifact, LastAt Artifact.id g.artifacts id artifact ∧ g.HasPath artifact path

/-- the address of a path is an input just if the path is taken and the address has one of the endings -/
theorem isInput_scheme_iff :
    g.IsInput label endings (scheme ++ path) ↔ g.Takes label path ∧ hasEnding endings (scheme ++ path) = true := by
  rw [hasEnding_iff]
  constructor
  · intro h
    obtain ⟨t, ht, action, haction, htarget, a, ha, b, s, hab, hs, id, hid, artifact, hartifact, other, hpath, hsame⟩ :=
      h.found
    obtain rfl := (String.append_right_inj scheme).1 hsame
    exact ⟨⟨t, ht, action, haction, htarget, a, ha, b, s, hab, hs, id, hid, artifact, hartifact, hpath⟩, h.ending⟩
  · rintro ⟨⟨t, ht, action, haction, htarget, a, ha, b, s, hab, hs, id, hid, artifact, hartifact, hpath⟩, hending⟩
    exact ⟨⟨t, ht, action, haction, htarget, a, ha, b, s, hab, hs, id, hid, artifact, hartifact, path, hpath, rfl⟩,
      hending⟩

/-- no ending reaches into the scheme -/
theorem isInput_classpath_iff :
    g.IsInput label classpathEndings (scheme ++ path) ↔
      g.Takes label path ∧ (".jar".toList <:+ path.toList ∨ "js".toList <:+ path.toList) := by
  have hending : hasEnding classpathEndings (scheme ++ path) = hasEnding classpathEndings path :=
    hasEnding_of_closed classpathEndings_plain closed_scheme String.toList_append
  rw [isInput_scheme_iff, hending, hasEnding_iff]
  simp [classpathEndings]

theorem lt_of_scheme_lt {a b : String} (h : scheme ++ a < scheme ++ b) : a < b := by
  have hmono : ∀ {x y : String}, x < y → scheme ++ x < scheme ++ y := by
    intro x y hxy
    rw [String.lt_iff_toList_lt, String.toList_append, String.toList_append]
    exact List.append_left_lt (String.lt_iff_toList_lt.1 hxy)
  rcases lt_trichotomy a b with hlt | rfl | hgt
  · exact hlt
  · exact absurd h (lt_irrefl _)
  · exact absurd h (lt_asymm (hmono hgt))

/-- **The paths behind the addresses**: in the order of their bytes, none of them twice, all that belong on a class
path. -/
theorem exists_paths {uris : List String} (h : g.inputs label classpathEndings = .ok uris) :
    ∃ paths : List String, uris = paths.map (scheme ++ ·) ∧ paths.Pairwise (fun a b => bytes a < bytes b) ∧
      ∀ path, path ∈ paths ↔ g.Takes label path ∧ (".jar".toList <:+ path.toList ∨ "js".toList <:+ path.toList) := by
  have hmade : uris ∈ Set.range (List.map (scheme ++ ·)) := by
    rw [Set.range_list_map]
    intro uri huri
    obtain ⟨path, hpath⟩ := ((mem_of_inputs_eq_ok h).1 huri).exists_path
    exact ⟨path, hpath.symm⟩
  obtain ⟨paths, rfl⟩ := hmade
  refine ⟨paths, rfl, ?_, ?_⟩
  · have hascending := List.pairwise_map.1 (ascending_of_inputs_eq_ok h)
    exact hascending.imp fun hlt => bytes_lt_iff.2 (lt_of_scheme_lt hlt)
  · intro path
    rw [← isInput_classpath_iff, ← mem_of_inputs_eq_ok h, List.mem_map]
    constructor
    · intro hpath
      exact ⟨path, hpath, rfl⟩
    · rintro ⟨other, hother, hsame⟩
      exact (String.append_right_inj scheme).1 hsame ▸ hother

/-! ## Paths given back -/

/-- `d` is the execution root joined with what is left of `path` when the scheme is taken off as often as it stands
there -/
def IsShownAs (root : Path) (path : String) (d : Path) : Prop :=
  ∃ n rest, path.toList = repeated n scheme.toList ++ rest.toList ∧ startsWith scheme rest = false ∧
    d = root.join ⟨rest⟩

theorem isShownAs_dropPrefixes (root : Path) (path : String) :
    IsShownAs root path (root.join ⟨dropPrefixes scheme path⟩) := by
  obtain ⟨hgone, n, hn⟩ := (dropPrefixes_eq_iff (s := path) scheme_ne_empty).1 rfl
  exact ⟨n, _, hn, hgone, rfl⟩

/-- **Which paths come back**: those that do not begin with the scheme. -/
theorem join_dropPrefixes_iff :
    root.join ⟨dropPrefixes scheme path⟩ = root.join ⟨path⟩ ↔ startsWith scheme path = false := by
  have hprinted : IsLineFor root (printed root (scheme ++ path)) (scheme ++ path) ↔ startsWith scheme path = false :=
    isLineFor_printed_iff
  rw [← hprinted, isLineFor_scheme_iff, printed_scheme]
  -- a path is its text
  cases root.join ⟨dropPrefixes scheme path⟩
  cases root.join ⟨path⟩
  rw [Path.mk.injEq]

theorem inputPaths_eq (g : ActionGraph) (label : String) (root : Path) :
    g.inputPaths label root =
      (g.inputs label classpathEndings).map (List.map fun uri => root.join ⟨dropPrefixes scheme uri⟩) := by
  rw [inputPaths]
  cases g.inputs label classpathEndings <;> rfl

/-- **The class path inputs of a target.** Where some target has the label, they are found, one for each path that the
target takes and that ends in `.jar` or `js`, in the order of the bytes of these paths. Each is the execution root
joined with the path less the scheme in front of it; so all are the root joined with the path itself just if no path
begins with the scheme. For any other label the target is reported as unknown, with the labels that there are. -/
theorem inputPaths_spec (g : ActionGraph) (label : String) (root : Path) :
    ((∃ t ∈ g.targets, t.label = label) → ∃ (paths : List String) (found : List Path),
      g.inputPaths label root = .ok found ∧ paths.Pairwise (fun a b => bytes a < bytes b) ∧
      (∀ path, path ∈ paths ↔
        g.Takes label path ∧ (".jar".toList <:+ path.toList ∨ "js".toList <:+ path.toList)) ∧
      List.Forall₂ (IsShownAs root) paths found ∧
      (found = paths.map (fun path => root.join ⟨path⟩) ↔ ∀ path ∈ paths, startsWith scheme path = false)) ∧
    ((∀ t ∈ g.targets, t.label ≠ label) →
      g.inputPaths label root = .error (.targetNotFound label (g.targets.map (·.label)))) := by
  constructor
  · intro h
    obtain ⟨id, hid⟩ := exists_targetId h
    have hok : ∃ uris, g.inputs label classpathEndings = .ok uris := ⟨_, inputs_eq_ok_iff.2 ⟨id, hid, rfl⟩⟩
    obtain ⟨uris, huris⟩ := hok
    obtain ⟨paths, rfl, hascending, hmem⟩ := exists_paths huris
    have hfound : g.inputPaths label root = .ok (paths.map fun path => root.join ⟨dropPrefixes scheme path⟩) := by
      rw [inputPaths_eq, huris]
      simp only [Except.map, List.map_map, Function.comp_def, dropPrefixes_append scheme_ne_empty]
    refine ⟨paths, _, hfound, hascending, hmem, ?_, ?_⟩
    · rw [List.forall₂_map_right_iff, List.forall₂_same]
      intro path _
      exact isShownAs_dropPrefixes root path
    · rw [List.map_inj_left]
      exact forall₂_congr fun path _ => join_dropPrefixes_iff
  · intro h
    rw [inputPaths_eq, inputs_eq_error_iff.2 (targetId_of_unknown h)]
    rfl

/-- two archives, a source and a script; the path of one archive is that of the other one with the scheme in front -/
def nested : ActionGraph where
  artifacts :=
    [⟨1, none, some "lib/a.jar"⟩, ⟨2, none, some "exec-root://lib/a.jar"⟩, ⟨3, none, some "lib/A.java"⟩,
     ⟨4, none, some "z.js"⟩]
  actions := [{ targetId := 1, inputSets := [1] }]
  targets := [⟨1, "//app:app"⟩]
  fileSets := [⟨1, [4, 3, 2, 1], []⟩]

theorem nested_takes (id : Nat) (h : id ∈ [4, 3, 2, 1]) {path : String}
    (hpath : nested.artifact? id = some ⟨id, none, some path⟩) : nested.Takes "//app:app" path :=
  ⟨⟨1, "//app:app"⟩, ⟨[], [], rfl, rfl, by simp⟩, _, List.mem_singleton_self _, rfl, 1, by decide, 1, _, .refl,
    fileSet?_eq_some_iff.1 (by decide : nested.fileSet? 1 = some ⟨1, [4, 3, 2, 1], []⟩), id, h, _,
    artifact?_eq_some_iff.1 hpath, .inl rfl⟩

/-- both archives and the script are found, the source is not, and one path does not come back -/
theorem nested_found :
    (∃ t ∈ nested.targets, t.label = "//app:app") ∧ (∀ t ∈ nested.targets, t.label ≠ "//gone:gone") ∧
      (∃ (paths : List String) (found : List Path), nested.inputPaths "//app:app" ⟨"/r"⟩ = .ok found ∧
        paths.Pairwise (fun a b => bytes a < bytes b) ∧ "lib/a.jar" ∈ paths ∧ "exec-root://lib/a.jar" ∈ paths ∧
        "z.js" ∈ paths ∧ "lib/A.java" ∉ paths ∧ List.Forall₂ (IsShownAs ⟨"/r"⟩) paths found ∧
        found ≠ paths.map (fun path => Path.join ⟨"/r"⟩ ⟨path⟩)) ∧
      nested.inputPaths "//gone:gone" ⟨"/r"⟩ = .error (.targetNotFound "//gone:gone" ["//app:app"]) := by
  have hknown : ∃ t ∈ nested.targets, t.label = "//app:app" := by decide
  have hunknown : ∀ t ∈ nested.targets, t.label ≠ "//gone:gone" := by decide
  obtain ⟨paths, found, hok, hascending, hmem, hshown, hback⟩ :=
    (inputPaths_spec nested "//app:app" ⟨"/r"⟩).1 hknown
  have hlost := (inputPaths_spec nested "//gone:gone" ⟨"/r"⟩).2 hunknown
  have harchive : "lib/a.jar" ∈ paths := (hmem _).2 ⟨nested_takes 1 (by decide) (by decide), by decide⟩
  have hnested : "exec-root://lib/a.jar" ∈ paths := (hmem _).2 ⟨nested_takes 2 (by decide) (by decide), by decide⟩
  have hscript : "z.js" ∈ paths := (hmem _).2 ⟨nested_takes 4 (by decide) (by decide), by decide⟩
  have hsource : "lib/A.java" ∉ paths := fun h => absurd ((hmem _).1 h).2 (by decide)
  refine ⟨hknown, hunknown, ⟨paths, found, hok, hascending, harchive, hnested, hscript, hsource, hshown, ?_⟩, hlost⟩
  intro hsame
  exact absurd (hback.1 hsame _ hnested) (by decide)

/-- **Another file's path.** The paths of both archives are shown as the same one, and the second archive is not among
what is found. -/
theorem nested_path_lost :
    nested.Takes "//app:app" "exec-root://lib/a.jar" ∧
      nested.inputPaths "//app:app" ⟨"/r"⟩ = .ok [⟨"/r/lib/a.jar"⟩, ⟨"/r/lib/a.jar"⟩, ⟨"/r/z.js"⟩] ∧
      Path.join ⟨"/r"⟩ ⟨"exec-root://lib/a.jar"⟩ ∉ ([⟨"/r/lib/a.jar"⟩, ⟨"/r/lib/a.jar"⟩, ⟨"/r/z.js"⟩] : List Path) := by
  have hreached : Search.reached nested.subsets [1] [1] = [1] := by
    have hsubsets : nested.subsets 1 = [] := rfl
    simp [Search.reached, Search.explore, hsubsets]
  have hexpand : nested.expand [1] = .ofList [4, 3, 2, 1] := by
    change SortedSet.ofList ((Search.reached nested.subsets [1] [1]).flatMap nested.members) = _
    rw [hreached]
    rfl
  have hinputs : nested.inputs "//app:app" classpathEndings =
      .ok ["exec-root://exec-root://lib/a.jar", "exec-root://lib/a.jar", "exec-root://z.js"] := by
    refine inputs_eq_ok_iff.2 ⟨1, rfl, ?_⟩
    change _ = (SortedSet.ofList ((((nested.expand [1]).toList.filterMap nested.path?).map
      (scheme ++ ·)).filter (hasEnding classpathEndings))).toList
    rw [hexpand]
    decide +kernel
  refine ⟨nested_takes 2 (by decide) (by decide), ?_, by decide⟩
  rw [inputPaths_eq, hinputs]
  decide +kernel

end BuildImport.ActionGraph
