/-
The two forms in which the input files of a target are printed: addresses, or paths below an execution root.

Addresses are kept by the endings that are asked for, paths by the endings of what belongs on a class path, whatever is
asked for. And the root is joined with what is left of an address when its scheme is taken off as often as it stands
there (`dropPrefixes_eq_iff`), so that a path that itself begins with the scheme is printed without it.

`inputs_forms_agree_iff` says that both forms fail alike, and when they list the same files: just if the endings that
are asked for select what belongs on a class path, and no address has the scheme twice. For the first, a line shows the
ending of its address (`hasEnding_printed`, `IsLineFor.hasEnding_eq`), because neither taking off the scheme nor joining
cuts behind the last slash. So if the lines agree then all addresses belong on a class path, and there are as many.
-/
import Mathlib.Tactic
import BuildImport.Session
import BuildImport.Proofs.Files
import BuildImport.Proofs.Inputs
import BuildImport.Proofs.Encodings
import BuildImport.Proofs.PackageLabels

namespace BuildImport

open Text

/-! ## Repeated beginnings -/

namespace Text

/-- `p`, `n` times over -/
def repeated (n : Nat) (p : List Char) : List Char := (List.replicate n p).flatten

theorem repeated_zero (p : List Char) : repeated 0 p = [] := rfl

theorem repeated_succ (n : Nat) (p : List Char) : repeated (n + 1) p = p ++ repeated n p := by
  rw [repeated, List.replicate_succ, List.flatten_cons, repeated]

/-- what does not begin with `p` is the same behind any number of them -/
theorem eq_of_repeated {p a b : List Char} (ha : ¬ p <+: a) (hb : ¬ p <+: b) {n m : Nat}
    (h : repeated n p ++ a = repeated m p ++ b) : a = b := by
  induction n generalizing m with
  | zero =>
    cases m with
    | zero => exact h
    | succ m =>
      rw [repeated_succ, List.append_assoc] at h
      exact absurd ⟨_, h.symm⟩ ha
  | succ n ih =>
    cases m with
    | zero =>
      rw [repeated_succ, List.append_assoc] at h
      exact absurd ⟨_, h⟩ hb
    | succ m =>
      rw [repeated_succ, repeated_succ, List.append_assoc, List.append_assoc] at h
      exact ih (List.append_cancel_left h)

/-- with as many steps as there are letters the pattern is gone -/
theorem dropPrefixes_go {pattern : String} (hp : pattern ≠ "") {n : Nat} {cs : List Char} (hn : cs.length ≤ n) :
    ¬ pattern.toList <+: dropPrefixes.go pattern n cs ∧
      ∃ k, cs = repeated k pattern.toList ++ dropPrefixes.go pattern n cs := by
  have hpattern : pattern.toList ≠ [] := fun h => hp (String.toList_eq_nil_iff.1 h)
  induction n generalizing cs with
  | zero =>
    obtain rfl := List.length_eq_zero_iff.1 (Nat.le_zero.1 hn)
    exact ⟨fun h => hpattern (List.prefix_nil.1 h), 0, rfl⟩
  | succ n ih =>
    rw [dropPrefixes.go]
    split_ifs with h
    · obtain ⟨rest, rfl⟩ := List.isPrefixOf_iff_prefix.1 h.1
      have hrest : rest.length ≤ n := by
        have hpos := List.length_pos_iff.2 hpattern
        rw [List.length_append] at hn
        omega
      rw [← String.length_toList, List.drop_left]
      obtain ⟨hgone, k, hk⟩ := ih hrest
      exact ⟨hgone, k + 1, by rw [repeated_succ, List.append_assoc, ← hk]⟩
    · exact ⟨fun hstarts => h ⟨List.isPrefixOf_iff_prefix.2 hstarts, hp⟩, 0, rfl⟩

/-- **A beginning taken off as often as it stands there.** -/
theorem dropPrefixes_eq_iff {pattern s rest : String} (hp : pattern ≠ "") :
    dropPrefixes pattern s = rest ↔
      startsWith pattern rest = false ∧ ∃ n, s.toList = repeated n pattern.toList ++ rest.toList := by
  obtain ⟨hgone, k, hk⟩ := dropPrefixes_go hp (String.length_toList (s := s)).le
  rw [← Bool.not_eq_true, startsWith_iff, dropPrefixes]
  constructor
  · rintro rfl
    rw [String.toList_ofList]
    exact ⟨hgone, k, hk⟩
  · rintro ⟨hrest, n, hn⟩
    rw [← String.toList_inj, String.toList_ofList]
    exact eq_of_repeated hgone hrest (hk.symm.trans hn)

theorem dropPrefixes_of_not_startsWith {pattern s : String} (hp : pattern ≠ "") (h : startsWith pattern s = false) :
    dropPrefixes pattern s = s :=
  (dropPrefixes_eq_iff hp).2 ⟨h, 0, rfl⟩

theorem dropPrefixes_append {pattern : String} (hp : pattern ≠ "") (s : String) :
    dropPrefixes pattern (pattern ++ s) = dropPrefixes pattern s := by
  obtain ⟨hgone, n, hn⟩ := (dropPrefixes_eq_iff (s := s) hp).1 rfl
  refine (dropPrefixes_eq_iff hp).2 ⟨hgone, n + 1, ?_⟩
  rw [String.toList_append, repeated_succ, List.append_assoc, ← hn]

theorem length_dropPrefixes_lt {pattern s : String} (hp : pattern ≠ "") (h : startsWith pattern s = true) :
    (dropPrefixes pattern s).length < s.length := by
  obtain ⟨hgone, n, hn⟩ := (dropPrefixes_eq_iff (s := s) hp).1 rfl
  have hpattern : 0 < pattern.toList.length :=
    List.length_pos_iff.2 fun hnil => hp (String.toList_eq_nil_iff.1 hnil)
  cases n with
  | zero =>
    rw [repeated_zero, List.nil_append, String.toList_inj] at hn
    rw [← hn, h] at hgone
    cases hgone
  | succ n =>
    have hlen := congrArg List.length hn
    rw [repeated_succ, List.length_append, List.length_append] at hlen
    rw [← String.length_toList, ← String.length_toList]
    omega

/-! ## Ends behind the last slash -/

theorem Closed.repeated {p : List Char} (h : Closed p) (n : Nat) : Closed (repeated n p) := by
  induction n with
  | zero => simp [Closed, Text.repeated]
  | succ n ih =>
    intro c hc
    rw [repeated_succ, List.getLast?_append] at hc
    cases hlast : (Text.repeated n p).getLast? with
    | none => exact h c (by simpa [hlast] using hc)
    | some d => exact ih c (by simpa [hlast] using hc)

/-- an end without a slash lies behind what is closed -/
theorem suffix_closed_iff {ending front rest : List Char} (hending : '/' ∉ ending) (hfront : Closed front) :
    ending <:+ front ++ rest ↔ ending <:+ rest := by
  constructor
  · intro h
    rcases List.suffix_or_suffix_of_suffix h (List.suffix_append front rest) with hle | ⟨more, rfl⟩
    · exact hle
    · obtain ⟨before, hbefore⟩ := h
      rw [← List.append_assoc, List.append_left_inj] at hbefore
      rcases List.eq_nil_or_concat more with rfl | ⟨more, c, rfl⟩
      · exact List.suffix_refl _
      · have hc : c = '/' := hfront c (by simp [← hbefore])
        simp [hc] at hending
  · intro h
    exact h.trans (List.suffix_append front rest)

end Text

/-! ## Joined paths -/

namespace Path

theorem length_join_le (p q : Path) : (p.join q).text.length ≤ p.lead.length + q.text.length := by
  rw [join_eq]
  split_ifs
  · omega
  · rw [String.length_append]

end Path

namespace ActionGraph

/-! ## Lines -/

/-- the line that is printed for an address -/
def printed (root : Path) (uri : String) : String := (root.join ⟨dropPrefixes scheme uri⟩).text

/-- `line` is `root` joined with the path of the address `uri` -/
def IsLineFor (root : Path) (line uri : String) : Prop :=
  ∃ path, uri = scheme ++ path ∧ line = (root.join ⟨path⟩).text

variable {root : Path} {endings : List String}

theorem scheme_ne_empty : scheme ≠ "" := by decide

theorem printed_scheme (root : Path) (path : String) :
    printed root (scheme ++ path) = (root.join ⟨dropPrefixes scheme path⟩).text := by
  rw [printed, dropPrefixes_append scheme_ne_empty]

theorem isLineFor_scheme_iff {line path : String} :
    IsLineFor root line (scheme ++ path) ↔ line = (root.join ⟨path⟩).text := by
  constructor
  · rintro ⟨other, hother, hline⟩
    obtain rfl := (String.append_right_inj scheme).1 hother
    exact hline
  · intro h
    exact ⟨path, rfl, h⟩

/-- **Which lines are right**: those of paths that do not begin with the scheme. -/
theorem isLineFor_printed_iff {path : String} :
    IsLineFor root (printed root (scheme ++ path)) (scheme ++ path) ↔ startsWith scheme path = false := by
  rw [isLineFor_scheme_iff, printed_scheme]
  constructor
  · intro hline
    by_contra hstarts
    rw [Bool.not_eq_false] at hstarts
    have hrelative : (Path.mk path).isAbsolute = false := by
      obtain ⟨rest, hrest⟩ := startsWith_iff.1 hstarts
      rw [Path.isAbsolute, startsWith, ← hrest]
      rfl
    -- what is left of the path is shorter, and nothing longer is put in front of it
    have hlt := length_dropPrefixes_lt scheme_ne_empty hstarts
    have hle := Path.length_join_le root ⟨dropPrefixes scheme path⟩
    rw [hline, Path.join_eq, hrelative, if_neg Bool.false_ne_true, String.length_append] at hle
    exact absurd hle (by dsimp only; omega)
  · intro h
    rw [dropPrefixes_of_not_startsWith scheme_ne_empty h]

example : printed ⟨"/r"⟩ "exec-root://exec-root://lib.jar" = "/r/lib.jar" := by decide

/-! ## Endings of lines -/

/-- what is closed may be taken off the front -/
theorem hasEnding_of_closed (hplain : ∀ e ∈ endings, '/' ∉ e.toList) {s rest : String} {front : List Char}
    (hfront : Closed front) (h : s.toList = front ++ rest.toList) : hasEnding endings s = hasEnding endings rest := by
  rw [Bool.eq_iff_iff, hasEnding_iff, hasEnding_iff, h]
  exact exists_congr fun e => and_congr_right fun he => suffix_closed_iff (hplain e he) hfront

theorem hasEnding_join (hplain : ∀ e ∈ endings, '/' ∉ e.toList) (q : Path) :
    hasEnding endings (root.join q).text = hasEnding endings q.text := by
  rw [Path.join_eq]
  split_ifs
  · rfl
  · exact hasEnding_of_closed hplain root.closed_lead String.toList_append

theorem closed_scheme : Closed scheme.toList := by
  intro c hc
  simpa [scheme, eq_comm] using hc

/-- a line has the ending of the address for which it is printed -/
theorem hasEnding_printed (hplain : ∀ e ∈ endings, '/' ∉ e.toList) (uri : String) :
    hasEnding endings (printed root uri) = hasEnding endings uri := by
  obtain ⟨-, n, hn⟩ := (dropPrefixes_eq_iff (s := uri) scheme_ne_empty).1 rfl
  rw [printed, hasEnding_join hplain]
  exact (hasEnding_of_closed hplain (closed_scheme.repeated n) hn).symm

/-- and so has a line that is right -/
theorem IsLineFor.hasEnding_eq {line uri : String} (h : IsLineFor root line uri)
    (hplain : ∀ e ∈ endings, '/' ∉ e.toList) : hasEnding endings line = hasEnding endings uri := by
  obtain ⟨path, rfl, rfl⟩ := h
  rw [hasEnding_join hplain]
  exact (hasEnding_of_closed hplain closed_scheme String.toList_append).symm

theorem classpathEndings_plain : ∀ e ∈ classpathEndings, '/' ∉ e.toList := by decide

/-! ## Lists of lines -/

variable {g : ActionGraph} {label : String} {uris paths : List String}

theorem IsInput.exists_path {uri : String} (h : g.IsInput label endings uri) : ∃ path, uri = scheme ++ path := by
  obtain ⟨-, -, -, -, -, -, -, -, -, -, -, -, -, -, -, path, -, huri⟩ := h.found
  exact ⟨path, huri⟩

theorem isInput_iff_hasEnding {uri : String} {asked : List String} (h : g.IsInput label asked uri) :
    g.IsInput label endings uri ↔ hasEnding endings uri = true := by
  rw [hasEnding_iff]
  exact ⟨fun hi => hi.ending, fun he => ⟨h.found, he⟩⟩

theorem ascending_of_inputs_eq_ok (h : g.inputs label endings = .ok uris) : uris.Pairwise (· < ·) := by
  obtain ⟨-, -, rfl⟩ := inputs_eq_ok_iff.1 h
  exact (SortedSet.ascending _).imp fun hlt => compare_lt_iff_lt.1 hlt

/-- **When the lines are right.** The lines that are printed for the class path are those of the addresses that were
asked for just if these are the addresses of the class path, and none has the scheme twice. -/
theorem forall₂_printed_iff (huris : g.inputs label endings = .ok uris)
    (hpaths : g.inputs label classpathEndings = .ok paths) (root : Path) :
    List.Forall₂ (IsLineFor root) (paths.map (printed root)) uris ↔
      paths = uris ∧ ∀ uri ∈ uris, startsWith (scheme ++ scheme) uri = false := by
  have hright : ∀ uri ∈ uris,
      IsLineFor root (printed root uri) uri ↔ startsWith (scheme ++ scheme) uri = false := by
    intro uri huri
    obtain ⟨path, rfl⟩ := ((mem_of_inputs_eq_ok huris).1 huri).exists_path
    rw [isLineFor_printed_iff, startsWith_append_append]
  rw [List.forall₂_map_left_iff]
  constructor
  · intro h
    have hsub : uris ⊆ paths := by
      intro uri huri
      obtain ⟨found, hfound, hline⟩ := Outcome.exists_of_mem_right h huri
      have hending : hasEnding classpathEndings uri = true := by
        rw [← hline.hasEnding_eq classpathEndings_plain, hasEnding_printed classpathEndings_plain, hasEnding_iff]
        exact ((mem_of_inputs_eq_ok hpaths).1 hfound).ending
      rw [mem_of_inputs_eq_ok hpaths, isInput_iff_hasEnding ((mem_of_inputs_eq_ok huris).1 huri)]
      exact hending
    have heq : paths = uris := by
      have hperm : uris.Perm paths :=
        (List.subperm_of_subset (ascending_of_inputs_eq_ok huris).nodup hsub).perm_of_length_le h.length_eq.le
      exact (ascending_of_inputs_eq_ok hpaths).eq_of_mem_iff (ascending_of_inputs_eq_ok huris)
        fun uri => hperm.symm.mem_iff
    subst heq
    exact ⟨rfl, fun uri huri => (hright uri huri).1 (List.forall₂_same.1 h uri huri)⟩
  · rintro ⟨rfl, hsingle⟩
    exact List.forall₂_same.2 fun uri huri => (hright uri huri).2 (hsingle uri huri)

/-- an unknown target is the only failure, whatever the endings -/
theorem inputs_eq_error_iff {e : Error} : g.inputs label endings = .error e ↔ g.targetId label = .error e := by
  simp only [inputs, actionsOf, Outcome.bind_eq_error_iff, Outcome.bind_eq_ok_iff]
  simp [pure, Except.pure]

end ActionGraph

/-! ## Printed forms -/

namespace Session

open ActionGraph

variable {t : FileTree} {file : Path} {g : ActionGraph}

theorem inputs_addresses (h : loadGraph t file = .ok g) (target : String) (endings : List String) :
    inputs t target file endings none = plainly (g.inputs target endings) := by
  rw [inputs, h]
  rfl

theorem inputs_paths (h : loadGraph t file = .ok g) (target : String) (endings : List String) (root : Path) :
    inputs t target file endings (some root) =
      (plainly (g.inputs target classpathEndings)).map (List.map (printed root)) := by
  unfold inputs inputPaths
  rw [h]
  cases hpaths : g.inputs target classpathEndings with
  | error e =>
    simp only [bind, Except.bind, hpaths]
    rfl
  | ok uris =>
    simp only [bind, Except.bind, hpaths]
    change Except.ok ((uris.map fun uri => root.join ⟨dropPrefixes scheme uri⟩).map Path.text) = _
    rw [List.map_map]
    rfl

/-- **When both forms list the same files.** With an execution root and without one the command fails alike. Otherwise
each line is the execution root joined with the path of the address that the other form prints in its place, just if the
endings that are asked for select the addresses that belong on a class path, and none of these has the scheme twice. -/
theorem inputs_forms_agree_iff (t : FileTree) (target : String) (file : Path) (endings : List String) (root : Path) :
    (∃ f, inputs t target file endings none = .error f ∧ inputs t target file endings (some root) = .error f) ∨
      ∃ uris lines, inputs t target file endings none = .ok uris ∧
        inputs t target file endings (some root) = .ok lines ∧
        (List.Forall₂ (IsLineFor root) lines uris ↔
          inputs t target file classpathEndings none = .ok uris ∧
            ∀ uri ∈ uris, startsWith (scheme ++ scheme) uri = false) := by
  cases hload : loadGraph t file with
  | error f =>
    refine .inl ⟨f, ?_, ?_⟩ <;> rw [inputs, hload] <;> rfl
  | ok g =>
    simp only [inputs_addresses hload, inputs_paths hload]
    cases htarget : g.targetId target with
    | error e =>
      have hfails : ∀ asked, g.inputs target asked = .error e := fun asked => inputs_eq_error_iff.2 htarget
      refine .inl ⟨⟨[], .error e⟩, ?_, ?_⟩ <;> rw [hfails] <;> rfl
    | ok id =>
      have hfound : ∀ asked, ∃ uris, g.inputs target asked = .ok uris :=
        fun asked => ⟨_, inputs_eq_ok_iff.2 ⟨id, htarget, rfl⟩⟩
      obtain ⟨uris, huris⟩ := hfound endings
      obtain ⟨paths, hpaths⟩ := hfound classpathEndings
      refine .inr ⟨uris, paths.map (printed root), by rw [huris]; rfl, by rw [hpaths]; rfl, ?_⟩
      rw [forall₂_printed_iff huris hpaths, hpaths]
      exact and_congr_left fun _ => Except.ok.injEq paths uris ▸ Iff.rfl

/-- a directory with a text in a file -/
def directoryWith (text : String) : FileTree := ⟨.ofList [(["g.json"], .file text.toUTF8)], []⟩

theorem readText_directoryWith (text : String) : (directoryWith text).readText ⟨"g.json"⟩ = .ok text := by
  have hplace : (directoryWith text).locate ⟨"g.json"⟩ = .ok (.named ["g.json"] false) := rfl
  have hnode : (directoryWith text).node? ["g.json"] = some (.file text.toUTF8) := rfl
  rw [FileTree.readText, FileTree.read_of_locate hplace hnode]
  exact FileTree.textOf_toUTF8 text

theorem loadGraph_directoryWith {g : ActionGraph} (h : ∀ id ∈ g.ids, id ≤ maxId) :
    loadGraph (directoryWith (Encoded.compact g)) ⟨"g.json"⟩ = .ok g := by
  have hparse : Encoded.parse ActionGraph (Encoded.compact g) = .ok g :=
    (ActionGraph.faithful h).parse_compact (by decide)
  simp only [loadGraph, readText_directoryWith, withinSystem, bind, Except.bind, hparse]
  rfl

/-- a library of which the source and the archive are inputs -/
def libraryGraph : ActionGraph where
  artifacts := [⟨1, none, some "lib/Lib.java"⟩, ⟨2, none, some "lib/lib.jar"⟩]
  actions := [{ targetId := 1, inputSets := [1] }]
  targets := [⟨1, "//app:app"⟩]
  fileSets := [⟨1, [1, 2], []⟩]

/-- a directory with the graph of the library -/
def libraryDirectory : FileTree := directoryWith (Encoded.compact libraryGraph)

theorem loadGraph_library : loadGraph libraryDirectory ⟨"g.json"⟩ = .ok libraryGraph :=
  loadGraph_directoryWith (by decide)

theorem library_inputs (endings : List String) :
    libraryGraph.inputs "//app:app" endings =
      .ok (SortedSet.ofList
        (["exec-root://lib/Lib.java", "exec-root://lib/lib.jar"].filter (hasEnding endings))).toList := by
  have hreached : Search.reached libraryGraph.subsets [1] [1] = [1] := by
    have hsubsets : libraryGraph.subsets 1 = [] := rfl
    simp [Search.reached, Search.explore, hsubsets]
  have hexpand : libraryGraph.expand [1] = .ofList [1, 2] := by
    change SortedSet.ofList ((Search.reached libraryGraph.subsets [1] [1]).flatMap libraryGraph.members) = _
    rw [hreached]
    rfl
  refine inputs_eq_ok_iff.2 ⟨1, rfl, ?_⟩
  change _ = (SortedSet.ofList ((((libraryGraph.expand [1]).toList.filterMap libraryGraph.path?).map
    (scheme ++ ·)).filter (hasEnding endings))).toList
  rw [hexpand]
  rfl

/-- **Another file is listed.** Asked for sources below an execution root, the command lists the archive. -/
theorem sources_not_listed :
    inputs libraryDirectory "//app:app" ⟨"g.json"⟩ [".java"] none = .ok ["exec-root://lib/Lib.java"] ∧
      inputs libraryDirectory "//app:app" ⟨"g.json"⟩ [".java"] (some ⟨"/r"⟩) = .ok ["/r/lib/lib.jar"] ∧
      ¬ List.Forall₂ (IsLineFor ⟨"/r"⟩) ["/r/lib/lib.jar"] ["exec-root://lib/Lib.java"] := by
  refine ⟨?_, ?_, ?_⟩
  · rw [inputs_addresses loadGraph_library, library_inputs]
    decide +kernel
  · rw [inputs_paths loadGraph_library, library_inputs]
    decide +kernel
  · intro h
    have hline : IsLineFor ⟨"/r"⟩ "/r/lib/lib.jar" (scheme ++ "lib/Lib.java") := (List.forall₂_cons.1 h).1
    exact absurd (isLineFor_scheme_iff.1 hline) (by decide)

/-- asked for archives, both forms list the same one -/
theorem archives_listed :
    ∃ uris lines, inputs libraryDirectory "//app:app" ⟨"g.json"⟩ [".jar"] none = .ok uris ∧
      inputs libraryDirectory "//app:app" ⟨"g.json"⟩ [".jar"] (some ⟨"/r"⟩) = .ok lines ∧
      uris = ["exec-root://lib/lib.jar"] ∧ List.Forall₂ (IsLineFor ⟨"/r"⟩) lines uris := by
  have haddresses : ∀ asked ∈ [[".jar"], classpathEndings],
      inputs libraryDirectory "//app:app" ⟨"g.json"⟩ asked none = .ok ["exec-root://lib/lib.jar"] := by
    simp only [inputs_addresses loadGraph_library, library_inputs]
    decide +kernel
  have hasked := haddresses [".jar"] (by simp)
  rcases inputs_forms_agree_iff libraryDirectory "//app:app" ⟨"g.json"⟩ [".jar"] ⟨"/r"⟩ with
    ⟨f, hfails, -⟩ | ⟨uris, lines, huris, hlines, hagree⟩
  · rw [hasked] at hfails
    cases hfails
  · obtain rfl := Except.ok.inj (hasked.symm.trans huris)
    exact ⟨_, lines, huris, hlines, rfl, hagree.2 ⟨haddresses _ (by simp), by decide⟩⟩

end Session

end BuildImport
