/-
Where labels and reported files lead.

A label of the main workspace has two slashes, a package, one colon and a name. The package is found twice, once to find
its directory and once as a part of the label, and both find the same (`package?_of_packageOf`). Its directory is the
workspace joined with it.

- `directoryOf_spec`: which labels fail, and when a directory has the components of the workspace and behind them those
  of the package. A package that begins with a slash is absolute, and joining drops the workspace for it: then the
  directory is the package (`absolute_package_leaves`). Any other package stays behind the workspace.
- `resolve_whatever_exists`: the path of a reported file is a matter of the two roots. The one question to the file
  system, whether an absolute path exists, has no say, because joining would keep such a path as well.
-/
import Mathlib.Tactic
import BuildImport.Proofs.Components
import BuildImport.Proofs.PackageLabels

namespace BuildImport

open Text

/-! ## Absolute paths -/

namespace Path

theorem components_of_absolute {q : Path} (hq : q.isAbsolute = true) : q.components = .root :: q.tail := by
  obtain ⟨rest, hrest⟩ := List.isPrefixOf_iff_prefix.1 hq
  have hpieces : q.pieces = [] :: splitOn '/' rest := by
    rw [pieces, ← hrest]
    simp [splitOn]
  obtain ⟨piece, more, hmore⟩ := List.exists_cons_of_ne_nil (splitOn_ne_nil '/' rest)
  rw [components, tail, hpieces, hmore]
  rfl

/-- **When joining appends**: unless an absolute path takes the place of a base that is more than the root. -/
theorem components_join_iff {base q : Path} :
    (base.join q).components = base.components ++ behind base q ↔
      q.isAbsolute = false ∨ base.text = "" ∨ base.components = [.root] := by
  cases hq : q.isAbsolute with
  | false => simp [components_join_of_relative base hq]
  | true =>
    rw [join_eq, if_pos hq, behind]
    split_ifs with hb
    · simp [hb, components_eq_nil hb]
    · have hroot : q.components = [.root] ++ q.tail := components_of_absolute hq
      rw [hroot, List.append_left_inj]
      simp [hb, eq_comm]

end Path

namespace Roots

/-! ## Packages of labels -/

variable {l : Label} {package : String}

/-- a label with two slashes in front and one colon names a package, and no other label does -/
theorem exists_packageOf_iff :
    (∃ package, packageOf l = .ok package) ↔ startsWith "//" l.text = true ∧ l.text.toList.count ':' = 1 := by
  simp only [packageOf_eq_ok_iff]
  constructor
  · rintro ⟨package, name, ht, hp, hn⟩
    constructor
    · rw [ht, String.append_assoc, String.append_assoc]
      exact startsWith_append _ _
    · rw [ht]
      simp [List.count_eq_zero_of_not_mem hp, List.count_eq_zero_of_not_mem hn]
  · rintro ⟨hstarts, hcount⟩
    obtain ⟨rest, hrest⟩ := startsWith_iff.1 hstarts
    rw [← hrest] at hcount
    have hone : rest.count ':' = 1 := by simpa using hcount
    have hmem : ':' ∈ rest := List.count_pos_iff.1 (by omega)
    obtain ⟨package, name, rfl, hp⟩ := List.eq_append_cons_of_mem hmem
    have hn : ':' ∉ name := by
      rw [List.count_append, List.count_eq_zero_of_not_mem hp, List.count_cons_self] at hone
      exact List.count_eq_zero.1 (by omega)
    refine ⟨String.ofList package, String.ofList name, ?_, by simpa using hp, by simpa using hn⟩
    rw [← String.toList_inj, ← hrest]
    simp

/-- the package that leads to the directory is the one that the label reports -/
theorem package?_of_packageOf (h : packageOf l = .ok package) : l.package? = some package := by
  obtain ⟨name, ht, hp, -⟩ := packageOf_eq_ok_iff.1 h
  have hafter : afterFirst ['/', '/'] l.text.toList = some (package.toList ++ ':' :: name.toList) := by
    rw [ht]
    simp [afterFirst]
  rw [Label.package?, hafter, Option.map_some, cutFirst_append hp]
  simp

/-- **The directory of a label.** A label fails just if it does not begin with two slashes or has not exactly one colon.
Any other label reports a package and has a directory. Its components are those of the workspace and behind them those of
the package, except where the package begins with a slash and the workspace is more than the root directory: then the
package alone is the directory. Another target name leads to the same directory. -/
theorem directoryOf_spec (r : Roots) (l : Label) :
    ((∃ fault, r.directoryOf l = .error (.malformedLabel l fault)) ↔
      startsWith "//" l.text = false ∨ l.text.toList.count ':' ≠ 1) ∧
    (startsWith "//" l.text = true → l.text.toList.count ':' = 1 → ∃ package directory,
      l.package? = some package ∧ r.directoryOf l = .ok directory ∧
      (directory.components = r.workspace.components ++ Path.behind r.workspace ⟨package⟩ ↔
        Path.isAbsolute ⟨package⟩ = false ∨ r.workspace.text = "" ∨ r.workspace.components = [.root]) ∧
      (Path.isAbsolute ⟨package⟩ = true → directory = ⟨package⟩) ∧
      ∀ name : String, ':' ∉ name.toList → r.directoryOf (l.withName name) = .ok directory) := by
  constructor
  · have hfails :
        (∃ fault, r.directoryOf l = .error (.malformedLabel l fault)) ↔ ¬ ∃ package, packageOf l = .ok package := by
      rw [directoryOf]
      cases packageOf l <;> simp
    rw [hfails, exists_packageOf_iff, not_and_or, Bool.not_eq_true]
  · intro hstarts hcount
    obtain ⟨package, hpackage⟩ := exists_packageOf_iff.2 ⟨hstarts, hcount⟩
    have hdirectory : r.directoryOf l = .ok (r.workspace.join ⟨package⟩) :=
      directoryOf_eq_ok_iff.2 ⟨package, hpackage, rfl⟩
    refine ⟨package, _, package?_of_packageOf hpackage, hdirectory, Path.components_join_iff, join_absolute, ?_⟩
    intro name hname
    exact directoryOf_withName hdirectory hname

/-- a package with a dot in front, a doubled slash and a step up -/
theorem dotted_directory :
    startsWith "//" "//./a//b/..:lib" = true ∧ "//./a//b/..:lib".toList.count ':' = 1 ∧
      ∃ directory, directoryOf ⟨⟨"/ws/"⟩, ⟨"/out"⟩⟩ ⟨"//./a//b/..:lib"⟩ = .ok directory ∧
        directory.components = [.root, .name "ws", .name "a", .name "b", .up] ∧
        directoryOf ⟨⟨"/ws/"⟩, ⟨"/out"⟩⟩ ⟨"//./a//b/..:bridge-merged"⟩ = .ok directory := by
  have hstarts : startsWith "//" "//./a//b/..:lib" = true := by decide
  have hcount : "//./a//b/..:lib".toList.count ':' = 1 := by decide
  obtain ⟨package, directory, hpackage, hdirectory, happends, -, hname⟩ :=
    (directoryOf_spec ⟨⟨"/ws/"⟩, ⟨"/out"⟩⟩ ⟨"//./a//b/..:lib"⟩).2 hstarts hcount
  obtain rfl : package = "./a//b/.." := Option.some.inj (hpackage.symm.trans (by decide))
  refine ⟨hstarts, hcount, directory, hdirectory, ?_, hname "bridge-merged" (by decide)⟩
  rw [happends.2 (.inl (by decide))]
  decide

/-- **A directory outside the workspace.** The label is well-formed, and its package begins with a slash. -/
theorem absolute_package_leaves :
    startsWith "//" "///etc:x" = true ∧ "///etc:x".toList.count ':' = 1 ∧
      Label.package? ⟨"///etc:x"⟩ = some "/etc" ∧
      directoryOf ⟨⟨"/ws"⟩, ⟨"/out"⟩⟩ ⟨"///etc:x"⟩ = .ok ⟨"/etc"⟩ ∧
      Path.components ⟨"/etc"⟩ ≠ Path.components ⟨"/ws"⟩ ++ Path.behind ⟨"/ws"⟩ ⟨"/etc"⟩ ∧
      ¬ Path.components ⟨"/ws"⟩ <+: Path.components ⟨"/etc"⟩ := by
  decide

/-! ## Paths of files -/

/-- the path of a file, where `there` answers which paths exist -/
def resolveBy (r : Roots) (there : Path → Bool) (l : FileLocation) : Path :=
  if Path.isAbsolute ⟨l.relativePath⟩ && there ⟨l.relativePath⟩ then ⟨l.relativePath⟩
  else if l.isSource && !l.isExternal then r.workspace.join ⟨l.relativePath⟩
  else (r.exec.join ⟨l.rootFragment⟩).join ⟨l.relativePath⟩

theorem resolve_eq_resolveBy (r : Roots) (t : FileTree) : r.resolve t = r.resolveBy t.exists? := rfl

/-- an absolute location stays itself in every case, so asking whether it is there changes nothing -/
theorem resolveBy_eq_join (r : Roots) (there : Path → Bool) (l : FileLocation) :
    r.resolveBy there l =
      if l.isSource && !l.isExternal then r.workspace.join ⟨l.relativePath⟩
      else (r.exec.join ⟨l.rootFragment⟩).join ⟨l.relativePath⟩ := by
  unfold resolveBy
  split
  · next hthere =>
    have habsolute : Path.isAbsolute ⟨l.relativePath⟩ = true := (Bool.and_eq_true_iff.1 hthere).1
    rw [join_absolute habsolute, join_absolute habsolute, ite_self]
  · rfl

/-- **The file system has no say.** Whatever is answered to the question whether an absolute path exists, and whatever
the files are, a location has one path: joined to the workspace for a source of it, and for any other file to the
execution root and its output root. -/
theorem resolve_whatever_exists (r : Roots) (l : FileLocation) :
    (∀ there there' : Path → Bool, r.resolveBy there l = r.resolveBy there' l) ∧
      (∀ t t' : FileTree, r.resolve t l = r.resolve t' l) ∧
      ∀ t : FileTree, r.resolve t l =
        if l.isSource && !l.isExternal then r.workspace.join ⟨l.relativePath⟩
        else (r.exec.join ⟨l.rootFragment⟩).join ⟨l.relativePath⟩ := by
  have hanswers : ∀ there there', r.resolveBy there l = r.resolveBy there' l := by
    intro there there'
    rw [resolveBy_eq_join, resolveBy_eq_join]
  refine ⟨hanswers, ?_, ?_⟩
  · intro t t'
    rw [resolve_eq_resolveBy, resolve_eq_resolveBy]
    exact hanswers _ _
  · intro t
    rw [resolve_eq_resolveBy, resolveBy_eq_join]

end Roots

end BuildImport
