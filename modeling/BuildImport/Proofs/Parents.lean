/-
Parents of paths, and which directory is above which.

A parent is cut off the text of a path, and pieces that do not count are cut off with it. What this does to the
components is simple: the last one goes (`components_parent?`). So spellings of one path have parents that are spellings
of one path (`parent?_congr`), although their texts differ. `IsAbove` compares by components too; a directory is above
itself.
-/
import Mathlib.Data.List.DropRight
import Mathlib.Tactic
import BuildImport.Proofs.Files

namespace BuildImport

open Text

/-! ## Pieces -/

namespace Text

theorem not_mem_of_mem_splitOn {c : Char} {s piece : List Char} (h : piece ∈ splitOn c s) : c ∉ piece := by
  induction s generalizing piece with
  | nil =>
    rw [List.mem_singleton.1 h]
    exact List.not_mem_nil
  | cons d r ih =>
    unfold splitOn at h
    split_ifs at h with hd
    · rcases List.mem_cons.1 h with rfl | h
      · exact List.not_mem_nil
      · exact ih h
    · cases hr : splitOn c r with
      | nil => exact absurd hr (splitOn_ne_nil c r)
      | cons first rest =>
        rw [hr] at h ih
        rcases List.mem_cons.1 h with rfl | h
        · rw [List.mem_cons, not_or]
          exact ⟨Ne.symm hd, ih List.mem_cons_self⟩
        · exact ih (List.mem_cons_of_mem _ h)

/-- splitting undoes joining, where no piece holds the separator -/
theorem splitOn_joinWith {c : Char} {ps : List (List Char)} (hne : ps ≠ []) (hps : ∀ piece ∈ ps, c ∉ piece) :
    splitOn c (joinWith c ps) = ps := by
  induction ps with
  | nil => exact absurd rfl hne
  | cons p ps ih =>
    have hp : splitOn c p = [p] := splitOn_of_not_mem (hps p List.mem_cons_self)
    cases ps with
    | nil => exact hp
    | cons q qs =>
      have hrest : splitOn c (joinWith c (q :: qs)) = q :: qs :=
        ih (List.cons_ne_nil q qs) fun r hr => hps r (List.mem_cons_of_mem _ hr)
      rw [joinWith, splitOn_append, hp, hrest]
      · rfl
      · exact List.cons_ne_nil q qs

end Text

namespace Path

/-- What is left of pieces without those at the end that do not count: nothing, or a list whose last piece counts. -/
theorem dropEndWhile_insignificant (ps : List (List Char)) :
    (dropEndWhile insignificant ps = [] ∧ ps.filterMap Component.ofPiece? = []) ∨
      ∃ front piece c, dropEndWhile insignificant ps = front ++ [piece] ∧ Component.ofPiece? piece = some c ∧
        ps.filterMap Component.ofPiece? = front.filterMap Component.ofPiece? ++ [c] := by
  induction ps using List.reverseRecOn with
  | nil => exact .inl ⟨rfl, rfl⟩
  | append_singleton ps piece ih =>
    have hdrop : dropEndWhile insignificant (ps ++ [piece]) =
        if insignificant piece then dropEndWhile insignificant ps else ps ++ [piece] := List.rdropWhile_concat _ ps piece
    cases hc : Component.ofPiece? piece with
    | none =>
      have hp : insignificant piece = true := by rw [insignificant, hc]; rfl
      rw [hdrop, if_pos hp, List.filterMap_append, List.filterMap_cons_none hc, List.filterMap_nil, List.append_nil]
      exact ih
    | some c =>
      have hp : insignificant piece = false := by rw [insignificant, hc]; rfl
      refine .inr ⟨ps, piece, c, ?_, hc, ?_⟩
      · rw [hdrop, if_neg (by simp [hp])]
      · rw [List.filterMap_append, List.filterMap_cons_some hc, List.filterMap_nil]

theorem filterMap_dropEndWhile (ps : List (List Char)) :
    (dropEndWhile insignificant ps).filterMap Component.ofPiece? = ps.filterMap Component.ofPiece? := by
  rcases dropEndWhile_insignificant ps with ⟨hdrop, hps⟩ | ⟨front, piece, c, hdrop, hc, hps⟩
  · rw [hdrop, hps, List.filterMap_nil]
  · rw [hdrop, hps, List.filterMap_append, List.filterMap_cons_some hc, List.filterMap_nil]

theorem not_mem_of_mem_pieces {p : Path} {piece : List Char} (h : piece ∈ p.pieces) : '/' ∉ piece :=
  not_mem_of_mem_splitOn h

/-- pieces put together stand for the same components as before, as if a slash followed -/
theorem components_ofPieces {ps : List (List Char)} (hne : ps ≠ []) (hps : ∀ piece ∈ ps, '/' ∉ piece) :
    (ofPieces ps).components = componentsOf (ps ++ [[]]) := by
  by_cases hroot : ps = [[]]
  · subst hroot
    decide
  · have hpieces : (ofPieces ps).pieces = ps := by
      unfold ofPieces
      split
      · exact absurd rfl hroot
      · rw [pieces, String.toList_ofList, splitOn_joinWith hne hps]
    rw [components, hpieces, componentsOf_append_nil hne hroot]

/-! ## Parents -/

theorem ofPiece?_ne_root (piece : List Char) : Component.ofPiece? piece ≠ some .root := by
  unfold Component.ofPiece?
  split <;> simp

/-- where nothing counts but the first piece, an empty one stands for nothing or the root, and any other for one
component that is not the root -/
theorem componentsOf_of_nil (first : List Char) {rest : List (List Char)}
    (hrest : rest.filterMap Component.ofPiece? = []) :
    (first = [] ∧ (componentsOf (first :: rest) = [] ∨ componentsOf (first :: rest) = [.root])) ∨
      first ≠ [] ∧ ∃ c, c ≠ .root ∧ componentsOf (first :: rest) = [c] := by
  cases hf : insignificant first with
  | true =>
    rcases (insignificant_iff first).1 hf with rfl | rfl
    · cases rest with
      | nil => exact .inl ⟨rfl, .inl rfl⟩
      | cons q qs => exact .inl ⟨rfl, .inr (congrArg (Component.root :: ·) hrest)⟩
    · exact .inr ⟨by decide, .here, by decide, congrArg (Component.here :: ·) hrest⟩
  | false =>
    obtain ⟨c, hc⟩ := Option.isSome_iff_exists.1 (Option.isNone_eq_false_iff.1 hf)
    have hne : first ≠ [] := by
      rintro rfl
      simp [insignificant, Component.ofPiece?] at hf
    rw [componentsOf_named hf, List.filterMap_cons_some hc, hrest]
    exact .inr ⟨hne, c, fun h => ofPiece?_ne_root first (h ▸ hc), rfl⟩

/-- **A parent has all components but the last.** The empty path and the root have none. -/
theorem components_parent? (p : Path) :
    p.parent?.map components =
      if p.components = [] ∨ p.components = [.root] then none else some p.components.dropLast := by
  obtain ⟨first, rest, hpieces⟩ := List.exists_cons_of_ne_nil (pieces_ne_nil p)
  have hcomponents : p.components = componentsOf (first :: rest) := by rw [components, hpieces]
  unfold parent?
  rw [hpieces, hcomponents]
  rcases dropEndWhile_insignificant rest with ⟨hdrop, hrest⟩ | ⟨front, piece, d, hdrop, -, hrest⟩
  · rcases componentsOf_of_nil first hrest with ⟨rfl, hroot⟩ | ⟨hf, c, hne, hc⟩
    · simp only [hdrop, if_pos, hroot, Option.map_none]
    · simp [hdrop, hf, hc, hne, components_eq_nil]
  · obtain ⟨c, hc⟩ := exists_componentsOf_cons first
    have hne : rest ≠ [] := by
      rintro rfl
      simp at hrest
    have hall : componentsOf (first :: rest) = (c :: front.filterMap Component.ofPiece?) ++ [d] := by
      rw [hc rest hne, hrest, List.cons_append]
    have hslash : ∀ q ∈ first :: dropEndWhile insignificant front, '/' ∉ q := by
      intro q hq
      have hkept : front ++ [piece] <+: rest := hdrop ▸ List.rdropWhile_prefix _ rest
      have hfront : front <+: rest := (List.prefix_append front [piece]).trans hkept
      have hsub : dropEndWhile insignificant front ⊆ rest := ((List.rdropWhile_prefix _ front).trans hfront).subset
      apply not_mem_of_mem_pieces (p := p)
      rw [hpieces]
      exact List.cons_subset_cons first hsub hq
    have hparent : (ofPieces (first :: dropEndWhile insignificant front)).components =
        c :: front.filterMap Component.ofPiece? := by
      rw [components_ofPieces (List.cons_ne_nil _ _) hslash, List.cons_append, hc _ (by simp), filterMap_append_nil,
        filterMap_dropEndWhile]
    rw [if_neg (by simp [hall]), hall, List.dropLast_concat, ← hparent]
    simp only [hdrop]
    split
    · simp_all
    · rw [List.dropLast_concat]
      rfl

/-- spellings of one path have parents that are spellings of one path -/
theorem parent?_congr {p q : Path} (h : p.same q = true) : p.parent?.map components = q.parent?.map components := by
  rw [components_parent?, components_parent?, (same_iff p q).1 h]

/-- a parent is the path without one component -/
theorem components_of_parent? {p d : Path} (h : p.parent? = some d) : ∃ c, p.components = d.components ++ [c] := by
  have hd := components_parent? p
  rw [h, Option.map_some] at hd
  split_ifs at hd with hroot
  rw [not_or] at hroot
  rw [Option.some.inj hd]
  exact ⟨_, (List.dropLast_append_getLast hroot.1).symm⟩

theorem getLast?_components_of_fileName? {p : Path} {n : String} (h : p.fileName? = some n) :
    p.components.getLast? = some (.name n) := by
  unfold fileName? at h
  split at h
  · next heq => rw [heq, Option.some.inj h]
  · cases h

/-! ## Above -/

/-- `p` is `q` or a directory above it, in whatever spelling -/
def IsAbove (p q : Path) : Prop := p.components <+: q.components

theorem IsAbove.refl (p : Path) : p.IsAbove p := List.prefix_refl _

theorem IsAbove.congr_left {p p' q : Path} (h : p.IsAbove q) (hp : p.same p' = true) : p'.IsAbove q := by
  unfold IsAbove
  rw [← (same_iff p p').1 hp]
  exact h

theorem IsAbove.congr_right {p q q' : Path} (h : p.IsAbove q) (hq : q.components = q'.components) : p.IsAbove q' := by
  unfold IsAbove
  rw [← hq]
  exact h

end Path

end BuildImport
