/-
Which views select the whole workspace, and which are taken to.

- `subtree?_eq_some_empty_iff`: a pattern that stands for everything is a row of slashes, then `...` and perhaps `:all`
  (`Boundless`).
- `selects_of_boundless`, `not_selects_longLabel`: such a pattern selects every target, and any other pattern misses one,
  for instance a target in a package with a name longer than the pattern.
- `selectsAll_iff`: so a view that takes nothing away selects every target iff one of its patterns is boundless. Several
  patterns do not make up for one.

The views that count as full are those with a pattern that begins with `//...`, whatever follows. `full_agrees_iff` says
when this is the same. It is not for `allByStar`, which counts as full and selects hardly anything, nor for `fromHere`,
which selects everything and does not count as full.
-/
import Mathlib.Tactic
import Mathlib.Data.List.DropRight
import BuildImport.ProjectView
import BuildImport.Proofs.PackageLabels

namespace BuildImport

open Text

/-! ## Known ends -/

namespace Text

theorem dropSuffix?_eq_some_iff {ending s front : String} : dropSuffix? ending s = some front ↔ s = front ++ ending := by
  unfold dropSuffix? endsWith
  constructor
  · intro h
    split_ifs at h with hs
    obtain ⟨t, ht⟩ := List.isSuffixOf_iff_suffix.1 hs
    have hlen : s.length - ending.length = t.length := by
      rw [← String.length_toList, ← ht, List.length_append, String.length_toList, Nat.add_sub_cancel]
    simp only [Option.some.injEq] at h
    rw [← h, hlen, ← String.toList_inj, String.toList_append, String.toList_ofList, ← ht, List.take_left]
  · rintro rfl
    simp [← String.length_toList]

theorem toList_trimEnd (c : Char) (s : String) : (trimEnd c s).toList = s.toList.rdropWhile (· == c) := by
  rw [trimEnd, String.toList_ofList]
  rfl

theorem trimEnd_eq_empty_iff {c : Char} {s : String} : trimEnd c s = "" ↔ ∃ n, s = String.ofList (List.replicate n c) := by
  rw [← String.toList_inj, toList_trimEnd, String.toList_empty, List.rdropWhile_eq_nil_iff]
  constructor
  · intro h
    refine ⟨s.toList.length, ?_⟩
    rw [← String.toList_inj, String.toList_ofList]
    exact List.eq_replicate_of_mem fun d hd => by simpa using h d hd
  · rintro ⟨n, rfl⟩ d hd
    rw [String.toList_ofList] at hd
    simpa using List.eq_of_mem_replicate hd

theorem eq_false_of_getLast?_rdropWhile {α : Type} {f : α → Bool} {xs : List α} {c : α}
    (h : c ∈ (xs.rdropWhile f).getLast?) : f c = false := by
  have hne : xs.rdropWhile f ≠ [] := by
    intro hnil
    simp [hnil] at h
  rw [Option.mem_def, List.getLast?_eq_some_getLast hne, Option.some.injEq] at h
  rw [← h, ← Bool.not_eq_true]
  exact List.rdropWhile_last_not f xs hne

theorem ne_of_getLast?_trimEnd {c d : Char} {s : String} (h : d ∈ (trimEnd c s).toList.getLast?) : d ≠ c := by
  rw [toList_trimEnd] at h
  have hbeq := eq_false_of_getLast?_rdropWhile h
  exact beq_eq_false_iff_ne.1 hbeq

theorem length_trimEnd_le (c : Char) (s : String) : (trimEnd c s).length ≤ s.length := by
  rw [← String.length_toList, ← String.length_toList, toList_trimEnd]
  exact (List.rdropWhile_prefix (· == c) s.toList).length_le

end Text

namespace ProjectView

/-! ## Patterns for everything -/

/-- a row of slashes -/
def slashes (n : Nat) : String := String.ofList (List.replicate n '/')

/-- slashes, then `...` and perhaps `:all` -/
def Boundless (pattern : String) : Prop := ∃ n, pattern = slashes n ++ "..." ∨ pattern = slashes n ++ "...:all"

/-- a pattern does not end both ways -/
theorem dots_ne_all (a b : String) : a ++ "..." ≠ b ++ "...:all" := by
  intro h
  have hlast := congrArg (fun s : String => s.toList.getLast?) h
  simp at hlast

/-- the two ways in which a pattern stands for all below a package -/
theorem subtree?_eq_some_iff {pattern base : String} :
    subtree? pattern = some base ↔
      ∃ front, (pattern = front ++ "..." ∨ pattern = front ++ "...:all") ∧ trimEnd '/' front = base := by
  unfold subtree?
  simp only [Option.map_eq_some_iff, Option.or_eq_some_iff, dropSuffix?_eq_some_iff]
  refine exists_congr fun front => and_congr_left fun _ => or_congr_right ⟨fun h => h.2, fun h => ⟨?_, h⟩⟩
  cases hd : dropSuffix? "..." pattern with
  | none => rfl
  | some other => exact absurd ((dropSuffix?_eq_some_iff.1 hd).symm.trans h) (dots_ne_all _ _)

/-- **Patterns for everything**: only slashes stand before the dots. -/
theorem subtree?_eq_some_empty_iff {pattern : String} : subtree? pattern = some "" ↔ Boundless pattern := by
  rw [subtree?_eq_some_iff]
  constructor
  · rintro ⟨front, hp, hfront⟩
    obtain ⟨n, rfl⟩ := trimEnd_eq_empty_iff.1 hfront
    exact ⟨n, hp⟩
  · rintro ⟨n, hp⟩
    exact ⟨slashes n, hp, trimEnd_eq_empty_iff.2 ⟨n, rfl⟩⟩

/-- of the patterns that begin with `//...` two are for everything -/
theorem boundless_of_everything_iff {pattern : String} :
    startsWith everything pattern = true ∧ Boundless pattern ↔ pattern = "//..." ∨ pattern = "//...:all" := by
  constructor
  · rintro ⟨hstarts, n, hp⟩
    have hn : n = 2 := by
      rw [startsWith_iff] at hstarts
      match n with
      | 0 => rcases hp with rfl | rfl <;> exact absurd hstarts (by decide)
      | 1 => rcases hp with rfl | rfl <;> exact absurd hstarts (by decide)
      | 2 => rfl
      | n + 3 => rcases hp with rfl | rfl <;> simp [everything, slashes, List.replicate_succ] at hstarts
    subst hn
    exact hp
  · rintro (rfl | rfl)
    · exact ⟨by decide, 2, .inl rfl⟩
    · exact ⟨by decide, 2, .inr rfl⟩

/-! ## Targets -/

/-- a label of the main workspace: `//`, a package, `:` and a name -/
def IsTarget (label : String) : Prop :=
  ∃ package name : String, ':' ∉ package.toList ∧ ':' ∉ name.toList ∧ label = "//" ++ package ++ ":" ++ name

theorem cutFirst_target {package : String} (h : ':' ∉ package.toList) (name : String) :
    cutFirst ':' ("//" ++ package ++ ":" ++ name).toList = some (("//" ++ package).toList, name.toList) := by
  have hslashes : ':' ∉ ("//" ++ package).toList := by
    simp [h]
  rw [String.toList_append, String.toList_append, List.append_assoc]
  exact cutFirst_append hslashes name.toList

/-- what a pattern selects, by the package of the label -/
theorem selects_target {pattern package : String} (h : ':' ∉ package.toList) (name : String) :
    selects pattern ("//" ++ package ++ ":" ++ name) =
      match subtree? pattern with
      | some base => base == "" || "//" ++ package == base || startsWith (base ++ "/") ("//" ++ package)
      | none =>
        match cutFirst ':' pattern.toList with
        | some (p, n) =>
          if wholePackage.contains (String.ofList n) then String.ofList p == "//" ++ package
          else pattern == "//" ++ package ++ ":" ++ name
        | none => pattern == "//" ++ package := by
  have hmain : startsWith "//" ("//" ++ package ++ ":" ++ name) = true := by
    rw [String.append_assoc, String.append_assoc]
    exact startsWith_append _ _
  rw [selects, hmain, cutFirst_target h, Bool.true_and]
  cases subtree? pattern with
  | some base => simp only [String.ofList_toList]
  | none => cases cutFirst ':' pattern.toList <;> simp only [String.ofList_toList]

theorem selects_of_boundless {pattern label : String} (hp : Boundless pattern) (hl : IsTarget label) :
    selects pattern label = true := by
  obtain ⟨package, name, hpackage, -, rfl⟩ := hl
  rw [selects_target hpackage, subtree?_eq_some_empty_iff.2 hp]
  rfl

/-- a package with a name of `n` letters -/
def longPackage (n : Nat) : String := String.ofList (List.replicate n 'x')

/-- a target in such a package -/
def longLabel (n : Nat) : String := "//" ++ longPackage n ++ ":" ++ "x"

theorem length_longPackage (n : Nat) : (longPackage n).length = n := by
  simp [longPackage]

theorem not_mem_longPackage {c : Char} (h : c ≠ 'x') (n : Nat) : c ∉ (longPackage n).toList := by
  rw [longPackage, String.toList_ofList]
  exact fun hc => h (List.eq_of_mem_replicate hc)

theorem isTarget_longLabel (n : Nat) : IsTarget (longLabel n) :=
  ⟨longPackage n, "x", not_mem_longPackage (by decide) n, by decide, rfl⟩

/-- the only slashes of such a package are the two in front of it, and these stand for everything -/
theorem not_startsWith_longPackage {front : String} (hfront : trimEnd '/' front ≠ "") (n : Nat) :
    startsWith (trimEnd '/' front ++ "/") ("//" ++ longPackage n) = false := by
  rw [← Bool.not_eq_true, startsWith_iff]
  rintro ⟨rest, hrest⟩
  have hrest : (trimEnd '/' front).toList ++ '/' :: rest = '/' :: '/' :: (longPackage n).toList := by
    simpa using hrest
  have hlast := fun d => ne_of_getLast?_trimEnd (c := '/') (d := d) (s := front)
  cases hbase : (trimEnd '/' front).toList with
  | nil => exact hfront (String.toList_eq_nil_iff.1 hbase)
  | cons c more =>
    rw [hbase, List.cons_append, List.cons.injEq] at hrest
    rw [hbase] at hlast
    obtain ⟨rfl, hrest⟩ := hrest
    cases more with
    | nil => exact hlast _ rfl rfl
    | cons d more =>
      rw [List.cons_append, List.cons.injEq] at hrest
      obtain ⟨-, hrest⟩ := hrest
      have hslash : '/' ∈ (longPackage n).toList := hrest ▸ List.mem_append_right more List.mem_cons_self
      exact not_mem_longPackage (by decide) n hslash

/-- **Any other pattern misses a target**, because the package has a longer name than it. -/
theorem not_selects_longLabel {pattern : String} (hp : ¬ Boundless pattern) {n : Nat} (hn : pattern.length ≤ n) :
    selects pattern (longLabel n) = false := by
  have hlong : ("//" ++ longPackage n).length = n + 2 := by
    rw [String.length_append, length_longPackage, Nat.add_comm]
    rfl
  have hne : ∀ s : String, s.length ≤ n → (s == "//" ++ longPackage n) = false := by
    intro s hs
    rw [beq_eq_false_iff_ne]
    rintro rfl
    omega
  rw [longLabel, selects_target (not_mem_longPackage (by decide) n)]
  cases hsub : subtree? pattern with
  | some base =>
    obtain ⟨front, hends, rfl⟩ := subtree?_eq_some_iff.1 hsub
    have hbase : trimEnd '/' front ≠ "" := fun he => hp (subtree?_eq_some_empty_iff.1 (he ▸ hsub))
    have hfront : front.length ≤ n := by
      rcases hends with rfl | rfl <;> simp at hn <;> omega
    have hpackage := hne _ ((length_trimEnd_le '/' front).trans hfront)
    rw [Bool.beq_comm] at hpackage
    simp [hbase, hpackage, not_startsWith_longPackage hbase]
  | none =>
    cases hcut : cutFirst ':' pattern.toList with
    | none => exact hne pattern hn
    | some parts =>
      obtain ⟨p, name⟩ := parts
      have hlen := congrArg List.length (eq_of_cutFirst hcut)
      simp only [String.length_toList, List.length_append, List.length_cons] at hlen
      dsimp only
      split_ifs
      · exact hne _ (by rw [String.length_ofList]; omega)
      · rw [beq_eq_false_iff_ne]
        rintro rfl
        rw [String.append_assoc, String.length_append, hlong] at hn
        omega

/-! ## Views -/

/-- every target is selected -/
def SelectsAll (v : ProjectView) : Prop := ∀ label, IsTarget label → v.selectsLabel label = true

theorem selectsLabel_of_no_excluded {v : ProjectView} (h : v.excluded = []) (label : String) :
    v.selectsLabel label = v.included.any (selects · label) := by
  simp [selectsLabel, h]

/-- **Which views select the whole workspace**: those with a pattern for everything. -/
theorem selectsAll_iff {v : ProjectView} (h : v.excluded = []) : v.SelectsAll ↔ ∃ p ∈ v.included, Boundless p := by
  constructor
  · intro hall
    by_contra hno
    -- a name that is longer than all patterns together is longer than each
    have hlabel := hall _ (isTarget_longLabel (v.included.map String.length).sum)
    rw [selectsLabel_of_no_excluded h, List.any_eq_true] at hlabel
    obtain ⟨p, hp, hselects⟩ := hlabel
    have hlen : p.length ≤ (v.included.map String.length).sum :=
      List.single_le_sum (by simp) _ (List.mem_map_of_mem hp)
    rw [not_selects_longLabel (fun hb => hno ⟨p, hp, hb⟩) hlen] at hselects
    exact absurd hselects (by decide)
  · rintro ⟨p, hp, hb⟩ label hl
    rw [selectsLabel_of_no_excluded h, List.any_eq_true]
    exact ⟨p, hp, selects_of_boundless hb hl⟩

theorem isFull_iff {v : ProjectView} : v.isFull = true ↔ ∃ p ∈ v.included, startsWith everything p = true := by
  rw [isFull, List.any_eq_true]

/-- **When full views are those that select the whole workspace.** A view that takes nothing away selects every target
just if a pattern is a row of slashes, then `...` and perhaps `:all`. It counts as full if a pattern begins with `//...`.
So the two are the same just if there are patterns of both kinds or of neither; and only `//...` and `//...:all` are of
both. -/
theorem full_agrees_iff {v : ProjectView} (h : v.excluded = []) :
    (v.SelectsAll ↔ ∃ p ∈ v.included, Boundless p) ∧
      ((v.isFull = true ↔ v.SelectsAll) ↔
        ((∃ p ∈ v.included, startsWith everything p = true) ↔ ∃ p ∈ v.included, Boundless p)) ∧
      ∀ p, startsWith everything p = true ∧ Boundless p ↔ p = "//..." ∨ p = "//...:all" := by
  refine ⟨selectsAll_iff h, ?_, fun p => boundless_of_everything_iff⟩
  rw [isFull_iff, selectsAll_iff h]

/-- everything below the directory at hand, and one more target -/
def fromHere : ProjectView := ofPatterns ["...", "//app:app"]

/-- a view that selects everything and does not count as full -/
theorem fromHere_selectsAll :
    fromHere.excluded = [] ∧ fromHere.SelectsAll ∧ fromHere.isFull = false ∧
      ¬ (fromHere.isFull = true ↔ fromHere.SelectsAll) := by
  have hnone : fromHere.excluded = [] := by decide
  obtain ⟨hall, hagrees, -⟩ := full_agrees_iff hnone
  have hboundless : ∃ p ∈ fromHere.included, Boundless p := ⟨"...", by decide, 0, .inl rfl⟩
  refine ⟨hnone, hall.2 hboundless, by decide, fun h => ?_⟩
  exact absurd ((hagrees.1 h).2 hboundless) (by decide)

/-- all targets of the workspace, with the other word for all of them -/
def allByStar : ProjectView := ofPatterns ["//...:*"]

/-- **A view that counts as full and selects hardly anything.** Before `:*` the dots do not stand for packages. -/
theorem allByStar_missed :
    allByStar.excluded = [] ∧ allByStar.isFull = true ∧ IsTarget "//app:app" ∧
      allByStar.selectsLabel "//app:app" = false ∧ ¬ (allByStar.isFull = true ↔ allByStar.SelectsAll) := by
  have htarget : IsTarget "//app:app" := ⟨"app", "app", by decide, by decide, by decide⟩
  have hfull : allByStar.isFull = true := by decide
  have hmissed : allByStar.selectsLabel "//app:app" = false := by decide
  refine ⟨by decide, hfull, htarget, hmissed, fun h => ?_⟩
  rw [h.1 hfull _ htarget] at hmissed
  exact absurd hmissed (by decide)

end ProjectView

end BuildImport
