/-
Labels of the main workspace and their packages.

- `packageOf_eq_ok_iff`: a label names a package iff it is `//`, the package, one `:` and a name without another;
- `packageOf_withName`: another target name leaves the package, and so the directory, as it was;
- `packageOf_between`: in the order of labels those of one package stand next to each other, because they share all
  that comes before their names (`prefix_of_between`).
-/
import Mathlib.Tactic
import Mathlib.Data.String.Basic
import BuildImport.Roots

namespace BuildImport

open Text

/-! ## Cuts -/

namespace Text

theorem startsWith_iff {front s : String} : startsWith front s = true ↔ front.toList <+: s.toList :=
  List.isPrefixOf_iff_prefix

theorem startsWith_refl (s : String) : startsWith s s = true :=
  startsWith_iff.2 (List.prefix_refl _)

theorem startsWith_trans {a b c : String} (hab : startsWith a b = true) (hbc : startsWith b c = true) :
    startsWith a c = true := by
  rw [startsWith_iff] at *
  exact hab.trans hbc

theorem startsWith_append (front rest : String) : startsWith front (front ++ rest) = true := by
  simp [startsWith]

theorem startsWith_append_append (a b s : String) : startsWith (a ++ b) (a ++ s) = startsWith b s := by
  rw [Bool.eq_iff_iff, startsWith_iff, startsWith_iff, String.toList_append, String.toList_append,
    List.prefix_append_right_inj]

theorem cutFirst_append {c : Char} {a : List Char} (h : c ∉ a) (b : List Char) :
    cutFirst c (a ++ c :: b) = some (a, b) := by
  induction a with
  | nil => simp [cutFirst]
  | cons d a ih =>
    simp only [List.mem_cons, not_or] at h
    simp [cutFirst, Ne.symm h.1, ih h.2]

theorem cutLast_eq_none_iff {c : Char} {s : List Char} : cutLast c s = none ↔ c ∉ s := by
  induction s with
  | nil => simp [cutLast]
  | cons d s ih =>
    unfold cutLast
    cases h : cutLast c s with
    | some ab => simp_all
    | none =>
      by_cases hd : d = c
      · simp [hd]
      · simp [hd, ih.1 h, Ne.symm hd]

theorem cutLast_append {c : Char} {b : List Char} (h : c ∉ b) (a : List Char) :
    cutLast c (a ++ c :: b) = some (a, b) := by
  induction a with
  | nil => simp [cutLast, cutLast_eq_none_iff.2 h]
  | cons d a ih => simp [cutLast, ih]

theorem cons_le_cons_iff {x y : Char} {a b : List Char} : x :: a ≤ y :: b ↔ x < y ∨ x = y ∧ a ≤ b := by
  rw [← not_lt, ← not_lt, List.cons_lt_cons_iff, not_or, not_and]
  constructor
  · rintro ⟨h, h'⟩
    rcases lt_or_eq_of_le (not_lt.1 h) with hlt | heq
    · exact .inl hlt
    · exact .inr ⟨heq, h' heq.symm⟩
  · rintro (h | ⟨rfl, h⟩)
    · exact ⟨not_lt_of_gt h, fun e => absurd e (ne_of_gt h)⟩
    · exact ⟨lt_irrefl x, fun _ => h⟩

/-- what lies between two texts in the alphabetical order starts as they both do -/
theorem prefix_of_between {front a b c : List Char} (ha : front <+: a) (hc : front <+: c) (hab : a ≤ b) (hbc : b ≤ c) :
    front <+: b := by
  induction front generalizing a b c with
  | nil => exact List.nil_prefix
  | cons x front ih =>
    obtain ⟨a, rfl⟩ := ha
    obtain ⟨c, rfl⟩ := hc
    cases b with
    | nil => exact absurd hab (not_le_of_gt (List.nil_lt_cons _ _))
    | cons y b =>
      rw [List.cons_append, cons_le_cons_iff] at hab hbc
      have hxy : x = y := by
        rcases hab with h | ⟨h, -⟩
        · rcases hbc with h' | ⟨h', -⟩
          · exact absurd h (lt_asymm h')
          · exact h'.symm
        · exact h
      subst hxy
      have h1 : front ++ a ≤ b := (hab.resolve_left (lt_irrefl x)).2
      have h2 : b ≤ front ++ c := (hbc.resolve_left (lt_irrefl x)).2
      exact List.cons_prefix_cons.2 ⟨rfl, ih (List.prefix_append _ _) (List.prefix_append _ _) h1 h2⟩

theorem startsWith_of_between {front a b c : String} (ha : startsWith front a = true) (hc : startsWith front c = true)
    (hab : a ≤ b) (hbc : b ≤ c) : startsWith front b = true := by
  unfold startsWith at ha hc ⊢
  rw [List.isPrefixOf_iff_prefix] at ha hc ⊢
  exact prefix_of_between ha hc (String.le_iff_toList_le.1 hab) (String.le_iff_toList_le.1 hbc)

end Text

/-! ## Packages of labels -/

namespace Roots

theorem dropPrefix?_eq_some_iff {front s rest : String} : dropPrefix? front s = some rest ↔ s = front ++ rest := by
  unfold dropPrefix? startsWith
  constructor
  · intro h
    split_ifs at h with hp
    obtain ⟨t, ht⟩ := List.isPrefixOf_iff_prefix.1 hp
    simp only [Option.some.injEq] at h
    rw [← h, ← String.toList_inj, String.toList_append, String.toList_ofList, ← ht, ← String.length_toList,
      List.drop_left]
  · rintro rfl
    simp [← String.length_toList]

/-- **Which labels name a package.** -/
theorem packageOf_eq_ok_iff {l : Label} {package : String} :
    packageOf l = .ok package ↔
      ∃ name, l.text = "//" ++ package ++ ":" ++ name ∧ ':' ∉ package.toList ∧ ':' ∉ name.toList := by
  unfold packageOf
  constructor
  · intro h
    cases hd : dropPrefix? "//" l.text with
    | none => simp [hd] at h
    | some rest =>
      simp only [hd] at h
      cases hcut : cutFirst ':' rest.toList with
      | none => simp [hcut] at h
      | some parts =>
        obtain ⟨front, name⟩ := parts
        simp only [hcut] at h
        split_ifs at h with hn
        obtain rfl : String.ofList front = package := by simpa using h
        refine ⟨String.ofList name, ?_, ?_, ?_⟩
        · rw [dropPrefix?_eq_some_iff.1 hd, ← String.toList_inj]
          simp [eq_of_cutFirst hcut]
        · simpa using not_mem_of_cutFirst hcut
        · simpa using hn
  · rintro ⟨name, ht, hp, hn⟩
    have hd : dropPrefix? "//" l.text = some (package ++ ":" ++ name) :=
      dropPrefix?_eq_some_iff.2 (by rw [ht, String.append_assoc, String.append_assoc, String.append_assoc])
    have hcut : cutFirst ':' (package ++ ":" ++ name).toList = some (package.toList, name.toList) := by
      simpa using cutFirst_append hp name.toList
    simp only [hd, hcut, String.ofList_toList]
    simp [hn]

/-- another target name, without a colon in it, leaves the package -/
theorem packageOf_withName {l : Label} {package name : String} (h : packageOf l = .ok package)
    (hn : ':' ∉ name.toList) : packageOf (l.withName name) = .ok package := by
  obtain ⟨old, ht, hp, hold⟩ := packageOf_eq_ok_iff.1 h
  have hcut : cutLast ':' l.text.toList = some (("//" ++ package).toList, old.toList) := by
    rw [ht]
    simpa using cutLast_append hold ("//" ++ package).toList
  refine packageOf_eq_ok_iff.2 ⟨name, ?_, hp, hn⟩
  simp only [Label.withName, hcut, String.ofList_toList]

theorem directoryOf_eq_ok_iff {r : Roots} {l : Label} {d : Path} :
    r.directoryOf l = .ok d ↔ ∃ package, packageOf l = .ok package ∧ r.workspace.join ⟨package⟩ = d := by
  unfold directoryOf
  cases packageOf l <;> simp

theorem directoryOf_withName {r : Roots} {l : Label} {d : Path} {name : String} (h : r.directoryOf l = .ok d)
    (hn : ':' ∉ name.toList) : r.directoryOf (l.withName name) = .ok d := by
  obtain ⟨package, hp, hd⟩ := directoryOf_eq_ok_iff.1 h
  exact directoryOf_eq_ok_iff.2 ⟨package, packageOf_withName hp hn, hd⟩

/-- **The labels of a package stand next to each other.** -/
theorem packageOf_between {a b c : Label} {package other : String} (ha : packageOf a = .ok package)
    (hb : packageOf b = .ok other) (hc : packageOf c = .ok package) (hab : compare a b = .lt)
    (hbc : compare b c = .lt) : other = package := by
  obtain ⟨an, hat, hp, -⟩ := packageOf_eq_ok_iff.1 ha
  obtain ⟨bn, hbt, ho, -⟩ := packageOf_eq_ok_iff.1 hb
  obtain ⟨cn, hct, -, -⟩ := packageOf_eq_ok_iff.1 hc
  have hle : ∀ {x y : Label}, compare x y = .lt → x.text ≤ y.text := by
    intro x y h
    have h : compare x.text y.text = .lt := h
    exact le_of_lt (compare_lt_iff_lt.1 h)
  have hfront : startsWith ("//" ++ package ++ ":") b.text = true := by
    refine startsWith_of_between ?_ ?_ (hle hab) (hle hbc)
    · rw [hat]; exact startsWith_append _ _
    · rw [hct]; exact startsWith_append _ _
  obtain ⟨rest, hr⟩ := List.isPrefixOf_iff_prefix.1 hfront
  -- both cut the label at its first colon
  have h1 : cutFirst ':' (b.text.toList.drop 2) = some (package.toList, rest) := by
    rw [← hr]
    simpa using cutFirst_append hp rest
  have h2 : cutFirst ':' (b.text.toList.drop 2) = some (other.toList, bn.toList) := by
    rw [hbt]
    simpa using cutFirst_append ho bn.toList
  rw [h1, Option.some.injEq, Prod.mk.injEq] at h2
  exact (String.toList_inj.1 h2.1).symm

end Roots

end BuildImport
