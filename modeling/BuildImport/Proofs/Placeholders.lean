/-
Placeholders: for which directories there is one, and what they are called.

- `mem_heads_iff`: of texts in ascending order the scan keeps those that start with no other one.
- `topmost_congr`: so the topmost directories do not depend on how often a directory occurs, or where.
- `labelFor_join`: the directory of a package is called by the package, and `labelFor_injective`: no two are called alike.
- `nodup_labels_make`, `packageOf_of_mem_make`: labels of placeholders are distinct, and no label of a package is one.
-/
import Mathlib.Tactic
import Mathlib.Data.List.Sort
import Mathlib.Data.String.Basic
import BuildImport.Placeholder
import BuildImport.Proofs.Imported

namespace BuildImport

open Text

/-! ## Beginnings -/

namespace Text

theorem nil_le (s : List Char) : [] ≤ s := by
  cases s with
  | nil => exact le_refl _
  | cons c s => exact le_of_lt (List.nil_lt_cons c s)

theorem prefix_le {front s : List Char} (h : front <+: s) : front ≤ s := by
  obtain ⟨rest, rfl⟩ := h
  induction front with
  | nil => exact nil_le _
  | cons c front ih => exact cons_le_cons_iff.2 (.inr ⟨rfl, ih⟩)

theorem le_of_startsWith {front s : String} (h : startsWith front s = true) : front ≤ s :=
  String.le_iff_toList_le.2 (prefix_le (startsWith_iff.1 h))

end Text

namespace Placeholder

/-! ## Topmost texts -/

/-- only texts that are scanned are kept -/
theorem mem_of_mem_heads {head : Option String} {xs : List String} {text : String} (h : text ∈ heads head xs) :
    text ∈ xs := by
  induction xs generalizing head with
  | nil => simp [heads] at h
  | cons x rest ih =>
    unfold heads at h
    split_ifs at h
    · exact List.mem_cons_of_mem _ (ih h)
    · rcases List.mem_cons.1 h with rfl | h
      · exact List.mem_cons_self
      · exact List.mem_cons_of_mem _ (ih h)

/-- the text is one of `xs`, and neither the head nor another one of them is its beginning -/
def Kept (head : Option String) (xs : List String) (text : String) : Prop :=
  text ∈ xs ∧ (∀ h ∈ head, startsWith h text = false) ∧ ∀ other ∈ xs, startsWith other text = true → other = text

/-- a text that starts with the head goes, and what it is a beginning of goes with the head -/
theorem kept_cons_of_head {head : Option String} {x text : String} {rest : List String}
    (hx : head.any (startsWith · x) = true) : Kept head (x :: rest) text ↔ Kept head rest text := by
  obtain ⟨h, hhead, hpre⟩ := (Option.any_eq_true _ _).1 hx
  constructor
  · rintro ⟨hm, hno, hmin⟩
    refine ⟨?_, hno, fun other ho => hmin other (List.mem_cons_of_mem _ ho)⟩
    rcases List.mem_cons.1 hm with rfl | hm
    · exact absurd hpre (by simp [hno h hhead])
    · exact hm
  · rintro ⟨hm, hno, hmin⟩
    refine ⟨List.mem_cons_of_mem _ hm, hno, ?_⟩
    intro other ho hp
    rcases List.mem_cons.1 ho with rfl | ho
    · exact absurd (startsWith_trans hpre hp) (by simp [hno h hhead])
    · exact hmin other ho hp

/-- any other text stays and is the next head; what starts with the old head would lie between the two -/
theorem kept_cons_of_not_head {head : Option String} {x text : String} {rest : List String}
    (hx : ¬ head.any (startsWith · x) = true) (hh : ∀ h ∈ head, h ≤ x) (hrest : ∀ y ∈ rest, x ≤ y) :
    Kept head (x :: rest) text ↔ text = x ∨ Kept (some x) rest text := by
  have hno : ∀ h ∈ head, startsWith h x = false := by
    intro h hm
    rw [← Bool.not_eq_true]
    intro hp
    exact hx ((Option.any_eq_true _ _).2 ⟨h, hm, hp⟩)
  constructor
  · rintro ⟨hm, -, hmin⟩
    by_cases hxt : text = x
    · exact .inl hxt
    · refine .inr ⟨(List.mem_cons.1 hm).resolve_left hxt, ?_, fun other ho => hmin other (List.mem_cons_of_mem _ ho)⟩
      intro h hhead
      cases hhead
      rw [← Bool.not_eq_true]
      intro hp
      exact hxt (hmin x List.mem_cons_self hp).symm
  · rintro (rfl | ⟨hm, hxt, hmin⟩)
    · refine ⟨List.mem_cons_self, hno, ?_⟩
      intro other ho hp
      rcases List.mem_cons.1 ho with rfl | ho
      · rfl
      · exact le_antisymm (le_of_startsWith hp) (hrest other ho)
    · refine ⟨List.mem_cons_of_mem _ hm, ?_, ?_⟩
      · intro h hhead
        rw [← Bool.not_eq_true]
        intro hp
        have hpx : startsWith h x = true :=
          startsWith_of_between (startsWith_refl h) hp (hh h hhead) (hrest text hm)
        simp [hno h hhead] at hpx
      · intro other ho hp
        rcases List.mem_cons.1 ho with rfl | ho
        · exact absurd hp (by simp [hxt other rfl])
        · exact hmin other ho hp

/-- the scan after a head that comes before all texts -/
theorem mem_heads_iff_kept {head : Option String} {xs : List String} {text : String} (hs : xs.Pairwise (· ≤ ·))
    (hh : ∀ h ∈ head, ∀ x ∈ xs, h ≤ x) : text ∈ heads head xs ↔ Kept head xs text := by
  induction xs generalizing head with
  | nil => simp [heads, Kept]
  | cons x rest ih =>
    obtain ⟨hx, hrest⟩ := List.pairwise_cons.1 hs
    unfold heads
    split_ifs with hany
    · rw [kept_cons_of_head hany, ih hrest fun h hm y hy => hh h hm y (List.mem_cons_of_mem _ hy)]
    · have hnext : ∀ h ∈ some x, ∀ y ∈ rest, h ≤ y := by
        intro h hm y hy
        cases hm
        exact hx y hy
      rw [kept_cons_of_not_head hany (fun h hm => hh h hm x List.mem_cons_self) hx, List.mem_cons, ih hrest hnext]

/-- **Which texts are kept.** Those that start with no other one. -/
theorem mem_heads_iff {xs : List String} {text : String} (hs : xs.Pairwise (· ≤ ·)) :
    text ∈ heads none xs ↔ text ∈ xs ∧ ∀ other ∈ xs, startsWith other text = true → other = text := by
  rw [mem_heads_iff_kept hs (by simp)]
  simp [Kept]

/-- what is kept comes in strictly ascending order -/
theorem pairwise_heads {head : Option String} {xs : List String} (hs : xs.Pairwise (· ≤ ·)) :
    (heads head xs).Pairwise (· < ·) := by
  induction xs generalizing head with
  | nil => exact .nil
  | cons x rest ih =>
    obtain ⟨hx, hrest⟩ := List.pairwise_cons.1 hs
    unfold heads
    split_ifs
    · exact ih hrest
    · refine List.pairwise_cons.2 ⟨?_, ih hrest⟩
      intro text hm
      apply lt_of_le_of_ne (hx text (mem_of_mem_heads hm))
      rintro rfl
      have hkept := (mem_heads_iff_kept hrest fun y hy z hz => by cases hy; exact hx z hz).1 hm
      have hno := hkept.2.1 x rfl
      simp [startsWith_refl] at hno

/-! ## Topmost directories -/

/-- the texts of the base directories in their order -/
def sortedTexts (ms : List Module) : List String :=
  (ms.map (·.baseDirectory.text)).mergeSort fun a b => decide (a ≤ b)

theorem topmost_eq (ms : List Module) : topmost ms = (heads none (sortedTexts ms)).map Path.mk := rfl

theorem mem_sortedTexts {ms : List Module} {text : String} :
    text ∈ sortedTexts ms ↔ ∃ x ∈ ms, x.baseDirectory.text = text := by
  rw [sortedTexts, List.mem_mergeSort, List.mem_map]

theorem pairwise_sortedTexts (ms : List Module) : (sortedTexts ms).Pairwise (· ≤ ·) := by
  have h : (sortedTexts ms).Pairwise fun a b => decide (a ≤ b) = true :=
    List.pairwise_mergeSort (fun a b c hab hbc => by simp only [decide_eq_true_eq] at *; exact le_trans hab hbc)
      (fun a b => by simpa using le_total a b) _
  exact h.imp of_decide_eq_true

/-- **Which directories are topmost.** The base directories whose text starts with that of no other one. -/
theorem mem_topmost_iff {ms : List Module} {d : Path} :
    d ∈ topmost ms ↔
      (∃ x ∈ ms, x.baseDirectory = d) ∧
        ∀ x ∈ ms, startsWith x.baseDirectory.text d.text = true → x.baseDirectory = d := by
  have htext : ∀ a b : Path, a.text = b.text ↔ a = b := fun a b => by cases a; cases b; simp
  rw [topmost_eq, List.mem_map]
  constructor
  · rintro ⟨text, ht, rfl⟩
    obtain ⟨hm, hmin⟩ := (mem_heads_iff (pairwise_sortedTexts ms)).1 ht
    obtain ⟨x, hx, hxt⟩ := mem_sortedTexts.1 hm
    refine ⟨⟨x, hx, (htext _ _).1 hxt⟩, fun y hy hp => (htext _ _).1 ?_⟩
    exact hmin _ (mem_sortedTexts.2 ⟨y, hy, rfl⟩) hp
  · rintro ⟨⟨x, hx, rfl⟩, hmin⟩
    refine ⟨x.baseDirectory.text, (mem_heads_iff (pairwise_sortedTexts ms)).2 ⟨mem_sortedTexts.2 ⟨x, hx, rfl⟩, ?_⟩, rfl⟩
    intro other ho hp
    obtain ⟨y, hy, rfl⟩ := mem_sortedTexts.1 ho
    exact congrArg Path.text (hmin y hy hp)

theorem pairwise_topmost (ms : List Module) : (topmost ms).Pairwise fun d e => d.text < e.text := by
  rw [topmost_eq]
  exact List.pairwise_map.2 (pairwise_heads (pairwise_sortedTexts ms))

/-- **Topmost directories depend on nothing but which directories there are.** -/
theorem topmost_congr {ms ms' : List Module}
    (h : ∀ d, (∃ x ∈ ms, x.baseDirectory = d) ↔ ∃ x ∈ ms', x.baseDirectory = d) : topmost ms = topmost ms' := by
  have hirrefl : Std.Irrefl fun d e : Path => d.text < e.text := ⟨fun d => lt_irrefl d.text⟩
  refine List.Pairwise.eq_of_mem_iff (pairwise_topmost ms) (pairwise_topmost ms') ?_
  have hsub : ∀ {as bs : List Module}, (∀ d, (∃ x ∈ as, x.baseDirectory = d) ↔ ∃ x ∈ bs, x.baseDirectory = d) →
      ∀ d, d ∈ topmost as → d ∈ topmost bs := by
    intro as bs hab d hd
    obtain ⟨hm, hmin⟩ := mem_topmost_iff.1 hd
    refine mem_topmost_iff.2 ⟨(hab d).1 hm, ?_⟩
    intro y hy hp
    obtain ⟨x, hx, hxy⟩ := (hab y.baseDirectory).2 ⟨y, hy, rfl⟩
    rw [← hxy]
    exact hmin x hx (by rw [hxy]; exact hp)
  exact fun d => ⟨hsub h d, hsub (fun d => (h d).symm) d⟩

/-! ## Labels -/

/-- **A placeholder is called by the package of its directory.** -/
theorem labelFor_join (workspace : Path) {package : String} (h : Path.Canonical package) :
    labelFor workspace (workspace.join ⟨package⟩) = if package = "" then rootLabel else package ++ labelEnding := by
  unfold labelFor
  rw [Path.stripPrefix?_join workspace h]
  simp only [Option.map_some, Option.getD_some, h.trimEnd_eq]

/-- a label of either kind ends as no label of the other kind does -/
theorem rootLabel_ne (package : String) : rootLabel ≠ package ++ labelEnding := by
  intro h
  have h := congrArg (fun s => s.toList.reverse.take 12) h
  simp only [String.toList_append, List.reverse_append] at h
  rw [List.take_append_of_le_length (by decide)] at h
  exact absurd h (by decide)

theorem labelFor_injective (workspace : Path) {a b : String} (ha : Path.Canonical a) (hb : Path.Canonical b)
    (h : labelFor workspace (workspace.join ⟨a⟩) = labelFor workspace (workspace.join ⟨b⟩)) : a = b := by
  rw [labelFor_join workspace ha, labelFor_join workspace hb] at h
  split_ifs at h with h1 h2 h2
  · rw [h1, h2]
  · exact absurd h (rootLabel_ne b)
  · exact absurd h.symm (rootLabel_ne a)
  · rw [← String.toList_inj, String.toList_append, String.toList_append] at h
    exact String.toList_inj.1 (List.append_cancel_right h)

theorem not_absolute_labelFor (workspace : Path) {package : String} (h : Path.Canonical package) :
    startsWith "/" (labelFor workspace (workspace.join ⟨package⟩)) = false := by
  rw [labelFor_join workspace h]
  split_ifs with he
  · decide
  · obtain ⟨c, rest, hc⟩ := List.exists_cons_of_ne_nil (fun hn => he (String.toList_inj.1 hn) : package.toList ≠ [])
    have habs : startsWith "/" package = false := h.not_absolute
    simpa [startsWith, hc, List.isPrefixOf] using habs

/-- **No label of a package is one of a placeholder.** -/
theorem packageOf_labelFor (workspace : Path) {package : String} (h : Path.Canonical package) :
    Roots.packageOf ⟨labelFor workspace (workspace.join ⟨package⟩)⟩ = .error .notMain := by
  have hno : dropPrefix? "//" (labelFor workspace (workspace.join ⟨package⟩)) = none := by
    rw [dropPrefix?, if_neg]
    intro hp
    have : startsWith "/" (labelFor workspace (workspace.join ⟨package⟩)) = true := startsWith_trans (by decide) hp
    simp [not_absolute_labelFor workspace h] at this
  simp [Roots.packageOf, hno]

/-! ## The placeholders of an import -/

theorem isSynthetic_of_mem_make {workspace : Path} {ms : List Module} {view : ProjectView} {x : Module}
    (hx : x ∈ make workspace ms view) : x.isSynthetic = true := by
  unfold make at hx
  split_ifs at hx
  · simp at hx
  · rw [List.mem_singleton.1 hx]
    rfl
  · obtain ⟨d, -, rfl⟩ := List.mem_map.1 hx
    rfl

variable {workspace : Path} {ms : List Module} (hl : ∀ x ∈ ms, x.Located workspace)
include hl

theorem exists_package_of_mem_topmost {d : Path} (hd : d ∈ topmost ms) :
    ∃ package, Path.Canonical package ∧ d = workspace.join ⟨package⟩ := by
  obtain ⟨⟨x, hx, rfl⟩, -⟩ := mem_topmost_iff.1 hd
  obtain ⟨package, -, hc, hb⟩ := hl x hx
  exact ⟨package, hc, hb⟩

/-- **A placeholder is called by a canonical package**, the one of the workspace root by the empty one. -/
theorem exists_package_of_mem_make {view : ProjectView} {x : Module} (hx : x ∈ make workspace ms view) :
    ∃ package, Path.Canonical package ∧ x.label = ⟨labelFor workspace (workspace.join ⟨package⟩)⟩ := by
  unfold make at hx
  split_ifs at hx
  · simp at hx
  · refine ⟨"", .inl rfl, ?_⟩
    rw [List.mem_singleton.1 hx, labelFor_join workspace (.inl rfl)]
    rfl
  · obtain ⟨d, hd, rfl⟩ := List.mem_map.1 hx
    obtain ⟨package, hc, rfl⟩ := exists_package_of_mem_topmost hl (List.mem_of_mem_filter hd)
    exact ⟨package, hc, rfl⟩

theorem packageOf_of_mem_make {view : ProjectView} {x : Module} (hx : x ∈ make workspace ms view) :
    Roots.packageOf x.label = .error .notMain := by
  obtain ⟨package, hc, hlabel⟩ := exists_package_of_mem_make hl hx
  rw [hlabel, packageOf_labelFor workspace hc]

/-- **Labels of placeholders are distinct.** -/
theorem nodup_labels_make (view : ProjectView) : ((make workspace ms view).map (·.label)).Nodup := by
  unfold make
  split_ifs
  · exact List.nodup_nil
  · exact List.nodup_singleton _
  · have hne : (topmost ms).Pairwise fun d e => labelFor workspace d ≠ labelFor workspace e := by
      apply (pairwise_topmost ms).imp_of_mem
      intro d e hd he hlt heq
      obtain ⟨a, ha, rfl⟩ := exists_package_of_mem_topmost hl hd
      obtain ⟨b, hb, rfl⟩ := exists_package_of_mem_topmost hl he
      rw [labelFor_injective workspace ha hb heq] at hlt
      exact lt_irrefl _ hlt
    rw [List.map_map]
    exact List.Pairwise.map _ (fun d e h he => h (congrArg Label.text he)) (hne.filter _)

omit hl

/-- **Placeholders depend on nothing but which directories there are and which are source roots.** -/
theorem make_congr {ms' : List Module} (view : ProjectView)
    (hd : ∀ d, (∃ x ∈ ms, x.baseDirectory = d) ↔ ∃ x ∈ ms', x.baseDirectory = d)
    (hr : ∀ d, isSourceRoot ms d = isSourceRoot ms' d) : make workspace ms view = make workspace ms' view := by
  unfold make
  simp only [topmost_congr hd, hr]

end Placeholder

end BuildImport
