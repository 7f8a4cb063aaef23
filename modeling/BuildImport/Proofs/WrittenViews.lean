/-
Views as they are written in a configuration, and as they are built from patterns.

A view that is built has its patterns without the white space around them, and no empty ones. A view that is read has
them as they are written. `decoded_agrees_iff` says when this makes no difference: just if every pattern is `Neat`.
Otherwise the lists of patterns differ, since what is cut or left out makes a list lighter (`weight_ofPatterns_le`), and
included and excluded patterns together weigh as much as all of them (`weight_parts`).

What is lost on the way through a configuration may be an exclusion: with a blank before its mark it takes nothing away
(`exclusion_lost`).
-/
import Mathlib.Tactic
import Mathlib.Data.List.DropRight
import BuildImport.Proofs.Encodings
import BuildImport.Proofs.Patterns

namespace BuildImport

open Text

/-! ## Trimming -/

namespace Text

variable {f : Char → Bool} {s : String}

theorem toList_trim (f : Char → Bool) (s : String) : (trim f s).toList = (s.toList.dropWhile f).rdropWhile f := by
  rw [trim, String.toList_ofList]
  rfl

theorem sublist_trim (f : Char → Bool) (s : String) : (trim f s).toList.Sublist s.toList := by
  rw [toList_trim]
  exact (List.rdropWhile_prefix f _).sublist.trans (List.dropWhile_suffix f).sublist

theorem length_trim_le (f : Char → Bool) (s : String) : (trim f s).length ≤ s.length := by
  rw [← String.length_toList, ← String.length_toList]
  exact (sublist_trim f s).length_le

theorem trim_eq_of_length (h : (trim f s).length = s.length) : trim f s = s := by
  rw [← String.length_toList, ← String.length_toList] at h
  exact String.toList_inj.1 ((sublist_trim f s).eq_of_length h)

/-- trimming leaves alone what has nothing to drop at its ends -/
theorem trim_eq_self_iff :
    trim f s = s ↔ (∀ c ∈ s.toList.head?, f c = false) ∧ ∀ c ∈ s.toList.getLast?, f c = false := by
  have hfront : s.toList.dropWhile f = s.toList ↔ ∀ c ∈ s.toList.head?, f c = false := by
    cases s.toList with
    | nil => simp
    | cons c cs =>
      rw [List.dropWhile_eq_self_iff]
      simp
  have hback : s.toList.rdropWhile f = s.toList ↔ ∀ c ∈ s.toList.getLast?, f c = false := by
    rw [List.rdropWhile_eq_self_iff]
    constructor
    · intro h c hc
      have hne : s.toList ≠ [] := by
        intro hnil
        simp [hnil] at hc
      rw [Option.mem_def, List.getLast?_eq_some_getLast hne, Option.some.injEq] at hc
      rw [← hc, ← Bool.not_eq_true]
      exact h hne
    · intro h hne
      rw [Bool.not_eq_true]
      exact h _ (List.getLast?_eq_some_getLast hne)
  rw [← hfront, ← hback, ← String.toList_inj, toList_trim]
  constructor
  · intro h
    -- what is dropped in front cannot come back
    have hlen := (List.rdropWhile_prefix f (s.toList.dropWhile f)).length_le
    rw [h] at hlen
    have hdrop := (List.dropWhile_suffix f (l := s.toList)).sublist.eq_of_length_le hlen
    rw [hdrop] at h
    exact ⟨hdrop, h⟩
  · rintro ⟨hdrop, hr⟩
    rw [hdrop, hr]

theorem trim_trim (f : Char → Bool) (s : String) : trim f (trim f s) = trim f s := by
  rw [trim_eq_self_iff, toList_trim]
  refine ⟨fun c hc => ?_, fun c hc => eq_false_of_getLast?_rdropWhile hc⟩
  -- what is dropped at the end leaves the first character where it is
  obtain ⟨dropped, hdropped⟩ := List.rdropWhile_prefix f (s.toList.dropWhile f)
  have hfirst := List.head?_dropWhile_not f s.toList
  rw [← hdropped, List.head?_append, Option.mem_def.1 hc] at hfirst
  exact hfirst

end Text

/-! ## Views from their written form -/

/-- texts that are written as a list are read back -/
theorem faithful_texts (ps : List String) : Encoded.Faithful ps where
  fits := fits_texts ps
  restored := Datum.asTexts?_texts ps

namespace ProjectView

/-- a view is read where a list of texts is, and has these as its patterns -/
theorem parse_eq (text : String) :
    Encoded.parse ProjectView text = (Encoded.parse (List String) text).map ProjectView.mk := by
  have hschema : Encoded.schema ProjectView = Encoded.schema (List String) := rfl
  unfold Encoded.parse
  rw [hschema]
  cases (Encoded.schema (List String)).readText text with
  | error e => rfl
  | ok d =>
    change Encoded.ofDatum ProjectView d = (Encoded.ofDatum (List String) d).map ProjectView.mk
    have hdatum : Encoded.ofDatum? d = (Encoded.ofDatum? (α := List String) d).map ProjectView.mk := rfl
    unfold Encoded.ofDatum
    rw [hdatum]
    cases Encoded.ofDatum? (α := List String) d <;> rfl

/-! ## Agreement -/

/-- both views select alike, and have the same patterns that add and that take away -/
structure Agree (v w : ProjectView) : Prop where
  selects : ∀ label, v.selectsLabel label = w.selectsLabel label
  full : v.isFull = w.isFull
  included : v.included = w.included
  excluded : v.excluded = w.excluded

theorem agree_iff {v w : ProjectView} : v.Agree w ↔ v.included = w.included ∧ v.excluded = w.excluded := by
  constructor
  · intro h
    exact ⟨h.included, h.excluded⟩
  · rintro ⟨hi, he⟩
    refine ⟨fun label => ?_, ?_, hi, he⟩
    · rw [selectsLabel, selectsLabel, hi, he]
    · rw [isFull, isFull, hi]

/-- neither empty nor with white space at an end -/
structure Neat (pattern : String) : Prop where
  nonempty : pattern ≠ ""
  front : ∀ c ∈ pattern.toList.head?, isBlank c = false
  back : ∀ c ∈ pattern.toList.getLast?, isBlank c = false

theorem neat_iff {pattern : String} : Neat pattern ↔ trim isBlank pattern = pattern ∧ pattern ≠ "" := by
  rw [trim_eq_self_iff]
  exact ⟨fun h => ⟨⟨h.front, h.back⟩, h.nonempty⟩, fun h => ⟨h.2, h.1.1, h.1.2⟩⟩

/-- the letters of all patterns, and one for each pattern -/
def weight : List String → Nat
  | [] => 0
  | p :: ps => p.length + 1 + weight ps

theorem isSome_dropPrefix? (front s : String) : (dropPrefix? front s).isSome = startsWith front s := by
  unfold dropPrefix?
  cases startsWith front s <;> rfl

theorem unmarked_or_marked (p : String) : startsWith exclusion p = false ∨ ∃ rest, p = exclusion ++ rest := by
  have hmark := isSome_dropPrefix? exclusion p
  cases hd : dropPrefix? exclusion p with
  | none =>
    rw [hd] at hmark
    exact .inl hmark.symm
  | some rest => exact .inr ⟨rest, Roots.dropPrefix?_eq_some_iff.1 hd⟩

/-- a pattern without a mark is one of those that add -/
theorem parts_unmarked {p : String} (h : startsWith exclusion p = false) (ps : List String) :
    included ⟨p :: ps⟩ = p :: included ⟨ps⟩ ∧ excluded ⟨p :: ps⟩ = excluded ⟨ps⟩ := by
  have hd : dropPrefix? exclusion p = none := by
    rw [← Option.not_isSome_iff_eq_none, isSome_dropPrefix?, h]
    exact Bool.false_ne_true
  exact ⟨List.filter_cons_of_pos (by simp [h]), List.filterMap_cons_none hd⟩

/-- a pattern with a mark is one of those that take away, without the mark -/
theorem parts_marked (p : String) (ps : List String) :
    included ⟨(exclusion ++ p) :: ps⟩ = included ⟨ps⟩ ∧ excluded ⟨(exclusion ++ p) :: ps⟩ = p :: excluded ⟨ps⟩ :=
  ⟨List.filter_cons_of_neg (by simp [startsWith_append]),
    List.filterMap_cons_some (Roots.dropPrefix?_eq_some_iff.2 rfl)⟩

/-- each pattern adds or takes away, in the second case without its mark -/
theorem weight_parts (ps : List String) :
    weight (included ⟨ps⟩) + (weight (excluded ⟨ps⟩) + (excluded ⟨ps⟩).length) = weight ps := by
  induction ps with
  | nil => rfl
  | cons p ps ih =>
    rcases unmarked_or_marked p with h | ⟨rest, rfl⟩
    · obtain ⟨hi, he⟩ := parts_unmarked h ps
      rw [hi, he, weight, weight, ← ih]
      omega
    · obtain ⟨hi, he⟩ := parts_marked rest ps
      have hlen : (exclusion ++ rest).length = rest.length + 1 := by
        rw [String.length_append, Nat.add_comm]
        rfl
      rw [hi, he, weight, weight, List.length_cons, hlen, ← ih]
      omega

/-- what a view is built of, one pattern after the other -/
theorem ofPatterns_cons (p : String) (ps : List String) :
    (ofPatterns (p :: ps)).patterns =
      if trim isBlank p = "" then (ofPatterns ps).patterns else trim isBlank p :: (ofPatterns ps).patterns := by
  by_cases h : trim isBlank p = "" <;> simp [ofPatterns, h]

/-- building a view makes its patterns lighter, unless all of them are neat -/
theorem weight_ofPatterns_le (ps : List String) :
    weight (ofPatterns ps).patterns ≤ weight ps ∧
      (weight ps ≤ weight (ofPatterns ps).patterns → ∀ p ∈ ps, Neat p) := by
  induction ps with
  | nil => simp [ofPatterns, weight]
  | cons p ps ih =>
    obtain ⟨hle, hneat⟩ := ih
    have hlen := length_trim_le isBlank p
    rw [ofPatterns_cons, List.forall_mem_cons]
    split_ifs with h
    · refine ⟨?_, fun hge => ?_⟩ <;> rw [weight] at * <;> omega
    · rw [weight, weight]
      refine ⟨by omega, fun hge => ⟨neat_iff.2 ?_, hneat (by omega)⟩⟩
      have heq : trim isBlank p = p := trim_eq_of_length (by omega)
      exact ⟨heq, heq ▸ h⟩

theorem ofPatterns_of_neat {ps : List String} (h : ∀ p ∈ ps, Neat p) : ofPatterns ps = ⟨ps⟩ := by
  have htrim : ps.map (trim isBlank) = ps := by
    calc ps.map (trim isBlank) = ps.map id := List.map_congr_left fun p hp => (neat_iff.1 (h p hp)).1
      _ = ps := List.map_id ps
  rw [ofPatterns, htrim, List.filter_eq_self.2 fun p hp => by simp [(h p hp).nonempty]]

/-- **When a view means the same however it is made.** The view that is read from a list of patterns has these as they
are written. It agrees with the one that is built from them just if no pattern is empty or has white space at an end. -/
theorem decoded_agrees_iff {text : String} {ps : List String} (h : Encoded.parse (List String) text = .ok ps) :
    Encoded.parse ProjectView text = .ok ⟨ps⟩ ∧ (Agree ⟨ps⟩ (ofPatterns ps) ↔ ∀ p ∈ ps, Neat p) := by
  refine ⟨by rw [parse_eq, h]; rfl, ?_⟩
  constructor
  · intro hagree
    apply (weight_ofPatterns_le ps).2
    have hparts := weight_parts (ofPatterns ps).patterns
    rw [← hagree.included, ← hagree.excluded, weight_parts] at hparts
    exact hparts.le
  · intro hneat
    rw [ofPatterns_of_neat hneat]
    exact agree_iff.2 ⟨rfl, rfl⟩

/-- everything but a package with generated code; a blank stands before the mark of the exclusion -/
def paddedPatterns : List String := ["//...", " -//gen/..."]

/-- how they are written -/
def paddedText : String := "[\"//...\",\" -//gen/...\"]"

theorem parse_paddedText : Encoded.parse (List String) paddedText = .ok paddedPatterns := by
  have hcompact : paddedText = Encoded.compact paddedPatterns := by decide
  rw [hcompact]
  exact (faithful_texts paddedPatterns).parse_compact (by decide)

/-- **An exclusion is lost on the way through a configuration.** The view that is built leaves the generated code out,
the one that is read selects it. -/
theorem exclusion_lost :
    ∃ v, Encoded.parse ProjectView paddedText = .ok v ∧ v.excluded = [] ∧ v.selectsLabel "//gen:g" = true ∧
      (ofPatterns paddedPatterns).excluded = ["//gen/..."] ∧
      (ofPatterns paddedPatterns).selectsLabel "//gen:g" = false := by
  refine ⟨⟨paddedPatterns⟩, ?_, by decide, by decide, by decide, by decide⟩
  rw [parse_eq, parse_paddedText]
  rfl

/-- the padded view disagrees, since its second pattern is not neat -/
theorem paddedText_disagrees :
    Encoded.parse (List String) paddedText = .ok paddedPatterns ∧
      Encoded.parse ProjectView paddedText = .ok ⟨paddedPatterns⟩ ∧
      ¬ Agree ⟨paddedPatterns⟩ (ofPatterns paddedPatterns) := by
  obtain ⟨hread, hagree⟩ := decoded_agrees_iff parse_paddedText
  refine ⟨parse_paddedText, hread, fun h => ?_⟩
  have hblank := (hagree.1 h " -//gen/..." (by decide)).front ' ' (by decide)
  exact absurd hblank (by decide)

end ProjectView

end BuildImport
