/-
What sets and maps hold after elements were added, and what a key finds in a list.

For a set the question is asked up to the order, so that it has one answer whichever of two equal elements stays:
`contains_ofList` says that a set holds what its list holds. Where the order tells all elements apart this is membership
(`mem_ofList`). For maps `mem_entries_ofList` says where an entry comes from, `exists_put_eq` where a new one goes, and
`ofList_of_perm` that entries in any order give the same map.
-/
import Mathlib.Tactic
import BuildImport.SortedMap
import BuildImport.SortedSet

namespace BuildImport

open Std

/-! ## Lists -/

/-- where keys tell elements apart, each finds its own -/
theorem find?_of_nodup {α β : Type} [BEq β] [LawfulBEq β] {key : α → β} {xs : List α} (hd : (xs.map key).Nodup) {x : α}
    (hx : x ∈ xs) : xs.find? (fun y => key y == key x) = some x := by
  cases hf : xs.find? fun y => key y == key x with
  | none =>
    rw [List.find?_eq_none] at hf
    exact absurd (by simp) (hf x hx)
  | some y =>
    have hk : key y = key x := by simpa using List.find?_some hf
    rw [List.inj_on_of_nodup_map hd (List.mem_of_find?_eq_some hf) hx hk]

/-- lists in the strict order of their keys are equal if they have the same elements -/
theorem eq_of_pairwise_keys {α κ : Type} [Ord κ] [TransOrd κ] {key : α → κ} {xs ys : List α}
    (hx : xs.Pairwise fun a b => compare (key a) (key b) = .lt)
    (hy : ys.Pairwise fun a b => compare (key a) (key b) = .lt) (h : ∀ a, a ∈ xs ↔ a ∈ ys) : xs = ys := by
  have hasymm : Std.Asymm fun a b : α => compare (key a) (key b) = .lt :=
    ⟨fun a b hab hba => by simp [OrientedCmp.gt_iff_lt.2 hab] at hba⟩
  have hirrefl : Std.Irrefl fun a b : α => compare (key a) (key b) = .lt := ⟨fun a haa => by simp at haa⟩
  exact List.Pairwise.eq_of_mem_iff hx hy h

/-! ## Sets -/

namespace SortedSet

variable {α : Type} [Ord α]

theorem contains_singleton (a c : α) : (singleton a).contains c = (compare c a == .eq) := by
  simp [singleton, contains]

theorem contains_iff_mem [LawfulEqOrd α] {s : SortedSet α} {a : α} : s.contains a = true ↔ a ∈ s.toList := by
  simp [contains]

variable [TransOrd α]

theorem compare_beq_congr {a b : α} (h : compare a b = .eq) (c : α) : (compare c a == .eq) = (compare c b == .eq) := by
  rw [Bool.eq_iff_iff, beq_iff_eq, beq_iff_eq]
  exact ⟨fun hc => TransCmp.eq_trans hc h, fun hc => TransCmp.eq_trans hc (OrientedCmp.eq_symm h)⟩

/-- placing an element adds it and nothing else, up to the order -/
theorem any_place {pick : α → α → α} (hp : Picks pick) (a c : α) (xs : List α) :
    (place pick a xs).any (fun b => compare c b == .eq) =
      (compare c a == .eq || xs.any fun b => compare c b == .eq) := by
  induction xs with
  | nil => simp [place]
  | cons b rest ih =>
    unfold place
    split
    · rw [List.any_cons]
    · next heq =>
      rw [List.any_cons, List.any_cons, compare_beq_congr (hp b a heq), compare_beq_congr heq, ← Bool.or_assoc,
        Bool.or_self]
    · rw [List.any_cons, List.any_cons, ih, Bool.or_left_comm]

theorem contains_insert (s : SortedSet α) (a c : α) : (s.insert a).contains c = (compare c a == .eq || s.contains c) :=
  any_place picks_old a c s.toList

theorem contains_replace (s : SortedSet α) (a c : α) :
    (s.replace a).contains c = (compare c a == .eq || s.contains c) :=
  any_place picks_new a c s.toList

theorem contains_foldl_replace (s : SortedSet α) (xs : List α) (c : α) :
    (xs.foldl replace s).contains c = ((xs.any fun b => compare c b == .eq) || s.contains c) := by
  induction xs generalizing s with
  | nil => simp
  | cons x xs ih => rw [List.foldl_cons, ih, contains_replace, List.any_cons, Bool.or_left_comm, Bool.or_assoc]

/-- **A set holds what its list holds.** -/
theorem contains_ofList (xs : List α) (c : α) : (ofList xs).contains c = xs.any fun b => compare c b == .eq := by
  rw [ofList, contains_foldl_replace]
  exact Bool.or_false _

theorem mem_ofList [LawfulEqOrd α] {xs : List α} {a : α} : a ∈ (ofList xs).toList ↔ a ∈ xs := by
  rw [← contains_iff_mem, contains_ofList]
  simp

theorem ext_mem [LawfulEqOrd α] {s t : SortedSet α} (h : ∀ a, a ∈ s.toList ↔ a ∈ t.toList) : s = t :=
  ext (eq_of_pairwise_keys s.ascending t.ascending h)

theorem mem_insert [LawfulEqOrd α] {s : SortedSet α} {a c : α} : c ∈ (s.insert a).toList ↔ c = a ∨ c ∈ s.toList := by
  rw [← contains_iff_mem, contains_insert, Bool.or_eq_true, contains_iff_mem, beq_iff_eq, Std.compare_eq_iff_eq]

theorem mem_foldl_insert [LawfulEqOrd α] {s : SortedSet α} {xs : List α} {c : α} :
    c ∈ (xs.foldl insert s).toList ↔ c ∈ s.toList ∨ c ∈ xs := by
  induction xs generalizing s with
  | nil => simp
  | cons x xs ih => rw [List.foldl_cons, ih, mem_insert, List.mem_cons, or_assoc, or_left_comm]

/-- sets put together hold what they hold one by one -/
theorem contains_ofList_flatMap {ι : Type} (f : ι → SortedSet α) (xs : List ι) (c : α) :
    (ofList (xs.flatMap fun x => (f x).toList)).contains c = xs.any fun x => (f x).contains c := by
  rw [contains_ofList, List.any_flatMap]
  rfl

end SortedSet

/-! ## Maps -/

namespace SortedMap

variable {κ ν : Type} [Ord κ]

theorem find?_eq_none_iff {m : SortedMap κ ν} {k : κ} :
    m.find? k = none ↔ ∀ e ∈ m.entries, compare k e.1 ≠ .eq := by
  rw [find?, Option.map_eq_none_iff, List.find?_eq_none]
  simp only [beq_iff_eq, ne_eq]

/-- a new key is put between two entries -/
theorem exists_put_eq {k : κ} {v : ν} {es : List (κ × ν)} (h : ∀ e ∈ es, compare k e.1 ≠ .eq) :
    ∃ before after, es = before ++ after ∧ put k v es = before ++ (k, v) :: after := by
  induction es with
  | nil => exact ⟨[], [], rfl, rfl⟩
  | cons e rest ih =>
    unfold put
    split
    · exact ⟨[], e :: rest, rfl, rfl⟩
    · next heq => exact absurd heq (h e List.mem_cons_self)
    · obtain ⟨before, after, hes, hput⟩ := ih fun e' he' => h e' (List.mem_cons_of_mem _ he')
      exact ⟨e :: before, after, by rw [hes, List.cons_append], by rw [hput, List.cons_append]⟩

section

variable [TransOrd κ]

/-- entries under keys that are all different are all held -/
theorem perm_foldl_insert (m : SortedMap κ ν) {es : List (κ × ν)}
    (h : (m.entries ++ es).Pairwise fun a b => compare a.1 b.1 ≠ .eq) :
    (es.foldl (fun m e => m.insert e.1 e.2) m).entries.Perm (m.entries ++ es) := by
  induction es generalizing m with
  | nil => rw [List.append_nil, List.foldl_nil]
  | cons e es ih =>
    have hnew : ∀ c ∈ m.entries, compare e.1 c.1 ≠ .eq := fun c hc heq =>
      (List.pairwise_append.1 h).2.2 c hc e List.mem_cons_self (OrientedCmp.eq_symm heq)
    obtain ⟨before, after, hentries, hput⟩ := exists_put_eq (v := e.2) hnew
    have hinsert : (m.insert e.1 e.2).entries = before ++ e :: after := hput
    have hperm : ((m.insert e.1 e.2).entries ++ es).Perm (m.entries ++ e :: es) := by
      rw [hinsert, hentries, List.append_assoc, List.append_assoc]
      exact List.perm_middle.symm.append_left before
    exact (ih _ ((hperm.pairwise_iff fun hne heq => hne (OrientedCmp.eq_symm heq)).2 h)).trans hperm

theorem perm_ofList {es : List (κ × ν)} (h : es.Pairwise fun a b => compare a.1 b.1 ≠ .eq) :
    (ofList es).entries.Perm es := perm_foldl_insert empty h

/-- **A map is restored from its entries in any order.** -/
theorem ofList_of_perm {m : SortedMap κ ν} {es : List (κ × ν)} (h : es.Perm m.entries) : ofList es = m := by
  have hne : es.Pairwise fun a b => compare a.1 b.1 ≠ .eq := by
    refine (h.pairwise_iff fun hne heq => hne (OrientedCmp.eq_symm heq)).2 (m.ascending.imp fun hlt => ?_)
    rw [hlt]
    decide
  exact ext (eq_of_pairwise_keys (ofList es).ascending m.ascending fun e => ((perm_ofList hne).trans h).mem_iff)

/-- maps of entries under keys that are all different do not depend on their order -/
theorem ofList_perm {es es' : List (κ × ν)} (h : es.Pairwise fun a b => compare a.1 b.1 ≠ .eq) (hperm : es'.Perm es) :
    ofList es' = ofList es :=
  ofList_of_perm (hperm.trans (perm_ofList h).symm)

end

variable [LawfulEqOrd κ]

theorem mem_of_find? {m : SortedMap κ ν} {k : κ} {v : ν} (h : m.find? k = some v) : (k, v) ∈ m.entries := by
  obtain ⟨e, he, rfl⟩ := Option.map_eq_some_iff.1 h
  have hk : compare k e.1 = .eq := by simpa using List.find?_some he
  rw [LawfulEqOrd.eq_of_compare hk]
  exact List.mem_of_find?_eq_some he

theorem mem_put {k : κ} {v : ν} {c : κ × ν} {es : List (κ × ν)} (h : c ∈ put k v es) : c = (k, v) ∨ c ∈ es := by
  induction es with
  | nil => simpa [put] using h
  | cons e rest ih =>
    unfold put at h
    split at h
    · exact List.mem_cons.1 h
    · next heq =>
      rcases List.mem_cons.1 h with rfl | h
      · exact .inl (by rw [LawfulEqOrd.eq_of_compare heq])
      · exact .inr (List.mem_cons_of_mem _ h)
    · rcases List.mem_cons.1 h with rfl | h
      · exact .inr List.mem_cons_self
      · exact (ih h).imp_right (List.mem_cons_of_mem _)

/-- an entry of a map was set -/
theorem mem_entries_ofList [TransOrd κ] {es : List (κ × ν)} {e : κ × ν} (h : e ∈ (ofList es).entries) : e ∈ es := by
  have hfold : ∀ m : SortedMap κ ν, e ∈ (es.foldl (fun m e => m.insert e.1 e.2) m).entries →
      e ∈ es ∨ e ∈ m.entries := by
    clear h
    induction es with
    | nil => exact fun m h => .inr h
    | cons x es ih =>
      intro m h
      rcases ih (m.insert x.1 x.2) h with h | h
      · exact .inl (List.mem_cons_of_mem _ h)
      · rcases mem_put h with rfl | h
        · exact .inl List.mem_cons_self
        · exact .inr h
  exact (hfold empty h).resolve_right (by simp [empty])

end SortedMap

end BuildImport
