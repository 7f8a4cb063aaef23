/-
Finite maps kept as lists of entries with strictly ascending keys.

As with sets, equal keys may be spelled differently: `insert` keeps the key that is there and takes the new value.
Main facts: `find?_insert` says what a key holds afterwards, and `ext` that the list of entries is all there is.
-/
namespace BuildImport

open Std

/-- entries in strictly ascending order of their keys -/
structure SortedMap (κ ν : Type) [Ord κ] where
  entries : List (κ × ν)
  ascending : entries.Pairwise fun a b => compare a.1 b.1 = .lt

namespace SortedMap

variable {κ ν : Type} [Ord κ]

theorem ext {s t : SortedMap κ ν} (h : s.entries = t.entries) : s = t := by
  cases s; cases t; cases h; rfl

instance [DecidableEq κ] [DecidableEq ν] : DecidableEq (SortedMap κ ν) := fun s t =>
  if h : s.entries = t.entries then .isTrue (ext h) else .isFalse fun e => h (e ▸ rfl)

def empty : SortedMap κ ν := ⟨[], .nil⟩

instance : EmptyCollection (SortedMap κ ν) := ⟨empty⟩

instance : Inhabited (SortedMap κ ν) := ⟨empty⟩

def keys (m : SortedMap κ ν) : List κ := m.entries.map (·.1)

def values (m : SortedMap κ ν) : List ν := m.entries.map (·.2)

def size (m : SortedMap κ ν) : Nat := m.entries.length

/-- the value of a key equal to `k` -/
def find? (m : SortedMap κ ν) (k : κ) : Option ν :=
  (m.entries.find? fun e => compare k e.1 == .eq).map (·.2)

def contains (m : SortedMap κ ν) (k : κ) : Bool := (m.find? k).isSome

/-! ## Changing an ascending list of entries -/

/-- sets the value of `k`; an equal key stays as it is spelled -/
def put (k : κ) (v : ν) : List (κ × ν) → List (κ × ν)
  | [] => [(k, v)]
  | e :: rest =>
    match compare k e.1 with
    | .lt => (k, v) :: e :: rest
    | .eq => (e.1, v) :: rest
    | .gt => e :: put k v rest

theorem key_mem_put {k : κ} {v : ν} {c : κ × ν} {es : List (κ × ν)} (h : c ∈ put k v es) :
    c.1 = k ∨ ∃ e ∈ es, c.1 = e.1 := by
  induction es with
  | nil => simp_all [put]
  | cons e rest ih =>
    unfold put at h
    split at h
    · rcases List.mem_cons.1 h with rfl | h
      · exact .inl rfl
      · exact .inr ⟨c, h, rfl⟩
    · rcases List.mem_cons.1 h with rfl | h
      · exact .inr ⟨e, List.mem_cons_self, rfl⟩
      · exact .inr ⟨c, List.mem_cons_of_mem _ h, rfl⟩
    · rcases List.mem_cons.1 h with rfl | h
      · exact .inr ⟨c, List.mem_cons_self, rfl⟩
      · rcases ih h with h | ⟨d, hd, he⟩
        · exact .inl h
        · exact .inr ⟨d, List.mem_cons_of_mem _ hd, he⟩

theorem ascending_put [TransOrd κ] (k : κ) (v : ν) {es : List (κ × ν)}
    (h : es.Pairwise fun a b => compare a.1 b.1 = .lt) :
    (put k v es).Pairwise fun a b => compare a.1 b.1 = .lt := by
  induction es with
  | nil => exact List.pairwise_singleton _ _
  | cons e rest ih =>
    obtain ⟨he, hrest⟩ := List.pairwise_cons.1 h
    unfold put
    split
    · next hlt =>
      refine List.pairwise_cons.2 ⟨fun c hc => ?_, h⟩
      rcases List.mem_cons.1 hc with rfl | hc
      · exact hlt
      · exact TransCmp.lt_trans hlt (he c hc)
    · exact List.pairwise_cons.2 ⟨he, hrest⟩
    · next hgt =>
      refine List.pairwise_cons.2 ⟨fun c hc => ?_, ih hrest⟩
      rcases key_mem_put hc with hk | ⟨d, hd, hk⟩
      · rw [hk]; exact OrientedCmp.gt_iff_lt.1 hgt
      · rw [hk]; exact he d hd

/-- drops the entry of `k` -/
def erase (m : SortedMap κ ν) (k : κ) : SortedMap κ ν :=
  ⟨m.entries.filter fun e => compare k e.1 != .eq, m.ascending.filter _⟩

variable [TransOrd κ]

def insert (m : SortedMap κ ν) (k : κ) (v : ν) : SortedMap κ ν :=
  ⟨put k v m.entries, ascending_put k v m.ascending⟩

/-- the entries set one after the other: first spelling of a key, last value -/
def ofList (es : List (κ × ν)) : SortedMap κ ν := es.foldl (fun m e => m.insert e.1 e.2) empty

theorem find?_put (k j : κ) (v : ν) (es : List (κ × ν)) :
    ((put k v es).find? fun e => compare j e.1 == .eq).map (·.2) =
      if compare j k = .eq then some v else (es.find? fun e => compare j e.1 == .eq).map (·.2) := by
  induction es with
  | nil => by_cases h : compare j k = .eq <;> simp [put, h]
  | cons e rest ih =>
    unfold put
    split
    · by_cases h : compare j k = .eq <;> simp [List.find?_cons, h]
    · next heq =>
      have hjk : (compare j k = .eq) = (compare j e.1 = .eq) := by
        apply propext
        constructor
        · exact fun h => TransCmp.eq_trans h heq
        · exact fun h => TransCmp.eq_trans h (OrientedCmp.eq_symm heq)
      by_cases h : compare j e.1 = .eq <;> simp [h, hjk]
    · next hgt =>
      by_cases h : compare j e.1 = .eq
      · have hne : compare j k ≠ .eq := fun hj => by
          have := TransCmp.eq_trans (OrientedCmp.eq_symm hj) h
          simp [this] at hgt
        simp [h, hne]
      · have hb : (compare j e.1 == Ordering.eq) = false := by simpa using h
        simp only [List.find?_cons, hb]
        exact ih

/-- a map after `insert` holds the new value at the keys equal to `k` and what it held elsewhere -/
theorem find?_insert (m : SortedMap κ ν) (k j : κ) (v : ν) :
    (m.insert k v).find? j = if compare j k = .eq then some v else m.find? j :=
  find?_put k j v m.entries

end SortedMap

end BuildImport
