/-
Finite sets kept as strictly ascending lists.

The order of `α` need not tell all elements apart: two spellings of one path are equal in the order. A set holds one of
them, so there are two ways to add: `insert` leaves an equal element where it is, `replace` puts the new one in its
place. `ofList` is what `replace` builds and so keeps the last of equal elements; `ofInserts` keeps the first. Where the
order tells all elements apart the two agree.
-/
namespace BuildImport

open Std

/-- a strictly ascending list -/
structure SortedSet (α : Type) [Ord α] where
  toList : List α
  ascending : toList.Pairwise fun a b => compare a b = .lt

namespace SortedSet

variable {α : Type} [Ord α]

theorem ext {s t : SortedSet α} (h : s.toList = t.toList) : s = t := by
  cases s; cases t; cases h; rfl

instance [DecidableEq α] : DecidableEq (SortedSet α) := fun s t =>
  if h : s.toList = t.toList then .isTrue (ext h) else .isFalse fun e => h (e ▸ rfl)

def empty : SortedSet α := ⟨[], .nil⟩

instance : EmptyCollection (SortedSet α) := ⟨empty⟩

instance : Inhabited (SortedSet α) := ⟨empty⟩

def singleton (a : α) : SortedSet α := ⟨[a], List.pairwise_singleton _ a⟩

def isEmpty (s : SortedSet α) : Bool := s.toList.isEmpty

def size (s : SortedSet α) : Nat := s.toList.length

/-- whether an element equal to `a` in the order is there -/
def contains (s : SortedSet α) (a : α) : Bool := s.toList.any fun b => compare a b == .eq

/-! ## Adding to an ascending list -/

/-- puts `a` at its place; of equal elements `pick old new` stays -/
def place (pick : α → α → α) (a : α) : List α → List α
  | [] => [a]
  | b :: rest =>
    match compare a b with
    | .lt => a :: b :: rest
    | .eq => pick b a :: rest
    | .gt => b :: place pick a rest

/-- a choice between two equal elements -/
def Picks (pick : α → α → α) : Prop :=
  ∀ b a, compare a b = .eq → compare (pick b a) b = .eq

theorem mem_place {pick : α → α → α} {a c : α} {xs : List α} (h : c ∈ place pick a xs) :
    c = a ∨ c ∈ xs ∨ ∃ b ∈ xs, compare a b = .eq ∧ c = pick b a := by
  induction xs with
  | nil => simp_all [place]
  | cons b rest ih =>
    unfold place at h
    split at h
    · simp only [List.mem_cons] at h ⊢
      grind
    · next heq =>
      rcases List.mem_cons.1 h with rfl | h
      · exact .inr (.inr ⟨b, List.mem_cons_self, heq, rfl⟩)
      · exact .inr (.inl (List.mem_cons_of_mem _ h))
    · rcases List.mem_cons.1 h with rfl | h
      · exact .inr (.inl List.mem_cons_self)
      · rcases ih h with h | h | ⟨d, hd, he⟩
        · exact .inl h
        · exact .inr (.inl (List.mem_cons_of_mem _ h))
        · exact .inr (.inr ⟨d, List.mem_cons_of_mem _ hd, he⟩)

theorem ascending_place [TransOrd α] {pick : α → α → α} (hp : Picks pick) (a : α) {xs : List α}
    (h : xs.Pairwise fun a b => compare a b = .lt) :
    (place pick a xs).Pairwise fun a b => compare a b = .lt := by
  induction xs with
  | nil => exact List.pairwise_singleton _ a
  | cons b rest ih =>
    obtain ⟨hb, hrest⟩ := List.pairwise_cons.1 h
    unfold place
    split
    · next hlt =>
      refine List.pairwise_cons.2 ⟨fun c hc => ?_, h⟩
      rcases List.mem_cons.1 hc with rfl | hc
      · exact hlt
      · exact TransCmp.lt_trans hlt (hb c hc)
    · next heq =>
      exact List.pairwise_cons.2 ⟨fun c hc => TransCmp.lt_of_eq_of_lt (hp b a heq) (hb c hc), hrest⟩
    · next hgt =>
      have hlt : compare b a = .lt := OrientedCmp.gt_iff_lt.1 hgt
      refine List.pairwise_cons.2 ⟨fun c hc => ?_, ih hrest⟩
      rcases mem_place hc with rfl | hc | ⟨d, hd, heq, rfl⟩
      · exact hlt
      · exact hb c hc
      · exact TransCmp.lt_of_lt_of_eq (hb d hd) (OrientedCmp.eq_symm (hp d a heq))

theorem picks_old [TransOrd α] : Picks fun (b : α) (_ : α) => b :=
  fun _ _ _ => ReflCmp.compare_self

theorem picks_new : Picks fun (_ : α) (a : α) => a :=
  fun _ _ h => h

/-! ## Sets from elements -/

variable [TransOrd α]

/-- adds `a`, unless an equal element is there -/
def insert (s : SortedSet α) (a : α) : SortedSet α :=
  ⟨place (fun b _ => b) a s.toList, ascending_place picks_old a s.ascending⟩

/-- adds `a` in the place of an equal element -/
def replace (s : SortedSet α) (a : α) : SortedSet α :=
  ⟨place (fun _ a => a) a s.toList, ascending_place picks_new a s.ascending⟩

/-- the set of the elements; the last of equal elements stays -/
def ofList (xs : List α) : SortedSet α := xs.foldl replace empty

/-- the set of the elements; the first of equal elements stays -/
def ofInserts (xs : List α) : SortedSet α := xs.foldl insert empty

end SortedSet

end BuildImport
