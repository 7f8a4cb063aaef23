/-
Walks through directories.

A walk goes through the names in a directory in ascending order; it takes a file where it meets one, and walks through a
directory before it goes on (`walk`). The files of a tree are kept in the order of their names from the root. Both come
to the same: a walk meets all files below its directory and no other ones (`mem_walk_iff`), each before those whose names
come later (`pairwise_walk`), and so it gives what is listed of the directory (`filesFrom_eq_walk`).

`IsAfter` is the order of paths: name by name, not by their texts, so that all of `a/` comes before `a-b` and `a.json`.
-/
import Mathlib.Tactic
import BuildImport.Proofs.SoundTrees

namespace BuildImport

open Std

/-! ## Orders of names -/

/-- the first path through names from the root comes after the second one -/
def IsAfter (key other : List String) : Prop := compare (key.map Component.name) (other.map Component.name) = .gt

theorem compare_cons {α : Type} [Ord α] (a b : α) (as bs : List α) :
    compare (a :: as) (b :: bs) = (compare a b).then (compare as bs) := by
  rw [List.compare_eq_compareLex, List.compareLex_cons_cons]

theorem compare_name (a b : String) : compare (Component.name a) (Component.name b) = compare a b := by
  have hrank : compareOn Component.rank (Component.name a) (Component.name b) = .eq := rfl
  change compareLex (compareOn Component.rank) (compareOn Component.text) _ _ = _
  rw [compareLex, hrank]
  rfl

/-- paths through names are ordered as the lists of these names -/
theorem isAfter_iff {key other : List String} : IsAfter key other ↔ compare key other = .gt := by
  have hnames : ∀ xs ys : List String, compare (xs.map Component.name) (ys.map Component.name) = compare xs ys := by
    intro xs
    induction xs with
    | nil => intro ys; cases ys <;> rfl
    | cons x xs ih =>
      intro ys
      cases ys with
      | nil => rfl
      | cons y ys => rw [List.map_cons, List.map_cons, compare_cons, compare_cons, compare_name, ih]
  rw [IsAfter, hnames]

/-- what two lists of names have in common at the front does not count -/
theorem compare_append (base xs ys : List String) : compare (base ++ xs) (base ++ ys) = compare xs ys := by
  induction base with
  | nil => rfl
  | cons n base ih => rw [List.cons_append, List.cons_append, compare_cons, Std.compare_self, Ordering.eq_then, ih]

/-- **A map finds its entries.** -/
theorem SortedMap.find?_eq_some_iff {κ ν : Type} [Ord κ] [TransOrd κ] [LawfulEqOrd κ] {m : SortedMap κ ν} {k : κ}
    {v : ν} :
    m.find? k = some v ↔ (k, v) ∈ m.entries := by
  refine ⟨mem_of_find?, fun h => ?_⟩
  have hkeys : (m.entries.map (·.1)).Nodup := by
    rw [List.nodup_iff_pairwise_ne, List.pairwise_map]
    refine m.ascending.imp fun hlt heq => ?_
    rw [heq, Std.compare_self] at hlt
    cases hlt
  cases hfound : m.find? k with
  | none => exact absurd ReflCmp.compare_self (find?_eq_none_iff.1 hfound _ h)
  | some w => exact congrArg (some ·.2) (List.inj_on_of_nodup_map hkeys (mem_of_find? hfound) h rfl)

namespace FileTree

variable {t : FileTree} {base key : List String} {bytes : ByteArray} {fuel : Nat}

/-! ## Files below a directory -/

theorem node?_eq_some_iff (hkey : key ≠ []) {n : Node} : t.node? key = some n ↔ (key, n) ∈ t.entries.entries := by
  cases key with
  | nil => exact absurd rfl hkey
  | cons name names => exact SortedMap.find?_eq_some_iff

/-- an entry that is a file below a directory, with its names -/
def fileBelow? (base : List String) (e : List String × Node) : Option (List String × ByteArray) :=
  match e.2 with
  | .file bytes => if isBelow base e.1 then some (e.1, bytes) else none
  | _ => none

/-- the files below a directory, in the order of their names from the root -/
def filesBelow (t : FileTree) (base : List String) : List (List String × ByteArray) :=
  t.entries.entries.filterMap (fileBelow? base)

theorem fileBelow?_eq_some_iff {e : List String × Node} {f : List String × ByteArray} :
    fileBelow? base e = some f ↔ isBelow base f.1 = true ∧ e = (f.1, .file f.2) := by
  obtain ⟨key, n⟩ := e
  obtain ⟨key', bytes⟩ := f
  cases n with
  | file content =>
    simp only [fileBelow?, Option.ite_none_right_eq_some, Option.some.injEq, Prod.mk.injEq, Node.file.injEq]
    constructor
    · rintro ⟨hbelow, rfl, rfl⟩
      exact ⟨hbelow, rfl, rfl⟩
    · rintro ⟨hbelow, rfl, rfl⟩
      exact ⟨hbelow, rfl, rfl⟩
  | directory => simp [fileBelow?]
  | sink => simp [fileBelow?]

theorem isBelow_iff : isBelow base key = true ↔ ∃ rest, rest ≠ [] ∧ key = base ++ rest := by
  rw [isBelow, Bool.and_eq_true, List.isPrefixOf_iff_prefix, decide_eq_true_iff]
  constructor
  · rintro ⟨⟨rest, rfl⟩, hlength⟩
    refine ⟨rest, ?_, rfl⟩
    rintro rfl
    simp at hlength
  · rintro ⟨rest, hrest, rfl⟩
    refine ⟨List.prefix_append base rest, ?_⟩
    simpa using List.length_pos_iff.2 hrest

theorem mem_filesBelow_iff :
    (key, bytes) ∈ t.filesBelow base ↔ (∃ rest, rest ≠ [] ∧ key = base ++ rest) ∧ t.node? key = some (.file bytes) := by
  rw [filesBelow, List.mem_filterMap, ← isBelow_iff]
  have hnode : isBelow base key = true →
      (t.node? key = some (.file bytes) ↔ (key, .file bytes) ∈ t.entries.entries) := by
    intro hbelow
    obtain ⟨rest, hrest, hkey⟩ := isBelow_iff.1 hbelow
    exact node?_eq_some_iff (by simp [hkey, hrest])
  constructor
  · rintro ⟨e, hmem, he⟩
    obtain ⟨hbelow, rfl⟩ := fileBelow?_eq_some_iff.1 he
    exact ⟨hbelow, (hnode hbelow).2 hmem⟩
  · rintro ⟨hbelow, hfile⟩
    exact ⟨_, (hnode hbelow).1 hfile, fileBelow?_eq_some_iff.2 ⟨hbelow, rfl⟩⟩

theorem pairwise_filesBelow (t : FileTree) (base : List String) :
    (t.filesBelow base).Pairwise fun a b => compare a.1 b.1 = .lt := by
  refine List.Pairwise.filterMap _ ?_ t.entries.ascending
  intro e e' hlt f hf f' hf'
  rw [(fileBelow?_eq_some_iff.1 hf).2, (fileBelow?_eq_some_iff.1 hf').2] at hlt
  exact hlt

/-- what is listed of a directory are the files below it -/
theorem filesFrom_directory {p : Path} (h : t.find p = .ok (base, .directory)) :
    t.filesFrom p = .ok ((t.filesBelow base).map fun f => (f.1.getLast?.getD "", f.2)) := by
  rw [filesFrom, h, filesBelow, List.map_filterMap]
  refine congrArg Except.ok (congrArg (List.filterMap · t.entries.entries) ?_)
  funext e
  obtain ⟨key, n⟩ := e
  cases n with
  | file bytes =>
    dsimp only [fileBelow?]
    split_ifs <;> rfl
  | directory => rfl
  | sink => rfl

/-! ## Walks -/

/-- the names in a directory, ascending -/
def children (t : FileTree) (base : List String) : List String :=
  t.entries.entries.filterMap fun e => if e.1.dropLast = base then e.1.getLast? else none

/-- what is met at a place: a file, or all that is `deeper` in a directory -/
def meet (t : FileTree) (deeper : List String → List (List String × ByteArray)) (key : List String) :
    List (List String × ByteArray) :=
  match t.node? key with
  | some (.file bytes) => [(key, bytes)]
  | some .directory => deeper key
  | _ => []

/-- the files that a walk through a directory meets, no deeper than `fuel` -/
def walk (t : FileTree) : Nat → List String → List (List String × ByteArray)
  | 0, _ => []
  | fuel + 1, base => (t.children base).flatMap fun name => t.meet (t.walk fuel) (base ++ [name])

theorem mem_meet_iff {deeper : List String → List (List String × ByteArray)} {f : List String × ByteArray} :
    f ∈ t.meet deeper key ↔
      (f.1 = key ∧ t.node? key = some (.file f.2)) ∨ t.node? key = some .directory ∧ f ∈ deeper key := by
  unfold meet
  split
  · next bytes hnode => simp [hnode, Prod.ext_iff, eq_comm]
  · next hnode => simp [hnode]
  · next hfile hdirectory =>
    have hnothing :
        ¬((f.1 = key ∧ t.node? key = some (.file f.2)) ∨ t.node? key = some .directory ∧ f ∈ deeper key) := by
      rintro (⟨-, hnode⟩ | ⟨hnode, -⟩)
      · exact hfile f.2 hnode
      · exact hdirectory hnode
    simpa only [List.not_mem_nil, false_iff] using hnothing

theorem child_eq_some_iff {name : String} :
    (if key.dropLast = base then key.getLast? else none) = some name ↔ key = base ++ [name] := by
  constructor
  · intro h
    split_ifs at h with hbase
    rw [← hbase, List.dropLast_append_getLast? name h]
  · rintro rfl
    rw [List.dropLast_concat, if_pos rfl, List.getLast?_concat]

theorem mem_children_iff {name : String} : name ∈ t.children base ↔ ∃ n, t.node? (base ++ [name]) = some n := by
  have hne : base ++ [name] ≠ [] := by simp
  simp only [children, List.mem_filterMap, child_eq_some_iff, node?_eq_some_iff hne]
  constructor
  · rintro ⟨⟨_, n⟩, hmem, rfl⟩
    exact ⟨n, hmem⟩
  · rintro ⟨n, hmem⟩
    exact ⟨_, hmem, rfl⟩

theorem pairwise_children (t : FileTree) (base : List String) :
    (t.children base).Pairwise fun a b => compare a b = .lt := by
  refine List.Pairwise.filterMap _ ?_ t.entries.ascending
  intro e e' hlt a ha b hb
  rw [child_eq_some_iff.1 ha, child_eq_some_iff.1 hb, compare_append, compare_cons] at hlt
  simpa using hlt

/-- what a walk meets are files below its directory -/
theorem exists_of_mem_walk {f : List String × ByteArray} (h : f ∈ t.walk fuel base) :
    (∃ rest, rest ≠ [] ∧ f.1 = base ++ rest) ∧ t.node? f.1 = some (.file f.2) := by
  induction fuel generalizing base with
  | zero => cases h
  | succ fuel ih =>
    obtain ⟨name, -, h⟩ := List.mem_flatMap.1 h
    rcases mem_meet_iff.1 h with ⟨hkey, hnode⟩ | ⟨-, h⟩
    · exact ⟨⟨[name], by simp, hkey⟩, hkey ▸ hnode⟩
    · obtain ⟨⟨rest, -, hkey⟩, hnode⟩ := ih h
      exact ⟨⟨name :: rest, by simp, by simp [hkey]⟩, hnode⟩

theorem exists_of_mem_meet {f : List String × ByteArray} (h : f ∈ t.meet (t.walk fuel) key) :
    ∃ rest, f.1 = key ++ rest := by
  rcases mem_meet_iff.1 h with ⟨hkey, -⟩ | ⟨-, h⟩
  · exact ⟨[], by rw [hkey, List.append_nil]⟩
  · obtain ⟨⟨rest, -, hkey⟩, -⟩ := exists_of_mem_walk h
    exact ⟨rest, hkey⟩

/-- **A walk meets every file** below its directory that is not too deep, where each node stands in a directory. -/
theorem mem_walk_of_node? (ht : t.Sound) {rest : List String} (hrest : rest ≠ []) (hfuel : rest.length ≤ fuel)
    (hnode : t.node? (base ++ rest) = some (.file bytes)) : (base ++ rest, bytes) ∈ t.walk fuel base := by
  induction fuel generalizing base rest with
  | zero => exact absurd (List.length_eq_zero_iff.1 (Nat.le_zero.1 hfuel)) hrest
  | succ fuel ih =>
    obtain ⟨name, rest, rfl⟩ := List.exists_cons_of_ne_nil hrest
    rw [List.append_cons] at hnode ⊢
    by_cases hlast : rest = []
    · rw [hlast, List.append_nil] at hnode ⊢
      exact List.mem_flatMap.2 ⟨name, mem_children_iff.2 ⟨_, hnode⟩, mem_meet_iff.2 (.inl ⟨rfl, hnode⟩)⟩
    · have hdirectory : t.node? (base ++ [name]) = some .directory := ht.directory_of_append hnode hlast
      have hdeeper := ih hlast (Nat.le_of_succ_le_succ hfuel) hnode
      exact List.mem_flatMap.2 ⟨name, mem_children_iff.2 ⟨_, hdirectory⟩, mem_meet_iff.2 (.inr ⟨hdirectory, hdeeper⟩)⟩

/-- **A walk meets files in the order of their paths.** -/
theorem pairwise_walk (t : FileTree) (fuel : Nat) (base : List String) :
    (t.walk fuel base).Pairwise fun a b => compare a.1 b.1 = .lt := by
  induction fuel generalizing base with
  | zero => exact .nil
  | succ fuel ih =>
    refine List.pairwise_flatMap.2 ⟨fun name _ => ?_, (pairwise_children t base).imp fun hlt f hf f' hf' => ?_⟩
    · unfold meet
      split
      · exact List.pairwise_singleton _ _
      · exact ih _
      · exact .nil
    · obtain ⟨rest, hkey⟩ := exists_of_mem_meet hf
      obtain ⟨rest', hkey'⟩ := exists_of_mem_meet hf'
      rw [hkey, hkey', List.append_assoc, List.append_assoc, compare_append, List.singleton_append,
        List.singleton_append, compare_cons, hlt, Ordering.lt_then]

/-- the most names on a way to a node -/
def depth (t : FileTree) : Nat := (t.entries.entries.map (·.1.length)).max?.getD 0

theorem length_le_depth {n : Node} (hnode : t.node? key = some n) : key.length ≤ t.depth := by
  by_cases hkey : key = []
  · rw [hkey]
    exact Nat.zero_le _
  · exact List.le_max?_getD_of_mem (List.mem_map.2 ⟨_, (node?_eq_some_iff hkey).1 hnode, rfl⟩)

/-- **A walk meets the files below its directory**, all of them and no other ones. -/
theorem mem_walk_iff (ht : t.Sound) :
    (key, bytes) ∈ t.walk t.depth base ↔
      (∃ rest, rest ≠ [] ∧ key = base ++ rest) ∧ t.node? key = some (.file bytes) := by
  refine ⟨exists_of_mem_walk, ?_⟩
  rintro ⟨⟨rest, hrest, rfl⟩, hnode⟩
  have hlength := length_le_depth hnode
  rw [List.length_append] at hlength
  exact mem_walk_of_node? ht hrest (by omega) hnode

/-- **What is listed of a directory is what a walk through it meets**, in that order. -/
theorem filesFrom_eq_walk (ht : t.Sound) {p : Path} (h : t.find p = .ok (base, .directory)) :
    t.filesFrom p = .ok ((t.walk t.depth base).map fun f => (f.1.getLast?.getD "", f.2)) := by
  have hwalk : t.filesBelow base = t.walk t.depth base :=
    eq_of_pairwise_keys (pairwise_filesBelow t base) (pairwise_walk t _ base) fun ⟨key, bytes⟩ =>
      mem_filesBelow_iff.trans (mem_walk_iff ht).symm
  rw [filesFrom_directory h, hwalk]

end FileTree

end BuildImport
