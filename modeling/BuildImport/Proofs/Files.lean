/-
What the operations on files do.

- `node?_set`, `node?_drop`: what a place holds afterwards.
- `locate_of_keeps`: a path leads to the same place as long as no directory is lost.
- `fileName?_of_locate`: the name that a path leads to is its file name.
- `write_eq_ok`, `makeDirectory_eq_ok`, `rename_eq_ok`: what it takes that an operation succeeds, and what it does then.
- `file_of_write`, `read_of_rename`: what was written and then renamed is read under the new name.
- `noNewDevice_ensureDirectory`: making directories makes no devices.
-/
import Mathlib.Tactic
import BuildImport.FileTree
import BuildImport.Proofs.Components
import BuildImport.Proofs.Outcomes

namespace BuildImport

open Std Text Outcome

/-! ## Last pieces -/

namespace Text

theorem splitOn_of_not_mem {c : Char} {cs : List Char} (h : c ∉ cs) : splitOn c cs = [cs] := by
  induction cs with
  | nil => rfl
  | cons d cs ih =>
    rw [List.mem_cons, not_or] at h
    rw [splitOn, if_neg (Ne.symm h.1), ih h.2]

/-- what holds no separator lengthens the last piece -/
theorem splitOn_append_of_not_mem {c : Char} {b : List Char} (h : c ∉ b) (a : List Char) :
    ∃ front last, splitOn c (a ++ b) = front ++ [last ++ b] := by
  induction a with
  | nil => exact ⟨[], [], splitOn_of_not_mem h⟩
  | cons d a ih =>
    obtain ⟨front, last, heq⟩ := ih
    by_cases hd : d = c
    · exact ⟨[] :: front, last, by rw [List.cons_append, splitOn, if_pos hd, heq]; rfl⟩
    · cases front with
      | nil => exact ⟨[], d :: last, by rw [List.cons_append, splitOn, if_neg hd, heq]; rfl⟩
      | cons piece front => exact ⟨(d :: piece) :: front, last, by rw [List.cons_append, splitOn, if_neg hd, heq]; rfl⟩

end Text

namespace Path

theorem filterMap_of_all_isEmpty {ps : List (List Char)} (h : ps.all List.isEmpty) :
    ps.filterMap Component.ofPiece? = [] := by
  rw [List.filterMap_eq_nil_iff]
  intro piece hp
  have hempty := List.all_eq_true.1 h piece hp
  rw [List.isEmpty_iff.1 hempty]
  rfl

/-- the last piece that counts stands for the last component -/
theorem getLast?_components_append {before after : List (List Char)} {piece : List Char} {c : Component}
    (hc : Component.ofPiece? piece = some c) (hafter : after.filterMap Component.ofPiece? = []) :
    (componentsOf (before ++ piece :: after)).getLast? = some c := by
  have hpiece : (piece :: after).filterMap Component.ofPiece? = [c] := by
    rw [List.filterMap_cons_some hc, hafter]
  by_cases hbefore : before = []
  · have hnamed : insignificant piece = false := by rw [insignificant, hc]; rfl
    rw [hbefore, List.nil_append, componentsOf_named hnamed, hpiece]
    rfl
  · rw [componentsOf_append hbefore (List.cons_ne_nil _ _), hpiece, List.getLast?_concat]

/-- the last piece that is not empty stands for the last component -/
theorem getLast?_componentsOf {before after : List (List Char)} {piece : List Char} {c : Component}
    (hc : Component.ofPiece? piece = some c) (hafter : after.all List.isEmpty) :
    (componentsOf (before ++ piece :: after)).getLast? = some c :=
  getLast?_components_append hc (filterMap_of_all_isEmpty hafter)

theorem ofPiece?_of_length {piece : List Char} (h : 2 < piece.length) :
    Component.ofPiece? piece = some (.name (String.ofList piece)) := by
  unfold Component.ofPiece?
  split <;> simp_all

/-- a text that ends in a dot and an extension ends in a file name that does so -/
theorem fileName?_of_extension {p : Path} {front ext : String} (hp : p.text = front ++ "." ++ ext)
    (hslash : '/' ∉ ext.toList) (hlength : 1 < ext.length) :
    ∃ stem, p.fileName? = some (String.ofList (stem ++ '.' :: ext.toList)) := by
  have hend : '/' ∉ '.' :: ext.toList := by simp [hslash]
  obtain ⟨before, stem, hpieces⟩ := splitOn_append_of_not_mem hend front.toList
  have htext : p.pieces = before ++ [stem ++ '.' :: ext.toList] := by
    rw [pieces, hp, ← hpieces]
    simp
  have hpiece : Component.ofPiece? (stem ++ '.' :: ext.toList) =
      some (.name (String.ofList (stem ++ '.' :: ext.toList))) := by
    apply ofPiece?_of_length
    rw [List.length_append, List.length_cons, String.length_toList]
    omega
  have hlast : p.components.getLast? = some (.name (String.ofList (stem ++ '.' :: ext.toList))) := by
    rw [components, htext]
    exact getLast?_componentsOf hpiece rfl
  exact ⟨stem, by rw [fileName?, hlast]⟩

/-- a path with a new extension ends in it, unless it ends in no file name -/
theorem withExtension_cases (p : Path) (ext : String) :
    (p.withExtension ext).fileName? = none ∨ ∃ front, (p.withExtension ext).text = front ++ "." ++ ext := by
  have hstem : ∀ q : Path,
      (q.endStemWith ext).fileName? = none ∨ ∃ front, (q.endStemWith ext).text = front ++ "." ++ ext := by
    intro q
    rw [endStemWith]
    split
    · next hnone => exact .inl hnone
    · exact .inr ⟨_, rfl⟩
  rw [withExtension]
  split
  · next hnone => exact .inl hnone
  · split
    · exact hstem p
    · exact hstem _

end Path

/-! ## Nodes -/

namespace SortedMap

variable {κ ν : Type} [Ord κ] [TransOrd κ]

theorem find?_erase (m : SortedMap κ ν) (k j : κ) :
    (m.erase k).find? j = if compare j k = .eq then none else m.find? j := by
  rw [find?, erase, List.find?_filter]
  split_ifs with hjk
  · have hnone : ∀ e ∈ m.entries, ¬decide ((compare k e.1 != .eq) = true ∧ (compare j e.1 == .eq) = true) = true := by
      intro e _ he
      simp only [bne_iff_ne, beq_iff_eq, decide_eq_true_eq] at he
      exact he.1 (TransCmp.eq_trans (OrientedCmp.eq_symm hjk) he.2)
    rw [List.find?_eq_none.2 hnone]
    rfl
  · have hsame : (fun e : κ × ν => decide ((compare k e.1 != .eq) = true ∧ (compare j e.1 == .eq) = true)) =
        fun e => compare j e.1 == .eq := by
      funext e
      rw [Bool.eq_iff_iff, decide_eq_true_eq, and_iff_right_iff_imp, beq_iff_eq, bne_iff_ne]
      exact fun he hk => hjk (TransCmp.eq_trans he (OrientedCmp.eq_symm hk))
    rw [hsame]
    rfl

end SortedMap

namespace FileTree

/-- what `set` puts at a place other than the root -/
theorem node?_set (t : FileTree) {key : List String} (hkey : key ≠ []) (n : Node) (other : List String) :
    (t.set key n).node? other = if other = key then some n else t.node? other := by
  cases other with
  | nil => rw [if_neg (Ne.symm hkey)]; rfl
  | cons name names =>
    simp only [node?, set, SortedMap.find?_insert, Std.compare_eq_iff_eq]

theorem node?_drop (t : FileTree) {key : List String} (hkey : key ≠ []) (other : List String) :
    (t.drop key).node? other = if other = key then none else t.node? other := by
  cases other with
  | nil => rw [if_neg (Ne.symm hkey)]; rfl
  | cons name names =>
    simp only [node?, drop, SortedMap.find?_erase, Std.compare_eq_iff_eq]

/-! ## Places -/

/-- every directory of `t` is one of `t'`, and the current one is the same -/
structure Keeps (t t' : FileTree) : Prop where
  current : t'.current = t.current
  directories : ∀ key, t.node? key = some .directory → t'.node? key = some .directory

theorem Keeps.trans {t t' t'' : FileTree} (h : t.Keeps t') (h' : t'.Keeps t'') : t.Keeps t'' where
  current := h'.current.trans h.current
  directories key hkey := h'.directories key (h.directories key hkey)

theorem keeps_set (t : FileTree) {key : List String} (hkey : key ≠ []) {n : Node}
    (hn : t.node? key ≠ some .directory) : t.Keeps (t.set key n) where
  current := rfl
  directories other hother := by
    have hne : other ≠ key := by
      rintro rfl
      exact hn hother
    rw [node?_set t hkey, if_neg hne, hother]

theorem keeps_drop (t : FileTree) {key : List String} (hkey : key ≠ []) (hn : t.node? key ≠ some .directory) :
    t.Keeps (t.drop key) where
  current := rfl
  directories other hother := by
    have hne : other ≠ key := by
      rintro rfl
      exact hn hother
    rw [node?_drop t hkey, if_neg hne, hother]

theorem descend_of_keeps {t t' : FileTree} (h : t.Keeps t') {key : List String} {pieces : List (List Char)}
    {place : Place} (hplace : t.descend key pieces = .ok place) : t'.descend key pieces = .ok place := by
  induction pieces generalizing key with
  | nil => exact hplace
  | cons piece pieces ih =>
    unfold descend at hplace ⊢
    split at hplace
    · exact ih hplace
    · split_ifs at hplace ⊢ with hlast
      · exact hplace
      · split at hplace
        · next hdirectory =>
          simp only [h.directories _ hdirectory]
          exact ih hplace
        · cases hplace
        · cases hplace
    · exact ih hplace

/-- where a path leads does not change while no directory is lost -/
theorem locate_of_keeps {t t' : FileTree} (h : t.Keeps t') {p : Path} {place : Place}
    (hplace : t.locate p = .ok place) : t'.locate p = .ok place := by
  unfold locate at hplace ⊢
  rw [h.current]
  split_ifs at hplace ⊢ with hempty
  all_goals exact descend_of_keeps h hplace

/-- the piece that names the place where a path leads; nothing but slashes follows it -/
theorem descend_named {t : FileTree} {key names : List String} {slash : Bool} {pieces : List (List Char)}
    (h : t.descend key pieces = .ok (.named names slash)) :
    ∃ before piece after name, pieces = before ++ piece :: after ∧ Component.ofPiece? piece = some (.name name) ∧
      after.all List.isEmpty ∧ names.getLast? = some name := by
  induction pieces generalizing key with
  | nil => cases h
  | cons piece rest ih =>
    have hlater : ∀ key, t.descend key rest = .ok (.named names slash) →
        ∃ before piece' after name, piece :: rest = before ++ piece' :: after ∧
          Component.ofPiece? piece' = some (.name name) ∧ after.all List.isEmpty ∧ names.getLast? = some name := by
      intro key hrest
      obtain ⟨before, piece', after, name, rfl, hname⟩ := ih hrest
      exact ⟨piece :: before, piece', after, name, rfl, hname⟩
    unfold descend at h
    split at h
    · exact hlater _ h
    · next name hname =>
      split_ifs at h with hlast
      · cases h
        exact ⟨[], piece, rest, name, rfl, hname, hlast, List.getLast?_concat⟩
      · split at h
        · exact hlater _ h
        · cases h
        · cases h
    · exact hlater _ h

/-- **A path leads to its file name**, if it leads to a name. -/
theorem fileName?_of_locate {t : FileTree} {p : Path} {names : List String} {slash : Bool}
    (h : t.locate p = .ok (.named names slash)) : p.fileName? = names.getLast? ∧ names ≠ [] := by
  unfold locate at h
  split_ifs at h with hempty
  all_goals
    obtain ⟨before, piece, after, name, hpieces, hname, hafter, hlast⟩ := descend_named h
    have hcomponent : p.components.getLast? = some (.name name) := by
      rw [Path.components, hpieces]
      exact Path.getLast?_componentsOf hname hafter
    refine ⟨by rw [Path.fileName?, hcomponent, hlast], ?_⟩
    rintro rfl
    cases hlast

/-! ## Operations that succeed -/

theorem write_eq_ok {t t' : FileTree} {p : Path} {content : ByteArray} (h : t.write p content = .ok t') :
    ∃ key, t.locate p = .ok (.named key false) ∧ t.node? key ≠ some .directory ∧
      (t.node? key = some .sink ∧ t' = t ∨ t' = t.set key (.file content)) := by
  unfold write at h
  obtain ⟨place, hplace, h⟩ := bind_eq_ok_iff.1 h
  cases place with
  | directory key => cases h
  | named key slash =>
    cases slash with
    | true => cases h
    | false =>
      refine ⟨key, hplace, ?_⟩
      simp only [Bool.false_eq_true, if_false, pure, Except.pure, bind, Except.bind] at h
      split at h
      · cases h
      · next hsink => exact ⟨by simp [hsink], .inl ⟨hsink, (Except.ok.inj h).symm⟩⟩
      · next hnode _ => exact ⟨hnode, .inr (Except.ok.inj h).symm⟩

theorem rename_eq_ok {t t' : FileTree} {old new : Path} (h : t.rename old new = .ok t') :
    ∃ key key' n, t.locate old = .ok (.named key false) ∧ t.locate new = .ok (.named key' false) ∧
      t.node? key = some n ∧ n ≠ .directory ∧ t.node? key' ≠ some .directory ∧ t' = (t.drop key).set key' n := by
  unfold rename at h
  obtain ⟨place, hplace, h⟩ := bind_eq_ok_iff.1 h
  obtain ⟨place', hplace', h⟩ := bind_eq_ok_iff.1 h
  cases place with
  | directory key => cases h
  | named key slash =>
    cases place' with
    | directory key' => cases h
    | named key' slash' =>
      simp only at h
      split at h
      · cases h
      · cases h
      · next n hdirectory hnode =>
        split at h
        · cases h
        · next hslash =>
          split at h
          · cases h
          · next hnew =>
            have hdone : t' = (t.drop key).set key' n := (Except.ok.inj h).symm
            obtain ⟨rfl, rfl⟩ : slash = false ∧ slash' = false := by simpa using hslash
            exact ⟨key, key', n, hplace, hplace', hnode, hdirectory, hnew, hdone⟩

theorem makeDirectory_eq_ok {t t' : FileTree} {p : Path} (h : t.makeDirectory p = .ok t') :
    ∃ key, key ≠ [] ∧ t' = t.set key .directory := by
  unfold makeDirectory at h
  obtain ⟨place, hplace, h⟩ := bind_eq_ok_iff.1 h
  cases place with
  | directory key => cases h
  | named key slash =>
    simp only at h
    split at h
    · cases h
    · exact ⟨key, (fileName?_of_locate hplace).2, (Except.ok.inj h).symm⟩

/-- what a path to a file is read as -/
theorem read_of_locate {t : FileTree} {p : Path} {key : List String} {content : ByteArray}
    (hplace : t.locate p = .ok (.named key false)) (hnode : t.node? key = some (.file content)) :
    t.read p = .ok content := by
  simp only [read, find, hplace, at?, hnode, bind, Except.bind]
  rfl

/-- a file that was written is there, unless a device took what was written -/
theorem file_of_write {t t' : FileTree} {p : Path} {content : ByteArray} (h : t.write p content = .ok t')
    (hdevice : ∀ key slash, t.locate p = .ok (.named key slash) → t.node? key ≠ some .sink) :
    ∃ key, t'.locate p = .ok (.named key false) ∧ t'.node? key = some (.file content) := by
  obtain ⟨key, hplace, hkey, hwritten⟩ := write_eq_ok h
  obtain ⟨-, hne⟩ := fileName?_of_locate hplace
  rw [hwritten.resolve_left fun hsink => hdevice key false hplace hsink.1]
  exact ⟨key, locate_of_keeps (keeps_set t hne hkey) hplace, by rw [node?_set t hne, if_pos rfl]⟩

/-- a file that was renamed is found under its new name -/
theorem read_of_rename {t t' : FileTree} {old new : Path} {key : List String} {content : ByteArray}
    (h : t.rename old new = .ok t') (hold : t.locate old = .ok (.named key false))
    (hfile : t.node? key = some (.file content)) : t'.read new = .ok content := by
  obtain ⟨key', target, n, hold', hnew, hnode, hn, htarget, rfl⟩ := rename_eq_ok h
  obtain rfl : key' = key := (Place.named.inj (Except.ok.inj (hold'.symm.trans hold))).1
  obtain rfl : n = .file content := Option.some.inj (hnode.symm.trans hfile)
  obtain ⟨-, hkeyNe⟩ := fileName?_of_locate hold
  obtain ⟨-, htargetNe⟩ := fileName?_of_locate hnew
  -- neither the old name nor the new one is a directory, so that the new path still leads where it led
  have hkey : t.node? key' ≠ some .directory := by
    rw [hfile]
    exact nofun
  have htarget' : (t.drop key').node? target ≠ some .directory := by
    rw [node?_drop t hkeyNe]
    split_ifs
    · exact nofun
    · exact htarget
  have hkeeps : t.Keeps ((t.drop key').set target (.file content)) :=
    (keeps_drop t hkeyNe hkey).trans (keeps_set _ htargetNe htarget')
  exact read_of_locate (locate_of_keeps hkeeps hnew) (by rw [node?_set _ htargetNe, if_pos rfl])

theorem textOf_toUTF8 (s : String) : textOf s.toUTF8 = .ok s := by
  have hvalid : String.fromUTF8? s.toUTF8 = some s := by
    rw [String.fromUTF8?, dif_pos (show s.toUTF8.IsValidUTF8 from s.isValidUTF8)]
    rfl
  rw [textOf, hvalid]

/-! ## Devices -/

/-- every device of `t'` is one of `t` -/
def NoNewDevice (t t' : FileTree) : Prop := ∀ key, t'.node? key = some .sink → t.node? key = some .sink

theorem NoNewDevice.refl (t : FileTree) : t.NoNewDevice t := fun _ h => h

theorem NoNewDevice.trans {t t' t'' : FileTree} (h : t.NoNewDevice t') (h' : t'.NoNewDevice t'') : t.NoNewDevice t'' :=
  fun key hkey => h key (h' key hkey)

theorem noNewDevice_makeDirectory {t t' : FileTree} {p : Path} (h : t.makeDirectory p = .ok t') : t.NoNewDevice t' := by
  obtain ⟨key, hkey, rfl⟩ := makeDirectory_eq_ok h
  intro other hother
  rw [node?_set t hkey] at hother
  split_ifs at hother
  · cases hother
  · exact hother

theorem noNewDevice_makeDirectories (fuel : Nat) (t : FileTree) (p : Path) :
    t.NoNewDevice (t.makeDirectories fuel p).1 := by
  induction fuel generalizing t p with
  | zero => exact .refl t
  | succ fuel ih =>
    unfold makeDirectories
    split
    · exact .refl t
    · split
      · next hmade => exact noNewDevice_makeDirectory hmade
      · split
        · exact .refl t
        · next parent _ =>
          have hparent := ih t parent
          split
          · next heq => rwa [heq] at hparent
          · next heq =>
            rw [heq] at hparent
            split
            · next hmade => exact hparent.trans (noNewDevice_makeDirectory hmade)
            · exact hparent
      · exact .refl t

/-- making directories makes no devices -/
theorem noNewDevice_ensureDirectory (t : FileTree) (p : Path) : t.NoNewDevice (t.ensureDirectory p).1 :=
  noNewDevice_makeDirectories _ t p

end FileTree

end BuildImport
