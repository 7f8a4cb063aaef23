/-
Where the way from a path fragment through its parents leads.

Parents may be undefined, and fragments may be parents of each other in circles of any length, which a way may enter from
outside. `Leads` tells what a way comes to by its steps alone (`HasParent`): to 0, to an id that no fragment has, or to a
circle. Each way comes to just one of them (`Leads.unique`), since a step has one outcome and no step leaves a circle.

`climb` walks a way and gives up after too many names. `climb_eq_iff` says that it comes to what the way leads to: a trail
(`Trail`) with more names than there are fragments has come to one of them twice, so that it is in a circle, and one
without a circle is never that long. `fragmentPath?_exact` puts this together for the paths of fragments.
-/
import Mathlib.Tactic
import BuildImport.ActionGraph
import BuildImport.Proofs.Membership

namespace BuildImport.ActionGraph

open Relation

/-! ## The definition that counts -/

/-- `x` is the last element with the key `id`: the one that counts -/
def LastAt {α : Type} (key : α → Nat) (xs : List α) (id : Nat) (x : α) : Prop :=
  ∃ before after, xs = before ++ x :: after ∧ key x = id ∧ ∀ y ∈ after, key y ≠ id

section

variable {α : Type} {key : α → Nat} {xs : List α} {id : Nat} {x y : α}

theorem find?_reverse_eq_some_iff : xs.reverse.find? (fun x => key x == id) = some x ↔ LastAt key xs id x := by
  rw [List.find?_eq_some_iff_append, LastAt]
  constructor
  · rintro ⟨hx, as, bs, hrev, has⟩
    refine ⟨bs.reverse, as.reverse, ?_, by simpa using hx, fun y hy => by simpa using has y (List.mem_reverse.1 hy)⟩
    rw [← List.reverse_reverse xs, hrev]
    simp
  · rintro ⟨before, after, rfl, hx, hafter⟩
    refine ⟨by simpa using hx, after.reverse, before.reverse, by simp, fun y hy => ?_⟩
    simpa using hafter y (List.mem_reverse.1 hy)

theorem LastAt.unique (hx : LastAt key xs id x) (hy : LastAt key xs id y) : x = y := by
  rw [← find?_reverse_eq_some_iff] at hx hy
  exact Option.some.inj (hx.symm.trans hy)

theorem LastAt.mem_map (h : LastAt key xs id x) : id ∈ xs.map key := by
  obtain ⟨before, after, rfl, rfl, -⟩ := h
  simp

/-- an id that occurs has a definition that counts -/
theorem exists_lastAt_iff : (∃ x, LastAt key xs id x) ↔ id ∈ xs.map key := by
  constructor
  · rintro ⟨x, hx⟩
    exact hx.mem_map
  · intro h
    obtain ⟨x, hx, rfl⟩ := List.mem_map.1 h
    have hsome : (xs.reverse.find? fun y => key y == key x).isSome := by
      rw [List.find?_isSome]
      exact ⟨x, List.mem_reverse.2 hx, by simp⟩
    obtain ⟨y, hy⟩ := Option.isSome_iff_exists.1 hsome
    exact ⟨y, find?_reverse_eq_some_iff.1 hy⟩

end

variable {g : ActionGraph} {start id x y : Nat} {names line : List String} {w w' : Way}

theorem fragment?_eq_some_iff {f : Fragment} : g.fragment? id = some f ↔ LastAt Fragment.id g.fragments id f :=
  find?_reverse_eq_some_iff

theorem mem_fragmentIds_iff : id ∈ g.fragmentIds.toList ↔ ∃ f, LastAt Fragment.id g.fragments id f := by
  rw [fragmentIds, SortedSet.mem_ofList, exists_lastAt_iff]

/-! ## Steps -/

/-- a step of a way: `y` is the parent of the fragment `x` -/
def HasParent (g : ActionGraph) (x y : Nat) : Prop :=
  x ≠ 0 ∧ ∃ f, LastAt Fragment.id g.fragments x f ∧ f.parentId = y

theorem hasParent_rightUnique : Relator.RightUnique g.HasParent := by
  rintro x y z ⟨-, f, hf, rfl⟩ ⟨-, f', hf', rfl⟩
  rw [hf.unique hf']

/-- no step leaves a circle -/
theorem circle_of_reflTransGen (hx : TransGen g.HasParent x x) (h : ReflTransGen g.HasParent x y) :
    TransGen g.HasParent y y := by
  induction h with
  | refl => exact hx
  | tail _ hyz ih =>
    obtain ⟨z, hyz', hzy⟩ := TransGen.head'_iff.1 ih
    obtain rfl := hasParent_rightUnique hyz hyz'
    exact TransGen.tail' hzy hyz

/-- a way from `id` ends at `x` -/
def EndsAt (g : ActionGraph) (id x : Nat) : Prop :=
  ReflTransGen g.HasParent id x ∧ ∀ y, ¬g.HasParent x y

theorem EndsAt.unique (hx : g.EndsAt id x) (hy : g.EndsAt id y) : x = y := by
  rcases hx.1.total_of_right_unique hasParent_rightUnique hy.1 with hxy | hyx
  · exact ((reflTransGen_iff_eq hx.2).1 hxy).symm
  · exact (reflTransGen_iff_eq hy.2).1 hyx

/-- a way that comes to a circle does not end -/
theorem not_endsAt_of_circle (hx : ReflTransGen g.HasParent id x) (hcircle : TransGen g.HasParent x x) :
    ¬g.EndsAt id y := by
  rintro ⟨hy, hend⟩
  have hround : TransGen g.HasParent y y := by
    rcases hx.total_of_right_unique hasParent_rightUnique hy with hxy | hyx
    · exact circle_of_reflTransGen hcircle hxy
    · obtain rfl := (reflTransGen_iff_eq hend).1 hyx
      exact hcircle
  obtain ⟨z, hyz, -⟩ := TransGen.head'_iff.1 hround
  exact hend z hyz

/-! ## Where a way leads -/

/-- the names from the outermost fragment down to `id`; the parent of the outermost one is 0 -/
inductive Lineage (g : ActionGraph) : Nat → List String → Prop
  | outside : Lineage g 0 []
  | child {id : Nat} {f : Fragment} {names : List String} : id ≠ 0 → LastAt Fragment.id g.fragments id f →
      Lineage g f.parentId names → Lineage g id (names ++ [f.label])

theorem Lineage.unique {names' : List String} (h : g.Lineage id names) (h' : g.Lineage id names') : names = names' := by
  induction h generalizing names' with
  | outside =>
    cases h' with
    | outside => rfl
    | child hid _ _ => exact absurd rfl hid
  | child hid hf _ ih =>
    cases h' with
    | outside => exact absurd rfl hid
    | child _ hf' hrest =>
      obtain rfl := hf.unique hf'
      rw [ih hrest]

/-- there are names down to `id` just if its parents lead to 0 -/
theorem exists_lineage_iff : (∃ names, g.Lineage id names) ↔ ReflTransGen g.HasParent id 0 := by
  constructor
  · rintro ⟨names, h⟩
    induction h with
    | outside => exact .refl
    | child hid hf _ ih => exact ih.head ⟨hid, _, hf, rfl⟩
  · intro h
    induction h using ReflTransGen.head_induction_on with
    | refl => exact ⟨[], .outside⟩
    | head hstep _ ih =>
      obtain ⟨hid, f, hf, rfl⟩ := hstep
      obtain ⟨names, hnames⟩ := ih
      exact ⟨names ++ [f.label], .child hid hf hnames⟩

/-- what a way comes to, whatever its length is -/
def Leads (g : ActionGraph) (id : Nat) : Way → Prop
  | .outside names => g.Lineage id names
  | .undefined x => ReflTransGen g.HasParent id x ∧ x ≠ 0 ∧ ∀ f, ¬LastAt Fragment.id g.fragments x f
  | .circle => ∃ x, ReflTransGen g.HasParent id x ∧ TransGen g.HasParent x x

theorem Lineage.endsAt (h : g.Lineage id names) : g.EndsAt id 0 :=
  ⟨exists_lineage_iff.1 ⟨names, h⟩, fun _ hstep => hstep.1 rfl⟩

theorem Leads.endsAt_undefined (h : g.Leads id (.undefined x)) : g.EndsAt id x := by
  obtain ⟨hreach, -, hundefined⟩ := h
  refine ⟨hreach, ?_⟩
  rintro y ⟨-, f, hf, -⟩
  exact hundefined f hf

/-- **A way comes to one thing only.** -/
theorem Leads.unique (h : g.Leads id w) (h' : g.Leads id w') : w = w' := by
  cases w with
  | outside names =>
    cases w' with
    | outside names' => rw [Lineage.unique h h']
    | undefined x => exact absurd (h'.endsAt_undefined.unique h.endsAt) h'.2.1
    | circle =>
      obtain ⟨x, hreach, hcircle⟩ := h'
      exact absurd h.endsAt (not_endsAt_of_circle hreach hcircle)
  | undefined x =>
    cases w' with
    | outside names => exact absurd (h.endsAt_undefined.unique h'.endsAt) h.2.1
    | undefined y => rw [h.endsAt_undefined.unique h'.endsAt_undefined]
    | circle =>
      obtain ⟨y, hreach, hcircle⟩ := h'
      exact absurd h.endsAt_undefined (not_endsAt_of_circle hreach hcircle)
  | circle =>
    obtain ⟨x, hreach, hcircle⟩ := h
    cases w' with
    | outside names => exact absurd h'.endsAt (not_endsAt_of_circle hreach hcircle)
    | undefined y => exact absurd h'.endsAt_undefined (not_endsAt_of_circle hreach hcircle)
    | circle => rfl

/-! ## Climbing -/

/-- a walk from `start` that is at `id`, with the ids and the names that it has passed, the last one first -/
inductive Trail (g : ActionGraph) (start : Nat) : Nat → List Nat → List String → Prop
  | start : Trail g start start [] []
  | step {id : Nat} {ids : List Nat} {names : List String} {f : Fragment} : Trail g start id ids names → id ≠ 0 →
      LastAt Fragment.id g.fragments id f → Trail g start f.parentId (id :: ids) (f.label :: names)

namespace Trail

variable {ids : List Nat}

theorem length_eq (h : g.Trail start id ids names) : ids.length = names.length := by
  induction h with
  | start => rfl
  | step _ _ _ ih => rw [List.length_cons, List.length_cons, ih]

theorem subset_fragmentIds (h : g.Trail start id ids names) : ids ⊆ g.fragmentIds.toList := by
  induction h with
  | start => exact List.nil_subset _
  | step _ _ hf ih => exact List.cons_subset.2 ⟨mem_fragmentIds_iff.2 ⟨_, hf⟩, ih⟩

theorem reaches (h : g.Trail start id ids names) : ReflTransGen g.HasParent start id := by
  induction h with
  | start => exact .refl
  | step _ hid hf ih => exact ih.tail ⟨hid, _, hf, rfl⟩

/-- an id that was passed leads to where the walk is -/
theorem transGen_of_mem (h : g.Trail start id ids names) (hx : x ∈ ids) : TransGen g.HasParent x id := by
  induction h with
  | start => cases hx
  | @step id ids names f _ hid hf ih =>
    have hstep : g.HasParent id f.parentId := ⟨hid, f, hf, rfl⟩
    rcases List.mem_cons.1 hx with rfl | hx
    · exact .single hstep
    · exact (ih hx).tail hstep

/-- an id that was passed twice is on a circle -/
theorem leads_circle_of_not_nodup (h : g.Trail start id ids names) (hids : ¬ids.Nodup) : g.Leads start .circle := by
  induction h with
  | start => exact absurd List.nodup_nil hids
  | @step id ids names f htrail _ _ ih =>
    by_cases hmem : id ∈ ids
    · exact ⟨id, htrail.reaches, htrail.transGen_of_mem hmem⟩
    · exact ih fun hnodup => hids (List.nodup_cons.2 ⟨hmem, hnodup⟩)

/-- a line from where the walk is, put before the names passed, is the line from its start -/
theorem lineage_append (h : g.Trail start id ids names) (hline : g.Lineage id line) :
    g.Lineage start (line ++ names) := by
  induction h generalizing line with
  | start => rwa [List.append_nil]
  | step _ hid hf ih =>
    rw [List.append_cons]
    exact ih (.child hid hf hline)

/-- **Pigeonholes**: a walk that has passed more fragments than there are is in a circle. -/
theorem leads_circle_of_lt (h : g.Trail start id ids names) (hlong : g.fragmentIds.size < names.length) :
    g.Leads start .circle := by
  refine h.leads_circle_of_not_nodup fun hnodup => ?_
  have hshort : names.length ≤ g.fragmentIds.size :=
    calc names.length = ids.length := h.length_eq.symm
      _ ≤ g.fragmentIds.size := (List.subperm_of_subset hnodup h.subset_fragmentIds).length_le
  exact absurd hlong (Nat.not_lt.2 hshort)

end Trail

/-- what a climb comes to from anywhere on a trail is what the way from its start leads to -/
theorem Trail.leads_climb {bound : Nat} {ids : List Nat} (h : g.Trail start id ids names)
    (hbound : g.fragmentIds.size ≤ bound) : g.Leads start (g.climb bound id names) := by
  fun_induction climb g bound id names generalizing ids with
  | case1 names => exact h.lineage_append .outside
  | case2 id names _ hlong => exact h.leads_circle_of_lt (Nat.lt_of_le_of_lt hbound hlong)
  | case3 id names hid _ hnone =>
    refine ⟨h.reaches, hid, fun f hf => ?_⟩
    rw [fragment?_eq_some_iff.2 hf] at hnone
    cases hnone
  | case4 id names hid _ f hf ih => exact ih (h.step hid (fragment?_eq_some_iff.1 hf))

/-- **A climb comes to what the way leads to**, with any bound that is at least the number of fragments. -/
theorem climb_eq_iff {bound : Nat} (hbound : g.fragmentIds.size ≤ bound) : g.climb bound id [] = w ↔ g.Leads id w := by
  have hleads : g.Leads id (g.climb bound id []) := Trail.start.leads_climb hbound
  constructor
  · rintro rfl
    exact hleads
  · intro h
    exact hleads.unique h

theorem way_eq_iff : g.way id = w ↔ g.Leads id w :=
  climb_eq_iff le_rfl

/-- a line through all fragments there are; of two with one id the last is on it -/
example : way { fragments := [⟨1, "a", 0⟩, ⟨2, "b", 1⟩, ⟨1, "c", 0⟩] } 2 = .outside ["c", "b"] := by cbv

/-- a circle that is entered from outside -/
example : way { fragments := [⟨1, "a", 2⟩, ⟨2, "b", 1⟩, ⟨3, "c", 1⟩] } 3 = .circle := by cbv

/-! ## Paths -/

theorem fragmentPath?_eq_some_iff {path : String} :
    g.fragmentPath? id = some path ↔ ∃ names, g.Lineage id names ∧ path = "/".intercalate names := by
  have hway : ∀ names, g.way id = .outside names ↔ g.Lineage id names := fun names => way_eq_iff
  simp only [← hway, fragmentPath?]
  cases g.way id with
  | outside names => simp [eq_comm]
  | undefined x => simp
  | circle => simp

/-- **The guard stops circles and nothing else.** A fragment has a path just if its parents lead to 0, and that is the
names on the way, the outermost first. A way is taken for a circle just if it comes to one, however long it is, and for
one that breaks off just if it comes to an id that no fragment has. -/
theorem fragmentPath?_exact (g : ActionGraph) (id : Nat) :
    ((∃ path, g.fragmentPath? id = some path) ↔ ReflTransGen g.HasParent id 0) ∧
      (∀ path, g.fragmentPath? id = some path ↔ ∃ names, g.Lineage id names ∧ path = "/".intercalate names) ∧
      (g.way id = .circle ↔ ∃ x, ReflTransGen g.HasParent id x ∧ TransGen g.HasParent x x) ∧
      ∀ x, g.way id = .undefined x ↔
        ReflTransGen g.HasParent id x ∧ x ≠ 0 ∧ ∀ f, ¬LastAt Fragment.id g.fragments x f := by
  refine ⟨?_, fun path => fragmentPath?_eq_some_iff, way_eq_iff, fun x => way_eq_iff⟩
  rw [← exists_lineage_iff]
  constructor
  · rintro ⟨path, hpath⟩
    obtain ⟨names, hnames, -⟩ := fragmentPath?_eq_some_iff.1 hpath
    exact ⟨names, hnames⟩
  · rintro ⟨names, hnames⟩
    exact ⟨"/".intercalate names, fragmentPath?_eq_some_iff.2 ⟨names, hnames, rfl⟩⟩

end BuildImport.ActionGraph
