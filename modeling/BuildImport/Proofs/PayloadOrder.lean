/-
Merging and the order of the modules.

Whether merging succeeds depends on the order: two payloads for Java clash if they come first, and go together if one
for Scala comes between them (`merge_order_matters`). Only the kinds of the payloads of a directory count.

- `merges_of_one_java`, `not_merges_of_no_scala`: where the numbers of payloads of each kind settle it.
- `not_merges_kindFirst_java`, `merges_kindFirst_scala`: where they do not, the order decides. `kindFirst` brings all
  payloads of one kind to the front, those for Java to make a directory with two of them clash, those for Scala to let
  one with any of them be merged.
- `kind_eq_of_perm`: what kind of payload is left does not depend on the order.

`merge_order_free_iff` puts this together: all orders are alike just if no directory has two payloads for Java, or some
directory has two and none for Scala.
-/
import Mathlib.Tactic
import BuildImport.Proofs.Payloads

namespace BuildImport.Merging

open BuildImport.Path

/-! ## Kinds -/

/-- the kinds of the payloads that the modules of a directory carry, in the order of the modules -/
def kindsIn (ms : List Module) (d : Path) : List Payload.Kind := (payloadsIn ms d).map (·.kind)

theorem clash_iff {ms : List Module} {d : Path} : Clash (payloadsIn ms d) ↔ (kindsIn ms d).take 2 = [.java, .java] :=
  Iff.rfl

theorem kindsIn_append (ms ms' : List Module) (d : Path) : kindsIn (ms ++ ms') d = kindsIn ms d ++ kindsIn ms' d := by
  simp [kindsIn, payloadsIn, inDirectory]

/-- leaving out modules by the kind of their payload leaves out kinds -/
theorem kindsIn_filter {p : Module → Bool} {q : Payload.Kind → Bool}
    (h : ∀ x : Module, ∀ payload ∈ x.payload, p x = q payload.kind) (ms : List Module) (d : Path) :
    kindsIn (ms.filter p) d = (kindsIn ms d).filter q := by
  have hcomm : inDirectory (ms.filter p) d = (inDirectory ms d).filter p := by
    simp only [inDirectory, List.filter_filter, Bool.and_comm]
  unfold kindsIn payloadsIn
  rw [hcomm, List.filter_map, List.filter_filterMap, List.filterMap_filter]
  congr 1
  apply List.filterMap_congr
  intro x _
  cases hx : x.payload with
  | none => simp
  | some payload =>
    rw [h x payload hx]
    cases hq : q payload.kind <;> simp [Option.filter, hq]

theorem perm_kindsIn {ms ms' : List Module} (h : ms.Perm ms') (d : Path) : (kindsIn ms d).Perm (kindsIn ms' d) :=
  ((h.filter _).filterMap _).map _

/-! ## Verdicts by numbers -/

/-- what clashes are two payloads for Java -/
theorem two_le_of_clash {ms : List Module} {d : Path} (h : Clash (payloadsIn ms d)) :
    2 ≤ (kindsIn ms d).count .java := by
  rw [← List.take_append_drop 2 (kindsIn ms d), clash_iff.1 h, List.count_append]
  exact Nat.le_add_right 2 _

/-- so one for Java in a directory never clashes -/
theorem merges_of_one_java {ignored : List String} {ms : List Module} (hone : ∀ d, (kindsIn ms d).count .java ≤ 1) :
    Merges ignored ms := by
  refine merges_iff.2 fun d hc => ?_
  exact absurd ((two_le_of_clash hc).trans (hone d)) (by decide)

/-- and two do in any order, with none for Scala among them -/
theorem not_merges_of_no_scala {ignored : List String} {ms : List Module} {d : Path}
    (htwo : 2 ≤ (kindsIn ms d).count .java) (hscala : (kindsIn ms d).count .scala = 0) : ¬ Merges ignored ms := by
  intro hmerges
  have hall : ∀ k ∈ kindsIn ms d, k = .java := by
    intro k hk
    cases k with
    | java => rfl
    | scala => exact absurd hk (List.count_eq_zero.1 hscala)
  have hlength : 2 ≤ (kindsIn ms d).length := htwo.trans List.count_le_length
  refine merges_iff.1 hmerges d ?_
  rw [clash_iff, List.eq_replicate_of_mem hall, List.take_replicate, Nat.min_eq_left hlength]
  rfl

/-! ## Two orders -/

/-- the modules with a payload of the kind come first -/
def kindFirst (k : Payload.Kind) (ms : List Module) : List Module :=
  ms.filter (fun x => x.payload.any (·.kind == k)) ++ ms.filter (fun x => !x.payload.any (·.kind == k))

theorem perm_kindFirst (k : Payload.Kind) (ms : List Module) : (kindFirst k ms).Perm ms :=
  List.filter_append_perm _ ms

theorem kindsIn_kindFirst (k : Payload.Kind) (ms : List Module) (d : Path) :
    kindsIn (kindFirst k ms) d =
      List.replicate ((kindsIn ms d).count k) k ++ (kindsIn ms d).filter (fun k' => !(k' == k)) := by
  have hkind : ∀ x : Module, ∀ payload ∈ x.payload, x.payload.any (·.kind == k) = (payload.kind == k) := by
    intro x payload hx
    rw [hx]
    rfl
  have hother : ∀ x : Module, ∀ payload ∈ x.payload, (!x.payload.any (·.kind == k)) = !(payload.kind == k) :=
    fun x payload hx => congrArg (! ·) (hkind x payload hx)
  rw [kindFirst, kindsIn_append, kindsIn_filter (q := (· == k)) hkind, kindsIn_filter (q := fun k' => !(k' == k)) hother,
    List.filter_beq]

/-- the order in which payloads for Java come first is the worst -/
theorem not_merges_kindFirst_java {ignored : List String} {ms : List Module} {d : Path}
    (htwo : 2 ≤ (kindsIn ms d).count .java) : ¬ Merges ignored (kindFirst .java ms) := by
  intro hmerges
  refine merges_iff.1 hmerges d ?_
  obtain ⟨n, hn⟩ := Nat.exists_eq_add_of_le' htwo
  rw [clash_iff, kindsIn_kindFirst, hn]
  rfl

/-- the order in which payloads for Scala come first is the best -/
theorem merges_kindFirst_scala {ignored : List String} {ms : List Module}
    (h : ∀ d, 2 ≤ (kindsIn ms d).count .java → (kindsIn ms d).count .scala ≠ 0) :
    Merges ignored (kindFirst .scala ms) := by
  refine merges_iff.2 fun d hc => ?_
  have htwo : 2 ≤ (kindsIn ms d).count .java :=
    (two_le_of_clash hc).trans_eq ((perm_kindsIn (perm_kindFirst .scala ms) d).count_eq .java)
  obtain ⟨n, hn⟩ := Nat.exists_eq_succ_of_ne_zero (h d htwo)
  rw [clash_iff, kindsIn_kindFirst, hn, List.replicate_succ, List.cons_append, List.take_succ_cons] at hc
  simp at hc

/-- all orders have one verdict if it follows from numbers, else the two above differ -/
theorem verdict_order_free_iff (ignored : List String) (ms : List Module) :
    (∀ ms', ms.Perm ms' → (Merges ignored ms ↔ Merges ignored ms')) ↔
      (∀ d, (kindsIn ms d).count .java ≤ 1) ∨
        ∃ d, 2 ≤ (kindsIn ms d).count .java ∧ (kindsIn ms d).count .scala = 0 := by
  constructor
  · intro hall
    by_contra hno
    push Not at hno
    obtain ⟨⟨d, htwo⟩, hscala⟩ := hno
    have hms : Merges ignored ms := (hall _ (perm_kindFirst .scala ms).symm).2 (merges_kindFirst_scala hscala)
    exact not_merges_kindFirst_java htwo ((hall _ (perm_kindFirst .java ms).symm).1 hms)
  · rintro (hone | ⟨d, htwo, hscala⟩) ms' hperm
    · have hone' : ∀ d, (kindsIn ms' d).count .java ≤ 1 := fun d => (perm_kindsIn hperm d).count_eq .java ▸ hone d
      exact iff_of_true (merges_of_one_java hone) (merges_of_one_java hone')
    · have hcount := fun k => (perm_kindsIn hperm d).count_eq k
      exact iff_of_false (not_merges_of_no_scala htwo hscala)
        (not_merges_of_no_scala (hcount .java ▸ htwo) (hcount .scala ▸ hscala))

/-! ## What is left -/

/-- the kind of what is left depends only on which kinds there are -/
theorem Survives.kind_eq {ps : List Payload} {o : Option Payload} (h : Survives ps o) :
    o.map (·.kind) =
      if .scala ∈ ps.map (·.kind) then some .scala else if .java ∈ ps.map (·.kind) then some .java else none := by
  match o with
  | none =>
    obtain rfl : ps = [] := h
    rfl
  | some (.java j) =>
    obtain rfl : ps = [.java j] := h
    rfl
  | some (.scala s) =>
    obtain ⟨before, after, rfl, -⟩ := h
    simp [Payload.kind]

/-- the result has modules in the directories of the list -/
theorem exists_directory_merge_iff {ignored : List String} {ms out : List Module} (h : merge ignored ms = .ok out)
    (d : Path) : (∃ o ∈ out, o.baseDirectory.same d = true) ↔ ∃ x ∈ ms, x.baseDirectory.same d = true := by
  constructor
  · rintro ⟨o, ho, hs⟩
    obtain ⟨g, hg, n, hn, rfl⟩ := exists_folds_of_mem h ho
    obtain ⟨x, hx, hb⟩ := hn.exists_baseDirectory_eq
    exact ⟨x, mem_of_mem_group hg hx, hb ▸ hs⟩
  · rintro ⟨x, hx, hs⟩
    obtain ⟨g, hg, hxg⟩ := exists_group hx
    obtain ⟨n, hn, ho⟩ := exists_mem_of_group h hg
    obtain ⟨y, hy, hb⟩ := hn.exists_baseDirectory_eq
    rw [eq_inDirectory_of_mem hg hxg] at hy
    have hyx : n.baseDirectory.same x.baseDirectory = true := hb ▸ (mem_inDirectory.1 hy).2
    exact ⟨_, ho, same_trans hyx hs⟩

theorem kind_eq_of_perm {ignored : List String} {ms ms' out out' : List Module} (hperm : ms.Perm ms')
    (h : merge ignored ms = .ok out) (h' : merge ignored ms' = .ok out') {o o' : Module} (ho : o ∈ out)
    (ho' : o' ∈ out') (hs : o'.baseDirectory.same o.baseDirectory = true) :
    o'.payload.map (·.kind) = o.payload.map (·.kind) := by
  have hsame : payloadsIn ms' o'.baseDirectory = payloadsIn ms' o.baseDirectory := by
    rw [payloadsIn, inDirectory_congr hs, payloadsIn]
  have hkinds : ∀ k, k ∈ (payloadsIn ms' o.baseDirectory).map (·.kind) ↔
      k ∈ (payloadsIn ms o.baseDirectory).map (·.kind) :=
    fun k => (perm_kindsIn hperm o.baseDirectory).mem_iff.symm
  rw [(survives_of_mem_merge h' ho').kind_eq, (survives_of_mem_merge h ho).kind_eq, hsame]
  simp only [hkinds]

/-! ## All orders -/

/-- **When merging does not depend on the order.** All orders of the modules are merged or none is, just if no directory
has two payloads for Java, or some directory has two and none for Scala. Where two orders are merged, both give the same
directories, with payloads of the same kinds. -/
theorem merge_order_free_iff (ignored : List String) (ms : List Module) :
    ((∀ ms', ms.Perm ms' → (Merges ignored ms ↔ Merges ignored ms')) ↔
      (∀ d, (kindsIn ms d).count .java ≤ 1) ∨
        ∃ d, 2 ≤ (kindsIn ms d).count .java ∧ (kindsIn ms d).count .scala = 0) ∧
    ∀ ms' out out', ms.Perm ms' → merge ignored ms = .ok out → merge ignored ms' = .ok out' →
      ∀ o ∈ out, (∃ o' ∈ out', o'.baseDirectory.same o.baseDirectory = true) ∧
        ∀ o' ∈ out', o'.baseDirectory.same o.baseDirectory = true →
          o'.payload.map (·.kind) = o.payload.map (·.kind) := by
  refine ⟨verdict_order_free_iff ignored ms, ?_⟩
  intro ms' out out' hperm h h' o ho
  refine ⟨(exists_directory_merge_iff h' _).2 ?_, fun o' ho' hs => kind_eq_of_perm hperm h h' ho ho' hs⟩
  obtain ⟨x, hx, hs⟩ := (exists_directory_merge_iff h o.baseDirectory).1 ⟨o, ho, same_refl _⟩
  exact ⟨x, hperm.mem_iff.1 hx, hs⟩

def javaService (l : Label) : Module := { label := l, baseDirectory := ⟨"/ws/svc"⟩, payload := some (.java {}) }

def scalaService (l : Label) : Module := { label := l, baseDirectory := ⟨"/ws/svc"⟩, payload := some (.scala {}) }

/-- the one for Scala comes last -/
def scalaThird : List Module := [javaService ⟨"//svc:a"⟩, javaService ⟨"//svc:b"⟩, scalaService ⟨"//svc:c"⟩]

/-- the same modules, the one for Scala between the others -/
def scalaBetween : List Module := [javaService ⟨"//svc:a"⟩, scalaService ⟨"//svc:c"⟩, javaService ⟨"//svc:b"⟩]

theorem scalaThird_perm : scalaThird.Perm scalaBetween := (List.Perm.swap _ _ []).cons _

theorem merges_scalaBetween : Merges [] scalaBetween := ⟨_, rfl⟩

/-- two orders of the same modules, of which only one is merged -/
theorem merge_order_matters :
    scalaThird.Perm scalaBetween ∧ ¬ (Merges [] scalaThird ↔ Merges [] scalaBetween) := by
  refine ⟨scalaThird_perm, fun h => ?_⟩
  have hclash : Clash (payloadsIn scalaThird ⟨"/ws/svc"⟩) := by decide
  exact merges_iff.1 (h.2 merges_scalaBetween) _ hclash

/-- the one for Scala comes first -/
def scalaFirst : List Module := [scalaService ⟨"//svc:c"⟩, javaService ⟨"//svc:a"⟩, javaService ⟨"//svc:b"⟩]

/-- not all orders of these modules are alike, but the two that are merged leave a payload of the same kind -/
theorem scalaBetween_not_order_free :
    (¬ ∀ ms', scalaBetween.Perm ms' → (Merges [] scalaBetween ↔ Merges [] ms')) ∧ scalaBetween.Perm scalaFirst ∧
    ∃ out out', merge [] scalaBetween = .ok out ∧ merge [] scalaFirst = .ok out' ∧
      ∀ o ∈ out, (∃ o' ∈ out', o'.baseDirectory.same o.baseDirectory = true) ∧
        ∀ o' ∈ out', o'.baseDirectory.same o.baseDirectory = true →
          o'.payload.map (·.kind) = o.payload.map (·.kind) := by
  obtain ⟨hfree, hkinds⟩ := merge_order_free_iff [] scalaBetween
  obtain ⟨out, hout⟩ := merges_scalaBetween
  obtain ⟨out', hout'⟩ : Merges [] scalaFirst := ⟨_, rfl⟩
  have hperm : scalaBetween.Perm scalaFirst := (List.Perm.swap _ _ _).trans ((List.Perm.refl _).cons _)
  refine ⟨fun hall => ?_, hperm, out, out', hout, hout', hkinds _ _ _ hperm hout hout'⟩
  rcases hfree.1 hall with hone | ⟨d, htwo, hscala⟩
  · exact absurd (hone ⟨"/ws/svc"⟩) (by decide)
  · -- a directory other than theirs has no payloads at all
    have hkind : kindsIn scalaBetween d = [.java, .scala, .java] ∨ kindsIn scalaBetween d = [] := by
      cases hs : Path.same ⟨"/ws/svc"⟩ d <;>
        simp [kindsIn, payloadsIn, inDirectory, scalaBetween, javaService, scalaService, Payload.kind, hs]
    rcases hkind with hd | hd
    · exact absurd (hd ▸ hscala) (by decide)
    · exact absurd (hd ▸ htwo) (by decide)

end BuildImport.Merging
