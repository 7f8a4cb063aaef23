/-
Computations that may fail, and lists of them.

`bind_eq_ok_iff` takes a sequence apart; `mapM_eq_ok_iff` says that a list of computations succeeds iff each of them
does. The results then stand in the order of the list, and each belongs to one of its elements. `mapM_eq_error_iff` says
when a list fails, where it can fail in one way only.
-/
import Mathlib.Tactic

namespace BuildImport.Outcome

variable {ε α β : Type}

theorem bind_eq_ok_iff {x : Except ε α} {f : α → Except ε β} {b : β} :
    x >>= f = .ok b ↔ ∃ a, x = .ok a ∧ f a = .ok b := by
  cases x with
  | error e => simp [bind, Except.bind]
  | ok a => simp [bind, Except.bind]

theorem bind_eq_error_iff {x : Except ε α} {f : α → Except ε β} {e : ε} :
    x >>= f = .error e ↔ x = .error e ∨ ∃ a, x = .ok a ∧ f a = .error e := by
  cases x with
  | error e' => simp [bind, Except.bind]
  | ok a => simp [bind, Except.bind]

theorem map_eq_ok_iff {x : Except ε α} {f : α → β} {b : β} : x.map f = .ok b ↔ ∃ a, x = .ok a ∧ f a = b := by
  cases x with
  | error e => simp [Except.map]
  | ok a => simp [Except.map]

theorem map_eq_error_iff {x : Except ε α} {f : α → β} {e : ε} : x.map f = .error e ↔ x = .error e := by
  cases x with
  | error e' => simp [Except.map]
  | ok a => simp [Except.map]

theorem pure_eq_ok_iff {a b : α} : (pure a : Except ε α) = .ok b ↔ a = b := by
  simp [pure, Except.pure]

theorem toOption_eq_some_iff {x : Except ε α} {a : α} : x.toOption = some a ↔ x = .ok a := by
  cases x with
  | error e => simp [Except.toOption]
  | ok b => simp [Except.toOption]

theorem any_toOption_iff {x : Except ε α} {f : α → Bool} :
    x.toOption.any f = true ↔ ∃ a, x = .ok a ∧ f a = true := by
  cases x with
  | error e => simp [Except.toOption]
  | ok a => simp [Except.toOption]

theorem mapM_eq_ok_iff {f : α → Except ε β} {xs : List α} {ys : List β} :
    xs.mapM f = .ok ys ↔ List.Forall₂ (fun x y => f x = .ok y) xs ys := by
  induction xs generalizing ys with
  | nil =>
    rw [List.mapM_nil, pure_eq_ok_iff, List.forall₂_nil_left_iff]
    exact eq_comm
  | cons x xs ih =>
    simp only [List.mapM_cons, bind_eq_ok_iff, pure_eq_ok_iff, List.forall₂_cons_left_iff, ih]
    constructor
    · rintro ⟨y, hy, ys, hys, rfl⟩
      exact ⟨y, ys, hy, hys, rfl⟩
    · rintro ⟨y, ys, hy, hys, rfl⟩
      exact ⟨y, hy, ys, hys, rfl⟩

/-- where only one error is possible, a list fails with it iff one of its computations does -/
theorem mapM_eq_error_iff {f : α → Except ε β} {xs : List α} {e₀ e : ε}
    (h : ∀ x ∈ xs, ∀ e, f x = .error e → e = e₀) : xs.mapM f = .error e ↔ e = e₀ ∧ ∃ x ∈ xs, f x = .error e₀ := by
  induction xs with
  | nil => simp [pure, Except.pure]
  | cons x xs ih =>
    have ih := ih fun x' hx' => h x' (List.mem_cons_of_mem _ hx')
    simp only [List.mapM_cons, bind_eq_error_iff, ih, List.exists_mem_cons_iff]
    cases hx : f x with
    | error e' =>
      obtain rfl : e' = e₀ := h x List.mem_cons_self e' hx
      simp [eq_comm]
    | ok y => simp [pure, Except.pure]

/-- where each computation succeeds, dropping the failed ones drops none -/
theorem forall₂_filterMap_toOption {f : α → Except ε β} {xs : List α} (h : ∀ x ∈ xs, ∃ y, f x = .ok y) :
    List.Forall₂ (fun x y => f x = .ok y) xs (xs.filterMap fun x => (f x).toOption) := by
  induction xs with
  | nil => exact .nil
  | cons x xs ih =>
    obtain ⟨y, hy⟩ := h x List.mem_cons_self
    rw [List.filterMap_cons_some (by rw [hy]; rfl)]
    exact .cons hy (ih fun x' hx' => h x' (List.mem_cons_of_mem _ hx'))

theorem exists_of_mem_left {R : α → β → Prop} {xs : List α} {ys : List β} (h : List.Forall₂ R xs ys) {x : α}
    (hx : x ∈ xs) : ∃ y ∈ ys, R x y := by
  induction h with
  | nil => simp at hx
  | cons hab _ ih =>
    rcases List.mem_cons.1 hx with rfl | hx
    · exact ⟨_, List.mem_cons_self, hab⟩
    · obtain ⟨y, hy, hr⟩ := ih hx
      exact ⟨y, List.mem_cons_of_mem _ hy, hr⟩

theorem exists_of_mem_right {R : α → β → Prop} {xs : List α} {ys : List β} (h : List.Forall₂ R xs ys) {y : β}
    (hy : y ∈ ys) : ∃ x ∈ xs, R x y :=
  exists_of_mem_left h.flip hy

/-- what holds between elements in order holds between what belongs to them -/
theorem pairwise_right {R : α → β → Prop} {S : α → α → Prop} {T : β → β → Prop} {xs : List α} {ys : List β}
    (h : List.Forall₂ R xs ys) (hs : xs.Pairwise S) (ht : ∀ {a a' b b'}, R a b → R a' b' → S a a' → T b b') :
    ys.Pairwise T := by
  induction h with
  | nil => exact .nil
  | @cons a b as bs hab hrest ih =>
    obtain ⟨ha, hs⟩ := List.pairwise_cons.1 hs
    have hhead : ∀ b' ∈ bs, T b b' := by
      intro b' hb'
      obtain ⟨a', ha', hab'⟩ := exists_of_mem_right hrest hb'
      exact ht hab hab' (ha a' ha')
    exact List.pairwise_cons.2 ⟨hhead, ih hs⟩

end BuildImport.Outcome
