/-
Following references in a finite graph that may have cycles and dangling references.

`reached next domain starts` lists what can be reached from `starts`, each element once: a reference is followed only to
a member of `domain`, and each member is entered at most once. The walk ends because every step either takes an element
off the queue or takes one out of those not yet seen. Main fact: `mem_reached`, that the list holds exactly the reachable
members.
-/
namespace BuildImport.Search

variable {α : Type} [DecidableEq α]

/-- the members of the domain that were not entered yet -/
def unseen (domain seen : List α) : List α := domain.filter fun x => x ∉ seen

theorem length_unseen_cons {domain seen : List α} {x : α} (hd : x ∈ domain) (hs : x ∉ seen) :
    (unseen domain (x :: seen)).length < (unseen domain seen).length := by
  have h : unseen domain (x :: seen) = (unseen domain seen).filter fun y => y ≠ x := by
    simp only [unseen, List.filter_filter]
    congr 1
    funext y
    simp
  rw [h]
  apply List.length_filter_lt_length_iff_exists.2
  exact ⟨x, by simp [unseen, hd, hs], by simp⟩

/-- goes on with the queue; `seen` holds what was entered, the last one first -/
def explore (next : α → List α) (domain seen : List α) : List α → List α
  | [] => seen
  | x :: queue =>
    if _h : x ∈ domain ∧ x ∉ seen then explore next domain (x :: seen) (queue ++ next x)
    else explore next domain seen queue
  termination_by queue => ((unseen domain seen).length, queue.length)
  decreasing_by
    · exact Prod.Lex.left _ _ (length_unseen_cons _h.1 _h.2)
    · exact Prod.Lex.right _ (by simp)

/-- the members of `domain` that can be reached from `starts` -/
def reached (next : α → List α) (domain starts : List α) : List α := explore next domain [] starts

/-! ## Facts -/

/-- `x` can be reached from `starts` by references between members of `domain` -/
inductive Reachable (next : α → List α) (domain starts : List α) : α → Prop
  | start {x : α} : x ∈ starts → x ∈ domain → Reachable next domain starts x
  | step {x y : α} : Reachable next domain starts x → y ∈ next x → y ∈ domain → Reachable next domain starts y

theorem reachable_of_mem_explore {next : α → List α} {domain starts seen queue : List α}
    (hs : ∀ x ∈ seen, Reachable next domain starts x)
    (hq : ∀ x ∈ queue, x ∈ domain → Reachable next domain starts x) :
    ∀ x ∈ explore next domain seen queue, Reachable next domain starts x := by
  fun_induction explore next domain seen queue with
  | case1 seen => exact hs
  | case2 seen x queue h ih =>
    have hx := hq x List.mem_cons_self h.1
    apply ih
    · intro y hy
      rcases List.mem_cons.1 hy with rfl | hy
      · exact hx
      · exact hs y hy
    · intro y hy hd
      rcases List.mem_append.1 hy with hy | hy
      · exact hq y (List.mem_cons_of_mem _ hy) hd
      · exact .step hx hy hd
  | case3 seen x queue h ih => exact ih hs fun y hy => hq y (List.mem_cons_of_mem _ hy)

/-- what the walk enters is closed: it holds the queue, and all references of what it holds -/
theorem explore_closed (next : α → List α) (domain seen queue : List α)
    (h : ∀ x ∈ seen, ∀ y ∈ next x, y ∈ domain → y ∈ seen ∨ y ∈ queue) :
    (∀ x ∈ seen, x ∈ explore next domain seen queue) ∧
      (∀ x ∈ queue, x ∈ domain → x ∈ explore next domain seen queue) ∧
      ∀ x ∈ explore next domain seen queue, ∀ y ∈ next x, y ∈ domain → y ∈ explore next domain seen queue := by
  fun_induction explore next domain seen queue with
  | case1 seen =>
    refine ⟨fun _ hx => hx, fun _ hx => by simp at hx, fun x hx y hy hd => ?_⟩
    simpa using h x hx y hy hd
  | case2 seen x queue hx ih =>
    have ⟨h1, h2, h3⟩ := ih fun a ha b hb hd => by
      rcases List.mem_cons.1 ha with rfl | ha
      · exact .inr (List.mem_append_right _ hb)
      · rcases h a ha b hb hd with hb | hb
        · exact .inl (List.mem_cons_of_mem _ hb)
        · rcases List.mem_cons.1 hb with rfl | hb
          · exact .inl List.mem_cons_self
          · exact .inr (List.mem_append_left _ hb)
    refine ⟨fun a ha => h1 a (List.mem_cons_of_mem _ ha), fun a ha hd => ?_, h3⟩
    rcases List.mem_cons.1 ha with rfl | ha
    · exact h1 _ List.mem_cons_self
    · exact h2 a (List.mem_append_left _ ha) hd
  | case3 seen x queue hx ih =>
    have ⟨h1, h2, h3⟩ := ih fun a ha b hb hd => by
      rcases h a ha b hb hd with hb' | hb'
      · exact .inl hb'
      · rcases List.mem_cons.1 hb' with rfl | hb'
        · exact .inl (by simpa [hd] using hx)
        · exact .inr hb'
    refine ⟨h1, fun a ha hd => ?_, h3⟩
    rcases List.mem_cons.1 ha with rfl | ha
    · exact h1 _ (by simpa [hd] using hx)
    · exact h2 a ha hd

/-- the walk enters exactly what can be reached -/
theorem mem_reached {next : α → List α} {domain starts : List α} {x : α} :
    x ∈ reached next domain starts ↔ Reachable next domain starts x := by
  constructor
  · exact reachable_of_mem_explore (by simp) (fun x hx hd => .start hx hd) x
  · have ⟨_, h2, h3⟩ := explore_closed next domain [] starts (by simp)
    intro h
    induction h with
    | start hs hd => exact h2 _ hs hd
    | step _ hy hd ih => exact h3 _ ih _ hy hd

end BuildImport.Search
