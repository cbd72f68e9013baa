import Mathlib.Data.List.Forall2

/-! Lists by their places: what stands at the same place in two lists, and where the members that are
picked from one come to stand. -/
namespace AnalyzerBridge

variable {α β : Type} {R S : α → β → Prop} {xs : List α} {ys : List β} {p : α → Bool} {x : α}
  {i : Nat}

theorem forall₂_of_mem (h : List.Forall₂ R xs ys) (hS : ∀ x ∈ xs, ∀ y ∈ ys, R x y → S x y) :
    List.Forall₂ S xs ys := by
  induction h with
  | nil => exact .nil
  | cons hr h ih =>
    refine .cons (hS _ List.mem_cons_self _ List.mem_cons_self hr) (ih ?_)
    intro x hx y hy
    exact hS x (List.mem_cons_of_mem _ hx) y (List.mem_cons_of_mem _ hy)

theorem map_eq_of_forall₂ {γ : Type} {f : α → γ} {g : β → γ} (h : List.Forall₂ R xs ys)
    (hfg : ∀ x ∈ xs, ∀ y ∈ ys, R x y → f x = g y) : xs.map f = ys.map g := by
  have hmap := forall₂_of_mem h hfg
  rwa [← List.forall₂_map_right_iff, ← List.forall₂_map_left_iff, List.forall₂_eq_eq_eq] at hmap

theorem forall₂_eraseIdx (h : List.Forall₂ R xs ys) (i : Nat) :
    List.Forall₂ R (xs.eraseIdx i) (ys.eraseIdx i) := by
  induction h generalizing i with
  | nil => exact .nil
  | cons hr h ih =>
    cases i with
    | zero => exact h
    | succ i => exact .cons hr (ih i)

theorem forall₂_getElem? (h : List.Forall₂ R xs ys) (hx : xs[i]? = some x) :
    ∃ y, ys[i]? = some y ∧ R x y := by
  induction h generalizing i with
  | nil => cases hx
  | cons hr h ih =>
    cases i with
    | zero =>
      obtain rfl := Option.some.inj hx
      exact ⟨_, rfl, hr⟩
    | succ i => exact ih hx

theorem exists_mem_zip {α β : Type} {xs : List α} {ys : List β} {x : α} (h : xs.length = ys.length)
    (hx : x ∈ xs) : ∃ y, (x, y) ∈ xs.zip ys := by
  rw [← List.map_fst_zip (Nat.le_of_eq h)] at hx
  obtain ⟨p, hp, rfl⟩ := List.mem_map.1 hx
  exact ⟨p.2, hp⟩

/-- An element that is picked is found among the picked ones behind those before it. -/
theorem getElem?_filter (hx : xs[i]? = some x) (hp : p x = true) :
    (xs.filter p)[(xs.take i).countP p]? = some x := by
  induction xs generalizing i with
  | nil => cases hx
  | cons a xs ih =>
    cases i with
    | zero =>
      obtain rfl := Option.some.inj hx
      rw [List.filter_cons_of_pos hp]
      rfl
    | succ i =>
      by_cases ha : p a = true
      · rw [List.filter_cons_of_pos ha, List.take_succ_cons, List.countP_cons_of_pos ha]
        exact ih hx
      · rw [List.filter_cons_of_neg ha, List.take_succ_cons, List.countP_cons_of_neg ha]
        exact ih hx

theorem filter_eraseIdx_of_pos (hx : xs[i]? = some x) (hp : p x = true) :
    (xs.eraseIdx i).filter p = (xs.filter p).eraseIdx ((xs.take i).countP p) := by
  induction xs generalizing i with
  | nil => cases hx
  | cons a xs ih =>
    cases i with
    | zero =>
      obtain rfl := Option.some.inj hx
      rw [List.filter_cons_of_pos hp]
      rfl
    | succ i =>
      by_cases ha : p a = true
      · rw [List.eraseIdx_cons_succ, List.filter_cons_of_pos ha, List.filter_cons_of_pos ha,
          List.take_succ_cons, List.countP_cons_of_pos ha, List.eraseIdx_cons_succ, ih hx]
      · rw [List.eraseIdx_cons_succ, List.filter_cons_of_neg ha, List.filter_cons_of_neg ha,
          List.take_succ_cons, List.countP_cons_of_neg ha, ih hx]

theorem filter_eraseIdx_of_neg (hx : xs[i]? = some x) (hp : ¬ p x = true) :
    (xs.eraseIdx i).filter p = xs.filter p := by
  induction xs generalizing i with
  | nil => cases hx
  | cons a xs ih =>
    cases i with
    | zero =>
      obtain rfl := Option.some.inj hx
      rw [List.filter_cons_of_neg hp]
      rfl
    | succ i => rw [List.eraseIdx_cons_succ, List.filter_cons, List.filter_cons, ih hx]

end AnalyzerBridge
