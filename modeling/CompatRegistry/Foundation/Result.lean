import Mathlib.Tactic

/-! Fallible computations in the exception monad: when a sequence of two steps
returns, when it fails, and when the steps of a list all return. -/

namespace Foundation.Result

variable {ε α β : Type}

theorem bind_eq_ok {x : Except ε α} {f : α → Except ε β} {b : β} :
    (x >>= f) = .ok b ↔ ∃ a, x = .ok a ∧ f a = .ok b := by
  cases x with
  | error e => simp [bind, Except.bind]
  | ok a => simp [bind, Except.bind]

theorem bind_eq_error {x : Except ε α} {f : α → Except ε β} {e : ε} :
    (x >>= f) = .error e ↔ x = .error e ∨ ∃ a, x = .ok a ∧ f a = .error e := by
  cases x with
  | error e' => simp [bind, Except.bind]
  | ok a => simp [bind, Except.bind]

@[simp] theorem ok_bind (a : α) (f : α → Except ε β) : ((Except.ok a : Except ε α) >>= f) = f a := rfl

@[simp] theorem error_bind (e : ε) (f : α → Except ε β) :
    ((Except.error e : Except ε α) >>= f) = .error e := rfl

theorem map_bind {γ : Type} (g : β → γ) (x : Except ε α) (f : α → Except ε β) :
    (x >>= f).map g = x >>= fun a => (f a).map g := by
  cases x <;> rfl

theorem exists_error_iff {x : Except ε α} : (∃ e, x = .error e) ↔ ¬ ∃ a, x = .ok a := by
  cases x <;> simp

theorem exists_of_isOk {x : Except ε α} (h : x.isOk = true) : ∃ a, x = .ok a := by
  cases x with
  | error e => cases h
  | ok a => exact ⟨a, rfl⟩

theorem exists_of_any {x : Except ε α} {p : α → Bool} (h : x.toOption.any p = true) : ∃ a, x = .ok a ∧ p a = true := by
  cases x with
  | error e => cases h
  | ok a => exact ⟨a, rfl, h⟩

@[simp] theorem pure_eq_ok (a : α) : (pure a : Except ε α) = .ok a := rfl

/-! ### Related lists -/

section Related
variable {R : α → β → Prop}

theorem forall₂_mem_left {l : List α} {ys : List β} (h : List.Forall₂ R l ys) {x : α} (hx : x ∈ l) :
    ∃ y ∈ ys, R x y := by
  induction h with
  | nil => simp at hx
  | cons hy _ ih =>
    rcases List.mem_cons.mp hx with rfl | hx
    · exact ⟨_, List.mem_cons_self, hy⟩
    · obtain ⟨y, hmem, hy⟩ := ih hx
      exact ⟨y, List.mem_cons_of_mem _ hmem, hy⟩

/-- A split on the right is a split on the left. -/
theorem forall₂_split_right {l : List α} {ys zs : List β} {y : β}
    (h : List.Forall₂ R l (ys ++ y :: zs)) :
    ∃ xs x ws, l = xs ++ x :: ws ∧ List.Forall₂ R xs ys ∧ R x y ∧ List.Forall₂ R ws zs := by
  have htake := List.forall₂_take_append l ys (y :: zs) h
  have hdrop := List.forall₂_drop_append l ys (y :: zs) h
  obtain ⟨x, ws, hxy, hws, heq⟩ := List.forall₂_cons_right_iff.mp hdrop
  exact ⟨_, x, ws, by rw [← heq, List.take_append_drop], htake, hxy, hws⟩

end Related

/-! ### Lists of computations -/

theorem mapM_eq_ok {f : α → Except ε β} {l : List α} {ys : List β} :
    l.mapM f = .ok ys ↔ List.Forall₂ (fun x y => f x = .ok y) l ys := by
  induction l generalizing ys with
  | nil =>
    simp only [List.mapM_nil, pure_eq_ok, Except.ok.injEq, List.forall₂_nil_left_iff]
    exact eq_comm
  | cons x l ih =>
    simp only [List.mapM_cons, bind_eq_ok, pure_eq_ok, Except.ok.injEq, ih,
      List.forall₂_cons_left_iff]
    constructor
    · rintro ⟨y, hy, zs, hzs, rfl⟩
      exact ⟨y, zs, hy, hzs, rfl⟩
    · rintro ⟨y, zs, hy, hzs, rfl⟩
      exact ⟨y, hy, zs, hzs, rfl⟩

theorem mapM_mem_left {f : α → Except ε β} {l : List α} {ys : List β} (h : l.mapM f = .ok ys) {x : α}
    (hx : x ∈ l) : ∃ y ∈ ys, f x = .ok y := forall₂_mem_left (mapM_eq_ok.mp h) hx

theorem mapM_mem_right {f : α → Except ε β} {l : List α} {ys : List β} (h : l.mapM f = .ok ys) {y : β}
    (hy : y ∈ ys) : ∃ x ∈ l, f x = .ok y := forall₂_mem_left (mapM_eq_ok.mp h).flip hy

theorem mapM_isOk {f : α → Except ε β} {l : List α} :
    (∃ ys, l.mapM f = .ok ys) ↔ ∀ x ∈ l, ∃ y, f x = .ok y := by
  induction l with
  | nil => simp
  | cons x l ih =>
    rw [List.forall_mem_cons, ← ih]
    simp only [List.mapM_cons, bind_eq_ok, pure_eq_ok, Except.ok.injEq]
    constructor
    · rintro ⟨_, y, hy, zs, hzs, -⟩
      exact ⟨⟨y, hy⟩, zs, hzs⟩
    · rintro ⟨⟨y, hy⟩, zs, hzs⟩
      exact ⟨_, y, hy, zs, hzs, rfl⟩

/-- A list of computations fails with the exception of one of them. -/
theorem mapM_eq_error {f : α → Except ε β} {l : List α} {e : ε} (h : l.mapM f = .error e) :
    ∃ x ∈ l, f x = .error e := by
  induction l with
  | nil => cases h
  | cons x l ih =>
    rw [List.mapM_cons, bind_eq_error] at h
    rcases h with hx | ⟨y, -, h⟩
    · exact ⟨x, List.mem_cons_self, hx⟩
    · rcases bind_eq_error.mp h with hl | ⟨ys, -, h⟩
      · obtain ⟨z, hz, he⟩ := ih hl
        exact ⟨z, List.mem_cons_of_mem x hz, he⟩
      · cases h

/-- A computation with a flag returns `false` when it returns and does not return `true`. -/
theorem flag_false_iff {x : Except ε (α × Bool)} {returns passes : Prop} (hreturns : (∃ p, x = .ok p) ↔ returns)
    (hpasses : (∃ a, x = .ok (a, true)) ↔ passes) :
    (∃ a, x = .ok (a, false)) ↔ returns ∧ ¬ passes := by
  rw [← hreturns, ← hpasses]
  constructor
  · rintro ⟨a, rfl⟩
    exact ⟨⟨_, rfl⟩, fun ⟨b, hb⟩ => by cases hb⟩
  · rintro ⟨⟨⟨a, flag⟩, rfl⟩, hne⟩
    cases flag with
    | false => exact ⟨a, rfl⟩
    | true => exact absurd ⟨a, rfl⟩ hne

theorem mapM_of_ok {f : α → Except ε β} {g : α → β} {l : List α} (h : ∀ x ∈ l, f x = .ok (g x)) :
    l.mapM f = .ok (l.map g) := by
  rw [mapM_eq_ok, List.forall₂_map_right_iff, List.forall₂_same]
  exact h

/-- Computations that return `g x` exactly where `P x` holds. -/
theorem mapM_map_eq_ok {γ : Type} {f : β → Except ε γ} {e : α → β} {g : α → γ} {P : α → Prop} {l : List α}
    (h : ∀ x ∈ l, ∀ z, f (e x) = .ok z ↔ z = g x ∧ P x) {zs : List γ} :
    (l.map e).mapM f = .ok zs ↔ zs = l.map g ∧ ∀ x ∈ l, P x := by
  induction l generalizing zs with
  | nil =>
    rw [mapM_eq_ok]
    simp
  | cons x l ih =>
    obtain ⟨hx, hl⟩ := List.forall_mem_cons.mp h
    simp only [List.map_cons, List.mapM_cons, bind_eq_ok, pure_eq_ok, Except.ok.injEq, hx, ih hl,
      List.forall_mem_cons]
    constructor
    · rintro ⟨_, ⟨rfl, hPx⟩, _, ⟨rfl, hPl⟩, rfl⟩
      exact ⟨rfl, hPx, hPl⟩
    · rintro ⟨rfl, hPx, hPl⟩
      exact ⟨_, ⟨rfl, hPx⟩, _, ⟨rfl, hPl⟩, rfl⟩

end Foundation.Result
