import HackToolchain.Defect
import Mathlib.Data.List.Forall2
import Mathlib.Data.List.Induction

/-! When a computation that may fail succeeds, in terms of the computations it is made of. -/

namespace HackToolchain

variable {ε ε' α β σ : Type}

theorem Except.map_eq_ok {f : α → β} {x : Except ε α} {b : β} :
    x.map f = .ok b ↔ ∃ a, x = .ok a ∧ f a = b := by
  cases x <;> simp [Except.map]

theorem Except.bind_eq_ok {f : α → Except ε β} {x : Except ε α} {b : β} :
    (x >>= f) = .ok b ↔ ∃ a, x = .ok a ∧ f a = .ok b := by
  cases x <;> simp [bind, Except.bind]

theorem Except.map_eq_error {f : α → β} {x : Except ε α} {e : ε} :
    x.map f = .error e ↔ x = .error e := by
  cases x <;> simp [Except.map]

theorem Except.bind_eq_error {f : α → Except ε β} {x : Except ε α} {e : ε} :
    (x >>= f) = .error e ↔ x = .error e ∨ ∃ a, x = .ok a ∧ f a = .error e := by
  cases x <;> simp [bind, Except.bind]

theorem Except.mapError_eq_ok {f : ε → ε'} {x : Except ε α} {a : α} :
    x.mapError f = .ok a ↔ x = .ok a := by
  cases x <;> simp [Except.mapError]

theorem atLine_eq_ok {number : Nat} {x : Except Defect α} {a : α} :
    atLine number x = .ok a ↔ x = .ok a :=
  Except.mapError_eq_ok

theorem atLine_eq_error {number : Nat} {x : Except Defect α} {e : SourceError} :
    atLine number x = .error e ↔ ∃ defect, x = .error defect ∧ e = ⟨number, defect⟩ := by
  cases x <;> simp [atLine, Except.mapError, eq_comm]

theorem foldlM_snoc_eq_ok {f : σ → α → Except ε σ} {s s' : σ} {xs : List α} {x : α} :
    (xs ++ [x]).foldlM f s = .ok s' ↔ ∃ mid, xs.foldlM f s = .ok mid ∧ f mid x = .ok s' := by
  rw [List.foldlM_append, Except.bind_eq_ok]
  simp [List.foldlM_cons]

/-- A fold that fails does so at an element, and succeeds on those before. -/
theorem foldlM_eq_error {f : σ → α → Except ε σ} {s : σ} {xs : List α} {e : ε}
    (h : xs.foldlM f s = .error e) : ∃ front x back mid,
      xs = front ++ x :: back ∧ front.foldlM f s = .ok mid ∧ f mid x = .error e := by
  induction xs using List.reverseRecOn with
  | nil => cases h
  | append_singleton xs x ih =>
    rw [List.foldlM_append] at h
    cases before : xs.foldlM f s with
    | error e' =>
      rw [before] at h
      cases h
      obtain ⟨front, y, back, mid, rfl, first, fails⟩ := ih before
      exact ⟨front, y, back ++ [x], mid, by simp, first, fails⟩
    | ok mid =>
      rw [before] at h
      refine ⟨xs, x, [], mid, rfl, before, ?_⟩
      cases fails : f mid x with
      | error e' => simpa [bind, Except.bind, fails] using h
      | ok after => simp [bind, Except.bind, fails, pure, Except.pure] at h

/-- What holds before a fold and is kept by every step that succeeds holds at the end. -/
theorem foldlM_invariant {f : σ → α → Except ε σ} {P : σ → List α → Prop}
    (step : ∀ s x rest after, P s (x :: rest) → f s x = .ok after → P after rest)
    {s last : σ} {xs : List α} (start : P s xs) (h : xs.foldlM f s = .ok last) : P last [] := by
  induction xs generalizing s with
  | nil =>
    cases h
    exact start
  | cons x rest ih =>
    rw [List.foldlM_cons] at h
    obtain ⟨after, here, later⟩ := Except.bind_eq_ok.mp h
    exact ih (step s x rest after start here) later

theorem mapM_cons_eq_ok {f : α → Except ε β} {x : α} {xs : List α} {ys : List β} :
    (x :: xs).mapM f = .ok ys ↔ ∃ y back, f x = .ok y ∧ xs.mapM f = .ok back ∧ ys = y :: back := by
  simp only [List.mapM_cons, Except.bind_eq_ok, pure, Except.pure, Except.ok.injEq]
  grind

theorem mapM_append_eq_ok {f : α → Except ε β} {xs xs' : List α} {ys : List β} :
    (xs ++ xs').mapM f = .ok ys ↔
      ∃ front back, xs.mapM f = .ok front ∧ xs'.mapM f = .ok back ∧ ys = front ++ back := by
  simp only [List.mapM_append, Except.bind_eq_ok, pure, Except.pure, Except.ok.injEq]
  grind

theorem mapM_snoc_eq_ok {f : α → Except ε β} {xs : List α} {x : α} {ys : List β} :
    (xs ++ [x]).mapM f = .ok ys ↔ ∃ front y, xs.mapM f = .ok front ∧ f x = .ok y ∧
      ys = front ++ [y] := by
  simp only [mapM_append_eq_ok, mapM_cons_eq_ok, List.mapM_nil, pure, Except.pure]
  grind

theorem mapM_eq_ok_iff {f : α → Except ε β} {xs : List α} {ys : List β} :
    xs.mapM f = .ok ys ↔ List.Forall₂ (fun x y => f x = .ok y) xs ys := by
  induction xs generalizing ys with
  | nil => simp [pure, Except.pure, eq_comm]
  | cons x xs ih =>
    rw [mapM_cons_eq_ok, List.forall₂_cons_left_iff]
    constructor
    · rintro ⟨y, back, here, later, rfl⟩
      exact ⟨y, back, here, ih.mp later, rfl⟩
    · rintro ⟨y, back, here, later, rfl⟩
      exact ⟨y, back, here, ih.mpr later, rfl⟩

theorem exists_of_mem_forall₂ {R : α → β → Prop} {xs : List α} {ys : List β} {x : α}
    (h : List.Forall₂ R xs ys) (inside : x ∈ xs) : ∃ y ∈ ys, R x y := by
  induction h with
  | nil => cases inside
  | @cons x' y _ _ here _ ih =>
    rcases List.mem_cons.mp inside with rfl | inside
    · exact ⟨y, List.mem_cons_self .., here⟩
    · obtain ⟨other, among, related⟩ := ih inside
      exact ⟨other, List.mem_cons_of_mem _ among, related⟩

theorem exists_of_mem_mapM {f : α → Except ε β} {xs : List α} {ys : List β} {y : β}
    (h : xs.mapM f = .ok ys) (inside : y ∈ ys) : ∃ x ∈ xs, f x = .ok y :=
  exists_of_mem_forall₂ (mapM_eq_ok_iff.mp h).flip inside

theorem exists_mapM_eq_ok {f : α → Except ε β} {xs : List α} :
    (∃ ys, xs.mapM f = .ok ys) ↔ ∀ x ∈ xs, ∃ y, f x = .ok y := by
  induction xs with
  | nil => simp [pure, Except.pure]
  | cons x xs ih =>
    rw [List.forall_mem_cons, ← ih]
    constructor
    · rintro ⟨ys, h⟩
      obtain ⟨y, back, here, later, -⟩ := mapM_cons_eq_ok.mp h
      exact ⟨⟨y, here⟩, back, later⟩
    · rintro ⟨⟨y, here⟩, back, later⟩
      exact ⟨y :: back, mapM_cons_eq_ok.mpr ⟨y, back, here, later, rfl⟩⟩

theorem mapM_congr {f g : α → Except ε β} {xs : List α} (h : ∀ x ∈ xs, f x = g x) :
    xs.mapM f = xs.mapM g := by
  induction xs with
  | nil => rfl
  | cons x xs ih =>
    obtain ⟨here, later⟩ := List.forall_mem_cons.mp h
    rw [List.mapM_cons, List.mapM_cons, here, ih later]

theorem mapM_eq_error {f : α → Except ε β} {front back : List α} {x : α} {e : ε}
    (before : ∀ a ∈ front, ∃ b, f a = .ok b) (here : f x = .error e) :
    (front ++ x :: back).mapM f = .error e := by
  obtain ⟨ys, earlier⟩ := exists_mapM_eq_ok.mpr before
  rw [List.mapM_append, earlier, List.mapM_cons, here]
  rfl

end HackToolchain
