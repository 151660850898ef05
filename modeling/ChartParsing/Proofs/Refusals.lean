import Mathlib.Data.List.Induction

/-!
# Refusals in a list

The elements of a list may be refused with an error, each in view of those before it.  Then none is
refused, or one is the first that is refused.  A run over the list that stops at the first error
reports this one.

**Results.**
* `noneRefused_or_firstRefused`: none is refused, or one is the first.
* `noneRefused_cons_iff`, `firstRefused_cons_iff`: refusals seen from the front of the list.
* `mapM_eq_error_iff`: a map that can fail reports the first refusal.
-/

namespace ChartParsing

variable {α β γ ε : Type} {refused : List α → α → ε → Prop} {x : α} {xs : List α} {e : ε}

/-- No element is refused after those before it. -/
def NoneRefused (refused : List α → α → ε → Prop) (xs : List α) : Prop :=
  ∀ earlier x later e, xs = earlier ++ x :: later → ¬ refused earlier x e

/-- The first element that is refused is refused with an error. -/
def FirstRefused (refused : List α → α → ε → Prop) (xs : List α) (e : ε) : Prop :=
  ∃ earlier x later, xs = earlier ++ x :: later ∧ NoneRefused refused earlier ∧
    refused earlier x e

theorem noneRefused_nil : NoneRefused refused [] := by
  intro earlier x later e h
  cases earlier <;> cases h

theorem noneRefused_append_singleton
    (hxs : NoneRefused refused xs)
    (hx : ∀ e, ¬ refused xs x e) :
    NoneRefused refused (xs ++ [x]) := by
  intro earlier y later e h
  rcases List.eq_nil_or_concat later with rfl | ⟨later, last, rfl⟩
  · obtain ⟨rfl, hy⟩ := List.append_inj' h rfl
    cases hy
    exact hx e
  · rw [List.concat_eq_append, ← List.cons_append, ← List.append_assoc] at h
    exact hxs earlier y later e (List.append_inj' h rfl).1

theorem FirstRefused.append
    (h : FirstRefused refused xs e)
    (more : List α) :
    FirstRefused refused (xs ++ more) e := by
  obtain ⟨earlier, x, later, rfl, hnone, hrefused⟩ := h
  exact ⟨earlier, x, later ++ more, by simp, hnone, hrefused⟩

theorem NoneRefused.not_firstRefused
    (hnone : NoneRefused refused xs) :
    ¬ FirstRefused refused xs e := by
  rintro ⟨earlier, x, later, h, _, hrefused⟩
  exact hnone earlier x later e h hrefused

/-- If an element is refused, then one is the first. -/
theorem noneRefused_or_firstRefused
    (refused : List α → α → ε → Prop)
    (xs : List α) :
    NoneRefused refused xs ∨ ∃ e, FirstRefused refused xs e := by
  induction xs using List.reverseRecOn with
  | nil => exact Or.inl noneRefused_nil
  | append_singleton xs x ih =>
      rcases ih with hnone | ⟨e, hfirst⟩
      · by_cases hx : ∃ e, refused xs x e
        · obtain ⟨e, hx⟩ := hx
          exact Or.inr ⟨e, xs, x, [], rfl, hnone, hx⟩
        · exact Or.inl (noneRefused_append_singleton hnone (not_exists.mp hx))
      · exact Or.inr ⟨e, hfirst.append [x]⟩

theorem NoneRefused.of_append
    {ys : List α}
    (h : NoneRefused refused (xs ++ ys)) :
    NoneRefused refused xs := by
  rintro earlier x later e rfl
  exact h earlier x (later ++ ys) e (by simp)

theorem noneRefused_cons_iff :
    NoneRefused refused (x :: xs) ↔
      (∀ e, ¬ refused [] x e) ∧ NoneRefused (fun earlier => refused (x :: earlier)) xs := by
  constructor
  · intro h
    refine ⟨fun e => h [] x xs e rfl, ?_⟩
    rintro earlier y later e rfl
    exact h (x :: earlier) y later e rfl
  · rintro ⟨hx, hxs⟩ earlier y later e hsplit
    cases earlier with
    | nil =>
        cases hsplit
        exact hx e
    | cons _ earlier =>
        cases hsplit
        exact hxs earlier y later e rfl

theorem firstRefused_cons_iff :
    FirstRefused refused (x :: xs) e ↔
      refused [] x e ∨
        (∀ e, ¬ refused [] x e) ∧ FirstRefused (fun earlier => refused (x :: earlier)) xs e := by
  constructor
  · rintro ⟨earlier, y, later, hsplit, hnone, hrefused⟩
    cases earlier with
    | nil =>
        cases hsplit
        exact Or.inl hrefused
    | cons _ earlier =>
        cases hsplit
        obtain ⟨hx, hnone⟩ := noneRefused_cons_iff.mp hnone
        exact Or.inr ⟨hx, earlier, y, later, rfl, hnone, hrefused⟩
  · rintro (hx | ⟨hx, earlier, y, later, rfl, hnone, hrefused⟩)
    · exact ⟨[], x, xs, rfl, noneRefused_nil, hx⟩
    · exact ⟨x :: earlier, y, later, rfl, noneRefused_cons_iff.mpr ⟨hx, hnone⟩, hrefused⟩

theorem not_firstRefused_nil : ¬ FirstRefused refused [] e :=
  noneRefused_nil.not_firstRefused

theorem NoneRefused.not_of_mem
    {faulty : α → ε → Prop}
    (h : NoneRefused (fun _ => faulty) xs)
    (hx : x ∈ xs) :
    ¬ faulty x e := by
  obtain ⟨earlier, later, rfl⟩ := List.append_of_mem hx
  exact h earlier x later e rfl

/-! ## Runs that stop at the first error -/

/-- What fails with the first refusal succeeds if nothing is refused. -/
theorem noneRefused_iff_exists
    {r : Except ε β}
    (h : ∀ e, r = .error e ↔ FirstRefused refused xs e) :
    NoneRefused refused xs ↔ ∃ y, r = .ok y := by
  constructor
  · intro hnone
    cases hr : r with
    | ok y => exact ⟨y, rfl⟩
    | error e => exact absurd ((h e).mp hr) hnone.not_firstRefused
  · rintro ⟨y, rfl⟩
    rcases noneRefused_or_firstRefused refused xs with hnone | ⟨e, hfirst⟩
    · exact hnone
    · cases (h e).mpr hfirst

/-- The steps of a run that succeeds. -/
theorem exists_of_bind_eq_ok
    {r : Except ε β} {f : β → Except ε γ} {z : γ}
    (h : (r >>= f) = .ok z) :
    ∃ y, r = .ok y ∧ f y = .ok z := by
  cases r with
  | error e => cases h
  | ok y => exact ⟨y, rfl, h⟩

/-- A step fails, or the steps behind it do. -/
theorem bind_eq_error_iff
    {r : Except ε β} {f : β → Except ε γ} :
    (r >>= f) = .error e ↔ r = .error e ∨ ∃ y, r = .ok y ∧ f y = .error e := by
  cases r <;> simp [Bind.bind, Except.bind]

theorem bind_pure_eq_error_iff
    {r : Except ε β} {f : β → γ} :
    (r >>= fun y => pure (f y)) = .error e ↔ r = .error e := by
  cases r <;> simp [Bind.bind, Except.bind, pure, Except.pure]

theorem mapM_eq_error_iff
    {f : α → Except ε β} {faulty : α → ε → Prop}
    (hf : ∀ x e, f x = .error e ↔ faulty x e) :
    xs.mapM f = .error e ↔ FirstRefused (fun _ => faulty) xs e := by
  induction xs with
  | nil => exact iff_of_false nofun not_firstRefused_nil
  | cons x xs ih =>
      rw [List.mapM_cons, firstRefused_cons_iff, ← ih, ← hf, bind_eq_error_iff]
      refine or_congr_right ?_
      simp only [bind_pure_eq_error_iff, ← hf]
      cases f x <;> simp

end ChartParsing
