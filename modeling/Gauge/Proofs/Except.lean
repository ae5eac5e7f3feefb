import Mathlib.Data.List.Perm.Basic

/-!
Computations that may fail.
-/

namespace Except

variable {α β ε ε' : Type}

theorem mapError_ok (a : α) (f : ε → ε') : (Except.ok a : Except ε α).mapError f = .ok a := rfl

theorem mapError_error (e : ε) (f : ε → ε') :
    (Except.error e : Except ε α).mapError f = .error (f e) := rfl

theorem mapError_eq_ok_iff {x : Except ε α} {f : ε → ε'} {a : α} :
    x.mapError f = .ok a ↔ x = .ok a := by
  cases x <;> simp [mapError_ok, mapError_error]

theorem map_eq_ok_iff {x : Except ε α} {f : α → β} {b : β} :
    x.map f = .ok b ↔ ∃ a, x = .ok a ∧ f a = b := by
  cases x <;> simp [Except.map]

theorem map_eq_error_iff {x : Except ε α} {f : α → β} {e : ε} : x.map f = .error e ↔ x = .error e := by
  cases x <;> simp [Except.map]

theorem bind_eq_ok_iff {x : Except ε α} {f : α → Except ε β} {b : β} :
    x >>= f = .ok b ↔ ∃ a, x = .ok a ∧ f a = .ok b := by
  cases x <;> simp [bind, Except.bind]

theorem bind_map {γ : Type} (x : Except ε α) (f : α → β) (g : β → Except ε γ) :
    x.map f >>= g = x >>= fun a => g (f a) := by
  cases x <;> rfl

theorem toOption_eq_some_iff {x : Except ε α} {a : α} : x.toOption = some a ↔ x = .ok a := by
  cases x <;> simp [Except.toOption]

/-- Computations come to the same if each ends well as the other does. -/
theorem toOption_eq_of_ok {x y : Except ε α} (h : ∀ a, x = .ok a → y = .ok a)
    (h' : ∀ a, y = .ok a → x = .ok a) : x.toOption = y.toOption := by
  refine Option.ext fun a => ?_
  rw [toOption_eq_some_iff, toOption_eq_some_iff]
  exact ⟨h a, h' a⟩

theorem toOption_map (f : α → β) (x : Except ε α) : (x.map f).toOption = x.toOption.map f := by
  cases x <;> rfl

theorem toOption_bind (x : Except ε α) (f : α → Except ε β) :
    (x >>= f).toOption = x.toOption.bind fun a => (f a).toOption := by
  cases x <;> rfl

theorem mapM_eq_ok_iff {f : α → Except ε β} {xs : List α} {ys : List β} :
    xs.mapM f = .ok ys ↔ List.Forall₂ (fun x y => f x = .ok y) xs ys := by
  induction xs generalizing ys with
  | nil =>
      constructor
      · rintro ⟨⟩
        exact .nil
      · rintro ⟨⟩
        rfl
  | cons x xs ih =>
      rw [List.mapM_cons]
      constructor
      · intro h
        obtain ⟨y, hx, h⟩ := bind_eq_ok_iff.mp h
        obtain ⟨ys', hxs, ⟨⟩⟩ := bind_eq_ok_iff.mp h
        exact .cons hx (ih.mp hxs)
      · rintro (_ | ⟨hx, hxs⟩)
        rw [hx, ih.mpr hxs]
        rfl

theorem mapM_perm {f : α → Except ε β} {xs xs' : List α} {ys : List β} (h : xs.Perm xs')
    (hys : xs'.mapM f = .ok ys) : ∃ ys', ys'.Perm ys ∧ xs.mapM f = .ok ys' := by
  obtain ⟨ys', hxs, hperm⟩ := List.perm_comp_forall₂ h (mapM_eq_ok_iff.mp hys)
  exact ⟨ys', hperm, mapM_eq_ok_iff.mpr hxs⟩

end Except
