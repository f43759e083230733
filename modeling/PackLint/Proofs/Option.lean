/-! # Related results

    Two computations that give related results, or none both, go on to give related
    results. -/

namespace PackLint

variable {α β γ δ : Type} {R : α → β → Prop} {x : Option α} {y : Option β}

/-- Related values that are taken further in related ways stay related. -/
theorem rel_bind {S : γ → δ → Prop} (h : Option.Rel R x y) {f : α → Option γ}
    {g : β → Option δ} (hfg : ∀ a b, R a b → Option.Rel S (f a) (g b)) :
    Option.Rel S (x.bind f) (y.bind g) := by
  cases h with
  | none => exact .none
  | some hab => exact hfg _ _ hab

/-- What holds of all values on the left can be added to the relation. -/
theorem rel_and_left {p : α → Prop} (h : Option.Rel R x y) (hp : ∀ a, x = some a → p a) :
    Option.Rel (fun a b => p a ∧ R a b) x y := by
  cases h with
  | none => exact .none
  | some hab => exact .some ⟨hp _ rfl, hab⟩

/-- Tests that agree on related values agree on related options. -/
theorem any_eq_of_rel (h : Option.Rel R x y) {p : α → Bool} {q : β → Bool}
    (hpq : ∀ a b, R a b → p a = q b) : x.any p = y.any q := by
  cases h with
  | none => rfl
  | some hab => exact hpq _ _ hab

/-- With related defaults, related options have related values. -/
theorem getD_of_rel (h : Option.Rel R x y) {a : α} {b : β} (hab : R a b) :
    R (x.getD a) (y.getD b) := by
  cases h with
  | none => exact hab
  | some hrel => exact hrel

end PackLint
