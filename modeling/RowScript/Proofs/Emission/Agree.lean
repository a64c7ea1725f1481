import RowScript.Compile
import RowScript.Proofs.Emission.Similar

/-!
# Emissions that take the same course

Two emissions that have fragments of the same shape to go on with make the same
checks, change the state in the same way and fail with the same rejection.
-/

namespace RowScript.Emission

variable {α β γ δ : Type}

/-- In every state both emissions fail alike or both succeed, with results that `R` relates. -/
def Agree (R : α → β → Prop) (x : Emission α) (y : Emission β) : Prop :=
  ∀ s, (∃ r s', outcome x s = (.error r, s') ∧ outcome y s = (.error r, s')) ∨
    ∃ a b s', outcome x s = (.ok a, s') ∧ outcome y s = (.ok b, s') ∧ R a b

namespace Agree

theorem iff_similar {R : α → β → Prop} {x : Emission α} {y : Emission β} :
    Agree R x y ↔ Similar Eq R x y := by
  constructor
  · rintro h s _ rfl
    rcases h s with ⟨r, s', hx, hy⟩ | ⟨a, b, s', hx, hy, hab⟩
    · exact .inl ⟨r, s', s', hx, hy, rfl⟩
    · exact .inr ⟨a, b, s', s', hx, hy, rfl, hab⟩
  · intro h s
    rcases h s s rfl with ⟨r, s', _, hx, hy, rfl⟩ | ⟨a, b, s', _, hx, hy, rfl, hab⟩
    · exact .inl ⟨r, s', hx, hy⟩
    · exact .inr ⟨a, b, s', hx, hy, hab⟩

theorem pure {R : α → β → Prop} {a : α} {b : β} (h : R a b) :
    Agree R (Pure.pure a) (Pure.pure b) := fun s => .inr ⟨_, _, s, rfl, rfl, h⟩

theorem throw {R : α → β → Prop} (r : Rejection) :
    Agree R (MonadExcept.throw r) (MonadExcept.throw r) := fun s => .inl ⟨r, s, rfl, rfl⟩

theorem refl {R : α → α → Prop} (hR : ∀ a, R a a) (x : Emission α) : Agree R x x := by
  intro s
  rcases hx : outcome x s with ⟨r | a, s'⟩
  · exact .inl ⟨r, s', rfl, rfl⟩
  · exact .inr ⟨a, a, s', rfl, rfl, hR a⟩

theorem bind {R : α → β → Prop} {S : γ → δ → Prop} {x : Emission α} {y : Emission β}
    {f : α → Emission γ} {g : β → Emission δ} (h : Agree R x y)
    (hfg : ∀ a b, R a b → Agree S (f a) (g b)) : Agree S (x >>= f) (y >>= g) :=
  iff_similar.mpr ((iff_similar.mp h).bind fun a b hab => iff_similar.mp (hfg a b hab))

theorem bind_right {R : β → γ → Prop} (x : Emission α) {f : α → Emission β} {g : α → Emission γ}
    (h : ∀ a, Agree R (f a) (g a)) : Agree R (x >>= f) (x >>= g) :=
  bind (refl (fun _ => rfl) x) fun a _ hab => hab ▸ h a

theorem guard {R : α → β → Prop} (p : Prop) [Decidable p] (r : Rejection) {f : Unit → Emission α}
    {g : Unit → Emission β} (h : ∀ u, Agree R (f u) (g u)) :
    Agree R (if p then (MonadExcept.throw r >>= f) else f ())
      (if p then (MonadExcept.throw r >>= g) else g ()) :=
  iff_similar.mpr (.guard p r fun u => iff_similar.mp (h u))

end Agree

/-! ## Shapes -/

/-- Fragments between which no check can tell. -/
structure SameShape (f g : Fragment) : Prop where
  type : f.type = g.type
  boundName : f.boundName = g.boundName

theorem SameShape.refl (f : Fragment) : SameShape f f := ⟨rfl, rfl⟩

theorem SameShape.inline (ss ts : List String) (s t : String) (type : DataType) :
    SameShape (.inline ss s type) (.inline ts t type) := ⟨rfl, rfl⟩

theorem similar_bindTemporary_self (binding : String → Binding) :
    Similar Eq (fun name name' => ∀ ss ss', SameShape (.bound name ss .date) (.bound name' ss' .date))
      (bindTemporary binding) (bindTemporary binding) := by
  rintro s _ rfl
  exact .inr ⟨_, _, _, _, rfl, rfl, rfl, fun _ _ => ⟨rfl, rfl⟩⟩

theorem blind_sameShape : Blind Eq SameShape where
  type h := h.type.symm
  inline := .inline
  day _ := similar_bindTemporary_self _
  shift _ := similar_bindTemporary_self _

variable {f g : Fragment}

theorem agree_cast (h : SameShape f g) (target : DataType) :
    Agree SameShape (cast f target) (cast g target) :=
  Agree.iff_similar.mpr (blind_sameShape.cast h target)

theorem agree_expect (h : SameShape f g) (callee : Callee) (expected : Expectation) (holds : Bool) :
    Agree Eq (expect callee expected holds f) (expect callee expected holds g) :=
  Agree.iff_similar.mpr (blind_sameShape.expect h callee expected holds)

theorem agree_changeCase (h : SameShape f g) (callee : Callee) (method : String) :
    Agree SameShape (changeCase callee method f) (changeCase callee method g) :=
  Agree.iff_similar.mpr (blind_sameShape.changeCase h callee method)

theorem agree_cutToDay (h : SameShape f g) : Agree SameShape (cutToDay f) (cutToDay g) :=
  Agree.iff_similar.mpr (blind_sameShape.cutToDay h)

theorem agree_shift {f' g' : Fragment} (h : SameShape f g) (h' : SameShape f' g')
    (direction : Direction) : Agree SameShape (shift direction f f') (shift direction g g') :=
  Agree.iff_similar.mpr (blind_sameShape.shifted h h' direction)

theorem agree_extract (h : SameShape f g) (field : DateField) :
    Agree SameShape (extract field f) (extract field g) :=
  Agree.iff_similar.mpr (blind_sameShape.extract h field)

theorem agree_concat (scope : Scope) (h : SameShape f g) (es : List Expr) :
    Agree SameShape (concat scope (some f) es) (concat scope (some g) es) :=
  Agree.iff_similar.mpr (blind_sameShape.concat
    (fun e _ => Agree.iff_similar.mp (.refl .refl (emit scope e))) (.some h))

end RowScript.Emission
