import VhdlGates.Proofs.Phrase.Reads

/-! Two readers side by side. -/
namespace VhdlGates

/-- Both computations give a result, and `S` relates the two, or both fail, and `E` relates what
they fail with. -/
inductive Parallel {ε δ α β : Type} (E : ε → δ → Prop) (S : α → β → Prop) :
    Except ε α → Except δ β → Prop
  | ok {a : α} {b : β} (h : S a b) : Parallel E S (.ok a) (.ok b)
  | error {c : ε} {d : δ} (h : E c d) : Parallel E S (.error c) (.error d)

namespace Parallel

variable {ε δ α β γ ζ : Type} {E : ε → δ → Prop} {S : α → β → Prop} {T : γ → ζ → Prop}

lemma pure {a : α} {b : β} (h : S a b) :
    Parallel E S (Pure.pure a : Except ε α) (Pure.pure b : Except δ β) := .ok h

lemma throw {c : ε} {d : δ} (h : E c d) :
    Parallel E S (MonadExcept.throw c : Except ε α) (MonadExcept.throw d : Except δ β) := .error h

lemma bind {x : Except ε α} {y : Except δ β} {f : α → Except ε γ} {g : β → Except δ ζ}
    (hxy : Parallel E S x y) (hfg : ∀ a b, S a b → Parallel E T (f a) (g b)) :
    Parallel E T (x >>= f) (y >>= g) := by
  cases hxy with
  | ok h => exact hfg _ _ h
  | error h => exact .error h

end Parallel

end VhdlGates
