/-! Results of reading off the front of a list. -/
namespace VhdlGates

/-- A value read off the front of a list, and what is left of it, shorter than `bound`. -/
structure Reading (σ α : Type) (bound : Nat) where
  value : α
  rest : List σ
  shorter : rest.length < bound

/-- The same reading against a greater bound. -/
def Reading.widen {σ α : Type} {m n : Nat} (h : m ≤ n) (r : Reading σ α m) : Reading σ α n :=
  ⟨r.value, r.rest, Nat.lt_of_lt_of_le r.shorter h⟩

end VhdlGates
