import VhdlGates.Fault
import VhdlGates.Notice

/-! The outcome of a stage together with the notices that it leaves behind. -/
namespace VhdlGates

structure Report (α : Type) where
  result : Except Fault α
  notices : List Notice

namespace Report

variable {α β : Type}

def pure (a : α) : Report α := ⟨.ok a, []⟩

def fail (fault : Fault) : Report α := ⟨.error fault, []⟩

/-- A single notice. -/
def note (n : Notice) : Report Unit := ⟨.ok (), [n]⟩

/-- Goes on to the next stage unless this one has failed. -/
def bind (r : Report α) (next : α → Report β) : Report β :=
  match r.result with
  | .ok a => ⟨(next a).result, r.notices ++ (next a).notices⟩
  | .error fault => ⟨.error fault, r.notices⟩

instance : Monad Report where
  pure := Report.pure
  bind := Report.bind

def ofExcept : Except Fault α → Report α
  | .ok a => Report.pure a
  | .error fault => fail fault

end Report

end VhdlGates
