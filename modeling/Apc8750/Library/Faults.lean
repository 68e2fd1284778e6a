import Mathlib.Logic.Function.Basic

namespace Faults

/-- As it should, with a reported error, or with the power lost. The last two leave something in the
cell. -/
inductive Op (κ : Type*) where
  | ok
  | error (left : κ)
  | cut (left : κ)

inductive Status where
  | done
  | error
  | cut
  deriving DecidableEq

def Op.status : Op κ → Status
  | .ok => .done
  | .error _ => .error
  | .cut _ => .cut

def Op.left (full : κ) : Op κ → κ
  | .ok => full
  | .error left => left
  | .cut left => left

theorem Op.left_of_done {op : Op κ} {full : κ} (h : op.status = .done) : op.left full = full := by
  cases op with
  | ok => rfl
  | error left => cases h
  | cut left => cases h

def perform [DecidableEq ι] (cells : ι → κ) (i : ι) (full : κ) (op : Op κ) : ι → κ :=
  Function.update cells i (op.left full)

variable [DecidableEq ι] {cells : ι → κ} {i j : ι} {full : κ} {op : Op κ}

theorem perform_self : perform cells i full op i = op.left full := Function.update_self ..

theorem perform_of_ne (h : j ≠ i) : perform cells i full op j = cells j :=
  Function.update_of_ne h _ _

end Faults
