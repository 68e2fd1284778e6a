import Apc8750.Vout.Model

namespace Apc8750.Vout
open Apc8750.Edid

def mode (k : Nat) : VppTiming := vppVideoModeTable.getD k {}

def modeCount : Nat := 59

def frame (t : VppTiming) : Nat × Nat := (t.hpixel, lines t)

def SizeLe (a b : Nat × Nat) : Prop := a.1 < b.1 ∨ a.1 = b.1 ∧ a.2 ≤ b.2

instance : DecidableRel SizeLe := fun a b =>
  inferInstanceAs (Decidable (a.1 < b.1 ∨ a.1 = b.1 ∧ a.2 ≤ b.2))

theorem frame_eq_iff : frame t = frame u ↔ t.hpixel = u.hpixel ∧ lines t = lines u :=
  Prod.ext_iff

theorem row_eq (h : k < modeCount) : row k = some (mode k) := by
  have within : k < vppVideoModeTable.length := by
    change k < 60
    unfold modeCount at h
    omega
  rw [row,mode,List.getD_eq_getElem?_getD,List.getElem?_eq_getElem within]
  rfl

/-- The rows end in one without a clock, which does not follow an interlaced one. -/
def closed : List VppTiming → Bool
  | [] => false
  | t :: rest => t.pixelClock == 0 ||
    closed rest && (!t.interlaced || rest.head?.all fun u => u.pixelClock != 0)

/-- The result of a search: the row it was left with or a further row with a clock. -/
def Chosen (l : List VppTiming) (i index k : Nat) : Prop :=
  k = index ∨ ∃ n t, k = i + n ∧ l[n]? = some t ∧ t.pixelClock ≠ 0

theorem Chosen.cons (h : Chosen l (i + 1) index k) : Chosen (t :: l) i index k := by
  rcases h with same | ⟨n,u,rfl,found,clock⟩
  · exact .inl same
  · exact .inr ⟨n + 1,u,by omega,by simpa using found,clock⟩

theorem Chosen.here (clock : t.pixelClock ≠ 0) : Chosen (t :: l) i index i :=
  .inr ⟨0,t,rfl,rfl,clock⟩

/-- Its last row, or the first of the interlaced pair that ends it. -/
def bottom (k : Nat) : Bool :=
  if (mode k).interlaced then
    (mode k).option == (mode (k + 1)).option && frame (mode (k + 2)) != frame (mode k)
  else frame (mode (k + 1)) != frame (mode k)

/-- The rows tried from row `k` on: of every smaller size one. -/
def lower (k : Nat) : List Nat :=
  (List.range k).reverse.filter fun j => bottom j && frame (mode j) != frame (mode k)

def tried (k : Nat) : List Nat := k :: lower k

/-- Rows in which a search for the size of the first ends at the first. -/
def settles : List VppTiming → Bool
  | t :: u :: rest =>
    t.pixelClock != 0 && (frame u != frame t ||
      u.pixelClock == t.pixelClock && vppGetVideoModeFps u == vppGetVideoModeFps t &&
        (rest.head?.any fun v => frame v != frame t))
  | _ => false

end Apc8750.Vout
