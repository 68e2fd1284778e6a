import Apc8750.Edid.Support
import Apc8750.Vout.Table

namespace Apc8750.Vout
open Apc8750.Edid Apc8750.Checked

def Supports (info : EdidInfo) (t : VppTiming) : Prop :=
  ∃ i, (edidFindSupport info t.hpixel (lines t) (word (optFps t) i)).1 ≠ 0

def Within (q : Request) (t : VppTiming) : Prop := t.hpixel ≤ q.resx ∧ lines t ≤ q.resy

def Candidate (info : EdidInfo) (q : Request) (k : Nat) : Prop :=
  k < modeCount ∧ Within q (mode k) ∧ Supports info (mode k)

def Largest (info : EdidInfo) (q : Request) (t : VppTiming) : Prop :=
  ∀ k, Candidate info q k → SizeLe (frame (mode k)) (frame t)

instance (q : Request) (t : VppTiming) : Decidable (Within q t) :=
  inferInstanceAs (Decidable (_ ∧ _))

theorem Supports.congr (h : Supports info t) (size : frame u = frame t) (rate : optFps u = optFps t)
    : Supports info u := by
  obtain ⟨width,height⟩ := frame_eq_iff.mp size
  rwa [Supports,width,height,rate]

theorem Within.congr (h : Within q t) (size : frame u = frame t) : Within q u := by
  obtain ⟨width,height⟩ := frame_eq_iff.mp size
  rwa [Within,width,height]

theorem Largest.congr (h : Largest info q t) (size : frame u = frame t) : Largest info q u := by
  rwa [Largest,size]

/-- A timing for the largest row supported, or else a row of the smallest size. -/
def Outcome (info : EdidInfo) (interlace : Bool) (l : List Nat) (r : VppTiming) : Prop :=
  (∃ k ∈ l, Supports info (mode k) ∧
    (∀ j ∈ l, Supports info (mode j) → SizeLe (frame (mode j)) (frame (mode k))) ∧
    frame r = frame (mode k) ∧ Supports info r) ∨
  (∀ j ∈ l, ¬ Supports info (mode j)) ∧
    (interlace = false ∧ r = mode 0 ∨ interlace = true ∧ ¬ Supports info r)

theorem Outcome.cons (h : Outcome info interlace l r) (missed : ¬ Supports info (mode k)) :
    Outcome info interlace (k :: l) r := by
  rcases h with ⟨j,mem,supported,largest,same⟩ | ⟨none,least⟩
  · refine .inl ⟨j,List.mem_cons_of_mem _ mem,supported,?_,same⟩
    rintro i hi supported
    rcases List.mem_cons.mp hi with rfl | later
    · exact absurd supported missed
    · exact largest i later supported
  · refine .inr ⟨?_,least⟩
    rintro i hi
    rcases List.mem_cons.mp hi with rfl | later
    · exact missed
    · exact none i later

def wide (resy : Nat) : Request := ⟨1920, resy, 60, 60, false⟩

end Apc8750.Vout
