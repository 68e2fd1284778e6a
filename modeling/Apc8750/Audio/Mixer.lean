import Mathlib.Data.Rat.Floor

namespace Apc8750.Audio.Mixer

/-- The fields of `float_data_t`. -/
def frac (w : BitVec 32) : Nat := (w.extractLsb' 0 23).toNat
def exp (w : BitVec 32) : Nat := (w.extractLsb' 23 8).toNat
def sign (w : BitVec 32) : Bool := w.getLsbD 31

def halfword (src : Nat → BitVec 8) (i : Nat) : BitVec 16 := src (2 * i + 1) ++ src (2 * i)

def word (src : Nat → BitVec 8) (i : Nat) : BitVec 32 := halfword src (2 * i + 1) ++ halfword src (2 * i)

def halves (w : BitVec 32) : List (BitVec 16) := [w.setWidth 16, (w >>> 16).setWidth 16]

def both (data : BitVec 16) : BitVec 32 := data.setWidth 32 <<< 16 ||| data.setWidth 32

def value (w : BitVec 32) : ℚ :=
  (if sign w then -1 else 1) * (if exp w = 0 then frac w else frac w + 2 ^ 23) *
    2 ^ ((max (exp w) 1 : Int) - 150)

def trunc (q : ℚ) : Int := if 0 ≤ q then ⌊q⌋ else ⌈q⌉

/-- The shift has a meaning, and the result needs no clamping. -/
structure Fits (w : BitVec 32) : Prop where
  shift : 104 ≤ exp w ∧ exp w ≤ 135
  range : -32768 ≤ trunc (32768 * value w) ∧ trunc (32768 * value w) ≤ 32767

def bytes (w : BitVec 32) (i : Nat) : BitVec 8 := w.extractLsb' (8 * (i % 4)) 8

end Apc8750.Audio.Mixer
