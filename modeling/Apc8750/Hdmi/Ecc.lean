import Mathlib.Algebra.Order.Group.Nat
import Mathlib.Data.List.Basic

namespace Apc8750.Hdmi.Ecc

def bit (buf : Nat → BitVec 8) (i : Nat) : Bool := (buf (i / 8)).getLsbD (i % 8)

/-- What `crc_o[7]` and the input add to `crc[0]`, `crc[6]` and `crc[7]`. -/
def feed (set : Bool) : BitVec 8 := if set then 0xC1 else 0

/-- The register without input, `crc[j]` in bit `j`; `crc[8]` is never read. -/
def turn (c : BitVec 8) : BitVec 8 := c <<< 1 ^^^ feed (c.getLsbD 7)

def crc (x : Nat → Bool) : Nat → BitVec 8
  | 0 => 0
  | i + 1 => turn (crc x i) ^^^ feed (x i)

def hdmiEcc (buf : Nat → BitVec 8) (bitCnt : Nat) : BitVec 8 := (crc (bit buf) bitCnt).reverse

def hdmiWritePacket (header packet : Nat → BitVec 8) (cnt : Nat) (k : Nat) : BitVec 8 :=
  if k < 3 then header k
  else if k = 3 then hdmiEcc header 24
  else if 4 + 8 * (cnt / 7) ≤ k then 0
  else if (k - 4) % 8 = 7 then hdmiEcc (fun j => packet (7 * ((k - 4) / 8) + j)) 56
  else packet (7 * ((k - 4) / 8) + (k - 4) % 8)

def apart (x y : Nat → Bool) (n : Nat) : Nat := (List.range n).countP fun i => x i != y i

def distance (a b : Nat → BitVec 8) (n : Nat) : Nat :=
  apart (bit a) (bit b) n + apart (hdmiEcc a n).getLsbD (hdmiEcc b n).getLsbD 8

def Codeword (n : Nat) (block : Nat → BitVec 8) : Prop := block (n / 8) = hdmiEcc block n

def weight (c : BitVec 8) : Nat := (List.range 8).countP c.getLsbD

/-- What a single bit leaves in the register `k` bits later. -/
def orbit (k : Nat) : BitVec 8 := turn^[k] 0xC1

theorem feed_xor (p q : Bool) : feed (p != q) = feed p ^^^ feed q := by cases p <;> cases q <;> rfl

theorem turn_xor (c d : BitVec 8) : turn (c ^^^ d) = turn c ^^^ turn d := by
  rw [turn,BitVec.shiftLeft_xor_distrib,BitVec.getLsbD_xor,show (c.getLsbD 7 ^^ d.getLsbD 7) = _ from rfl,feed_xor]
  simp only [turn]
  ac_rfl

theorem crc_xor (x y : Nat → Bool) (n : Nat) :
    crc (fun i => x i != y i) n = crc x n ^^^ crc y n := by
  induction n with
  | zero => exact BitVec.xor_self.symm
  | succ n ih =>
    simp only [crc,ih,turn_xor,feed_xor]
    ac_rfl

theorem orbit_succ (k : Nat) : turn (orbit k) = orbit (k + 1) := (Function.iterate_succ_apply' turn k _).symm

inductive Few (n : Nat) : Nat → BitVec 8 → Prop where
  | none : Few n 0 0
  | one (k : Nat) (low : k < n) : Few n 1 (orbit k)
  | two (k l : Nat) (less : k < l) (low : l < n) : Few n 2 (orbit k ^^^ orbit l)

theorem Few.turn (h : Few n w c) : Few (n + 1) w (turn c) := by
  cases h with
  | none => exact .none
  | one k low => exact orbit_succ k ▸ .one (k + 1) (by omega)
  | two k l less low =>
    rw [turn_xor,orbit_succ,orbit_succ]
    exact .two (k + 1) (l + 1) (by omega) (by omega)

theorem Few.add (h : Few n w c) (few : w < 2) : Few (n + 1) (w + 1) (Ecc.turn c ^^^ 0xC1) := by
  rw [BitVec.xor_comm]
  cases h with
  | none => exact .one 0 (by omega)
  | one k low => exact orbit_succ k ▸ .two 0 (k + 1) (by omega) (by omega)
  | two => omega

def ones (x : Nat → Bool) (n : Nat) : Nat := (List.range n).countP x

theorem ones_succ (x : Nat → Bool) (n : Nat) : ones x (n + 1) = ones x n + if x n then 1 else 0 := by
  rw [ones,List.range_succ,List.countP_append,List.countP_singleton]
  rfl

theorem crc_few (few : ones x n ≤ 2) : Few n (ones x n) (crc x n) := by
  induction n with
  | zero => exact .none
  | succ n ih =>
    rw [ones_succ] at few ⊢
    rw [crc]
    cases set : x n with
    | false =>
      simp only [set,Bool.false_eq_true,if_false,Nat.add_zero] at few ⊢
      rw [show turn (crc x n) ^^^ feed false = _ from BitVec.xor_zero]
      exact (ih few).turn
    | true =>
      simp only [set,if_true] at few ⊢
      exact (ih (by omega)).add (by omega)

theorem weight_crc (x : Nat → Bool) (n : Nat) : weight (crc x n) % 2 = ones x n % 2 := by
  have keeps : ∀ c set, weight (turn c ^^^ feed set) % 2 = (weight c + if set then 1 else 0) % 2 := by
    decide +kernel
  induction n with
  | zero => exact (by decide : weight 0 % 2 = 0)
  | succ n ih =>
    have := keeps (crc x n) (x n)
    rw [crc,ones_succ]
    omega

theorem orbit_low : ∀ k < 119, 3 ≤ weight (orbit k) ∧ (0 < k → orbit k ≠ 0xC1) := by
  decide +kernel

theorem turn_injective : Function.Injective turn := by
  have kernel : ∀ c, turn c = 0 → c = 0 := by decide +kernel
  intro c d eq
  exact BitVec.xor_eq_zero_iff.mp (kernel _ (by rw [turn_xor,eq,BitVec.xor_self]; rfl))

theorem orbit_ne (less : k < l) (low : l < 119) : orbit k ≠ orbit l := by
  intro eq
  refine (orbit_low (l - k) (by omega)).2 (by omega) (turn_injective.iterate k ?_)
  rw [orbit,← Function.iterate_add_apply,Nat.add_sub_cancel' less.le]
  exact eq.symm

theorem heavy (size : n ≤ 119) (some : 0 < ones x n) : 4 ≤ ones x n + weight (crc x n) := by
  have parity := weight_crc x n
  have zero : ∀ c, weight c = 0 → c = 0 := by decide +kernel
  by_cases many : 3 ≤ ones x n
  · omega
  have few := crc_few (x := x) (n := n) (by omega)
  generalize ones x n = w at *
  generalize crc x n = c at *
  cases few with
  | none => omega
  | one k low => exact Nat.add_le_add_left (orbit_low k (by omega)).1 1
  | two k l less low =>
    have : weight (orbit k ^^^ orbit l) ≠ 0 := fun none =>
      orbit_ne less (by omega) (BitVec.xor_eq_zero_iff.mp (zero _ none))
    omega

theorem apart_ecc (a b : Nat → BitVec 8) (n : Nat) : apart (hdmiEcc a n).getLsbD (hdmiEcc b n).getLsbD 8 =
    weight (crc (fun i => bit a i != bit b i) n) := by
  have reversed : ∀ c : BitVec 8, weight c.reverse = weight c := by decide +kernel
  have split (c d : BitVec 8) : (fun i => c.reverse.getLsbD i != d.reverse.getLsbD i) = (c ^^^ d).reverse.getLsbD := by
    funext i
    simp [BitVec.getLsbD_reverse,BitVec.getMsbD_xor]
  rw [crc_xor,← reversed,weight,← split]
  rfl

theorem distance_eq (a b : Nat → BitVec 8) (n : Nat) : distance a b n =
    ones (fun i => bit a i != bit b i) n + weight (crc (fun i => bit a i != bit b i) n) :=
  congrArg (_ + ·) (apart_ecc a b n)

theorem Codeword.apart (ha : Codeword (8 * m) a) (hb : Codeword (8 * m) b) :
    apart (bit a) (bit b) (8 * m + 8) = distance a b (8 * m) := by
  have last (x : Nat → BitVec 8) (h : Codeword (8 * m) x) (j : Nat) (hj : j < 8) :
      bit x (8 * m + j) = (hdmiEcc x (8 * m)).getLsbD j := by
    rw [← h,bit,Nat.mul_div_cancel_left m (by decide),show (8 * m + j) / 8 = m by omega,
      show (8 * m + j) % 8 = j by omega]
  rw [distance,Ecc.apart,List.range_add,List.countP_append,List.countP_map]
  refine congrArg (_ + ·) (List.countP_congr fun j hj => ?_)
  have hj := List.mem_range.mp hj
  simp only [Function.comp_apply,last a ha j hj,last b hb j hj]

/-- Strings of up to 119 bits differ in four places with their ECC, so that three flipped bits are
detected. -/
theorem ecc_distance : (∀ n, 1 ≤ n → n ≤ 119 → ∀ a b, (∃ i < n, bit a i ≠ bit b i) → 4 ≤ distance a b n) ∧
    ∀ header packet cnt, Codeword 24 (hdmiWritePacket header packet cnt) ∧
      (∀ i < cnt / 7, Codeword 56 fun k => hdmiWritePacket header packet cnt (4 + 8 * i + k)) ∧
      ∀ m ≤ 14, ∀ block received, Codeword (8 * m) block → 1 ≤ apart (bit block) (bit received) (8 * m + 8) →
        apart (bit block) (bit received) (8 * m + 8) ≤ 3 → ¬ Codeword (8 * m) received := by
  have far (n : Nat) (size : n ≤ 119) (a b : Nat → BitVec 8) (i : Nat) (low : i < n) (ne : bit a i ≠ bit b i) :
      4 ≤ distance a b n := by
    rw [distance_eq]
    exact heavy size (List.countP_pos_iff.mpr ⟨i, List.mem_range.mpr low, by simpa using ne⟩)
  have same (n : Nat) (a b : Nat → BitVec 8) (eq : ∀ k < n, a k = b k) : hdmiEcc a (8 * n) = hdmiEcc b (8 * n) := by
    have bits (m : Nat) (le : m ≤ 8 * n) : crc (bit a) m = crc (bit b) m := by
      induction m with
      | zero => rfl
      | succ m ih => rw [crc, crc, ih (by omega), bit, bit, eq (m / 8) (by omega)]
    exact congrArg BitVec.reverse (bits _ le_rfl)
  refine ⟨fun n _ size a b ⟨i, low, ne⟩ => far n size a b i low ne, fun header packet cnt => ⟨?_, fun i hi => ?_, ?_⟩⟩
  · exact same 3 header _ fun k hk => (if_pos hk).symm
  · have ecc : hdmiWritePacket header packet cnt (4 + 8 * i + 7) = hdmiEcc (fun j => packet (7 * i + j)) 56 := by
      rw [hdmiWritePacket, if_neg (by omega), if_neg (by omega), if_neg (by omega), if_pos (by omega),
        show (4 + 8 * i + 7 - 4) / 8 = i by omega]
    refine ecc.trans (same 7 _ _ fun k hk => ?_)
    rw [hdmiWritePacket, if_neg (by omega), if_neg (by omega), if_neg (by omega), if_neg (by omega),
      show (4 + 8 * i + k - 4) / 8 = i by omega, show (4 + 8 * i + k - 4) % 8 = k by omega]
  intro m small block received first some few second
  rw [first.apart second] at some few
  by_cases differ : ∃ i < 8 * m, bit block i ≠ bit received i
  · obtain ⟨i, low, ne⟩ := differ
    have := far _ (by omega) block received i low ne
    omega
  have none : ones (fun i => bit block i != bit received i) (8 * m) = 0 := by
    refine List.countP_eq_zero.mpr fun i hi set => differ ⟨i, List.mem_range.mp hi, by simpa using set⟩
  have few := crc_few (x := fun i => bit block i != bit received i) (n := 8 * m) (by omega)
  rw [distance_eq, none] at some
  rw [none] at few
  generalize crc _ _ = c at *
  cases few
  exact absurd some (by decide)

theorem ecc_distance_one : 4 ≤ distance (fun _ => 0) (fun _ => 1) 1 ∧
    ¬ Codeword (8 * 3) fun k => if k = 0 then 7 else 0 :=
  ⟨ecc_distance.1 1 (by decide) (by decide) _ _ ⟨0, by decide, by decide⟩,
    (ecc_distance.2 (fun _ => 0) (fun _ => 0) 0).2.2 3 (by decide) (fun _ => 0) _
      (show (0 : BitVec 8) = hdmiEcc (fun _ => 0) 24 by decide +kernel) (by decide) (by decide)⟩

end Apc8750.Hdmi.Ecc
