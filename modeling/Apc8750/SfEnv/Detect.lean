import Mathlib.Data.Nat.Digits.Lemmas
import Apc8750.SfEnv.Sector
import Apc8750.Library.Division

namespace Apc8750.SfEnv
open Env Division
open Nat (ofDigits)

def polynomial : Nat := 0xedb88320

theorem table_eq : sfCrcTable = (List.range 256).map (bit polynomial)^[8] := by decide +kernel

/-- The table does eight bits at once. -/
theorem crcByte_eq (ha : a < 2 ^ 8) (c : Nat) : crcByte c a = (bit polynomial)^[8] (c ^^^ a) := by
  have low : (c ^^^ a) % 2 ^ 8 < 2 ^ 8 := Nat.mod_lt _ (by decide)
  have split : c ^^^ a = (c ^^^ a) % 2 ^ 8 ^^^ (c >>> 8) <<< 8 := by
    have high : (c ^^^ a) >>> 8 = c >>> 8 := by
      rw [Nat.shiftRight_xor_distrib,Nat.shiftRight_eq_zero _ _ ha,Nat.xor_zero]
    rw [← high,← add_eq_xor low,Nat.shiftRight_eq_div_pow,Nat.mod_add_div]
  have index : (c ^^^ a) &&& 0xff = (c ^^^ a) % 2 ^ 8 := Nat.and_two_pow_sub_one_eq_mod _ 8
  rw [crcByte,index,table_eq,List.getD_eq_getElem?_getD,List.getElem?_map,
    List.getElem?_range (show _ < 256 from low)]
  conv_rhs => rw [split,iterate_xor,iterate_shift]
  rfl

theorem bits_inj (n : Nat) (hc : c < 2 ^ 32) (hd : d < 2 ^ 32)
    (h : (bit polynomial)^[n] c = (bit polynomial)^[n] d) : c = d :=
  iterate_inj (w := 31) (by decide) (by decide) n hc hd h

theorem xor_byte (hc : c < 2 ^ 32) (hx : x < 2 ^ 8) : c ^^^ x < 2 ^ 32 :=
  Nat.xor_lt_two_pow hc (Nat.lt_trans hx (by decide))

theorem crcByte_lt (hc : c < 2 ^ 32) (hx : x < 2 ^ 8) : crcByte c x < 2 ^ 32 := by
  rw [crcByte_eq hx]
  exact (bit_maps (by decide)).iterate 8 (xor_byte hc hx)

section
variable {xs ys : List Nat} (hx : ∀ x ∈ xs, x < 2 ^ 8)
include hx

theorem fold_eq (c : Nat) :
    xs.foldl crcByte c = (bit polynomial)^[8 * xs.length] (c ^^^ ofDigits (2 ^ 8) xs) := by
  induction xs generalizing c with
  | nil => simp
  | cons x xs ih =>
    rw [List.forall_mem_cons] at hx
    rw [List.foldl_cons,ih hx.2,crcByte_eq hx.1,Nat.ofDigits_cons,add_eq_xor hx.1]
    nth_rewrite 1 [← iterate_shift polynomial 8 (ofDigits (2 ^ 8) xs)]
    rw [← iterate_xor,← Function.iterate_add_apply,Nat.xor_assoc]
    rfl

theorem fold_lt (hc : c < 2 ^ 32) : xs.foldl crcByte c < 2 ^ 32 := by
  induction xs generalizing c with
  | nil => exact hc
  | cons x xs ih =>
    rw [List.forall_mem_cons] at hx
    exact ih hx.2 (crcByte_lt hc hx.1)

theorem fold_inj (hc : c < 2 ^ 32) (hd : d < 2 ^ 32)
    (h : xs.foldl crcByte c = xs.foldl crcByte d) : c = d := by
  induction xs generalizing c d with
  | nil => exact h
  | cons x xs ih =>
    rw [List.forall_mem_cons] at hx
    have same := ih hx.2 (crcByte_lt hc hx.1) (crcByte_lt hd hx.1) h
    rw [crcByte_eq hx.1,crcByte_eq hx.1] at same
    exact Nat.xor_left_inj.mp (bits_inj 8 (xor_byte hc hx.1) (xor_byte hd hx.1) same)

/-- Four bytes and the state make a single word, from which they can be told. -/
theorem fold_burst (hc : c < 2 ^ 32) (hy : ∀ y ∈ ys, y < 2 ^ 8) (long : xs.length = ys.length)
    (short : xs.length ≤ 4) (h : xs.foldl crcByte c = ys.foldl crcByte c) : xs = ys := by
  have fits : ∀ {zs : List Nat}, (∀ z ∈ zs, z < 2 ^ 8) → zs.length ≤ 4 →
      c ^^^ ofDigits (2 ^ 8) zs < 2 ^ 32 := by
    intro zs hz hl
    refine Nat.xor_lt_two_pow hc (Nat.lt_of_lt_of_le (Nat.ofDigits_lt_base_pow_length (by decide) hz) ?_)
    rw [← Nat.pow_mul]
    exact Nat.pow_le_pow_right Nat.two_pos (by omega)
  rw [fold_eq hx,fold_eq hy,← long] at h
  exact Nat.ofDigits_inj_of_len_eq (by decide) long hx hy
    (Nat.xor_right_inj.mp (bits_inj _ (fits hx short) (fits hy (long ▸ short)) h))

end

/-- With the table the CRC is what the division of the whole data bit by bit leaves. -/
theorem crc_divides (data : List Nat) (bytes : ∀ x ∈ data, x < 2 ^ 8) :
    envCrc32 data = (bit polynomial)^[8 * data.length] (0xffffffff ^^^ ofDigits (2 ^ 8) data) ^^^
      0xffffffff := by
  rw [envCrc32,fold_eq bytes]

theorem crc_divides_two :
    envCrc32 [1,2] = (bit polynomial)^[16] (0xffffffff ^^^ 513) ^^^ 0xffffffff :=
  crc_divides [1,2] (by decide)

theorem envCrc32_lt {data : List Nat} (bytes : ∀ x ∈ data, x < 2 ^ 8) : envCrc32 data < 2 ^ 32 :=
  Nat.xor_lt_two_pow (fold_lt bytes (by decide)) (by decide)

theorem wordBytes_inj (hc : c < 2 ^ 32) (hd : d < 2 ^ 32) (h : wordBytes c = wordBytes d) : c = d := by
  simp only [wordBytes,List.cons.injEq] at h
  omega

/-- No change of up to four bytes in a row in the data of a copy goes unseen. -/
theorem damage_seen (before xs ys after : List Nat)
    (bytes : ∀ x ∈ before ++ xs ++ after, x < 2 ^ 8) (hy : ∀ y ∈ before ++ ys ++ after, y < 2 ^ 8)
    (long : xs.length = ys.length) (short : xs.length ≤ 4) :
    accepted (wordBytes (envCrc32 (before ++ xs ++ after)) ++ 1 :: (before ++ ys ++ after)) = true ↔
      xs = ys := by
  refine ⟨fun taken => ?_,fun h => h ▸ accepted_image _⟩
  simp only [accepted,crcOk,Bool.and_eq_true,beq_iff_eq] at taken
  have same := wordBytes_inj (envCrc32_lt bytes) (envCrc32_lt hy) taken.2
  simp only [List.forall_mem_append] at bytes hy
  obtain ⟨⟨hbefore,hx⟩,hafter⟩ := bytes
  have hc : before.foldl crcByte 0xffffffff < 2 ^ 32 := fold_lt hbefore (by decide)
  simp only [envCrc32,List.foldl_append,Nat.xor_left_inj] at same
  exact fold_burst hx hc hy.1.2 long short (fold_inj hafter (fold_lt hx hc) (fold_lt hy.1.2 hc) same)

theorem damage_seen_byte :
    accepted (wordBytes (envCrc32 [97, 61, 98]) ++ 1 :: [97, 61, 99]) = false := by
  apply Bool.eq_false_iff.mpr
  intro taken
  exact absurd ((damage_seen [97, 61] [98] [99] [] (by decide) (by decide) rfl (by decide)).mp taken)
    (by decide)

end Apc8750.SfEnv
