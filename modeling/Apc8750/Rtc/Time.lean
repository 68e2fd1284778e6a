import Apc8750.Library.Masks
import Apc8750.Rtc.Alarm

namespace Apc8750.Rtc.Time

structure Tm extends RtcTime where
  wday : Int
  deriving DecidableEq

/-- The current time and date of the clock, and the values written to `RTTS` and `RTDS`. -/
structure Clock where
  rtct : BitVec 32
  rtcd : BitVec 32
  rtts : List (BitVec 32) := []
  rtds : List (BitVec 32) := []

def einval : Int := -22
def ebusy : Int := -16

def bcd2bin (x : BitVec 32) : Int := (x &&& 0x0F).toNat + (x >>> 4).toNat * 10

/-- The macros `RTTS_…` and `RTDS_…`. -/
def pack (x : Int) (shift : Nat) (mask : BitVec 32) : BitVec 32 := bin2bcd x <<< shift &&& mask

/-- The macros `RTCT_…` and `RTCD_…`. -/
def unpack (x : BitVec 32) (shift : Nat) (mask : BitVec 32) : Int := bcd2bin ((x &&& mask) >>> shift)

def timeValue (t : Tm) : BitVec 32 :=
  pack t.sec 0 0x7F ||| pack t.min 7 0x3F80 ||| pack t.hour 14 0xFC000 ||| pack t.wday 20 0x700000

/-- The century has one bit. -/
def dateValue (t : Tm) : BitVec 32 :=
  pack t.mday 0 0x3F ||| pack (t.mon + 1) 6 0x7C0 ||| pack (t.year % 100) 11 0x7F800 |||
    pack (t.year / 100 - 1) 19 0x80000

/-- The clock takes what is written to `RTTS` at once. -/
def wmtSetTime (c : Clock) (value : BitVec 32) (busy : Bool) : Int × Clock :=
  if busy then (ebusy, c)
  else (0, { c with rtct := value &&& 0x7FFFFF, rtts := c.rtts ++ [value &&& 0x7FFFFF] })

def wmtSetDate (c : Clock) (value : BitVec 32) (busy : Bool) : Int × Clock :=
  if busy then (ebusy, c)
  else (0, { c with rtcd := value &&& 0xFFFFF, rtds := c.rtds ++ [value &&& 0xFFFFF] })

def Valid (t : Tm) : Prop :=
  (0 ≤ t.sec ∧ t.sec ≤ 59) ∧ (0 ≤ t.min ∧ t.min ≤ 59) ∧ (0 ≤ t.hour ∧ t.hour ≤ 23) ∧
    (0 ≤ t.wday ∧ t.wday ≤ 6) ∧ (0 ≤ t.mday ∧ t.mday ≤ 31) ∧ (0 ≤ t.mon ∧ t.mon ≤ 11) ∧ 100 ≤ t.year

instance : Decidable (Valid t) := inferInstanceAs (Decidable (_ ∧ _))

/-- `timeBusy` and `dateBusy` are the bits `RTWS_TIMESET` and `RTWS_DATESET`. -/
def wmtRtcSetTime (c : Clock) (t : Tm) (timeBusy dateBusy : Bool) : Int × Clock :=
  if Valid t then
    let (ret, c) := wmtSetTime c (timeValue t) timeBusy
    if ret ≠ 0 then (ret, c) else wmtSetDate c (dateValue t) dateBusy
  else (einval, c)

def wmtRtcReadTime (c : Clock) : Except Int Tm :=
  if c.rtct &&& 0x80000000 ≠ 0 ∨ c.rtcd &&& 0x80000000 ≠ 0 then .error einval
  else .ok
    { sec := unpack c.rtct 0 0x7F
      min := unpack c.rtct 7 0x3F80
      hour := unpack c.rtct 14 0xFC000
      wday := unpack c.rtct 20 0x700000
      mday := unpack c.rtcd 0 0x3F
      mon := unpack c.rtcd 6 0x7C0 - 1
      year := unpack c.rtcd 11 0x7F800 + (unpack c.rtcd 19 0x80000 * 100 + 100) }

theorem unpack_pack {n : Nat} (own : v &&& mask = pack x shift mask) (low : 0 ≤ x) (high : x < n)
    (all : ∀ k : Fin n, bcd2bin (pack k shift mask >>> shift) = k) : unpack v shift mask = x := by
  obtain ⟨k,rfl⟩ := Int.eq_ofNat_of_zero_le low
  rw [unpack,own]
  exact all ⟨k,by omega⟩

theorem bcd2bin_eq (w : BitVec 32) : bcd2bin w = w.toNat % 16 + w.toNat / 16 * 10 := by
  have low : w.toNat &&& 15 = w.toNat % 16 := Nat.and_two_pow_sub_one_eq_mod w.toNat 4
  simp [bcd2bin,low,Nat.shiftRight_eq_div_pow]

theorem unpack_century (own : v &&& 0x80000 = pack x 19 0x80000) : unpack v 19 0x80000 = x % 2 := by
  have field := Masks.and_field (((x / 10 * 16 + x % 10) % 2 ^ 32).toNat * 2 ^ 19 % 2 ^ 32) 19 1
  have bit : (pack x 19 0x80000 >>> 19).toNat = ((x / 10 * 16 + x % 10) % 2 ^ 32).toNat % 2 := by
    simp only [pack,bin2bcd,BitVec.toNat_ushiftRight,BitVec.toNat_and,BitVec.toNat_shiftLeft,
      BitVec.toNat_ofInt,Nat.shiftLeft_eq,Nat.shiftRight_eq_div_pow]
    simp at field ⊢
    omega
  rw [unpack,own,bcd2bin_eq,bit]
  omega

theorem timeValue_fields (t : Tm) : (timeValue t &&& 0x7FFFFF) &&& 0x80000000 = 0 ∧
      timeValue t &&& 0x7FFFFF &&& 0x7F = pack t.sec 0 0x7F ∧
      timeValue t &&& 0x7FFFFF &&& 0x3F80 = pack t.min 7 0x3F80 ∧
      timeValue t &&& 0x7FFFFF &&& 0xFC000 = pack t.hour 14 0xFC000 ∧
      timeValue t &&& 0x7FFFFF &&& 0x700000 = pack t.wday 20 0x700000 := by
  simp [timeValue,pack,BitVec.and_or_distrib_right,BitVec.and_assoc]

theorem dateValue_fields (t : Tm) : (dateValue t &&& 0xFFFFF) &&& 0x80000000 = 0 ∧
      dateValue t &&& 0xFFFFF &&& 0x3F = pack t.mday 0 0x3F ∧
      dateValue t &&& 0xFFFFF &&& 0x7C0 = pack (t.mon + 1) 6 0x7C0 ∧
      dateValue t &&& 0xFFFFF &&& 0x7F800 = pack (t.year % 100) 11 0x7F800 ∧
      dateValue t &&& 0xFFFFF &&& 0x80000 = pack (t.year / 100 - 1) 19 0x80000 := by
  simp [dateValue,pack,BitVec.and_or_distrib_right,BitVec.and_assoc]

theorem read_set (valid : Valid t) (time : c.rtct = timeValue t &&& 0x7FFFFF)
    (date : c.rtcd = dateValue t &&& 0xFFFFF) :
    wmtRtcReadTime c = .ok { t with year := t.year % 100 + ((t.year / 100 - 1) % 2 * 100 + 100) } := by
  obtain ⟨sec,min,hour,wday,mday,mon,year⟩ := valid
  obtain ⟨timeOk,secOwn,minOwn,hourOwn,wdayOwn⟩ := timeValue_fields t
  obtain ⟨dateOk,mdayOwn,monOwn,yearOwn,centOwn⟩ := dateValue_fields t
  rw [wmtRtcReadTime,time,date,timeOk,dateOk]
  rw [unpack_pack (n := 60) secOwn sec.1 (by omega) (by decide),
    unpack_pack (n := 60) minOwn min.1 (by omega) (by decide),
    unpack_pack (n := 24) hourOwn hour.1 (by omega) (by decide),
    unpack_pack (n := 7) wdayOwn wday.1 (by omega) (by decide),
    unpack_pack (n := 32) mdayOwn mday.1 (by omega) (by decide),
    unpack_pack (n := 13) monOwn (by omega) (by omega) (by decide),
    unpack_pack (n := 100) yearOwn (by omega) (by omega) (by decide),
    unpack_century centOwn]
  simp

/-- A time is read back exactly if it is before 2200; a failed call writes nothing unless only the
date is busy. -/
theorem time_round_trip (c : Clock) (t : Tm) (timeBusy dateBusy : Bool) :
    ((wmtRtcSetTime c t timeBusy dateBusy).1 = 0 →
      (wmtRtcReadTime (wmtRtcSetTime c t timeBusy dateBusy).2 = .ok t ↔ t.year < 300)) ∧
    ((wmtRtcSetTime c t timeBusy dateBusy).1 ≠ 0 →
      ((wmtRtcSetTime c t timeBusy dateBusy).2.rtts = c.rtts ∧
        (wmtRtcSetTime c t timeBusy dateBusy).2.rtds = c.rtds ↔
      ¬ (Valid t ∧ timeBusy = false ∧ dateBusy = true))) := by
  unfold wmtRtcSetTime
  by_cases valid : Valid t
  · cases timeBusy <;> cases dateBusy <;> simp [valid, wmtSetTime, wmtSetDate, ebusy]
    have hundreds := valid.2.2.2.2.2.2
    rw [read_set valid rfl rfl]
    constructor
    · intro same
      have years := congrArg (fun r => r.toOption.map fun u : Tm => u.year) same
      simp [Except.toOption] at years
      omega
    · intro early
      have year : t.year % 100 + ((t.year / 100 - 1) % 2 * 100 + 100) = t.year := by omega
      simp [year]
  · simp [valid, einval]

/-- 2200 is read as 2000; and with the date busy a call that fails sets the time. -/
theorem time_not_kept : ∃ c d : Clock,
    wmtRtcSetTime ⟨0, 0, [], []⟩ ⟨⟨0, 0, 0, 1, 0, 300⟩, 3⟩ false false = (0, c) ∧
      wmtRtcReadTime c = .ok ⟨⟨0, 0, 0, 1, 0, 100⟩, 3⟩ ∧
    wmtRtcSetTime ⟨0, 0, [], []⟩ ⟨⟨0, 30, 7, 1, 0, 112⟩, 0⟩ false true = (ebusy, d) ∧
      d.rtts = [0x1D800] := by
  refine ⟨_, _, rfl, ?_, rfl, ?_⟩ <;> decide

end Apc8750.Rtc.Time
