import Apc8750.Mtd.Hamming

namespace Apc8750.Mtd.Hamming
open Function

def clearFirst (bs : List Nat) (banks : Nat → Option (Fin 512 × Fin 8)) : Nat → Option (Fin 512 × Fin 8) :=
  match bs.find? fun b => (banks b).isSome with
  | none => banks
  | some b => update banks b none

section Clear

variable {banks : Nat → Option (Fin 512 × Fin 8)} {bs : List Nat} {b : Nat}

theorem clearFirst_cons : clearFirst (b :: bs) banks =
    if (banks b).isSome then update banks b none else clearFirst bs banks := by
  unfold clearFirst
  rw [List.find?_cons]
  cases (banks b).isSome <;> rfl

theorem clearFirst_of_notMem (out : b ∉ bs) : clearFirst bs banks b = banks b := by
  unfold clearFirst
  cases found : bs.find? fun b => (banks b).isSome with
  | none => rfl
  | some first =>
    have other : b ≠ first := by
      rintro rfl
      exact out (List.mem_of_find?_eq_some found)
    exact update_of_ne other _ _

theorem clearFirst_iff : (∀ b ∈ bs, clearFirst bs banks b = none) ↔
    ∀ a ∈ bs, ∀ b ∈ bs, banks a ≠ none → banks b ≠ none → a = b := by
  unfold clearFirst
  cases found : bs.find? fun b => (banks b).isSome with
  | none =>
    have clean : ∀ b ∈ bs, banks b = none := by simpa using found
    exact iff_of_true clean fun a mem _ _ fails => absurd (clean a mem) fails
  | some first =>
    have mem := List.mem_of_find?_eq_some found
    have set : (banks first).isSome := List.find?_some (p := fun b => (banks b).isSome) found
    have fails : banks first ≠ none := Option.isSome_iff_ne_none.mp set
    constructor
    · intro cleared a ha b hb fails_a fails_b
      have only : ∀ b ∈ bs, banks b ≠ none → b = first := by
        intro b hb fails_b
        by_contra other
        exact fails_b (update_of_ne other none banks ▸ cleared b hb)
      rw [only a ha fails_a,only b hb fails_b]
    intro single b hb
    by_cases same : b = first
    · rw [same]
      exact update_self _ _ _
    · refine (update_of_ne same _ _).trans ?_
      by_contra fails_b
      exact same (single b hb first mem fails_b fails)

end Clear

structure Mends (banks : Nat → Option (Fin 512 × Fin 8)) (page area : Nat → BitVec 8) (bs : List Nat) (s : State) :
    Prop where
  data : s.dmabuf = damage (clearFirst bs banks) page
  area : s.fifo = area

section Mends

variable {c : Controller} {e : Errors} {banks : Nat → Option (Fin 512 × Fin 8)}
  {page area : Nat → BitVec 8} {bs : List Nat} {b : Nat} {s rest : State} {mask : BitVec 32}

theorem Mends.step (h : Reports c e) (lt : b < 8) (test : (c.bankStat &&& mask != 0) = (e.banks b).isSome)
    (same : banks b = e.banks b) (select : s.misc.setWidth 2 = BitVec.ofNat 2 (b / 2))
    (data : s.dmabuf = damage banks page) (fifo : s.fifo = area) (others : Mends banks page area bs rest) :
    Mends banks page area (b :: bs) (if c.bankStat &&& mask != 0 then correctBank c b s else rest) := by
  rw [test]
  cases fails : e.banks b with
  | none =>
    refine ⟨?_,others.area⟩
    rw [clearFirst_cons,same,fails]
    exact others.data
  | some flip =>
    obtain ⟨byte,bit⟩ := flip
    obtain ⟨byte_eq,bit_eq⟩ := h.position b lt byte bit fails
    refine ⟨?_,fifo⟩
    rw [clearFirst_cons,same,fails]
    change correctAt s.dmabuf _ _ = damage (update banks b none) page
    rw [select]
    change correctAt s.dmabuf (512 * b + (c.parity b &&& 0x1ff).toNat) ((c.parity b >>> 9) &&& 0x07).toNat = _
    rw [byte_eq,bit_eq,data]
    exact correct_damage (same.trans fails)

theorem Mends.nil (data : s.dmabuf = damage banks page) (fifo : s.fifo = area) : Mends banks page area [] s :=
  ⟨data,fifo⟩

theorem Reports.test (h : Reports c e) (lt : b < 8) :
    (c.bankStat &&& 1#32 <<< (4 * b + 1) != 0) = (e.banks b).isSome :=
  Masks.and_mask_bne.trans (h.failing b lt)

theorem correctFront_mends (h : Reports c e) (select : s.misc.setWidth 2 = 0#2)
    (data : s.dmabuf = damage e.banks page) (fifo : s.fifo = area) :
    Mends e.banks page area [0,1] (correctFront c s) := by
  have last := Mends.nil data fifo
  have second := last.step h (by decide) (h.test (b := 1) (by decide)) rfl select data fifo
  exact second.step h (by decide) (h.test (b := 0) (by decide)) rfl select data fifo

theorem correctFront_misc : (correctFront c s).misc = s.misc := by
  unfold correctFront
  split
  · rfl
  · split <;> rfl

variable (behind : ∀ b, 2 ≤ b → banks b = e.banks b)

include behind

section
variable (h : Reports c e) (select : s.misc.setWidth 2 = 1#2) (data : s.dmabuf = damage banks page)
  (fifo : s.fifo = area)
include h select data fifo

theorem correctBehind2048_mends :
    Mends banks page area [2,3] (correctBehind2048 c s) := by
  have last := Mends.nil data fifo
  have second := last.step h (by decide) (h.test (b := 3) (by decide)) (behind 3 (by decide)) select data fifo
  exact second.step h (by decide) (h.test (b := 2) (by decide)) (behind 2 (by decide)) select data fifo

theorem correctBehind4096_mends :
    Mends banks page area [2,3,4,5,6,7] (correctBehind4096 c s) := by
  have select2 : ((s.misc &&& 0xFC) ||| 0x2).setWidth 2 = 2#2 := by
    generalize s.misc = m
    revert m
    decide
  have select3 : (s.misc ||| 0x3).setWidth 2 = 3#2 := by
    generalize s.misc = m
    revert m
    decide
  have none := Mends.nil data fifo
  have eighth := none.step (s := { s with misc := s.misc ||| 0x3 }) h (by decide) (h.test (b := 7) (by decide))
    (behind 7 (by decide)) select3 data fifo
  have seventh := eighth.step (s := { s with misc := s.misc ||| 0x3 }) h (by decide) (h.test (b := 6) (by decide))
    (behind 6 (by decide)) select3 data fifo
  have sixth := seventh.step (s := { s with misc := (s.misc &&& 0xFC) ||| 0x2 }) h (by decide)
    (h.test (b := 5) (by decide)) (behind 5 (by decide)) select2 data fifo
  have fifth := sixth.step (s := { s with misc := (s.misc &&& 0xFC) ||| 0x2 }) h (by decide)
    (h.test (b := 4) (by decide)) (behind 4 (by decide)) select2 data fifo
  have fourth := fifth.step h (by decide) (h.test (b := 3) (by decide)) (behind 3 (by decide)) select data fifo
  exact fourth.step h (by decide) (h.test (b := 2) (by decide)) (behind 2 (by decide)) select data fifo

end

end Mends

def Errors.Within (e : Errors) (writesize : Nat) : Prop := ∀ b, e.banks b ≠ none → b < writesize / 512

/-- One failed bank at most in each pair, and the redundant area only without any. -/
structure Restorable (e : Errors) : Prop where
  front : e.banks 0 = none ∨ e.banks 1 = none
  behind : ∀ a b, 2 ≤ a → 2 ≤ b → e.banks a ≠ none → e.banks b ≠ none → a = b
  redundant : e.redundant = none ∨ ∀ b, e.banks b = none

section Restore

variable {c : Controller} {e : Errors} {page area : Nat → BitVec 8} {writesize n : Nat} {s : State}

theorem failing_mask (mask : BitVec 32) (h : Reports c e) (le : n ≤ 8)
    (bits : ∀ i < 32, mask.getLsbD i = true ↔ i % 4 = 1 ∧ i < 4 * n) :
    (c.bankStat &&& mask != 0) = true ↔ ∃ b < n, e.banks b ≠ none := by
  rw [Masks.and_bne_iff]
  constructor
  · rintro ⟨i,set,masked⟩
    obtain ⟨second,low⟩ := (bits i (BitVec.lt_of_getLsbD set)).mp masked
    refine ⟨i / 4,by omega,?_⟩
    rw [← Option.isSome_iff_ne_none,← h.failing (i / 4) (by omega)]
    rwa [show 4 * (i / 4) + 1 = i by omega]
  · rintro ⟨b,low,fails⟩
    refine ⟨4 * b + 1,?_,(bits _ (by omega)).mpr (by omega)⟩
    rw [h.failing b (by omega)]
    exact Option.isSome_iff_ne_none.mpr fails

section
variable (size : writesize = 512 ∨ writesize = 2048 ∨ writesize = 4096) (h : Reports c e)
include size h

theorem dataError_iff (within : e.Within writesize) :
    dataError c writesize = true ↔ ∃ b, e.banks b ≠ none := by
  have reached : ∀ n, writesize / 512 ≤ n → ((∃ b < n, e.banks b ≠ none) ↔ ∃ b, e.banks b ≠ none) := by
    intro n le
    constructor
    · rintro ⟨b,_,fails⟩
      exact ⟨b,fails⟩
    · rintro ⟨b,fails⟩
      exact ⟨b,(within b fails).trans_le le,fails⟩
  rcases size with rfl | rfl | rfl
  · rw [← reached 2 (by decide),← failing_mask 0x22 h (by decide) (by decide)]
    simp [dataError]
  · rw [← reached 4 (by decide),← failing_mask 0x2222 h (by decide) (by decide)]
    simp [dataError]
  · rw [← reached 8 (by decide),← failing_mask 0x22222222 h (by decide) (by decide)]
    simp [dataError]

theorem correctData_mends (data : s.dmabuf = damage e.banks page) (fifo : s.fifo = area) :
    Mends (clearFirst [0,1] e.banks) page area (List.range' 2 (writesize / 512 - 2)) (correctData c writesize s) := by
  have select0 : (s.misc &&& 0xfc).setWidth 2 = 0#2 := by
    generalize s.misc = m
    revert m
    decide
  have select1 : ((s.misc &&& 0xfc) ||| 0x1).setWidth 2 = 1#2 := by
    generalize s.misc = m
    revert m
    decide
  have front : Mends e.banks page area [0,1] (correctFront c { s with misc := s.misc &&& 0xfc }) :=
    correctFront_mends h select0 data fifo
  have behind : ∀ b, 2 ≤ b → clearFirst [0,1] e.banks b = e.banks b :=
    fun b le => clearFirst_of_notMem (by simp; omega)
  have misc : (correctFront c { s with misc := s.misc &&& 0xfc }).misc = s.misc &&& 0xfc := correctFront_misc
  simp only [correctData]
  rcases size with rfl | rfl | rfl
  · exact Mends.nil front.data front.area
  · exact correctBehind2048_mends behind h (by simp only [misc]; exact select1) front.data front.area
  · exact correctBehind4096_mends behind h (by simp only [misc]; exact select1) front.data front.area

end

theorem cleared_iff (within : e.Within writesize) :
    (∀ b < writesize / 512, clearFirst (List.range' 2 (writesize / 512 - 2)) (clearFirst [0,1] e.banks) b = none) ↔
      (e.banks 0 = none ∨ e.banks 1 = none) ∧
        ∀ a b, 2 ≤ a → 2 ≤ b → e.banks a ≠ none → e.banks b ≠ none → a = b := by
  unfold Errors.Within at within
  generalize writesize / 512 = n at within ⊢
  have front_only : ∀ b < 2, clearFirst (List.range' 2 (n - 2)) (clearFirst [0,1] e.banks) b =
      clearFirst [0,1] e.banks b := by
    intro b lt
    apply clearFirst_of_notMem
    rw [List.mem_range'_1]
    omega
  have same : ∀ b, 2 ≤ b → clearFirst [0,1] e.banks b = e.banks b :=
    fun b le => clearFirst_of_notMem (by simp; omega)
  have mem_behind : ∀ b, b ∈ List.range' 2 (n - 2) ↔ 2 ≤ b ∧ b < n := by
    intro b
    rw [List.mem_range'_1]
    omega
  constructor
  · intro cleared
    constructor
    · by_contra both
      push Not at both
      have two := within 1 both.2
      have front : ∀ b ∈ [0,1], clearFirst [0,1] e.banks b = none := by
        intro b mem
        have lt : b < 2 := by simp at mem; omega
        rw [← front_only b lt]
        exact cleared b (by omega)
      exact absurd (clearFirst_iff.mp front 0 (by simp) 1 (by simp) both.1 both.2) (by decide)
    · intro a b ha hb fails_a fails_b
      have behind := clearFirst_iff.mp fun b mem => cleared b ((mem_behind b).mp mem).2
      refine behind a ((mem_behind a).mpr ⟨ha,within a fails_a⟩) b ((mem_behind b).mpr ⟨hb,within b fails_b⟩) ?_ ?_
      · rwa [same a ha]
      · rwa [same b hb]
  · rintro ⟨front,behind⟩ b lt
    by_cases low : b < 2
    · rw [front_only b low]
      refine clearFirst_iff.mpr ?_ b (by simp; omega)
      intro a ha b hb fails_a fails_b
      simp only [List.mem_cons,List.not_mem_nil,or_false] at ha hb
      rcases ha with rfl | rfl <;> rcases hb with rfl | rfl <;> simp_all
    refine clearFirst_iff.mpr ?_ b ((mem_behind b).mpr ⟨by omega,lt⟩)
    intro a ha b hb fails_a fails_b
    have two_a := ((mem_behind a).mp ha).1
    have two_b := ((mem_behind b).mp hb).1
    rw [same a two_a] at fails_a
    rw [same b two_b] at fails_b
    exact behind a b two_a two_b fails_a fails_b

structure Restored (writesize : Nat) (page area : Nat → BitVec 8) (s : State) : Prop where
  data : ∀ a < writesize, s.dmabuf a = page a
  redundant : ∀ a < 64, s.fifo a = area a

theorem restored_iff (size : writesize = 512 ∨ writesize = 2048 ∨ writesize = 4096) (h : Reports c e)
    (within : e.Within writesize) (data : s.dmabuf = damage e.banks page)
    (fifo : s.fifo = damageRedundant e.redundant area) :
    Restored writesize page area (nandHammingEcc1bitCorrect c writesize s) ↔ Restorable e := by
  have no_data : ¬ (c.bankStat &&& 0x5555 != 0) = true := by
    rw [failed_mask]
    rintro ⟨b,lt,uncorrectable⟩
    exact h.correctable b (by omega) uncorrectable
  have no_redundant : ¬ (c.reduntStat &&& 0x05 != 0) = true := mt redundant_mask.mp h.reduntCorrectable
  unfold nandHammingEcc1bitCorrect
  rw [if_neg no_data,if_neg no_redundant]
  by_cases some_bank : ∃ b, e.banks b ≠ none
  · rw [if_pos ((dataError_iff size h within).mpr some_bank)]
    obtain ⟨mended,untouched⟩ := correctData_mends size h data fifo
    have whole : writesize = 512 * (writesize / 512) := by omega
    have page_iff : (∀ a < 512 * (writesize / 512), damage (clearFirst (List.range' 2 (writesize / 512 - 2))
        (clearFirst [0,1] e.banks)) page a = page a) ↔ _ := damage_eq_iff
    rw [← whole,cleared_iff within] at page_iff
    have none_iff : (e.redundant = none ∨ ∀ b, e.banks b = none) ↔ e.redundant = none := by
      refine or_iff_left fun clean => ?_
      obtain ⟨b,fails⟩ := some_bank
      exact fails (clean b)
    constructor
    · rintro ⟨all,area_all⟩
      rw [mended] at all
      rw [untouched] at area_all
      obtain ⟨front,behind⟩ := page_iff.mp all
      exact ⟨front,behind,none_iff.mpr (damageRedundant_eq_iff.mp area_all)⟩
    rintro ⟨front,behind,redundant⟩
    refine ⟨?_,?_⟩
    · rw [mended]
      exact page_iff.mpr ⟨front,behind⟩
    · rw [untouched]
      exact damageRedundant_eq_iff.mpr (none_iff.mp redundant)
  · rw [if_neg (mt (dataError_iff size h within).mp some_bank)]
    push Not at some_bank
    refine iff_of_true ?_ ⟨.inl (some_bank 0),fun a _ _ _ fails => absurd (some_bank a) fails,.inr some_bank⟩
    have test : (c.reduntStat &&& 0x02 != 0) = e.redundant.isSome := Masks.and_mask_bne.trans h.redundant
    rw [test]
    rw [damage_none some_bank] at data
    cases error : e.redundant with
    | none =>
      rw [error] at fifo
      exact ⟨fun a _ => congrFun data a,fun a _ => congrFun fifo a⟩
    | some flip =>
      obtain ⟨byte,bit⟩ := flip
      obtain ⟨byte_eq,bit_eq⟩ := h.reduntPosition byte bit error
      rw [error] at fifo
      refine ⟨fun a _ => congrFun data a,fun a _ => ?_⟩
      change correctAt s.fifo _ _ a = area a
      rw [byte_eq,bit_eq,fifo,correct_redundant]

end Restore

/-- Correctable errors are repaired exactly when `Restorable`; others are counted only in some
banks. -/
theorem hamming_correct (writesize : Nat) (size : writesize = 512 ∨ writesize = 2048 ∨ writesize = 4096) :
    (∀ c e s page area, Reports c e → e.Within writesize → s.dmabuf = damage e.banks page →
        s.fifo = damageRedundant e.redundant area →
        (Restored writesize page area (nandHammingEcc1bitCorrect c writesize s) ↔ Restorable e)) ∧
      ∀ c s, ((∃ b < writesize / 512, c.Uncorrectable b) →
          (nandHammingEcc1bitCorrect c writesize s).failed = s.failed + 1) ↔
        ((∃ b < writesize / 512, c.Uncorrectable b) →
          (∃ b < 4, c.Uncorrectable b) ∨ c.RedundantUncorrectable) := by
  constructor
  · intro c e s page area h within data fifo
    exact restored_iff size h within data fifo
  · intro c s
    rw [failed_iff]

def firstBits (bankStat : BitVec 32) : Controller := ⟨bankStat, 0, fun _ => 0, fun _ => 0, 0⟩

def flipFirst (fails : Nat → Bool) : Errors :=
  ⟨fun b => if fails b then some (⟨0, Nat.succ_pos _⟩, ⟨0, Nat.succ_pos _⟩) else none, none⟩

theorem reports_firstBits (failing : ∀ b < 8, bankStat.getLsbD (4 * b + 1) = fails b)
    (correctable : ∀ b < 8, bankStat.getLsbD (4 * b) = false ∧ bankStat.getLsbD (4 * b + 2) = false) :
    Reports (firstBits bankStat) (flipFirst fails) where
  failing b lt := by
    rw [flipFirst]
    cases set : fails b <;> simp [firstBits,failing b lt,set]
  correctable b lt := by
    obtain ⟨low,high⟩ := correctable b lt
    simp [Controller.Uncorrectable,firstBits,low,high]
  position b lt byte bit fail := by
    have zero : (firstBits bankStat).parity b = 0 := by
      unfold Controller.parity firstBits
      split <;> rfl
    simp only [flipFirst] at fail
    split at fail
    · cases fail
      rw [zero]
      exact ⟨rfl,rfl⟩
    · cases fail
  redundant := by simp [firstBits,flipFirst]
  reduntCorrectable := by simp [Controller.RedundantUncorrectable,firstBits]
  reduntPosition _ _ fail := by cases fail

theorem hamming_correct_third :
    Restored 2048 (fun _ => 0) (fun _ => 0) (nandHammingEcc1bitCorrect (firstBits 0x0200) 2048
      ⟨0, damage (flipFirst (· == 2)).banks fun _ => 0, fun _ => 0, 0⟩) := by
  refine ((hamming_correct 2048 (.inr (.inl rfl))).1 (firstBits 0x0200) (flipFirst (· == 2))
    ⟨0, damage (flipFirst (· == 2)).banks fun _ => 0, fun _ => 0, 0⟩ (fun _ => 0) (fun _ => 0)
    (reports_firstBits (by decide) (by decide)) ?_ rfl rfl).mpr ⟨.inl rfl, ?_, .inl rfl⟩
  · intro b fails
    have : b = 2 := by simpa [flipFirst] using fails
    omega
  intro a b _ _ fails_a fails_b
  have : a = 2 := by simpa [flipFirst] using fails_a
  have : b = 2 := by simpa [flipFirst] using fails_b
  omega

/-- Of errors in banks 1 and 2 the second is left. -/
theorem hamming_incomplete :
    (Reports (firstBits 0x22) (flipFirst (· < 2)) ∧ (flipFirst (· < 2)).Within 2048 ∧
      ∀ page area, ¬ Restored 2048 page area (nandHammingEcc1bitCorrect (firstBits 0x22) 2048
        ⟨0, damage (flipFirst (· < 2)).banks page, area, 0⟩)) ∧
    (firstBits 0x10000).Uncorrectable 4 ∧
      ∀ s, (nandHammingEcc1bitCorrect (firstBits 0x10000) 4096 s).failed = s.failed := by
  have reports : Reports (firstBits 0x22) (flipFirst (· < 2)) := reports_firstBits (by decide) (by decide)
  have within : (flipFirst (· < 2)).Within 2048 := by
    intro b fails
    have : b < 2 := by simpa [flipFirst] using fails
    omega
  refine ⟨⟨reports, within, fun page area restored => ?_⟩, .inl rfl, fun s => rfl⟩
  have data : State.dmabuf ⟨0, damage (flipFirst (· < 2)).banks page, area, 0⟩ =
      damage (flipFirst (· < 2)).banks page := rfl
  have restorable := (restored_iff (.inr (.inl rfl)) reports within data rfl).mp restored
  rcases restorable.front with front | front <;> cases front

end Apc8750.Mtd.Hamming
