import Apc8750.Library.Masks
import Mathlib.Data.List.Basic

namespace Apc8750.Mtd.Hamming
open Function

/-- The parity registers of both banks depend on the select of `WMT_NFC_MISC_CTRL`. -/
structure Controller where
  bankStat : BitVec 32
  reduntStat : BitVec 8
  oddParity : BitVec 2 → BitVec 16
  evenParity : BitVec 2 → BitVec 16
  reduntParity : BitVec 16

/-- `WMT_NFC_MISC_CTRL`, the data read, the redundant area at `ECC_FIFO_0` and `ecc_stats.failed`.
-/
structure State where
  misc : BitVec 8
  dmabuf : Nat → BitVec 8
  fifo : Nat → BitVec 8
  failed : Nat

def bitCorrect (c : BitVec 8) (pos : Nat) : BitVec 8 :=
  ((c ^^^ 1#8 <<< pos) &&& 1#8 <<< pos) ||| (c &&& ~~~(1#8 <<< pos))

def correctAt (buf : Nat → BitVec 8) (addr pos : Nat) : Nat → BitVec 8 :=
  update buf addr (bitCorrect (buf addr) pos)

/-- The branch of a bank: its parity register gives the byte and the bit. -/
def correctBank (c : Controller) (bank : Nat) (s : State) : State :=
  let pos := (if bank % 2 = 0 then c.oddParity else c.evenParity) (s.misc.setWidth 2)
  { s with dmabuf := correctAt s.dmabuf (512 * bank + (pos &&& 0x1ff).toNat) ((pos >>> 9) &&& 0x07).toNat }

def correctFront (c : Controller) (s : State) : State :=
  if c.bankStat &&& 0x02 != 0 then correctBank c 0 s
  else if c.bankStat &&& 0x20 != 0 then correctBank c 1 s
  else s

def correctBehind2048 (c : Controller) (s : State) : State :=
  if c.bankStat &&& 0x0200 != 0 then correctBank c 2 s
  else if c.bankStat &&& 0x2000 != 0 then correctBank c 3 s
  else s

def correctBehind4096 (c : Controller) (s : State) : State :=
  if c.bankStat &&& 0x0200 != 0 then correctBank c 2 s
  else if c.bankStat &&& 0x2000 != 0 then correctBank c 3 s
  else if c.bankStat &&& 0x020000 != 0 then correctBank c 4 { s with misc := (s.misc &&& 0xFC) ||| 0x2 }
  else if c.bankStat &&& 0x200000 != 0 then correctBank c 5 { s with misc := (s.misc &&& 0xFC) ||| 0x2 }
  else if c.bankStat &&& 0x02000000 != 0 then correctBank c 6 { s with misc := s.misc ||| 0x3 }
  else if c.bankStat &&& 0x20000000 != 0 then correctBank c 7 { s with misc := s.misc ||| 0x3 }
  else s

def correctData (c : Controller) (writesize : Nat) (s : State) : State :=
  let s := correctFront c { s with misc := s.misc &&& 0xfc }
  if writesize = 2048 then correctBehind2048 c { s with misc := s.misc ||| 0x1 }
  else if writesize = 4096 then correctBehind4096 c { s with misc := s.misc ||| 0x1 }
  else s

def correctRedundant (c : Controller) (s : State) : State :=
  { s with fifo := correctAt s.fifo (c.reduntParity &&& 0x3f).toNat ((c.reduntParity >>> 8) &&& 0x07).toNat }

def dataError (c : Controller) (writesize : Nat) : Bool :=
  (writesize == 2048 && c.bankStat &&& 0x2222 != 0) || (writesize == 4096 && c.bankStat &&& 0x22222222 != 0) ||
    (writesize == 512 && c.bankStat &&& 0x22 != 0)

def nandHammingEcc1bitCorrect (c : Controller) (writesize : Nat) (s : State) : State :=
  if c.bankStat &&& 0x5555 != 0 then { s with failed := s.failed + 1 }
  else if c.reduntStat &&& 0x05 != 0 then { s with failed := s.failed + 1 }
  else if dataError c writesize then correctData c writesize s
  else if c.reduntStat &&& 0x02 != 0 then correctRedundant c s
  else s

def Controller.Uncorrectable (c : Controller) (bank : Nat) : Prop :=
  c.bankStat.getLsbD (4 * bank) = true ∨ c.bankStat.getLsbD (4 * bank + 2) = true

def Controller.RedundantUncorrectable (c : Controller) : Prop :=
  c.reduntStat.getLsbD 0 = true ∨ c.reduntStat.getLsbD 2 = true

/-- One flipped bit in each of some banks, and in the redundant area. -/
structure Errors where
  banks : Nat → Option (Fin 512 × Fin 8)
  redundant : Option (Fin 64 × Fin 8)

def damage (banks : Nat → Option (Fin 512 × Fin 8)) (page : Nat → BitVec 8) (a : Nat) : BitVec 8 :=
  match banks (a / 512) with
  | none => page a
  | some (byte, bit) => if a % 512 = byte then page a ^^^ 1#8 <<< bit.val else page a

def damageRedundant (error : Option (Fin 64 × Fin 8)) (area : Nat → BitVec 8) (a : Nat) : BitVec 8 :=
  match error with
  | none => area a
  | some (byte, bit) => if a = byte then area a ^^^ 1#8 <<< bit.val else area a

def Controller.parity (c : Controller) (bank : Nat) : BitVec 16 :=
  (if bank % 2 = 0 then c.oddParity else c.evenParity) (BitVec.ofNat 2 (bank / 2))

structure Reports (c : Controller) (e : Errors) : Prop where
  failing : ∀ b < 8, c.bankStat.getLsbD (4 * b + 1) = (e.banks b).isSome
  correctable : ∀ b < 8, ¬ c.Uncorrectable b
  position : ∀ b < 8, ∀ byte bit, e.banks b = some (byte, bit) →
    (c.parity b &&& 0x1ff).toNat = byte ∧ ((c.parity b >>> 9) &&& 0x07).toNat = bit
  redundant : c.reduntStat.getLsbD 1 = e.redundant.isSome
  reduntCorrectable : ¬ c.RedundantUncorrectable
  reduntPosition : ∀ byte bit, e.redundant = some (byte, bit) →
    (c.reduntParity &&& 0x3f).toNat = byte ∧ ((c.reduntParity >>> 8) &&& 0x07).toNat = bit

section Masks

variable {c : Controller}

theorem failed_mask : (c.bankStat &&& 0x5555 != 0) = true ↔ ∃ b < 4, c.Uncorrectable b := by
  have bits : ∀ i < 32, (0x5555#32).getLsbD i = true ↔ i % 2 = 0 ∧ i < 16 := by decide
  rw [Masks.and_bne_iff]
  constructor
  · rintro ⟨i,set,mask⟩
    obtain ⟨even,low⟩ := (bits i (BitVec.lt_of_getLsbD set)).mp mask
    refine ⟨i / 4,by omega,?_⟩
    rcases (by omega : i = 4 * (i / 4) ∨ i = 4 * (i / 4) + 2) with eq | eq
    · exact .inl (eq ▸ set)
    · exact .inr (eq ▸ set)
  · rintro ⟨b,low,set | set⟩
    · exact ⟨_,set,(bits _ (by omega)).mpr (by omega)⟩
    · exact ⟨_,set,(bits _ (by omega)).mpr (by omega)⟩

theorem redundant_mask : (c.reduntStat &&& 0x05 != 0) = true ↔ c.RedundantUncorrectable := by
  have bits : ∀ i < 8, (0x05#8).getLsbD i = true ↔ i = 0 ∨ i = 2 := by decide
  rw [Masks.and_bne_iff]
  constructor
  · rintro ⟨i,set,mask⟩
    rcases (bits i (BitVec.lt_of_getLsbD set)).mp mask with rfl | rfl
    · exact .inl set
    · exact .inr set
  · rintro (set | set)
    · exact ⟨0,set,rfl⟩
    · exact ⟨2,set,rfl⟩

end Masks

theorem correctData_failed (c : Controller) (writesize : Nat) (s : State) :
    (correctData c writesize s).failed = s.failed := by
  have front : ∀ s, (correctFront c s).failed = s.failed := by
    intro s
    unfold correctFront
    repeat' split
    all_goals rfl
  have behind2048 : ∀ s, (correctBehind2048 c s).failed = s.failed := by
    intro s
    unfold correctBehind2048
    repeat' split
    all_goals rfl
  have behind4096 : ∀ s, (correctBehind4096 c s).failed = s.failed := by
    intro s
    unfold correctBehind4096
    repeat' split
    all_goals rfl
  simp only [correctData]
  split
  · rw [behind2048,front]
  · split
    · rw [behind4096,front]
    · rw [front]

theorem failed_iff (c : Controller) (writesize : Nat) (s : State) :
    (nandHammingEcc1bitCorrect c writesize s).failed = s.failed + 1 ↔
      (∃ b < 4, c.Uncorrectable b) ∨ c.RedundantUncorrectable := by
  rw [← failed_mask,← redundant_mask]
  unfold nandHammingEcc1bitCorrect
  by_cases data : (c.bankStat &&& 0x5555 != 0) = true
  · rw [if_pos data]
    exact iff_of_true rfl (.inl data)
  rw [if_neg data]
  by_cases redundant : (c.reduntStat &&& 0x05 != 0) = true
  · rw [if_pos redundant]
    exact iff_of_true rfl (.inr redundant)
  rw [if_neg redundant]
  refine iff_of_false ?_ (not_or.mpr ⟨data,redundant⟩)
  split
  · rw [correctData_failed]
    exact (Nat.succ_ne_self _).symm
  · split <;> exact (Nat.succ_ne_self _).symm

section Damage

variable {banks : Nat → Option (Fin 512 × Fin 8)} {page area : Nat → BitVec 8} {b n : Nat}

theorem bitCorrect_eq (c : BitVec 8) (pos : Nat) : bitCorrect c pos = c ^^^ 1#8 <<< pos := by
  apply BitVec.eq_of_getLsbD_eq
  intro i _
  simp only [bitCorrect,BitVec.getLsbD_or,BitVec.getLsbD_and,BitVec.getLsbD_xor,BitVec.getLsbD_not]
  cases c.getLsbD i <;> cases (1#8 <<< pos).getLsbD i <;> simp_all

theorem bitCorrect_flipped (c : BitVec 8) (pos : Nat) : bitCorrect (c ^^^ 1#8 <<< pos) pos = c := by
  rw [bitCorrect_eq,BitVec.xor_assoc,BitVec.xor_self,BitVec.xor_zero]

theorem flip_ne (c : BitVec 8) (bit : Fin 8) : c ^^^ 1#8 <<< bit.val ≠ c := by
  intro same
  have cleared := congrArg (fun x => x.getLsbD bit.val) same
  simp [bit.isLt] at cleared

theorem correct_damage {byte : Fin 512} {bit : Fin 8} (fails : banks b = some (byte,bit)) :
    correctAt (damage banks page) (512 * b + byte) bit = damage (update banks b none) page := by
  have bank : (512 * b + byte.val) / 512 = b := by omega
  have offset : (512 * b + byte.val) % 512 = byte := by omega
  funext a
  by_cases here : a = 512 * b + byte
  · subst here
    rw [correctAt,update_self]
    unfold damage
    rw [bank,fails,offset,update_self]
    simp only [if_true]
    exact bitCorrect_flipped _ _
  rw [correctAt,update_of_ne here]
  unfold damage
  by_cases same : a / 512 = b
  · have other : a % 512 ≠ byte := by omega
    rw [same,fails,update_self]
    simp only [if_neg other]
  · rw [update_of_ne same]

theorem damage_none (clean : ∀ b, banks b = none) : damage banks page = page := by
  funext a
  unfold damage
  rw [clean]

theorem damage_eq_iff : (∀ a < 512 * n, damage banks page a = page a) ↔ ∀ b < n, banks b = none := by
  constructor
  · intro same b lt
    cases fails : banks b with
    | none => rfl
    | some flip =>
      obtain ⟨byte,bit⟩ := flip
      have bank : (512 * b + byte.val) / 512 = b := by omega
      have offset : (512 * b + byte.val) % 512 = byte := by omega
      have here := same (512 * b + byte) (by omega)
      unfold damage at here
      rw [bank,fails,offset] at here
      simp only [if_true] at here
      exact absurd here (flip_ne _ _)
  · intro clean a lt
    unfold damage
    rw [clean (a / 512) (by omega)]

theorem damageRedundant_eq_iff :
    (∀ a < 64, damageRedundant error area a = area a) ↔ error = none := by
  cases error with
  | none => simp [damageRedundant]
  | some flip =>
    obtain ⟨byte,bit⟩ := flip
    refine iff_of_false (fun same => ?_) nofun
    have here := same byte byte.isLt
    simp only [damageRedundant,if_true] at here
    exact flip_ne _ _ here

theorem correct_redundant :
    correctAt (damageRedundant (some (byte,bit)) area) byte bit = area := by
  funext a
  by_cases here : a = byte
  · subst here
    rw [correctAt,update_self]
    simp only [damageRedundant,if_true]
    exact bitCorrect_flipped _ _
  · rw [correctAt,update_of_ne here]
    simp only [damageRedundant,if_neg here]

end Damage

end Apc8750.Mtd.Hamming
