import Mathlib.Data.List.Basic
import Mathlib.Algebra.Group.Int.Defs
import Mathlib.Algebra.Order.Group.Nat

namespace Apc8750.Clock
open Function

/-- `enum dev_id`. -/
inductive Dev where
  | sdmmc0 | sdmmc1 | sdmmc2 | ethmac | ethphy | rtc | i2c0 | i2c1 | gpio | keypad | pcm | pwm
  | scc | sys | amp | mali | perm | mbox
  | ddrmc | arf | arfp | dma | pdma | vdma | uhdc | ahbb | nand | nor | spi0 | spi1 | sf
  | uart0 | uart1 | uart2 | uart3 | uart4 | uart5
  | na0 | na0ref | jdec | msvd | tsbk | sae | hdce | h264 | cir | na12 | vpu | vpp | vid | vdu
  | scl444u | hdmii2c | hdmi | govw | govrhd | ge | disp | dvo | sdtv
  | i2s | arm | ahb | apb | l2c | l2caxi | l2cpaxi
  deriving DecidableEq

/-- The numbers of the devices, which are also those of their enable bits. -/
def Dev.id : Dev → Nat
  | sdmmc0 => 0 | sdmmc1 => 1 | sdmmc2 => 2 | ethmac => 4 | ethphy => 6 | rtc => 7 | i2c0 => 8
  | i2c1 => 9 | gpio => 11 | keypad => 14 | pcm => 16 | pwm => 17 | scc => 21 | sys => 22
  | amp => 24 | mali => 26 | perm => 30 | mbox => 31
  | ddrmc => 32 | arf => 35 | arfp => 36 | dma => 37 | pdma => 38 | vdma => 39 | uhdc => 41
  | ahbb => 45 | nand => 48 | nor => 49 | spi0 => 51 | spi1 => 52 | sf => 55 | uart0 => 56
  | uart1 => 57 | uart2 => 58 | uart3 => 59 | uart4 => 60 | uart5 => 61
  | na0 => 64 | na0ref => 65 | jdec => 67 | msvd => 68 | tsbk => 69 | sae => 70 | hdce => 71
  | h264 => 72 | cir => 79 | na12 => 80 | vpu => 81 | vpp => 82 | vid => 83 | vdu => 84
  | scl444u => 85 | hdmii2c => 86 | hdmi => 87 | govw => 88 | govrhd => 89 | ge => 90
  | disp => 91 | dvo => 94 | sdtv => 95
  | i2s => 98 | arm => 99 | ahb => 100 | apb => 101 | l2c => 102 | l2caxi => 103 | l2cpaxi => 104

def calcPllNum : Dev → Nat × Nat
  | .uart0 | .uart1 | .uart2 | .uart3 | .uart4 | .uart5 | .cir => (6, 0)
  | .i2c0 => (1, 0x3A0)
  | .i2c1 => (1, 0x3A4)
  | .pwm => (1, 0x350)
  | .spi0 => (1, 0x340)
  | .spi1 => (1, 0x344)
  | .dvo | .sdtv => (2, 0x36C)
  | .scc | .jdec | .msvd | .amp | .vpu | .mbox | .ge | .govrhd | .keypad | .rtc | .gpio => (6, 0)
  | .mali => (0, 0x388)
  | .ddrmc => (3, 0x310)
  | .na0 => (1, 0x358)
  | .na12 | .vpp => (1, 0x35C)
  | .l2c => (0, 0x30C)
  | .l2caxi => (0, 0x3B0)
  | .l2cpaxi => (0, 0x3C0)
  | .arf | .arfp | .dma | .uhdc | .perm | .pdma | .vdma => (6, 0)
  | .vdu => (1, 0x368)
  | .nand => (1, 0x318)
  | .nor => (1, 0x31C)
  | .sdmmc0 => (1, 0x330)
  | .sdmmc1 => (1, 0x334)
  | .sdmmc2 => (1, 0x338)
  | .ethmac => (1, 0x394)
  | .sf => (1, 0x314)
  | .pcm => (1, 0x354)
  | .i2s => (4, 0x374)
  | .hdmi | .scl444u | .govw | .vid | .sae => (6, 0)
  | .arm => (0, 0x300)
  | .ahb => (0, 0x304)
  | .apb => (0, 0x320)
  | .ethphy => (6, 25)
  | .sys | .ahbb | .na0ref | .tsbk | .hdce | .h264 | .hdmii2c | .disp => (5, 0)

def isSdmmc (dev : Dev) : Bool := dev == .sdmmc0 || dev == .sdmmc1 || dev == .sdmmc2

def srcFreq : Nat := 25

def checkFilter (filter : Nat) : Nat :=
  if filter ≥ 166 then 7 else if filter ≥ 104 then 6 else if filter ≥ 65 then 5
  else if filter ≥ 42 then 4 else if filter ≥ 26 then 3 else if filter ≥ 16 then 2
  else if filter ≥ 10 then 1 else 0

/-- PLL words by number, divisor words by offset, enable bits by device number. -/
structure Regs where
  pll : Nat → Nat
  div : Nat → Nat
  clk : Nat → Bool

structure Clk where
  regs : Regs
  count : Nat → Int

/-- The byte at offset 2 of a divisor register, the whole word of one, or a PLL word. -/
inductive Write where
  | select (offs : Nat) (byte : Nat)
  | divisor (offs : Nat) (word : Nat)
  | pll (no : Nat) (word : Nat)
  deriving DecidableEq

def Regs.write (r : Regs) : Write → Regs
  | .select offs byte => { r with
      div := update r.div offs
        (r.div offs / 2 ^ 24 * 2 ^ 24 + byte * 2 ^ 16 + r.div offs % 2 ^ 16) }
  | .divisor offs word => { r with div := update r.div offs word }
  | .pll no word => { r with pll := update r.pll no word }

def Regs.divByte (r : Regs) (offs : Nat) : Nat := r.div offs % 256

def toInt (n : Nat) : Int := if n % 2 ^ 32 < 2 ^ 31 then n % 2 ^ 32 else n % 2 ^ 32 - 2 ^ 32

def toLlu (n : Int) : Nat := (n % 2 ^ 64).toNat

def doDiv (n base : Nat) : Nat := n / (base % 2 ^ 32)

structure Result where
  ret : Int
  divs : List Nat
  writes : List Write
  deriving DecidableEq

def fail : Result := ⟨-1, [], []⟩

def pllDivf (word : Nat) : Nat := word / 2 ^ 16 % 256
def pllDivr (word : Nat) : Nat := word / 2 ^ 8 % 64
def pllDivq (word : Nat) : Nat := word % 8

/-- The frequency of a PLL before its own dividers, in Hz, and these dividers. -/
def pllFreq (word : Nat) : Nat := srcFreq * (pllDivf word + 1) * 1000000
def pllBase (word : Nat) : Nat := (pllDivr word + 1) * 2 ^ pllDivq word

/-- The store with which every function that reads a divisor begins. -/
def selectWrite (dev : Dev) (offs : Nat) : Write := .select offs (if dev = .sdtv then 1 else 0)

/-- The divisor as `get_freq` takes it from the low byte of the register. -/
def getDivisor (dev : Dev) (byte : Nat) : Nat :=
  if isSdmmc dev then byte % 32 * (if byte / 32 % 2 = 1 then 64 else 1) else byte % 32

def getFreq (dev : Dev) (r : Regs) : Result :=
  let (no, offs) := calcPllNum dev
  if no = 5 then fail
  else if no = 6 then ⟨offs * 1000000, [], []⟩
  else
    let div := getDivisor dev (r.divByte offs)
    let base := pllBase (r.pll no) * div
    ⟨toInt (doDiv (pllFreq (r.pll no)) base), [base], [selectWrite dev offs]⟩

def target (unit : Int) (freq : Int) : Nat :=
  toLlu freq * (if unit = 1 then 1000 else if unit = 2 then 1000000 else 1) % 2 ^ 64

def tries (dev : Dev) (no : Nat) : List Nat :=
  (List.range' 1 32).filter (fun i => !(!isSdmmc dev && decide (1 < i) && i % 2 == 1 && no == 2))

def divisorWord (dev : Dev) (by64 : Bool) (div : Nat) : Nat :=
  (if dev = .sdtv then 0x10000 else 0) + (if by64 then 32 else 0) + (if div = 32 then 0 else div)

/-- Whether `set_divisor` uses the extra divider by 64 of SD/MMC. -/
def by64 (dev : Dev) (freq pll : Nat) : Bool := isSdmmc dev && decide (freq ≤ pll / 64)

/-- The divisor of the division for a value that `set_divisor` tries. -/
def tryBase (dev : Dev) (freq word i : Nat) : Nat :=
  pllBase word * (i * (if by64 dev freq (pllFreq word) then 64 else 1))

def tryFreq (dev : Dev) (freq word i : Nat) : Nat := doDiv (pllFreq word) (tryBase dev freq word i)

def setDivisor (dev : Dev) (unit freq : Int) (r : Regs) : Result :=
  let (no, offs) := calcPllNum dev
  if no = 5 then fail
  else if no = 6 then fail
  else if r.clk dev.id = false then ⟨-1, [], [selectWrite dev offs]⟩
  else
    let tmp := r.pll no
    let freq := target unit freq
    let fits := fun i => decide (tryFreq dev freq tmp i ≤ freq)
    let divs := ((tries dev no).takeWhile (fun i => !fits i)).map (tryBase dev freq tmp)
    match (tries dev no).find? fits with
    | none => ⟨-1, divs, [selectWrite dev offs]⟩
    | some div => ⟨toInt (tryFreq dev freq tmp div), divs ++ [tryBase dev freq tmp div],
        [selectWrite dev offs,
          .divisor offs (divisorWord dev (by64 dev freq (pllFreq tmp)) div)]⟩

structure Setting where
  divf : Nat
  divr : Nat
  divq : Nat
  div : Nat
  deriving DecidableEq

structure Search where
  best : Setting
  minMinor : Nat
  divs : List Nat
  deriving DecidableEq

def Setting.base (s : Setting) : Nat := s.div * (s.divr + 1) * 2 ^ s.divq
def Setting.freq (s : Setting) : Nat := doDiv (srcFreq * (s.divf + 1) * 1000000) s.base

inductive Flow where
  | next (v : Search)
  | leave (v : Search)
  | find (v : Search)
  deriving DecidableEq

def Search.improve (v : Search) (s : Setting) (minor : Nat) : Search :=
  if minor < v.minMinor then { v with best := s, minMinor := minor } else v

/-- The body of the innermost loop of `set_pll_speed` and `set_pll_divisor`. -/
def tryDf (no freq : Nat) (s : Setting) (v : Search) : Flow :=
  let v := { v with divs := v.divs ++ [s.divr + 1] }
  if srcFreq / (s.divr + 1) < 10 then .leave v
  else if 1000 / srcFreq > (s.divf + 1) / (s.divr + 1) then .next v
  else if 2000 / srcFreq < (s.divf + 1) / (s.divr + 1) then .leave v
  else
    let v := { v with divs := v.divs ++ [s.base] }
    if s.freq = freq then .find { v with best := s }
    else if s.freq < freq then .next (v.improve s (freq - s.freq))
    else if no = 2 then .leave (v.improve s (s.freq - freq))
    else .leave v

/-- The loop over `DF`; an error is the jump to `find`. -/
def dfLoop (no freq : Nat) (s : Setting) : List Nat → Search → Except Search Search
  | [], v => .ok v
  | df :: dfs, v => match tryDf no freq { s with divf := df } v with
    | .next v => dfLoop no freq s dfs v
    | .leave v => .ok v
    | .find v => .error v

/-- The loops over `DR`, `DQ` and the divisor, around that over `DF`. -/
def pllLoop (no freq : Nat) : List Setting → Search → Search
  | [], v => v
  | s :: rest, v => match dfLoop no freq s (List.range 256) v with
    | .ok v => pllLoop no freq rest v
    | .error v => v

/-- The order in which the outer loops go, for the divisors in the given order. -/
def loopOrder (divs : List Nat) : List Setting :=
  [1, 0].flatMap (fun dr => [7, 6, 5, 4, 3, 2, 1, 0].flatMap (fun dq =>
    divs.map (fun vd => ⟨0, dr, dq, vd⟩)))

/-- The sentinel with which `min_minor` begins. -/
def limit : Nat := 0xFF000000

def pllSearch (no freq : Nat) (divs : List Nat) : Search :=
  pllLoop no freq (loopOrder divs) ⟨⟨1, 1, 1, 1⟩, limit, []⟩

def pllWord (s : Setting) : Nat :=
  s.divf * 2 ^ 16 + s.divr * 2 ^ 8 + s.divq + checkFilter (srcFreq / (s.divr + 1)) * 2 ^ 24

def setPllSpeed (dev : Dev) (unit freq : Int) (r : Regs) : Result :=
  let (no, offs) := calcPllNum dev
  if no = 5 then fail
  else if no = 6 then fail
  else if unit ≠ 0 ∧ unit ≠ 1 ∧ unit ≠ 2 then ⟨-1, [], [selectWrite dev offs]⟩
  else
    let vd := r.divByte offs
    let v := pllSearch no (target unit freq) [vd]
    let s := { v.best with div := vd }
    ⟨toInt s.freq, v.divs ++ [s.divr + 1, s.base], [selectWrite dev offs, .pll no (pllWord s)]⟩

def pllDivisors (no : Nat) : List Nat :=
  (List.range' 1 32).reverse.filter (fun vd => !(decide (1 < vd) && vd % 2 == 1 && no == 2))

/-- A larger divisor goes to its register before the PLL changes, a smaller one after. -/
def pllWrites (no offs old new divWord pllWord : Nat) : List Write :=
  (if old < new then [.divisor offs divWord] else []) ++ [.pll no pllWord] ++
    (if new < old then [.divisor offs divWord] else [])

def setPllDivisor (dev : Dev) (unit freq : Int) (r : Regs) : Result :=
  let (no, offs) := calcPllNum dev
  if no = 5 then fail
  else if no = 6 then fail
  else if unit ≠ 0 ∧ unit ≠ 1 ∧ unit ≠ 2 then ⟨-1, [], [selectWrite dev offs]⟩
  else
    let v := pllSearch no (target unit freq) (pllDivisors no)
    let divs := v.divs ++ [v.best.divr + 1, v.best.base]
    if r.clk dev.id = false then ⟨-1, divs, [selectWrite dev offs]⟩
    else ⟨toInt v.best.freq, divs, selectWrite dev offs :: pllWrites no offs (r.divByte offs)
      v.best.div (divisorWord dev false v.best.div) (pllWord v.best)⟩

def enableDevClk (c : Clk) (dev : Nat) : Int × Clk :=
  if c.count dev ≤ 0 ∨ c.regs.clk dev = false then
    (1, ⟨{ c.regs with clk := update c.regs.clk dev true },
      update c.count dev 1⟩)
  else (c.count dev + 1, { c with count := update c.count dev (c.count dev + 1) })

def disableDevClk (c : Clk) (dev : Nat) : Int × Clk :=
  if c.count dev ≤ 1 then
    (0, ⟨{ c.regs with clk := update c.regs.clk dev false },
      update c.count dev 0⟩)
  else (c.count dev - 1, { c with count := update c.count dev (c.count dev - 1) })

inductive Cmd where
  | clkDisable | getFreq | clkEnable | setDiv | setPll | setPllDiv
  deriving DecidableEq

def Clk.after (c : Clk) (res : Result) : Clk := { c with regs := res.writes.foldl Regs.write c.regs }

structure Reply where
  ret : Int
  divs : List Nat
  deriving DecidableEq

def Clk.finish (c : Clk) (res : Result) : Reply × Clk := (⟨res.ret, res.divs⟩, c.after res)

def autoPllDivisor (c : Clk) (dev : Dev) (cmd : Cmd) (unit freq : Int) : Reply × Clk :=
  match cmd with
  | .clkDisable =>
    if dev.id < 128 then let r := disableDevClk c dev.id; (⟨r.1, []⟩, r.2) else (⟨-1, []⟩, c)
  | .clkEnable =>
    if dev.id < 128 then let r := enableDevClk c dev.id; (⟨r.1, []⟩, r.2) else (⟨-1, []⟩, c)
  | .getFreq => c.finish (getFreq dev c.regs)
  | .setDiv => c.finish (setDivisor dev unit freq c.regs)
  | .setPll => c.finish (setPllSpeed dev unit freq c.regs)
  | .setPllDiv => c.finish (setPllDivisor dev unit freq c.regs)

/-- The checks of `manu_pll_divisor` on the fields of the PLL one by one. -/
def manuRanges (divf divr divq : Int) : Bool :=
  decide (0 ≤ divf ∧ divf ≤ 255) && decide (0 ≤ divr ∧ divr ≤ 1) && decide (0 ≤ divq ∧ divq ≤ 7)

def manuChecks (dev : Dev) (divf divr devDiv : Int) : Bool :=
  decide ((1000 / srcFreq : Nat) ≤ (divf + 1) / (divr + 1)) &&
    decide ((divf + 1) / (divr + 1) ≤ (2000 / srcFreq : Nat)) &&
    decide (10 ≤ (srcFreq : Int) / (divr + 1) ∧ (srcFreq : Int) / (divr + 1) ≤ 200) &&
    decide (devDiv ≤ if isSdmmc dev then 63 else 31)

def manuSetting (divf divr divq devDiv : Int) : Setting :=
  ⟨divf.toNat, divr.toNat, divq.toNat, (devDiv % 32).toNat⟩

def manuPllDivisor (c : Clk) (dev : Dev) (divf divr divq devDiv : Int) : Reply × Clk :=
  let (no, offs) := calcPllNum dev
  let s := manuSetting divf divr divq devDiv
  if manuRanges divf divr divq = false then (⟨-1, []⟩, c)
  else if manuChecks dev divf divr devDiv = false then (⟨-1, [s.divr + 1]⟩, c)
  else if no = 5 then (⟨-1, [s.divr + 1]⟩, c)
  else
    let by64 := isSdmmc dev && decide (devDiv / 32 % 2 = 1)
    let base := s.base * (if by64 then 64 else 1)
    let freq := 1000 * srcFreq * (s.divf + 1) / base * 1000
    let c' := if c.regs.clk dev.id = false then (enableDevClk c dev.id).2 else c
    (⟨toInt freq, [s.divr + 1, base]⟩, c'.after ⟨0, [], pllWrites no offs (c.regs.divByte offs)
      (devDiv % 2 ^ 32).toNat ((if by64 then 32 else 0) + s.div) (pllWord s)⟩)

def bootDev (bootdev : Nat) : Dev :=
  if bootdev % 4 = 0 then .sf else if bootdev % 4 = 1 then .nand
  else if bootdev % 4 = 2 then .nor else .sdmmc0

def wmtPowerDev (c : Clk) (bootdev : Nat) : Clk :=
  (disableDevClk (enableDevClk c (bootDev bootdev).id).2 (bootDev bootdev).id).2

end Apc8750.Clock
