import Apc8750.Edid.Model

namespace Apc8750.Vout
open Apc8750.Edid

def vppOptHscaleUp : BitVec 32 := 0x20

def vppOptFpsVal (fps : Nat) : BitVec 32 := BitVec.ofNat 32 fps <<< 24

def vppOptHdmiVicVal (vic : Nat) : BitVec 32 := BitVec.ofNat 32 vic <<< 16

/-- Pixel clock and option, then horizontal and vertical sync, back porch, size and front porch. -/
def vppVideoModeTable : List VppTiming :=
  [⟨25175000, vppOptFpsVal 60 + vppOptHdmiVicVal 1,
    96, 48, 640, 16, 2, 33, 480, 10⟩,
   ⟨23750000, vppOptFpsVal 60 + vppVgaVsyncPolarHi,
    64, 80, 640, 16, 4, 13, 480, 3⟩,
   ⟨31500000, vppOptFpsVal 75,
    64, 120, 640, 16, 3, 16, 480, 1⟩,
   ⟨30750000, vppOptFpsVal 75 + vppVgaVsyncPolarHi,
    64, 88, 640, 24, 4, 17, 480, 3⟩,
   ⟨27027060, vppOptFpsVal 60 + vppOptHdmiVicVal 2,
    62, 60, 720, 16, 6, 30, 480, 9⟩,
   ⟨27000000, vppOptFpsVal 60 + vppOptHdmiVicVal 6 + vppOptInterlace + vppOptHscaleUp,
    124, 114, 720, 38, 3, 15, 240, 4⟩,
   ⟨27000000, vppOptFpsVal 60 + vppOptHdmiVicVal 6 + vppOptInterlace + vppOptHscaleUp,
    124, 114, 720, 38, 3, 16, 240, 4⟩,
   ⟨27000000, vppOptFpsVal 50 + vppOptHdmiVicVal 17,
    64, 68, 720, 12, 5, 39, 576, 5⟩,
   ⟨27000050, vppOptFpsVal 50 + vppOptHdmiVicVal 21 + vppOptInterlace + vppOptHscaleUp,
    126, 138, 720, 24, 3, 19, 288, 2⟩,
   ⟨27000050, vppOptFpsVal 50 + vppOptHdmiVicVal 21 + vppOptInterlace + vppOptHscaleUp,
    126, 138, 720, 24, 3, 20, 288, 2⟩,
   ⟨29500000, vppOptFpsVal 60 + vppVgaVsyncPolarHi,
    72, 96, 800, 24, 7, 10, 480, 3⟩,
   ⟨38500000, vppOptFpsVal 75 + vppVgaVsyncPolarHi,
    80, 112, 800, 32, 7, 14, 480, 3⟩,
   ⟨40000000, vppOptFpsVal 60 + vppVgaHsyncPolarHi + vppVgaVsyncPolarHi,
    128, 88, 800, 40, 4, 23, 600, 1⟩,
   ⟨38250000, vppOptFpsVal 60 + vppVgaVsyncPolarHi,
    80, 112, 800, 32, 4, 17, 600, 3⟩,
   ⟨49500000, vppOptFpsVal 75 + vppVgaHsyncPolarHi + vppVgaVsyncPolarHi,
    80, 160, 800, 16, 3, 21, 600, 1⟩,
   ⟨49000000, vppOptFpsVal 75 + vppVgaVsyncPolarHi,
    80, 120, 800, 40, 4, 22, 600, 3⟩,
   ⟨33750000, vppOptFpsVal 60 + vppVgaHsyncPolarHi + vppVgaVsyncPolarHi,
    112, 112, 848, 16, 8, 23, 480, 6⟩,
   ⟨49000000, vppOptFpsVal 60 + vppVgaVsyncPolarHi,
    104, 144, 1024, 40, 10, 11, 600, 3⟩,
   ⟨65000000, vppOptFpsVal 60,
    136, 160, 1024, 24, 6, 29, 768, 3⟩,
   ⟨63500000, vppOptFpsVal 60 + vppVgaVsyncPolarHi,
    104, 152, 1024, 48, 4, 23, 768, 3⟩,
   ⟨78750000, vppOptFpsVal 75 + vppVgaHsyncPolarHi + vppVgaVsyncPolarHi,
    96, 176, 1024, 16, 3, 28, 768, 1⟩,
   ⟨82000000, vppOptFpsVal 75 + vppVgaVsyncPolarHi,
    104, 168, 1024, 64, 4, 30, 768, 3⟩,
   ⟨81750000, vppOptFpsVal 60 + vppVgaVsyncPolarHi,
    120, 184, 1152, 64, 4, 26, 864, 3⟩,
   ⟨108000000, vppOptFpsVal 75 + vppVgaHsyncPolarHi + vppVgaVsyncPolarHi,
    128, 256, 1152, 64, 3, 32, 864, 1⟩,
   ⟨104000000, vppOptFpsVal 75 + vppVgaVsyncPolarHi,
    120, 192, 1152, 72, 4, 34, 864, 3⟩,
   ⟨74250060, vppOptFpsVal 60 + vppOptHdmiVicVal 4 + vppVgaHsyncPolarHi + vppVgaVsyncPolarHi,
    40, 220, 1280, 110, 5, 20, 720, 5⟩,
   ⟨74250050, vppOptFpsVal 50 + vppOptHdmiVicVal 19 + vppVgaHsyncPolarHi + vppVgaVsyncPolarHi,
    40, 220, 1280, 440, 5, 20, 720, 5⟩,
   ⟨74500000, vppOptFpsVal 60 + vppVgaVsyncPolarHi,
    128, 192, 1280, 64, 5, 20, 720, 3⟩,
   ⟨95750000, vppOptFpsVal 75 + vppVgaVsyncPolarHi,
    128, 208, 1280, 80, 5, 27, 720, 3⟩,
   ⟨79500000, vppOptFpsVal 60 + vppVgaVsyncPolarHi,
    128, 192, 1280, 64, 7, 20, 768, 3⟩,
   ⟨102250000, vppOptFpsVal 75 + vppVgaVsyncPolarHi,
    128, 208, 1280, 80, 7, 27, 768, 3⟩,
   ⟨83500000, vppOptFpsVal 60 + vppVgaVsyncPolarHi,
    128, 200, 1280, 72, 6, 22, 800, 3⟩,
   ⟨106500000, vppOptFpsVal 75 + vppVgaVsyncPolarHi,
    128, 208, 1280, 80, 6, 29, 800, 3⟩,
   ⟨108000000, vppOptFpsVal 60 + vppVgaHsyncPolarHi + vppVgaVsyncPolarHi,
    112, 312, 1280, 96, 3, 36, 960, 1⟩,
   ⟨101250000, vppOptFpsVal 60 + vppVgaVsyncPolarHi,
    128, 208, 1280, 80, 4, 29, 960, 3⟩,
   ⟨130000000, vppOptFpsVal 75 + vppVgaVsyncPolarHi,
    136, 224, 1280, 88, 4, 38, 960, 3⟩,
   ⟨108000000, vppOptFpsVal 60 + vppVgaHsyncPolarHi + vppVgaVsyncPolarHi,
    112, 248, 1280, 48, 3, 38, 1024, 1⟩,
   ⟨109000000, vppOptFpsVal 60 + vppVgaVsyncPolarHi,
    136, 216, 1280, 80, 7, 29, 1024, 3⟩,
   ⟨135000000, vppOptFpsVal 75 + vppVgaHsyncPolarHi + vppVgaVsyncPolarHi,
    144, 248, 1280, 16, 3, 38, 1024, 1⟩,
   ⟨138750000, vppOptFpsVal 75 + vppVgaVsyncPolarHi,
    136, 224, 1280, 88, 7, 38, 1024, 3⟩,
   ⟨85500000, vppOptFpsVal 60 + vppVgaHsyncPolarHi + vppVgaVsyncPolarHi,
    112, 256, 1360, 64, 6, 18, 768, 3⟩,
   ⟨85500000, vppOptFpsVal 60 + vppVgaHsyncPolarHi + vppVgaVsyncPolarHi,
    143, 213, 1366, 70, 3, 24, 768, 3⟩,
   ⟨121750000, vppOptFpsVal 60 + vppVgaVsyncPolarHi,
    144, 232, 1400, 88, 4, 32, 1050, 3⟩,
   ⟨101000000, vppOptFpsVal 60 + vppVgaVsyncPolarHi,
    32, 80, 1400, 48, 4, 23, 1050, 3⟩,
   ⟨54054000, vppOptFpsVal 60 + vppOptHdmiVicVal 15,
    124, 120, 1440, 32, 6, 30, 480, 9⟩,
   ⟨106500000, vppOptFpsVal 60 + vppVgaVsyncPolarHi,
    152, 232, 1440, 80, 6, 25, 900, 3⟩,
   ⟨136750000, vppOptFpsVal 75 + vppVgaVsyncPolarHi,
    152, 248, 1440, 96, 6, 33, 900, 3⟩,
   ⟨162000000, vppOptFpsVal 60 + vppVgaVsyncPolarHi,
    192, 304, 1600, 64, 3, 46, 1200, 1⟩,
   ⟨146250000, vppOptFpsVal 60 + vppVgaVsyncPolarHi,
    176, 280, 1680, 104, 6, 30, 1050, 3⟩,
   ⟨148500000, vppOptFpsVal 60 + vppOptHdmiVicVal 16 + vppVgaHsyncPolarHi + vppVgaVsyncPolarHi,
    44, 148, 1920, 88, 5, 36, 1080, 4⟩,
   ⟨74250060, vppOptFpsVal 60 + vppOptHdmiVicVal 5 + vppOptInterlace + vppVgaHsyncPolarHi + vppVgaVsyncPolarHi,
    44, 148, 1920, 88, 5, 15, 540, 2⟩,
   ⟨74250060, vppOptFpsVal 60 + vppOptHdmiVicVal 5 + vppOptInterlace + vppVgaHsyncPolarHi + vppVgaVsyncPolarHi,
    44, 148, 1920, 88, 5, 16, 540, 2⟩,
   ⟨74250050, vppOptFpsVal 50 + vppOptHdmiVicVal 20 + vppOptInterlace + vppVgaHsyncPolarHi + vppVgaVsyncPolarHi,
    44, 148, 1920, 528, 5, 15, 540, 2⟩,
   ⟨74250050, vppOptFpsVal 50 + vppOptHdmiVicVal 20 + vppOptInterlace + vppVgaHsyncPolarHi + vppVgaVsyncPolarHi,
    44, 148, 1920, 528, 5, 16, 540, 2⟩,
   ⟨74250025, vppOptFpsVal 25 + vppOptHdmiVicVal 33 + vppVgaHsyncPolarHi + vppVgaVsyncPolarHi,
    44, 148, 1920, 528, 5, 36, 1080, 4⟩,
   ⟨74250030, vppOptFpsVal 30 + vppOptHdmiVicVal 34 + vppVgaHsyncPolarHi + vppVgaVsyncPolarHi,
    44, 148, 1920, 88, 5, 36, 1080, 4⟩,
   ⟨148500050, vppOptFpsVal 50 + vppOptHdmiVicVal 31 + vppVgaHsyncPolarHi + vppVgaVsyncPolarHi,
    44, 148, 1920, 528, 5, 36, 1080, 4⟩,
   ⟨154000000, vppOptFpsVal 60 + vppVgaVsyncPolarHi,
    32, 80, 1920, 48, 6, 26, 1200, 3⟩,
   ⟨193250000, vppOptFpsVal 60 + vppVgaVsyncPolarHi,
    200, 336, 1920, 136, 6, 36, 1200, 3⟩,
   {}]

def row (k : Nat) : Option VppTiming := vppVideoModeTable[k]?

def lines (t : VppTiming) : Nat := if t.interlaced then t.vpixel * 2 else t.vpixel

def optFps (t : VppTiming) : Nat := (vppGetOptFps t.option).toNat

def vppCalculateDiff (a b : Nat) : Nat := if a ≥ b then a - b else b - a

def vppGetVideoModeFps (t : VppTiming) : Nat :=
  if optFps t ≠ 0 then optFps t
  else
    let resx := t.hsync + t.hbp + t.hpixel + t.hfp
    let resy := t.vsync + t.vbp + t.vpixel + t.vfp
    let temp := (t.pixelClock - t.pixelClock % 1000) / resx / resy
    if vppCalculateDiff t.pixelClock (resx * resy * temp)
        < vppCalculateDiff t.pixelClock (resx * resy * (temp + 1)) then temp
    else temp + 1

/-- Row `j` is next, `index` the choice so far, and `first` says that no row of about the clock was
met. -/
def matchRows (resx resy fpsPixclk : Nat) : List VppTiming → Nat → Nat → Bool → Option Nat
  | [], _, _, _ => none
  | t :: rest, j, index, first =>
    if t.pixelClock = 0 ∨ t.hpixel ≠ resx ∨ lines t ≠ resy then some index
    else if fpsPixclk < 1000000 then
      if fpsPixclk = vppGetVideoModeFps t then some j
      else matchRows resx resy fpsPixclk rest (j + 1) index first
    else if fpsPixclk = t.pixelClock then some j
    else if fpsPixclk / 10000 = t.pixelClock / 10000 then
      matchRows resx resy fpsPixclk rest (j + 1) (if first then j else index) false
    else matchRows resx resy fpsPixclk rest (j + 1) index first

/-- With `interlace` it passes over other rows; of an interlaced pair it looks at the first row
only. -/
def searchRows (interlace : Bool) (resx resy fpsPixclk : Nat) :
    List VppTiming → Nat → Nat → Option Nat
  | [], _, _ => none
  | t :: rest, i, index =>
    if t.pixelClock = 0 then some index
    else if interlace && !t.interlaced then
      searchRows interlace resx resy fpsPixclk rest (i + 1) index
    else if t.hpixel = resx ∧ lines t = resy then
      matchRows resx resy fpsPixclk (t :: rest) i i true
    else if resx < t.hpixel then some index
    else if t.interlaced then
      match rest with
      | [] => none
      | _ :: rest => searchRows interlace resx resy fpsPixclk rest (i + 2) i
    else searchRows interlace resx resy fpsPixclk rest (i + 1) i

def pairStart (index : Nat) : Option Nat := do
  let t ← row index
  if t.interlaced then
    let next ← row (index + 1)
    if t.option ≠ next.option then
      if index = 0 then none else some (index - 1)
    else some index
  else some index

def vppGetVideoMode (interlace : Bool) (resx resy fpsPixclk index : Nat) : Option Nat := do
  let index ← pairStart index
  searchRows interlace resx resy fpsPixclk (vppVideoModeTable.drop index) index index

def vppGetVideoModeExt (resx resy fpsPixclk : Nat) (interlace : Bool) : Option VppTiming := do
  row (← vppGetVideoMode interlace resx resy fpsPixclk 0)

/-- What is asked for: the fields of `vout_info_t` and `VOUT_OPT_INTERLACE`. -/
structure Request where
  resx : Nat
  resy : Nat
  pixclk : Nat
  fps : Nat
  interlace : Bool

/-- After the loop: the timing of the EDID, or the row for the size and rate. -/
def settle (resx resy fps : Nat) (interlace : Bool) : Option VppTiming → Option VppTiming
  | some t => some t
  | none => vppGetVideoModeExt resx resy fps interlace

end Apc8750.Vout
