import Mathlib.Algebra.GroupWithZero.Nat
import Mathlib.Algebra.Order.Group.Nat
import Mathlib.Data.List.FinRange

namespace Apc8750.Edid

/-- A byte outside the block, an element outside an array, a division by zero. -/
inductive Fault where
  | read (offset : Nat)
  | write (index : Nat)
  | divide
  deriving DecidableEq

abbrev Block := Fin 128 → UInt8

instance blockSize : NeZero 128 := ⟨by decide⟩

structure Buffer where
  base : Block
  extensions : Vector Block 3

/-- `vpp_timing_t`. -/
structure VppTiming where
  pixelClock : Nat := 0
  option : BitVec 32 := 0
  hsync : Nat := 0
  hbp : Nat := 0
  hpixel : Nat := 0
  hfp : Nat := 0
  vsync : Nat := 0
  vbp : Nat := 0
  vpixel : Nat := 0
  vfp : Nat := 0
  deriving DecidableEq

/-- `edid_timing_t`. -/
structure EdidTiming where
  resx : Nat := 0
  resy : Nat := 0
  freq : Nat := 0
  deriving DecidableEq

/-- `edid_info_t`. -/
structure EdidInfo where
  establishTiming : Nat := 0
  standardTiming : Vector EdidTiming 8 := Vector.replicate 8 {}
  detailTiming : Vector VppTiming 4 := Vector.replicate 4 {}
  ceaTiming : Vector VppTiming 6 := Vector.replicate 6 {}
  ceaVic : Vector (BitVec 8) 8 := Vector.replicate 8 0
  pixelClockLimit : Nat := 0
  option : BitVec 32 := 0
  hdmiPhyAddr : Nat := 0
  deriving DecidableEq

def vppOptInterlace : BitVec 32 := 0x01
def vppVgaHsyncPolarHi : BitVec 32 := 0x02
def vppVgaVsyncPolarHi : BitVec 32 := 0x04
def vppDvoSyncPolarHi : BitVec 32 := 0x08
def vppDvoVsyncPolarHi : BitVec 32 := 0x10
def vppOptFpsMask : BitVec 32 := 0xFF000000

def vppGetOptFps (option : BitVec 32) : BitVec 32 := (option &&& vppOptFpsMask) >>> 24

def vppSetOptFps (option : BitVec 32) (fps : Nat) : BitVec 32 :=
  (option &&& ~~~vppOptFpsMask) ||| (BitVec.ofNat 32 fps <<< 24)

def edidOptValid : BitVec 32 := 0x01
def edidOptHdmi : BitVec 32 := 0x100
def edidOpt169 : BitVec 32 := 0x400

def edidTmrInterlace : BitVec 32 := 0x80000000
def edidTmrFreq : BitVec 32 := 0xFF

/-- A bit set when the condition holds, as in `cond ? bit : 0`. -/
def flag (bit : BitVec 32) (cond : Bool) : BitVec 32 := if cond then bit else 0

def word (f : Nat) (i : Bool) : BitVec 32 := BitVec.ofNat 32 f ||| flag edidTmrInterlace i

def minus (a b : Nat) : Nat := (a + 2 ^ 32 - b % 2 ^ 32) % 2 ^ 32

def divide (a b : Nat) : Except Fault Nat := if b = 0 then .error .divide else .ok (a / b)

def readByte (b : Block) (i : Nat) : Except Fault Nat :=
  if h : i < 128 then .ok (b ⟨i, h⟩).toNat else .error (.read i)

/-- The 18 bytes of a detailed timing or of another descriptor. -/
abbrev Descriptor := Fin 18 → UInt8

def descriptor (b : Block) (o : Nat) : Except Fault Descriptor :=
  if h : o + 18 ≤ 128 then .ok fun k => b ⟨o + k, by omega⟩ else .error (.read (o + 17))

def checksum (b : Block) : UInt8 := (List.finRange 128).foldl (fun sum i => sum + b i) 0

def edidV1Header : List UInt8 := [0x00, 0xff, 0xff, 0xff, 0xff, 0xff, 0xff, 0x00]

def headerOk (b : Block) : Bool :=
  [b 0, b 1, b 2, b 3, b 4, b 5, b 6, b 7] == edidV1Header

inductive BlockType where
  | detailedTimingBlock
  | unknownDescriptor
  | tagged (tag : UInt8)
  deriving DecidableEq

def blockType (d : Descriptor) : BlockType :=
  if d 0 = 0 ∧ d 1 = 0 then
    if d 2 ≠ 0 then .unknownDescriptor else .tagged (d 3)
  else .detailedTimingBlock

def monitorLimits : UInt8 := 0xfd

/-- The descriptors of the base block start at `DETAILED_TIMING_DESCRIPTIONS_START`. -/
def baseDescriptor (b : Block) (i : Fin 4) : Descriptor :=
  fun k => b ⟨0x36 + 18 * i + k, by omega⟩

def combineHi8Lo (hi lo : Nat) : Nat := hi <<< 8 ||| lo
def combineHi4Lo (hi lo : Nat) : Nat := hi <<< 4 ||| lo
def upperNibble (x : UInt8) : Nat := (0xF0 &&& x.toNat) >>> 4
def lowerNibble (x : UInt8) : Nat := 0x0F &&& x.toNat

namespace Descriptor

variable (d : Descriptor)

def pixelClock : Nat := combineHi8Lo (d 1).toNat (d 0).toNat * 10000
def hActive : Nat := combineHi8Lo (upperNibble (d 4)) (d 2).toNat
def hBlanking : Nat := combineHi8Lo (lowerNibble (d 4)) (d 3).toNat
def vActive : Nat := combineHi8Lo (upperNibble (d 7)) (d 5).toNat
def vBlanking : Nat := combineHi8Lo (lowerNibble (d 7)) (d 6).toNat
def hSyncOffset : Nat := combineHi4Lo (((d 11).toNat &&& 0xC0) >>> 6) (d 8).toNat
def hSyncWidth : Nat := combineHi4Lo (((d 11).toNat &&& 0x30) >>> 4) (d 9).toNat
def vSyncOffset : Nat := combineHi4Lo (((d 11).toNat &&& 0x0C) >>> 2) (upperNibble (d 10))
def vSyncWidth : Nat := combineHi4Lo ((d 11).toNat &&& 0x03) (lowerNibble (d 10))
def interlaced : Bool := (d 17).toNat &&& 128 != 0
def hsyncPositive : Bool := (d 17).toNat &&& 4 != 0
def vsyncPositive : Bool := (d 17).toNat &&& 2 != 0
def htotal : Nat := hActive d + hBlanking d
def vtotal : Nat := vActive d + vBlanking d

end Descriptor

def roundFps (fps : Nat) : Nat := if fps = 59 then 60 else fps

def voutCheckRatio169 (resx resy : Nat) : Except Fault Bool := do
  let val ← divide (resx * 10) resy
  return 15 ≤ val

/-- What `parse_timing_description` stores in the slot `t`. -/
def describedTiming (d : Descriptor) (fps : Nat) (t : VppTiming) : VppTiming where
  pixelClock := d.pixelClock
  option := vppSetOptFps t.option (roundFps fps)
    ||| flag vppOptInterlace d.interlaced
    ||| flag (vppDvoSyncPolarHi + vppVgaHsyncPolarHi) d.hsyncPositive
    ||| flag (vppDvoVsyncPolarHi + vppVgaVsyncPolarHi) d.vsyncPositive
  hsync := d.hSyncWidth
  hbp := minus d.hBlanking (d.hSyncWidth + d.hSyncOffset)
  hpixel := d.hActive
  hfp := d.hSyncOffset
  vsync := d.vSyncWidth
  vbp := minus d.vBlanking (d.vSyncWidth + d.vSyncOffset)
  vpixel := d.vActive
  vfp := d.vSyncOffset

def freeDetail (info : EdidInfo) : Option (Fin 4) :=
  (List.finRange 4).find? fun i => info.detailTiming[i].pixelClock = 0

def parseTimingDescription (d : Descriptor) (info : EdidInfo) : Except Fault EdidInfo :=
  match freeDetail info with
  | none => .ok info
  | some i => do
    let fps ← divide d.pixelClock (d.vtotal * d.htotal)
    let wide ← voutCheckRatio169 d.hActive d.vActive
    return { info with
      detailTiming := info.detailTiming.set i (describedTiming d fps info.detailTiming[i])
      option := info.option ||| flag edidOpt169 wide }

def parseMonitorLimits (d : Descriptor) (info : EdidInfo) : EdidInfo :=
  let maxPixelClock := (d 9).toNat * 10
  if maxPixelClock = 10 * 0xff then info else { info with pixelClockLimit := maxPixelClock }

def getEstablishedTiming (b : Block) (info : EdidInfo) : EdidInfo :=
  { info with establishTiming := (b 0x23).toNat + (b 0x24).toNat <<< 8 }

def standardBytes (b : Block) (i : Fin 8) : Nat × Nat :=
  ((b ⟨0x26 + 2 * i, by omega⟩).toNat, (b ⟨0x26 + 2 * i + 1, by omega⟩).toNat)

def standardEntry (byte1 byte2 : Nat) : EdidTiming :=
  let hRes := byte1 * 8 + 248
  { resx := hRes
    resy :=
      match byte2 &&& 0xC0 with
      | 0x40 => hRes * 3 / 4
      | 0x80 => hRes * 4 / 5
      | 0xC0 => hRes * 9 / 16
      | _ => hRes * 10 / 16
    freq := (byte2 &&& 0x1F) + 60 }

def standardTimings (b : Block) : List (Fin 8) → Vector EdidTiming 8 → Vector EdidTiming 8
  | [], timings => timings
  | i :: rest, timings =>
    let (byte1, byte2) := standardBytes b i
    if byte1 = 0x01 ∧ byte2 = 0x01 then timings
    else standardTimings b rest (timings.set i (standardEntry byte1 byte2))

def getStandardTiming (b : Block) (info : EdidInfo) : EdidInfo :=
  { info with standardTiming := standardTimings b (List.finRange 8) info.standardTiming }

def parseLimits (b : Block) (info : EdidInfo) : EdidInfo :=
  (List.finRange 4).foldl (fun info i =>
    if blockType (baseDescriptor b i) = .tagged monitorLimits then
      parseMonitorLimits (baseDescriptor b i) info
    else info) info

def parseDetailed (b : Block) (info : EdidInfo) (i : Fin 4) : Except Fault EdidInfo :=
  if blockType (baseDescriptor b i) = .detailedTimingBlock then
    parseTimingDescription (baseDescriptor b i) info
  else .ok info

/-- The tests `edid_parse_v1` starts with. -/
def baseValid (b : Block) : Bool := checksum b == 0 && headerOk b

def edidParseV1 (b : Block) (info : EdidInfo) : Except Fault EdidInfo :=
  (List.finRange 4).foldlM (parseDetailed b)
    (parseLimits b (getStandardTiming b (getEstablishedTiming b info)))

def setVic (vic : Nat) (info : EdidInfo) : Except Fault EdidInfo :=
  if h : vic / 8 < 8 then
    .ok { info with ceaVic :=
      info.ceaVic.set (vic / 8) (info.ceaVic[vic / 8] ||| 1#8 <<< (vic % 8)) }
  else .error (.write (vic / 8))

def videoDataBlock (b : Block) (o len : Nat) (info : EdidInfo) : Except Fault EdidInfo :=
  (List.range len).foldlM (fun info i => do
    let code ← readByte b (o + (1 + i))
    setVic (code &&& 0x7F) info) info

def vendorDataBlock (b : Block) (o len : Nat) (info : EdidInfo) : Except Fault EdidInfo :=
  if len < 5 then .ok info
  else do
    let byte1 ← readByte b (o + 1)
    let byte2 ← readByte b (o + 2)
    let byte3 ← readByte b (o + 3)
    let byte4 ← readByte b (o + 4)
    let byte5 ← readByte b (o + 5)
    let hdmi := byte1 == 0x03 && byte2 == 0x0C && byte3 == 0x0
    if 8 ≤ len then
      -- only a message depends on the flags in the eighth byte
      let _ ← readByte b (o + 8)
    return { info with
      option := info.option ||| flag edidOptHdmi hdmi
      hdmiPhyAddr := byte4 <<< 8 + byte5 }

/-- The `switch` on the tag of a data block: the information and the length the loop moves by. -/
def taggedBlock (b : Block) (o tag len : Nat) (info : EdidInfo) :
    Except Fault (EdidInfo × Nat) :=
  match tag with
  | 2 => do
    let info ← videoDataBlock b o len info
    return (info, len)
  | 3 => do
    let info ← vendorDataBlock b o len info
    return (info, len)
  | 1 | 4 | 5 | 7 => .ok (info, len)
  | _ => .ok (info, 0)

def dataBlock (b : Block) (o : Nat) (info : EdidInfo) : Except Fault (EdidInfo × Nat) := do
  let head ← readByte b o
  taggedBlock b o ((head &&& 0xE0) >>> 5) (head &&& 0x1F) info

def dataBlocks (b : Block) (o : Nat) (info : EdidInfo) : Except Fault EdidInfo :=
  if o < 128 then
    match dataBlock b o info with
    | .error fault => .error fault
    | .ok (info, len) => if len = 0 then .ok info else dataBlocks b (o + (1 + len)) info
  else .error (.read o)
termination_by 128 - o

namespace Descriptor

variable (d : Descriptor)

def ceaClock : Nat := ((d 1).toNat <<< 8 + (d 0).toNat) * 10000
def ceaHpixel : Nat := ((d 4).toNat &&& 0xF0) <<< 4 + (d 2).toNat
def ceaHporch : Nat := ((d 4).toNat &&& 0x0F) <<< 8 + (d 3).toNat
def ceaVpixel : Nat := ((d 7).toNat &&& 0xF0) <<< 4 + (d 5).toNat
def ceaVporch : Nat := ((d 7).toNat &&& 0x0F) <<< 8 + (d 6).toNat
def ceaHfp : Nat := ((d 11).toNat &&& 0xC0) <<< 2 + (d 8).toNat
def ceaHsync : Nat := ((d 11).toNat &&& 0x30) <<< 4 + (d 9).toNat
def ceaVfp : Nat := ((d 11).toNat &&& 0x0C) <<< 2 + ((d 10).toNat &&& 0xF0) >>> 4
def ceaVsync : Nat := ((d 11).toNat &&& 0x03) <<< 4 + ((d 10).toNat &&& 0x0F)

end Descriptor

/-- What the loop over the detailed timings of an extension stores in the slot `p`. -/
def ceaDescribed (d : Descriptor) (fps : Nat) (p : VppTiming) : VppTiming where
  pixelClock := d.ceaClock
  option := vppSetOptFps p.option (roundFps fps)
    ||| flag vppOptInterlace ((d 17).toNat &&& 0x80 != 0)
    ||| flag vppDvoVsyncPolarHi ((d 17).toNat &&& 0x04 != 0)
    ||| flag vppDvoSyncPolarHi ((d 17).toNat &&& 0x02 != 0)
  hsync := d.ceaHsync
  hbp := minus (minus d.ceaHporch d.ceaHfp) d.ceaHsync
  hpixel := d.ceaHpixel
  hfp := d.ceaHfp
  vsync := d.ceaVsync
  vbp := minus (minus d.ceaVporch d.ceaVfp) d.ceaVsync
  vpixel := d.ceaVpixel
  vfp := d.ceaVfp

/-- The loop over the detailed timings: `n` of them, the next at `o` going to slot `i`. -/
def ceaTimings (b : Block) : Nat → Nat → Nat → EdidInfo → Except Fault EdidInfo
  | 0, _, _, info => .ok info
  | n + 1, o, i, info =>
    if h : i < 6 then do
      let d ← descriptor b o
      if d.ceaClock = 0 then
        return { info with
          ceaTiming := info.ceaTiming.set i { info.ceaTiming[i] with pixelClock := 0 } }
      let fps ← divide d.ceaClock
        ((d.ceaHpixel + d.ceaHporch) * (d.ceaVpixel + d.ceaVporch))
      ceaTimings b n (o + 18) (i + 1)
        { info with ceaTiming := info.ceaTiming.set i (ceaDescribed d fps info.ceaTiming[i]) }
    else .error (.write i)

/-- The tests `edid_parse_CEA` starts with. -/
def ceaValid (b : Block) : Bool := b 0 == 0x2 && b 1 == 0x3 && checksum b == 0

def edidParseCea (info : EdidInfo) (b : Block) : Except Fault EdidInfo :=
  if ceaValid b then do
    let option := BitVec.ofNat 32 ((b 3).toNat &&& 0xF0) ||| edidOptValid
    let info ← dataBlocks b 4 { info with option }
    let start := (b 2).toNat
    ceaTimings b ((128 - start) / 18) start 0 info
  else .ok info

def edidBlockMax : Nat := 4

/-- The extension blocks that are parsed, from the count in byte `0x7E` of the base block. -/
def extCnt (b : Block) : Nat :=
  if edidBlockMax ≤ (b 0x7E).toNat then edidBlockMax - 1 else (b 0x7E).toNat

def edidParse (e : Buffer) : Except Fault EdidInfo :=
  if baseValid e.base then do
    let info ← edidParseV1 e.base {}
    (e.extensions.toList.take (extCnt e.base)).foldlM edidParseCea
      { info with option := edidOptValid }
  else .ok {}

def edidEstablishTiming : List EdidTiming :=
  [⟨800, 600, 60⟩, ⟨800, 600, 56⟩, ⟨640, 480, 75⟩, ⟨640, 480, 72⟩, ⟨640, 480, 67⟩, ⟨640, 480, 60⟩,
   ⟨720, 400, 88⟩, ⟨720, 400, 70⟩, ⟨1280, 1024, 75⟩, ⟨1024, 768, 75⟩, ⟨1024, 768, 70⟩,
   ⟨1024, 768, 60⟩, ⟨1024, 768, 87⟩, ⟨832, 624, 75⟩, ⟨800, 600, 75⟩, ⟨800, 600, 72⟩,
   ⟨1152, 870, 75⟩]

def hdmiVicInterlace : Nat := 1
def hdmiVicProgress : Nat := 0
def hdmiVic4x3 : Nat := 2

structure HdmiVic where
  resx : Nat
  resy : Nat
  freq : Nat
  option : Nat
  deriving DecidableEq

def hdmiVicInfo : List HdmiVic :=
  [⟨0, 0, 0, 0⟩,
   ⟨640, 480, 60, hdmiVic4x3⟩,
   ⟨720, 480, 60, hdmiVic4x3⟩,
   ⟨720, 480, 60, 0⟩,
   ⟨1280, 720, 60, 0⟩,
   ⟨1920, 1080, 60, hdmiVicInterlace⟩,
   ⟨720, 480, 60, hdmiVic4x3 ||| hdmiVicInterlace⟩,
   ⟨720, 480, 60, hdmiVicInterlace⟩,
   ⟨720, 240, 60, hdmiVic4x3⟩,
   ⟨720, 240, 60, 0⟩,
   ⟨2880, 480, 60, hdmiVic4x3 ||| hdmiVicInterlace⟩,
   ⟨2880, 480, 60, hdmiVicInterlace⟩,
   ⟨2880, 240, 60, hdmiVic4x3⟩,
   ⟨2880, 240, 60, 0⟩,
   ⟨1440, 480, 60, hdmiVic4x3⟩,
   ⟨1440, 480, 60, 0⟩,
   ⟨1920, 1080, 60, 0⟩,
   ⟨720, 576, 50, hdmiVic4x3⟩,
   ⟨720, 576, 50, 0⟩,
   ⟨1280, 720, 50, 0⟩,
   ⟨1920, 1080, 50, hdmiVicInterlace⟩,
   ⟨720, 576, 50, hdmiVicInterlace ||| hdmiVic4x3⟩,
   ⟨720, 576, 50, hdmiVicInterlace⟩,
   ⟨720, 288, 50, hdmiVic4x3⟩,
   ⟨720, 288, 50, 0⟩,
   ⟨2880, 576, 50, hdmiVicInterlace ||| hdmiVic4x3⟩,
   ⟨2880, 576, 50, hdmiVicInterlace⟩,
   ⟨2880, 288, 50, hdmiVic4x3⟩,
   ⟨2880, 288, 50, 0⟩,
   ⟨1440, 576, 50, hdmiVic4x3⟩,
   ⟨1440, 576, 50, 0⟩,
   ⟨1920, 1080, 50, 0⟩,
   ⟨1920, 1080, 24, 0⟩,
   ⟨1920, 1080, 25, 0⟩,
   ⟨1920, 1080, 30, 0⟩]

namespace VppTiming

variable (t : VppTiming)

def interlaced : Bool := t.option &&& vppOptInterlace != 0

def freq : BitVec 32 := vppGetOptFps t.option ||| flag edidTmrInterlace t.interlaced

def ceaMatches (resx resy : Nat) (freq : BitVec 32) : Bool :=
  t.pixelClock != 0 && resx == t.hpixel
    && resy == (if t.interlaced then t.vpixel * 2 else t.vpixel) && freq == t.freq

/-- The test of the base block's slots, on the lines as they are stored. -/
def detailMatches (resx resy : Nat) (freq : BitVec 32) : Bool :=
  t.pixelClock != 0 && resx == t.hpixel && resy == t.vpixel && freq == t.freq

end VppTiming

def EdidTiming.matches (t : EdidTiming) (resx resy : Nat) (freq : BitVec 32) : Bool :=
  resx == t.resx && resy == t.resy && freq == BitVec.ofNat 32 t.freq

def HdmiVic.matches (v : HdmiVic) (resx resy : Nat) (freq : BitVec 32) : Bool :=
  resx == v.resx && resy == v.resy && freq &&& edidTmrFreq == BitVec.ofNat 32 v.freq
    && v.option &&& hdmiVicInterlace
      == (if freq &&& edidTmrInterlace != 0 then hdmiVicInterlace else hdmiVicProgress)

def EdidInfo.hasVic (info : EdidInfo) (i : Fin 64) : Bool :=
  info.ceaVic[i.val / 8] &&& 1#8 <<< (i.val % 8) != 0

def findVic (info : EdidInfo) (resx resy : Nat) (freq : BitVec 32) : Bool :=
  (List.finRange 64).any fun i =>
    info.hasVic i && (hdmiVicInfo[i.val]?).any fun v => v.matches resx resy freq

def findEstablished (info : EdidInfo) (resx resy : Nat) (freq : BitVec 32) : Bool :=
  info.establishTiming != 0 && (List.finRange 17).any fun i =>
    info.establishTiming.testBit i && (edidEstablishTiming[i.val]?).any fun t =>
      t.matches resx resy freq

def findStandard (info : EdidInfo) (resx resy : Nat) (freq : BitVec 32) : Bool :=
  info.standardTiming.toList.any fun t => t.resx != 0 && t.matches resx resy freq

def edidFindSupport (info : EdidInfo) (resx resy : Nat) (freq : BitVec 32) :
    Nat × Option VppTiming :=
  match info.ceaTiming.toList.find? fun t => t.ceaMatches resx resy freq with
  | some t => (4, some t)
  | none =>
    if findVic info resx resy freq then (5, none)
    else
      match info.detailTiming.toList.find? fun t => t.detailMatches resx resy freq with
      | some t => (3, some t)
      | none =>
        if findEstablished info resx resy freq then (1, none)
        else if findStandard info resx resy freq then (2, none)
        else (0, none)

end Apc8750.Edid
