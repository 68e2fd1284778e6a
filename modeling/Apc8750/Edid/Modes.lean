import Apc8750.Edid.Safety

namespace Apc8750.Edid

/-- A mode: the size of a whole frame, the refresh rate and whether it is interlaced. -/
structure Mode where
  resx : Nat
  resy : Nat
  freq : Nat
  interlaced : Bool := false
  deriving DecidableEq

/-- Lowest bit first, and of the top bit of `MANUFACTURERS_TIMINGS`. -/
def establishedModes : List Mode :=
  [⟨800, 600, 60, false⟩, ⟨800, 600, 56, false⟩, ⟨640, 480, 75, false⟩, ⟨640, 480, 72, false⟩,
   ⟨640, 480, 67, false⟩, ⟨640, 480, 60, false⟩, ⟨720, 400, 88, false⟩, ⟨720, 400, 70, false⟩,
   ⟨1280, 1024, 75, false⟩, ⟨1024, 768, 75, false⟩, ⟨1024, 768, 70, false⟩,
   ⟨1024, 768, 60, false⟩, ⟨1024, 768, 87, true⟩, ⟨832, 624, 75, false⟩, ⟨800, 600, 75, false⟩,
   ⟨800, 600, 72, false⟩, ⟨1152, 870, 75, false⟩]

def establishedBit (b : Block) (k : Nat) : Bool :=
  if k < 8 then (b 0x23).toNat.testBit k
  else if k < 16 then (b 0x24).toNat.testBit (k - 8)
  else (b 0x25).toNat.testBit 7

/-- A pair of bytes other than the `01 01` of an unused entry. -/
def StandardUsed (b : Block) (i : Fin 8) : Prop := standardBytes b i ≠ (0x01, 0x01)

instance : DecidablePred (StandardUsed b) :=
  fun i => inferInstanceAs (Decidable (standardBytes b i ≠ (0x01, 0x01)))

/-- An aspect of `00` is square before version 1.3. -/
def beforeV13 (b : Block) : Bool := (b 0x12).toNat * 256 + (b 0x13).toNat < 0x103

def standardMode (square : Bool) (byte1 byte2 : Nat) : Mode :=
  let hRes := byte1 * 8 + 248
  { resx := hRes
    resy :=
      match byte2 &&& 0xC0 with
      | 0x40 => hRes * 3 / 4
      | 0x80 => hRes * 4 / 5
      | 0xC0 => hRes * 9 / 16
      | _ => if square then hRes else hRes * 10 / 16
    freq := (byte2 &&& 0x3F) + 60 }

/-- An interlaced timing counts the lines and the rate of its fields. -/
def Descriptor.mode (d : Descriptor) : Mode where
  resx := d.hActive
  resy := if d.interlaced then d.vActive * 2 else d.vActive
  freq := roundFps d.fps
  interlaced := d.interlaced

def HdmiVic.mode (v : HdmiVic) : Mode where
  resx := v.resx
  resy := v.resy
  freq := v.freq
  interlaced := v.option &&& hdmiVicInterlace != 0

def timingStart (b : Block) : Nat := (b 2).toNat

def extTiming (b : Block) (k : Nat) : Descriptor := extDescriptor b (timingStart b + 18 * k)

inductive Listed (b : Block) : Nat → Prop where
  | first (some : 4 < timingStart b) : Listed b 4
  | next (o : Nat) (listed : Listed b o) (more : o + (1 + len b o) < timingStart b) :
      Listed b (o + (1 + len b o))

def CodeIn (b : Block) (o code : Nat) : Prop :=
  tag b o = 2 ∧ ∃ i < len b o, byteAt b (o + (1 + i)) &&& 0x7F = code

/-- A detailed timing of an extension lies before the checksum, and no timing up to it is unused. -/
def TimingListed (b : Block) (k : Nat) : Prop :=
  timingStart b ≠ 0 ∧ timingStart b + 18 * (k + 1) ≤ 127 ∧ ∀ j ≤ k, (extTiming b j).pixelClock ≠ 0

def accepted (e : Buffer) : List Block :=
  (e.extensions.toList.take (extCnt e.base)).filter ceaValid

inductive Advertised (e : Buffer) : Mode → Prop where
  | established (k : Nat) (m : Mode) (mode : establishedModes[k]? = some m)
      (bit : establishedBit e.base k = true) : Advertised e m
  | standard (i : Fin 8) (used : StandardUsed e.base i) :
      Advertised e (standardMode (beforeV13 e.base) (standardBytes e.base i).1
        (standardBytes e.base i).2)
  | detailed (i : Fin 4) (timing : blockType (baseDescriptor e.base i) = .detailedTimingBlock) :
      Advertised e (baseDescriptor e.base i).mode
  | extension (b : Block) (k : Nat) (mem : b ∈ accepted e) (listed : TimingListed b k) :
      Advertised e (extTiming b k).mode
  | video (b : Block) (o code : Nat) (v : HdmiVic) (mem : b ∈ accepted e) (listed : Listed b o)
      (coded : CodeIn b o code) (known : hdmiVicInfo[code]? = some v) : Advertised e v.mode

def timingSlots (b : Block) : Nat := (128 - timingStart b) / 18

/-- The data blocks end where the timings start, and the timings before the checksum. -/
structure PlainExtension (b : Block) : Prop where
  walk : Reached b 4 (timingStart b)
  ends : stride b (timingStart b) = 0
  padded : (128 - timingStart b) % 18 ≠ 0 ∨ ∃ j < timingSlots b, (extTiming b j).pixelClock = 0
  rates : ∀ k, TimingListed b k → (extTiming b k).fps < 256

/-- The timings of an extension do not meet those of an earlier one in `cea_timing`. -/
def Apart (b b' : Block) : Prop :=
  timingSlots b = 0 ∨ (extTiming b 0).pixelClock = 0 ∨ timingSlots b' = 0

/-- An EDID without the entries `edid_parse` and `edid_find_support` take for something else. -/
structure Plain (e : Buffer) : Prop where
  fits : Fits e
  established : establishedBit e.base 12 = false ∧ establishedBit e.base 16 = false
  standardTogether : ∀ i j : Fin 8, i ≤ j → ¬ StandardUsed e.base i → ¬ StandardUsed e.base j
  standardRate : ∀ i, StandardUsed e.base i → (standardBytes e.base i).2.testBit 5 = false
  standardAspect : ∀ i, StandardUsed e.base i → (standardBytes e.base i).2 &&& 0xC0 = 0 →
    beforeV13 e.base = false
  detailed : ∀ i, blockType (baseDescriptor e.base i) = .detailedTimingBlock →
    (baseDescriptor e.base i).interlaced = false ∧ (baseDescriptor e.base i).fps < 256
  extensions : ∀ b ∈ accepted e, PlainExtension b
  once : (accepted e).Pairwise Apart

end Apc8750.Edid
