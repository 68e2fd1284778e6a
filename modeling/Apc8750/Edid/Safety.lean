import Apc8750.Library.Checked
import Apc8750.Edid.Model

namespace Apc8750.Edid
open Apc8750.Checked

def byteAt (b : Block) (i : Nat) : Nat := if h : i < 128 then (b ⟨i, h⟩).toNat else 0

def tag (b : Block) (o : Nat) : Nat := (byteAt b o &&& 0xE0) >>> 5

def len (b : Block) (o : Nat) : Nat := byteAt b o &&& 0x1F

def stride (b : Block) (o : Nat) : Nat :=
  if tag b o ∈ [1, 2, 3, 4, 5, 7] then len b o else 0

inductive Reached (b : Block) : Nat → Nat → Prop where
  | start (o : Nat) : Reached b o o
  | next (o o' : Nat) (inside : o < 128) (goes : stride b o ≠ 0)
      (rest : Reached b (o + (1 + stride b o)) o') : Reached b o o'

def CodesFit (b : Block) (o : Nat) : Prop := ∀ i < len b o, byteAt b (o + (1 + i)) &&& 0x7F < 64

/-- The walk ends inside the block, and no video code on its way is past the array. -/
structure Walkable (b : Block) (o : Nat) : Prop where
  inside : ∀ o', Reached b o o' → o' < 128
  codes : ∀ o', Reached b o o' → tag b o' = 2 → CodesFit b o'

theorem readByte_of_lt (h : o < 128) : readByte b o = .ok (byteAt b o) := by
  simp [readByte,byteAt,h]

theorem divide_returns : Returns (divide a c) ↔ c ≠ 0 := by
  unfold divide
  split <;> simp [*]

theorem setVic_returns : Returns (setVic vic info) ↔ vic < 64 := by
  unfold setVic
  split
  · simp only [returns_ok,true_iff]
    omega
  · simp only [not_returns_error,false_iff]
    omega

theorem videoDataBlock_returns : Returns (videoDataBlock b o n info) ↔
    ∀ i < n, o + (1 + i) < 128 ∧ byteAt b (o + (1 + i)) &&& 0x7F < 64 := by
  unfold videoDataBlock
  rw [returns_foldlM (P := fun i => o + (1 + i) < 128 ∧ byteAt b (o + (1 + i)) &&& 0x7F < 64)]
  · simp only [List.mem_range]
  intro s i
  by_cases h : o + (1 + i) < 128
  · simp [readByte_of_lt h,h,setVic_returns,bind,Except.bind]
  · simp [readByte,h,bind,Except.bind]

theorem vendorDataBlock_returns (h : o + n < 128) : Returns (vendorDataBlock b o n info) := by
  unfold vendorDataBlock
  split
  · simp
  have inside : ∀ k ≤ n, readByte b (o + k) = .ok (byteAt b (o + k)) :=
    fun k hk => readByte_of_lt (by omega)
  rw [inside 1 (by omega),inside 2 (by omega),inside 3 (by omega),inside 4 (by omega),
    inside 5 (by omega)]
  by_cases eight : 8 ≤ n
  · simp [eight,inside 8 eight,bind,Except.bind]
  · simp [eight,bind,Except.bind]

theorem dataBlock_of_lt (h : o < 128) :
    dataBlock b o info = taggedBlock b o (tag b o) (len b o) info := by
  rw [dataBlock,readByte_of_lt h]
  rfl

theorem dataBlock_ok (inside : o < 128) (done : dataBlock b o info = .ok (info',n)) :
    n = stride b o ∧ (tag b o = 2 → CodesFit b o) := by
  rw [dataBlock_of_lt inside] at done
  unfold taggedBlock at done
  unfold stride
  split at done
  case h_1 video =>
    obtain ⟨i,hi,same⟩ := bind_eq_ok.mp done
    cases same
    exact ⟨by simp [video],fun _ k hk => (videoDataBlock_returns.mp ⟨_,hi⟩ k hk).2⟩
  case h_2 vendor =>
    obtain ⟨i,hi,same⟩ := bind_eq_ok.mp done
    cases same
    simp [vendor]
  all_goals
    cases done
    simp_all

theorem dataBlock_returns (inside : o < 128) (payload : o + stride b o < 128)
    (codes : tag b o = 2 → CodesFit b o) : Returns (dataBlock b o info) := by
  rw [dataBlock_of_lt inside]
  unfold stride at payload
  unfold taggedBlock
  split
  case h_1 video =>
    have fits : Returns (videoDataBlock b o (len b o) info) :=
      videoDataBlock_returns.mpr fun i hi => ⟨by simp [video] at payload; omega,codes video i hi⟩
    obtain ⟨info',done⟩ := fits
    exact returns_bind.mpr ⟨info',done,returns_pure _⟩
  case h_2 vendor =>
    have fits : Returns (vendorDataBlock b o (len b o) info) :=
      vendorDataBlock_returns (by simpa [vendor] using payload)
    obtain ⟨info',done⟩ := fits
    exact returns_bind.mpr ⟨info',done,returns_pure _⟩
  all_goals exact returns_ok _

theorem Walkable.here (h : Walkable b o) : o < 128 := h.inside o (.start o)

theorem Walkable.next (h : Walkable b o) (goes : stride b o ≠ 0) :
    Walkable b (o + (1 + stride b o)) where
  inside o' reached := h.inside o' (.next o o' h.here goes reached)
  codes o' reached := h.codes o' (.next o o' h.here goes reached)

theorem walkable_of_next (inside : o < 128) (codes : tag b o = 2 → CodesFit b o)
    (rest : stride b o ≠ 0 → Walkable b (o + (1 + stride b o))) : Walkable b o where
  inside o' reached := by
    cases reached with
    | start => exact inside
    | next _ _ _ goes more => exact (rest goes).inside o' more
  codes o' reached := by
    cases reached with
    | start => exact codes
    | next _ _ _ goes more => exact (rest goes).codes o' more

theorem Walkable.payload (h : Walkable b o) : o + stride b o < 128 := by
  by_cases goes : stride b o = 0
  · rw [goes]
    exact h.here
  · have := (h.next goes).here
    omega

theorem Walkable.round (h : Walkable b o) (info : EdidInfo) : Returns (dataBlock b o info) :=
  dataBlock_returns h.here h.payload (h.codes o (.start o))

theorem dataBlocks_returns : Returns (dataBlocks b o info) ↔ Walkable b o := by
  induction o, info using dataBlocks.induct b with
  | case1 o info inside fault failed =>
    rw [dataBlocks,if_pos inside,failed]
    refine iff_of_false (not_returns_error fault) fun walk => ?_
    obtain ⟨_,done⟩ := walk.round info
    rw [done] at failed
    cases failed
  | case2 o info inside info' done =>
    rw [dataBlocks,if_pos inside,done]
    obtain ⟨ends,codes⟩ := dataBlock_ok inside done
    exact iff_of_true (returns_ok info')
      (walkable_of_next inside codes fun goes => absurd ends.symm goes)
  | case3 o info inside info' n done more ih =>
    rw [dataBlocks,if_pos inside,done]
    obtain ⟨rfl,codes⟩ := dataBlock_ok inside done
    simp only [more,if_false]
    rw [ih]
    exact ⟨fun rest => walkable_of_next inside codes fun _ => rest,fun walk => walk.next more⟩
  | case4 o info outside =>
    rw [dataBlocks,if_neg outside]
    exact iff_of_false (not_returns_error _) fun walk => outside walk.here

def extDescriptor (b : Block) (o : Nat) : Descriptor :=
  fun k => if h : o + k < 128 then b ⟨o + k, h⟩ else 0

theorem descriptor_of_le (h : o + 18 ≤ 128) : descriptor b o = .ok (extDescriptor b o) := by
  rw [descriptor,dif_pos h]
  congr 1
  funext k
  rw [extDescriptor,dif_pos (by omega)]

def Descriptor.ceaTotal (d : Descriptor) : Nat :=
  (d.ceaHpixel + d.ceaHporch) * (d.ceaVpixel + d.ceaVporch)

/-- A slot for each timing from `o` on, and a size for each that has a clock, up to the first
without. -/
def TimingsFit (b : Block) (n o i : Nat) : Prop :=
  ∀ k < n, (∀ j < k, (extDescriptor b (o + 18 * j)).ceaClock ≠ 0) →
    i + k < 6 ∧ ((extDescriptor b (o + 18 * k)).ceaClock ≠ 0 →
      (extDescriptor b (o + 18 * k)).ceaTotal ≠ 0)

theorem timingsFit_succ : TimingsFit b (n + 1) o i ↔ i < 6 ∧ ((extDescriptor b o).ceaClock ≠ 0 →
      (extDescriptor b o).ceaTotal ≠ 0 ∧ TimingsFit b n (o + 18) (i + 1)) := by
  constructor
  · intro h
    have first := h 0 (by omega) (by omega)
    refine ⟨by omega,fun clock => ⟨first.2 clock,fun k hk before => ?_⟩⟩
    have later := h (k + 1) (by omega) fun j hj => by
      cases j with
      | zero => exact clock
      | succ j => simpa [Nat.mul_add,Nat.add_assoc,Nat.add_comm] using before j (by omega)
    have place : o + 18 * (k + 1) = o + 18 + 18 * k := by omega
    rw [place] at later
    exact ⟨by omega,later.2⟩
  · rintro ⟨slot,rest⟩ k hk before
    cases k with
    | zero => exact ⟨slot,fun clock => (rest clock).1⟩
    | succ k =>
      have clock := before 0 (by omega)
      have later := (rest clock).2 k (by omega) fun j hj => by
        have := before (j + 1) (by omega)
        rwa [show o + 18 * (j + 1) = o + 18 + 18 * j by omega] at this
      rw [show o + 18 * (k + 1) = o + 18 + 18 * k by omega]
      exact ⟨by omega,later.2⟩

theorem ceaTimings_returns (room : 0 < n → o + 18 * n ≤ 128) :
    Returns (ceaTimings b n o i info) ↔ TimingsFit b n o i := by
  induction n generalizing o i info with
  | zero => simp [ceaTimings,TimingsFit]
  | succ n ih =>
    rw [timingsFit_succ,ceaTimings]
    by_cases slot : i < 6
    · rw [dif_pos slot,descriptor_of_le (by omega),returns_bind]
      simp only [Except.ok.injEq,exists_eq_left',slot,true_and]
      by_cases clock : (extDescriptor b o).ceaClock = 0
      · simp [clock]
      · simp only [clock,if_false,returns_bind,ih (show 0 < n → o + 18 + 18 * n ≤ 128 by omega),
          exists_and_right,ne_eq,not_false_eq_true,true_implies]
        exact and_congr_left' divide_returns
    · simp [slot]

structure ExtensionFits (b : Block) : Prop where
  blocks : Walkable b 4
  slots : 2 < (b 2).toNat ∨ ∃ j < 6, (extDescriptor b ((b 2).toNat + 18 * j)).ceaClock = 0
  totals : ∀ k < (128 - (b 2).toNat) / 18,
    (∀ j ≤ k, (extDescriptor b ((b 2).toNat + 18 * j)).ceaClock ≠ 0) →
      (extDescriptor b ((b 2).toNat + 18 * k)).ceaTotal ≠ 0

theorem timingsFit_iff : TimingsFit b ((128 - (b 2).toNat) / 18) (b 2).toNat 0 ↔
    (2 < (b 2).toNat ∨ ∃ j < 6, (extDescriptor b ((b 2).toNat + 18 * j)).ceaClock = 0) ∧
    ∀ k < (128 - (b 2).toNat) / 18,
      (∀ j ≤ k, (extDescriptor b ((b 2).toNat + 18 * j)).ceaClock ≠ 0) →
        (extDescriptor b ((b 2).toNat + 18 * k)).ceaTotal ≠ 0 := by
  constructor
  · intro h
    constructor
    · by_contra full
      push Not at full
      have := h 6 (by omega) full.2
      omega
    · intro k hk clocks
      exact (h k hk fun j hj => clocks j (by omega)).2 (clocks k le_rfl)
  rintro ⟨slots,totals⟩ k hk before
  constructor
  · by_contra far
    rcases slots with late | ⟨j,hj,zero⟩
    · omega
    · exact before j (by omega) zero
  intro clock
  refine totals k hk fun j hj => ?_
  rcases Nat.lt_or_eq_of_le hj with lt | rfl
  · exact before j lt
  · exact clock

theorem edidParseCea_returns :
    Returns (edidParseCea info b) ↔ (ceaValid b = true → ExtensionFits b) := by
  unfold edidParseCea
  by_cases valid : ceaValid b = true
  · have room : 0 < (128 - (b 2).toNat) / 18 →
        (b 2).toNat + 18 * ((128 - (b 2).toNat) / 18) ≤ 128 := by omega
    rw [if_pos valid,returns_bind]
    simp only [ceaTimings_returns room,exists_and_right,valid,true_implies]
    constructor
    · rintro ⟨walked,fit⟩
      obtain ⟨slots,totals⟩ := timingsFit_iff.mp fit
      exact ⟨dataBlocks_returns.mp walked,slots,totals⟩
    · intro fits
      exact ⟨dataBlocks_returns.mpr fits.blocks,timingsFit_iff.mpr ⟨fits.slots,fits.totals⟩⟩
  · simp [valid]

/-- The first `m` slots of `detail_timing` are in use and the others as `memset` left them. -/
structure Filled (info : EdidInfo) (m : Nat) : Prop where
  used : ∀ j (_ : j < 4), j < m → info.detailTiming[j].pixelClock ≠ 0
  fresh : ∀ j (_ : j < 4), m ≤ j → info.detailTiming[j] = {}

theorem Filled.freeDetail (h : Filled info m) (room : m < 4) :
    freeDetail info = some ⟨m,room⟩ := by
  rw [Edid.freeDetail,List.find?_eq_some_iff_getElem]
  refine ⟨by simp [h.fresh m room le_rfl],m,by simpa using room,by simp,fun j hj => ?_⟩
  simpa using h.used j (by omega) hj

theorem voutCheckRatio169_returns : Returns (voutCheckRatio169 x y) ↔ y ≠ 0 := by
  unfold voutCheckRatio169
  rw [returns_bind_of fun _ => returns_pure _]
  exact divide_returns

def Descriptor.Sized (d : Descriptor) : Prop := d.vActive ≠ 0 ∧ d.htotal ≠ 0

def Descriptor.fps (d : Descriptor) : Nat := d.pixelClock / (d.vtotal * d.htotal)

theorem parseTimingDescription_returns (h : Filled info m) (room : m < 4) :
    Returns (parseTimingDescription d info) ↔ d.Sized := by
  rw [parseTimingDescription,h.freeDetail room]
  simp only [returns_bind,exists_and_right,returns_pure,and_true]
  constructor
  · rintro ⟨total,wide⟩
    exact ⟨voutCheckRatio169_returns.mp wide,fun zero => divide_returns.mp total (by simp [zero])⟩
  rintro ⟨lines,pixels⟩
  have frame : d.vtotal * d.htotal ≠ 0 :=
    Nat.mul_ne_zero (by unfold Descriptor.vtotal; omega) pixels
  exact ⟨divide_returns.mpr frame,voutCheckRatio169_returns.mpr lines⟩

theorem parseTimingDescription_ok (h : Filled info m) (room : m < 4)
    (done : parseTimingDescription d info = .ok info') :
    ∃ wide, info' = { info with
      detailTiming := info.detailTiming.set m (describedTiming d d.fps {})
      option := info.option ||| flag edidOpt169 wide } := by
  rw [parseTimingDescription,h.freeDetail room] at done
  obtain ⟨fps,total,done⟩ := bind_eq_ok.mp done
  obtain ⟨wide,ratio,done⟩ := bind_eq_ok.mp done
  cases done
  unfold divide at total
  split at total
  · cases total
  cases total
  refine ⟨wide,?_⟩
  have unused := h.fresh m room le_rfl
  simp only [Fin.getElem_fin,unused,Descriptor.fps]

theorem Filled.set (h : Filled info m) (room : m < 4) (clock : t.pixelClock ≠ 0)
    (option : BitVec 32) :
    Filled { info with detailTiming := info.detailTiming.set m t, option } (m + 1) where
  used j inside hj := by
    by_cases same : m = j
    · simpa [Vector.getElem_set,same] using clock
    · simpa [Vector.getElem_set,same] using h.used j inside (by omega)
  fresh j inside hj := by
    have other : m ≠ j := by omega
    simpa [Vector.getElem_set,other] using h.fresh j inside (by omega)

theorem clock_ne_zero (h : blockType d = .detailedTimingBlock) : d.pixelClock ≠ 0 := by
  intro zero
  have both : d 0 = 0 ∧ d 1 = 0 := by
    have word : combineHi8Lo (d 1).toNat (d 0).toNat = 0 :=
      (Nat.mul_eq_zero.mp zero).resolve_right (by decide)
    simp only [combineHi8Lo,Nat.or_eq_zero_iff,Nat.shiftLeft_eq_zero_iff] at word
    exact ⟨UInt8.toNat_inj.mp word.2,UInt8.toNat_inj.mp word.1⟩
  simp only [blockType,both,and_self,if_true] at h
  split at h <;> cases h

theorem parseDetailed_ok (h : Filled info m) (room : m < 4)
    (done : parseDetailed b info i = .ok info') : Filled info' m ∨ Filled info' (m + 1) := by
  unfold parseDetailed at done
  split at done
  · rename_i detailed
    obtain ⟨wide,rfl⟩ := parseTimingDescription_ok h room done
    exact .inr (h.set room (clock_ne_zero detailed) _)
  · cases done
    exact .inl h

theorem parseLimits_eq (b : Block) (info : EdidInfo) :
    ∃ limit, parseLimits b info = { info with pixelClockLimit := limit } := by
  unfold parseLimits
  induction List.finRange 4 generalizing info with
  | nil => exact ⟨_,rfl⟩
  | cons i l ih =>
    rw [List.foldl_cons]
    obtain ⟨limit,same⟩ := ih (if blockType (baseDescriptor b i) = .tagged monitorLimits then
      parseMonitorLimits (baseDescriptor b i) info else info)
    refine ⟨limit,same.trans ?_⟩
    simp only [parseMonitorLimits]
    split
    · split <;> rfl
    · rfl

theorem filled_start : Filled (parseLimits b (getStandardTiming b (getEstablishedTiming b {}))) 0 where
  used j _ hj := absurd hj (by omega)
  fresh j _ _ := by
    obtain ⟨limit,same⟩ := parseLimits_eq b (getStandardTiming b (getEstablishedTiming b {}))
    rw [same]
    simp [getStandardTiming,getEstablishedTiming]

theorem edidParseV1_returns : Returns (edidParseV1 b {}) ↔
    ∀ i, blockType (baseDescriptor b i) = .detailedTimingBlock → (baseDescriptor b i).Sized := by
  unfold edidParseV1
  rw [returns_foldlM_of (I := fun l info => ∃ m, m + l.length ≤ 4 ∧ Filled info m)
    (P := fun i => blockType (baseDescriptor b i) = .detailedTimingBlock →
      (baseDescriptor b i).Sized)]
  · simp
  · rintro info i l ⟨m,room,filled⟩
    rw [List.length_cons] at room
    unfold parseDetailed
    split
    · rename_i detailed
      simp [detailed,parseTimingDescription_returns filled (by omega)]
    · rename_i other
      simp [other]
  · rintro info i l info' ⟨m,room,filled⟩ done
    rw [List.length_cons] at room
    rcases parseDetailed_ok filled (by omega) done with same | more
    · exact ⟨m,by omega,same⟩
    · exact ⟨m + 1,by omega,more⟩
  · exact ⟨0,by simp,filled_start⟩

structure Fits (e : Buffer) : Prop where
  base : ∀ i, blockType (baseDescriptor e.base i) = .detailedTimingBlock →
    (baseDescriptor e.base i).Sized
  extensions : ∀ b ∈ e.extensions.toList.take (extCnt e.base), ceaValid b = true → ExtensionFits b

theorem extensions_returns (l : List Block) (info : EdidInfo) :
    Returns (l.foldlM edidParseCea info) ↔ ∀ b ∈ l, ceaValid b = true → ExtensionFits b :=
  returns_foldlM (f := edidParseCea) (fun _ _ => edidParseCea_returns) l info

theorem Fits.parse (fits : Fits e) (valid : baseValid e.base = true) : Returns (edidParse e) := by
  rw [edidParse,if_pos valid,returns_bind]
  obtain ⟨info,base⟩ := edidParseV1_returns.mpr fits.base
  exact ⟨info,base,(extensions_returns _ _).mpr fits.extensions⟩

theorem fits_of_parse (valid : baseValid e.base = true) (done : edidParse e = .ok info) :
    Fits e := by
  rw [edidParse,if_pos valid] at done
  obtain ⟨base,first,rest⟩ := bind_eq_ok.mp done
  exact ⟨edidParseV1_returns.mp ⟨base,first⟩,(extensions_returns _ _).mp ⟨info,rest⟩⟩

/-- `edid_parse` keeps to its arrays and divides by nothing that is zero exactly when the bytes keep
it there. -/
theorem edid_parse_in_range (e : Buffer) (valid : baseValid e.base = true) :
    (∃ info, edidParse e = .ok info) ↔ Fits e :=
  ⟨fun ⟨_, done⟩ => fits_of_parse valid done, fun fits => fits.parse valid⟩

def announcing : Block := fun i =>
  if 0x26 ≤ i.val ∧ i.val < 0x36 then 0x01
  else match i.val with
    | 1 | 2 | 3 | 4 | 5 | 6 => 0xff
    | 0x7E => 1
    | 127 => 245
    | _ => 0

def videoCode (code check : UInt8) : Block := fun i =>
  match i.val with
  | 0 => 2
  | 1 => 3
  | 2 => 6
  | 4 => 0x41
  | 5 => code
  | 127 => check
  | _ => 0

def monitor (extension : Block) : Buffer where
  base := announcing
  extensions := #v[extension, fun _ => 0, fun _ => 0]

theorem monitor_base (extension : Block) : (monitor extension).base = announcing := rfl

theorem monitor_valid (extension : Block) : baseValid (monitor extension).base = true := by
  rw [monitor_base]
  decide +kernel

theorem edidParse_monitor (extension : Block) :
    edidParse (monitor extension) = edidParseCea { option := edidOptValid } extension := by
  have base : edidParseV1 announcing {} = .ok {} := by decide +kernel
  rw [edidParse,if_pos (monitor_valid extension),monitor_base,base]
  change List.foldlM edidParseCea _ [extension] = _
  simp [List.foldlM_cons]

theorem announcing_timings (i : Fin 4) :
    blockType (baseDescriptor announcing i) ≠ .detailedTimingBlock := by
  revert i
  decide

theorem monitor_extensions (extension : Block) :
    (monitor extension).extensions.toList.take (extCnt (monitor extension).base) = [extension] := by
  simp [monitor,extCnt,announcing,edidBlockMax]

theorem videoCode_fits : ExtensionFits (videoCode 16 164) := by
  have last : Walkable (videoCode 16 164) 6 :=
    walkable_of_next (by decide) (fun video => absurd video (by decide))
      fun goes => absurd (by decide) goes
  have first : Walkable (videoCode 16 164) 4 :=
    walkable_of_next (by decide) (fun _ => by unfold CodesFit; decide) fun _ => last
  exact ⟨first,.inl (by decide),fun k _ clocks => absurd (by decide) (clocks 0 (Nat.zero_le k))⟩

theorem monitor_fits : Fits (monitor (videoCode 16 164)) where
  base i detailed := absurd detailed (announcing_timings i)
  extensions b hb _ := by
    rw [monitor_extensions,List.mem_singleton] at hb
    rw [hb]
    exact videoCode_fits

theorem edid_parse_in_range_code : baseValid (monitor (videoCode 16 164)).base = true ∧
    ∃ info, edidParse (monitor (videoCode 16 164)) = .ok info :=
  ⟨monitor_valid _, (edid_parse_in_range _ (monitor_valid _)).mpr monitor_fits⟩

theorem edid_parse_past_codes : baseValid (monitor (videoCode 64 116)).base = true ∧
    edidParse (monitor (videoCode 64 116)) = .error (.write 8) := by
  have walk (info : EdidInfo) : dataBlocks (videoCode 64 116) 4 info = .error (.write 8) := by
    rw [dataBlocks]
    rfl
  refine ⟨monitor_valid _, ?_⟩
  rw [edidParse_monitor, edidParseCea, if_pos (by decide +kernel)]
  simp only [walk]
  rfl

end Apc8750.Edid
