import Apc8750.Edid.Collection

namespace Apc8750.Edid
open Apc8750.Checked

/-- In the option word and in byte 3 of an extension. -/
def FormatBit (k : Nat) : Prop := 4 ≤ k ∧ k < 8

def CarriesHdmi (b : Block) : Prop := ∃ o, Listed b o ∧ hdmiAt b o = true

structure Accumulates (e : Buffer) (info : EdidInfo) : Prop where
  valid : info.option &&& edidOptValid ≠ 0
  hdmi : (∃ b ∈ accepted e, CarriesHdmi b) → info.option &&& edidOptHdmi ≠ 0
  formats : ∀ k, FormatBit k → (∃ b ∈ accepted e, (b 3).toNat.testBit k = true) →
    info.option.getLsbD k = true

/-- An extension that sets all that the given ones set, with its HDMI block where the walk finds it.
-/
structure SetsAll (seen : List Block) (last : Block) : Prop where
  hdmi : (∃ b ∈ seen, CarriesHdmi b) → ∃ o, Reached last 4 o ∧ hdmiAt last o = true
  formats : ∀ k, FormatBit k → (∃ b ∈ seen, (b 3).toNat.testBit k = true) → (last 3).toNat.testBit k = true

theorem ExtensionRead.option (h : ExtensionRead b info info') :
    ∃ hdmi, info'.option = BitVec.ofNat 32 ((b 3).toNat &&& 0xF0) ||| edidOptValid ||| flag edidOptHdmi hdmi := by
  by_cases some : ∃ o, Reached b 4 o ∧ hdmiAt b o = true
  · exact ⟨true,h.hdmi some⟩
  · refine ⟨false,?_⟩
    rw [h.plain fun o reached => by simpa using fun hdmi => some ⟨o,reached,hdmi⟩]
    exact BitVec.or_zero.symm

theorem formatBit_mask (format : FormatBit k) : (0xF0 : Nat).testBit k = true ∧ edidOptValid.getLsbD k = false ∧
    ∀ hdmi, (flag edidOptHdmi hdmi).getLsbD k = false := by
  have all : ∀ k < 8, 4 ≤ k → (0xF0 : Nat).testBit k = true ∧ edidOptValid.getLsbD k = false ∧
      ∀ hdmi, (flag edidOptHdmi hdmi).getLsbD k = false := by decide
  exact all k format.2 format.1

theorem ExtensionRead.format (h : ExtensionRead b info info') (format : FormatBit k) :
    info'.option.getLsbD k = (b 3).toNat.testBit k := by
  obtain ⟨hdmi,option⟩ := h.option
  obtain ⟨mask,valid,plain⟩ := formatBit_mask format
  have small : k < 32 := Nat.lt_trans format.2 (by decide)
  rw [option,BitVec.getLsbD_or,BitVec.getLsbD_or,valid,plain,BitVec.getLsbD_ofNat,Nat.testBit_and,mask]
  simp [small]

theorem ExtensionRead.valid (h : ExtensionRead b info info') : info'.option &&& edidOptValid ≠ 0 := by
  obtain ⟨hdmi,option⟩ := h.option
  intro zero
  have low := congrArg (fun w => BitVec.getLsbD w 0) zero
  simp [option,edidOptValid] at low

theorem edidParse_last (valid : baseValid e.base = true) (split : accepted e = seen ++ [last])
    (done : edidParse e = .ok info) : ∃ before, ExtensionRead last before info := by
  rw [edidParse,if_pos valid] at done
  obtain ⟨base,_,rest⟩ := bind_eq_ok.mp done
  rw [foldlM_accepted,show List.filter _ _ = accepted e from rfl,split,List.foldlM_append] at rest
  obtain ⟨before,_,step⟩ := bind_eq_ok.mp rest
  rw [List.foldlM_cons] at step
  obtain ⟨after,step,eq⟩ := bind_eq_ok.mp step
  cases eq
  have mem : last ∈ accepted e := by simp [split]
  exact ⟨before,edidParseCea_read (List.mem_filter.mp mem).2 step⟩

theorem edidParse_none (valid : baseValid e.base = true) (none : accepted e = []) (done : edidParse e = .ok info) :
    info.option = edidOptValid := by
  rw [edidParse,if_pos valid] at done
  obtain ⟨base,_,rest⟩ := bind_eq_ok.mp done
  rw [foldlM_accepted,show List.filter _ _ = accepted e from rfl,none] at rest
  cases rest
  rfl

theorem ExtensionRead.accumulates_iff (read : ExtensionRead last info' info) :
    Accumulates e info ↔ SetsAll (accepted e) last := by
  constructor
  · intro h
    refine ⟨fun some => read.hdmi_iff.mp (h.hdmi some),fun k format some => ?_⟩
    rw [← read.format format]
    exact h.formats k format some
  intro h
  refine ⟨read.valid,fun some => read.hdmi_iff.mpr (h.hdmi some),fun k format some => ?_⟩
  rw [read.format format]
  exact h.formats k format some

theorem accumulates_none (none : accepted e = []) (option : info.option = edidOptValid) : Accumulates e info where
  valid := by
    rw [option]
    decide
  hdmi := by simp [none]
  formats := by simp [none]

/-- The options of all extensions are returned exactly if the last one accepted sets all of them. -/
theorem options_accumulate (e : Buffer) (valid : baseValid e.base = true) :
    (∃ info, edidParse e = .ok info ∧ Accumulates e info) ↔
      Fits e ∧ ∀ last ∈ (accepted e).getLast?, SetsAll (accepted e) last := by
  have parses {info : EdidInfo} (done : edidParse e = .ok info) :
      Accumulates e info ↔ ∀ last ∈ (accepted e).getLast?, SetsAll (accepted e) last := by
    rcases List.eq_nil_or_concat' (accepted e) with none | ⟨seen, last, split⟩
    · simp [none, accumulates_none none (edidParse_none valid none done)]
    · obtain ⟨before, read⟩ := edidParse_last valid split done
      rw [read.accumulates_iff]
      simp [split]
  constructor
  · rintro ⟨info, done, all⟩
    exact ⟨fits_of_parse valid done, (parses done).mp all⟩
  · rintro ⟨fits, sets⟩
    obtain ⟨info, done⟩ := fits.parse valid
    exact ⟨info, done, (parses done).mpr sets⟩

theorem options_accumulate_code : ∃ info, edidParse (monitor (videoCode 16 164)) = .ok info ∧
    Accumulates (monitor (videoCode 16 164)) info := by
  refine (options_accumulate _ (monitor_valid _)).mpr ⟨monitor_fits, ?_⟩
  rw [accepted_monitor videoCode_valid]
  intro last mem
  cases mem
  refine ⟨?_, ?_⟩
  · rintro ⟨b, mem, carries⟩
    rw [List.mem_singleton.mp mem] at carries
    exact videoCode_suits.hdmi.mpr carries
  · rintro k _ ⟨b, mem, set⟩
    rwa [List.mem_singleton.mp mem] at set

def bareExtension (formats check : UInt8) : Block := fun i =>
  match i.val with
  | 0 => 2
  | 1 => 3
  | 2 => 4
  | 3 => formats
  | 127 => check
  | _ => 0

def audioFirst : Buffer where
  base := fun i => if i = 0x7E then 2 else if i = 127 then 244 else announcing i
  extensions := #v[bareExtension 0x40 183, bareExtension 0 247, fun _ => 0]

theorem audioFirst_accepted : accepted audioFirst = [bareExtension 0x40 183] ++ [bareExtension 0 247] := by
  have first : ceaValid (bareExtension 0x40 183) = true := by decide +kernel
  have second : ceaValid (bareExtension 0 247) = true := by decide +kernel
  have two : audioFirst.extensions.toList.take (extCnt audioFirst.base) =
      [bareExtension 0x40 183,bareExtension 0 247] := rfl
  rw [accepted,two]
  simp [first,second]

theorem audioFirst_fits : Fits audioFirst where
  base i detailed := absurd detailed (by revert i; decide)
  extensions b mem valid := by
    have listed : b ∈ accepted audioFirst := List.mem_filter.mpr ⟨mem,valid⟩
    rw [audioFirst_accepted] at listed
    rcases List.mem_append.mp listed with h | h
    · rw [List.mem_singleton.mp h]
      exact extensionFits_of_stop (by decide) (by decide) (by decide) (by decide)
    · rw [List.mem_singleton.mp h]
      exact extensionFits_of_stop (by decide) (by decide) (by decide) (by decide)

theorem options_audio_lost : baseValid audioFirst.base = true ∧
    (∃ b ∈ accepted audioFirst, (b 3).toNat.testBit 6 = true) ∧
    ∃ info, edidParse audioFirst = .ok info ∧ info.option.getLsbD 6 = false := by
  have valid : baseValid audioFirst.base = true := by decide +kernel
  obtain ⟨info, done⟩ := audioFirst_fits.parse valid
  obtain ⟨before, read⟩ := edidParse_last valid audioFirst_accepted done
  refine ⟨valid, ⟨bareExtension 0x40 183, ?_, by decide⟩, info, done, ?_⟩
  · rw [audioFirst_accepted]
    exact List.mem_cons_self
  · rw [read.format ⟨by decide, by decide⟩]
    decide

end Apc8750.Edid
