import Apc8750.Library.Masks
import Apc8750.Edid.Words

namespace Apc8750.Edid
open Apc8750.Checked

variable {b : Block} {o n : Nat} {info info' : EdidInfo}

theorem exists_set {α : Type} {v : Vector α n} {m : Nat} (room : m < n) {x t : α}
    (other : v[m] ≠ t) :
    (∃ j : Fin n, (v.set m x)[j] = t) ↔ (∃ j : Fin n, v[j] = t) ∨ x = t := by
  constructor
  · rintro ⟨j,hj⟩
    by_cases same : m = j
    · exact .inr (by simpa [Vector.getElem_set,same] using hj)
    · exact .inl ⟨j,by simpa [Vector.getElem_set,same] using hj⟩
  rintro (⟨j,hj⟩ | rfl)
  · have apart : m ≠ j := by
      rintro rfl
      exact other hj
    exact ⟨j,by simpa [Vector.getElem_set,apart] using hj⟩
  · exact ⟨⟨m,room⟩,by simp⟩

def baseTiming (d : Descriptor) : VppTiming := describedTiming d d.fps {}

structure BaseRead (b : Block) (done : List (Fin 4)) (info : EdidInfo) : Prop where
  establishTiming : info.establishTiming = (b 0x23).toNat + (b 0x24).toNat <<< 8
  standardTiming :
    info.standardTiming = standardTimings b (List.finRange 8) (Vector.replicate 8 {})
  ceaTiming : info.ceaTiming = Vector.replicate 6 {}
  ceaVic : info.ceaVic = Vector.replicate 8 0
  filled : ∃ m ≤ done.length, Filled info m
  timings : ∀ t : VppTiming, t.pixelClock ≠ 0 → ((∃ j : Fin 4, info.detailTiming[j] = t) ↔
    ∃ i ∈ done, blockType (baseDescriptor b i) = .detailedTimingBlock ∧
      t = baseTiming (baseDescriptor b i))

theorem baseRead_start :
    BaseRead b [] (parseLimits b (getStandardTiming b (getEstablishedTiming b {}))) := by
  obtain ⟨limit,same⟩ := parseLimits_eq b (getStandardTiming b (getEstablishedTiming b {}))
  have filled : Filled (parseLimits b (getStandardTiming b (getEstablishedTiming b {}))) 0 :=
    filled_start
  rw [same] at filled ⊢
  refine ⟨rfl,rfl,rfl,rfl,⟨0,le_rfl,filled⟩,fun t clock => ?_⟩
  simp only [List.not_mem_nil,false_and,exists_false,iff_false]
  rintro ⟨j,rfl⟩
  have unused := filled.fresh j j.isLt (Nat.zero_le _)
  exact clock (congrArg VppTiming.pixelClock unused)

theorem baseRead_step {done : List (Fin 4)} {i : Fin 4} (room : done.length < 4)
    (h : BaseRead b done info) (step : parseDetailed b info i = .ok info') :
    BaseRead b (done ++ [i]) info' := by
  obtain ⟨m,few,filled⟩ := h.filled
  unfold parseDetailed at step
  split at step
  · rename_i detailed
    have room : m < 4 := by omega
    obtain ⟨wide,rfl⟩ := parseTimingDescription_ok filled room step
    refine ⟨h.establishTiming,h.standardTiming,h.ceaTiming,h.ceaVic,
      ⟨m + 1,by simp; omega,filled.set room (clock_ne_zero detailed) _⟩,fun t clock => ?_⟩
    have unused : info.detailTiming[m] ≠ t := by
      rintro rfl
      exact clock (by rw [show info.detailTiming[m] = {} from filled.fresh m room le_rfl])
    simp only [exists_set room unused,h.timings t clock,List.mem_append,List.mem_singleton]
    constructor
    · rintro (⟨k,hk,found⟩ | rfl)
      · exact ⟨k,.inl hk,found⟩
      · exact ⟨i,.inr rfl,detailed,rfl⟩
    · rintro ⟨k,hk | rfl,found⟩
      · exact .inl ⟨k,hk,found⟩
      · exact .inr found.2.symm
  · rename_i other
    cases step
    refine ⟨h.establishTiming,h.standardTiming,h.ceaTiming,h.ceaVic,?_,fun t clock => ?_⟩
    · exact ⟨m,by simp; omega,filled⟩
    · rw [h.timings t clock]
      simp [other]

theorem edidParseV1_ok (done : edidParseV1 b {} = .ok info) :
    BaseRead b (List.finRange 4) info := by
  refine foldlM_ok (fun seen i rest s t split h step => ?_) baseRead_start done
  have length := congrArg List.length split
  simp only [List.length_finRange,List.length_append,List.length_cons] at length
  exact baseRead_step (by omega) h step

/-- A step that sets the bits of the codes in `codes` and keeps the timings. -/
structure Adds (codes : Nat → Prop) (info info' : EdidInfo) : Prop where
  establishTiming : info'.establishTiming = info.establishTiming
  standardTiming : info'.standardTiming = info.standardTiming
  detailTiming : info'.detailTiming = info.detailTiming
  ceaTiming : info'.ceaTiming = info.ceaTiming
  vics : ∀ i : Fin 64, info'.hasVic i = true ↔ info.hasVic i = true ∨ codes i

theorem Adds.congr (h : Adds codes info info') (same : ∀ c, codes c ↔ codes' c) :
    Adds codes' info info' :=
  { h with vics := fun i => (h.vics i).trans (or_congr_right (same i)) }

theorem Adds.trans (h : Adds codes info info') (h' : Adds codes' info' info'') :
    Adds (fun c => codes c ∨ codes' c) info info'' where
  establishTiming := h'.establishTiming.trans h.establishTiming
  standardTiming := h'.standardTiming.trans h.standardTiming
  detailTiming := h'.detailTiming.trans h.detailTiming
  ceaTiming := h'.ceaTiming.trans h.ceaTiming
  vics i := by rw [h'.vics,h.vics,or_assoc]

theorem Adds.none (info : EdidInfo) (option : BitVec 32) (addr : Nat) :
    Adds (fun _ => False) info { info with option, hdmiPhyAddr := addr } :=
  ⟨rfl,rfl,rfl,rfl,fun i => by simp [EdidInfo.hasVic]⟩

theorem setVic_ok (done : setVic vic info = .ok info') : Adds (fun c => c = vic) info info' := by
  unfold setVic at done
  split at done
  case isFalse => cases done
  case isTrue room =>
    cases done
    refine ⟨rfl,rfl,rfl,rfl,fun i => ?_⟩
    simp only [EdidInfo.hasVic,Masks.and_mask_bne]
    by_cases byte : vic / 8 = i.val / 8
    · have bit : (i.val % 8 < 8 ∧ vic % 8 = i.val % 8) ↔ i.val = vic := by omega
      simp only [byte,Vector.getElem_set_self,BitVec.getLsbD_or,Masks.mask_getLsbD,
        Bool.or_eq_true,Bool.and_eq_true,decide_eq_true_eq,bit]
    · have apart : i.val ≠ vic := by omega
      simp [byte,apart]

theorem readByte_ok (done : readByte b o = .ok code) : byteAt b o = code := by
  unfold readByte at done
  split at done
  · rename_i inside
    cases done
    rw [byteAt,dif_pos inside]
  · cases done

theorem videoDataBlock_ok (done : videoDataBlock b o n info = .ok info') :
    Adds (fun c => ∃ i < n, byteAt b (o + (1 + i)) &&& 0x7F = c) info info' := by
  have all : Adds (fun c => ∃ i ∈ List.range n, byteAt b (o + (1 + i)) &&& 0x7F = c) info info' := by
    refine foldlM_ok (J := fun seen info' => Adds
      (fun c => ∃ i ∈ seen, byteAt b (o + (1 + i)) &&& 0x7F = c) info info') ?_ ?_ done
    · intro seen i rest s t split h step
      obtain ⟨code,read,set⟩ := bind_eq_ok.mp step
      rw [← readByte_ok read] at set
      refine (h.trans (setVic_ok set)).congr fun c => ?_
      simp only [List.mem_append,List.mem_singleton,or_and_right,exists_or,exists_eq_left]
      exact or_congr_right eq_comm
    · exact (Adds.none info info.option info.hdmiPhyAddr).congr fun c => by simp
  exact all.congr fun c => by simp

theorem vendorDataBlock_ok (done : vendorDataBlock b o n info = .ok info') :
    Adds (fun _ => False) info info' := by
  unfold vendorDataBlock at done
  split at done
  · cases done
    exact .none _ _ _
  obtain ⟨byte1,_,done⟩ := bind_eq_ok.mp done
  obtain ⟨byte2,_,done⟩ := bind_eq_ok.mp done
  obtain ⟨byte3,_,done⟩ := bind_eq_ok.mp done
  obtain ⟨byte4,_,done⟩ := bind_eq_ok.mp done
  obtain ⟨byte5,_,done⟩ := bind_eq_ok.mp done
  simp only at done
  split at done
  · obtain ⟨_,_,done⟩ := bind_eq_ok.mp done
    cases done
    exact .none _ _ _
  · cases done
    exact .none _ _ _

theorem dataBlock_adds (inside : o < 128) (done : dataBlock b o info = .ok (info',n)) :
    Adds (CodeIn b o) info info' := by
  rw [dataBlock_of_lt inside] at done
  unfold taggedBlock at done
  split at done
  case h_1 video =>
    obtain ⟨i,hi,same⟩ := bind_eq_ok.mp done
    cases same
    exact (videoDataBlock_ok hi).congr fun c => by simp [CodeIn,video]
  case h_2 vendor =>
    obtain ⟨i,hi,same⟩ := bind_eq_ok.mp done
    cases same
    exact (vendorDataBlock_ok hi).congr fun c => by simp [CodeIn,vendor]
  all_goals
    cases done
    exact (Adds.none info info.option info.hdmiPhyAddr).congr fun c => by simp_all [CodeIn]

theorem dataBlocks_adds (done : dataBlocks b o info = .ok info') :
    Adds (fun c => ∃ o', Reached b o o' ∧ CodeIn b o' c) info info' := by
  induction o, info using dataBlocks.induct b generalizing info' with
  | case1 o info inside fault failed =>
    rw [dataBlocks,if_pos inside,failed] at done
    cases done
  | case2 o info inside seen round =>
    rw [dataBlocks,if_pos inside,round] at done
    cases done
    obtain ⟨ends,_⟩ := dataBlock_ok inside round
    refine (dataBlock_adds inside round).congr fun c => ⟨fun h => ⟨o,.start o,h⟩,?_⟩
    rintro ⟨o',reached,coded⟩
    cases reached with
    | start => exact coded
    | next _ _ _ goes _ => exact absurd ends.symm goes
  | case3 o info inside seen n round more ih =>
    rw [dataBlocks,if_pos inside,round] at done
    simp only [more,if_false] at done
    obtain ⟨rfl,_⟩ := dataBlock_ok inside round
    refine ((dataBlock_adds inside round).trans (ih done)).congr fun c => ⟨?_,?_⟩
    · rintro (coded | ⟨o',reached,coded⟩)
      · exact ⟨o,.start o,coded⟩
      · exact ⟨o',.next o o' inside more reached,coded⟩
    rintro ⟨o',reached,coded⟩
    cases reached with
    | start => exact .inl coded
    | next _ _ _ goes rest => exact .inr ⟨o',rest,coded⟩
  | case4 o info outside =>
    rw [dataBlocks,if_neg outside] at done
    cases done

def extensionTiming (d : Descriptor) : VppTiming := ceaDescribed d d.fps {}

def Clocked (b : Block) (o k : Nat) : Prop := ∀ j ≤ k, (extDescriptor b (o + 18 * j)).pixelClock ≠ 0

theorem clocked_zero : Clocked b o 0 ↔ (extDescriptor b o).pixelClock ≠ 0 := by
  simp [Clocked]

theorem clocked_succ {k : Nat} :
    Clocked b o (k + 1) ↔ (extDescriptor b o).pixelClock ≠ 0 ∧ Clocked b (o + 18) k := by
  constructor
  · intro h
    refine ⟨h 0 (by omega),fun j hj => ?_⟩
    have := h (j + 1) (by omega)
    rwa [show o + 18 * (j + 1) = o + 18 + 18 * j by omega] at this
  rintro ⟨first,rest⟩ j hj
  cases j with
  | zero => exact first
  | succ j =>
    rw [show o + 18 * (j + 1) = o + 18 + 18 * j by omega]
    exact rest j (by omega)

theorem ceaTimings_keeps (done : ceaTimings b n o i info = .ok info') :
    ∃ timings, info' = { info with ceaTiming := timings } := by
  induction n generalizing o i info with
  | zero =>
    cases done
    exact ⟨info'.ceaTiming,rfl⟩
  | succ n ih =>
    rw [ceaTimings] at done
    split at done
    · obtain ⟨d,_,done⟩ := bind_eq_ok.mp done
      split at done
      · cases done
        exact ⟨_,rfl⟩
      · obtain ⟨fps,_,done⟩ := bind_eq_ok.mp done
        obtain ⟨timings,same⟩ := ih done
        exact ⟨timings,same⟩
    · cases done

theorem ceaTimings_round {i : Nat} (room : o + 18 ≤ 128) (slot : i < 6)
    (fresh : info.ceaTiming[i] = {}) (done : ceaTimings b (n + 1) o i info = .ok info') :
    (extDescriptor b o).pixelClock = 0 ∧ info' = info ∨
    (extDescriptor b o).pixelClock ≠ 0 ∧ ceaTimings b n (o + 18) (i + 1)
      { info with ceaTiming := info.ceaTiming.set i (extensionTiming (extDescriptor b o)) }
        = .ok info' := by
  rw [ceaTimings,dif_pos slot,descriptor_of_le room] at done
  obtain ⟨d,same,done⟩ := bind_eq_ok.mp done
  cases same
  rw [Descriptor.ceaClock_eq] at done
  split at done
  · rename_i clock
    cases done
    have same : info.ceaTiming.set i {} = info.ceaTiming := by
      rw [← fresh]
      exact Vector.set_getElem_self slot
    refine .inl ⟨clock,?_⟩
    simp only [fresh,same]
  rename_i clock
  refine .inr ⟨clock,?_⟩
  obtain ⟨fps,total,done⟩ := bind_eq_ok.mp done
  have rate : fps = (extDescriptor b o).fps := by
    unfold divide at total
    split at total
    · cases total
    · cases total
      rw [Descriptor.fps,← Descriptor.ceaTotal_eq]
      rfl
  rw [fresh,rate] at done
  exact done

theorem ceaTimings_ok {i : Nat} (room : 0 < n → o + 18 * n ≤ 128)
    (fresh : ∀ j : Fin 6, i ≤ j → info.ceaTiming[j] = {})
    (done : ceaTimings b n o i info = .ok info') :
    ∃ timings, info' = { info with ceaTiming := timings } ∧
      ∀ t : VppTiming, t.pixelClock ≠ 0 → ((∃ j : Fin 6, timings[j] = t) ↔
        (∃ j : Fin 6, info.ceaTiming[j] = t) ∨
          ∃ k < n, Clocked b o k ∧ t = extensionTiming (extDescriptor b (o + 18 * k))) := by
  induction n generalizing o i info with
  | zero =>
    cases done
    exact ⟨info'.ceaTiming,rfl,fun t _ => by simp⟩
  | succ n ih =>
    have slot : i < 6 := by
      by_contra full
      rw [ceaTimings,dif_neg full] at done
      cases done
    have here := fresh ⟨i,slot⟩ le_rfl
    rcases ceaTimings_round (by omega) slot here done with ⟨clock,rfl⟩ | ⟨clock,more⟩
    · refine ⟨info'.ceaTiming,rfl,fun t _ => ?_⟩
      have none : ¬ ∃ k < n + 1, Clocked b o k ∧
          t = extensionTiming (extDescriptor b (o + 18 * k)) := by
        rintro ⟨k,_,clocked,_⟩
        exact clocked 0 (Nat.zero_le k) clock
      exact (or_iff_left none).symm
    have later : ∀ j : Fin 6, i + 1 ≤ j → (info.ceaTiming.set i
        (extensionTiming (extDescriptor b o)))[j] = {} := by
      intro j hj
      have apart : i ≠ j := by omega
      simpa [Vector.getElem_set,apart] using fresh j (by omega)
    obtain ⟨timings,rfl,found⟩ := ih (by omega) later more
    refine ⟨timings,rfl,fun t ht => ?_⟩
    have unused : info.ceaTiming[i] ≠ t := by
      rintro rfl
      exact ht (by rw [show info.ceaTiming[i] = {} from here])
    rw [found t ht,exists_set slot unused,or_assoc]
    refine or_congr_right ⟨?_,?_⟩
    · rintro (rfl | ⟨k,hk,clocked,rfl⟩)
      · exact ⟨0,by omega,clocked_zero.mpr clock,rfl⟩
      · refine ⟨k + 1,by omega,clocked_succ.mpr ⟨clock,clocked⟩,?_⟩
        rw [show o + 18 * (k + 1) = o + 18 + 18 * k by omega]
    rintro ⟨k,hk,clocked,rfl⟩
    cases k with
    | zero => exact .inl rfl
    | succ k =>
      refine .inr ⟨k,by omega,(clocked_succ.mp clocked).2,?_⟩
      rw [show o + 18 * (k + 1) = o + 18 + 18 * k by omega]

theorem ceaTimings_none (room : 0 < n → o + 18 * n ≤ 128)
    (fresh : ∀ j : Fin 6, info.ceaTiming[j] = {})
    (none : n = 0 ∨ (extDescriptor b o).pixelClock = 0)
    (done : ceaTimings b n o 0 info = .ok info') : info' = info := by
  cases n with
  | zero =>
    cases done
    rfl
  | succ n =>
    rcases ceaTimings_round (by omega) (by omega) (fresh 0) done with ⟨_,same⟩ | ⟨clock,_⟩
    · exact same
    · exact absurd (none.resolve_left (by omega)) clock

structure ExtensionsRead (start : EdidInfo) (seen : List Block) (info : EdidInfo) : Prop where
  establishTiming : info.establishTiming = start.establishTiming
  standardTiming : info.standardTiming = start.standardTiming
  detailTiming : info.detailTiming = start.detailTiming
  vics : ∀ i : Fin 64, info.hasVic i = true ↔
    ∃ b ∈ seen, ∃ o, Reached b 4 o ∧ CodeIn b o i
  fresh : (∀ b ∈ seen, timingSlots b = 0 ∨ (extTiming b 0).pixelClock = 0) →
    ∀ j : Fin 6, info.ceaTiming[j] = {}
  timings : ∀ t : VppTiming, t.pixelClock ≠ 0 → ((∃ j : Fin 6, info.ceaTiming[j] = t) ↔
    ∃ b ∈ seen, ∃ k < timingSlots b, Clocked b (timingStart b) k ∧
      t = extensionTiming (extTiming b k))

theorem foldlM_accepted (l : List Block) (info : EdidInfo) :
    l.foldlM edidParseCea info = (l.filter ceaValid).foldlM edidParseCea info := by
  induction l generalizing info with
  | nil => rfl
  | cons b l ih =>
    by_cases valid : ceaValid b = true
    · simp only [List.foldlM_cons,List.filter_cons,valid,if_true,ih]
    · have skipped : edidParseCea info b = .ok info := if_neg valid
      rw [List.foldlM_cons,List.filter_cons,if_neg valid,skipped,← ih]
      rfl

theorem edidParseCea_ok (valid : ceaValid b = true) (step : edidParseCea info b = .ok info') :
    ∃ mid, Adds (fun c => ∃ o, Reached b 4 o ∧ CodeIn b o c) info mid ∧
      ceaTimings b (timingSlots b) (timingStart b) 0 mid = .ok info' := by
  rw [edidParseCea,if_pos valid] at step
  obtain ⟨mid,walked,timed⟩ := bind_eq_ok.mp step
  have adds := (Adds.none info (BitVec.ofNat 32 ((b 3).toNat &&& 0xF0) ||| edidOptValid)
    info.hdmiPhyAddr).trans (dataBlocks_adds walked)
  exact ⟨mid,adds.congr fun c => by simp,timed⟩

theorem timingSlots_room (b : Block) :
    0 < timingSlots b → timingStart b + 18 * timingSlots b ≤ 128 := by
  unfold timingSlots
  omega

theorem extension_timings {start mid : EdidInfo} {seen : List Block}
    (h : ExtensionsRead start seen info) (apart : ∀ c ∈ seen, Apart c b)
    (same : mid.ceaTiming = info.ceaTiming)
    (timed : ceaTimings b (timingSlots b) (timingStart b) 0 mid = .ok info') :
    ∃ timings, info' = { mid with ceaTiming := timings } ∧
      ∀ t : VppTiming, t.pixelClock ≠ 0 → ((∃ j : Fin 6, timings[j] = t) ↔
        (∃ j : Fin 6, info.ceaTiming[j] = t) ∨ ∃ k < timingSlots b, Clocked b (timingStart b) k ∧
            t = extensionTiming (extTiming b k)) := by
  by_cases clear : ∀ c ∈ seen, timingSlots c = 0 ∨ (extTiming c 0).pixelClock = 0
  · rw [← same]
    exact ceaTimings_ok (timingSlots_room b) (fun j _ => by rw [same]; exact h.fresh clear j) timed
  push Not at clear
  obtain ⟨c,hc,slots,clock⟩ := clear
  have none : timingSlots b = 0 := ((apart c hc).resolve_left slots).resolve_left clock
  rw [none] at timed ⊢
  cases timed
  exact ⟨info'.ceaTiming,rfl,fun t _ => by simp [same]⟩

theorem extensionsRead_step (h : ExtensionsRead start seen info) (apart : ∀ c ∈ seen, Apart c b)
    (valid : ceaValid b = true) (step : edidParseCea info b = .ok info') :
    ExtensionsRead start (seen ++ [b]) info' := by
  obtain ⟨mid,adds,timed⟩ := edidParseCea_ok valid step
  obtain ⟨timings,final,found⟩ := extension_timings h apart adds.ceaTiming timed
  refine ⟨?_,?_,?_,fun i => ?_,fun clear j => ?_,fun t ht => ?_⟩
  · rw [final]
    exact adds.establishTiming.trans h.establishTiming
  · rw [final]
    exact adds.standardTiming.trans h.standardTiming
  · rw [final]
    exact adds.detailTiming.trans h.detailTiming
  · have kept : info'.hasVic i = mid.hasVic i := by rw [final]; rfl
    rw [kept,adds.vics,h.vics]
    simp [or_and_right,exists_or]
  · have before : ∀ j : Fin 6, mid.ceaTiming[j] = {} := by
      rw [adds.ceaTiming]
      exact h.fresh fun c hc => clear c (List.mem_append_left _ hc)
    rw [ceaTimings_none (timingSlots_room b) before (clear b (by simp)) timed]
    exact before j
  · rw [final]
    simp only [found t ht,h.timings t ht,List.mem_append,List.mem_singleton,or_and_right,
      exists_or,exists_eq_left]

theorem edidParse_ok (valid : baseValid e.base = true) (once : (accepted e).Pairwise Apart)
    (done : edidParse e = .ok info) :
    ∃ base, BaseRead e.base (List.finRange 4) base ∧ ExtensionsRead base (accepted e) info := by
  rw [edidParse,if_pos valid] at done
  obtain ⟨base,first,rest⟩ := bind_eq_ok.mp done
  have read := edidParseV1_ok first
  rw [foldlM_accepted] at rest
  refine ⟨base,read,foldlM_ok (fun seen b later s t split h step => ?_) ?_ rest⟩
  · change accepted e = _ at split
    have mem : b ∈ accepted e := by simp [split]
    have order := once
    rw [split,List.pairwise_append] at order
    exact extensionsRead_step h (fun c hc => order.2.2 c hc b (by simp))
      (List.mem_filter.mp mem).2 step
  refine ⟨rfl,rfl,rfl,fun i => ?_,fun _ j => ?_,fun t ht => ?_⟩
  · simp [EdidInfo.hasVic,read.ceaVic]
  · simp [read.ceaTiming]
  · simp only [read.ceaTiming,List.not_mem_nil,false_and,exists_false,iff_false]
    rintro ⟨j,rfl⟩
    exact ht (by simp)

end Apc8750.Edid
