import Apc8750.Library.Cyclic
import Apc8750.Library.Masks
import Apc8750.Library.Runs
import Mathlib.Data.List.GetD

namespace Apc8750.Video

structure FrameBuf where
  yAddr : BitVec 32
  cAddr : BitVec 32
  deriving DecidableEq

/-- `mbGovw` is the first `mb_govw_cnt` entries of the array. -/
structure Capture where
  mbGovw : List (BitVec 32)
  mbGovwYSize : BitVec 32
  streamEnable : Bool
  streamMbLock : BitVec 32
  streamMbSyncFlag : Bool
  govwFbCnt : Int
  govwTg : Bool
  govwSkipAll : Bool
  govwSkipFrame : Int
  govwPts : Nat
  dispPts : Nat
  govr : FrameBuf
  govw : FrameBuf
  deriving DecidableEq

def bit (i : Nat) : BitVec 32 := 1#32 <<< i

def locked (lock : BitVec 32) (i : Nat) : Bool := lock &&& bit i != 0

def mbGetMask (v : Capture) (phy : BitVec 32) : BitVec 32 :=
  match v.mbGovw.idxOf? phy with
  | none => 0
  | some i => bit i

def lockCount (v : Capture) : Nat := (List.range v.mbGovw.length).countP (locked v.streamMbLock)

def mbGet (v : Capture) (phy : BitVec 32) : Int × Capture :=
  if v.streamMbSyncFlag then (-1, v)
  else if (v.mbGovw.length : Int) - 2 ≤ lockCount v then (-1, v)
  else
    let mask := mbGetMask v phy
    if mask = 0 then (-1, v)
    else if v.streamMbLock &&& mask ≠ 0 then (-1, v)
    else (0, { v with streamMbLock := v.streamMbLock ||| mask, streamMbSyncFlag := true })

def mbPut (v : Capture) (phy : BitVec 32) : Int × Capture :=
  if phy = 0 then (0, { v with streamMbLock := 0 })
  else
    let mask := mbGetMask v phy
    if mask = 0 then (1, v)
    else (0, { v with streamMbLock := v.streamMbLock &&& ~~~ mask })

/-- The index the search starts from: that of the buffer the writer has filled. -/
def written (v : Capture) : Nat :=
  match v.mbGovw.idxOf? v.govw.yAddr with
  | none => 0
  | some i => i

def buffer (v : Capture) (i : Nat) : FrameBuf :=
  let y := v.mbGovw.getD i 0
  ⟨y, y + v.mbGovwYSize⟩

/-- The debug count of `vpp_govw_int_routine`, which switches the writer off. -/
def countFb (v : Capture) : Capture :=
  if v.govwFbCnt ≠ 0 then
    { v with govwFbCnt := v.govwFbCnt - 1, govwTg := v.govwTg && v.govwFbCnt - 1 ≠ 0 }
  else v

/-- `vpp_govw_int_routine`; none when the search for a buffer does not end within the
fuel. -/
def govwIntRoutine (fuel : Nat) (v : Capture) : Option Capture :=
  let v := countFb v
  if v.govwSkipAll then some v
  else if v.govwSkipFrame ≠ 0 then some { v with govwSkipFrame := v.govwSkipFrame - 1 }
  else
    let skip := fun i => v.streamEnable && locked v.streamMbLock i
    (Cyclic.search skip v.mbGovw.length fuel (written v)).map fun i =>
      { v with
        govr := buffer v (written v)
        govw := buffer v i
        dispPts := v.govwPts
        streamMbSyncFlag := false }

inductive CaptureCall where
  | get (phy : BitVec 32)
  | put (phy : BitVec 32)
  | interrupt
  | enable (on : Bool)

/-- The reply is the code returned. -/
def capture (fuel : Nat) (v : Capture) : CaptureCall → Option (Int × Capture)
  | .get phy => some (mbGet v phy)
  | .put phy => some (mbPut v phy)
  | .interrupt => (govwIntRoutine fuel v).map fun v => (0, v)
  | .enable on =>
    let v := { v with streamEnable := on, streamMbSyncFlag := false }
    some (0, if on then v else (mbPut v 0).2)

theorem locked_getLsbD : locked lock i = lock.getLsbD i := Masks.and_mask_bne

theorem locked_or : locked (lock ||| mask) i = (locked lock i || locked mask i) := by
  simp only [locked_getLsbD,BitVec.getLsbD_or]

theorem locked_bit (h : locked (bit j) i = true) : i = j := by
  rw [locked_getLsbD,bit,Masks.mask_getLsbD,Bool.and_eq_true] at h
  exact (of_decide_eq_true h.2).symm

theorem locked_and (h : locked (lock &&& mask) i = true) : locked lock i = true := by
  rw [locked_getLsbD,BitVec.getLsbD_and,Bool.and_eq_true] at h
  rw [locked_getLsbD]
  exact h.1

theorem count_and (n : Nat) (lock mask : BitVec 32) :
    (List.range n).countP (locked (lock &&& mask)) ≤ (List.range n).countP (locked lock) :=
  List.countP_mono_left fun _ _ => locked_and

theorem count_or (n : Nat) (lock : BitVec 32) (i : Nat) :
    (List.range n).countP (locked (lock ||| bit i)) ≤ (List.range n).countP (locked lock) + 1 := by
  have all : ∀ j ∈ (List.range n).filter (locked (lock ||| bit i)),
      j ∈ i :: (List.range n).filter (locked lock) := by
    intro j mem
    rw [List.mem_filter,locked_or,Bool.or_eq_true] at mem
    rcases mem.2 with old | new
    · exact List.mem_cons_of_mem _ (List.mem_filter.mpr ⟨mem.1,old⟩)
    · exact List.mem_cons.mpr (.inl (locked_bit new))
  have short := (List.Nodup.filter _ List.nodup_range).length_le_of_subset all
  simpa only [List.countP_eq_length_filter,List.length_cons] using short

theorem mbGetMask_cases (v : Capture) (phy : BitVec 32) :
    mbGetMask v phy = 0 ∨ ∃ i, mbGetMask v phy = bit i := by
  unfold mbGetMask
  split
  · exact .inl rfl
  · exact .inr ⟨_,rfl⟩

theorem mbGet_count (v : Capture) (phy : BitVec 32) (few : lockCount v + 2 ≤ v.mbGovw.length) :
    (mbGet v phy).2.mbGovw = v.mbGovw ∧ lockCount (mbGet v phy).2 + 2 ≤ v.mbGovw.length := by
  unfold mbGet
  split
  · exact ⟨rfl,few⟩
  split
  · exact ⟨rfl,few⟩
  rename_i room
  dsimp only
  split
  · exact ⟨rfl,few⟩
  rename_i known
  split
  · exact ⟨rfl,few⟩
  refine ⟨rfl,?_⟩
  obtain ⟨i,mask⟩ := (mbGetMask_cases v phy).resolve_left known
  have one := count_or v.mbGovw.length v.streamMbLock i
  unfold lockCount at room ⊢
  rw [mask]
  dsimp only
  omega

theorem lockCount_zero (h : v.streamMbLock = 0) : lockCount v = 0 := by
  unfold lockCount
  rw [h,List.countP_eq_zero]
  simp [locked]

theorem mbPut_count (v : Capture) (phy : BitVec 32) :
    (mbPut v phy).2.mbGovw = v.mbGovw ∧ lockCount (mbPut v phy).2 ≤ lockCount v := by
  unfold mbPut
  split
  · refine ⟨rfl,?_⟩
    rw [lockCount_zero rfl]
    exact Nat.zero_le _
  dsimp only
  split
  · exact ⟨rfl,le_rfl⟩
  · exact ⟨rfl,count_and _ _ _⟩

theorem countFb_eq (v : Capture) :
    ∃ cnt tg, countFb v = { v with govwFbCnt := cnt, govwTg := tg } := by
  unfold countFb
  split
  · exact ⟨_,_,rfl⟩
  · exact ⟨_,_,rfl⟩

theorem written_lt (h : 0 < v.mbGovw.length) : written v < v.mbGovw.length := by
  unfold written
  split
  · exact h
  · rename_i i found
    rw [List.idxOf?,List.findIdx?_eq_some_iff_getElem] at found
    exact found.1

def Swaps (v : Capture) : Prop := v.govwSkipAll = false ∧ v.govwSkipFrame = 0

theorem routine_swaps (few : lockCount v + 2 ≤ v.mbGovw.length) (enough : v.mbGovw.length ≤ fuel)
    (swaps : Swaps v) :
    ∃ i < v.mbGovw.length, i ≠ written v ∧
      (v.streamEnable = true → locked v.streamMbLock i = false) ∧ ∃ w,
      govwIntRoutine fuel v = some w ∧ w.govr = buffer v (written v) ∧ w.govw = buffer v i ∧
      w.mbGovw = v.mbGovw ∧ w.streamMbLock = v.streamMbLock := by
  let skip := fun i => v.streamEnable && locked v.streamMbLock i
  have fewer : (List.range v.mbGovw.length).countP skip + 2 ≤ v.mbGovw.length := by
    have le : (List.range v.mbGovw.length).countP skip ≤ lockCount v := by
      apply List.countP_mono_left
      intro i _ skipped
      exact ((Bool.and_eq_true _ _).mp skipped).2
    omega
  obtain ⟨j,hj,other,free⟩ := Cyclic.exists_free (written v) fewer
  obtain ⟨i,hi,found,free,ne⟩ :=
    Cyclic.search_other (written_lt (by omega)) hj other free enough
  refine ⟨i,hi,ne,?_,?_⟩
  · intro on
    simpa [skip,on] using free
  obtain ⟨cnt,tg,counted⟩ := countFb_eq v
  refine ⟨{ v with
    govwFbCnt := cnt
    govwTg := tg
    govr := buffer v (written v)
    govw := buffer v i
    dispPts := v.govwPts
    streamMbSyncFlag := false },?_,rfl,rfl,rfl,rfl⟩
  unfold govwIntRoutine
  rw [counted]
  dsimp only
  rw [swaps.1,swaps.2,if_neg (by simp),if_neg (by simp)]
  change Option.map _ (Cyclic.search skip v.mbGovw.length fuel (written v)) = _
  rw [found]
  rfl

theorem routine_skips (fuel : Nat) (skips : ¬ Swaps v) :
    ∃ w, govwIntRoutine fuel v = some w ∧ w.govr = v.govr ∧ w.govw = v.govw ∧
      w.mbGovw = v.mbGovw ∧ w.streamMbLock = v.streamMbLock := by
  obtain ⟨cnt,tg,counted⟩ := countFb_eq v
  unfold govwIntRoutine
  rw [counted]
  dsimp only
  split
  · exact ⟨_,rfl,rfl,rfl,rfl,rfl⟩
  rename_i all
  split
  · exact ⟨_,rfl,rfl,rfl,rfl,rfl⟩
  · rename_i frame
    exact absurd ⟨by simpa using all,by simpa using frame⟩ skips

theorem capture_step (enough : v.mbGovw.length ≤ fuel) (few : lockCount v + 2 ≤ v.mbGovw.length)
    (done : capture fuel v call = some (r,w)) :
    w.mbGovw = v.mbGovw ∧ lockCount w + 2 ≤ w.mbGovw.length := by
  have same : ∀ {u : Capture}, u.mbGovw = v.mbGovw → u.streamMbLock = v.streamMbLock →
      u.mbGovw = v.mbGovw ∧ lockCount u + 2 ≤ u.mbGovw.length := by
    intro u buffers lock
    refine ⟨buffers,?_⟩
    unfold lockCount at few ⊢
    rw [buffers,lock]
    exact few
  cases call with
  | get phy =>
    obtain ⟨buffers,free⟩ := mbGet_count v phy few
    obtain rfl : (mbGet v phy).2 = w := congrArg Prod.snd (Option.some.inj done)
    exact ⟨buffers,buffers ▸ free⟩
  | put phy =>
    obtain ⟨buffers,fewer⟩ := mbPut_count v phy
    obtain rfl : (mbPut v phy).2 = w := congrArg Prod.snd (Option.some.inj done)
    exact ⟨buffers,by rw [buffers]; omega⟩
  | interrupt =>
    by_cases swaps : Swaps v
    · obtain ⟨i,_,_,_,u,eq,_,_,buffers,lock⟩ := routine_swaps few enough swaps
      rw [capture,eq] at done
      cases done
      exact same buffers lock
    obtain ⟨u,eq,_,_,buffers,lock⟩ := routine_skips fuel swaps
    rw [capture,eq] at done
    cases done
    exact same buffers lock
  | enable on =>
    obtain rfl := congrArg Prod.snd (Option.some.inj done)
    cases on with
    | true => exact same rfl rfl
    | false =>
      refine ⟨rfl,?_⟩
      change lockCount _ + 2 ≤ v.mbGovw.length
      rw [lockCount_zero rfl]
      omega

/-- Two buffers are always free, the search ends within a round, and finds an unlocked buffer for
the writer. -/
theorem capture_buffers (two : 2 ≤ v.mbGovw.length) (distinct : v.mbGovw.Nodup)
    (unlocked : v.streamMbLock = 0) (enough : v.mbGovw.length ≤ fuel)
    (run : Runs.Run (capture fuel) (fun _ _ => True) v trace w) :
    w.mbGovw = v.mbGovw ∧ lockCount w ≤ v.mbGovw.length - 2 ∧
    ∃ u, govwIntRoutine fuel w = some u ∧ (Swaps w →
      u.govr.yAddr ∈ v.mbGovw ∧ u.govw.yAddr ≠ u.govr.yAddr ∧
      ∃ i < v.mbGovw.length, v.mbGovw.getD i 0 = u.govw.yAddr ∧
        (w.streamEnable = true → locked w.streamMbLock i = false)) := by
  have start : v.mbGovw = v.mbGovw ∧ lockCount v + 2 ≤ v.mbGovw.length := by
    rw [lockCount_zero unlocked]
    exact ⟨rfl, by omega⟩
  have now : w.mbGovw = v.mbGovw ∧ lockCount w + 2 ≤ v.mbGovw.length := by
    apply run.invariant (I := fun w => w.mbGovw = v.mbGovw ∧ lockCount w + 2 ≤ v.mbGovw.length) start
    intro t call r u ht _ done
    obtain ⟨buffers, free⟩ := capture_step (by rw [ht.1]; exact enough) (by rw [ht.1]; exact ht.2) done
    rw [buffers, ht.1] at free
    exact ⟨buffers.trans ht.1, free⟩
  obtain ⟨buffers, free⟩ := now
  refine ⟨buffers, by omega, ?_⟩
  rw [← buffers] at free enough
  by_cases swaps : Swaps w
  · obtain ⟨i, hi, ne, notLocked, u, eq, shown, handed, _⟩ := routine_swaps free enough swaps
    have shownAt := written_lt (v := w) (by omega)
    refine ⟨u, eq, fun _ => ?_⟩
    rw [shown, handed]
    simp only [buffer, buffers] at *
    refine ⟨?_, ?_, i, hi, rfl, notLocked⟩
    · rw [List.getD_eq_getElem _ _ shownAt]
      exact List.getElem_mem _
    · rw [List.getD_eq_getElem _ _ shownAt, List.getD_eq_getElem _ _ hi]
      intro same
      exact ne ((List.Nodup.getElem_inj_iff distinct).mp same)
  · obtain ⟨u, eq, _⟩ := routine_skips fuel swaps
    exact ⟨u, eq, fun swaps' => absurd swaps' swaps⟩

def three : Capture where
  mbGovw := [0x1000, 0x2000, 0x3000]
  mbGovwYSize := 0x800
  streamEnable := true
  streamMbLock := 0
  streamMbSyncFlag := false
  govwFbCnt := 0
  govwTg := true
  govwSkipAll := false
  govwSkipFrame := 0
  govwPts := 0
  dispPts := 0
  govr := ⟨0x1000, 0x1800⟩
  govw := ⟨0x2000, 0x2800⟩

theorem capture_buffers_get : ∃ trace w,
    Runs.Run (capture 3) (fun _ _ => True) three trace w ∧ trace.map Prod.snd = [0] ∧
    lockCount w ≤ 1 ∧ ∃ u, govwIntRoutine 3 w = some u := by
  have got : capture 3 three (.get 0x1000) =
      some (0, { three with streamMbLock := 1, streamMbSyncFlag := true }) := by decide
  have run : Runs.Run (capture 3) (fun _ _ => True) three _ _ := .next .start trivial got
  obtain ⟨_, few, u, done, _⟩ := capture_buffers (by decide) (by decide) rfl (by decide) run
  exact ⟨_, _, run, rfl, few, u, done⟩

end Apc8750.Video
