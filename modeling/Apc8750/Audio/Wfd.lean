import Apc8750.Library.Cells
import Apc8750.Library.Runs

namespace Apc8750.Audio
open Cells

/-- `period_bytes_min` and `period_bytes_max` of `wmt_pcm_hardware`. -/
def periodBytes : Nat := 6 * 1024

def bufferBytesMax : Nat := 1024 * 64 * 3

/-- Pointers are offsets from `area`; the memory behind the region may be overwritten. -/
structure SndWfdBuffer where
  area : Nat → Nat
  bytes : Nat
  valuableSz : Nat
  wrPtr : Nat
  rdPtr : Nat
  enable : Bool

/-- `wmt_pcm_preallocate_dma_buffer` for playback, as far as the ring is concerned. -/
def preallocateDmaBuffer (b : SndWfdBuffer) : SndWfdBuffer :=
  let bytes := bufferBytesMax / 3
  { b with bytes, area := fun i => if i < bytes then 0 else b.area i, enable := false }

def wfdGetBuf (b : SndWfdBuffer) : SndWfdBuffer :=
  { b with enable := true, valuableSz := 0, wrPtr := 0, rdPtr := 0 }

def wfdUpdate (b : SndWfdBuffer) (src : List Nat) : SndWfdBuffer :=
  let area := store b.area b.wrPtr src
  let wrPtr := b.wrPtr + src.length
  let wrPtr := if wrPtr = b.bytes then 0 else wrPtr
  let valuableSz := b.valuableSz + src.length
  if b.bytes ≤ valuableSz then
    { b with area, wrPtr, valuableSz := b.bytes, rdPtr := wrPtr }
  else
    { b with area, wrPtr, valuableSz }

/-- `WFDStrmInfo_t`, which the caller fills with `reqSz` and gets back. -/
structure StrmInfo where
  reqSz : Nat
  availSz : Nat
  bufOffset : Nat

def wfdGetStrm (b : SndWfdBuffer) (info : StrmInfo) : StrmInfo × SndWfdBuffer :=
  if b.bytes < info.reqSz ∨ b.valuableSz = 0 then
    ({ info with availSz := 0 }, b)
  else
    let availSz := if info.reqSz < b.valuableSz then info.reqSz else b.valuableSz
    let rdPtr := b.rdPtr + availSz
    ({ info with availSz, bufOffset := b.rdPtr },
      { b with
        valuableSz := if info.reqSz < b.valuableSz then b.valuableSz - info.reqSz else 0
        rdPtr := if b.bytes ≤ rdPtr then rdPtr - b.bytes else rdPtr })

/-- The bytes of the range a caller is given, taken modulo the ring size. -/
def held (b : SndWfdBuffer) (info : StrmInfo) : List Nat :=
  (List.range info.availSz).map fun k => b.area ((info.bufOffset + k) % b.bytes)

inductive Call where
  | period (src : List Nat)
  | getStrm (info : StrmInfo)

inductive Reply where
  | wrote (offset size : Nat)
  | idle
  | strm (info : StrmInfo) (bytes : List Nat)

/-- The ring is left alone while it is not enabled. -/
def step (b : SndWfdBuffer) : Call → Option (Reply × SndWfdBuffer)
  | .period src =>
    if b.enable then some (.wrote b.wrPtr src.length, wfdUpdate b src) else some (.idle, b)
  | .getStrm info =>
    let (info, b) := wfdGetStrm b info
    some (.strm info (held b info), b)

def Permitted (_ : SndWfdBuffer) : Call → Prop
  | .period src => src.length = periodBytes
  | .getStrm _ => True

def Call.source : Call → List Nat
  | .period src => src
  | .getStrm _ => []

def stream (trace : List (Call × Reply)) : List Nat := trace.flatMap fun x => x.1.source

def periods (trace : List (Call × Reply)) : Nat := trace.countP fun x => x.1 matches .period _

def InBounds (bytes : Nat) (trace : List (Call × Reply)) : Prop :=
  ∀ offset size, .wrote offset size ∈ trace.map Prod.snd → offset + size ≤ bytes

/-- The ranges hold the stream in order up to `p`; one may begin further on only where the ring was
overwritten. -/
inductive Follows (bytes : Nat) : List (Call × Reply) → Nat → Prop where
  | start : Follows bytes [] 0
  | period (before : Follows bytes trace p) : Follows bytes (trace ++ [(.period src, r)]) p
  | strm (before : Follows bytes trace p) (le : p ≤ q)
      (lost : ∀ j, p ≤ j → j < q → j + bytes ≤ (stream trace).length)
      (size : info.availSz = taken.length)
      (range : ((stream trace).drop q).take info.availSz = taken) :
      Follows bytes (trace ++ [(.getStrm asked, .strm info taken)]) (q + info.availSz)

@[simp] theorem stream_concat : stream (trace ++ [(call,reply)]) = stream trace ++ call.source := by
  simp [stream]

@[simp] theorem periods_period {src : List Nat} :
    periods (trace ++ [(.period src, reply)]) = periods trace + 1 := by
  simp [periods]

@[simp] theorem periods_getStrm {info : StrmInfo} :
    periods (trace ++ [(.getStrm info, reply)]) = periods trace := by
  simp [periods]

theorem inBounds_concat : InBounds bytes (trace ++ [(call,reply)]) ↔
    InBounds bytes trace ∧ ∀ offset size, reply = .wrote offset size → offset + size ≤ bytes := by
  simp only [InBounds,List.map_append,List.map_cons,List.map_nil,List.mem_append,
    List.mem_singleton]
  constructor
  · intro h
    exact ⟨fun o s m => h o s (.inl m),fun o s e => h o s (.inr e.symm)⟩
  intro h o s m
  rcases m with m | e
  · exact h.1 o s m
  · exact h.2 o s e.symm

structure Filling (trace : List (Call × Reply)) (b : SndWfdBuffer) : Prop where
  size : b.bytes = bufferBytesMax / 3
  enabled : b.enable = true
  content : At b.area 0 (stream trace)
  length : (stream trace).length = periodBytes * periods trace
  write : b.wrPtr = (stream trace).length
  unread : b.rdPtr + b.valuableSz = (stream trace).length
  inside : InBounds b.bytes trace
  follows : Follows b.bytes trace b.rdPtr

theorem filling_start (h : b.bytes = bufferBytesMax / 3) : Filling [] (wfdGetBuf b) where
  size := h
  enabled := rfl
  content := trivial
  length := rfl
  write := rfl
  unread := rfl
  inside := by simp [InBounds]
  follows := .start

section
variable (h : Filling trace b) (few : periods trace ≤ 10)
include h few

theorem held_filling (info : StrmInfo)
    (le : info.bufOffset + info.availSz ≤ (stream trace).length) :
    ((stream trace).drop info.bufOffset).take info.availSz = held b info := by
  have small : (stream trace).length < b.bytes := by
    rw [h.length,h.size,periodBytes,bufferBytesMax]
    omega
  apply List.ext_getElem
  · simp [held]
    omega
  intro k hk hk'
  have bound : info.bufOffset + k < (stream trace).length := by
    simp [held] at hk'
    omega
  have content := h.content.getElem bound
  rw [Nat.zero_add] at content
  simp [held,Nat.mod_eq_of_lt (bound.trans small),content]

theorem getStrm_filling (info : StrmInfo) :
    ∃ size off, (wfdGetStrm b info).1 = ⟨info.reqSz,size,off⟩ ∧ (0 < size → off = b.rdPtr) ∧
      size ≤ b.valuableSz ∧ (wfdGetStrm b info).2 =
        { b with valuableSz := b.valuableSz - size, rdPtr := b.rdPtr + size } := by
  have small : b.rdPtr + b.valuableSz < b.bytes := by
    rw [h.unread,h.length,h.size,periodBytes,bufferBytesMax]
    omega
  unfold wfdGetStrm
  split
  · exact ⟨0,info.bufOffset,rfl,by simp,by simp,rfl⟩
  split
  · refine ⟨info.reqSz,b.rdPtr,rfl,by simp,by omega,?_⟩
    dsimp only
    rw [if_neg (by omega)]
  · refine ⟨b.valuableSz,b.rdPtr,rfl,by simp,le_rfl,?_⟩
    dsimp only
    rw [if_neg (by omega),Nat.sub_self]

theorem filling_getStrm (done : step b (.getStrm info) = some (reply,b')) :
    Filling (trace ++ [(.getStrm info, reply)]) b' := by
  obtain ⟨size,off,report,start,le,next⟩ := getStrm_filling h few info
  simp only [step,report,next,Option.some.injEq,Prod.mk.injEq] at done
  obtain ⟨rfl,rfl⟩ := done
  have unread := h.unread
  refine ⟨h.size,h.enabled,by simpa [Call.source] using h.content,?_,?_,?_,?_,?_⟩
  · simpa [Call.source] using h.length
  · simpa [Call.source] using h.write
  · simp only [stream_concat,Call.source,List.append_nil]
    omega
  · exact inBounds_concat.mpr ⟨h.inside,by simp⟩
  refine h.follows.strm le_rfl (by omega) ?_ ?_
  · simp [held]
  rcases Nat.eq_zero_or_pos size with rfl | pos
  · rfl
  · rw [start pos]
    exact held_filling h few ⟨info.reqSz,size,b.rdPtr⟩ (by simp only; omega)

end

theorem filling_period (h : Filling trace b) (few : periods trace < 10)
    (permitted : src.length = periodBytes) (done : step b (.period src) = some (reply,b')) :
    Filling (trace ++ [(.period src, reply)]) b' := by
  have length := h.length
  have write := h.write
  have unread := h.unread
  have size := h.size
  simp only [periodBytes,bufferBytesMax] at length permitted size
  have next : wfdUpdate b src = { b with
      area := store b.area b.wrPtr src
      wrPtr := b.wrPtr + src.length
      valuableSz := b.valuableSz + src.length } := by
    unfold wfdUpdate
    simp only
    rw [if_neg (by omega),if_neg (by omega)]
  simp only [step,h.enabled,next,if_true,Option.some.injEq,Prod.mk.injEq] at done
  obtain ⟨rfl,rfl⟩ := done
  refine ⟨h.size,rfl,?_,?_,?_,?_,?_,h.follows.period⟩
  · rw [stream_concat,Call.source,at_append,Nat.zero_add,← h.write]
    refine ⟨h.content.congr fun k _ high => store_of_lt _ (by omega),at_store⟩
  · simp only [stream_concat,Call.source,List.length_append,periods_period,periodBytes]
    omega
  · simp only [stream_concat,Call.source,List.length_append]
    omega
  · simp only [stream_concat,Call.source,List.length_append]
    omega
  · refine inBounds_concat.mpr ⟨h.inside,?_⟩
    intro offset n eq
    cases eq
    dsimp only
    omega

theorem filling_run (size : b.bytes = bufferBytesMax / 3)
    (run : Runs.Run step Permitted (wfdGetBuf b) trace w) :
    if periods trace ≤ 10 then Filling trace w else ¬ InBounds (bufferBytesMax / 3) trace := by
  induction run with
  | start => exact filling_start size
  | @next trace t call reply u run permitted done ih =>
    by_cases few : periods trace ≤ 10
    · rw [if_pos few] at ih
      cases call with
      | getStrm info =>
        rw [periods_getStrm,if_pos few]
        exact filling_getStrm ih few done
      | period src =>
        rw [periods_period]
        by_cases room : periods trace < 10
        · rw [if_pos (by omega)]
          exact filling_period ih room permitted done
        rw [if_neg (by omega),inBounds_concat]
        simp only [step,ih.enabled,if_true,Option.some.injEq,Prod.mk.injEq] at done
        intro inside
        have past := inside.2 _ _ done.1.symm
        have permitted : src.length = periodBytes := permitted
        rw [ih.write,ih.length,permitted,periodBytes,bufferBytesMax] at past
        omega
    · rw [if_neg few] at ih
      have more : periods trace ≤ periods (trace ++ [(call,reply)]) := by
        cases call <;> simp
      rw [if_neg (by omega),inBounds_concat]
      exact fun inside => ih inside.1

/-- The ring keeps its bounds and the order exactly for ten periods: 65536 is no multiple of 6144.
-/
theorem wfd_ring (size : b.bytes = bufferBytesMax / 3)
    (run : Runs.Run step Permitted (wfdGetBuf b) trace w) :
    (InBounds 65536 trace ∧ w.wrPtr < 65536 ∧ w.rdPtr < 65536 ∧ ∃ p, Follows 65536 trace p) ↔
      periods trace ≤ 10 := by
  have filling := filling_run size run
  constructor
  · intro ok
    by_contra many
    rw [if_neg many] at filling
    exact filling ok.1
  intro few
  rw [if_pos few] at filling
  have length := filling.length
  have write := filling.write
  have unread := filling.unread
  have bytes : w.bytes = 65536 := filling.size
  rw [periodBytes] at length
  refine ⟨bytes ▸ filling.inside, by omega, by omega, ?_⟩
  exact ⟨w.rdPtr, bytes ▸ filling.follows⟩

theorem silence (h : b.enable = true) (n : Nat) :
    ∃ trace w, Runs.Run step Permitted b trace w ∧ periods trace = n ∧ w.enable = true := by
  induction n with
  | zero => exact ⟨[],b,.start,rfl,h⟩
  | succ n ih =>
    obtain ⟨trace,w,run,count,enabled⟩ := ih
    let src := List.replicate periodBytes 0
    have played : step w (.period src) = some (.wrote w.wrPtr src.length, wfdUpdate w src) :=
      if_pos enabled
    have permitted : Permitted w (.period src) := List.length_replicate
    refine ⟨_,_,run.next permitted played,?_,?_⟩
    · rw [periods_period,count]
    · unfold wfdUpdate
      dsimp only
      split <;> exact enabled

def fresh : SndWfdBuffer := preallocateDmaBuffer ⟨fun _ => 0, 0, 0, 0, 0, false⟩

theorem wfd_ring_ten : ∃ trace w, Runs.Run step Permitted (wfdGetBuf fresh) trace w ∧
    periods trace = 10 ∧ InBounds 65536 trace ∧ ∃ p, Follows 65536 trace p := by
  obtain ⟨trace, w, run, count, _⟩ := silence (b := wfdGetBuf fresh) rfl 10
  obtain ⟨inside, _, _, follows⟩ := (wfd_ring rfl run).mpr (le_of_eq count)
  exact ⟨trace, w, run, count, inside, follows⟩

theorem eleventh_period : ∃ trace w, Runs.Run step Permitted (wfdGetBuf fresh) trace w ∧
    periods trace = 11 ∧ ¬ InBounds 65536 trace := by
  obtain ⟨trace, w, run, count, _⟩ := silence (b := wfdGetBuf fresh) rfl 11
  have past := filling_run rfl run
  rw [if_neg (by omega)] at past
  exact ⟨trace, w, run, count, past⟩

end Apc8750.Audio
