import Apc8750.Library.Runs

namespace Apc8750.Rtc

structure RtcTime where
  sec : Int
  min : Int
  hour : Int
  mday : Int
  mon : Int
  year : Int
  deriving DecidableEq

/-- `programmed` is the last value set, `off` whether `RTC_AIE_OFF` came last, `fired` whether the
alarm has come since. -/
structure State where
  reg : BitVec 32
  shadow : BitVec 32
  alarm : RtcTime
  programmed : BitVec 32
  off : Bool
  fired : Bool

def bin2bcd (x : Int) : BitVec 32 := BitVec.ofInt 32 (x / 10 * 16 + x % 10)

def cmpMask : BitVec 32 := 0x3C000000

def field (x low high : Int) (shift : Nat) (mask cmp : BitVec 32) : BitVec 32 :=
  if low ≤ x ∧ x ≤ high then (bin2bcd x <<< shift) &&& mask ||| cmp else 0

def alarmValue (t : RtcTime) : BitVec 32 :=
  field t.sec 0 59 0 0x7F 0x04000000 ||| field t.min 0 59 7 0x3F80 0x08000000 |||
    field t.hour 0 23 14 0xFC000 0x10000000 ||| field t.mday 1 31 20 0x3F00000 0x20000000

/-- `busy` is `RTWS_ALARMSET` of the write status. -/
def wmtSetAlarm (s : State) (t : RtcTime) (busy : Bool) : Bool × State :=
  if alarmValue t = 0 then (true, s)
  else if busy then (false, s)
  else (true, { s with reg := alarmValue t })

def wmtRtcSetAlarm (s : State) (t : RtcTime) (busy : Bool) : Bool × State :=
  let (accepted, s) := wmtSetAlarm s t busy
  if accepted then
    (true, { s with
      alarm := t
      programmed := if alarmValue t = 0 then s.programmed else alarmValue t
      fired := s.fired && decide (alarmValue t = 0) })
  else (false, s)

def rtcPeriodicAlarm (t : RtcTime) : Bool :=
  decide (t.year = -1 ∨ ¬ (0 ≤ t.mon ∧ t.mon < 12) ∨ ¬ (1 ≤ t.mday ∧ t.mday ≤ 31) ∨
    ¬ (0 ≤ t.hour ∧ t.hour ≤ 23) ∨ ¬ (0 ≤ t.min ∧ t.min ≤ 59) ∨ ¬ (0 ≤ t.sec ∧ t.sec ≤ 59))

inductive Op where
  | aieOff
  | aieOn
  | setAlarm (t : RtcTime) (busy : Bool)
  | interrupt (busy : Bool)
  deriving DecidableEq

/-- One call, or the interrupt of an alarm, which comes only with a compare bit set. -/
def step (s : State) : Op → Option (Bool × State)
  | .aieOff => some (true, { s with shadow := s.reg, reg := s.reg &&& ~~~cmpMask, off := true })
  | .aieOn => some (true, { s with reg := s.reg ||| (s.shadow &&& cmpMask), off := false })
  | .setAlarm t busy => some (wmtRtcSetAlarm s t busy)
  | .interrupt busy =>
    if s.reg &&& cmpMask = 0 then none
    else
      let s := { s with reg := s.reg &&& ~~~cmpMask, fired := true }
      some (true, if rtcPeriodicAlarm s.alarm then (wmtSetAlarm s s.alarm busy).2 else s)

/-- No alarm is set while off, none turned off twice, or on with other compare bits in the shadow.
-/
def Careful (s : State) : Op → Prop
  | .aieOff => s.off = false ∨ s.fired = true
  | .aieOn => s.off = true ∨ s.fired = true ∨ s.reg ||| (s.shadow &&& cmpMask) = s.reg
  | .setAlarm t busy => s.off = false ∨ busy = true ∨ alarmValue t = 0
  | .interrupt _ => True

/-- The last value set while it is on, and no compare bit while it is off. -/
structure Faithful (s : State) : Prop where
  armed : s.off = false → s.fired = false → s.reg = s.programmed
  silent : s.off = true → s.reg &&& cmpMask = 0

structure Restorable (s : State) : Prop extends Faithful s where
  saved : s.off = true → s.fired = false → s.reg ||| (s.shadow &&& cmpMask) = s.programmed

theorem cleared (x : BitVec 32) : x &&& ~~~cmpMask &&& cmpMask = 0 := by
  have apart : ~~~cmpMask &&& cmpMask = 0 := by decide
  rw [BitVec.and_assoc,apart]
  exact BitVec.and_zero

theorem rejoined (x : BitVec 32) : x &&& ~~~cmpMask ||| (x &&& cmpMask) = x := by
  rw [← BitVec.and_or_distrib_left,BitVec.or_comm,BitVec.or_not_self,BitVec.and_allOnes]

theorem Restorable.of_on (on : s.off = false) (armed : s.fired = false → s.reg = s.programmed) :
    Restorable s := by
  have not_off (off : s.off = true) : False := by
    rw [on] at off
    cases off
  exact ⟨⟨fun _ => armed,fun off => (not_off off).elim⟩,fun off => (not_off off).elim⟩

theorem Restorable.setAlarm (h : Restorable s) (careful : Careful s (.setAlarm a busy)) :
    Restorable (wmtRtcSetAlarm s a busy).2 := by
  unfold wmtRtcSetAlarm wmtSetAlarm
  by_cases none : alarmValue a = 0
  · have same : Restorable { s with alarm := a } := ⟨⟨h.armed,h.silent⟩,h.saved⟩
    simpa [none] using same
  simp only [if_neg none]
  cases busy with
  | true => exact h
  | false => exact .of_on (careful.resolve_right (not_or.mpr ⟨Bool.false_ne_true,none⟩)) fun _ => rfl

theorem Restorable.interrupt (h : Restorable s) (done : step s (.interrupt busy) = some (r,t)) :
    Restorable t := by
  simp only [Rtc.step] at done
  split at done
  · cases done
  rename_i set
  have on : s.off = false := by
    cases off : s.off with
    | false => rfl
    | true => exact absurd (h.silent off) set
  cases done
  unfold wmtSetAlarm
  split
  · split
    · exact .of_on on nofun
    · split <;> exact .of_on on nofun
  · exact .of_on on nofun

theorem Restorable.step (h : Restorable s) (careful : Careful s op) (done : step s op = some (r,t))
    : Restorable t := by
  cases op with
  | interrupt busy => exact h.interrupt done
  | setAlarm a busy =>
    have same : (wmtRtcSetAlarm s a busy).2 = t := congrArg Prod.snd (Option.some.inj done)
    exact same ▸ h.setAlarm careful
  | aieOff =>
    cases done
    refine ⟨⟨nofun,fun _ => cleared _⟩,fun _ quiet => ?_⟩
    have on := careful.resolve_right (by simp [show s.fired = false from quiet])
    exact (rejoined _).trans (h.armed on quiet)
  | aieOn =>
    cases done
    refine ⟨⟨fun _ quiet => ?_,nofun⟩,nofun⟩
    have quiet : s.fired = false := quiet
    cases off : s.off with
    | true => exact h.saved off quiet
    | false =>
      have none := careful.resolve_left (by simp [off])
      exact (none.resolve_left (by simp [quiet])).trans (h.armed off quiet)

/-- With careful calls the register has the last value set while the alarm is on, and no compare bit
while off. -/
theorem alarm_faithful {trace : List (Op × Bool)} (on : s.off = false) (start : s.reg = s.programmed)
    (run : Runs.Run step Careful s trace t) : Faithful t :=
  (run.invariant (I := Restorable) (.of_on on fun _ => start) fun h careful done =>
    h.step careful done).toFaithful

def idle : State := ⟨0, 0, ⟨0, 0, 0, 1, 0, 100⟩, 0, false, false⟩

def daily : RtcTime := ⟨-1, 30, 7, -1, -1, -1⟩

theorem alarm_faithful_daily : ∃ s, Runs.Run step Careful idle
    [(.setAlarm daily false, true), (.aieOff, true), (.aieOn, true)] s ∧ s.reg = alarmValue daily := by
  obtain ⟨s, run, on, quiet, same⟩ : ∃ s, Runs.Run step Careful idle
      [(.setAlarm daily false, true), (.aieOff, true), (.aieOn, true)] s ∧ s.off = false ∧ s.fired = false ∧
      s.programmed = alarmValue daily := by
    refine ⟨_, .next (.next (.next .start ?_ rfl) ?_ rfl) ?_ rfl, ?_⟩
    · exact Or.inl rfl
    · exact Or.inl rfl
    · exact Or.inl rfl
    · decide
  exact ⟨s, run, ((alarm_faithful rfl rfl run).armed on quiet).trans same⟩

/-- Turned off twice it does not come back; one set while another is off compares at once. -/
theorem alarm_lost : ∃ s t u, Runs.Run step (fun _ _ => True) idle
      [(.setAlarm daily false, true), (.aieOff, true), (.aieOff, true), (.aieOn, true)] s ∧
    s.reg &&& cmpMask = 0 ∧ Runs.Run step (fun _ _ => True) idle
      [(.setAlarm ⟨-1, -1, 7, -1, -1, -1⟩ false, true), (.aieOff, true),
        (.setAlarm ⟨-1, 30, -1, -1, -1, -1⟩ false, true)] t ∧ t.reg &&& cmpMask ≠ 0 ∧
    Runs.Run step (fun _ _ => True) t [(.aieOn, true)] u ∧ u.reg ≠ u.programmed := by
  refine ⟨_, _, _, .next (.next (.next (.next .start trivial rfl) trivial rfl) trivial rfl) trivial rfl, by decide,
    .next (.next (.next .start trivial rfl) trivial rfl) trivial rfl, by decide, .next .start trivial rfl, by decide⟩

end Apc8750.Rtc
