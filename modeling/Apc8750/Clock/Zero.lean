import Apc8750.Clock.Divide

namespace Apc8750.Clock

variable {dev : Dev} {unit freq : Int} {r : Regs} {no offs : Nat} {c : Clk}

def FieldsOk (r : Regs) : Prop :=
  ∀ dev, (calcPllNum dev).1 < 5 → r.divByte (calcPllNum dev).2 % 32 ≠ 0

def Write.Ok : Write → Prop
  | .divisor _ word => word % 32 ≠ 0
  | _ => True

def Not32 (c : Clk) : Call → Prop
  | .auto dev .setDiv unit freq => (calcPllNum dev).1 < 5 → ¬ (c.regs.clk dev.id = true ∧
      Only32 dev (calcPllNum dev).1 (target unit freq) (c.regs.pll (calcPllNum dev).1))
  | .auto dev .setPllDiv unit freq => (calcPllNum dev).1 < 5 → ¬ (UnitOk unit ∧
      c.regs.clk dev.id = true ∧ Best32 (calcPllNum dev).1 (target unit freq))
  | .auto _ _ _ _ => True
  | .manu dev divf divr divq devDiv => Accepted dev divf divr divq devDiv → devDiv % 32 ≠ 0

theorem FieldsOk.write (h : FieldsOk r) {w : Write} (hw : w.Ok) : FieldsOk (r.write w) := by
  intro dev hd
  cases w with
  | select offs byte =>
    rw [write_divByte_select]
    exact h dev hd
  | divisor offs word =>
    simp only [Regs.divByte,Regs.write]
    by_cases same : (calcPllNum dev).2 = offs
    · rw [same,Function.update_self,Nat.mod_mod_of_dvd word (by decide)]
      exact hw
    · rw [Function.update_of_ne same]
      exact h dev hd
  | pll no word => exact h dev hd

theorem FieldsOk.writes {ws : List Write} (h : FieldsOk r) (hw : ∀ w ∈ ws, w.Ok) :
    FieldsOk (ws.foldl Regs.write r) := by
  induction ws generalizing r with
  | nil => exact h
  | cons w ws ih =>
    apply ih (h.write (hw w (by simp)))
    exact fun w' h' => hw w' (List.mem_cons_of_mem _ h')

theorem selectWrite_ok (dev : Dev) (offs : Nat) : (selectWrite dev offs).Ok := trivial

theorem select_only {w : Write} (h : w ∈ [selectWrite dev offs]) : w.Ok := by
  rw [List.mem_singleton.mp h]
  exact selectWrite_ok dev offs

theorem divisorWord_ok (h : 0 < div ∧ div < 32) : divisorWord dev b div % 32 ≠ 0 := by
  unfold divisorWord
  rw [if_neg h.2.ne]
  split <;> split <;> omega

theorem setDivisor_writes (h : (calcPllNum dev).1 < 5 → ¬ (r.clk dev.id = true ∧
      Only32 dev (calcPllNum dev).1 (target unit freq) (r.pll (calcPllNum dev).1)))
    {w : Write} (hw : w ∈ (setDivisor dev unit freq r).writes) : w.Ok := by
  unfold setDivisor at hw
  obtain ⟨no,offs,hd,lt | rfl | rfl⟩ := calcPllNum_cases dev
  · simp only [hd] at h hw
    rw [if_neg lt.ne,if_neg (by omega)] at hw
    by_cases off : r.clk dev.id = false
    · rw [if_pos off] at hw
      exact select_only hw
    rw [if_neg off] at hw
    have on : r.clk dev.id = true := by simpa using off
    rcases find_cases dev no (target unit freq) (r.pll no) with
      ⟨div,found,pos,small,_⟩ | ⟨_,only⟩ | ⟨found,_⟩
    · rw [found] at hw
      rcases List.mem_cons.mp hw with rfl | hw
      · exact selectWrite_ok dev offs
      · rw [List.mem_singleton.mp hw]
        exact divisorWord_ok ⟨pos,small⟩
    · exact absurd ⟨on,only⟩ (h lt)
    · rw [found] at hw
      exact select_only hw
  · simp [hd,fail] at hw
  · simp [hd,fail] at hw

theorem pllWrites_ok (h : divWord % 32 ≠ 0) (hw : w ∈ pllWrites no offs old new divWord word) :
    w.Ok := by
  unfold pllWrites at hw
  rcases List.mem_append.mp hw with hw | hw
  · rcases List.mem_append.mp hw with hw | hw
    · split at hw
      · rw [List.mem_singleton.mp hw]
        exact h
      · exact absurd hw List.not_mem_nil
    · rw [List.mem_singleton.mp hw]
      trivial
  · split at hw
    · rw [List.mem_singleton.mp hw]
      exact h
    · exact absurd hw List.not_mem_nil

theorem setPllSpeed_writes {w : Write} (hw : w ∈ (setPllSpeed dev unit freq r).writes) : w.Ok := by
  unfold setPllSpeed at hw
  obtain ⟨no,offs,hd,lt | rfl | rfl⟩ := calcPllNum_cases dev
  · simp only [hd] at hw
    rw [if_neg lt.ne,if_neg (by omega)] at hw
    split at hw
    · exact select_only hw
    rcases List.mem_cons.mp hw with rfl | hw
    · exact selectWrite_ok dev offs
    · rw [List.mem_singleton.mp hw]
      trivial
  · simp [hd,fail] at hw
  · simp [hd,fail] at hw

theorem setPllDivisor_writes (h : (calcPllNum dev).1 < 5 → ¬ (UnitOk unit ∧ r.clk dev.id = true ∧
      Best32 (calcPllNum dev).1 (target unit freq)))
    {w : Write} (hw : w ∈ (setPllDivisor dev unit freq r).writes) : w.Ok := by
  unfold setPllDivisor at hw
  obtain ⟨no,offs,hd,lt | rfl | rfl⟩ := calcPllNum_cases dev
  · simp only [hd] at h hw
    rw [if_neg lt.ne,if_neg (by omega)] at hw
    by_cases bad : unit ≠ 0 ∧ unit ≠ 1 ∧ unit ≠ 2
    · rw [if_pos bad] at hw
      exact select_only hw
    rw [if_neg bad] at hw
    by_cases off : r.clk dev.id = false
    · rw [if_pos off] at hw
      exact select_only hw
    rw [if_neg off] at hw
    have on : r.clk dev.id = true := by simpa using off
    rcases List.mem_cons.mp hw with rfl | hw
    · exact selectWrite_ok dev offs
    apply pllWrites_ok _ hw
    have bounds := best_div_bounds no (target unit freq)
    have ne : (pllSearch no (target unit freq) (pllDivisors no)).best.div ≠ 32 := fun eq =>
      h lt ⟨not_not.mp (not_unitOk.not.mp bad),on,(best_div _ _).mp eq⟩
    exact divisorWord_ok ⟨bounds.1,by omega⟩
  · simp [hd,fail] at hw
  · simp [hd,fail] at hw

theorem enableDevClk_div (c : Clk) (dev : Nat) : (enableDevClk c dev).2.regs.div = c.regs.div := by
  unfold enableDevClk
  split <;> rfl

theorem disableDevClk_div (c : Clk) (dev : Nat) : (disableDevClk c dev).2.regs.div = c.regs.div := by
  unfold disableDevClk
  split <;> rfl

theorem FieldsOk.of_div {r' : Regs} (h : FieldsOk r) (hd : r'.div = r.div) : FieldsOk r' := by
  unfold FieldsOk Regs.divByte at *
  rw [hd]
  exact h

theorem manu_fields (h : FieldsOk c.regs) {divf divr divq devDiv : Int}
    (hd : Accepted dev divf divr divq devDiv → devDiv % 32 ≠ 0) :
    FieldsOk (manuPllDivisor c dev divf divr divq devDiv).2.regs := by
  unfold manuPllDivisor
  dsimp only
  by_cases ranges : manuRanges divf divr divq = false
  · rw [if_pos ranges]
    exact h
  rw [if_neg ranges]
  by_cases checks : manuChecks dev divf divr devDiv = false
  · rw [if_pos checks]
    exact h
  rw [if_neg checks]
  by_cases unknown : (calcPllNum dev).1 = 5
  · rw [if_pos unknown]
    exact h
  rw [if_neg unknown]
  have ne := hd ⟨by simpa using ranges,by simpa using checks,unknown⟩
  apply FieldsOk.writes
  · split
    · exact h.of_div (enableDevClk_div c dev.id)
    · exact h
  intro w hw
  apply pllWrites_ok _ hw
  unfold manuSetting
  dsimp only
  split <;> omega

theorem call_fields (h : FieldsOk c.regs) {call : Call} (hc : Not32 c call) :
    FieldsOk (call.run c).2.regs := by
  cases call with
  | manu dev divf divr divq devDiv => exact manu_fields h hc
  | auto dev cmd unit freq =>
    cases cmd with
    | clkDisable =>
      unfold Call.run autoPllDivisor
      dsimp only
      split
      · exact h.of_div (disableDevClk_div c dev.id)
      · exact h
    | clkEnable =>
      unfold Call.run autoPllDivisor
      dsimp only
      split
      · exact h.of_div (enableDevClk_div c dev.id)
      · exact h
    | getFreq =>
      apply h.writes
      intro w hw
      unfold getFreq at hw
      dsimp only at hw
      split at hw
      · exact absurd hw List.not_mem_nil
      · split at hw
        · exact absurd hw List.not_mem_nil
        · exact select_only hw
    | setDiv => exact h.writes fun w hw => setDivisor_writes hc hw
    | setPll => exact h.writes fun w hw => setPllSpeed_writes hw
    | setPllDiv => exact h.writes fun w hw => setPllDivisor_writes hc hw

theorem FieldsOk.divOk (h : FieldsOk c.regs) (hc : Not32 c call) : DivOk c call := by
  cases call with
  | manu dev divf divr divq devDiv => exact hc
  | auto dev cmd unit freq =>
    cases cmd with
    | getFreq => exact h dev
    | setPll =>
      intro lt _ zero
      exact h dev lt (by rw [zero])
    | _ => trivial

variable {c' : Clk} {trace : List (Call × Reply)}

theorem step_run (h : step c call = some (reply,c')) :
    (call.run c).1 = reply ∧ (call.run c).2 = c' := by
  rw [Option.some.inj h]
  exact ⟨rfl,rfl⟩

theorem run_safe (h : Runs.Run step DivOk c trace c') : ∀ e ∈ trace, ¬ DividesByZero e.2.divs := by
  apply h.trace_invariant (I := fun trace _ => ∀ e ∈ trace, ¬ DividesByZero e.2.divs) (by simp)
  intro trace t call reply u ih ok done e he
  rcases List.mem_append.mp he with he | he
  · exact ih e he
  · rw [List.mem_singleton.mp he]
    obtain ⟨rfl,rfl⟩ := step_run done
    exact (call_divides t call).mpr ok

theorem run_divOk (run : Runs.Run step (fun _ _ => True) c trace c')
    (safe : ∀ e ∈ trace, ¬ DividesByZero e.2.divs) : Runs.Run step DivOk c trace c' := by
  induction run with
  | start => exact .start
  | next run _ done ih =>
    apply Runs.Run.next (ih fun e he => safe e (List.mem_append_left _ he)) _ done
    have last := safe _ (List.mem_append_right _ (List.mem_singleton_self _))
    obtain ⟨rfl,rfl⟩ := step_run done
    exact (call_divides _ _).mp last

theorem run_fields (h : Runs.Run step Not32 c trace c') (start : FieldsOk c.regs) :
    Runs.Run step DivOk c trace c' := by
  have both : FieldsOk c'.regs ∧ Runs.Run step DivOk c trace c' := by
    apply h.trace_invariant (I := fun trace t => FieldsOk t.regs ∧ Runs.Run step DivOk c trace t)
      ⟨start,.start⟩
    intro trace t call reply u ih ok done
    refine ⟨?_,.next ih.2 (ih.1.divOk ok) done⟩
    obtain ⟨rfl,rfl⟩ := step_run done
    exact call_fields ih.1 ok
  exact both.2

/-- A run makes no division by zero exactly when each call finds a divisor other than zero in the
bits it uses. -/
theorem no_zero_divide (run : Runs.Run step (fun _ _ => True) c trace c') :
    ((∀ e ∈ trace, ¬ DividesByZero e.2.divs) ↔ Runs.Run step DivOk c trace c') ∧
    (FieldsOk c.regs → Runs.Run step Not32 c trace c' →
      ∀ e ∈ trace, ¬ DividesByZero e.2.divs) :=
  ⟨⟨run_divOk run, run_safe⟩, fun start h => run_safe (run_fields h start)⟩

theorem no_zero_divide_spi : ∃ trace c', trace.length = 2 ∧
    Runs.Run step (fun _ _ => True) gigahertz trace c' ∧
    ∀ e ∈ trace, ¬ DividesByZero e.2.divs := by
  refine ⟨_, _, rfl, .next (.next .start trivial (a := .auto .spi0 .setDiv 2 100) rfl) trivial
    (a := .auto .spi0 .getFreq 0 0) rfl, ?_⟩
  apply (no_zero_divide (.next (.next .start trivial rfl) trivial rfl)).1.mpr
  apply Runs.Run.next (.next .start trivial rfl) _ rfl
  intro _
  decide +kernel

/-- `GET_FREQ` divides by the 0 stored for 32. -/
theorem divisor_32_divides :
    (∀ dev, (calcPllNum dev).1 < 5 → gigahertz.regs.divByte (calcPllNum dev).2 = 1) ∧
    ∃ trace c', Runs.Run step (fun _ _ => True) gigahertz trace c' ∧
      trace.map Prod.fst = [.auto .spi0 .setDiv 0 31250000, .auto .spi0 .getFreq 0 0] ∧
      ∃ e ∈ trace, DividesByZero e.2.divs := by
  refine ⟨fun _ _ => rfl, _, _, .next (.next .start trivial rfl) trivial rfl, rfl, ?_⟩
  refine ⟨_, List.mem_append_right _ (List.mem_singleton_self _), ?_⟩
  decide +kernel

end Apc8750.Clock
