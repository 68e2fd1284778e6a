import Apc8750.Clock.Zero

namespace Apc8750.Clock

/-- What drivers do to clocks. Enables and disables carry the driver that makes
them. -/
inductive Op where
  | enable (who : Nat) (dev : Dev)
  | disable (who : Nat) (dev : Dev)
  | set (dev : Dev) (cmd : Cmd) (unit freq : Int)
  | manu (dev : Dev) (divf divr divq devDiv : Int)
  | power (bootdev : Nat)
  deriving DecidableEq

/-- The outstanding enables as driver and device, and the devices ever enabled. -/
structure Shared where
  clk : Clk
  held : List (Nat × Nat)
  ever : List Nat

def gate (s : Shared) : Op → Option (Int × Shared)
  | .enable who dev =>
    let (reply, clk) := autoPllDivisor s.clk dev .clkEnable 0 0
    some (reply.ret, ⟨clk, (who, dev.id) :: s.held, dev.id :: s.ever⟩)
  | .disable who dev =>
    if (who, dev.id) ∈ s.held then
      let (reply, clk) := autoPllDivisor s.clk dev .clkDisable 0 0
      some (reply.ret, { s with clk, held := s.held.erase (who, dev.id) })
    else none
  | .set dev cmd unit freq =>
    if cmd = .clkEnable ∨ cmd = .clkDisable then none
    else
      let (reply, clk) := autoPllDivisor s.clk dev cmd unit freq
      some (reply.ret, { s with clk })
  | .manu dev divf divr divq devDiv =>
    let (reply, clk) := manuPllDivisor s.clk dev divf divr divq devDiv
    some (reply.ret, { s with clk })
  | .power bootdev => some (0, { s with clk := wmtPowerDev s.clk bootdev })

def ClockOn (s : Shared) : Op → Prop
  | .manu dev divf divr divq devDiv =>
    Accepted dev divf divr divq devDiv → s.clk.regs.clk dev.id = true
  | _ => True

def Shared.holders (s : Shared) (d : Nat) : Nat := s.held.countP fun h => h.2 = d

structure Gated (s : Shared) (d : Nat) : Prop where
  counted : (s.holders d : Int) ≤ s.clk.count d
  on : 0 < s.clk.count d → s.clk.regs.clk d = true

structure Exact (s : Shared) (d : Nat) : Prop where
  counted : s.clk.count d = s.holders d
  on : 0 < s.clk.count d → s.clk.regs.clk d = true
  off : d ∈ s.ever → s.holders d = 0 → s.clk.regs.clk d = false

variable {s t : Shared} {c : Clk} {d : Nat} {op : Op} {ret : Int}

theorem Dev.id_lt (dev : Dev) : dev.id < 128 := by cases dev <;> decide

theorem enable_count (c : Clk) (e d : Nat) : (enableDevClk c e).2.count d =
      (if d = e then (if c.count e ≤ 0 ∨ c.regs.clk e = false then 1 else c.count e + 1)
        else c.count d) := by
  unfold enableDevClk
  by_cases same : d = e
  · subst same
    split <;> simp
  · rw [if_neg same]
    split <;> exact Function.update_of_ne same _ _

theorem enable_bit (c : Clk) (e d : Nat) :
    (enableDevClk c e).2.regs.clk d = (if d = e then true else c.regs.clk d) := by
  unfold enableDevClk
  by_cases same : d = e
  · subst same
    split
    · simp
    · rename_i h
      simpa using (not_or.mp h).2
  · rw [if_neg same]
    split
    · exact Function.update_of_ne same _ _
    · rfl

theorem disable_count (c : Clk) (e d : Nat) : (disableDevClk c e).2.count d =
      (if d = e then (if c.count e ≤ 1 then 0 else c.count e - 1) else c.count d) := by
  unfold disableDevClk
  by_cases same : d = e
  · subst same
    split <;> simp
  · rw [if_neg same]
    split <;> exact Function.update_of_ne same _ _

theorem disable_bit (c : Clk) (e d : Nat) : (disableDevClk c e).2.regs.clk d =
      (if d = e ∧ c.count e ≤ 1 then false else c.regs.clk d) := by
  unfold disableDevClk
  by_cases same : d = e
  · subst same
    split <;> simp_all
  rw [if_neg (not_and_of_not_left _ same)]
  split
  · exact Function.update_of_ne same _ _
  · rfl

theorem auto_enable (c : Clk) (dev : Dev) : autoPllDivisor c dev .clkEnable 0 0 =
    (⟨(enableDevClk c dev.id).1,[]⟩, (enableDevClk c dev.id).2) := if_pos dev.id_lt

theorem auto_disable (c : Clk) (dev : Dev) : autoPllDivisor c dev .clkDisable 0 0 =
    (⟨(disableDevClk c dev.id).1,[]⟩, (disableDevClk c dev.id).2) := if_pos dev.id_lt

theorem writes_clk (ws : List Write) (r : Regs) : (ws.foldl Regs.write r).clk = r.clk := by
  induction ws generalizing r with
  | nil => rfl
  | cons w ws ih =>
    rw [List.foldl_cons,ih]
    cases w <;> rfl

theorem auto_gate (c : Clk) (dev : Dev) (cmd : Cmd) (unit freq : Int)
    (h : ¬ (cmd = .clkEnable ∨ cmd = .clkDisable)) :
    (autoPllDivisor c dev cmd unit freq).2.count = c.count ∧
    (autoPllDivisor c dev cmd unit freq).2.regs.clk = c.regs.clk := by
  cases cmd with
  | clkDisable => exact absurd (.inr rfl) h
  | clkEnable => exact absurd (.inl rfl) h
  | _ => exact ⟨rfl,writes_clk _ _⟩

theorem manu_gate (c : Clk) (dev : Dev) (divf divr divq devDiv : Int) :
    let c' := (manuPllDivisor c dev divf divr divq devDiv).2
    (c'.count = c.count ∧ c'.regs.clk = c.regs.clk) ∨
    (Accepted dev divf divr divq devDiv ∧ c.regs.clk dev.id = false ∧
      c'.count = (enableDevClk c dev.id).2.count ∧
      c'.regs.clk = (enableDevClk c dev.id).2.regs.clk) := by
  unfold manuPllDivisor
  dsimp only
  by_cases ranges : manuRanges divf divr divq = false
  · rw [if_pos ranges]
    exact .inl ⟨rfl,rfl⟩
  rw [if_neg ranges]
  by_cases checks : manuChecks dev divf divr devDiv = false
  · rw [if_pos checks]
    exact .inl ⟨rfl,rfl⟩
  rw [if_neg checks]
  by_cases unknown : (calcPllNum dev).1 = 5
  · rw [if_pos unknown]
    exact .inl ⟨rfl,rfl⟩
  rw [if_neg unknown]
  by_cases off : c.regs.clk dev.id = false
  · rw [if_pos off]
    refine .inr ⟨⟨by simpa using ranges,by simpa using checks,unknown⟩,off,rfl,?_⟩
    exact writes_clk _ _
  · rw [if_neg off]
    exact .inl ⟨rfl,writes_clk _ _⟩

theorem power_count (c : Clk) (e d : Nat) (h : 0 < c.count e → c.regs.clk e = true)
    (hc : 0 ≤ c.count e) :
    (disableDevClk (enableDevClk c e).2 e).2.count d = c.count d ∧
    (disableDevClk (enableDevClk c e).2 e).2.regs.clk d =
      (if d = e ∧ c.count e = 0 then false else c.regs.clk d) := by
  by_cases same : d = e
  · subst same
    rw [disable_count,disable_bit,enable_count,enable_bit,if_pos rfl,if_pos rfl,if_pos rfl]
    rcases hc.eq_or_lt with zero | pos
    · rw [if_pos (Or.inl zero.ge),← zero,if_pos le_rfl,if_pos ⟨rfl,le_rfl⟩,if_pos ⟨rfl,rfl⟩]
      exact ⟨rfl,rfl⟩
    have stay : ¬ (c.count d ≤ 0 ∨ c.regs.clk d = false) := by
      rw [h pos]
      simp [pos]
    rw [if_neg stay,if_neg (by omega),if_neg (by omega),if_neg (by omega),h pos]
    exact ⟨by omega,rfl⟩
  · rw [disable_count,disable_bit,if_neg same,enable_count c e d,enable_bit,if_neg same,
      if_neg same,if_neg (not_and_of_not_left _ same),if_neg (not_and_of_not_left _ same)]
    exact ⟨rfl,rfl⟩

theorem holders_cons (c : Clk) (who e d : Nat) (held : List (Nat × Nat)) (ever : List Nat) :
    Shared.holders ⟨c,(who,e) :: held,ever⟩ d =
      held.countP (fun h => h.2 = d) + if d = e then 1 else 0 := by
  unfold Shared.holders
  rw [List.countP_cons]
  simp [eq_comm]

theorem holders_erase {who e : Nat} (c : Clk) (h : (who,e) ∈ s.held) (d : Nat) :
    Shared.holders ⟨c,s.held.erase (who,e),s.ever⟩ d + (if d = e then 1 else 0) =
      s.holders d := by
  unfold Shared.holders
  rw [(List.perm_cons_erase h).countP_eq,List.countP_cons]
  simp [eq_comm]

inductive Change (s t : Shared) (d : Nat) : Op → Prop where
  | enable (who : Nat) (dev : Dev)
      (count : t.clk.count d = if s.clk.count d ≤ 0 ∨ s.clk.regs.clk d = false then 1
        else s.clk.count d + 1)
      (bit : t.clk.regs.clk d = true) (holders : t.holders d = s.holders d + 1) :
      Change s t d (.enable who dev)
  | disable (who : Nat) (dev : Dev)
      (count : t.clk.count d = if s.clk.count d ≤ 1 then 0 else s.clk.count d - 1)
      (bit : t.clk.regs.clk d = if s.clk.count d ≤ 1 then false else s.clk.regs.clk d)
      (holders : t.holders d + 1 = s.holders d) (ever : t.ever = s.ever) :
      Change s t d (.disable who dev)
  | manu (dev : Dev) (divf divr divq devDiv : Int)
      (accepted : Accepted dev divf divr divq devDiv) (id : dev.id = d) (off : s.clk.regs.clk d = false)
      (count : t.clk.count d = if s.clk.count d ≤ 0 ∨ s.clk.regs.clk d = false then 1
        else s.clk.count d + 1)
      (bit : t.clk.regs.clk d = true) (holders : t.holders d = s.holders d) :
      Change s t d (.manu dev divf divr divq devDiv)
  | power (bootdev : Nat)
      (run : (0 < s.clk.count d → s.clk.regs.clk d = true) → 0 ≤ s.clk.count d →
        t.clk.count d = s.clk.count d ∧
        t.clk.regs.clk d = if s.clk.count d = 0 then false else s.clk.regs.clk d)
      (holders : t.holders d = s.holders d) (ever : t.ever = s.ever) :
      Change s t d (.power bootdev)
  | same (op : Op) (count : t.clk.count d = s.clk.count d)
      (bit : t.clk.regs.clk d = s.clk.regs.clk d) (holders : t.holders d = s.holders d)
      (ever : d ∈ t.ever → d ∈ s.ever) : Change s t d op

theorem gate_change (h : gate s op = some (ret,t)) (d : Nat) : Change s t d op := by
  cases op with
  | enable who dev =>
    simp only [gate,auto_enable,Option.some.injEq,Prod.mk.injEq] at h
    obtain ⟨_,rfl⟩ := h
    have holders := holders_cons (enableDevClk s.clk dev.id).2 who dev.id d s.held (dev.id :: s.ever)
    by_cases same : d = dev.id
    · rw [if_pos same] at holders
      subst same
      apply Change.enable who dev _ _ holders
      · exact (enable_count _ _ _).trans (if_pos rfl)
      · exact (enable_bit _ _ _).trans (if_pos rfl)
    · rw [if_neg same] at holders
      apply Change.same _ _ _ holders
      · exact fun mem => (List.mem_cons.mp mem).resolve_left same
      · exact (enable_count _ _ _).trans (if_neg same)
      · exact (enable_bit _ _ _).trans (if_neg same)
  | disable who dev =>
    simp only [gate] at h
    by_cases mem : (who,dev.id) ∈ s.held
    · rw [if_pos mem] at h
      simp only [auto_disable,Option.some.injEq,Prod.mk.injEq] at h
      obtain ⟨_,rfl⟩ := h
      have holders := holders_erase (disableDevClk s.clk dev.id).2 mem d
      by_cases same : d = dev.id
      · rw [if_pos same] at holders
        subst same
        apply Change.disable who dev _ _ holders rfl
        · exact (disable_count _ _ _).trans (if_pos rfl)
        · exact (disable_bit _ _ _).trans (by simp)
      · rw [if_neg same] at holders
        apply Change.same _ _ _ holders id
        · exact (disable_count _ _ _).trans (if_neg same)
        · exact (disable_bit _ _ _).trans (if_neg (not_and_of_not_left _ same))
    · rw [if_neg mem] at h
      cases h
  | set dev cmd unit freq =>
    simp only [gate] at h
    by_cases gates : cmd = .clkEnable ∨ cmd = .clkDisable
    · rw [if_pos gates] at h
      cases h
    rw [if_neg gates] at h
    simp only [Option.some.injEq,Prod.mk.injEq] at h
    obtain ⟨_,rfl⟩ := h
    obtain ⟨count,bit⟩ := auto_gate s.clk dev cmd unit freq gates
    exact .same _ (congrFun count d) (congrFun bit d) rfl id
  | manu dev divf divr divq devDiv =>
    simp only [gate,Option.some.injEq,Prod.mk.injEq] at h
    obtain ⟨_,rfl⟩ := h
    rcases manu_gate s.clk dev divf divr divq devDiv with ⟨count,bit⟩ | ⟨accepted,off,count,bit⟩
    · exact .same _ (congrFun count d) (congrFun bit d) rfl id
    by_cases same : d = dev.id
    · subst same
      refine Change.manu dev divf divr divq devDiv accepted rfl off ?_ ?_ rfl
      · exact (congrFun count _).trans ((enable_count _ _ _).trans (if_pos rfl))
      · exact (congrFun bit _).trans ((enable_bit _ _ _).trans (if_pos rfl))
    · refine Change.same _ ?_ ?_ rfl id
      · exact (congrFun count _).trans ((enable_count _ _ _).trans (if_neg same))
      · exact (congrFun bit _).trans ((enable_bit _ _ _).trans (if_neg same))
  | power bootdev =>
    simp only [gate,Option.some.injEq,Prod.mk.injEq] at h
    obtain ⟨_,rfl⟩ := h
    by_cases same : d = (bootDev bootdev).id
    · subst same
      refine Change.power bootdev ?_ rfl rfl
      intro on low
      obtain ⟨count,bit⟩ := power_count s.clk _ _ on low
      exact ⟨count,bit.trans (by simp only [true_and])⟩
    · refine Change.same _ ?_ ?_ rfl id
      · exact (disable_count _ _ _).trans ((if_neg same).trans
          ((enable_count _ _ _).trans (if_neg same)))
      · exact (disable_bit _ _ _).trans ((if_neg (not_and_of_not_left _ same)).trans
          ((enable_bit _ _ _).trans (if_neg same)))

theorem enabled_count (counted : (n : Int) ≤ count) (on : 0 < count → bit = true) :
    (n : Int) + 1 ≤ if count ≤ 0 ∨ bit = false then 1 else count + 1 := by
  split
  · rename_i low
    have : ¬ 0 < count := by
      intro pos
      rcases low with low | low
      · omega
      · rw [on pos] at low
        cases low
    omega
  · omega

theorem Gated.step (h : Gated s d) (hs : gate s op = some (ret,t)) : Gated t d := by
  obtain ⟨counted,on⟩ := h
  cases gate_change hs d with
  | enable who dev count bit holders =>
    refine ⟨?_,fun _ => bit⟩
    rw [count,holders]
    exact enabled_count counted on
  | disable who dev count bit holders _ =>
    by_cases last : s.clk.count d ≤ 1
    · rw [if_pos last] at count
      refine ⟨by omega,by omega⟩
    · rw [if_neg last] at count bit
      refine ⟨by omega,fun _ => bit.trans (on (by omega))⟩
  | manu dev divf divr divq devDiv _ _ _ count bit holders =>
    refine ⟨?_,fun _ => bit⟩
    rw [count,holders]
    have := enabled_count counted on
    omega
  | power bootdev run holders _ =>
    obtain ⟨count,bit⟩ := run on (by omega)
    refine ⟨by omega,fun pos => ?_⟩
    rw [bit,if_neg (by omega)]
    exact on (by omega)
  | same _ count bit holders _ =>
    refine ⟨by omega,fun pos => ?_⟩
    rw [bit]
    exact on (by omega)

theorem Exact.step (h : Exact s d) (allowed : ClockOn s op) (hs : gate s op = some (ret,t)) :
    Exact t d := by
  obtain ⟨counted,on,off⟩ := h
  cases gate_change hs d with
  | enable who dev count bit holders =>
    refine ⟨?_,fun _ => bit,by omega⟩
    have zero : s.clk.count d ≤ 0 ∨ s.clk.regs.clk d = false ↔ s.clk.count d = 0 := by
      constructor
      · rintro (low | low)
        · omega
        · by_contra ne
          rw [on (by omega)] at low
          cases low
      · exact fun eq => .inl eq.le
    rw [count,holders]
    split <;> rename_i h <;> rw [zero] at h <;> omega
  | disable who dev count bit holders ever =>
    by_cases last : s.clk.count d ≤ 1
    · rw [if_pos last] at count bit
      exact ⟨by omega,by omega,fun _ _ => bit⟩
    · rw [if_neg last] at count bit
      exact ⟨by omega,fun _ => bit.trans (on (by omega)),by omega⟩
  | manu dev divf divr divq devDiv accepted id low _ _ _ =>
    have high := allowed accepted
    rw [id,low] at high
    cases high
  | power bootdev run holders ever =>
    obtain ⟨count,bit⟩ := run on (by omega)
    refine ⟨by omega,fun pos => ?_,fun _ none => ?_⟩
    · rw [bit,if_neg (by omega)]
      exact on (by omega)
    · rw [bit,if_pos (by omega)]
  | same _ count bit holders ever =>
    refine ⟨by omega,fun pos => ?_,fun mem none => ?_⟩
    · rw [bit]
      exact on (by omega)
    · rw [bit]
      exact off (ever mem) (by omega)

def start (r : Regs) : Shared := ⟨⟨r, fun _ => 0⟩, [], []⟩

/-- A clock is on while an enable is outstanding, and off otherwise once it was enabled. -/
theorem clock_gating (run : Runs.Run gate (fun _ _ => True) (start r) trace s) :
    (∀ who d, (who, d) ∈ s.held → s.clk.regs.clk d = true) ∧
    (Runs.Run gate ClockOn (start r) trace s →
      ∀ d ∈ s.ever, (∀ who, (who, d) ∉ s.held) → s.clk.regs.clk d = false) := by
  constructor
  · intro who d mem
    have gated : Gated s d :=
      run.invariant (I := fun s => Gated s d) ⟨le_rfl, fun pos => absurd pos (lt_irrefl 0)⟩
        fun h _ done => h.step done
    apply gated.on
    have : 0 < s.holders d := List.countP_pos_iff.mpr ⟨_, mem, by simp⟩
    have := gated.counted
    omega
  intro guarded d mem none
  have exact : Exact s d :=
    guarded.invariant (I := fun s => Exact s d)
      ⟨rfl, fun pos => absurd pos (lt_irrefl 0), fun mem => absurd mem List.not_mem_nil⟩
      fun h allowed done => h.step allowed done
  apply exact.off mem
  apply List.countP_eq_zero.mpr
  rintro ⟨who, e⟩ held eq
  rw [← of_decide_eq_true eq] at none
  exact none who held

def allOff : Regs := { gigahertz.regs with clk := fun _ => false }

theorem clock_gating_uart : ∃ trace s,
    Runs.Run gate (fun _ _ => True) (start allOff) trace s ∧ s.held = [(1, Dev.uart0.id)] ∧
    s.clk.regs.clk Dev.uart0.id = true := by
  have run : ∃ trace s, Runs.Run gate (fun _ _ => True) (start allOff) trace s ∧
      s.held = [(1, Dev.uart0.id)] :=
    ⟨_, _, .next (.next (.next .start trivial (a := .enable 0 .uart0) rfl) trivial
      (a := .enable 1 .uart0) rfl) trivial (a := .disable 0 .uart0) rfl, rfl⟩
  obtain ⟨trace, s, run, held⟩ := run
  refine ⟨trace, s, run, held, (clock_gating run).1 1 _ ?_⟩
  rw [held]
  exact List.mem_singleton_self _

/-- The clock stays on after its only driver has disabled it. -/
theorem manu_keeps_clock : ∃ trace s,
    Runs.Run gate (fun _ _ => True) (start allOff) trace s ∧
    trace.map Prod.fst = [.manu .spi0 39 0 0 4, .enable 0 .spi0, .disable 0 .spi0] ∧
    Dev.spi0.id ∈ s.ever ∧ s.held = [] ∧ s.clk.regs.clk Dev.spi0.id = true := by
  refine ⟨_, _, .next (.next (.next .start trivial (a := .manu .spi0 39 0 0 4) rfl) trivial
    (a := .enable 0 .spi0) rfl) trivial (a := .disable 0 .spi0) rfl, rfl, ?_⟩
  decide +kernel

end Apc8750.Clock
