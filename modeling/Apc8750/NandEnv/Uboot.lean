import Apc8750.NandEnv.Update

namespace Apc8750.NandEnv.Uboot
open Env Faults

/-- What `nand_rw` reads; bit flips are corrected on the way. -/
def read : Cell → Option Image
  | .ok i => some i
  | .corrected i => some i
  | .failed => none

/-- The loop of `env_relocate_spec` with a number of rounds left. -/
def search (bad : Nat → Bool) (cells : Nat → Cell) : Nat → Option (Nat × Image)
  | 0 => none
  | left + 1 =>
    let i := envBlkLength * 2 - (left + 1)
    if bad (i % envBlkLength) = true then search bad cells left
    else
      match read (cells (i % envBlkLength)) with
      | none => none
      | some image =>
        if image.crc = 0xFFFFFFFF ∧ i < envBlkLength then search bad cells left
        else if image.valid = true then some (i % envBlkLength, image)
        else search bad cells left

def envRelocateSpec (bad : Nat → Bool) (cells : Nat → Cell) : Option (Nat × Image) :=
  search bad cells (envBlkLength * 2)

/-- The loop of `saveenv` that looks for a good block. -/
def findBlock (bad : Nat → Bool) : Nat → Nat → Option Nat
  | 0, _ => none
  | left + 1, index =>
    if bad (index % envBlkLength) = false then some (index % envBlkLength)
    else findBlock bad left (index + 1)

def saveenv (bad : Nat → Bool) (cells : Nat → Cell) (pos : Nat) (data : List Nat) (ops : Ops) :
    Ended × (Nat → Cell) × Nat :=
  match findBlock bad envBlkLength ((pos + 1) % envBlkLength) with
  | none => (.returned 1, cells, pos)
  | some new =>
    let cells := perform cells new (erased data.length) ops.eraseNew
    match ops.eraseNew.status with
    | .error => (.returned 1, cells, pos)
    | .cut => (.lost, cells, pos)
    | .done =>
      let cells := perform cells new (.ok (image data)) ops.program
      match ops.program.status with
      | .error => (.returned 1, cells, pos)
      | .cut => (.lost, cells, pos)
      | .done =>
        if bad pos = true then (.returned 1, cells, pos)
        else
          let cells := perform cells pos (erased data.length) ops.eraseOld
          match ops.eraseOld.status with
          | .error => (.returned 1, cells, pos)
          | .cut => (.lost, cells, pos)
          | .done => (.returned 0, cells, pos + 1)

structure Machine where
  cells : Nat → Cell
  pos : Option Nat

inductive Event where
  | boot
  | save (data : List Nat) (ops : Ops)

def step (bad : Nat → Bool) (w : Machine) : Event → Option (Reply × Machine)
  | .boot => some (.rebooted, ⟨w.cells, some (((envRelocateSpec bad w.cells).map Prod.fst).getD 0)⟩)
  | .save data ops =>
    match w.pos with
    | none => none
    | some pos =>
      match saveenv bad w.cells pos data ops with
      | (.returned 0, cells, pos) => some (.updated data, ⟨cells, some pos⟩)
      | (.returned _, cells, pos) => some (.unwritten data, ⟨cells, some pos⟩)
      | (.lost, cells, _) => some (.lost data, ⟨cells, none⟩)

theorem search_current (h : Current bad cells block data) (b : Nat) (hb : b ≤ block) :
    search bad cells (envBlkLength * 2 - b) = some (block, image data) := by
  have inside : block < 9 := h.inside
  induction gap : block - b generalizing b with
  | zero =>
    obtain rfl : b = block := by omega
    have count : envBlkLength * 2 - b = (envBlkLength * 2 - b - 1) + 1 := by
      unfold envBlkLength
      omega
    have index : envBlkLength * 2 - (envBlkLength * 2 - b - 1 + 1) = b := by
      unfold envBlkLength
      omega
    rw [count,search,index,Nat.mod_eq_of_lt h.inside,h.good,h.holds]
    dsimp only [read]
    rw [if_neg Bool.false_ne_true,if_neg fun c => h.seen c.1,if_pos (image_valid data)]
  | succ gap ih =>
    have go := ih (b + 1) (by omega) (by omega)
    have low : b < envBlkLength := by
      unfold envBlkLength
      omega
    have count : envBlkLength * 2 - b = (envBlkLength * 2 - (b + 1)) + 1 := by
      unfold envBlkLength
      omega
    have index : envBlkLength * 2 - (envBlkLength * 2 - (b + 1) + 1) = b := by
      unfold envBlkLength
      omega
    rw [count,search,index,Nat.mod_eq_of_lt low]
    cases isBad : bad b with
    | true => rw [if_pos rfl,go]
    | false =>
      obtain ⟨i,cell,skip⟩ := h.first b (by omega) isBad
      rw [if_neg Bool.false_ne_true,cell]
      dsimp only [read]
      by_cases erased : i.crc = 0xFFFFFFFF
      · rw [if_pos ⟨erased,low⟩,go]
      · have invalid : i.valid = false := skip.resolve_left erased
        rw [if_neg fun c => erased c.1,if_neg (by simp [invalid]),go]

theorem relocate_current (h : Current bad cells block data) :
    envRelocateSpec bad cells = some (block, image data) :=
  search_current h 0 (Nat.zero_le _)

/-- The block behind the current one may then hold anything; the old one is readable. -/
structure PowerLoss (cells : Nat → Cell) (pos : Nat) (ops : Ops) : Prop where
  eraseNew : ops.eraseNew.status ≠ .error
  program : ops.program.status ≠ .error
  eraseOld : ops.eraseOld = .ok ∨ ops.eraseOld = .cut (cells pos) ∨
    ∃ left, ops.eraseOld = .cut left ∧ Skipped left

/-- The next block is good, and the CRC is not that of an erased block. -/
structure Ready (bad : Nat → Bool) (pos : Nat) (data : List Nat) : Prop where
  inside : pos + 1 < envBlkLength
  good : bad (pos + 1) = false
  seen : envCrc32 data ≠ 0xFFFFFFFF

theorem findBlock_next (h : Ready bad pos data) :
    findBlock bad envBlkLength ((pos + 1) % envBlkLength) = some (pos + 1) := by
  have small := Nat.mod_eq_of_lt h.inside
  have rounds : envBlkLength = 8 + 1 := rfl
  rw [small]
  nth_rewrite 1 [rounds]
  rw [findBlock,small,if_pos h.good]

theorem erase_pos (h : Current bad cells pos data) (ready : Ready bad pos data')
    (holds : cells (pos + 1) = .ok (image data')) (size : Nat)
    (erase : op = .ok ∨ op = .cut (cells pos) ∨ ∃ left, op = .cut left ∧ Skipped left) :
    (op.status = .cut ∧ Current bad (perform cells pos (erased size) op) pos data) ∨
      op.status ≠ .error ∧ Current bad (perform cells pos (erased size) op) (pos + 1) data' := by
  have gone : ∀ {cell}, Skipped cell → Current bad (Function.update cells pos cell) (pos + 1) data' := by
    intro cell skip
    apply h.after (Nat.lt_succ_self pos) ready.inside ready.good _ ready.seen holds skip
    intro b low high
    omega
  unfold perform
  rcases erase with rfl | rfl | ⟨left,rfl,skip⟩
  · exact .inr ⟨by simp [Op.status],gone (erased_skipped size)⟩
  · rw [Op.left,Function.update_eq_self]
    exact .inl ⟨rfl,h⟩
  · exact .inr ⟨by simp [Op.status],gone skip⟩

theorem saveenv_power (h : Current bad cells pos data) (ready : Ready bad pos data')
    (safe : PowerLoss cells pos ops) (done : saveenv bad cells pos data' ops = (ended, cells', b)) :
    (∀ k, envBlkLength ≤ k → cells' k = cells k) ∧
    ((ended = .returned 0 ∧ b = pos + 1 ∧ Current bad cells' b data') ∨
    (ended = .lost ∧ ∃ c d, Current bad cells' c d ∧ (d = data ∨ d = data'))) := by
  unfold saveenv at done
  rw [findBlock_next ready] at done
  dsimp only at done
  have first : Current bad (perform cells (pos + 1) (erased data'.length) ops.eraseNew) pos data :=
    h.behind (Nat.lt_succ_self pos)
  generalize cells₁ : perform cells (pos + 1) (erased data'.length) ops.eraseNew = flash₁ at *
  have second : Current bad (perform flash₁ (pos + 1) (.ok (image data')) ops.program) pos data :=
    first.behind (Nat.lt_succ_self pos)
  generalize cells₂ : perform flash₁ (pos + 1) (.ok (image data')) ops.program = flash₂ at *
  have out₁ : ∀ k, envBlkLength ≤ k → flash₁ k = cells k := by
    intro k high
    have := ready.inside
    rw [← cells₁,perform_of_ne (by omega)]
  have out₂ : ∀ k, envBlkLength ≤ k → flash₂ k = cells k := by
    intro k high
    have := ready.inside
    rw [← cells₂,perform_of_ne (by omega),out₁ k high]
  have old : flash₂ pos = cells pos := by
    rw [← cells₂,perform_of_ne (by omega),← cells₁,perform_of_ne (by omega)]
  cases erased : ops.eraseNew.status with
  | error => exact absurd erased safe.eraseNew
  | cut =>
    rw [erased] at done
    cases done
    exact ⟨out₁,.inr ⟨rfl,_,_,first,.inl rfl⟩⟩
  | done =>
    rw [erased] at done
    dsimp only at done
    cases programmed : ops.program.status with
    | error => exact absurd programmed safe.program
    | cut =>
      rw [programmed] at done
      cases done
      exact ⟨out₂,.inr ⟨rfl,_,_,second,.inl rfl⟩⟩
    | done =>
      rw [programmed] at done
      dsimp only at done
      rw [if_neg (by simp [h.good])] at done
      have holds : flash₂ (pos + 1) = .ok (image data') := by
        rw [← cells₂,perform_self,Op.left_of_done programmed]
      have last := erase_pos second ready holds data'.length (old ▸ safe.eraseOld)
      have out₃ : ∀ k, envBlkLength ≤ k →
          perform flash₂ pos (NandEnv.erased data'.length) ops.eraseOld k = cells k := by
        intro k high
        have := ready.inside
        rw [perform_of_ne (by omega),out₂ k high]
      rcases last with ⟨cut,now⟩ | ⟨fine,now⟩
      · rw [cut] at done
        cases done
        exact ⟨out₃,.inr ⟨rfl,_,_,now,.inl rfl⟩⟩
      cases erase : ops.eraseOld.status with
      | error => exact absurd erase fine
      | cut =>
        rw [erase] at done
        cases done
        exact ⟨out₃,.inr ⟨rfl,_,_,now,.inr rfl⟩⟩
      | done =>
        rw [erase] at done
        cases done
        exact ⟨out₃,.inl ⟨rfl,rfl,now⟩⟩

/-- Nothing fails but the power, and each save finds the next block in order. -/
def Safe (bad : Nat → Bool) (w : Machine) : Event → Prop
  | .boot => True
  | .save data ops => ∀ pos, w.pos = some pos → Ready bad pos data ∧ PowerLoss w.cells pos ops

def Loads (bad : Nat → Bool) (cells : Nat → Cell) (data : List Nat) : Prop :=
  ∃ b < envBlkLength, bad b = false ∧ cells b = .ok (image data) ∧
    envRelocateSpec bad cells = some (b, image data)

structure Settled (bad : Nat → Bool) (w : Machine) (block : Nat) (data : List Nat) : Prop where
  current : Current bad w.cells block data
  position : ∀ pos, w.pos = some pos → pos = block

theorem loads_current (h : Current bad cells block data) : Loads bad cells data :=
  ⟨block,h.inside,h.good,h.holds,relocate_current h⟩

theorem Loads.unique (h : Loads bad cells data) (h' : Loads bad cells data') : data = data' := by
  obtain ⟨_,_,_,_,found⟩ := h
  obtain ⟨_,_,_,_,found'⟩ := h'
  have := found.symm.trans found'
  simp only [Option.some.injEq,Prod.mk.injEq,image,Image.mk.injEq] at this
  exact this.2.2

structure Kept (bad : Nat → Bool) (w w' : Machine) (r : Reply) : Prop where
  outside : ∀ k, envBlkLength ≤ k → w'.cells k = w.cells k
  written : ∀ data, r = .updated data → ∃ pos, w'.pos = some pos ∧ pos < envBlkLength ∧
    w'.cells pos = .ok (image data)

theorem settled_step (h : Settled bad w block data) (safe : Safe bad w e)
    (done : step bad w e = some (r,w')) :
    Kept bad w w' r ∧ ∃ b d, Settled bad w' b d ∧ After data r d := by
  cases e with
  | boot =>
    cases done
    refine ⟨⟨fun _ _ => rfl,nofun⟩,block,data,⟨h.current,?_⟩,rfl⟩
    intro pos eq
    rw [relocate_current h.current] at eq
    exact (Option.some.inj eq).symm
  | save data' ops =>
    rw [step] at done
    cases running : w.pos with
    | none =>
      rw [running] at done
      cases done
    | some pos =>
      obtain rfl := h.position pos running
      obtain ⟨ready,cut⟩ := safe pos running
      rw [running] at done
      dsimp only at done
      rcases save : saveenv bad w.cells pos data' ops with ⟨ended,cells,b⟩
      rw [save] at done
      obtain ⟨outside,⟨rfl,rfl,now⟩ | ⟨rfl,c,d,now,which⟩⟩ :=
        saveenv_power h.current ready cut save
      · cases done
        refine ⟨⟨outside,?_⟩,pos + 1,data',⟨now,?_⟩,rfl⟩
        · rintro _ ⟨⟩
          exact ⟨pos + 1,rfl,ready.inside,now.holds⟩
        · rintro _ ⟨⟩
          rfl
      · cases done
        exact ⟨⟨outside,nofun⟩,c,d,⟨now,nofun⟩,which⟩

/-- If nothing fails but the power and saves find the next block, `env_relocate_spec` finds the
environment of the last save that returned 0 or one being written since, inside the partition. -/
theorem uboot_power_fail {trace : List (Event × Reply)} (start : Current bad cells block data)
    (run : Runs.Run (step bad) (Safe bad) ⟨cells, none⟩ trace w) :
    (∃ d ∈ candidates data trace, Loads bad w.cells d) ∧
    ∀ e r w', Safe bad w e → step bad w e = some (r, w') → Kept bad w w' r ∧
      ∀ d, Loads bad w.cells d → ∃ d', After d r d' ∧ Loads bad w'.cells d' := by
  have keep : ∀ {w e r w' b d}, Settled bad w b d → Safe bad w e → step bad w e = some (r, w') →
      ∃ b' d', Settled bad w' b' d' ∧ After d r d' := fun h safe done => (settled_step h safe done).2
  obtain ⟨candidate, after⟩ := candidate_loads (L := fun w d => Loads bad w.cells d) keep
    ⟨start, nofun⟩ run Loads.unique fun settled => loads_current settled.current
  refine ⟨candidate, fun e r w' safe done => ⟨?_, after e r w' safe done⟩⟩
  obtain ⟨b, d, _, hw⟩ := settled_candidate keep ⟨start, nofun⟩ run
  exact (settled_step hw safe done).1

def flash (zeros : Nat) : Nat → Cell :=
  Function.update (fun _ => erased 65532) 0 (.ok (image (padded first zeros)))

theorem flash_current (zeros : Nat) (good : bad 0 = false) :
    Current bad (flash zeros) 0 (padded first zeros) := by
  refine ⟨by decide,good,?_,padded_seen (by decide +kernel) _,nofun⟩
  unfold flash
  rw [Function.update_self]

theorem uboot_power_fail_saved : ∃ trace w, Runs.Run (step fun _ => false) (Safe fun _ => false)
    ⟨flash 65524, none⟩ trace w ∧ w.pos = some 1 ∧
    ∃ d ∈ candidates (padded first 65524) trace, Loads (fun _ => false) w.cells d := by
  have booted : step (fun _ => false) ⟨flash 65524, none⟩ .boot =
      some (.rebooted, ⟨flash 65524, some 0⟩) := by
    rw [step, relocate_current (flash_current 65524 rfl)]
    rfl
  have ready : Ready (fun _ => false) 0 (padded first 65524) :=
    ⟨by decide, rfl, padded_seen (by decide +kernel) _⟩
  have safe : Safe (fun _ => false) ⟨flash 65524, some 0⟩
      (.save (padded first 65524) ⟨.ok, .ok, .ok⟩) := by
    rintro _ ⟨⟩
    exact ⟨ready, by simp [Op.status], by simp [Op.status], .inl rfl⟩
  have run := Runs.Run.next (Runs.Run.next .start trivial booted) safe rfl
  exact ⟨_, _, run, rfl, (uboot_power_fail (flash_current 65524 rfl) run).1⟩

/-- With block 1 bad a second save erases the block of the first, and a power loss leaves none. -/
theorem skipped_block_lost : ∃ w₁ w₂, Current (· == 1) (flash 65524) 0 (padded first 65524) ∧
    step (· == 1) ⟨flash 65524, some 0⟩ (.save (padded first 65524) ⟨.ok, .ok, .ok⟩) =
      some (.updated (padded first 65524), w₁) ∧ w₁.pos = some 1 ∧
    w₁.cells 2 = .ok (image (padded first 65524)) ∧
    step (· == 1) w₁ (.save (padded first 65524) ⟨.cut .failed, .ok, .ok⟩) =
      some (.lost (padded first 65524), w₂) ∧ envRelocateSpec (· == 1) w₂.cells = none :=
  ⟨_, _, flash_current 65524 rfl, rfl, rfl, rfl, rfl, rfl⟩

end Apc8750.NandEnv.Uboot
