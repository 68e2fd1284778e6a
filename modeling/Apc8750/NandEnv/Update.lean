import Apc8750.NandEnv.Scan

namespace Apc8750.NandEnv
open Env Faults

theorem scan_current (h : Current bad cells block data) (b : Nat) (hb : b ≤ block) (buf : Image) :
    scan bad cells b b buf = (some block, image data) := by
  have inside := h.inside
  obtain ⟨buf',past,_⟩ := past_first inside b hb (fun k _ => h.first k) buf
  rw [past,(scan_takes inside h.good h.holds (image_valid data) (by omega)
    fun erased => h.seen erased.1).1,Nat.mod_eq_of_lt inside]

theorem envInit_current (h : Current bad cells block data) (buf : Image) :
    envInit bad cells buf = (some block, image data) :=
  scan_current h 0 (Nat.zero_le _) buf

theorem nextBlock_eq (h : b < envBlkLength) : nextBlock b = (b + 1) % envBlkLength := by
  unfold nextBlock envBlkLength at *
  split <;> omega

theorem probe_cases (hb : b < envBlkLength) (h : probe bad left b = some (new,rest)) :
    bad new = false ∧ ∃ k, left = k + 1 + rest ∧ new = (b + k) % envBlkLength ∧
      ∀ j < k, bad ((b + j) % envBlkLength) = true := by
  induction left generalizing b with
  | zero => cases h
  | succ left ih =>
    rw [probe] at h
    cases isBad : bad b with
    | false =>
      rw [isBad,if_neg Bool.false_ne_true] at h
      cases h
      exact ⟨isBad,0,by omega,(Nat.mod_eq_of_lt hb).symm,by simp⟩
    | true =>
      rw [isBad,if_pos rfl,nextBlock_eq hb] at h
      obtain ⟨good,k,count,place,all⟩ := ih (Nat.mod_lt _ (by decide)) h
      refine ⟨good,k + 1,by omega,?_,?_⟩
      · rw [place,Nat.mod_add_mod,Nat.add_right_comm,Nat.add_assoc]
      intro j hj
      cases j with
      | zero => rw [Nat.add_zero,Nat.mod_eq_of_lt hb,isBad]
      | succ j =>
        have := all j (by omega)
        rw [Nat.mod_add_mod] at this
        rw [← this,Nat.add_right_comm,Nat.add_assoc]

theorem newBlock_cases (ho : orig < envBlkLength) (h : newBlock bad orig = some new) :
    new < envBlkLength ∧ bad new = false ∧ new ≠ orig ∧
      (orig < new → ∀ b, orig < b → b < new → bad b = true) := by
  unfold newBlock at h
  split at h
  · rename_i b rest found
    cases h
    rw [nextBlock_eq ho] at found
    obtain ⟨good,k,count,place,all⟩ := probe_cases (Nat.mod_lt _ (by decide)) found
    rw [Nat.mod_add_mod] at place
    unfold envBlkLength at *
    refine ⟨by omega,good,by omega,?_⟩
    intro behind b low high
    have := all (b - orig - 1) (by omega)
    rw [Nat.mod_add_mod] at this
    rw [← this]
    congr 1
    omega
  · cases h

inductive CutErase (old : Cell) (size : Nat) : Op Cell → Prop where
  | done : CutErase old size .ok
  | before : CutErase old size (.cut old)
  | after : CutErase old size (.cut (erased size))

/-- Before, during or after the program. What cannot be read is behind the current one. -/
inductive CutProgram (orig new : Nat) (data : List Nat) : Op Cell → Prop where
  | done : CutProgram orig new data .ok
  | before : CutProgram orig new data (.cut (erased data.length))
  | torn (i : Image) (wrong : i.valid = false) : CutProgram orig new data (.cut (.ok i))
  | unreadable (behind : orig < new) : CutProgram orig new data (.cut .failed)
  | after : CutProgram orig new data (.cut (.ok (image data)))

structure PowerLoss (cells : Nat → Cell) (orig new : Nat) (data : List Nat) (ops : Ops) : Prop where
  eraseNew : CutErase (cells new) data.length ops.eraseNew
  program : CutProgram orig new data ops.program
  eraseOld : CutErase (cells orig) data.length ops.eraseOld

theorem CutErase.status_ne (h : CutErase old size op) : op.status ≠ .error := by
  cases h <;> simp [Op.status]

theorem CutProgram.status_ne (h : CutProgram orig new data op) : op.status ≠ .error := by
  cases h <;> simp [Op.status]

theorem erase_new (h : Current bad cells orig data) (ne : new ≠ orig)
    (erase : CutErase (cells new) size op) :
    Current bad (perform cells new (erased size) op) orig data := by
  unfold perform
  cases erase with
  | done => exact h.skip ne (erased_skipped size)
  | before =>
    rw [Op.left,Function.update_eq_self]
    exact h
  | after => exact h.skip ne (erased_skipped size)

theorem program_new (h : Current bad cells orig data) (ne : new ≠ orig) (good : bad new = false)
    (seen : envCrc32 data' ≠ 0xFFFFFFFF) (program : CutProgram orig new data' op) :
    Current bad (perform cells new (.ok (image data')) op) orig data ∨
      new < orig ∧ Current bad (perform cells new (.ok (image data')) op) new data' := by
  have full : Current bad (Function.update cells new (.ok (image data'))) orig data ∨
      new < orig ∧ Current bad (Function.update cells new (.ok (image data'))) new data' := by
    rcases Nat.lt_or_ge orig new with behind | ge
    · exact .inl (h.behind behind)
    · have before : new < orig := by omega
      exact .inr ⟨before,h.before before good seen⟩
  unfold perform
  cases program with
  | done => exact full
  | before => exact .inl (h.skip ne (erased_skipped _))
  | torn i wrong => exact .inl (h.skip ne ⟨i,rfl,.inr wrong⟩)
  | unreadable behind => exact .inl (h.behind behind)
  | after => exact full

theorem erase_old (h : Current bad cells orig data ∨ new < orig ∧ Current bad cells new data')
    (inside : new < envBlkLength) (good : bad new = false) (ne : new ≠ orig)
    (between : orig < new → ∀ b, orig < b → b < new → bad b = true)
    (seen : envCrc32 data' ≠ 0xFFFFFFFF) (holds : cells new = .ok (image data'))
    (erase : CutErase (cells orig) size op) :
    (op.status = .cut ∧ perform cells orig (erased size) op = cells) ∨
      Current bad (perform cells orig (erased size) op) new data' := by
  have gone : Current bad (Function.update cells orig (erased size)) new data' := by
    rcases h with h | ⟨before,h⟩
    · rcases Nat.lt_or_ge orig new with behind | ge
      · exact h.after behind inside good (between behind) seen holds (erased_skipped size)
      obtain ⟨i,read,skip⟩ := h.first new (by omega) good
      rw [holds] at read
      cases read
      rcases skip with erased | wrong
      · exact absurd erased seen
      · rw [image_valid] at wrong
        cases wrong
    · exact h.behind before
  unfold perform
  cases erase with
  | done => exact .inr gone
  | before => exact .inl ⟨rfl,Function.update_eq_self ..⟩
  | after => exact .inr gone

theorem update_power (h : Current bad cells orig data) (seen : envCrc32 data' ≠ 0xFFFFFFFF)
    (safe : ∀ new, newBlock bad orig = some new → PowerLoss cells orig new data' ops)
    (done : envUpdate bad cells orig data' ops = (ended, cells', b)) :
    (ended = .returned 0 ∧ Current bad cells' b data') ∨
    (ended = .returned 1 ∧ cells' = cells ∧ b = orig) ∨
    (ended = .lost ∧ ∃ c d, Current bad cells' c d ∧ (d = data ∨ d = data')) := by
  unfold envUpdate at done
  cases found : newBlock bad orig with
  | none =>
    rw [found] at done
    cases done
    exact .inr (.inl ⟨rfl,rfl,rfl⟩)
  | some new =>
    obtain ⟨inside,good,ne,between⟩ := newBlock_cases h.inside found
    have cut := safe new found
    have first := erase_new h ne cut.eraseNew
    have second := program_new first ne good seen cut.program
    have pending : ∀ {cells}, (Current bad cells orig data ∨ new < orig ∧ Current bad cells new data') →
        ∃ c d, Current bad cells c d ∧ (d = data ∨ d = data') := by
      rintro cells (old | ⟨_,taken⟩)
      · exact ⟨_,_,old,.inl rfl⟩
      · exact ⟨_,_,taken,.inr rfl⟩
    rw [found] at done
    dsimp only at done
    generalize cells₁ : perform cells new (erased data'.length) ops.eraseNew = flash₁ at *
    generalize cells₂ : perform flash₁ new (.ok (image data')) ops.program = flash₂ at *
    have old : flash₂ orig = cells orig := by
      rw [← cells₂,perform_of_ne ne.symm,← cells₁,perform_of_ne ne.symm]
    cases erased : ops.eraseNew.status with
    | error => exact absurd erased cut.eraseNew.status_ne
    | cut =>
      rw [erased] at done
      cases done
      exact .inr (.inr ⟨rfl,pending (.inl first)⟩)
    | done =>
      rw [erased] at done
      dsimp only at done
      cases programmed : ops.program.status with
      | error => exact absurd programmed cut.program.status_ne
      | cut =>
        rw [programmed] at done
        cases done
        exact .inr (.inr ⟨rfl,pending second⟩)
      | done =>
        rw [programmed] at done
        dsimp only at done
        have holds : flash₂ new = .ok (image data') := by
          rw [← cells₂,perform_self,Op.left_of_done programmed]
        have last := erase_old second inside good ne between seen holds (old ▸ cut.eraseOld)
        cases erase : ops.eraseOld.status with
        | error => exact absurd erase cut.eraseOld.status_ne
        | cut =>
          rw [erase] at done
          cases done
          rcases last with ⟨_,same⟩ | taken
          · exact .inr (.inr ⟨rfl,pending (same.symm ▸ second)⟩)
          · exact .inr (.inr ⟨rfl,_,_,taken,.inr rfl⟩)
        | done =>
          rw [erase] at done
          cases done
          rcases last with ⟨status,_⟩ | taken
          · rw [erase] at status
            cases status
          · exact .inl ⟨rfl,taken⟩

end Apc8750.NandEnv
