import Apc8750.Library.Runs
import Apc8750.Env.Changes

namespace Apc8750.Env
open Cells

/-- The buffer keeps what is beyond the data area, and all of it if `env_init` fails. -/
inductive Load where
  | noMemory
  | fails (buffer : Mem)
  | loads (beyond : Mem)

/-- A failed update may still have replaced the copy that is selected next. -/
inductive Outcome where
  | ok
  | failed (written : Bool)
  deriving DecidableEq

structure SetCall where
  load : Load
  name : List Nat
  value : Option (List Nat)
  outcome : Outcome

/-- The block in memory, if there is one yet, and the copy in flash that `env_init`
selects. -/
structure World where
  ram : Option Mem
  flash : Mem

def copy (area : Nat) (m beyond : Mem) : Mem := fun k => if k < area then m k else beyond k

/-- The block that a call works on, or none if it cannot be had: `wmt_setsyspara` up to
`env_init`. -/
def load (area : Nat) (w : World) (c : SetCall) : Option Mem :=
  match w.ram, c.load with
  | some m, _ => some m
  | none, .loads beyond => some (copy area w.flash beyond)
  | none, .fails _ => none
  | none, .noMemory => none

def wmtSetsyspara (envMaxSize area : Nat) (w : World) (c : SetCall) : Option (Nat × World) :=
  match load area w c with
  | none =>
    match c.load with
    | .fails buffer => some (1, ⟨some buffer, w.flash⟩)
    | _ => some (1, w)
  | some m =>
    match setsyspara envMaxSize m c.name c.value (decide (c.outcome = .ok)) with
    | none => none
    | some (rcode, m') =>
      let updates := (setsyspara envMaxSize m c.name c.value true).map Prod.fst = some 0
      some (rcode, ⟨some m',
        if updates ∧ c.outcome ≠ .failed false then copy area m' w.flash else w.flash⟩)

structure Sane (envMaxSize area : Nat) (w : World) (c : SetCall) : Prop where
  loads : w.ram = none → ∀ buffer, c.load ≠ .fails buffer
  name : ∀ b ∈ c.name, b ≠ 0
  value : ∀ v ∈ c.value, ∀ b ∈ v, b ≠ 0
  kept : ∀ es, WellFormed area w.flash es →
    ¬ Changes envMaxSize es c.name c.value (decide (c.outcome = .ok))
  fits : ∀ es, WellFormed area w.flash es → ¬ Overruns envMaxSize area es c.name c.value

structure Synced (area : Nat) (w : World) (es : List Entry) : Prop where
  flash : WellFormed area w.flash es
  two : es = [] → w.flash 1 = 0
  ram : ∀ m ∈ w.ram, ∀ k < area, m k = w.flash k

theorem copy_eq (h : k < area) : copy area m beyond k = m k := if_pos h

theorem WellFormed.congr (h : WellFormed area m es) (same : ∀ k < area, m' k = m k) :
    WellFormed area m' es := by
  refine ⟨h.distinct,h.held.congr fun k _ high => same k ?_,h.inside⟩
  have := h.inside
  omega

theorem load_same (hw : Synced area w es) (hl : load area w c = some m) :
    ∀ k < area, m k = w.flash k := by
  unfold load at hl
  split at hl
  · rename_i eq
    cases hl
    exact hw.ram _ eq
  · cases hl
    intro k hk
    exact copy_eq hk
  · cases hl
  · cases hl

theorem load_none (hs : Sane envMaxSize area w c) (hl : load area w c = none)
    (hc : wmtSetsyspara envMaxSize area w c = some (r,w')) : w' = w := by
  unfold wmtSetsyspara at hc
  rw [hl] at hc
  cases eq : c.load with
  | fails buffer =>
    have empty : w.ram = none := by
      unfold load at hl
      split at hl <;> simp_all
    exact absurd eq (hs.loads empty buffer)
  | noMemory => simp_all
  | loads beyond => simp_all

theorem synced_step (hw : Synced area w es) (ha : area ≤ space) (h2 : 2 ≤ area)
    (hs : Sane envMaxSize area w c) (hc : wmtSetsyspara envMaxSize area w c = some (r,w')) :
    (∃ es', Synced area w' es') ∧
      (r ≠ 0 → w'.ram = w.ram ∨ w.ram = none ∧ w'.ram = load area w c) := by
  cases hl : load area w c with
  | none =>
    have same := load_none hs hl hc
    exact ⟨⟨es,same ▸ hw⟩,fun _ => .inl (by rw [same])⟩
  | some m =>
    have agree := load_same hw hl
    have wf : WellFormed area m es := hw.flash.congr agree
    have two : es = [] → m 1 = 0 := fun none => (agree 1 h2).trans (hw.two none)
    unfold wmtSetsyspara at hc
    rw [hl] at hc
    dsimp only at hc
    split at hc
    · cases hc
    rename_i rcode m' set
    simp only [Option.some.injEq,Prod.mk.injEq] at hc
    obtain ⟨rfl,rfl⟩ := hc
    by_cases zero : rcode = 0
    · subst zero
      obtain ⟨ok,es',wf',two'⟩ :=
        set_wellFormed wf ha two hs.name hs.value (hs.fits es hw.flash) set
      have written : (setsyspara envMaxSize m c.name c.value true).map Prod.fst = some 0 ∧
          c.outcome ≠ .failed false := by
        rw [ok] at set
        refine ⟨by rw [set]; rfl,?_⟩
        rw [of_decide_eq_true ok]
        decide
      refine ⟨⟨es',?_⟩,fun ne => absurd rfl ne⟩
      rw [if_pos written]
      refine ⟨wf'.congr fun k hk => copy_eq hk,fun none => ?_,?_⟩
      · exact (copy_eq h2).trans (two' none)
      · rintro _ ⟨⟩ k hk
        exact (copy_eq hk).symm
    · have same : m' = m :=
        (set_changes wf ha two hs.name hs.value set).mpr (hs.kept es hw.flash) zero
      subst same
      have flash : ∀ k < area, (if (setsyspara envMaxSize m' c.name c.value true).map Prod.fst =
          some 0 ∧ c.outcome ≠ .failed false then copy area m' w.flash else w.flash) k =
          w.flash k := by
        intro k hk
        split
        · rw [copy_eq hk,agree k hk]
        · rfl
      refine ⟨⟨es,hw.flash.congr flash,fun none => (flash 1 h2).trans (hw.two none),?_⟩,?_⟩
      · rintro _ ⟨⟩ k hk
        rw [agree k hk]
        exact (flash k hk).symm
      intro _
      cases eq : w.ram with
      | none => exact .inr ⟨rfl,rfl⟩
      | some n =>
        rw [load,eq] at hl
        exact .inl hl.symm

/-- A call that fails keeps the block exactly when it is not one of `Changes`, and then also what a
boot will read. -/
theorem failed_set_keeps (ha : area ≤ space) (h2 : 2 ≤ area) :
    (∀ m es name value update r m', WellFormed area m es → (es = [] → m 1 = 0) →
      (∀ b ∈ name, b ≠ 0) → (∀ v ∈ value, ∀ b ∈ v, b ≠ 0) →
      setsyspara envMaxSize m name value update = some (r, m') →
      ((r ≠ 0 → m' = m) ↔ ¬ Changes envMaxSize es name value update)) ∧
    ∀ flash es trace w, WellFormed area flash es → (es = [] → flash 1 = 0) →
      Runs.Run (wmtSetsyspara envMaxSize area) (Sane envMaxSize area) ⟨none, flash⟩ trace w →
      (∀ m ∈ w.ram, ∀ beyond name varlen,
        getsyspara m name varlen = getsyspara (copy area w.flash beyond) name varlen) ∧
      ∀ c r w', Sane envMaxSize area w c → wmtSetsyspara envMaxSize area w c = some (r, w') →
        r ≠ 0 → w'.ram = w.ram ∨ w.ram = none ∧ w'.ram = load area w c := by
  constructor
  · intro m es name value update r m' h two hn hv hs
    exact set_changes h ha two hn hv hs
  intro flash es trace w h two run
  have synced : ∃ es, Synced area w es := by
    apply run.invariant ⟨es, h, two, by simp⟩
    rintro t c r u ⟨es, ht⟩ hs hc
    exact (synced_step ht ha h2 hs hc).1
  obtain ⟨es', hw⟩ := synced
  constructor
  · intro m hm beyond name varlen
    rw [getsyspara_answer (hw.flash.congr (hw.ram m hm)) ha,
      getsyspara_answer (hw.flash.congr fun k hk => copy_eq hk) ha]
  · intro c r w' hs hc
    exact (synced_step hw ha h2 hs hc).2

theorem set_zeros_sane : Sane 65536 65531 ⟨none,fun _ => 0⟩
    ⟨.loads fun _ => 0,[97],some [98],.ok⟩ := by
  have empty : ∀ es, WellFormed 65531 (fun _ => 0) es → es = [] := by
    intro es h
    have := layout_unique h.held (zeros_wellFormed (by decide : 0 < 65531)).held
    simpa using this
  refine ⟨by simp,by decide,by simp,?_,?_⟩
  · intro es h
    cases empty es h
    rintro (⟨⟨_,none,_⟩,_⟩ | ⟨⟨_,none,_⟩,_⟩ | ⟨_,_,_,_,_,fails,_⟩)
    · exact List.not_mem_nil none
    · exact List.not_mem_nil none
    · simp at fails
  · intro es h
    cases empty es h
    rintro ⟨v,⟨⟩,_,_,big⟩
    exact absurd big (by decide)

theorem set_zeros_done : ∃ w m, w.ram = some m ∧
    wmtSetsyspara 65536 65531 ⟨none,fun _ => 0⟩ ⟨.loads fun _ => 0,[97],some [98],.ok⟩ =
      some (0,w) := by
  have same : copy 65531 (fun _ => 0) (fun _ => 0) = fun _ => 0 := by
    funext k
    exact ite_self 0
  unfold wmtSetsyspara load
  dsimp only
  rw [same,decide_eq_true rfl,set_zeros 65536 [97] [98] (by decide) (by decide)]
  exact ⟨_,_,rfl,rfl⟩

theorem failed_set_keeps_zeros : ∃ trace w m,
    Runs.Run (wmtSetsyspara 65536 65531) (Sane 65536 65531) ⟨none, fun _ => 0⟩ trace w ∧
    w.ram = some m ∧ ∀ beyond name varlen,
      getsyspara m name varlen = getsyspara (copy 65531 w.flash beyond) name varlen := by
  obtain ⟨w, m, ram, done⟩ := set_zeros_done
  have run := Runs.Run.next .start set_zeros_sane done
  refine ⟨_, w, m, run, ram, ?_⟩
  exact ((failed_set_keeps (by decide) (by decide)).2 _ [] _ w (zeros_wellFormed (by decide))
    (fun _ => rfl) run).1 m ram

/-- A block that holds `a=b`; the update for `a=c` fails and the block holds `a=c`. -/
theorem failed_update_kept :
    WellFormed 65531 (store (fun _ => 0) 0 [97, 61, 98, 0, 0]) [⟨[97], [98], by decide, by decide⟩] ∧
    (setsyspara 65536 (store (fun _ => 0) 0 [97, 61, 98, 0, 0]) [97] (some [99]) false).map
      (fun p => (p.1, p.2 2)) = some (1, 99) ∧
    store (fun _ => 0) 0 [97, 61, 98, 0, 0] 2 = 98 :=
  ⟨⟨by simp, at_store, by decide⟩, by decide +kernel, by decide⟩

end Apc8750.Env
