import Apc8750.Env.Laws
import Apc8750.NandEnv.Update

namespace Apc8750.NandEnv
open Env Faults

variable {bad : Nat → Bool} {cells : Nat → Cell} {block : Nat} {data : List Nat} {buf : Image}
  {w : Machine}

/-- Nothing fails but the power: a block cut short is legible or behind the current one, and no CRC
is that of an erased block. -/
def Safe (bad : Nat → Bool) (w : Machine) : Event → Prop
  | .reboot => True
  | .set buf beyond name value ops => ∀ m orig m', w.load bad buf beyond = (m, some orig) →
      setsyspara envMaxSize m name value true = some (0, m') →
      envCrc32 (areaOf m') ≠ 0xFFFFFFFF ∧
      ∀ new, newBlock bad orig = some new → PowerLoss w.cells orig new (areaOf m') ops

/-- `env_init` succeeds with an environment that stands in a good block. -/
def Loads (bad : Nat → Bool) (cells : Nat → Cell) (data : List Nat) : Prop :=
  ∃ b < envBlkLength, bad b = false ∧ cells b = .ok (image data) ∧
    ∀ buf, envInit bad cells buf = (some b, image data)

structure Settled (bad : Nat → Bool) (w : Machine) (block : Nat) (data : List Nat) : Prop where
  current : Current bad w.cells block data
  loaded : w.ram ≠ none → w.block = some block

theorem Current.loads (h : Current bad cells block data) : Loads bad cells data :=
  ⟨block,h.inside,h.good,h.holds,envInit_current h⟩

theorem Loads.unique (h : Loads bad cells data) (h' : Loads bad cells data') : data = data' := by
  obtain ⟨_,_,_,_,init⟩ := h
  obtain ⟨_,_,_,_,init'⟩ := h'
  have := (init (image [])).symm.trans (init' (image []))
  simp only [Prod.mk.injEq,image,Image.mk.injEq] at this
  exact this.2.2

theorem load_first {i : Image} {found : Option Nat} {beyond : Mem} (boot : w.ram = none)
    (init : envInit bad w.cells buf = (found,i)) :
    w.load bad buf beyond = (memOf i.data beyond, found) := by
  unfold Machine.load
  rw [boot,init]

theorem Settled.load (h : Settled bad w block data) (buf : Image) (beyond : Mem) :
    ∃ m, w.load bad buf beyond = (m, some block) := by
  cases eq : w.ram with
  | none => exact ⟨_,load_first eq (envInit_current h.current buf)⟩
  | some m =>
    refine ⟨m,?_⟩
    rw [Machine.load,eq,h.loaded (by simp [eq])]

theorem step_set (load : w.load bad buf beyond = (m, some block)) :
    step bad w (.set buf beyond name value ops) = w.set bad m (some block) name value ops := by
  rw [step,load]
  cases w.ram <;> rfl

theorem settled_step (h : Settled bad w block data) (safe : Safe bad w e)
    (done : step bad w e = some (r,w')) : ∃ b d, Settled bad w' b d ∧ After data r d := by
  cases e with
  | reboot =>
    cases done
    exact ⟨block,data,⟨h.current,fun loaded => absurd rfl loaded⟩,rfl⟩
  | set buf beyond name value ops =>
    obtain ⟨m,load⟩ := h.load buf beyond
    rw [step_set load] at done
    unfold Machine.set at done
    split at done
    · cases done
    rename_i rcode m' set
    split at done
    · cases done
      exact ⟨block,data,⟨h.current,fun _ => rfl⟩,rfl⟩
    rename_i zero
    rw [not_not] at zero
    subst zero
    obtain ⟨seen,cut⟩ := safe m block m' load set
    rcases update : envUpdate bad w.cells block (areaOf m') ops with ⟨ended,cells,b⟩
    dsimp only at done
    rw [update] at done
    rcases update_power h.current seen cut update with ⟨rfl,now⟩ | ⟨rfl,rfl,rfl⟩ |
      ⟨rfl,c,d,now,which⟩
    · cases done
      exact ⟨b,_,⟨now,fun _ => rfl⟩,rfl⟩
    · cases done
      exact ⟨b,data,⟨h.current,fun _ => rfl⟩,rfl⟩
    · cases done
      exact ⟨c,d,⟨now,fun loaded => absurd rfl loaded⟩,which⟩

/-- If nothing fails but the power, `env_init` always loads the environment of the last update that
returned 0 or one that was being written since. -/
theorem nand_power_fail {trace : List (Event × Reply)} (start : Current bad cells block data)
    (run : Runs.Run (step bad) (Safe bad) ⟨cells, none, none⟩ trace w) :
    (∃ d ∈ candidates data trace, Loads bad w.cells d) ∧
    ∀ e r w', Safe bad w e → step bad w e = some (r, w') → ∀ d, Loads bad w.cells d →
      ∃ d', After d r d' ∧ Loads bad w'.cells d' := by
  have settled : Settled bad ⟨cells, none, none⟩ block data := ⟨start, fun loaded => absurd rfl loaded⟩
  exact candidate_loads (L := fun w d => Loads bad w.cells d) settled_step settled run
    Loads.unique fun settled => settled.current.loads

def flash (zeros block : Nat) : Nat → Cell :=
  Function.update (fun _ => erased 65532) block (.ok (image (padded first (zeros + 9))))

theorem flash_current (zeros : Nat) (h : block < envBlkLength) :
    Current (fun _ => false) (flash zeros block) block (padded first (zeros + 9)) := by
  refine ⟨h,rfl,?_,?_,?_⟩
  · unfold flash
    rw [Function.update_self]
  · exact padded_seen (by decide +kernel) _
  · intro b lt _
    unfold flash
    rw [Function.update_of_ne (Nat.ne_of_lt lt)]
    exact erased_skipped _

def setSecond (ops : Ops) : Event := .set (image []) (fun _ => 0) [114] (some [101, 87, 97, 69]) ops

theorem setSecond_loads {zeros : Nat} (h : block < envBlkLength) (size : zeros + 17 = envMaxSize - 4) :
    ∃ m m', Machine.load (fun _ => false) ⟨flash zeros block,none,none⟩ (image []) (fun _ => 0) =
      (m, some block) ∧
    setsyspara envMaxSize m [114] (some [101,87,97,69]) true = some (0,m') ∧
    areaOf m' = padded second (zeros + 2) := by
  have load : Machine.load (fun _ => false) ⟨flash zeros block,none,none⟩ (image []) (fun _ => 0) =
      (memOf (padded first (zeros + 9)) (fun _ => 0), some block) := by
    exact load_first (w := ⟨flash zeros block,none,none⟩) (i := image _) rfl
      (envInit_current (flash_current zeros h) _)
  have whole := memOf_at (padded first (zeros + 9)) fun _ => 0
  obtain ⟨m',set,held⟩ := set_padded whole (by decide : 17 ≤ envMaxSize)
  refine ⟨_,m',load,set,?_⟩
  have area := bytesOf_at held
  have len : 0 + (padded second (zeros + 2)).length = envMaxSize - 4 := by
    rw [← size]
    simp [padded,second,first]
  rw [len] at area
  exact area

theorem setSecond_step (h : block < envBlkLength) (size : zeros + 17 = envMaxSize - 4)
    (update : envUpdate (fun _ => false) (flash zeros block) block (padded second (zeros + 2)) ops =
      (.lost, cells, b)) :
    step (fun _ => false) ⟨flash zeros block,none,none⟩ (setSecond ops) =
      some (.lost (padded second (zeros + 2)), ⟨cells,none,none⟩) := by
  obtain ⟨m,m',load,set,area⟩ := setSecond_loads h size
  rw [setSecond,step_set load,Machine.set,set]
  dsimp only
  rw [if_neg (by simp),area,update]

def tornOps (left : Cell) : Ops := ⟨.ok, .cut left, .ok⟩

theorem torn_update : envUpdate (fun _ => false) (flash zeros 8) 8
    (padded second size) (tornOps left) = (.lost, Function.update (Function.update (flash zeros 8) 0
      (erased (padded second size).length)) 0 left, 8) := rfl

theorem torn_safe (size : zeros + 17 = envMaxSize - 4) : Safe (fun _ => false)
    ⟨flash zeros 8,none,none⟩ (setSecond (tornOps (.ok ⟨0,padded second (zeros + 2)⟩))) := by
  obtain ⟨m,m',load,set,area⟩ := setSecond_loads (by decide : 8 < envBlkLength) size
  intro n orig n' load' set'
  cases load.symm.trans load'
  cases set.symm.trans set'
  rw [area]
  refine ⟨padded_seen (by decide +kernel) _,?_⟩
  have wrong : Image.valid ⟨0,padded second (zeros + 2)⟩ = false := by
    unfold Image.valid padded
    rw [envCrc32_padded (by decide +kernel)]
    rfl
  rintro new ⟨⟩
  exact ⟨.done,.torn _ wrong,.done⟩

theorem nand_power_fail_torn : ∃ trace w, Runs.Run (step fun _ => false) (Safe fun _ => false)
    ⟨flash 65515 8, none, none⟩ trace w ∧ trace.length = 1 ∧
    ∃ d ∈ candidates (padded first (65515 + 9)) trace, Loads (fun _ => false) w.cells d := by
  have size : 65515 + 17 = envMaxSize - 4 := by decide
  have run := Runs.Run.next .start (torn_safe size) (setSecond_step (by decide) size torn_update)
  exact ⟨_, _, run, rfl, (nand_power_fail (flash_current 65515 (by decide)) run).1⟩

/-- Block 8 holds the environment, the program of block 0 is cut and leaves it
unreadable. -/
theorem unreadable_lost : ∃ r w, Current (fun _ => false) (flash 65515 8) 8 (padded first (65515 + 9)) ∧
    step (fun _ => false) ⟨flash 65515 8, none, none⟩ (setSecond (tornOps .failed)) = some (r, w) ∧
    ∀ buf, envInit (fun _ => false) w.cells buf = (none, buf) := by
  have size : 65515 + 17 = envMaxSize - 4 := by decide
  refine ⟨_, _, flash_current 65515 (by decide), setSecond_step (by decide) size torn_update, ?_⟩
  intro buf
  rw [envInit, scan, if_neg (by simp), if_neg (by decide), if_pos (by decide)]
  dsimp only
  rw [Function.update_self]

end Apc8750.NandEnv
