import Apc8750.Env.Laws
import Apc8750.SfEnv.Kernel

namespace Apc8750.SfEnv
open Env Faults Function

structure Holds (size : Nat) (copies : Copy → List Nat) (c : Copy) (data : List Nat) : Prop where
  long : ∀ x, (copies x).length = size
  image : copies c = imageBytes data
  first : c = .env2 → accepted (copies .env1) = false

def TornFirst (copies : Copy → List Nat) : Prop :=
  flags (copies .env1) = 1 ∧ crcOk (copies .env1) = false

def written (size : Nat) (data : List Nat) (ops : Ops) : List Nat :=
  overlay (blank size) (imageBytes data) (ops.image.left (imageBytes data).length)

/-- What is left in the first copy is no environment by accident, an erroneous write is complete,
and the obsolete flag is missing only after one. -/
structure Fair (copies : Copy → List Nat) (valid : Copy) (data : List Nat) (ops : Ops) : Prop where
  erase : valid = .env2 → ops.erase.status ≠ .done →
    accepted (overlay (copies .env1) (blank (copies .env1).length)
      (ops.erase.left (copies .env1).length)) = false
  image : valid = .env2 → accepted (written (copies .env1).length data ops) = true →
    written (copies .env1).length data ops = imageBytes data
  reported : ops.image.status = .error →
    written (copies valid.other).length data ops = imageBytes data
  flagged : ops.flag.status = .error → ops.flag.left 1 = 0 → valid = .env2

section
variable (h : Holds size copies c data)
include h

theorem envInit_registered :
    envInit true copies = some (some c, imageBytes data) := by
  have taken : accepted (copies c) = true := by
    rw [h.image]
    exact accepted_image data
  unfold envInit
  cases c with
  | env1 => rw [initLoop,if_pos taken,h.image]
  | env2 =>
    have passed := h.first rfl
    rw [initLoop,if_neg (by simp [passed]),if_neg (by simp),initLoop,if_pos taken,h.image]

theorem envInit_raw : (TornFirst copies ∧ envInit false copies = none) ∨
    (¬ TornFirst copies ∧ envInit false copies = some (some c, imageBytes data)) := by
  have taken : accepted (copies c) = true := by
    rw [h.image]
    exact accepted_image data
  unfold envInit
  cases c with
  | env1 =>
    have ok : crcOk (copies .env1) = true := by
      simp only [accepted,Bool.and_eq_true] at taken
      exact taken.2
    refine .inr ⟨fun torn => ?_,by rw [initLoop,if_pos taken,h.image]⟩
    rw [torn.2] at ok
    cases ok
  | env2 =>
    have passed := h.first rfl
    by_cases flag : flags (copies .env1) = 1
    · have wrong : crcOk (copies .env1) = false := by
        simpa [accepted,flag] using passed
      exact .inl ⟨⟨flag,wrong⟩,by rw [initLoop,if_neg (by simp [passed]),if_pos ⟨rfl,flag⟩]⟩
    · refine .inr ⟨fun torn => flag torn.1,?_⟩
      rw [initLoop,if_neg (by simp [passed]),if_neg fun c => flag c.2,initLoop,if_pos taken,
        h.image]

theorem Holds.write_other (long : sector.length = size)
    (passed : c = .env2 → accepted sector = false) :
    Holds size (update copies c.other sector) c data := by
  refine ⟨fun x => ?_,?_,fun second => ?_⟩
  · by_cases eq : x = c.other
    · rw [eq,update_self,long]
    · rw [update_of_ne eq,h.long]
  · rw [update_of_ne (other_ne c).symm,h.image]
  · subst second
    rw [Copy.other,update_self]
    exact passed rfl

theorem Holds.both (long : (imageBytes data').length = size) :
    ∃ d, Holds size (update copies c.other (imageBytes data')) .env1 d ∧
      (c = .env1 ∧ d = data ∨ c = .env2 ∧ d = data') := by
  cases c with
  | env1 => exact ⟨data,h.write_other long nofun,.inl ⟨rfl,rfl⟩⟩
  | env2 =>
    refine ⟨data',⟨fun x => ?_,?_,nofun⟩,.inr ⟨rfl,rfl⟩⟩
    · by_cases eq : x = Copy.env2.other
      · rw [eq,update_self,long]
      · rw [update_of_ne eq,h.long]
    · exact update_self ..

theorem Holds.swap (long : (imageBytes data').length = size) :
    Holds size (update (update copies c.other (imageBytes data')) c
      (obsolete (copies c))) c.other data' := by
  refine ⟨fun x => ?_,?_,fun second => ?_⟩
  · by_cases eq : x = c
    · rw [eq,update_self,obsolete,List.length_set,h.long]
    rw [update_of_ne eq]
    by_cases eq' : x = c.other
    · rw [eq',update_self,long]
    · rw [update_of_ne eq',h.long]
  · rw [update_of_ne (other_ne c),update_self]
  · cases c with
    | env1 =>
      rw [update_self]
      exact obsolete_not_accepted
    | env2 => cases second

theorem erase_left (fair : Fair copies c data' ops) :
    Holds size (update copies c.other (overlay (copies c.other)
      (blank (copies c.other).length) (ops.erase.left (copies c.other).length))) c data := by
  apply h.write_other
  · rw [length_overlay (by simp [blank]),blank,List.length_replicate,h.long]
  rintro rfl
  by_cases done : ops.erase.status = .done
  · rw [Op.left_of_done done,overlay_all (by simp [blank]) (by simp [blank])]
    exact blank_not_accepted _
  · exact fair.erase rfl done

theorem image_left (long : (imageBytes data').length = size)
    (fair : c = .env2 → accepted (written size data' ops) = true →
      written size data' ops = imageBytes data') :
    ∃ c' d, Holds size (update copies c.other (written size data' ops)) c' d ∧
      (d = data ∨ d = data') := by
  by_cases full : written size data' ops = imageBytes data'
  · obtain ⟨d,both,which⟩ := h.both long
    refine ⟨.env1,d,full ▸ both,?_⟩
    exact which.imp And.right And.right
  refine ⟨c,data,h.write_other ?_ ?_,.inl rfl⟩
  · rw [written,length_overlay (by simp [blank,long]),long]
  · intro second
    by_contra taken
    exact full (fair second (by simpa using taken))

theorem update_holds (long : (imageBytes data').length = size) (fair : Fair copies c data' ops)
    (done : envUpdate registered copies c data' ops = (ended, copies', b)) :
    (ended = .returned 0 ∧ Holds size copies' b data') ∨
    (ended = .returned 1 ∧ b = c ∧ Holds size copies' b data) ∨
    (ended = .lost ∧ ∃ c' d, Holds size copies' c' d ∧ (d = data ∨ d = data')) := by
  have first := erase_left h fair
  unfold envUpdate at done
  dsimp only at done
  cases erased : ops.erase.status with
  | error =>
    rw [erased] at done
    cases done
    exact .inr (.inl ⟨rfl,rfl,first⟩)
  | cut =>
    rw [erased] at done
    cases done
    exact .inr (.inr ⟨rfl,_,_,first,.inl rfl⟩)
  | done =>
    have empty : overlay (copies c.other) (blank (copies c.other).length)
        (ops.erase.left (copies c.other).length) = blank size := by
      rw [Op.left_of_done erased,overlay_all (by simp [blank]) (by simp [blank]),h.long]
    have sector : update (update copies c.other (blank size)) c.other
        (overlay (blank size) (imageBytes data') (ops.image.left (imageBytes data').length)) =
        update copies c.other (written size data' ops) := by
      rw [update_idem]
      rfl
    rw [erased,empty] at done
    dsimp only at done
    rw [update_self,sector] at done
    have fairImage : c = .env2 → accepted (written size data' ops) = true →
        written size data' ops = imageBytes data' := by
      intro second
      have := fair.image second
      rwa [h.long] at this
    by_cases cut : ops.image.status = .cut
    · rw [if_pos cut] at done
      cases done
      exact .inr (.inr ⟨rfl,image_left h long fairImage⟩)
    have full : written size data' ops = imageBytes data' := by
      cases status : ops.image.status with
      | cut => exact absurd status cut
      | error =>
        have := fair.reported status
        rwa [h.long] at this
      | done =>
        rw [written,Op.left_of_done status,overlay_all le_rfl (by simp [blank,long])]
    rw [if_neg cut,if_neg (by simp [mtdWrite]),full,
      update_of_ne (other_ne c).symm] at done
    by_cases unset : ops.flag.left 1 = 0
    · rw [if_pos unset] at done
      obtain ⟨d,both,which⟩ := h.both long
      by_cases lost : ops.flag.status = .cut
      · rw [if_pos lost] at done
        cases done
        exact .inr (.inr ⟨rfl,.env1,d,both,which.imp And.right And.right⟩)
      rw [if_neg lost,if_neg (by simp [mtdWrite])] at done
      cases done
      have error : ops.flag.status = .error := by
        cases status : ops.flag.status with
        | cut => exact absurd status lost
        | error => rfl
        | done =>
          rw [Op.left_of_done status] at unset
          cases unset
      have second := fair.flagged error unset
      subst second
      rcases which with ⟨wrong,_⟩ | ⟨_,rfl⟩
      · cases wrong
      · exact .inl ⟨rfl,both⟩
    · rw [if_neg unset] at done
      have swapped := h.swap (c := c) long
      by_cases lost : ops.flag.status = .cut
      · rw [if_pos lost] at done
        cases done
        exact .inr (.inr ⟨rfl,_,_,swapped,.inr rfl⟩)
      · rw [if_neg lost,if_neg (by simp [mtdWrite])] at done
        cases done
        exact .inl ⟨rfl,swapped⟩

end

/-- `env_init` does not meet a torn first copy before the devices are registered, and updates end
fairly. -/
def Safe (envMaxSize : Nat) (w : Machine) : Event → Prop
  | .reboot => True
  | .register => True
  | .set beyond name value ops =>
    (w.ram = none → w.registered = true ∨ ¬ TornFirst w.copies) ∧
    ∀ m c m', w.load beyond = some (m, some c) →
      setsyspara envMaxSize m name value true = some (0, m') →
      Fair w.copies c (areaOf envMaxSize m') ops

/-- After the devices are registered in any case, before that unless the first copy is torn. -/
structure Loads (copies : Copy → List Nat) (data : List Nat) : Prop where
  valid : ∃ c, accepted (copies c) = true
  registered : ∃ c, envInit true copies = some (some c, imageBytes data)
  raw : ¬ TornFirst copies → ∃ c, envInit false copies = some (some c, imageBytes data)
  torn : TornFirst copies → envInit false copies = none

structure Settled (size : Nat) (w : Machine) (c : Copy) (data : List Nat) : Prop where
  holds : Holds size w.copies c data
  loaded : w.ram ≠ none → w.valid = some c

theorem Holds.loads (h : Holds size copies c data) : Loads copies data := by
  refine ⟨⟨c,by rw [h.image]; exact accepted_image data⟩,⟨c,envInit_registered h⟩,?_,?_⟩
  · intro fine
    rcases envInit_raw h with ⟨torn,_⟩ | ⟨_,init⟩
    · exact absurd torn fine
    · exact ⟨c,init⟩
  intro torn
  rcases envInit_raw h with ⟨_,init⟩ | ⟨fine,_⟩
  · exact init
  · exact absurd torn fine

theorem Loads.unique (h : Loads copies data) (h' : Loads copies data') : data = data' := by
  obtain ⟨c,init⟩ := h.registered
  obtain ⟨c',init'⟩ := h'.registered
  have := init.symm.trans init'
  simp only [Option.some.injEq,Prod.mk.injEq] at this
  have same : dataOf (imageBytes data) = dataOf (imageBytes data') := by rw [this.2]
  exact same

theorem area_length (h : Holds size copies c data) (m : Mem) :
    (imageBytes (areaOf size m)).length = size := by
  have long := h.long c
  rw [h.image,length_image] at long
  rw [length_image,areaOf,bytesOf,List.length_map,List.length_range]
  omega

theorem Settled.load (h : Settled size w c data) (beyond : Mem)
    (boot : w.ram = none → w.registered = true ∨ ¬ TornFirst w.copies) :
    ∃ m, w.load beyond = some (m, some c) := by
  unfold Machine.load
  cases eq : w.ram with
  | some m =>
    refine ⟨m,?_⟩
    rw [h.loaded (by simp [eq])]
  | none =>
    have init : envInit w.registered w.copies = some (some c, imageBytes data) := by
      cases reg : w.registered with
      | true => exact envInit_registered h.holds
      | false =>
        rcases envInit_raw h.holds with ⟨torn,_⟩ | ⟨_,init⟩
        · rcases boot eq with yes | no
          · rw [reg] at yes
            cases yes
          · exact absurd torn no
        · exact init
    rw [init]
    exact ⟨_,rfl⟩

theorem settled_step (h : Settled size w c data) (safe : Safe size w e)
    (done : step size w e = some (r,w')) : ∃ b d, Settled size w' b d ∧ After data r d := by
  cases e with
  | reboot =>
    cases done
    exact ⟨c,data,⟨h.holds,fun loaded => absurd rfl loaded⟩,rfl⟩
  | register =>
    cases done
    exact ⟨c,data,⟨h.holds,h.loaded⟩,rfl⟩
  | set beyond name value ops =>
    obtain ⟨boot,fair⟩ := safe
    obtain ⟨m,load⟩ := h.load beyond boot
    rw [step,load] at done
    dsimp only at done
    rw [if_neg (by simp),Machine.set] at done
    split at done
    · cases done
    rename_i rcode m' set
    split at done
    · cases done
      exact ⟨c,data,⟨h.holds,fun _ => rfl⟩,rfl⟩
    rename_i zero
    rw [not_not] at zero
    subst zero
    rcases update : envUpdate w.registered w.copies c (areaOf size m') ops with ⟨ended,copies,b⟩
    dsimp only at done
    rw [update] at done
    rcases update_holds h.holds (area_length h.holds m') (fair m c m' load set) update with
      ⟨rfl,now⟩ | ⟨rfl,rfl,now⟩ | ⟨rfl,c',d,now,which⟩
    · cases done
      exact ⟨b,_,⟨now,fun _ => rfl⟩,rfl⟩
    · cases done
      exact ⟨b,data,⟨now,fun _ => rfl⟩,rfl⟩
    · cases done
      exact ⟨c',d,⟨now,fun loaded => absurd rfl loaded⟩,which⟩

/-- In every safe run `env_init` loads the environment of the last update that returned 0 or one
that was being written since, or touches a missing device. -/
theorem two_copy_safety {trace : List (Event × Reply)} (start : Holds size copies c data)
    (run : Runs.Run (step size) (Safe size) ⟨copies, false, none, none⟩ trace w) :
    (∃ d ∈ candidates data trace, Loads w.copies d) ∧
    ∀ e r w', Safe size w e → step size w e = some (r, w') → ∀ d, Loads w.copies d →
      ∃ d', After d r d' ∧ Loads w'.copies d' := by
  have settled : Settled size ⟨copies, false, none, none⟩ c data := ⟨start, fun loaded => absurd rfl loaded⟩
  exact candidate_loads (L := fun w d => Loads w.copies d) settled_step settled run
    Loads.unique fun settled => settled.holds.loads

def flash (zeros : Nat) : Copy → List Nat
  | .env1 => imageBytes (padded first (zeros + 9))
  | .env2 => blank (zeros + 22)

theorem flash_holds (zeros : Nat) :
    Holds (zeros + 22) (flash zeros) .env1 (padded first (zeros + 9)) := by
  refine ⟨fun x => ?_,rfl,nofun⟩
  cases x with
  | env1 => simp [flash,length_image,padded,first]
  | env2 => simp [flash,blank]

def setSecond (ops : Ops) : Event := .set (fun _ => 0) [114] (some [101, 87, 97, 69]) ops

theorem setSecond_loads (zeros : Nat) : ∃ m m',
    Machine.load ⟨flash zeros,false,none,none⟩ (fun _ => 0) = some (m, some .env1) ∧
    setsyspara (zeros + 22) m [114] (some [101,87,97,69]) true = some (0,m') ∧
    areaOf (zeros + 22) m' = padded second (zeros + 2) := by
  have whole := memOf_at (padded first (zeros + 9)) fun _ => 0
  obtain ⟨m',set,held⟩ := set_padded whole (by omega : 17 ≤ zeros + 22)
  refine ⟨_,m',?_,set,?_⟩
  · rcases envInit_raw (flash_holds zeros) with ⟨torn,_⟩ | ⟨_,init⟩
    · have ok := accepted_image (padded first (zeros + 9))
      simp only [accepted,Bool.and_eq_true] at ok
      exact absurd (torn.2.symm.trans ok.2) (by simp)
    · rw [Machine.load,init]
      rfl
  · have area := bytesOf_at held
    have len : 0 + (padded second (zeros + 2)).length = zeros + 22 - 5 := by
      simp [padded,second,first]
    rw [len] at area
    exact area

theorem setSecond_step (zeros : Nat) (ops : Ops)
    (update : envUpdate false (flash zeros) .env1 (padded second (zeros + 2)) ops =
      (.returned 0, copies, b)) : ∃ m,
    step (zeros + 22) ⟨flash zeros,false,none,none⟩ (setSecond ops) =
      some (.updated (padded second (zeros + 2)), ⟨copies,false,some m,some b⟩) := by
  obtain ⟨m,m',load,set,area⟩ := setSecond_loads zeros
  refine ⟨m',?_⟩
  rw [setSecond,step,load]
  dsimp only
  rw [if_neg (by simp),Machine.set,set]
  dsimp only
  rw [if_neg (by simp),area,update]
  rfl

theorem setSecond_safe (zeros : Nat) :
    Safe (zeros + 22) ⟨flash zeros,false,none,none⟩ (setSecond ⟨.ok,.ok,.ok⟩) := by
  constructor
  · intro _
    right
    rintro ⟨_,wrong⟩
    have ok := accepted_image (padded first (zeros + 9))
    simp only [accepted,Bool.and_eq_true] at ok
    exact absurd (wrong.symm.trans ok.2) (by simp)
  · intro m c m' load _
    obtain ⟨_,_,load',_⟩ := setSecond_loads zeros
    cases load'.symm.trans load
    constructor <;> simp [Op.status]

theorem two_copy_safety_set : ∃ trace w, Runs.Run (step 65536) (Safe 65536)
    ⟨flash 65514, false, none, none⟩ trace w ∧ trace.length = 1 ∧
    ∃ d ∈ candidates (padded first (65514 + 9)) trace, Loads w.copies d := by
  obtain ⟨m, done⟩ := setSecond_step 65514 ⟨.ok, .ok, .ok⟩ rfl
  have run := Runs.Run.next .start (setSecond_safe 65514) done
  exact ⟨_, _, run, rfl, (two_copy_safety (flash_holds 65514) run).1⟩

theorem unwritten_update (zeros : Nat) (data : List Nat) : ∃ copies,
    envUpdate false (flash zeros) .env1 data ⟨.ok,.error 0,.ok⟩ = (.returned 0, copies, .env2) ∧
    ∀ c, accepted (copies c) = false := by
  refine ⟨_,rfl,fun c => ?_⟩
  cases c with
  | env1 => exact obsolete_not_accepted
  | env2 =>
    rw [if_neg (by simp [Op.left]),update_of_ne (by simp),Copy.other,
      update_self,update_self]
    change accepted (overlay (flash zeros .env2) (blank _) _) = false
    rw [overlay_all (by simp [blank,Op.left]) (by simp [blank])]
    exact blank_not_accepted _

/-- The call returns 0 and no valid copy is left. -/
theorem write_error_lost : ∃ d w, Holds 65536 (flash 65514) .env1 (padded first (65514 + 9)) ∧
    step 65536 ⟨flash 65514, false, none, none⟩ (setSecond ⟨.ok, .error 0, .ok⟩) =
      some (.updated d, w) ∧ ∀ c, accepted (w.copies c) = false := by
  obtain ⟨copies, update, gone⟩ := unwritten_update 65514 (padded second (65514 + 2))
  obtain ⟨m, done⟩ := setSecond_step _ _ update
  exact ⟨_, _, flash_holds 65514, done, gone⟩

end Apc8750.SfEnv
