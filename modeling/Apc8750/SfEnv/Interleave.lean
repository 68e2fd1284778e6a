import Apc8750.SfEnv.Readers

namespace Apc8750.SfEnv
open Env Faults Function

/-- What `saveenv` and `env_update` leave in the sector they erase. -/
def erasing (sector : List Nat) (op : Op Nat) : List Nat :=
  overlay sector (blank sector.length) (op.left sector.length)

def writingData (size : Nat) (data : List Nat) (op : Op Nat) : List Nat :=
  overlay (blank size) ((blank size).take 5 ++ data) (5 + op.left data.length)

def writingCrc (size : Nat) (data : List Nat) (op : Op Nat) : List Nat :=
  overlay ((blank size).take 5 ++ data)
    (wordBytes (envCrc32 data) ++ ((blank size).take 5 ++ data).drop 4) (op.left 4)

structure SaveOps.Whole (ops : SaveOps) : Prop where
  erase : ops.erase.status = .done
  data : ops.data.status = .done
  crc : ops.crc.status = .done
  obsolete : ops.obsolete.status = .done
  active : ops.active.left 1 ≠ 0
  reported : ops.active.status ≠ .error

def stopped : Status → Ended
  | .cut => .lost
  | _ => .returned 1

/-- Into the second copy one that ends before the CRC is complete, into the first one that ends
before the erase comes to the flag, or whole ones. -/
def SaveTame (copies : Copy → List Nat) (data : List Nat) (ops : SaveOps) : Copy → Prop
  | .env1 =>
    (ops.erase.status ≠ .done ∧ Legible (erasing (copies .env2) ops.erase)) ∨
    (ops.erase.status = .done ∧ ops.data.status ≠ .done ∧
      Legible (writingData (copies .env2).length data ops.data)) ∨
    (ops.erase.status = .done ∧ ops.data.status = .done ∧ ops.crc.status ≠ .done ∧
      Legible (writingCrc (copies .env2).length data ops.crc)) ∨
    ops.Whole
  | .env2 => (ops.erase.status ≠ .done ∧ ops.erase.left (copies .env1).length ≤ 4) ∨ ops.Whole

/-- The same for `env_update`. -/
def UpdateTame (copies : Copy → List Nat) (data : List Nat) (ops : Ops) : Copy → Prop
  | .env1 =>
    (ops.erase.status ≠ .done ∧ Legible (erasing (copies .env2) ops.erase)) ∨
    (ops.erase.status = .done ∧ ops.image.status = .cut ∧
      Legible (written (copies .env2).length data ops)) ∨
    (ops.erase.status = .done ∧ written (copies .env2).length data ops = imageBytes data ∧
      (ops.flag.status = .error → ops.flag.left 1 ≠ 0))
  | .env2 =>
    (ops.erase.status ≠ .done ∧ ops.erase.left (copies .env1).length ≤ 4) ∨
    (ops.erase.status = .done ∧ written (copies .env1).length data ops = imageBytes data)

structure Calm (size : Nat) (w : Board) (c : Copy) : Prop where
  long : ∀ x, (w.copies x).length = size
  settles : Settles w.copies c
  role : ∀ p b, w.running = some (p, b) → b = c

variable {copies : Copy → List Nat} {c : Copy} {data : List Nat} {size : Nat} {w w' : Board}
  {ops : SaveOps} {kops : Ops} {registered : Bool}

theorem erasing_done (sector : List Nat) (h : op.status = .done) :
    erasing sector op = blank sector.length := by
  rw [erasing,Op.left_of_done h,overlay_all (by simp [blank]) (by simp [blank])]

theorem save_stops_erasing (h : ops.erase.status ≠ .done) : saveenv copies c data ops =
    (stopped ops.erase.status,
      update copies c.other (erasing (copies c.other) ops.erase), c) := by
  unfold saveenv
  cases status : ops.erase.status with
  | done => exact absurd status h
  | error => rfl
  | cut => rfl

theorem save_stops_data (erase : ops.erase.status = .done) (h : ops.data.status ≠ .done) :
    saveenv copies c data ops = (stopped ops.data.status,
      update copies c.other (writingData (copies c.other).length data ops.data), c) := by
  have first := erasing_done (copies c.other) erase
  unfold erasing at first
  unfold saveenv
  rw [erase]
  dsimp only
  rw [first,update_self,update_idem]
  cases status : ops.data.status with
  | done => exact absurd status h
  | error => rfl
  | cut => rfl

theorem writingData_done (h : op.status = .done) (long : data.length + 5 = size) :
    writingData size data op = (blank size).take 5 ++ data := by
  unfold writingData
  rw [Op.left_of_done h,overlay_all]
  · simp [blank]
  · simp [blank]
    omega

theorem save_stops_crc (erase : ops.erase.status = .done) (hd : ops.data.status = .done)
    (h : ops.crc.status ≠ .done) (long : data.length + 5 = (copies c.other).length) :
    saveenv copies c data ops = (stopped ops.crc.status,
      update copies c.other (writingCrc (copies c.other).length data ops.crc), c) := by
  have first := erasing_done (copies c.other) erase
  have second := writingData_done hd long
  unfold erasing at first
  unfold writingData at second
  unfold saveenv
  rw [erase]
  dsimp only
  rw [first,update_self,update_idem,hd,second,update_self, update_idem]
  cases status : ops.crc.status with
  | done => exact absurd status h
  | error => rfl
  | cut => rfl

theorem writingCrc_done (h : op.status = .done) (long : data.length + 5 = size) :
    writingCrc size data op = wordBytes (envCrc32 data) ++ 255 :: data := by
  have header : (blank size).take 5 = [255,255,255,255,255] := by
    obtain ⟨n,rfl⟩ : ∃ n, size = 5 + n := ⟨data.length,by omega⟩
    rw [blank,List.take_replicate,Nat.min_eq_left (by omega)]
    rfl
  unfold writingCrc overlay
  rw [Op.left_of_done h,header]
  rfl

theorem save_whole (h : ops.Whole) (long : data.length + 5 = (copies c.other).length) :
    ∃ ended b, saveenv copies c data ops = (ended, update
      (update copies c.other (imageBytes data)) c (obsolete (copies c)), b) ∧
      (ended = .returned 0 ∧ b = c.other ∨ ended = .lost) := by
  have first := erasing_done (copies c.other) h.erase
  have second := writingData_done h.data long
  have third := writingCrc_done h.crc long
  unfold erasing at first
  unfold writingData at second
  unfold writingCrc at third
  have sector : update (update (update copies c.other
      (wordBytes (envCrc32 data) ++ 255 :: data)) c (obsolete (copies c))) c.other
      ((wordBytes (envCrc32 data) ++ 255 :: data).set 4 1) =
      update (update copies c.other (imageBytes data)) c (obsolete (copies c)) := by
    rw [Function.update_comm (other_ne c).symm,update_idem]
    rfl
  have flag : ops.obsolete.left 1 ≠ 0 := by
    rw [Op.left_of_done h.obsolete]
    decide
  unfold saveenv
  rw [h.erase]
  dsimp only
  rw [first,update_self,update_idem,h.data,second,update_self,
    update_idem,h.crc,third,h.obsolete,if_neg flag,if_neg h.active,
    update_of_ne (other_ne c).symm,update_of_ne (other_ne c),
    update_self,sector]
  cases status : ops.active.status with
  | error => exact absurd status h.reported
  | cut => exact ⟨_,_,rfl,.inr rfl⟩
  | done => exact ⟨_,_,rfl,.inl ⟨rfl,rfl⟩⟩

theorem calm_after {p : Program} {ended : Ended} {b : Copy} (long : ∀ x, (copies x).length = size)
    (settles : Settles copies c) (role : ended = .lost ∨ b = c) :
    Calm size (Board.after p (ended, copies, b)).2 c := by
  cases ended with
  | lost => exact ⟨long,settles,nofun⟩
  | returned rcode =>
    refine ⟨long,settles,?_⟩
    rintro _ _ ⟨⟩
    exact role.resolve_left nofun

theorem long_update {sector : List Nat} {x : Copy} (long : ∀ x, (copies x).length = size)
    (same : sector.length = size) (y : Copy) : (update copies x sector y).length = size := by
  by_cases eq : y = x
  · rw [eq,update_self,same]
  · rw [update_of_ne eq,long]

theorem calm_stopped {p : Program} {sector : List Nat} {status : Status}
    (long : ∀ x, (copies x).length = size) (settles : Settles copies c) (same : sector.length = size)
    (legible : c = .env1 → Legible sector) (zero : c = .env2 → flags sector = 0) :
    Calm size (Board.after p (stopped status, update copies c.other sector, c)).2 c := by
  apply calm_after (long_update long same) _ (.inr rfl)
  cases c with
  | env1 => exact settles_second settles (legible rfl)
  | env2 => exact settles_first settles (zero rfl)

theorem length_erasing (sector : List Nat) (op : Op Nat) :
    (erasing sector op).length = sector.length := by
  rw [erasing,length_overlay (by simp [blank]),blank,List.length_replicate]

theorem calm_erasing {p : Program} {op : Op Nat} {status : Status}
    (long : ∀ x, (copies x).length = size) (settles : Settles copies c) (big : 4 < size)
    (legible : c = .env1 → Legible (erasing (copies .env2) op))
    (low : c = .env2 → op.left (copies .env1).length ≤ 4) :
    Calm size (Board.after p (stopped status,
      update copies c.other (erasing (copies c.other) op), c)).2 c := by
  apply calm_stopped long settles
  · rw [length_erasing,long]
  · rintro rfl
    exact legible rfl
  · rintro rfl
    exact (flags_erasing (low rfl) (by rw [long]; exact big)).trans settles.1

theorem save_calm {p : Program} (long : ∀ x, (copies x).length = size) (settles : Settles copies c)
    (fits : data.length + 5 = size) (tame : SaveTame copies data ops c) :
    ∃ c', Calm size (Board.after p (saveenv copies c data ops)).2 c' := by
  have fits' : data.length + 5 = (copies c.other).length := by rw [long,fits]
  have whole : ops.Whole → ∃ c', Calm size (Board.after p (saveenv copies c data ops)).2 c' := by
    intro whole
    obtain ⟨ended,b,eq,role⟩ := save_whole whole fits'
    refine ⟨c.other,?_⟩
    rw [eq]
    apply calm_after (long_update (long_update long _) _) (settles_swap ..)
    · exact role.symm.imp_right And.right
    · rw [length_image,fits]
    · rw [obsolete,List.length_set,long]
  cases c with
  | env1 =>
    rcases tame with ⟨stop,legible⟩ | ⟨erase,stop,legible⟩ | ⟨erase,done,stop,legible⟩ | all
    · rw [save_stops_erasing stop]
      exact ⟨_,calm_erasing long settles (by omega) (fun _ => legible) (by simp)⟩
    · rw [save_stops_data erase stop]
      refine ⟨_,calm_stopped long settles ?_ (fun _ => legible) (by simp)⟩
      rw [writingData,length_overlay] <;> simp [blank,long,Copy.other] <;> omega
    · rw [save_stops_crc erase done stop fits']
      refine ⟨_,calm_stopped long settles ?_ (fun _ => legible) (by simp)⟩
      rw [writingCrc,length_overlay] <;> simp [blank,long,Copy.other,wordBytes] <;> omega
    · exact whole all
  | env2 =>
    rcases tame with ⟨stop,low⟩ | all
    · rw [save_stops_erasing stop]
      exact ⟨_,calm_erasing long settles (by omega) (by simp) (fun _ => low)⟩
    · exact whole all

theorem update_stops_erasing (h : kops.erase.status ≠ .done) :
    envUpdate registered copies c data kops = (stopped kops.erase.status,
      update copies c.other (erasing (copies c.other) kops.erase), c) := by
  unfold envUpdate
  cases status : kops.erase.status with
  | done => exact absurd status h
  | error => rfl
  | cut => rfl

theorem update_writes (erase : kops.erase.status = .done) :
    envUpdate registered copies c data kops =
      let image := update copies c.other (written (copies c.other).length data kops)
      let copies' := if kops.flag.left 1 = 0 then image
        else update image c (obsolete (copies c))
      if kops.image.status = .cut then (.lost, image, c)
      else if kops.flag.status = .cut then (.lost, copies', c)
      else (.returned 0, copies', c.other) := by
  have first := erasing_done (copies c.other) erase
  unfold erasing at first
  have never : ∀ op, ¬ (registered = true ∧ mtdWrite op ≠ 0) := by
    simp [mtdWrite]
  unfold envUpdate
  rw [erase]
  dsimp only
  rw [first,update_self,update_idem,if_neg (never _),if_neg (never _),
    update_of_ne (other_ne c).symm]
  rfl

theorem update_calm {p : Program} (long : ∀ x, (copies x).length = size) (settles : Settles copies c)
    (fits : data.length + 5 = size) (tame : UpdateTame copies data kops c) :
    ∃ c', Calm size (Board.after p (envUpdate registered copies c data kops)).2 c' := by
  have image : (imageBytes data).length = size := by rw [length_image,fits]
  have swapped : ∀ {ended b}, (ended = .lost ∨ b = c.other) → Calm size (Board.after p
      (ended, update (update copies c.other (imageBytes data)) c
        (obsolete (copies c)), b)).2 c.other := by
    intro ended b role
    apply calm_after (long_update (long_update long image) _) (settles_swap ..) role
    rw [obsolete,List.length_set,long]
  cases c with
  | env1 =>
    have both : ∀ {b}, Calm size (Board.after p
        (.lost, update copies .env2 (imageBytes data), b)).2 .env1 := by
      intro b
      exact calm_after (long_update long image) (settles_second settles (legible_image data))
        (.inl rfl)
    rcases tame with ⟨stop,legible⟩ | ⟨erase,cut,legible⟩ | ⟨erase,full,flagged⟩
    · rw [update_stops_erasing stop]
      exact ⟨_,calm_erasing long settles (by omega) (fun _ => legible) (by simp)⟩
    · rw [update_writes erase]
      dsimp only
      rw [if_pos cut]
      refine ⟨.env1,calm_after (long_update long ?_) (settles_second settles legible) (.inl rfl)⟩
      rw [written,length_overlay (by simp [blank,long,image]),image]
    rw [update_writes erase]
    dsimp only [Copy.other]
    rw [full]
    by_cases cut : kops.image.status = .cut
    · rw [if_pos cut]
      exact ⟨.env1,both⟩
    rw [if_neg cut]
    by_cases lost : kops.flag.status = .cut
    · rw [if_pos lost]
      split
      · exact ⟨.env1,both⟩
      · exact ⟨.env2,swapped (.inl rfl)⟩
    have flag : ¬ kops.flag.left 1 = 0 := by
      cases status : kops.flag.status with
      | cut => exact absurd status lost
      | error => exact flagged status
      | done =>
        rw [Op.left_of_done status]
        decide
    rw [if_neg lost,if_neg flag]
    exact ⟨.env2,swapped (.inr rfl)⟩
  | env2 =>
    have both : ∀ {ended b}, (ended = .lost ∨ b = .env1) → Calm size (Board.after p
        (ended, update copies .env1 (imageBytes data), b)).2 .env1 := by
      intro ended b role
      apply calm_after (long_update long image) _ role
      refine ⟨?_,?_,?_⟩
      · rw [update_self,flags_image]
      · rw [update_self]
        exact (accepted_iff.mp (accepted_image data)).2
      · rw [update_of_ne (by decide)]
        exact fun _ => .inr settles.2.1
    rcases tame with ⟨stop,low⟩ | ⟨erase,full⟩
    · rw [update_stops_erasing stop]
      exact ⟨_,calm_erasing long settles (by omega) (by simp) (fun _ => low)⟩
    rw [update_writes erase]
    dsimp only [Copy.other]
    rw [full]
    refine ⟨.env1,?_⟩
    by_cases cut : kops.image.status = .cut
    · rw [if_pos cut]
      exact both (.inl rfl)
    rw [if_neg cut]
    by_cases lost : kops.flag.status = .cut
    · rw [if_pos lost]
      split
      · exact both (.inl rfl)
      · exact swapped (.inl rfl)
    rw [if_neg lost]
    split
    · exact both (.inr rfl)
    · exact swapped (.inr rfl)

theorem activate_active (lit : flags (copies c) = 1) (taken : Bool) :
    activate copies c taken = copies := if_neg fun dim => dim.1.1 lit

theorem relocate_calm (long : ∀ x, (copies x).length = size) (settles : Settles copies c)
    (taken : Bool) : (∀ x, (envRelocateSpec copies c taken x).length = size) ∧
      Settles (envRelocateSpec copies c taken) c := by
  cases c with
  | env1 =>
    have kept : (∀ x, (retire copies .env2 taken x).length = size) ∧
        Settles (retire copies .env2 taken) .env1 := by
      unfold retire
      split
      · refine ⟨long_update long ?_,settles_second settles legible_obsolete⟩
        rw [obsolete,List.length_set,long]
      · exact ⟨long,settles⟩
    rw [envRelocateSpec,Copy.other,activate_active kept.2.1]
    exact kept
  | env2 =>
    have zero : flags (copies .env1) = 0 := settles.1
    rw [envRelocateSpec,Copy.other,retire,if_neg fun stale => stale.1.1 zero,
      activate_active settles.2.1]
    exact ⟨long,settles⟩

def Tame (w : Board) : Action → Prop
  | .bootUboot _ => True
  | .bootKernel _ => True
  | .save data ops => ∀ c, w.running = some (.uboot, c) →
      data.length + 5 = (w.copies c.other).length ∧ SaveTame w.copies data ops c
  | .update _ data ops => ∀ c, w.running = some (.kernel, c) →
      data.length + 5 = (w.copies c.other).length ∧ UpdateTame w.copies data ops c

theorem calm_step (h : Calm size w c) (tame : Tame w a) (done : act w a = some (r,w')) :
    ∃ c', Calm size w' c' := by
  obtain ⟨uboot,_,kernel⟩ := allTake_iff.mpr h.settles
  cases a with
  | bootUboot taken =>
    rw [act,uboot] at done
    cases done
    obtain ⟨long,settles⟩ := relocate_calm h.long h.settles taken
    refine ⟨c,long,settles,?_⟩
    rintro _ _ ⟨⟩
    rfl
  | bootKernel registered =>
    obtain ⟨⟨_,buf⟩,init,rfl⟩ := Option.map_eq_some_iff.mp (kernel registered)
    rw [act,init] at done
    cases done
    refine ⟨c,h.long,h.settles,?_⟩
    rintro _ _ ⟨⟩
    rfl
  | save data ops =>
    rw [act] at done
    split at done
    · rename_i b running
      obtain rfl := h.role _ _ running
      obtain ⟨fits,tame⟩ := tame b running
      rw [h.long] at fits
      have next := save_calm (p := .uboot) h.long h.settles fits tame
      rw [Option.some.inj done] at next
      exact next
    · cases done
  | update registered data ops =>
    rw [act] at done
    split at done
    · rename_i b running
      obtain rfl := h.role _ _ running
      obtain ⟨fits,tame⟩ := tame b running
      rw [h.long] at fits
      have next : ∃ c, Calm size (Board.after .kernel (envUpdate registered w.copies b data ops)).2 c :=
        update_calm h.long h.settles fits tame
      rw [Option.some.inj done] at next
      exact next
    · cases done

/-- The three readers agree exactly on pairs with one clear copy, and tame runs leave such a pair.
-/
theorem readers_agree (copies : Copy → List Nat) (c : Copy) :
    (AllTake copies c ↔ Settles copies c) ∧
    ∀ size trace w, (∀ x, (copies x).length = size) → Settles copies c →
      Runs.Run act Tame ⟨copies, none⟩ trace w → ∃ c', AllTake w.copies c' := by
  refine ⟨allTake_iff, ?_⟩
  intro size trace w long settles run
  have calm : ∃ c', Calm size w c' := by
    apply run.invariant ⟨c, long, settles, nofun⟩
    rintro t a r u ⟨b, ht⟩ tame done
    exact calm_step ht tame done
  obtain ⟨c', hw⟩ := calm
  exact ⟨c', allTake_iff.mpr hw.settles⟩

def pairOf (data : List Nat) (active : Copy) : Copy → List Nat := fun c =>
  if c = active then imageBytes data else obsolete (imageBytes data)

theorem pair_long (data : List Nat) (active c : Copy) :
    (pairOf data active c).length = data.length + 5 := by
  unfold pairOf
  split
  · exact length_image
  · rw [obsolete,List.length_set,length_image]

theorem pair_settles (data : List Nat) (active : Copy) : Settles (pairOf data active) active := by
  have ok := (accepted_iff.mp (accepted_image data)).2
  cases active with
  | env1 => exact ⟨flags_image,ok,legible_obsolete⟩
  | env2 => exact ⟨flags_obsolete,flags_image,ok⟩

theorem pair_boot (data : List Nat) (active : Copy) (registered : Bool) :
    act ⟨pairOf data active,none⟩ (.bootKernel registered) =
      some (.returned 0, ⟨pairOf data active,some (.kernel,active)⟩) := by
  have kernel := (allTake_iff.mpr (pair_settles data active)).2.2 registered
  obtain ⟨⟨_,buf⟩,init,rfl⟩ := Option.map_eq_some_iff.mp kernel
  rw [act,init]

theorem readers_agree_updated : ∃ trace w,
    Runs.Run act Tame ⟨pairOf (padded first 65523) .env1, none⟩ trace w ∧
    trace.length = 2 ∧ ∃ c, AllTake w.copies c := by
  have tame : ∀ data, Tame ⟨pairOf data .env1, some (.kernel, .env1)⟩
      (.update true data ⟨.ok, .ok, .ok⟩) := by
    rintro data _ ⟨⟩
    refine ⟨(pair_long data .env1 .env2).symm, .inr (.inr ⟨rfl, ?_, nofun⟩)⟩
    rw [pair_long, written, Op.left, overlay_all le_rfl (by simp [blank, length_image])]
  have done : ∃ r w, act ⟨pairOf (padded first 65523) .env1, some (.kernel, .env1)⟩
      (.update true (padded first 65523) ⟨.ok, .ok, .ok⟩) = some (r, w) := ⟨_, _, rfl⟩
  obtain ⟨r, w, done⟩ := done
  have run := (Runs.Run.start.next trivial (pair_boot (padded first 65523) .env1 true)).next
    (tame _) done
  exact ⟨_, w, run, rfl, (readers_agree _ .env1).2 _ _ w (pair_long _ _) (pair_settles _ _) run⟩

theorem flags_erased (high : 4 < n) (long : 4 < sector.length) :
    flags (overlay sector (blank sector.length) n) = 255 := by
  obtain ⟨k,rfl⟩ : ∃ k, n = 5 + k := ⟨n - 5,by omega⟩
  obtain ⟨m,size⟩ : ∃ m, sector.length = 5 + m := ⟨sector.length - 5,by omega⟩
  rw [flags,overlay,size,blank,List.take_replicate,Nat.add_min_add_left,
    ← List.replicate_append_replicate]
  rfl

theorem erase_cut (data : List Nat) : ∃ w,
    act ⟨pairOf data .env2,some (.kernel,.env2)⟩ (.update true data ⟨.cut 5,.ok,.ok⟩) =
      some (.lost,w) ∧ sfEnvInit w.copies = some .env1 ∧
    (envInit true w.copies).map Prod.fst = some (some .env2) := by
  have flag : flags (erasing (pairOf data .env2 .env1) (.cut 5)) = 255 :=
    flags_erased (by simp [Op.left]) (by rw [pair_long]; omega)
  have lost : envUpdate true (pairOf data .env2) .env2 data ⟨.cut 5,.ok,.ok⟩ = (.lost,
      update (pairOf data .env2) .env1 (erasing (pairOf data .env2 .env1) (.cut 5)),
      .env2) := update_stops_erasing (by simp [Op.status])
  refine ⟨⟨update (pairOf data .env2) .env1
    (erasing (pairOf data .env2 .env1) (.cut 5)),none⟩,?_,?_,?_⟩
  · rw [act]
    dsimp only
    rw [lost]
    rfl
  · dsimp only
    rw [sfEnvInit,update_self,flag,if_pos (by decide)]
  have passed : ¬ accepted (erasing (pairOf data .env2 .env1) (.cut 5)) = true := by
    rw [accepted_iff,flag]
    simp
  dsimp only
  rw [envInit,initLoop,update_self,if_neg passed,if_neg (by simp),initLoop,
    update_of_ne (by decide),if_pos]
  · rfl
  · exact accepted_image data

/-- The erase of the first copy is cut after five bytes. -/
theorem readers_differ : ∃ w, Settles (pairOf (padded first 65523) .env2) .env2 ∧
    act ⟨pairOf (padded first 65523) .env2, some (.kernel, .env2)⟩
      (.update true (padded first 65523) ⟨.cut 5, .ok, .ok⟩) = some (.lost, w) ∧
    sfEnvInit w.copies = some .env1 ∧
    (envInit true w.copies).map Prod.fst = some (some .env2) := by
  obtain ⟨w, lost⟩ := erase_cut (padded first 65523)
  exact ⟨w, pair_settles _ _, lost⟩

end Apc8750.SfEnv
