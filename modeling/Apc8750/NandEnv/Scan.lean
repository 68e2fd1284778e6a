import Mathlib.Data.Nat.Find
import Apc8750.NandEnv.Kernel

namespace Apc8750.NandEnv

/-- The blocks that the scan of `env_init` reads. -/
def scanReads (bad : Nat → Bool) (cells : Nat → Cell) (offs cnt : Nat) (buf : Image) : List Nat :=
  if offs < envBlkLength ∧ bad offs = true then
    if cnt + 1 = envBlkLength then scanReads bad cells offs (cnt + 1) buf
    else scanReads bad cells (offs + 1) (cnt + 1) buf
  else if cnt ≥ envBlkLength * 2 then []
  else
    match if offs < envBlkLength then cells offs else .ok buf with
    | .failed => [offs]
    | .corrected _ => [offs]
    | .ok i =>
      let next := if cnt + 1 = envBlkLength then 0 else offs + 1
      if i.crc = 0xFFFFFFFF ∧ cnt < envBlkLength then
        offs :: scanReads bad cells next (cnt + 1) i
      else if i.valid = true then [offs]
      else if cnt + 1 < envBlkLength * 2 then offs :: scanReads bad cells next (cnt + 1) i
      else [offs]
termination_by (19 - cnt) * 10 + (9 - offs)
decreasing_by all_goals simp only [envBlkLength] at *; omega

def Cell.readable : Cell → Option Image
  | .ok i => some i
  | .corrected i => some i
  | .failed => none

structure Usable (bad : Nat → Bool) (cells : Nat → Cell) (b : Nat) (i : Image) : Prop where
  inside : b < envBlkLength
  good : bad b = false
  reads : (cells b).readable = some i
  valid : i.valid = true

structure Exact (bad : Nat → Bool) (cells : Nat → Cell) (buf : Image) : Prop where
  inside : ∀ b ∈ scanReads bad cells 0 0 buf, b < envBlkLength
  returns : (envInit bad cells buf).1.isSome ↔ ∃ b i, Usable bad cells b i
  holds : ∀ b, (envInit bad cells buf).1 = some b → Usable bad cells b (envInit bad cells buf).2

/-- No usable block is given up for one that cannot be read, and the last block is good if it is
reached. -/
structure Scannable (bad : Nat → Bool) (cells : Nat → Cell) : Prop where
  stops : ∀ b < envBlkLength, bad b = false → (∀ i, cells b ≠ .ok i) →
    (∀ a < b, bad a = false → Skipped (cells a)) → ∀ c i, ¬ Usable bad cells c i
  last : (∀ b < envBlkLength, bad b = false → Skipped (cells b)) →
    bad (envBlkLength - 1) = false

def Past (bad : Nat → Bool) (cells : Nat → Cell) (offs cnt : Nat) (buf : Image)
    (offs' cnt' : Nat) (buf' : Image) : Prop :=
  scan bad cells offs cnt buf = scan bad cells offs' cnt' buf' ∧
    ∃ read, scanReads bad cells offs cnt buf = read ++ scanReads bad cells offs' cnt' buf' ∧
      ∀ b ∈ read, b < envBlkLength

theorem Past.refl : Past bad cells offs cnt buf offs cnt buf :=
  ⟨rfl,[],rfl,by simp⟩

theorem Past.trans (h : Past bad cells offs cnt buf offs' cnt' buf')
    (h' : Past bad cells offs' cnt' buf' offs'' cnt'' buf'') :
    Past bad cells offs cnt buf offs'' cnt'' buf'' := by
  obtain ⟨same,read,reads,inside⟩ := h
  obtain ⟨same',read',reads',inside'⟩ := h'
  refine ⟨same.trans same',read ++ read',?_,?_⟩
  · rw [reads,reads',List.append_assoc]
  · intro b hb
    exact (List.mem_append.mp hb).elim (inside b) (inside' b)

theorem Past.inside (h : Past bad cells offs cnt buf offs' cnt' buf')
    (ends : scanReads bad cells offs' cnt' buf' = [offs']) (low : offs' < envBlkLength) :
    ∀ b ∈ scanReads bad cells offs cnt buf, b < envBlkLength := by
  obtain ⟨_,read,reads,inside⟩ := h
  rw [reads,ends]
  intro b hb
  rcases List.mem_append.mp hb with hb | hb
  · exact inside b hb
  · rwa [List.mem_singleton.mp hb]

section
variable (low : offs < envBlkLength)
include low

theorem past_bad (isBad : bad offs = true)
    (edge : cnt + 1 ≠ envBlkLength) : Past bad cells offs cnt buf (offs + 1) (cnt + 1) buf := by
  refine ⟨?_,[],?_,by simp⟩
  · rw [scan,if_pos ⟨low,isBad⟩,if_neg edge]
  · rw [scanReads,if_pos ⟨low,isBad⟩,if_neg edge,List.nil_append]

theorem scan_good (good : bad offs = false)
    (small : cnt < envBlkLength * 2) : scan bad cells offs cnt buf =
      match cells offs with
      | .failed => (none,buf)
      | .corrected i => (none,i)
      | .ok i =>
        let next := if cnt + 1 = envBlkLength then 0 else offs + 1
        if i.crc = 0xFFFFFFFF ∧ cnt < envBlkLength then scan bad cells next (cnt + 1) i
        else if i.valid = true then (some (cnt % envBlkLength), i)
        else if cnt + 1 < envBlkLength * 2 then scan bad cells next (cnt + 1) i
        else (none,i) := by
  rewrite [scan,if_neg (by simp [good]),if_neg (Nat.not_le.mpr small),if_pos low]
  rfl

theorem scanReads_good (good : bad offs = false)
    (small : cnt < envBlkLength * 2) : scanReads bad cells offs cnt buf =
      match cells offs with
      | .failed => [offs]
      | .corrected _ => [offs]
      | .ok i =>
        let next := if cnt + 1 = envBlkLength then 0 else offs + 1
        if i.crc = 0xFFFFFFFF ∧ cnt < envBlkLength then
          offs :: scanReads bad cells next (cnt + 1) i
        else if i.valid = true then [offs]
        else if cnt + 1 < envBlkLength * 2 then offs :: scanReads bad cells next (cnt + 1) i
        else [offs] := by
  rw [scanReads,if_neg (by simp [good]),if_neg (Nat.not_le.mpr small),if_pos low]

theorem past_read (good : bad offs = false)
    (reads : cells offs = .ok i) (skip : (i.crc = 0xFFFFFFFF ∧ cnt < envBlkLength) ∨
      (i.valid = false ∧ cnt + 1 < envBlkLength * 2)) :
    Past bad cells offs cnt buf (if cnt + 1 = envBlkLength then 0 else offs + 1) (cnt + 1) i := by
  have small : cnt < envBlkLength * 2 := by
    unfold envBlkLength at *
    omega
  rw [Past,scan_good low good small,scanReads_good low good small,reads]
  dsimp only
  by_cases erased : i.crc = 0xFFFFFFFF ∧ cnt < envBlkLength
  · rw [if_pos erased,if_pos erased]
    exact ⟨rfl,[offs],rfl,by simpa using low⟩
  obtain ⟨invalid,more⟩ := skip.resolve_left erased
  have no : ¬ i.valid = true := by simp [invalid]
  rw [if_neg erased,if_neg erased,if_neg no,if_neg no,if_pos more,if_pos more]
  exact ⟨rfl,[offs],rfl,by simpa using low⟩

theorem scan_takes (good : bad offs = false)
    (reads : cells offs = .ok i) (valid : i.valid = true) (small : cnt < envBlkLength * 2)
    (seen : ¬ (i.crc = 0xFFFFFFFF ∧ cnt < envBlkLength)) :
    scan bad cells offs cnt buf = (some (cnt % envBlkLength), i) ∧
      scanReads bad cells offs cnt buf = [offs] := by
  rw [scan_good low good small,scanReads_good low good small,reads]
  dsimp only
  rw [if_neg seen,if_neg seen,if_pos valid,if_pos valid]
  exact ⟨rfl,rfl⟩

theorem scan_stops (good : bad offs = false)
    (fails : ∀ i, cells offs ≠ .ok i) (small : cnt < envBlkLength * 2) :
    (scan bad cells offs cnt buf).1 = none ∧ scanReads bad cells offs cnt buf = [offs] := by
  rw [scan_good low good small,scanReads_good low good small]
  cases reads : cells offs with
  | ok i => exact absurd reads (fails i)
  | corrected i => exact ⟨rfl,rfl⟩
  | failed => exact ⟨rfl,rfl⟩

theorem scan_ends (good : bad offs = false)
    (reads : cells offs = .ok i) (invalid : i.valid = false) (last : cnt + 1 = envBlkLength * 2) :
    (scan bad cells offs cnt buf).1 = none ∧ scanReads bad cells offs cnt buf = [offs] := by
  have small : cnt < envBlkLength * 2 := by omega
  have second : ¬ (i.crc = 0xFFFFFFFF ∧ cnt < envBlkLength) := by
    unfold envBlkLength at *
    omega
  have full : ¬ cnt + 1 < envBlkLength * 2 := by omega
  have no : ¬ i.valid = true := by simp [invalid]
  rw [scan_good low good small,scanReads_good low good small,reads]
  dsimp only
  rw [if_neg second,if_neg second,if_neg no,if_neg no,if_neg full,if_neg full]
  exact ⟨rfl,rfl⟩

end

theorem past_run (hc : c = 0 ∨ c = envBlkLength) (hn : n < envBlkLength) (b : Nat) (hb : b ≤ n)
    (skip : ∀ k, b ≤ k → k < n → bad k = false → ∃ i, cells k = .ok i ∧
      ((i.crc = 0xFFFFFFFF ∧ c = 0) ∨ i.valid = false)) (buf : Image) :
    ∃ buf', Past bad cells b (c + b) buf n (c + n) buf' := by
  induction gap : n - b generalizing b buf with
  | zero =>
    obtain rfl : b = n := by omega
    exact ⟨buf,.refl⟩
  | succ gap ih =>
    have low : b < envBlkLength := by omega
    have edge : c + b + 1 ≠ envBlkLength := by
      unfold envBlkLength at *
      omega
    have rest := fun buf => ih (b + 1) (by omega) (fun k low => skip k (by omega)) buf (by omega)
    cases isBad : bad b with
    | true =>
      obtain ⟨buf',past⟩ := rest buf
      exact ⟨buf',(past_bad low isBad edge).trans past⟩
    | false =>
      obtain ⟨i,reads,going⟩ := skip b (Nat.le_refl b) (by omega) isBad
      obtain ⟨buf',past⟩ := rest i
      refine ⟨buf',Past.trans ?_ past⟩
      have one : Past bad cells b (c + b) buf (if c + b + 1 = envBlkLength then 0 else b + 1)
          (c + b + 1) i := past_read low isBad reads (by
        unfold envBlkLength at *
        rcases going with ⟨erased,rfl⟩ | invalid
        · exact .inl ⟨erased,by omega⟩
        · exact .inr ⟨invalid,by omega⟩)
      rwa [if_neg edge] at one

theorem past_first (hn : n < envBlkLength) (b : Nat) (hb : b ≤ n)
    (skip : ∀ k, b ≤ k → k < n → bad k = false → Skipped (cells k)) (buf : Image) :
    ∃ buf', Past bad cells b b buf n n buf' := by
  have run : ∃ buf', Past bad cells b (0 + b) buf n (0 + n) buf' := by
    refine past_run (.inl rfl) hn b hb ?_ buf
    intro k low high good
    obtain ⟨i,reads,erased | invalid⟩ := skip k low high good
    · exact ⟨i,reads,.inl ⟨erased,rfl⟩⟩
    · exact ⟨i,reads,.inr invalid⟩
  simpa only [Nat.zero_add] using run

theorem least_or_none (p : Nat → Prop) (n : Nat) :
    (∀ b < n, ¬ p b) ∨ ∃ b < n, p b ∧ ∀ a < b, ¬ p a := by
  classical
  by_cases some : ∃ b, b < n ∧ p b
  · obtain ⟨inside,holds⟩ := Nat.find_spec some
    refine .inr ⟨Nat.find some,inside,holds,fun a before holds => ?_⟩
    exact Nat.find_min some before ⟨Nat.lt_trans before inside,holds⟩
  · exact .inl fun b inside holds => some ⟨b,inside,holds⟩

theorem first_stop (bad : Nat → Bool) (cells : Nat → Cell) :
    (∀ b < envBlkLength, bad b = false → Skipped (cells b)) ∨
    ∃ b < envBlkLength, bad b = false ∧ ¬ Skipped (cells b) ∧
      ∀ a < b, bad a = false → Skipped (cells a) := by
  rcases least_or_none (fun b => bad b = false ∧ ¬ Skipped (cells b)) envBlkLength with
    none | ⟨b,inside,⟨good,stop⟩,first⟩
  · exact .inl fun b inside good => not_not.mp fun stop => none b inside ⟨good,stop⟩
  · exact .inr ⟨b,inside,good,stop,fun a before good =>
      not_not.mp fun stop => first a before ⟨good,stop⟩⟩

theorem not_skipped (h : ¬ Skipped cell) :
    (∃ i, cell = .ok i ∧ i.crc ≠ 0xFFFFFFFF ∧ i.valid = true) ∨ ∀ i, cell ≠ .ok i := by
  cases cell with
  | ok i =>
    refine .inl ⟨i,rfl,fun erased => h ⟨i,rfl,.inl erased⟩,?_⟩
    by_contra invalid
    exact h ⟨i,rfl,.inr (by simpa using invalid)⟩
  | corrected i => exact .inr nofun
  | failed => exact .inr nofun

theorem past_all (all : ∀ b < envBlkLength, bad b = false → Skipped (cells b)) (buf : Image) :
    ∃ buf', Past bad cells 0 0 buf (envBlkLength - 1) (envBlkLength - 1) buf' :=
  past_first (by decide) 0 (Nat.zero_le _) (fun k _ high => all k (by omega)) buf

theorem reads_beyond (all : ∀ b < envBlkLength, bad b = false → Skipped (cells b))
    (isBad : bad (envBlkLength - 1) = true) (buf : Image) :
    envBlkLength ∈ scanReads bad cells 0 0 buf := by
  obtain ⟨buf',_,read,reads,_⟩ := past_all all buf
  have last : (8 : Nat) < envBlkLength ∧ bad 8 = true := ⟨by decide,isBad⟩
  have beyond : ¬ ((9 : Nat) < envBlkLength ∧ bad 9 = true) := by
    rintro ⟨low,_⟩
    exact absurd low (by decide)
  have here : envBlkLength ∈ scanReads bad cells 9 10 buf' := by
    rw [scanReads,if_neg beyond,if_neg (by decide),if_neg (by decide)]
    dsimp only
    split
    · exact List.mem_cons_self
    · split
      · exact List.mem_cons_self
      · split <;> exact List.mem_cons_self
  rw [reads]
  apply List.mem_append_right
  show envBlkLength ∈ scanReads bad cells 8 8 buf'
  rw [scanReads,if_pos last,if_pos (by rfl),scanReads,if_pos last,if_neg (by decide)]
  exact here

theorem second_pass (all : ∀ b < envBlkLength, bad b = false → Skipped (cells b))
    (last : bad (envBlkLength - 1) = false) (buf : Image) :
    (∀ b ∈ scanReads bad cells 0 envBlkLength buf, b < envBlkLength) ∧
    ((∃ b i, Usable bad cells b i ∧ scan bad cells 0 envBlkLength buf = (some b, i)) ∨
      ((∀ b i, ¬ Usable bad cells b i) ∧ (scan bad cells 0 envBlkLength buf).1 = none)) := by
  have invalid : ∀ b < envBlkLength, ¬ (∃ i, Usable bad cells b i) → bad b = false →
      ∃ i, cells b = .ok i ∧ i.valid = false := by
    intro b inside none good
    obtain ⟨i,reads,_⟩ := all b inside good
    refine ⟨i,reads,?_⟩
    by_contra valid
    exact none ⟨i,inside,good,by rw [reads]; rfl,by simpa using valid⟩
  rcases least_or_none (fun b => ∃ i, Usable bad cells b i) envBlkLength with
    none | ⟨n,inside,⟨i,usable⟩,first⟩
  · obtain ⟨i,reads,bad8⟩ := invalid (envBlkLength - 1) (by decide) (none _ (by decide)) last
    obtain ⟨buf',past⟩ := past_run (c := envBlkLength) (n := envBlkLength - 1) (.inr rfl) (by decide) 0 (Nat.zero_le _) (fun k _ high good => by
        obtain ⟨i,reads,invalid⟩ := invalid k (by omega) (none k (by omega)) good
        exact ⟨i,reads,.inr invalid⟩) buf
    obtain ⟨ends,reads⟩ := scan_ends (by decide) last reads bad8
      (show envBlkLength + (envBlkLength - 1) + 1 = envBlkLength * 2 by decide)
    refine ⟨past.inside reads (by decide),.inr ⟨?_,?_⟩⟩
    · exact fun b i usable => none b usable.inside ⟨i,usable⟩
    · exact past.1 ▸ ends
  · obtain ⟨j,reads,_⟩ := all n inside usable.good
    obtain rfl : j = i := by
      have := usable.reads
      rw [reads] at this
      exact Option.some.inj this
    obtain ⟨buf',past⟩ := past_run (c := envBlkLength) (.inr rfl) inside 0 (Nat.zero_le _) (fun k _ high good => by
        obtain ⟨i,reads,invalid⟩ := invalid k (by omega) (first k high) good
        exact ⟨i,reads,.inr invalid⟩) buf
    obtain ⟨takes,ends⟩ := scan_takes inside usable.good reads usable.valid
      (show envBlkLength + n < envBlkLength * 2 by omega) (by omega)
    rw [Nat.add_mod_left,Nat.mod_eq_of_lt inside] at takes
    exact ⟨past.inside ends inside,.inl ⟨n,j,usable,past.1.trans takes⟩⟩

theorem exact_of_result (inside : ∀ b ∈ scanReads bad cells 0 0 buf, b < envBlkLength)
    (result : (∃ b i, Usable bad cells b i ∧ envInit bad cells buf = (some b, i)) ∨
      ((∀ b i, ¬ Usable bad cells b i) ∧ (envInit bad cells buf).1 = none)) :
    Exact bad cells buf := by
  rcases result with ⟨b,i,usable,eq⟩ | ⟨none,eq⟩
  · refine ⟨inside,iff_of_true (by rw [eq]; rfl) ⟨b,i,usable⟩,?_⟩
    intro b' found
    rw [eq] at found ⊢
    cases found
    exact usable
  · refine ⟨inside,iff_of_false (by simp [eq]) ?_,by simp [eq]⟩
    rintro ⟨b,i,usable⟩
    exact none b i usable

theorem all_skipped (all : ∀ b < envBlkLength, bad b = false → Skipped (cells b)) (buf : Image) :
    Exact bad cells buf ↔ bad (envBlkLength - 1) = false := by
  cases last : bad (envBlkLength - 1) with
  | true =>
    apply iff_of_false _ (by simp)
    intro exact
    exact Nat.lt_irrefl _ (exact.inside _ (reads_beyond all last buf))
  | false =>
    apply iff_of_true _ rfl
    obtain ⟨buf',past⟩ := past_all all buf
    obtain ⟨i,reads,skip⟩ := all (envBlkLength - 1) (by decide) last
    have turn : Past bad cells (envBlkLength - 1) (envBlkLength - 1) buf' 0 envBlkLength i := by
      apply past_read (by decide) last reads
      rcases skip with erased | invalid
      · exact .inl ⟨erased,by decide⟩
      · exact .inr ⟨invalid,by decide⟩
    obtain ⟨same,read,reads,inside⟩ := past.trans turn
    obtain ⟨inside',result⟩ := second_pass all last i
    apply exact_of_result
    · rw [reads]
      intro b hb
      exact (List.mem_append.mp hb).elim (inside b) (inside' b)
    · rw [envInit,same]
      exact result

/-- The scan of `env_init` is exact if and only if the blocks are `Scannable`. -/
theorem envInit_exact (bad : Nat → Bool) (cells : Nat → Cell) (buf : Image) :
    Exact bad cells buf ↔ Scannable bad cells := by
  rcases first_stop bad cells with all | ⟨b, inside, good, stop, first⟩
  · rw [all_skipped all]
    refine ⟨fun last => ⟨?_, fun _ => last⟩, fun h => h.last all⟩
    intro b inside good fails
    obtain ⟨i, reads, _⟩ := all b inside good
    exact absurd reads (fails i)
  have notAll : ¬ ∀ b < envBlkLength, bad b = false → Skipped (cells b) :=
    fun all => stop (all b inside good)
  obtain ⟨buf', past⟩ := past_first inside 0 (Nat.zero_le _) (fun k _ => first k) buf
  have small : b < envBlkLength * 2 := by omega
  rcases not_skipped stop with ⟨i, reads, seen, valid⟩ | fails
  · obtain ⟨takes, ends⟩ := scan_takes inside good reads valid small
      fun erased => seen erased.1
    rw [Nat.mod_eq_of_lt inside] at takes
    refine iff_of_true (exact_of_result (past.inside ends inside) (.inl ⟨b, i, ?_, ?_⟩)) ⟨?_, ?_⟩
    · exact ⟨inside, good, by rw [reads]; rfl, valid⟩
    · exact past.1.trans takes
    · intro a _ good' fails before
      rcases Nat.lt_trichotomy a b with lt | rfl | gt
      · obtain ⟨i, reads, _⟩ := first a lt good'
        exact absurd reads (fails i)
      · exact absurd reads (fails i)
      · exact absurd (before b gt good) stop
    · exact fun all => absurd all notAll
  · obtain ⟨stopped, ends⟩ := scan_stops inside good fails small
    have none : (envInit bad cells buf).1 = none := by
      rw [envInit, past.1, stopped]
    constructor
    · intro exact
      have unusable : ∀ c i, ¬ Usable bad cells c i := by
        intro c i usable
        have := exact.returns.mpr ⟨c, i, usable⟩
        rw [none] at this
        cases this
      exact ⟨fun _ _ _ _ _ => unusable, fun all => absurd all notAll⟩
    · intro h
      exact exact_of_result (past.inside ends inside)
        (.inr ⟨h.stops b inside good fails first, none⟩)

/-- Only the first block holds an environment, and it was corrected while it was read. -/
def flipped (b : Nat) : Cell := if b = 0 then .corrected (image []) else erased 0

/-- Corrected bit flips hide an environment. -/
theorem scan_inexact :
    (Usable (fun _ => false) flipped 0 (image []) ∧
      ∀ buf, (envInit (fun _ => false) flipped buf).1 = none) ∧
    ∀ buf, envBlkLength ∈ scanReads (fun b => b == 8) (fun _ => erased 0) 0 0 buf := by
  refine ⟨⟨⟨by decide, rfl, rfl, image_valid []⟩, fun buf => ?_⟩, fun buf => ?_⟩
  · exact (scan_stops (by decide) rfl (by simp [flipped]) (by decide)).1
  · exact reads_beyond (fun _ _ _ => erased_skipped 0) rfl buf

end Apc8750.NandEnv
