import Apc8750.Nand.Walk

namespace Apc8750.Nand
open Spans

variable {g : Geometry} {bad : Nat → Bool} {cmd : Cmd} {t : Transfer} {flash want : Bytes}
  {ps : List (Nat × Nat)} {b d ofs len base start lo lo' i : Nat}

def bytes : List (Nat × Nat) → Nat
  | [] => 0
  | p :: ps => p.2 + bytes ps

@[simp] theorem bytes_nil : bytes [] = 0 := rfl

@[simp]
theorem bytes_cons (p : Nat × Nat) (ps : List (Nat × Nat)) : bytes (p :: ps) = p.2 + bytes ps := rfl

theorem bytes_append (ps : List (Nat × Nat)) (p : Nat × Nat) :
    bytes (ps ++ [p]) = bytes ps + p.2 := by
  induction ps with
  | nil => rw [List.nil_append,bytes_cons,bytes_nil,Nat.zero_add,Nat.add_zero]
  | cons q ps ih => rw [List.cons_append,bytes_cons,ih,bytes_cons,Nat.add_assoc]

theorem moves_append (g : Geometry) (cmd : Cmd) (ps : List (Nat × Nat)) (start n base : Nat)
    (t : Transfer) :
    moves g cmd (ps ++ [(start,n)]) base t =
      moved g cmd (base + bytes ps) start n (moves g cmd ps base t) := by
  induction ps generalizing base t with
  | nil => rfl
  | cons p ps ih =>
    rw [List.cons_append,moves,moves,ih,bytes_cons,Nat.add_assoc]

structure Fits (g : Geometry) (p : Nat × Nat) : Prop where
  aligned : p.1 % g.oobblock = 0
  pos : 0 < p.2
  inside : p.1 + p.2 ≤ g.totlen

theorem Fits.wrapped (h : Fits g p) : (p.1 + p.2) % 2 ^ 32 ≤ g.totlen :=
  Nat.le_trans (Nat.mod_le _ _) h.inside

def Rising : Nat → List (Nat × Nat) → Prop
  | _, [] => True
  | lo, (start, n) :: rest => lo ≤ start ∧ Rising (start + n) rest

theorem Rising.weaken (h : Rising lo ps) (le : lo' ≤ lo) : Rising lo' ps := by
  cases ps with
  | nil => trivial
  | cons p ps => exact ⟨Nat.le_trans le h.1,h.2⟩

/-- The flash has the bytes of a memory from `base` on in its parts. -/
def Holds (flash want : Bytes) : Nat → List (Nat × Nat) → Prop
  | _, [] => True
  | base, (start, n) :: rest =>
    (∀ k < n, flash (start + k) = want (base + k)) ∧ Holds flash want (base + n) rest

theorem moves_reads (reads : cmd.reads = true) (fits : ∀ p ∈ ps, Fits g p) (base : Nat)
    (t : Transfer) :
    (moves g cmd ps base t).flash = t.flash ∧
      (moves g cmd ps base t).reach ≤ max t.reach (base + bytes ps) ∧
      ∀ i < base, (moves g cmd ps base t).buf i = t.buf i := by
  induction ps generalizing base t with
  | nil => exact ⟨rfl,Nat.le_max_left _ _,fun _ _ => rfl⟩
  | cons p ps ih =>
    have part := fits p (List.mem_cons_self ..)
    obtain ⟨x,eq⟩ := moved_reads base t reads part.pos part.wrapped
    obtain ⟨same,reach,kept⟩ := ih (fun q mem => fits q (List.mem_cons_of_mem _ mem))
      (base + p.2) (moved g cmd base p.1 p.2 t)
    have near : (moved g cmd base p.1 p.2 t).reach = max t.reach (base + p.2) := by rw [eq]
    rw [bytes_cons]
    refine ⟨same.trans (by rw [eq]),Nat.le_trans reach (by omega),fun i low => ?_⟩
    refine (kept i (by omega)).trans ?_
    rw [eq]
    exact blit_of_lt low

theorem moves_reads_holds (reads : cmd.reads = true) (fits : ∀ p ∈ ps, Fits g p)
    (base : Nat) (t : Transfer) (holds : Holds t.flash want base ps) (low : base ≤ i)
    (high : i < base + bytes ps) : (moves g cmd ps base t).buf i = want i := by
  induction ps generalizing base t with
  | nil =>
    rw [bytes_nil] at high
    omega
  | cons p ps ih =>
    have part := fits p (List.mem_cons_self ..)
    have rest := fun q mem => fits q (List.mem_cons_of_mem p mem)
    obtain ⟨x,eq⟩ := moved_reads base t reads part.pos part.wrapped
    rcases Nat.lt_or_ge i (base + p.2) with here | later
    · refine ((moves_reads reads rest (base + p.2) _).2.2 i here).trans ?_
      obtain ⟨k,rfl⟩ := Nat.exists_eq_add_of_le low
      have inside : k < p.2 := by omega
      rw [eq]
      exact (blit_at inside).trans (holds.1 k inside)
    · rw [bytes_cons] at high
      refine ih rest (base + p.2) (moved g cmd base p.1 p.2 t) ?_ later (by omega)
      rw [eq]
      exact holds.2

def Whole (g : Geometry) (n : Nat) : Prop :=
  n % g.oobblock = 0 ∨ g.oobblock < 8192 ∧ n < g.oobblock

theorem Whole.written (h : Whole g n) : written g n = n := by
  rcases h with pages | short
  · exact written_whole pages
  · exact written_short short.2

theorem Whole.size (h : Whole g n) (pos : 0 < n) : g.oobblock < 8192 ∨ g.oobblock ≤ n := by
  rcases h with pages | short
  · exact .inr (Nat.le_of_dvd pos (Nat.dvd_of_mod_eq_zero pages))
  · exact .inl short.1

theorem moves_writes (writes : cmd.reads = false) (fits : ∀ p ∈ ps, Fits g p)
    (whole : ∀ p ∈ ps, Whole g p.2) (rising : Rising lo ps) (base : Nat) (t : Transfer) :
    (moves g cmd ps base t).buf = t.buf ∧
      (moves g cmd ps base t).reach ≤ max t.reach (base + bytes ps) ∧
      (∀ a < lo, (moves g cmd ps base t).flash a = t.flash a) ∧
      Holds (moves g cmd ps base t).flash t.buf base ps := by
  induction ps generalizing base t lo with
  | nil => exact ⟨rfl,Nat.le_max_left _ _,fun _ _ => rfl,trivial⟩
  | cons p ps ih =>
    have part := fits p (List.mem_cons_self ..)
    have all := whole p (List.mem_cons_self ..)
    obtain ⟨x,eq⟩ := moved_writes base t writes part.aligned part.pos part.wrapped
      (all.size part.pos)
    rw [all.written] at eq
    obtain ⟨same,reach,kept,holds⟩ := ih (fun q mem => fits q (List.mem_cons_of_mem _ mem))
      (fun q mem => whole q (List.mem_cons_of_mem _ mem)) rising.2 (base + p.2)
      (moved g cmd base p.1 p.2 t)
    have near : (moved g cmd base p.1 p.2 t).reach = max t.reach (base + p.2) := by rw [eq]
    have source : (moved g cmd base p.1 p.2 t).buf = t.buf := by rw [eq]
    rw [bytes_cons]
    refine ⟨same.trans source,Nat.le_trans reach (by omega),fun a low => ?_,
      fun k inside => ?_,source ▸ holds⟩
    · have below : a < p.1 := Nat.lt_of_lt_of_le low rising.1
      refine (kept a (by omega)).trans ?_
      rw [eq]
      exact blit_of_lt below
    · refine (kept (p.1 + k) (Nat.add_lt_add_left inside _)).trans ?_
      rw [eq]
      exact blit_at inside

theorem moves_writes_behind (writes : cmd.reads = false) (fits : ∀ p ∈ ps, Fits g p)
    (pages : ∀ p ∈ ps, p.2 % g.oobblock = 0) (behind : ∀ p ∈ ps, p.1 + p.2 ≤ a) (base : Nat)
    (t : Transfer) : (moves g cmd ps base t).flash a = t.flash a := by
  induction ps generalizing base t with
  | nil => rfl
  | cons p ps ih =>
    have part := fits p (List.mem_cons_self ..)
    have all : Whole g p.2 := .inl (pages p (List.mem_cons_self ..))
    obtain ⟨x,eq⟩ := moved_writes base t writes part.aligned part.pos part.wrapped
      (all.size part.pos)
    refine (ih (fun q mem => fits q (List.mem_cons_of_mem _ mem))
      (fun q mem => pages q (List.mem_cons_of_mem _ mem))
      (fun q mem => behind q (List.mem_cons_of_mem _ mem)) (base + p.2) _).trans ?_
    rw [eq,all.written]
    exact blit_of_ge (behind p (List.mem_cons_self ..))

theorem Rising.behind (h : Rising lo (ps ++ [(last,n)])) :
    lo ≤ last ∧ ∀ p ∈ ps, p.1 + p.2 ≤ last := by
  induction ps generalizing lo with
  | nil => exact ⟨h.1,by simp⟩
  | cons p ps ih =>
    obtain ⟨le,rest⟩ := ih h.2
    refine ⟨Nat.le_trans h.1 (by omega),fun q mem => ?_⟩
    rcases List.mem_cons.mp mem with rfl | mem
    · exact le
    · exact rest q mem

def lastPart (g : Geometry) (ofs len : Nat) : Nat :=
  if ofs + len ≤ g.erasesize then len else (ofs + len - 1) % g.erasesize + 1

theorem lastPart_next (inside : ofs < g.erasesize) (next : g.erasesize - ofs < len) :
    lastPart g 0 (len - (g.erasesize - ofs)) = lastPart g ofs len := by
  unfold lastPart
  rw [Nat.zero_add,if_neg (show ¬ofs + len ≤ g.erasesize by omega)]
  have split : ofs + len - 1 = len - (g.erasesize - ofs) - 1 + g.erasesize := by omega
  rw [split,Nat.add_mod_right]
  by_cases last : len - (g.erasesize - ofs) ≤ g.erasesize
  · rw [if_pos last,Nat.mod_eq_of_lt (by omega)]
    omega
  · rw [if_neg last]

theorem erasesize_mod (g : Geometry) : g.erasesize % g.oobblock = 0 := Nat.mul_mod_left _ _

theorem block_mod (b : Nat) (h : ofs % g.oobblock = 0) :
    (b * g.erasesize + ofs) % g.oobblock = 0 := by
  rw [Nat.add_mod,Nat.mul_mod,erasesize_mod,Nat.mul_zero,Nat.zero_mod,h,Nat.zero_mod]

theorem rest_mod (h : ofs % g.oobblock = 0) : (g.erasesize - ofs) % g.oobblock = 0 :=
  Nat.mod_eq_zero_of_dvd (Nat.dvd_sub (Nat.dvd_of_mod_eq_zero (erasesize_mod g))
    (Nat.dvd_of_mod_eq_zero h))

structure Split (g : Geometry) (lo ofs len : Nat) (ps init : List (Nat × Nat)) (start : Nat) :
    Prop where
  eq : ps = init ++ [(start, lastPart g ofs len)]
  bytes : bytes init + lastPart g ofs len = len
  fits : ∀ p ∈ ps, Fits g p
  pages : ∀ p ∈ init, p.2 % g.oobblock = 0
  rising : Rising lo ps

theorem parts_split (aligned : ofs % g.oobblock = 0) (inside : ofs < g.erasesize)
    (all : b + d = g.dwBlockCount) (more : 0 < len)
    (enough : ofs + len ≤ goodFrom bad b d * g.erasesize) :
    ∃ init start, Split g (b * g.erasesize) ofs len (parts g bad d b ofs len) init start := by
  induction d generalizing b ofs len with
  | zero =>
    rw [goodFrom,List.range'_zero,List.countP_nil,Nat.zero_mul] at enough
    omega
  | succ d ih =>
    have low : b < g.dwBlockCount := by omega
    have blockEnd := block_end_le low
    rw [goodFrom_succ] at enough
    by_cases hbad : bad b = true
    · rw [if_pos hbad,Nat.add_zero] at enough
      rw [parts,if_pos hbad]
      obtain ⟨init,start,h⟩ := ih aligned inside (by omega) more enough
      refine ⟨init,start,{ h with rising := h.rising.weaken ?_ }⟩
      exact Nat.mul_le_mul_right _ (Nat.le_succ b)
    rw [if_neg hbad,Nat.succ_mul] at enough
    rw [parts,if_neg hbad]
    by_cases last : len ≤ g.erasesize - ofs
    · have length : lastPart g ofs len = len := if_pos (by omega)
      rw [if_pos last]
      refine ⟨[],b * g.erasesize + ofs,?_,?_,?_,by simp,Nat.le_add_right _ _,trivial⟩
      · rw [length,List.nil_append]
      · rw [length,bytes_nil,Nat.zero_add]
      · intro p mem
        rw [List.mem_singleton.mp mem]
        exact ⟨block_mod b aligned,more,by dsimp only; omega⟩
    have next : g.erasesize - ofs < len := Nat.lt_of_not_le last
    rw [if_neg last]
    have all' : b + 1 + d = g.dwBlockCount := by omega
    obtain ⟨init,start,h⟩ := ih (Nat.zero_mod g.oobblock) (erasesize_pos g) all'
      (Nat.sub_pos_of_lt next) (by omega)
    have sum := h.bytes
    rw [lastPart_next inside next] at sum
    refine ⟨(b * g.erasesize + ofs, g.erasesize - ofs) :: init,start,?_,?_,?_,?_,
      Nat.le_add_right _ _,h.rising.weaken ?_⟩
    · rw [h.eq,lastPart_next inside next,List.cons_append]
    · rw [bytes_cons]
      omega
    · intro p mem
      rcases List.mem_cons.mp mem with rfl | mem
      · exact ⟨block_mod b aligned,Nat.sub_pos_of_lt inside,by dsimp only; omega⟩
      · exact h.fits p mem
    · intro p mem
      rcases List.mem_cons.mp mem with rfl | mem
      · exact rest_mod aligned
      · exact h.pages p mem
    · rw [Nat.succ_mul]
      omega

def Returns (g : Geometry) (bad : Nat → Bool) (cmd : Cmd) (start len : Nat) (t : Transfer)
    (result : Nat × Nat × Transfer) : Prop :=
  ∃ fuel, nandRw g bad cmd fuel start len t = some result

theorem Ends.returns (h : Ends g bad cmd (.entry start len t) r) :
    Returns g bad cmd start len t (r.ret.toNat, r.total, r.mem) := by
  obtain ⟨fuel,eq⟩ := h
  exact ⟨fuel,by rw [nandRw,eq]; rfl⟩

theorem Ends.result {r : Rw} {result : Nat × Nat × Transfer}
    (h : Ends g bad cmd (.entry start len t) r)
    (returns : Returns g bad cmd start len t result) :
    result = (r.ret.toNat, r.total, r.mem) := by
  obtain ⟨fuel,eq⟩ := returns
  obtain ⟨r',ends,same⟩ := Option.map_eq_some_iff.mp eq
  rw [← same,Ends.unique ⟨fuel,ends⟩ h]

def Agrees (g : Geometry) (bad map : Nat → Bool) : Prop := ∀ b < g.dwBlockCount, map b = bad b

structure FirstBad (g : Geometry) (bad : Nat → Bool) (start len c : Nat) : Prop where
  low : c < g.dwBlockCount
  isBad : bad c = true
  behind : start / g.erasesize ≤ c
  range : c * g.erasesize < start + len
  first : ∀ x, start / g.erasesize ≤ x → x < c → bad x = false

structure AsCommented (g : Geometry) (bad : Nat → Bool) (start len : Nat) : Prop where
  skips : ∀ cmd map t, cmd.skips = true → Agrees g bad map → t.reach = 0 →
    ∃ u, Returns g map cmd start len t (0, len, u) ∧ u.reach ≤ len
  roundTrip : ∀ map t u v buf, Agrees g bad map →
    Returns g map .writeSkip start len t (0, len, u) →
    Returns g map .readSkip start len { u with buf } (0, len, v) → ∀ i < len, v.buf i = t.buf i
  fills : ∀ map t, Agrees g bad map → t.reach = 0 →
    ∃ u, Returns g map .readFill start len t (0, len, u) ∧ u.reach ≤ len ∧
      ∀ i < len, u.buf i = shown g bad t.flash (start + i)
  stops : ∀ cmd map t c, cmd = .read ∨ cmd = .write → Agrees g bad map →
    FirstBad g bad start len c →
    ∃ u, Returns g map cmd start len t (1, c * g.erasesize - start, u)

/-- The good blocks have room for the range, behind its offset in the first. -/
def Enough (g : Geometry) (bad : Nat → Bool) (start len : Nat) : Prop :=
  start % g.erasesize + len ≤
    goodFrom bad (start / g.erasesize) (g.dwBlockCount - start / g.erasesize) * g.erasesize

/-- There are enough good blocks, whole pages or a small last part, and the last byte is in a good
block. -/
structure Sound (g : Geometry) (bad : Nat → Bool) (start len : Nat) : Prop where
  enough : Enough g bad start len
  pages : len % g.oobblock = 0 ∨
    g.oobblock < 8192 ∧ lastPart g (start % g.erasesize) len < g.oobblock
  ending : bad ((start + len - 1) / g.erasesize) = false

theorem goodFrom_agrees (h : Agrees g bad map) (le : b + d ≤ g.dwBlockCount) :
    goodFrom map b d = goodFrom bad b d := by
  unfold goodFrom
  apply List.countP_congr
  intro c mem
  rw [List.mem_range'_1] at mem
  rw [h c (by omega)]

theorem offset_mod (aligned : start % g.oobblock = 0) :
    start % g.erasesize % g.oobblock = 0 := by
  rw [Nat.mod_mod_of_dvd _ (Nat.dvd_of_mod_eq_zero (erasesize_mod g)),aligned]

theorem Enough.inside (h : Enough g bad start len) (pos : 0 < len) :
    start / g.erasesize < g.dwBlockCount ∧ start + len ≤ g.totlen := by
  have few : goodFrom bad (start / g.erasesize) (g.dwBlockCount - start / g.erasesize) ≤
      g.dwBlockCount - start / g.erasesize := by
    have := List.countP_le_length (p := fun c => !bad c)
      (l := List.range' (start / g.erasesize) (g.dwBlockCount - start / g.erasesize))
    rwa [List.length_range'] at this
  have capacity := Nat.le_trans h (Nat.mul_le_mul_right g.erasesize few)
  rw [Nat.sub_mul,show g.dwBlockCount * g.erasesize = g.totlen from rfl] at capacity
  have split := Nat.div_add_mod' start g.erasesize
  have inside : start + len ≤ g.totlen := by omega
  refine ⟨?_,inside⟩
  rw [Nat.div_lt_iff_lt_mul (erasesize_pos g)]
  exact Nat.lt_of_lt_of_le (Nat.lt_add_of_pos_right pos) inside

theorem Enough.agrees (h : Enough g bad start len) (pos : 0 < len) (agrees : Agrees g bad map) :
    Enough g map start len := by
  have low := (h.inside pos).1
  unfold Enough
  rwa [goodFrom_agrees agrees (by omega)]

def rangeParts (g : Geometry) (bad : Nat → Bool) (start len : Nat) : List (Nat × Nat) :=
  parts g bad (g.dwBlockCount - start / g.erasesize) (start / g.erasesize)
    (start % g.erasesize) len

theorem Enough.moves (h : Enough g bad start len) (skips : cmd.skips = true) (t : Transfer)
    (pos : 0 < len) :
    ∃ r, Ends g bad cmd (.entry start len t) r ∧ r.ret = false ∧ r.total = len ∧
      r.mem = Nand.moves g cmd (rangeParts g bad start len) 0 t := by
  have low := (h.inside pos).1
  obtain ⟨r,ends,ret,total,mem⟩ := skip_ends skips (.entry g start len t) (by omega) pos h
  exact ⟨r,ends,ret,total.trans (Nat.zero_add len),mem⟩

theorem Enough.split (h : Enough g bad start len) (aligned : start % g.oobblock = 0)
    (pos : 0 < len) :
    ∃ init last, Split g (start / g.erasesize * g.erasesize) (start % g.erasesize) len
      (rangeParts g bad start len) init last := by
  have low := (h.inside pos).1
  exact parts_split (offset_mod aligned) (Nat.mod_lt _ (erasesize_pos g)) (by omega) pos h

namespace Split

variable {init : List (Nat × Nat)} {last : Nat}

section
variable (h : Split g lo ofs len ps init last)
include h

theorem bytes_eq : Nand.bytes ps = len := by
  rw [h.eq,bytes_append]
  exact h.bytes

theorem init_mod : Nand.bytes init % g.oobblock = 0 := by
  have pages := h.pages
  generalize init = qs at pages
  induction qs with
  | nil => exact Nat.zero_mod _
  | cons p qs ih =>
    rw [bytes_cons,Nat.add_mod,pages p (List.mem_cons_self ..),
      ih fun q mem => pages q (List.mem_cons_of_mem _ mem),Nat.zero_mod]

theorem last_mod :
    lastPart g ofs len % g.oobblock = len % g.oobblock := by
  conv => rhs; rw [← h.bytes,Nat.add_mod,h.init_mod,Nat.zero_add,Nat.mod_mod]

theorem last_fits : Fits g (last, lastPart g ofs len) :=
  h.fits _ (by rw [h.eq]; simp)

theorem init_fits : ∀ p ∈ init, Fits g p :=
  fun p mem => h.fits p (by rw [h.eq]; exact List.mem_append_left _ mem)

theorem whole (pages : len % g.oobblock = 0 ∨ g.oobblock < 8192 ∧ lastPart g ofs len < g.oobblock) :
    ∀ p ∈ ps, Whole g p.2 := by
  intro p mem
  rw [h.eq,List.mem_append,List.mem_singleton] at mem
  rcases mem with mem | rfl
  · exact .inl (h.pages p mem)
  · rw [← h.last_mod] at pages
    exact pages

end

end Split

theorem stops_as_commented (start len : Nat) (pos : 0 < len) (map : Nat → Bool) (t : Transfer)
    (c : Nat) (stops : cmd = .read ∨ cmd = .write) (agrees : Agrees g bad map)
    (h : FirstBad g bad start len c) :
    ∃ u, Returns g map cmd start len t (1, c * g.erasesize - start, u) := by
  have isBad : map c = true := by rw [agrees c h.low,h.isBad]
  obtain ⟨r,ends,ret,total⟩ := stop_ends stops h.low isBad (.entry g start len t) h.behind
    (fun x low high => by rw [agrees x (Nat.lt_trans high h.low),h.first x low high])
    h.range pos
  have result := ends.returns
  rw [ret,total,show (Rw.entry start len t).total = 0 from rfl,Nat.zero_add] at result
  exact ⟨r.mem,result⟩

theorem shown_agrees (agrees : Agrees g bad map) (inside : a < g.totlen) (flash : Bytes) :
    shown g map flash a = shown g bad flash a := by
  unfold shown
  rw [agrees _ ((Nat.div_lt_iff_lt_mul (erasesize_pos g)).mpr inside)]

theorem Sound.commented (h : Sound g bad start len) (aligned : start % g.oobblock = 0)
    (pos : 0 < len) : AsCommented g bad start len where
  skips := by
    intro cmd map t skips agrees reach
    have enough := h.enough.agrees pos agrees
    obtain ⟨r,ends,ret,total,mem⟩ := enough.moves skips t pos
    obtain ⟨init,last,split⟩ := enough.split aligned pos
    have result := ends.returns
    rw [ret,total] at result
    refine ⟨r.mem,result,?_⟩
    have near : r.mem.reach ≤ max t.reach (0 + bytes (rangeParts g map start len)) := by
      rw [mem]
      by_cases reads : cmd.reads = true
      · exact (moves_reads reads split.fits 0 t).2.1
      · exact (moves_writes (by simpa using reads) split.fits (split.whole h.pages) split.rising
          0 t).2.1
    rw [split.bytes_eq] at near
    omega
  roundTrip := by
    intro map t u v buf agrees wrote read i hi
    have enough := h.enough.agrees pos agrees
    obtain ⟨init,last,split⟩ := enough.split aligned pos
    obtain ⟨r,ends,-,-,mem⟩ := enough.moves (rfl : Cmd.skips .writeSkip = true) t pos
    have hu : u = r.mem := congrArg (·.2.2) (ends.result wrote)
    subst hu
    obtain ⟨q,ends',-,-,mem'⟩ := enough.moves (rfl : Cmd.skips .readSkip = true)
      { r.mem with buf } pos
    have hv : v = q.mem := congrArg (·.2.2) (ends'.result read)
    have holds := (moves_writes (rfl : Cmd.reads .writeSkip = false) split.fits
      (split.whole h.pages) split.rising 0 t).2.2.2
    rw [← mem] at holds
    rw [hv,mem']
    refine moves_reads_holds rfl split.fits 0 _ holds (Nat.zero_le i) ?_
    rw [split.bytes_eq,Nat.zero_add]
    exact hi
  fills := by
    intro map t agrees reach
    obtain ⟨low,inside⟩ := h.enough.inside pos
    obtain ⟨r,ends,ret,total,near,read⟩ := fill_ends map (.entry g start len t) inside pos
    have top : (start + len - 1) / g.erasesize < g.dwBlockCount :=
      (Nat.div_lt_iff_lt_mul (erasesize_pos g)).mpr (show start + len - 1 < g.totlen by omega)
    have result := ends.returns
    rw [ret,total,show (Rw.entry start len t).total = 0 from rfl,Nat.zero_add] at result
    dsimp only [Rw.entry] at near read result
    rw [agrees _ top,h.ending] at result
    refine ⟨r.mem,result,by omega,fun i hi => ?_⟩
    rw [read,← shown_agrees agrees (by omega)]
    conv => lhs; rw [← Nat.zero_add i]
    exact blit_at hi
  stops := fun cmd map t c stops agrees first =>
    stops_as_commented start len pos map t c stops agrees first

section Converse

variable (h : AsCommented g bad start len) (aligned : start % g.oobblock = 0) (pos : 0 < len)

def clear (g : Geometry) (bad : Nat → Bool) : Nat → Bool :=
  fun b => if b < g.dwBlockCount then bad b else false

theorem agrees_clear (g : Geometry) (bad : Nat → Bool) : Agrees g bad (clear g bad) :=
  fun _ low => if_pos low

def zeros : Transfer := ⟨fun _ => 0, fun _ => 0, fun _ => 1, 0⟩

include h pos in
theorem AsCommented.enough (inside : start < g.totlen) (room : g.totlen + g.erasesize < 2 ^ 32) :
    Enough g bad start len := by
  have low : start / g.erasesize < g.dwBlockCount :=
    (Nat.div_lt_iff_lt_mul (erasesize_pos g)).mpr inside
  by_contra few
  unfold Enough at few
  rw [← goodFrom_agrees (agrees_clear g bad) (by omega)] at few
  obtain ⟨u,returns,-⟩ := h.skips .readSkip (clear g bad) zeros rfl (agrees_clear g bad) rfl
  obtain ⟨r,ends,ret⟩ := skip_fails (rfl : Cmd.skips .readSkip = true) room
    (if_neg (Nat.lt_irrefl _)) (.entry g start len zeros) (by omega) pos (Nat.lt_of_not_le few)
  have same := congrArg Prod.fst (ends.result returns)
  rw [ret] at same
  cases same

include h aligned pos in
theorem AsCommented.pages (enough : Enough g bad start len) : len % g.oobblock = 0 ∨
      g.oobblock < 8192 ∧ lastPart g (start % g.erasesize) len < g.oobblock := by
  by_contra not
  obtain ⟨part,short⟩ := not_or.mp not
  obtain ⟨init,last,split⟩ := enough.split aligned pos
  have fits := split.last_fits
  have sum := split.bytes
  rw [← split.last_mod] at part
  obtain ⟨r,ends,ret,total,mem⟩ := enough.moves (rfl : Cmd.skips .writeSkip = true) zeros pos
  rw [split.eq,moves_append] at mem
  by_cases pages : g.oobblock ≤ lastPart g (start % g.erasesize) len
  · -- a whole page is taken for the rest of the last part
    obtain ⟨u,returns,reach⟩ := h.skips .writeSkip bad zeros rfl (fun _ _ => rfl) rfl
    have same : u = r.mem := congrArg (·.2.2) (ends.result returns)
    obtain ⟨x,eq⟩ := moved_writes (0 + bytes init) (moves g .writeSkip init 0 zeros)
      (rfl : Cmd.reads .writeSkip = false) fits.aligned fits.pos fits.wrapped (.inr pages)
    rw [same,mem,eq] at reach
    have more := lt_written pages part
    dsimp only at reach
    omega
  · -- the halves of the last part go to the halves of the page
    have large : ¬g.oobblock < 8192 := fun small => short ⟨small,Nat.lt_of_not_le pages⟩
    have rising := split.rising
    rw [split.eq] at rising
    have middle : r.mem.flash (last + lastPart g (start % g.erasesize) len / 2) = 0 := by
      rw [mem]
      refine (nandWriteEcc_middle large fits.aligned fits.pos (Nat.lt_of_not_le pages)
        fits.wrapped).trans ?_
      exact moves_writes_behind rfl split.init_fits split.pages
        (fun p mem => Nat.le_trans (rising.behind.2 p mem) (Nat.le_add_right _ _)) 0 zeros
    obtain ⟨q,ends',ret',total',mem'⟩ := enough.moves (rfl : Cmd.skips .readSkip = true)
      { r.mem with buf := fun _ => 0 } pos
    rw [split.eq,moves_append] at mem'
    obtain ⟨x,eq⟩ := moved_reads (0 + bytes init)
      (moves g .readSkip init 0 { r.mem with buf := fun _ => 0 })
      (rfl : Cmd.reads .readSkip = true) fits.pos fits.wrapped
    have read : q.mem.buf (0 + bytes init + lastPart g (start % g.erasesize) len / 2) = 0 := by
      rw [mem',eq]
      refine (blit_at (Nat.div_lt_self fits.pos Nat.one_lt_two)).trans ?_
      rw [(moves_reads rfl split.init_fits 0 _).1]
      exact middle
    have trip := h.roundTrip bad zeros r.mem q.mem (fun _ => 0) (fun _ _ => rfl) ?_ ?_
      (0 + bytes init + lastPart g (start % g.erasesize) len / 2) (by have := fits.pos; omega)
    · rw [read] at trip
      cases trip
    · have result := ends.returns
      rwa [ret,total] at result
    · have result := ends'.returns
      rwa [ret',total'] at result

include h aligned pos in
theorem AsCommented.sound (inside : start < g.totlen) (room : g.totlen + g.erasesize < 2 ^ 32) :
    Sound g bad start len := by
  have enough := h.enough pos inside room
  refine ⟨enough,h.pages aligned pos enough,?_⟩
  obtain ⟨u,returns,-⟩ := h.fills bad zeros (fun _ _ => rfl) rfl
  obtain ⟨r,ends,ret,-⟩ := fill_ends bad (.entry g start len zeros) (enough.inside pos).2 pos
  have same := congrArg Prod.fst (ends.result returns)
  rw [ret] at same
  exact Bool.toNat_eq_zero.mp same.symm

end Converse

/-- A range is moved as the comment says if it is sound, and on a device below 4 GB only
then. -/
theorem transfers_as_commented (g : Geometry) (bad : Nat → Bool) (start len : Nat)
    (aligned : start % g.oobblock = 0) (pos : 0 < len) :
    (Sound g bad start len → AsCommented g bad start len) ∧
      (start < g.totlen → g.totlen + g.erasesize < 2 ^ 32 → AsCommented g bad start len →
        Sound g bad start len) :=
  ⟨fun sound => sound.commented aligned pos,
    fun inside room commented => commented.sound aligned pos inside room⟩

def tiny : Geometry := ⟨4, 2, 4, by decide, by decide, by decide, by decide⟩

def secondBad : Nat → Bool := fun b => b == 1

theorem transfers_as_commented_tiny :
    Sound tiny secondBad 0 18 ∧ AsCommented tiny secondBad 0 18 := by
  have sound : Sound tiny secondBad 0 18 :=
    ⟨by unfold Enough; decide, .inr (by decide), by decide⟩
  exact ⟨sound, (transfers_as_commented tiny secondBad 0 18 (by decide) (by decide)).1 sound⟩

/-- The end in a bad block, inside a page, and too few blocks. -/
theorem comment_not_kept :
    (nandRw tiny secondBad .readFill 8 0 16 zeros).map (fun r => (r.1, r.2.1)) = some (1, 16) ∧
      (nandRw tiny secondBad .writeSkip 8 0 6 zeros).map (fun r => r.2.2.reach) = some 8 ∧
      (nandRw tiny secondBad .readSkip 8 8 20 zeros).map (fun r => (r.1, r.2.1)) =
        some (1, 16) := by
  decide

end Apc8750.Nand
