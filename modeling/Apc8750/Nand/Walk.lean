import Apc8750.Nand.Parts

namespace Apc8750.Nand
open Spans

variable {g : Geometry} {bad : Nat → Bool} {cmd : Cmd} {s r : Rw} {b c d ofs len : Nat}

def Ends (g : Geometry) (bad : Nat → Bool) (cmd : Cmd) (s r : Rw) : Prop :=
  ∃ fuel, rwLoop g bad cmd fuel s = some r

namespace Ends

theorem done (h : s.len = 0) : Ends g bad cmd s s := ⟨1,by simp [rwLoop,h]⟩

theorem stop (more : 0 < s.len) (h : pass g bad cmd s = .error r) : Ends g bad cmd s r :=
  ⟨1,by simp [rwLoop,h,Nat.ne_of_gt more]⟩

theorem step (more : 0 < s.len) (h : pass g bad cmd s = .ok u) (rest : Ends g bad cmd u r) :
    Ends g bad cmd s r := by
  obtain ⟨fuel,eq⟩ := rest
  exact ⟨fuel + 1,by simp [rwLoop,h,Nat.ne_of_gt more,eq]⟩

theorem unique (h : Ends g bad cmd s r) (h' : Ends g bad cmd s r') : r = r' := by
  obtain ⟨fuel,eq⟩ := h
  obtain ⟨fuel',eq'⟩ := h'
  induction fuel generalizing s fuel' with
  | zero => cases eq
  | succ fuel ih =>
    cases fuel' with
    | zero => cases eq'
    | succ fuel' =>
      unfold rwLoop at eq eq'
      by_cases zero : s.len = 0
      · rw [if_pos zero] at eq eq'
        exact Option.some.inj (eq.symm.trans eq')
      rw [if_neg zero] at eq eq'
      cases round : pass g bad cmd s with
      | error u =>
        simp only [round] at eq eq'
        exact Option.some.inj (eq.symm.trans eq')
      | ok u =>
        simp only [round] at eq eq'
        exact ih eq fuel' eq'

end Ends

theorem erasesize_pos (g : Geometry) : 0 < g.erasesize := Nat.mul_pos g.pages_pos g.page_pos

theorem totlen_le (g : Geometry) : g.totlen ≤ 2 ^ 32 := g.totlen_le

theorem block_end_mul (h : b < c) : b * g.erasesize + g.erasesize ≤ c * g.erasesize := by
  have := Nat.mul_le_mul_right g.erasesize h
  rwa [Nat.succ_mul] at this

theorem block_end_le (h : b < g.dwBlockCount) : b * g.erasesize + g.erasesize ≤ g.totlen :=
  block_end_mul h

structure Enters (g : Geometry) (b ofs : Nat) (s : Rw) : Prop where
  start : s.start = b * g.erasesize + ofs
  inside : ofs < g.erasesize
  fresh : s.eblk ≠ some (b * g.erasesize)

namespace Enters

theorem block (h : Enters g b ofs s) : s.start / g.erasesize = b := by
  rw [h.start,Nat.mul_comm,Nat.mul_add_div (erasesize_pos g),Nat.div_eq_of_lt h.inside,
    Nat.add_zero]

theorem here (h : Enters g b ofs s) : s.here g = b * g.erasesize := by
  rw [Rw.here,h.block]

theorem entry (g : Geometry) (start len : Nat) (t : Transfer) :
    Enters g (start / g.erasesize) (start % g.erasesize) (.entry start len t) :=
  ⟨(Nat.div_add_mod' start g.erasesize).symm,Nat.mod_lt _ (erasesize_pos g),by rintro ⟨⟩⟩

end Enters

theorem eblk_fresh (g : Geometry) (b : Nat) :
    some (b * g.erasesize) ≠ some ((b + 1) * g.erasesize) := by
  intro same
  have := Option.some.inj same
  rw [Nat.succ_mul] at this
  have := erasesize_pos g
  omega

def Rw.part (g : Geometry) (ofs : Nat) (s : Rw) : Nat := min s.len (g.erasesize - ofs)

theorem part_pos (h : Enters g b ofs s) (more : 0 < s.len) : 0 < s.part g ofs := by
  have := h.inside
  unfold Rw.part
  omega

theorem part_le (h : Enters g b ofs s) : s.start + s.part g ofs ≤ b * g.erasesize + g.erasesize := by
  have := h.inside
  rw [h.start]
  unfold Rw.part
  omega

def Rw.behind (g : Geometry) (b n : Nat) (ret : Bool) (mem : Transfer) (s : Rw) : Rw where
  start := (s.start + n) % 2 ^ 32
  len := s.len - n
  total := s.total + n
  eblk := some (b * g.erasesize)
  ret := ret
  mem := mem

theorem Enters.next (h : Enters g b ofs s) (more : g.erasesize - ofs < s.len)
    (below : b * g.erasesize + g.erasesize < 2 ^ 32) (ret : Bool) (mem : Transfer) :
    Enters g (b + 1) 0 (s.behind g b (s.part g ofs) ret mem) := by
  have inside := h.inside
  refine ⟨?_,erasesize_pos g,eblk_fresh g b⟩
  have part : s.part g ofs = g.erasesize - ofs := Nat.min_eq_right (Nat.le_of_lt more)
  have wrap : s.start + s.part g ofs = b * g.erasesize + g.erasesize := by
    rw [part,h.start]
    omega
  rw [Rw.behind,wrap,Nat.mod_eq_of_lt below,Nat.succ_mul,Nat.add_zero]

theorem part_eq (h : Enters g b ofs s) :
    min s.len (s.here g + g.erasesize - s.start) = s.part g ofs := by
  have inside := h.inside
  rw [h.here,h.start,Rw.part,show b * g.erasesize + g.erasesize - (b * g.erasesize + ofs) =
    g.erasesize - ofs by omega]

theorem pass_good (cmd : Cmd) (h : Enters g b ofs s) (good : bad b = false) (low : b < g.dwBlockCount)
    (more : 0 < s.len) :
    pass g bad cmd s = .ok (s.behind g b (s.part g ofs) false
      (moved g cmd s.total s.start (s.part g ofs) s.mem)) := by
  have inside : (s.start + s.part g ofs) % 2 ^ 32 ≤ g.totlen :=
    Nat.le_trans (Nat.mod_le _ _) (Nat.le_trans (part_le h) (block_end_le low))
  unfold pass
  rw [h.here,if_neg h.fresh,h.block,good,if_neg Bool.false_ne_true]
  unfold movePart
  rw [show ({ s with eblk := some (b * g.erasesize), ret := false } : Rw).here g = s.here g from rfl]
  dsimp only
  rw [part_eq h,ecc_inside (part_pos h more) inside]
  rfl

theorem pass_full (cmd : Cmd) (h : Enters g b ofs s) (good : bad b = false)
    (low : b < g.dwBlockCount) (next : g.erasesize - ofs < s.len)
    (below : b * g.erasesize + g.erasesize < 2 ^ 32) :
    ∃ u, pass g bad cmd s = .ok u ∧ Enters g (b + 1) 0 u ∧
      u.len = s.len - (g.erasesize - ofs) ∧ u.total = s.total + (g.erasesize - ofs) ∧
      u.mem = moved g cmd s.total s.start (g.erasesize - ofs) s.mem := by
  have part : s.part g ofs = g.erasesize - ofs := Nat.min_eq_right (Nat.le_of_lt next)
  refine ⟨_,pass_good cmd h good low (by omega),h.next next below _ _,?_⟩
  rw [part]
  exact ⟨rfl,rfl,rfl⟩

theorem pass_outside (cmd : Cmd) (h : Enters g b ofs s) (good : bad b = false)
    (outside : g.totlen < (s.start + s.part g ofs) % 2 ^ 32) :
    ∃ r, pass g bad cmd s = .error r ∧ r.ret = true := by
  unfold pass
  rw [h.here,if_neg h.fresh,h.block,good,if_neg Bool.false_ne_true]
  unfold movePart
  rw [show ({ s with eblk := some (b * g.erasesize), ret := false } : Rw).here g = s.here g from rfl]
  dsimp only
  rw [part_eq h,ecc_outside outside]
  exact ⟨_,rfl,rfl⟩

theorem pass_skip (h : Enters g b ofs s) (hbad : bad b = true) (skips : cmd.skips = true) :
    pass g bad cmd s = .ok { s with
      start := (s.start + g.erasesize) % 2 ^ 32
      eblk := some (b * g.erasesize)
      ret := true } := by
  unfold pass
  rw [h.here,if_neg h.fresh,h.block,if_pos hbad]
  cases cmd with
  | write | read | readFill => cases skips
  | writeSkip | readSkip => rfl

def goodFrom (bad : Nat → Bool) (b d : Nat) : Nat := (List.range' b d).countP fun c => !bad c

theorem goodFrom_succ (bad : Nat → Bool) (b d : Nat) :
    goodFrom bad b (d + 1) = goodFrom bad (b + 1) d + if bad b then 0 else 1 := by
  unfold goodFrom
  rw [List.range'_succ,List.countP_cons]
  cases bad b <;> rfl

/-- The addresses and lengths, without the bad ones of `d` blocks from `b` on. -/
def parts (g : Geometry) (bad : Nat → Bool) : Nat → Nat → Nat → Nat → List (Nat × Nat)
  | 0, _, _, _ => []
  | d + 1, b, ofs, len =>
    if bad b then parts g bad d (b + 1) ofs len
    else if len ≤ g.erasesize - ofs then [(b * g.erasesize + ofs, len)]
    else
      (b * g.erasesize + ofs, g.erasesize - ofs) ::
        parts g bad d (b + 1) 0 (len - (g.erasesize - ofs))

def moves (g : Geometry) (cmd : Cmd) : List (Nat × Nat) → Nat → Transfer → Transfer
  | [], _, t => t
  | (start, n) :: rest, base, t => moves g cmd rest (base + n) (moved g cmd base start n t)

theorem Enters.skipped (h : Enters g b ofs s)
    (below : b * g.erasesize + g.erasesize + ofs < 2 ^ 32) :
    Enters g (b + 1) ofs { s with
      start := (s.start + g.erasesize) % 2 ^ 32
      eblk := some (b * g.erasesize)
      ret := true } := by
  refine ⟨?_,h.inside,eblk_fresh g b⟩
  have wrap : s.start + g.erasesize = b * g.erasesize + g.erasesize + ofs := by
    rw [h.start,Nat.add_right_comm]
  dsimp only
  rw [wrap,Nat.mod_eq_of_lt below,Nat.succ_mul]

theorem skip_ends (skips : cmd.skips = true) (h : Enters g b ofs s)
    (all : b + d = g.dwBlockCount) (more : 0 < s.len)
    (enough : ofs + s.len ≤ goodFrom bad b d * g.erasesize) :
    ∃ r, Ends g bad cmd s r ∧ r.ret = false ∧ r.total = s.total + s.len ∧
      r.mem = moves g cmd (parts g bad d b ofs s.len) s.total s.mem := by
  induction d generalizing b ofs s with
  | zero =>
    rw [goodFrom,List.range'_zero,List.countP_nil,Nat.zero_mul] at enough
    omega
  | succ d ih =>
    have low : b < g.dwBlockCount := by omega
    have blockEnd := block_end_le low
    have top := totlen_le g
    have inside := h.inside
    have another : ∀ x, 0 < x → x ≤ goodFrom bad (b + 1) d * g.erasesize →
        b * g.erasesize + g.erasesize + g.erasesize ≤ 2 ^ 32 := by
      intro x pos le
      have some : 0 < d := by
        cases d with
        | zero =>
          rw [goodFrom,List.range'_zero,List.countP_nil,Nat.zero_mul] at le
          omega
        | succ d => exact Nat.succ_pos d
      have next : b + 1 < g.dwBlockCount := by omega
      have := block_end_le next
      rw [Nat.succ_mul] at this
      omega
    rw [goodFrom_succ] at enough
    by_cases hbad : bad b = true
    · rw [if_pos hbad,Nat.add_zero] at enough
      have room := another _ (by omega) enough
      obtain ⟨r,ends,ret,total,mem⟩ := ih (h.skipped (by omega)) (by omega) more enough
      refine ⟨r,.step more (pass_skip h hbad skips) ends,ret,total,?_⟩
      rw [mem,parts,if_pos hbad]
    have good : bad b = false := by simpa using hbad
    rw [if_neg hbad,Nat.succ_mul] at enough
    rw [parts,if_neg hbad]
    by_cases last : s.len ≤ g.erasesize - ofs
    · have part : s.part g ofs = s.len := Nat.min_eq_left last
      have round := pass_good cmd h good low more
      rw [part] at round
      refine ⟨_,.step more round (.done (Nat.sub_self _)),rfl,rfl,?_⟩
      rw [if_pos last,h.start]
      rfl
    have next : g.erasesize - ofs < s.len := Nat.lt_of_not_le last
    have room := another (s.len - (g.erasesize - ofs)) (by omega) (by omega)
    obtain ⟨u,round,enters,hlen,htotal,hmem⟩ := pass_full cmd h good low next (by omega)
    obtain ⟨r,ends,ret,total,mem⟩ := ih enters (by omega) (by omega) (by omega)
    refine ⟨r,.step more round ends,ret,by omega,?_⟩
    rw [mem,if_neg last,hlen,htotal,hmem,h.start]
    rfl

theorem skip_fails (skips : cmd.skips = true) (room : g.totlen + g.erasesize < 2 ^ 32)
    (behind : bad g.dwBlockCount = false) (h : Enters g b ofs s)
    (all : b + d = g.dwBlockCount) (more : 0 < s.len)
    (few : goodFrom bad b d * g.erasesize < ofs + s.len) :
    ∃ r, Ends g bad cmd s r ∧ r.ret = true := by
  induction d generalizing b ofs s with
  | zero =>
    obtain rfl : b = g.dwBlockCount := all
    have pos := part_pos h more
    have le := part_le h
    have start := h.start
    rw [show g.dwBlockCount * g.erasesize = g.totlen from rfl] at le start
    have outside : g.totlen < (s.start + s.part g ofs) % 2 ^ 32 := by
      rw [Nat.mod_eq_of_lt (by omega)]
      omega
    obtain ⟨r,round,ret⟩ := pass_outside cmd h behind outside
    exact ⟨r,.stop more round,ret⟩
  | succ d ih =>
    have low : b < g.dwBlockCount := by omega
    have blockEnd := block_end_le low
    have inside := h.inside
    rw [goodFrom_succ] at few
    by_cases hbad : bad b = true
    · rw [if_pos hbad,Nat.add_zero] at few
      obtain ⟨r,ends,ret⟩ := ih (h.skipped (by omega)) (by omega) more few
      exact ⟨r,.step more (pass_skip h hbad skips) ends,ret⟩
    have good : bad b = false := by simpa using hbad
    rw [if_neg hbad,Nat.succ_mul] at few
    have next : g.erasesize - ofs < s.len := by omega
    obtain ⟨u,round,enters,hlen,-,-⟩ := pass_full cmd h good low next (by omega)
    obtain ⟨r,ends,ret⟩ := ih enters (by omega) (by omega) (by omega)
    exact ⟨r,.step more round ends,ret⟩

theorem stop_ends (stops : cmd = .read ∨ cmd = .write) (low : c < g.dwBlockCount)
    (hbad : bad c = true) (h : Enters g b ofs s) (le : b ≤ c)
    (first : ∀ x, b ≤ x → x < c → bad x = false)
    (range : c * g.erasesize < s.start + s.len) (more : 0 < s.len) :
    ∃ r, Ends g bad cmd s r ∧ r.ret = true ∧ r.total = s.total + (c * g.erasesize - s.start) := by
  obtain ⟨d,eq⟩ := Nat.exists_eq_add_of_le le
  induction d generalizing b ofs s with
  | zero =>
    obtain rfl : c = b := eq
    have round : pass g bad cmd s = .error { s with eblk := some (c * g.erasesize), ret := true } := by
      unfold pass
      rw [h.here,if_neg h.fresh,h.block,if_pos hbad]
      rcases stops with rfl | rfl <;> rfl
    refine ⟨_,.stop more round,rfl,?_⟩
    rw [h.start,Nat.sub_eq_zero_of_le (Nat.le_add_right _ _),Nat.add_zero]
  | succ d ih =>
    have inside := h.inside
    have start := h.start
    have blocks : b * g.erasesize + g.erasesize ≤ c * g.erasesize := block_end_mul (by omega)
    have blockEnd := block_end_le low
    have top := totlen_le g
    have pos := erasesize_pos g
    have next : g.erasesize - ofs < s.len := by omega
    have good := first b (Nat.le_refl b) (by omega)
    obtain ⟨u,round,enters,hlen,htotal,-⟩ :=
      pass_full cmd h good (by omega) next (by omega)
    have move : u.start = s.start + (g.erasesize - ofs) := by
      rw [enters.start,start,Nat.succ_mul]
      omega
    obtain ⟨r,ends,ret,total⟩ := ih enters (by omega)
      (fun x low high => first x (by omega) high) (by omega) (by omega) (by omega)
    refine ⟨r,.step more round ends,ret,?_⟩
    rw [total,htotal,move]
    omega

def Rw.filled (k reach : Nat) (s : Rw) : Rw :=
  { s with
    start := s.start + k
    total := s.total + k
    len := s.len - k
    mem := { s.mem with
      buf := blit s.mem.buf s.total (fun _ => 0xff) s.start k
      reach } }

theorem filled_zero (s : Rw) : s.filled 0 s.mem.reach = s := by
  rw [Rw.filled,blit_zero]
  rfl

theorem filled_succ (k x y : Nat) (s : Rw) : (s.filled 1 x).filled k y = s.filled (k + 1) y := by
  unfold Rw.filled
  dsimp only
  rw [blit_blit,Nat.add_assoc,Nat.add_assoc,Nat.sub_sub,Nat.add_comm 1 k]

theorem fillLoop_eq {eblk n k : Nat} (low : eblk ≤ s.start)
    (hk : k = min n (eblk + g.erasesize - s.start)) :
    ∃ x, fillLoop g.erasesize eblk n s = s.filled k x ∧ x ≤ max s.mem.reach (s.total + k) := by
  induction n generalizing s k with
  | zero =>
    obtain rfl : k = 0 := by omega
    exact ⟨s.mem.reach,(filled_zero s).symm,Nat.le_max_left _ _⟩
  | succ n ih =>
    unfold fillLoop
    by_cases room : s.start - eblk < g.erasesize
    · obtain ⟨k,rfl⟩ : ∃ j, k = j + 1 := ⟨k - 1,by omega⟩
      have first : s.filled 1 (max s.mem.reach (s.total + 1)) =
          { s with
            start := s.start + 1
            total := s.total + 1
            len := s.len - 1
            mem := { s.mem with
              buf := Function.update s.mem.buf s.total 0xff
              reach := max s.mem.reach (s.total + 1) } } := by
        rw [Rw.filled,blit_one]
      rw [if_pos room,← first]
      have low' : eblk ≤ (s.filled 1 (max s.mem.reach (s.total + 1))).start :=
        Nat.le_succ_of_le low
      have hk' : k = min n (eblk + g.erasesize - (s.start + 1)) := by omega
      obtain ⟨x,eq,le⟩ := ih low' hk'
      refine ⟨x,eq.trans (filled_succ _ _ _ _),Nat.le_trans le ?_⟩
      dsimp only [Rw.filled]
      omega
    · obtain rfl : k = 0 := by omega
      rw [if_neg room]
      exact ⟨s.mem.reach,(filled_zero s).symm,Nat.le_max_left _ _⟩

def shown (g : Geometry) (bad : Nat → Bool) (flash : Bytes) : Bytes :=
  fun a => if bad (a / g.erasesize) then 0xff else flash a

theorem blit_shown (inside : ofs + n ≤ g.erasesize)
    (same : ∀ a, a / g.erasesize = b → shown g bad flash a = src a) (buf : Bytes) :
    blit buf k src (b * g.erasesize + ofs) n =
      blit buf k (shown g bad flash) (b * g.erasesize + ofs) n := by
  funext i
  rcases Nat.lt_or_ge i k with low | low
  · rw [blit_of_lt low,blit_of_lt low]
  obtain ⟨i,rfl⟩ := Nat.exists_eq_add_of_le low
  rcases Nat.lt_or_ge i n with mem | out
  · rw [blit_at mem,blit_at mem]
    refine (same _ ?_).symm
    rw [Nat.add_assoc,Nat.mul_comm,Nat.mul_add_div (erasesize_pos g),
      Nat.div_eq_of_lt (by omega),Nat.add_zero]
  · rw [blit_of_ge (by omega),blit_of_ge (by omega)]

theorem pass_fill (bad : Nat → Bool) (h : Enters g b ofs s) (low : b < g.dwBlockCount) (more : 0 < s.len) :
    ∃ mem, pass g bad .readFill s = .ok (s.behind g b (s.part g ofs) (bad b) mem) ∧
      mem.flash = s.mem.flash ∧
      mem.buf = blit s.mem.buf s.total (shown g bad s.mem.flash) s.start (s.part g ofs) ∧
      mem.reach ≤ max s.mem.reach (s.total + s.part g ofs) := by
  have inside := h.inside
  have fits : ofs + s.part g ofs ≤ g.erasesize := by
    unfold Rw.part
    omega
  by_cases hbad : bad b = true
  · have filled : ∀ a, a / g.erasesize = b → shown g bad s.mem.flash a = 0xff := by
      rintro a rfl
      exact if_pos hbad
    have hk : s.part g ofs = min s.len (b * g.erasesize + g.erasesize - s.start) := by
      rw [← part_eq h,h.here]
    have below : b * g.erasesize ≤ s.start := by
      rw [h.start]
      exact Nat.le_add_right _ _
    obtain ⟨x,eq,le⟩ : ∃ x, fillLoop g.erasesize (b * g.erasesize) s.len
        { s with eblk := some (b * g.erasesize), ret := true } =
          ({ s with eblk := some (b * g.erasesize), ret := true } : Rw).filled (s.part g ofs) x ∧
        x ≤ max s.mem.reach (s.total + s.part g ofs) := fillLoop_eq below hk
    refine ⟨{ s.mem with
      buf := blit s.mem.buf s.total (fun _ => 0xff) s.start (s.part g ofs)
      reach := x },?_,rfl,?_,le⟩
    · unfold pass
      rw [h.here,if_neg h.fresh,h.block,if_pos hbad]
      dsimp only
      rw [eq,hbad]
      rfl
    · rw [h.start]
      exact blit_shown fits filled _
  · have good : bad b = false := by simpa using hbad
    have read : ∀ a, a / g.erasesize = b → shown g bad s.mem.flash a = s.mem.flash a := by
      rintro a rfl
      exact if_neg hbad
    have inside : (s.start + s.part g ofs) % 2 ^ 32 ≤ g.totlen :=
      Nat.le_trans (Nat.mod_le _ _) (Nat.le_trans (part_le h) (block_end_le low))
    obtain ⟨d,eq⟩ := moved_reads s.total s.mem (rfl : Cmd.reads .readFill = true)
      (part_pos h more) inside
    refine ⟨_,good ▸ pass_good .readFill h good low more,?_⟩
    rw [eq]
    refine ⟨rfl,?_,Nat.le_refl _⟩
    rw [h.start]
    exact blit_shown fits read _

theorem fill_ends (bad : Nat → Bool) (h : Enters g b ofs s) (inside : s.start + s.len ≤ g.totlen)
    (more : 0 < s.len) :
    ∃ r, Ends g bad .readFill s r ∧ r.ret = bad ((s.start + s.len - 1) / g.erasesize) ∧
      r.total = s.total + s.len ∧ r.mem.reach ≤ max s.mem.reach (s.total + s.len) ∧
      r.mem.buf = blit s.mem.buf s.total (shown g bad s.mem.flash) s.start s.len := by
  induction hn : s.len using Nat.strong_induction_on generalizing s b ofs with
  | _ n ih =>
    subst hn
    have start := h.start
    have offset := h.inside
    have top := totlen_le g
    have low : b < g.dwBlockCount := by
      apply Nat.lt_of_mul_lt_mul_right (a := g.erasesize)
      rw [show g.dwBlockCount * g.erasesize = g.totlen from rfl]
      omega
    obtain ⟨mem,round,flash,buf,reach⟩ := pass_fill bad h low more
    by_cases last : s.len ≤ g.erasesize - ofs
    · have part : s.part g ofs = s.len := Nat.min_eq_left last
      rw [part] at round buf reach
      refine ⟨_,.step more round (.done (Nat.sub_self _)),?_,rfl,reach,buf⟩
      rw [start,show b * g.erasesize + ofs + s.len - 1 = b * g.erasesize + (ofs + s.len - 1) by omega,
        Nat.mul_comm,Nat.mul_add_div (erasesize_pos g),Nat.div_eq_of_lt (by omega),Nat.add_zero]
      rfl
    have next : g.erasesize - ofs < s.len := Nat.lt_of_not_le last
    have part : s.part g ofs = g.erasesize - ofs := Nat.min_eq_right (Nat.le_of_lt next)
    have enters := h.next next (by omega) (bad b) mem
    rw [part] at enters round buf reach
    generalize hu : s.behind g b (g.erasesize - ofs) (bad b) mem = u at enters round
    have hlen : u.len = s.len - (g.erasesize - ofs) := by rw [← hu]; rfl
    have htotal : u.total = s.total + (g.erasesize - ofs) := by rw [← hu]; rfl
    have hmem : u.mem = mem := by rw [← hu]; rfl
    have move : u.start = s.start + (g.erasesize - ofs) := by
      rw [enters.start,start,Nat.succ_mul]
      omega
    obtain ⟨r,ends,ret,total,reached,read⟩ :=
      ih u.len (by omega) enters (by omega) (by omega) rfl
    refine ⟨r,.step more round ends,?_,by omega,?_,?_⟩
    · rw [ret,move,hlen,show s.start + (g.erasesize - ofs) + (s.len - (g.erasesize - ofs)) =
        s.start + s.len by omega]
    · rw [hmem] at reached
      omega
    · rw [read,hmem,flash,buf,htotal,move,hlen,blit_blit,
        show g.erasesize - ofs + (s.len - (g.erasesize - ofs)) = s.len by omega]

end Apc8750.Nand
