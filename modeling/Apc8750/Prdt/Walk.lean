import Apc8750.Prdt.Bytes

namespace Apc8750.Prdt
open MemBlock (pageSize pageAlign sub32)
open Loops

variable {mm : Mm} {w v : Walk} {user size items ptr n : Nat}

def mapped (mm : Mm) (page : Nat) : Pfn := (mm.pte page).pfn

/-- Up to `ptr` the table describes the bytes, and all their frames are memory. -/
structure WalkOk (mm : Mm) (user size items : Nat) (w : Walk) (ptr : Nat) : Prop where
  start : user ≤ ptr
  rest : ptr + w.size = user + size
  more : 0 < w.size
  holds : w.table.Holds (buffer (mapped mm) user (ptr - user))
  opened : ∀ prd ∈ w.table.entries, prd.edt = false
  aligned : w.table.last ≠ none → ptr % pageSize = 0
  few : w.table.entries.length + user / pageSize ≤ ptr / pageSize
  room : w.table.entries.length + w.items = items
  valid : ∀ a, user ≤ a → a < ptr → mm.pfnValid (mapped mm (a / pageSize)) = true

def Verdict (mm : Mm) (user size : Nat) (r : Except Exit Walk) : Prop :=
  (r = .error .fault ∧ ∃ a, user ≤ a ∧ a < user + size ∧
      mm.pfnValid (mapped mm (a / pageSize)) = false) ∨
    ∃ t : Table, r = .error (.finished t) ∧ t.Holds (buffer (mapped mm) user size) ∧ t.Ended ∧
      ∀ a, user ≤ a → a < user + size → mm.pfnValid (mapped mm (a / pageSize)) = true

theorem Verdict.exits (h : Verdict mm user size r) : ∃ e, r = .error e := by
  rcases h with ⟨he,_⟩ | ⟨t,he,_⟩
  · exact ⟨_,he⟩
  · exact ⟨_,he⟩

structure At (w : Walk) (ptr : Nat) : Prop where
  page : pageSize ∣ w.fromAddr
  here : w.fromAddr + w.offset = ptr
  inside : w.offset < pageSize

theorem At.div (h : At w ptr) : w.fromAddr / pageSize = ptr / pageSize := by
  obtain ⟨⟨k,hk⟩,hhere,hin⟩ := h
  simp only [pageSize] at *
  omega

theorem At.mod (h : At w ptr) : w.offset = ptr % pageSize := by
  obtain ⟨⟨k,hk⟩,hhere,hin⟩ := h
  simp only [pageSize] at *
  omega

theorem Table.length_entries_some {t : Table} {prev : Prd} (h : t.last = some prev) :
    t.entries.length = t.full.length + 1 := by
  rw [Table.entries_some h,List.length_append,List.length_singleton]

def Roomy (user size items : Nat) : Prop :=
  ∀ a, user ≤ a → a < user + size → a / pageSize + 1 < user / pageSize + items

structure Added (mm : Mm) (user items : Nat) (w : Walk) (ptr : Nat) (next : Walk) : Prop where
  last : next.table.last ≠ none
  holds : next.table.Holds (buffer (mapped mm) user (ptr + w.chunk - user))
  few : next.table.entries.length + user / pageSize ≤ ptr / pageSize + 1
  room : next.table.entries.length + next.items = items

theorem chunk_fits (hat : At w ptr) : ptr % pageSize + w.chunk ≤ pageSize := by
  have hin := hat.inside
  rw [← hat.mod,Walk.chunk]
  omega

section
variable (h : WalkOk mm user size items w ptr) (hat : At w ptr)
include h hat

theorem buffer_chunk :
    buffer (mapped mm) user (ptr + w.chunk - user) = buffer (mapped mm) user (ptr - user) ++
      span (add32 (phys (mapped mm (ptr / pageSize))) w.offset) w.chunk := by
  have hs := h.start
  rw [hat.mod,span_page _ _ _ (chunk_fits hat),
    show ptr + w.chunk - user = ptr - user + w.chunk by omega,buffer_add,Nat.add_sub_cancel' hs]

theorem newPrd_ok (hroom : Roomy user size items) :
    ∃ next, newPrd w (phys (mapped mm (ptr / pageSize))) = .ok next ∧
      Added mm user items w ptr next := by
  have hfew := h.few
  have hitems := h.room
  have hmore := hroom ptr h.start (by have := h.rest; have := h.more; omega)
  unfold newPrd
  rw [if_neg (by omega)]
  refine ⟨_,rfl,by simp,?_,?_,?_⟩
  · rw [buffer_chunk h hat]
    exact .append h.holds.bytes h.opened _ _ _
  · rw [Table.length_entries_some rfl]
    simp only
    omega
  · rw [Table.length_entries_some rfl]
    simp only
    omega

theorem addPage_ok (hroom : Roomy user size items) :
    ∃ next, addPage w (phys (mapped mm (ptr / pageSize))) = .ok next ∧
      Added mm user items w ptr next := by
  unfold addPage
  split
  · exact newPrd_ok h hat hroom
  rename_i prev hprev
  split
  · rename_i hcomb
    simp only [combines,Bool.and_eq_true,decide_eq_true_eq,beq_iff_eq] at hcomb
    have hoff : w.offset = 0 := hat.mod.trans (h.aligned (by simp [hprev]))
    have hlen := Table.length_entries_some hprev
    have hgrown : (w.table.grow prev w.chunk prev.edt).entries.length =
        w.table.full.length + 1 := Table.length_entries_some rfl
    have hfew := h.few
    have hitems := h.room
    have hfit := chunk_fits hat
    refine ⟨_,rfl,by simp [Table.grow],?_,?_,?_⟩
    · rw [buffer_chunk h hat,hoff]
      refine h.holds.grow hprev ?_ ?_ prev.edt
      · rw [hcomb.2,add32,Nat.add_zero,Nat.mod_eq_of_lt (phys_lt _)]
      · simp only [pageSize] at hfit hcomb
        omega
    · simp only [hgrown]
      omega
    · simp only [hgrown]
      omega
  · exact newPrd_ok h hat hroom

end

theorem Table.setEdt_entries {t : Table} {prev : Prd} (h : t.last = some prev) (edt : Bool) :
    (t.setEdt edt).entries = t.full ++ [{ prev with edt := edt }] :=
  Table.entries_some (by simp [Table.setEdt,h])

theorem Table.Holds.setEdt {t : Table} {l : List Nat} (h : t.Holds l) (edt : Bool) :
    (t.setEdt edt).Holds l := by
  refine ⟨?_,h.open'⟩
  cases hlast : t.last with
  | none => rw [← h.bytes,Table.entries,Table.entries,Table.setEdt,hlast]; rfl
  | some prev =>
    rw [← h.bytes,Table.setEdt_entries hlast,Table.entries_some hlast,bytes_append,bytes_append,
      bytes_singleton,bytes_singleton]

section
variable (h : WalkOk mm user size items w ptr) (hat : At w ptr) (hroom : Roomy user size items)
include h hat hroom

theorem pteStep_ok (hlow : w.fromAddr + pageSize < 2 ^ 32) :
    Verdict mm user size (pteStep mm w) ∨ ∃ next, pteStep mm w = .ok next ∧
      WalkOk mm user size items next (w.fromAddr + pageSize) ∧
      next.fromAddr = w.fromAddr + pageSize ∧ next.offset = 0 := by
  have hs := h.start
  have hrest := h.rest
  have hmore := h.more
  have hhere := hat.here
  have hin := hat.inside
  have hpage : (mm.pte (w.fromAddr / pageSize)).pfn = mapped mm (ptr / pageSize) := by
    rw [hat.div]
    rfl
  have hchunk : w.chunk = min w.size (pageSize - w.offset) := rfl
  unfold pteStep
  simp only [hpage,if_pos hin]
  by_cases hvalid : mm.pfnValid (mapped mm (ptr / pageSize)) = true
  · obtain ⟨next,he,hadd⟩ := addPage_ok h hat hroom
    obtain ⟨last,hlast⟩ := Option.ne_none_iff_exists'.mp hadd.last
    have hsame : ∀ a, ptr ≤ a → a < ptr + w.chunk → a / pageSize = ptr / pageSize := by
      intro a hl hu
      have hfit := chunk_fits hat
      simp only [pageSize] at *
      omega
    have hseen : ∀ a, user ≤ a → a < ptr + w.chunk →
        mm.pfnValid (mapped mm (a / pageSize)) = true := by
      intro a hl hu
      by_cases hold : a < ptr
      · exact h.valid a hl hold
      · rw [hsame a (by omega) hu]
        exact hvalid
    simp only [hvalid,↓reduceIte,he]
    by_cases hdone : w.size - w.chunk = 0
    · rw [if_pos hdone]
      have hall : ptr + w.chunk = user + size := by omega
      have hholds := hadd.holds
      rw [hall,Nat.add_sub_cancel_left] at hholds
      refine Or.inl (Or.inr ⟨_,rfl,hholds.setEdt _,⟨_,by rw [Table.setEdt,hlast]; rfl,?_⟩,?_⟩)
      · simpa using hdone
      · rw [← hall]
        exact hseen
    rw [if_neg hdone]
    have hend : ptr + w.chunk = w.fromAddr + pageSize := by omega
    have hholds := hadd.holds
    rw [hend] at hholds hseen
    have hdiv : (w.fromAddr + pageSize) / pageSize = ptr / pageSize + 1 := by
      rw [← hat.div]
      exact Nat.add_div_right _ (by decide)
    have hlen : (next.table.setEdt (w.size - w.chunk == 0)).entries.length =
        next.table.entries.length := by
      rw [Table.setEdt_entries hlast,Table.entries_some hlast]
      simp
    have hsum : w.fromAddr + pageSize + (w.size - w.chunk) = user + size := by omega
    refine Or.inr ⟨_,rfl,⟨by omega,hsum,Nat.pos_of_ne_zero hdone,hholds.setEdt _,?_,?_,?_,
      ?_,hseen⟩,add32_small hlow,rfl⟩
    · intro prd hprd
      rw [Table.setEdt_entries hlast] at hprd
      rcases List.mem_append.mp hprd with hprd | hprd
      · exact hholds.open' prd hprd
      · rw [List.mem_singleton.mp hprd]
        simpa using hdone
    · intro _
      rw [Nat.add_mod_right]
      exact Nat.mod_eq_zero_of_dvd hat.page
    · rw [hlen,hdiv]
      exact hadd.few
    · rw [hlen]
      exact hadd.room
  · rw [if_neg hvalid]
    exact Or.inl (Or.inl ⟨rfl,ptr,hs,by omega,Bool.eq_false_iff.mpr hvalid⟩)

theorem rounds_ok (hlow : w.fromAddr + n * pageSize < 2 ^ 32) :
    n = 0 ∨ Verdict mm user size (rounds (pteStep mm) n w) ∨
      ∃ next, rounds (pteStep mm) n w = .ok next ∧
        WalkOk mm user size items next (w.fromAddr + n * pageSize) ∧
        next.fromAddr = w.fromAddr + n * pageSize := by
  induction n generalizing w ptr with
  | zero => exact Or.inl rfl
  | succ n ih =>
    refine Or.inr ?_
    have hmul : (n + 1) * pageSize = pageSize + n * pageSize := by
      rw [Nat.succ_mul,Nat.add_comm]
    rw [hmul] at hlow ⊢
    unfold rounds
    rcases pteStep_ok h hat hroom (by omega) with hv | ⟨next,he,hok,hfrom,hoff⟩
    · obtain ⟨e,he⟩ := hv.exits
      rw [he] at hv
      simp only [he]
      exact Or.inl hv
    rw [he]
    have hat' : At next (w.fromAddr + pageSize) := by
      refine ⟨?_,by omega,by rw [hoff]; decide⟩
      rw [hfrom]
      exact Nat.dvd_add hat.page (Nat.dvd_refl _)
    rcases ih hok hat' (by omega) with rfl | hv | ⟨last,he',hok',hfrom'⟩
    · refine Or.inr ⟨next,rfl,?_,?_⟩
      · simpa using hok
      · simpa using hfrom
    · exact Or.inl hv
    · rw [hfrom,Nat.add_assoc] at hok' hfrom'
      exact Or.inr ⟨last,he',hok',hfrom'⟩

end

theorem rounds_skip (m : Nat) (hoff : m * pageSize ≤ w.offset)
    (hlow : w.fromAddr + m * pageSize < 2 ^ 32) :
    rounds (pteStep mm) (m + n) w = rounds (pteStep mm) n
      { w with fromAddr := w.fromAddr + m * pageSize, offset := w.offset - m * pageSize } := by
  induction m generalizing w with
  | zero => simp
  | succ m ih =>
    have hmul : (m + 1) * pageSize = pageSize + m * pageSize := by
      rw [Nat.succ_mul,Nat.add_comm]
    rw [hmul] at hoff hlow ⊢
    have hstep : pteStep mm w = .ok
        { w with fromAddr := w.fromAddr + pageSize, offset := w.offset - pageSize } := by
      unfold pteStep
      rw [if_neg (by omega),add32_small (by omega)]
    rw [Nat.succ_add,rounds,hstep]
    simp only
    rw [ih (by simp only; omega) (by simp only; omega)]
    simp only [Nat.add_assoc,Nat.sub_sub]

theorem pteStep_from (h : pteStep mm w = .ok v) : v.fromAddr = add32 w.fromAddr pageSize := by
  unfold pteStep at h
  by_cases hoff : w.offset < pageSize
  · simp only [if_pos hoff] at h
    split at h
    · cases hadd : addPage w (phys (mm.pte (w.fromAddr / pageSize)).pfn) with
      | error e => simp only [hadd,reduceCtorEq] at h
      | ok next =>
        simp only [hadd] at h
        split at h
        · cases h
        · exact congrArg Walk.fromAddr (Except.ok.inj h).symm
    · cases h
  · simp only [if_neg hoff] at h
    exact congrArg Walk.fromAddr (Except.ok.inj h).symm

def pagesTo (limit : Nat) (w : Walk) : Nat := (limit - w.fromAddr) / pageSize

theorem pagesTo_pos {top : Nat} (hw : pageSize ∣ w.fromAddr) (htop : pageSize ∣ top)
    (h : w.fromAddr < top) : 0 < pagesTo top w := by
  obtain ⟨p,hp⟩ := hw
  obtain ⟨q,hq⟩ := htop
  unfold pagesTo
  simp only [pageSize] at hp hq ⊢
  omega

theorem pagesTo_le {top limit : Nat} (h : top ≤ limit) (w : Walk) :
    pagesTo top w ≤ pagesTo limit w := by
  unfold pagesTo
  exact Nat.div_le_div_right (Nat.sub_le_sub_right h _)

theorem pagesTo_fuel {limit fuel : Nat} (h : limit / pageSize ≤ fuel) (w : Walk) :
    pagesTo limit w ≤ fuel := by
  unfold pagesTo
  exact Nat.le_trans (Nat.div_le_div_right (Nat.sub_le _ _)) h

theorem counts_pteStep {limit : Nat} (hlimit : pageSize ∣ limit) (hlow : limit ≤ taskSize) :
    Counts (pteStep mm) (before limit) (fun w => pageSize ∣ w.fromAddr) (pagesTo limit) := by
  have hnext : ∀ {s t : Walk}, pageSize ∣ s.fromAddr → 0 < pagesTo limit s →
      pteStep mm s = .ok t → t.fromAddr = s.fromAddr + pageSize ∧ s.fromAddr + pageSize ≤ limit := by
    intro s t hs hpos hstep
    have hle : s.fromAddr + pageSize ≤ limit := by
      simp only [pagesTo,pageSize] at hpos ⊢
      omega
    refine ⟨?_,hle⟩
    rw [pteStep_from hstep]
    apply add32_small
    simp only [taskSize] at hlow
    omega
  refine ⟨?_,?_,?_⟩
  · intro s t hs hpos hstep
    rw [(hnext hs hpos hstep).1]
    exact Nat.dvd_add hs (Nat.dvd_refl _)
  · intro s t hs hpos hstep
    obtain ⟨hfrom,hle⟩ := hnext hs hpos hstep
    simp only [pagesTo,hfrom,pageSize] at hle ⊢
    omega
  intro s t hs hpos hstep
  obtain ⟨hfrom,hle⟩ := hnext hs hpos hstep
  obtain ⟨p,hp⟩ := hs
  obtain ⟨q,hq⟩ := hlimit
  rw [Bool.eq_iff_iff,before,Bool.and_eq_true,decide_eq_true_iff,decide_eq_true_iff,
    decide_eq_true_iff,hfrom]
  simp only [pagesTo,hfrom,pageSize] at *
  omega

theorem pteLoop_eq (hlimit : pageSize ∣ limit) (hlow : limit ≤ taskSize)
    (hw : pageSize ∣ w.fromAddr) (hpos : 0 < pagesTo limit w) (hfuel : limit / pageSize ≤ fuel) :
    pteLoop mm fuel limit w = rounds (pteStep mm) (pagesTo limit w) w := by
  refine (counts_pteStep hlimit hlow).doWhile ?_ hw hpos ?_
  · intro s _ hs
    refine ⟨1,Nat.one_pos,hs,?_⟩
    cases h : pteStep mm s <;> simp [rounds,h]
  · exact pagesTo_fuel hfuel w

theorem dirEnd_spec (addr : Nat) (h : addr ≤ taskSize) :
    addr < dirEnd addr ∧ pageSize ∣ dirEnd addr := by
  have hsum : add32 addr pgdirSize = addr + pgdirSize :=
    add32_small (by simp only [taskSize,pgdirSize] at *; omega)
  rw [dirEnd,hsum]
  simp only [pgdirSize,pageSize]
  omega

theorem dirLoop_eq {fuel limit : Nat} {inner : Nat → Walk → Except Exit Walk}
    (hlimit : pageSize ∣ limit) (hlow : limit ≤ taskSize) (hfuel : limit / pageSize ≤ fuel)
    (hinner : ∀ top w, pageSize ∣ top → top ≤ limit → pageSize ∣ w.fromAddr →
      0 < pagesTo top w → inner top w = rounds (pteStep mm) (pagesTo top w) w)
    (hw : pageSize ∣ w.fromAddr) (hpos : 0 < pagesTo limit w) :
    doWhile .stuck (before limit) (fun w => inner (min (dirEnd w.fromAddr) limit) w) fuel w =
      rounds (pteStep mm) (pagesTo limit w) w := by
  refine (counts_pteStep hlimit hlow).doWhile ?_ hw hpos ?_
  · intro s hs hmore
    have hbelow : s.fromAddr + pageSize ≤ limit := by
      simp only [pagesTo,pageSize] at hmore ⊢
      omega
    obtain ⟨hend,hdvd⟩ := dirEnd_spec s.fromAddr (by omega)
    have htop : pageSize ∣ min (dirEnd s.fromAddr) limit := by
      rcases Nat.le_total (dirEnd s.fromAddr) limit with h | h
      · rwa [Nat.min_eq_left h]
      · rwa [Nat.min_eq_right h]
    have hlt : s.fromAddr < limit := Nat.lt_of_lt_of_le (Nat.lt_add_of_pos_right (by decide)) hbelow
    have hk : 0 < pagesTo (min (dirEnd s.fromAddr) limit) s :=
      pagesTo_pos hs htop (Nat.lt_min.mpr ⟨hend,hlt⟩)
    exact ⟨_,hk,pagesTo_le (Nat.min_le_right _ _) s,hinner _ s htop (Nat.min_le_right _ _) hs hk⟩
  · exact pagesTo_fuel hfuel w

theorem pgdLoop_eq (hlimit : pageSize ∣ limit) (hlow : limit ≤ taskSize)
    (hw : pageSize ∣ w.fromAddr) (hpos : 0 < pagesTo limit w) (hfuel : limit / pageSize ≤ fuel) :
    pgdLoop mm fuel limit w = rounds (pteStep mm) (pagesTo limit w) w := by
  have hless : ∀ {top}, top ≤ limit → top / pageSize ≤ fuel := fun h =>
    Nat.le_trans (Nat.div_le_div_right h) hfuel
  refine dirLoop_eq hlimit hlow hfuel ?_ hw hpos
  intro pmdEnd v hdvd hle hv hvpos
  refine dirLoop_eq hdvd (Nat.le_trans hle hlow) (hless hle) ?_ hv hvpos
  intro pteEnd u hdvd' hle' hu hupos
  exact pteLoop_eq hdvd' (Nat.le_trans hle' (Nat.le_trans hle hlow)) hu hupos
    (hless (Nat.le_trans hle' hle))

def VmArea.Has (vma : VmArea) (addr : Nat) : Prop := vma.vmStart ≤ addr ∧ addr < vma.vmEnd

def Covered (mm : Mm) (user size : Nat) : Prop :=
  ∀ a, user ≤ a → a < user + size → ∃ vma ∈ mm.mmap, vma.Has a

theorem findVma_has (hm : vma ∈ mm.mmap) (h : vma.Has addr) : findVma mm addr = some vma := by
  obtain ⟨first,rest,hsplit⟩ := List.append_of_mem hm
  have hord := mm.ordered
  rw [hsplit,List.pairwise_append] at hord
  have hnone : first.find? (fun vma => decide (addr < vma.vmEnd)) = none := by
    rw [List.find?_eq_none]
    intro a ha
    have hle := hord.2.2 a ha vma List.mem_cons_self
    have hstart := h.1
    simp only [decide_eq_true_eq]
    omega
  rw [findVma,hsplit,List.find?_append,hnone,Option.none_or,List.find?_cons_of_pos]
  simpa using h.2

theorem pageAlign_multiple (h : pageSize * q ≤ taskSize) :
    pageAlign (pageSize * q) = pageSize * q := by
  simp only [taskSize,pageSize] at h
  simp only [pageAlign,pageSize]
  omega

theorem sub32_le (hmn : m ≤ n) (hn : n < 2 ^ 32) : sub32 n m = n - m := by
  simp only [sub32]
  omega

theorem vmaWalk_eq (hm : vma ∈ mm.mmap) (h : vma.Has ptr) :
    vmaWalk mm ptr w = rounds (pteStep mm) (vma.vmEnd / pageSize - ptr / pageSize)
      { w with fromAddr := ptr / pageSize * pageSize, offset := ptr % pageSize } := by
  obtain ⟨hpos,⟨p,hp⟩,⟨q,hq⟩,hlow⟩ := mm.proper vma hm
  obtain ⟨hl,hu⟩ := h
  have htop : vma.vmEnd < 2 ^ 32 := by
    simp only [taskSize] at hlow
    omega
  have halign : pageAlign vma.vmEnd = vma.vmEnd := by
    rw [hq] at hlow ⊢
    exact pageAlign_multiple hlow
  have hpages : pagesTo vma.vmEnd
      { w with fromAddr := vma.vmStart, offset := ptr - vma.vmStart } =
      (ptr / pageSize - p) + (vma.vmEnd / pageSize - ptr / pageSize) := by
    simp only [pagesTo]
    simp only [pageSize] at hp hq ⊢
    omega
  unfold vmaWalk
  rw [findVma_has hm ⟨hl,hu⟩]
  simp only [halign,sub32_le hl (Nat.lt_trans hu htop)]
  rw [pgdLoop_eq ⟨q,hq⟩ hlow ⟨p,hp⟩ (pagesTo_pos ⟨p,hp⟩ ⟨q,hq⟩ hpos) (Nat.le_refl _),hpages,
    rounds_skip]
  · have h1 : vma.vmStart + (ptr / pageSize - p) * pageSize = ptr / pageSize * pageSize := by
      simp only [pageSize] at hp ⊢
      omega
    have h2 : ptr - vma.vmStart - (ptr / pageSize - p) * pageSize = ptr % pageSize := by
      simp only [pageSize] at hp ⊢
      omega
    simp only [h1,h2]
  · simp only [pageSize] at hp ⊢
    omega
  · simp only [pageSize] at hp ⊢
    omega

theorem vmaLoop_verdict (hcov : Covered mm user size) (hroom : Roomy user size items)
    (h : WalkOk mm user size items w ptr) (hfuel : w.size < n) :
    Verdict mm user size (vmaLoop mm n ptr w) := by
  induction n generalizing w ptr with
  | zero => omega
  | succ n ih =>
    have hrest := h.rest
    have hmore := h.more
    obtain ⟨vma,hm,hhas⟩ := hcov ptr h.start (by omega)
    obtain ⟨_,_,⟨q,hq⟩,hlow⟩ := mm.proper vma hm
    obtain ⟨hl,hu⟩ := hhas
    have hat : At { w with fromAddr := ptr / pageSize * pageSize, offset := ptr % pageSize } ptr :=
      ⟨Nat.dvd_mul_left _ _,Nat.div_add_mod' ptr pageSize,Nat.mod_lt _ (by decide)⟩
    have hok : WalkOk mm user size items
        { w with fromAddr := ptr / pageSize * pageSize, offset := ptr % pageSize } ptr :=
      ⟨h.start,h.rest,h.more,h.holds,h.opened,h.aligned,h.few,h.room,h.valid⟩
    have hend : ptr / pageSize * pageSize + (vma.vmEnd / pageSize - ptr / pageSize) * pageSize =
        vma.vmEnd := by
      simp only [pageSize] at *
      omega
    have hsome : vma.vmEnd / pageSize - ptr / pageSize ≠ 0 := by
      simp only [pageSize] at *
      omega
    have htop : vma.vmEnd < 2 ^ 32 := by
      simp only [taskSize] at hlow
      omega
    unfold vmaLoop
    rw [if_neg (by omega),vmaWalk_eq hm ⟨hl,hu⟩]
    rcases rounds_ok hok hat hroom (by rw [hend]; exact htop) with h0 | hv | ⟨next,he,hnext,hfrom⟩
    · exact absurd h0 hsome
    · obtain ⟨e,he⟩ := hv.exits
      rw [he] at hv
      simp only [he]
      exact hv
    rw [he]
    simp only
    rw [hend] at hnext hfrom
    rw [hfrom]
    have hless := hnext.rest
    exact ih hnext (by omega)

theorem userToPrdt0_cases (hcov : Covered mm user size) (hsize : 0 < size)
    (hitems : size / pageSize + 2 ≤ items) (hroom : Roomy user size items) :
    (userToPrdt0 mm user size (some items) = .failed MemBlock.efault ∧
        ∃ a, user ≤ a ∧ a < user + size ∧ mm.pfnValid (mapped mm (a / pageSize)) = false) ∨
      ∃ table, userToPrdt0 mm user size (some items) = .done table ∧
        bytes table = buffer (mapped mm) user size ∧ EdtLast table ∧
        ∀ a, user ≤ a → a < user + size → mm.pfnValid (mapped mm (a / pageSize)) = true := by
  have hstart : WalkOk mm user size items ⟨0,0,size,items,⟨[],none⟩⟩ user := by
    refine ⟨Nat.le_refl _,rfl,hsize,?_,by simp [Table.entries],by simp,
      by simp [Table.entries],by simp [Table.entries],by omega⟩
    rw [Nat.sub_self]
    exact Table.holds_empty
  unfold userToPrdt0
  simp only [if_neg (Nat.not_lt.mpr hitems)]
  rcases vmaLoop_verdict hcov hroom hstart (Nat.lt_succ_self size) with ⟨he,hbad⟩ |
    ⟨t,he,hholds,hended,hvalid⟩
  · rw [he]
    exact Or.inl ⟨rfl,hbad⟩
  · rw [he]
    exact Or.inr ⟨_,rfl,hholds.bytes,hholds.edtLast hended,hvalid⟩

end Apc8750.Prdt
