import Apc8750.MemBlock.Accounts
import Apc8750.MemBlock.Search

namespace Apc8750.MemBlock
open State

variable {s t : State} {b c : MbStruct} {u g : MbUser} {cfg : Config} {addr tgid : Nat}
  {before after : List MbStruct} {R : List MbUser → List MbUser → Prop}

def content (u : MbUser) : MbUser := { u with ptr := 0 }

def getRecord (mb addr tgid : Nat) (name : String) : MbUser :=
  ⟨0, mb, tgid, addr, 0, shortName name⟩

/-- The blocks of `s` are in `t` with their counts, and with user lists that compare. -/
def Restored (R : List MbUser → List MbUser → Prop) (s t : State) : Prop :=
  List.Forall₂ (fun c b => c.ptr = b.ptr ∧ c.count = b.count ∧
    R (c.mbuList.map content) (b.mbuList.map content)) t.blocks s.blocks

/-- After a get that led from `s` to `t`, a put returns 0 and leads back. -/
def TakenBack (R : List MbUser → List MbUser → Prop) (s t : State) (addr tgid : Nat)
    (name : String) : Prop :=
  ∃ w, mbDoPut t addr tgid (some name) = some (0, w) ∧ Restored R s w

/-- The record is one that `mb_do_put` may take for that of the get. -/
def Putable (addr tgid : Nat) (b : MbStruct) (u : MbUser) : Prop :=
  u.tgid = tgid ∧ u.addr ≠ 0 ∧ u.size = 0 ∧
    if tgid = mbDefTgid then b.phys = addr else u.addr = addr

structure FirstPut (addr tgid : Nat) (b : MbStruct) (front : List MbUser) (m : MbUser)
    (back : List MbUser) : Prop where
  list : b.mbuList = front ++ m :: back
  earlier : ∀ u ∈ front, ¬ Putable addr tgid b u
  hit : Putable addr tgid b m

/-- The block is in use, for the kernel by its start, and no block before it is taken. -/
structure Paired (s : State) (addr tgid : Nat) (before : List MbStruct) (b : MbStruct)
    (after : List MbStruct) : Prop where
  blocks : s.blocks = before ++ b :: after
  target : getTarget s addr tgid = some b.ptr
  start : tgid = mbDefTgid → b.phys = addr
  used : b.mbuList ≠ []
  earlier : ∀ c ∈ before, ∀ u ∈ c.mbuList, ¬ Putable addr tgid c u

theorem hit_put : hit (putFind tgid) addr tgid b u = true ↔ Putable addr tgid b u := by
  unfold Putable putFind
  split
  · simp only [hit,visitMbu,physGetPut]
    grind
  · simp only [hit,visitMbu,userGetPut]
    grind

theorem HostOk.put_first (hs : HostOk s) (ha : addr ≠ 0) (tgid : Nat) :
    mbFindMbu s addr tgid (putFind tgid) =
      (firstRecord (hit (putFind tgid) addr tgid) s.blocks).map MbUser.ptr := by
  unfold putFind
  split
  · exact hs.mbFindMbu_first ha rfl rfl rfl
  · exact hs.mbFindMbu_first ha rfl rfl rfl

theorem mbDoGet_taken (hs : DriverOk s) (h : mbDoGet s addr tgid (some name) slab = (0,t)) :
    addr ≠ 0 ∧ DriverOk t ∧ ∃ before b after g, s.blocks = before ++ b :: after ∧
      getTarget s addr tgid = some b.ptr ∧ content g = getRecord b.ptr addr tgid name ∧
      t.blocks = before ++ addRecord g b :: after := by
  unfold mbDoGet at h
  simp only at h
  split at h
  · cases h
  rename_i ha
  split at h
  · cases h
  rename_i p hslab
  split at h
  · cases h
  rename_i q hq
  cases h
  obtain ⟨b,hb,rfl⟩ := getTarget_mem hs hq
  obtain ⟨before,after,hl,hm,_⟩ := Keyed.split hs.records.blocks hb
  obtain ⟨ht,_,he⟩ := hs.link hb hslab (u := ⟨p,b.ptr,tgid,addr,0,shortName name⟩) rfl rfl
  exact ⟨ha,ht,before,b,after,_,hl,hq,rfl,he.trans (hm _)⟩

theorem forall₂_mem (h : List.Forall₂ P l m) (ha : a ∈ l) : ∃ b ∈ m, P a b := by
  induction h with
  | nil => cases ha
  | cons hp _ ih =>
    rcases List.mem_cons.mp ha with rfl | ha
    · exact ⟨_,List.mem_cons_self,hp⟩
    · obtain ⟨b,hb,hp⟩ := ih ha
      exact ⟨b,List.mem_cons_of_mem _ hb,hp⟩

theorem forall₂_middle {α : Type*} {P : α → α → Prop} (hrefl : ∀ a, P a a) {l m : List α}
    {x y : α} : List.Forall₂ P (l ++ x :: m) (l ++ y :: m) ↔ P x y := by
  induction l with
  | nil =>
    rw [List.nil_append,List.nil_append,List.forall₂_cons,and_iff_left]
    exact List.forall₂_same.mpr fun a _ => hrefl a
  | cons a l ih => rw [List.cons_append,List.cons_append,List.forall₂_cons,ih,and_iff_right (hrefl a)]

theorem not_restored_of_more (hs : DriverOk s) (hb : b ∈ s.blocks)
    (hmore : addRecord g b ∈ t.blocks) : ¬ Restored R s t := by
  intro h
  obtain ⟨e,he,hptr,hcount,_⟩ := forall₂_mem h hmore
  have hsame := Keyed.find_of_mem hs.records.blocks he
  rw [← hptr,show (addRecord g b).ptr = b.ptr from rfl,
    Keyed.find_of_mem hs.records.blocks hb] at hsame
  cases hsame
  have : (addRecord g b).count = b.count + 1 := rfl
  omega

theorem put_elsewhere (hs : DriverOk s) (ht : DriverOk t) (ha : addr ≠ 0)
    (hl : s.blocks = before ++ b :: after) (hl' : t.blocks = before ++ addRecord g b :: after)
    (hc : c ∈ t.blocks) (hne : c.ptr ≠ b.ptr) (hu : u ∈ c.mbuList) (haddr : u.addr ≠ 0)
    (hf : mbFindMbu t addr tgid (putFind tgid) = some u.ptr) (name : String) :
    ¬ TakenBack R s t addr tgid name := by
  rintro ⟨w,hw,hback⟩
  obtain ⟨w',hw',_,_,hcase⟩ := mbDoPut_found ht hc hu haddr ha hf name
  rw [hw] at hw'
  cases hw'
  have hb : b ∈ s.blocks := by
    rw [hl]
    exact List.mem_append_cons_self
  have hb' : addRecord g b ∈ t.blocks := by
    rw [hl']
    exact List.mem_append_cons_self
  have hptr : (addRecord g b).ptr ≠ c.ptr := fun h => hne h.symm
  refine not_restored_of_more (g := g) hs hb ?_ hback
  rcases hcase with ⟨_,he⟩ | ⟨_,he⟩
  · rw [he]
    exact List.mem_map.mpr ⟨_,hb',if_neg hptr⟩
  · rw [he]
    exact List.mem_filter.mpr ⟨hb',by simpa using hptr⟩

theorem put_here (hrefl : ∀ l, R l l) (ht : DriverOk t) (ha : addr ≠ 0)
    (hl : s.blocks = before ++ b :: after) (hl' : t.blocks = before ++ addRecord g b :: after)
    (hu : u ∈ (addRecord g b).mbuList) (haddr : u.addr ≠ 0)
    (hf : mbFindMbu t addr tgid (putFind tgid) = some u.ptr) (name : String) :
    TakenBack R s t addr tgid name ↔ b.mbuList ≠ [] ∧
      R ((Keyed.remove MbUser.ptr u.ptr (b.mbuList ++ [g])).map content) (b.mbuList.map content) := by
  have hb' : addRecord g b ∈ t.blocks := by
    rw [hl']
    exact List.mem_append_cons_self
  have hd := ht.records.blocks
  obtain ⟨w,hw,_,_,hcase⟩ := mbDoPut_found ht hb' hu haddr ha hf name
  have hback : TakenBack R s t addr tgid name ↔ Restored R s w := by
    constructor
    · rintro ⟨w',hw',h⟩
      rw [hw] at hw'
      cases hw'
      exact h
    · exact fun h => ⟨w,hw,h⟩
  have hlen : (addRecord g b).mbuList.length = b.mbuList.length + 1 := by
    simp [addRecord]
  rw [hback,Restored,hl]
  rw [hl'] at hcase hd
  rcases hcase with ⟨hmore,he⟩ | ⟨hone,he⟩
  · rw [he,(Keyed.middle hd).1,forall₂_middle fun c => ⟨rfl,rfl,hrefl _⟩]
    have hused : b.mbuList ≠ [] := by
      intro hnil
      rw [hnil] at hlen
      exact hmore hlen
    have hcount : (dropRecord u.ptr (addRecord g b)).count = b.count := Int.add_sub_cancel _ _
    exact ⟨fun h => ⟨hused,h.2.2⟩,fun h => ⟨rfl,hcount,h.2⟩⟩
  · rw [he,(Keyed.middle hd).2]
    apply iff_of_false
    · intro h
      have := h.length_eq
      simp only [List.length_append,List.length_cons] at this
      omega
    · rintro ⟨hused,_⟩
      rw [hone] at hlen
      exact hused (List.eq_nil_of_length_eq_zero (by simpa using hlen.symm))

theorem append_singleton_eq_cons : l ++ [x] = y :: l ↔ y = x ∧ ∀ a ∈ l, a = x := by
  induction l generalizing y with
  | nil => simp [eq_comm]
  | cons a l ih =>
    rw [List.cons_append,List.cons.injEq,ih]
    constructor
    · rintro ⟨rfl,rfl,hall⟩
      exact ⟨rfl,by simpa using hall⟩
    · rintro ⟨rfl,hall⟩
      obtain ⟨rfl,hall⟩ := List.forall_mem_cons.mp hall
      exact ⟨rfl,rfl,hall⟩

theorem append_singleton_perm_cons {α : Type*} [DecidableEq α] {x y : α} {l : List α} :
    (l ++ [x]).Perm (y :: l) ↔ y = x := by
  constructor
  · intro h
    by_contra hne
    have := h.count_eq x
    rw [List.count_append,List.count_singleton_self,List.count_cons_of_ne hne] at this
    omega
  · rintro rfl
    exact List.perm_append_singleton y l

theorem middle_cases {α : Type*} {x y : α} {l₁ l₂ m₁ m₂ : List α}
    (h : l₁ ++ x :: l₂ = m₁ ++ y :: m₂) : y ∈ l₁ ∨ x ∈ m₁ ∨ (l₁ = m₁ ∧ x = y ∧ l₂ = m₂) := by
  induction l₁ generalizing m₁ with
  | nil =>
    cases m₁ with
    | nil => exact Or.inr (Or.inr ⟨rfl,List.cons.inj h⟩)
    | cons a m₁ =>
      cases h
      exact Or.inr (Or.inl List.mem_cons_self)
  | cons a l₁ ih =>
    cases m₁ with
    | nil =>
      cases h
      exact Or.inl List.mem_cons_self
    | cons a' m₁ =>
      obtain ⟨rfl,rest⟩ := List.cons.inj h
      rcases ih rest with hy | hx | ⟨rfl,rfl,rfl⟩
      · exact Or.inl (List.mem_cons_of_mem _ hy)
      · exact Or.inr (Or.inl (List.mem_cons_of_mem _ hx))
      · exact Or.inr (Or.inr ⟨rfl,rfl,rfl⟩)

theorem FirstPut.unique {front front' back back' : List MbUser} {m m' : MbUser}
    (h : FirstPut addr tgid b front m back) (h' : FirstPut addr tgid b front' m' back') :
    front = front' ∧ m = m' ∧ back = back' := by
  rcases middle_cases (h.list.symm.trans h'.list) with hm | hm | heq
  · exact absurd h'.hit (h.earlier m' hm)
  · exact absurd h.hit (h'.earlier m hm)
  · exact heq

theorem putable_get {name : String} (ha : addr ≠ 0)
    (hg : content g = getRecord b.ptr addr tgid name) :
    Putable addr tgid b g ↔ (tgid = mbDefTgid → b.phys = addr) := by
  obtain ⟨p,mb,tg,ad,sz,us⟩ := g
  simp only [content,getRecord,MbUser.mk.injEq,true_and] at hg
  obtain ⟨-,rfl,rfl,rfl,-⟩ := hg
  unfold Putable
  simp only [ha,ne_eq,not_false_eq_true,true_and]
  split
  · rename_i hk
    simp [hk]
  · rename_i hk
    simp [hk]

section Pair

variable {name : String} {K : MbUser → List MbUser → Prop} (hs : DriverOk s) (ht : DriverOk t)
  (ha : addr ≠ 0) (hl : s.blocks = before ++ b :: after)
  (hl' : t.blocks = before ++ addRecord g b :: after)
  (hg : content g = getRecord b.ptr addr tgid name) (hrefl : ∀ l, R l l)
  (hR : ∀ front m back, R ((front ++ (back ++ [g])).map content) ((front ++ m :: back).map content) ↔
    K m back)

include ht ha hl hl' hrefl hR in
theorem put_first_here {front back : List MbUser}
    (hlist : (addRecord g b).mbuList = front ++ u :: back) (hp : Putable addr tgid b u)
    (hfront : ∀ v ∈ front, ¬ Putable addr tgid b v)
    (hf : mbFindMbu t addr tgid (putFind tgid) = some u.ptr) (name' : String) :
    TakenBack R s t addr tgid name' ↔ b.mbuList ≠ [] ∧
      ∀ front m back, FirstPut addr tgid b front m back → K m back := by
  have hb' : addRecord g b ∈ t.blocks := by
    rw [hl']
    exact List.mem_append_cons_self
  have hu : u ∈ (addRecord g b).mbuList := by
    rw [hlist]
    exact List.mem_append_cons_self
  have hlist' : b.mbuList ++ [g] = front ++ u :: back := hlist
  have hd := ht.records.mine hb'
  rw [hlist] at hd
  rw [put_here hrefl ht ha hl hl' hu hp.2.1 hf,hlist',(Keyed.middle hd).2]
  apply and_congr_right
  intro _
  rcases List.eq_nil_or_concat back with rfl | ⟨rest,last,rfl⟩
  · obtain ⟨rfl,_⟩ := List.append_inj' hlist' rfl
    rw [List.append_nil]
    refine iff_of_true (hrefl _) fun front' m back' h => ?_
    refine absurd h.hit (hfront m ?_)
    rw [h.list]
    exact List.mem_append_cons_self
  rw [List.concat_eq_append,← List.cons_append,← List.append_assoc] at hlist'
  obtain ⟨hb,hlast⟩ := List.append_inj' hlist' rfl
  cases hlast
  have hfirst : FirstPut addr tgid b front u rest := ⟨hb,hfront,hp⟩
  rw [List.concat_eq_append,hb,hR]
  constructor
  · intro hk front' m back' h
    obtain ⟨_,rfl,rfl⟩ := hfirst.unique h
    exact hk
  · exact fun h => h front u rest hfirst

include hs ht ha hl hl' hg hrefl hR in
theorem takenBack_iff (name' : String) : TakenBack R s t addr tgid name' ↔
    (tgid = mbDefTgid → b.phys = addr) ∧ b.mbuList ≠ [] ∧
    (∀ c ∈ before, ∀ u ∈ c.mbuList, ¬ Putable addr tgid c u) ∧
    ∀ front m back, FirstPut addr tgid b front m back → K m back := by
  have hfind := ht.host.put_first ha tgid
  have hmine : g ∈ (addRecord g b).mbuList := List.mem_append_cons_self
  have hself : Putable addr tgid (addRecord g b) g ↔ (tgid = mbDefTgid → b.phys = addr) :=
    putable_get ha hg
  cases hfirst : firstRecord (hit (putFind tgid) addr tgid) t.blocks with
  | none =>
    rw [hfirst,Option.map_none] at hfind
    have hnone : ¬ Putable addr tgid (addRecord g b) g := by
      intro hp
      have hb' : addRecord g b ∈ t.blocks := by
        rw [hl']
        exact List.mem_append_cons_self
      have := List.find?_eq_none.mp (List.findSome?_eq_none_iff.mp hfirst _ hb') g hmine
      exact this (hit_put.mpr hp)
    refine iff_of_false ?_ fun h => hnone (hself.mpr h.1)
    rintro ⟨w,hw,_⟩
    rw [mbDoPut,if_neg (by simp [ha]),hfind] at hw
    cases hw
  | some u =>
    rw [hfirst,Option.map_some] at hfind
    obtain ⟨before',c,after',front,back,hsplit,hlist,hhit,hbefore,hfront⟩ :=
      firstRecord_some.mp hfirst
    simp only [← Bool.not_eq_true,hit_put] at hhit hbefore hfront
    have hu : u ∈ c.mbuList := by
      rw [hlist]
      exact List.mem_append_cons_self
    have elsewhere : c.ptr ≠ b.ptr → ¬ TakenBack R s t addr tgid name' := by
      intro hne
      apply put_elsewhere hs ht ha hl hl' ?_ hne hu hhit.2.1 hfind
      rw [hsplit]
      exact List.mem_append_cons_self
    have hd := ht.records.blocks
    rcases middle_cases (hl'.symm.trans hsplit) with hc | hb | ⟨rfl,rfl,rfl⟩
    · rw [hl'] at hd
      refine iff_of_false (elsewhere (Keyed.others hd c (List.mem_append_left _ hc))) fun h => ?_
      exact h.2.2.1 c hc u hu hhit
    · rw [hsplit] at hd
      refine iff_of_false (elsewhere ?_) fun h => hbefore _ hb g hmine (hself.mpr h.1)
      exact (Keyed.others hd _ (List.mem_append_left _ hb)).symm
    have hbefore' : ∀ c ∈ before, ∀ u ∈ c.mbuList, ¬ Putable addr tgid c u := hbefore
    have hstart : tgid = mbDefTgid → b.phys = addr := by
      intro hk
      have := hhit.2.2.2
      rwa [if_pos hk] at this
    rw [put_first_here ht ha hl hl' hrefl hR hlist hhit hfront hfind]
    exact ⟨fun h => ⟨hstart,h.1,hbefore',h.2⟩,fun h => ⟨h.2.1,h.2.2.2⟩⟩

end Pair

theorem paired_iff (hs : DriverOk s) (hl : s.blocks = before ++ b :: after)
    (htarget : getTarget s addr tgid = some b.ptr) {Q : MbStruct → Prop} :
    (∃ before b after, Paired s addr tgid before b after ∧ Q b) ↔
      (tgid = mbDefTgid → b.phys = addr) ∧ b.mbuList ≠ [] ∧
      (∀ c ∈ before, ∀ u ∈ c.mbuList, ¬ Putable addr tgid c u) ∧ Q b := by
  constructor
  · rintro ⟨before',b',after',h,hQ⟩
    have hptr : b.ptr = b'.ptr := Option.some.inj (htarget.symm.trans h.target)
    have hd := hs.records.blocks
    rcases middle_cases (hl.symm.trans h.blocks) with hm | hm | ⟨rfl,rfl,rfl⟩
    · rw [hl] at hd
      exact absurd hptr.symm (Keyed.others hd b' (List.mem_append_left _ hm))
    · rw [h.blocks] at hd
      exact absurd hptr (Keyed.others hd b (List.mem_append_left _ hm))
    · exact ⟨h.start,h.used,h.earlier,hQ⟩
  · rintro ⟨start,used,earlier,hQ⟩
    exact ⟨before,b,after,⟨hl,htarget,start,used,earlier⟩,hQ⟩

/-- A put takes back the get before it exactly if the block was in use and the put finds the record
of the get. -/
theorem get_put_inverse {trace : List (Op × Reply)} (h : Reached cfg trace s) {name : String}
    {slab : Option Nat} (hg : mbDoGet s addr tgid (some name) slab = (0, t)) (name' : String) :
    (TakenBack Eq s t addr tgid name' ↔ ∃ before b after, Paired s addr tgid before b after ∧
      ∀ front m back, FirstPut addr tgid b front m back →
        ∀ u ∈ m :: back, content u = getRecord b.ptr addr tgid name) ∧
    (TakenBack List.Perm s t addr tgid name' ↔
      ∃ before b after, Paired s addr tgid before b after ∧
        ∀ front m back, FirstPut addr tgid b front m back →
          content m = getRecord b.ptr addr tgid name) := by
  have hs := h.driverOk
  obtain ⟨ha, ht, before, b, after, g, hl, htarget, hcontent, hl'⟩ := mbDoGet_taken hs hg
  rw [paired_iff hs hl htarget, paired_iff hs hl htarget]
  constructor
  · refine takenBack_iff hs ht ha hl hl' hcontent (fun _ => rfl) ?_ name'
    intro front m back
    simp only [List.map_append, List.map_cons, List.map_nil]
    rw [List.append_cancel_left_eq, append_singleton_eq_cons, List.forall_mem_map,
      List.forall_mem_cons, hcontent]
  · refine takenBack_iff hs ht ha hl hl' hcontent List.Perm.refl ?_ name'
    intro front m back
    simp only [List.map_append, List.map_cons, List.map_nil]
    rw [List.perm_append_left_iff, append_singleton_perm_cons, hcontent]

def kernelBlock : List Op := [.doAlloc 8192 0 (some "codec") ⟨some 20, none, none, some 30⟩]

theorem get_put_inverse_start : ∃ trace s t, Reached smallConfig trace s ∧
    mbDoGet s 2097152 0 (some "codec") (some 21) = (0, t) ∧
    TakenBack Eq s t 2097152 0 "codec" := by
  let creator : MbUser := ⟨20, 30, 0, 0, 8192, "codec"⟩
  let block : MbStruct :=
    ⟨30, 1, ⟨512, 514⟩, 2097152, 0xC0000000 + 2097152, 8192, 1, some 20, [creator]⟩
  have h : (after smallConfig smallProbe kernelBlock).map (fun r =>
      (r.2.blocks, getTarget r.2 2097152 0,
        (mbDoGet r.2 2097152 0 (some "codec") (some 21)).1)) = some ([block], some 30, 0) := by
    decide +kernel
  obtain ⟨⟨trace, s⟩, hrun, hfacts⟩ := Option.map_eq_some_iff.mp h
  simp only [Prod.mk.injEq] at hfacts
  obtain ⟨hl, htarget, hget⟩ := hfacts
  refine ⟨trace, s, _, .of_after hrun, Prod.ext hget rfl, ?_⟩
  refine (get_put_inverse (.of_after hrun) (Prod.ext hget rfl) "codec").1.mpr ⟨[], block, [], ?_, ?_⟩
  · exact ⟨hl, htarget, fun _ => rfl, List.cons_ne_nil _ _, by simp⟩
  intro front m back first
  have hm : m ∈ [creator] := by
    rw [show [creator] = front ++ m :: back from first.list]
    exact List.mem_append_cons_self
  cases List.mem_singleton.mp hm
  exact absurd rfl first.hit.2.1

/-- The kernel gets the block by an address inside it, and a put of that address fails. -/
theorem inner_get_stays : ∃ trace s t, Reached smallConfig trace s ∧
    mbDoGet s 2101248 0 (some "codec") (some 21) = (0, t) ∧
    mbDoPut t 2101248 0 (some "codec") = some (einval, t) := by
  have h : (after smallConfig smallProbe kernelBlock).map (fun r =>
      ((mbDoGet r.2 2101248 0 (some "codec") (some 21)).1,
        decide (mbDoPut (mbDoGet r.2 2101248 0 (some "codec") (some 21)).2 2101248 0 (some "codec") =
          some (einval, (mbDoGet r.2 2101248 0 (some "codec") (some 21)).2)))) = some (0, true) := by
    decide +kernel
  obtain ⟨⟨trace, s⟩, hrun, hfacts⟩ := Option.map_eq_some_iff.mp h
  simp only [Prod.mk.injEq, decide_eq_true_eq] at hfacts
  exact ⟨trace, s, _, .of_after hrun, Prod.ext hfacts.1 rfl, hfacts.2⟩

end Apc8750.MemBlock
