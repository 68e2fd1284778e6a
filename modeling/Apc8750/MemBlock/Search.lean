import Apc8750.MemBlock.Effects

namespace Apc8750.MemBlock
open State

variable {a : MbArea} {b : MbStruct} {u : MbUser} {st : MbuFind} {addr tgid : Nat}

def hit (st : MbuFind) (addr tgid : Nat) (mb : MbStruct) (mbu : MbUser) : Bool :=
  (!st.phys || addr == mb.phys) && (visitMbu st addr tgid mb mbu).isSome

def firstRecord (p : MbStruct → MbUser → Bool) (l : List MbStruct) : Option MbUser :=
  l.findSome? fun b => b.mbuList.find? (p b)

theorem findSome?_flatMap (f : α → List β) (g : β → Option γ) (l : List α) :
    (l.flatMap f).findSome? g = l.findSome? fun a => (f a).findSome? g := by
  induction l with
  | nil => rfl
  | cons a l ih =>
    rw [List.flatMap_cons,List.findSome?_append,ih,List.findSome?_cons]
    cases (f a).findSome? g <;> rfl

theorem findSome?_eq_map {α β : Type*} {p : α → Bool} {f : α → Option β} {g : α → β} {l : List α}
    (h : ∀ a ∈ l, f a = if p a then some (g a) else none) : l.findSome? f = (l.find? p).map g := by
  induction l with
  | nil => rfl
  | cons a l ih =>
    have here := h a List.mem_cons_self
    have rest := ih fun b hb => h b (List.mem_cons_of_mem _ hb)
    rw [List.findSome?_cons,List.find?_cons,here]
    cases p a with
    | true => rfl
    | false => exact rest

theorem findSome?_map_eq (f : α → Option β) (g : β → γ) (l : List α) :
    l.findSome? (fun a => (f a).map g) = (l.findSome? f).map g := by
  induction l with
  | nil => rfl
  | cons a l ih =>
    rw [List.findSome?_cons,List.findSome?_cons,ih]
    cases f a <;> rfl

theorem visitMbu_cases (hc : st.creator = false) :
    visitMbu st addr tgid b u = none ∨ visitMbu st addr tgid b u = some (some u.ptr) := by
  unfold visitMbu
  rw [hc,if_neg Bool.false_ne_true]
  split_ifs <;> simp

theorem visitMb_first (hc : st.creator = false) (hv : st.virt = false) (b : MbStruct) :
    visitMb st addr tgid b = (b.mbuList.find? (hit st addr tgid b)).map fun u => some u.ptr := by
  unfold visitMb
  split
  · rename_i hphys
    have hnone : b.mbuList.find? (hit st addr tgid b) = none := by
      rw [List.find?_eq_none]
      intro u _
      simp [hit,hphys.1,hphys.2]
    rw [hnone]
    rfl
  rename_i hphys
  rw [if_neg (by simp [hv])]
  apply findSome?_eq_map
  intro u _
  have hat : (!st.phys || addr == b.phys) = true := by
    simp only [not_and,not_not] at hphys
    cases hst : st.phys with
    | false => rfl
    | true => simp [hphys hst]
  rw [hit,hat,Bool.true_and]
  rcases visitMbu_cases (b := b) (u := u) hc with h | h
  · rw [h]
    rfl
  · rw [h]
    rfl

theorem HostOk.visitMba_first (hs : HostOk s) (ha : a ∈ s.mbaList) (hc : st.creator = false)
    (hv : st.virt = false) : visitMba st addr tgid a =
      a.mbList.findSome? fun b => (b.mbuList.find? (hit st addr tgid b)).map fun u => some u.ptr := by
  unfold visitMba
  split
  · rename_i hout
    symm
    rw [List.findSome?_eq_none_iff]
    intro b hb
    rw [Option.map_eq_none_iff,List.find?_eq_none]
    intro u _ hhit
    simp only [hv,Bool.false_or,Bool.and_eq_true,Bool.not_eq_true'] at hout
    obtain ⟨hphys,hout⟩ := hout
    simp only [hit,hphys,Bool.not_true,Bool.false_or,Bool.and_eq_true,beq_iff_eq] at hhit
    rw [hphys,hhit.1,(hs.inArea ha hb).2] at hout
    cases hout
  · congr 1
    funext b
    exact visitMb_first hc hv b

theorem HostOk.mbFindMbu_first (hs : HostOk s) (ha : addr ≠ 0) (hc : st.creator = false)
    (hv : st.virt = false) (hany : (st.user || st.phys) = true) :
    mbFindMbu s addr tgid st = (firstRecord (hit st addr tgid) s.blocks).map MbUser.ptr := by
  have hareas : s.mbaList.findSome? (visitMba st addr tgid) =
      (firstRecord (hit st addr tgid) s.blocks).map fun u => some u.ptr := by
    have hcongr : ∀ l : List MbArea, (∀ a ∈ l, a ∈ s.mbaList) →
        l.findSome? (visitMba st addr tgid) = l.findSome? fun a => (a.mbList.findSome? fun b =>
          b.mbuList.find? (hit st addr tgid b)).map fun u => some u.ptr := by
      intro l
      induction l with
      | nil => exact fun _ => rfl
      | cons a l ih =>
        intro hl
        rw [List.findSome?_cons,List.findSome?_cons,ih fun c hc => hl c (List.mem_cons_of_mem _ hc),
          hs.visitMba_first (hl a List.mem_cons_self) hc hv,findSome?_map_eq]
    rw [hcongr s.mbaList fun _ => id,findSome?_map_eq,firstRecord,State.blocks,findSome?_flatMap]
  unfold mbFindMbu
  rw [hareas,hv,Bool.or_false,hany,if_neg (by simp [ha])]
  cases firstRecord (hit st addr tgid) s.blocks <;> rfl

theorem firstRecord_some :
    firstRecord p l = some u ↔ ∃ before b after front back, l = before ++ b :: after ∧
      b.mbuList = front ++ u :: back ∧ p b u = true ∧
      (∀ c ∈ before, ∀ v ∈ c.mbuList, p c v = false) ∧ ∀ v ∈ front, p b v = false := by
  unfold firstRecord
  rw [List.findSome?_eq_some_iff]
  constructor
  · rintro ⟨before,b,after,rfl,hfind,hnone⟩
    obtain ⟨hp,front,back,hl,hfront⟩ := List.find?_eq_some_iff_append.mp hfind
    refine ⟨before,b,after,front,back,rfl,hl,hp,?_,by simpa using hfront⟩
    intro c hc v hv
    simpa using List.find?_eq_none.mp (hnone c hc) v hv
  rintro ⟨before,b,after,front,back,rfl,hl,hp,hnone,hfront⟩
  refine ⟨before,b,after,rfl,?_,?_⟩
  · exact List.find?_eq_some_iff_append.mpr ⟨hp,front,back,hl,by simpa using hfront⟩
  · intro c hc
    rw [List.find?_eq_none]
    simpa using hnone c hc

end Apc8750.MemBlock
