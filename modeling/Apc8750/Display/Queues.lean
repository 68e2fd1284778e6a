import Apc8750.Display.Model
import Mathlib.Data.List.Perm.Basic

namespace Apc8750.Display

def Addrs.refs (a : Addrs) : List Nat := (if a.y = 0 then [] else [a.y]) ++ if a.c = 0 then [] else [a.c]

theorem putAddrs_eq (s : Vpp) (a : Addrs) : putAddrs s a = { s with puts := s.puts ++ a.refs } := by
  unfold putAddrs Addrs.refs mbPut
  by_cases y : a.y = 0
  · by_cases c : a.c = 0
    · simp [y,c]
    · simp [y,c]
  · by_cases c : a.c = 0
    · simp [y,c]
    · simp [y,c]

theorem shift_spec (i n : Nat) (queue : List Addrs) (inside : i + n < queue.length) :
    ∃ moved, shift i n queue = some moved ∧ moved.length = queue.length ∧
      moved.take (i + n) = queue.take i ++ (queue.drop (i + 1)).take n := by
  induction n generalizing i queue with
  | zero => exact ⟨queue,rfl,rfl,by simp⟩
  | succ n ih =>
    have here : i + 1 < queue.length := by omega
    obtain ⟨moved,shifted,length,prefixed⟩ := ih (i + 1) (queue.set i queue[i + 1])
      (by rw [List.length_set]; omega)
    refine ⟨moved,?_,length.trans List.length_set,?_⟩
    · rw [shift,if_pos (by omega),List.getElem?_eq_getElem here]
      exact shifted
    have first : (queue.set i queue[i + 1]).take (i + 1) = queue.take i ++ [queue[i + 1]] := by
      rw [List.take_succ_eq_append_getElem (by rw [List.length_set]; omega)]
      simp [List.take_set_of_le]
    have behind : (queue.set i queue[i + 1]).drop (i + 2) = queue.drop (i + 2) :=
      List.drop_set_of_lt (by omega)
    have split : (queue.drop (i + 1)).take (n + 1) =
        queue[i + 1] :: (queue.drop (i + 2)).take n := by
      rw [List.drop_eq_getElem_cons here,List.take_succ_cons]
    rw [show i + (n + 1) = i + 1 + n by omega,prefixed,first,behind,split]
    simp

def Vpp.postponed (s : Vpp) : List Addrs := s.addrQueue.take s.cnt

def held (l : List Addrs) : List Nat := l.flatMap Addrs.refs

structure Room (s : Vpp) : Prop where
  length : s.addrQueue.length = freeQueueMax
  cnt : s.cnt < freeQueueMax

theorem dispFbFree_spec (room : Room s) (set : a.y ≠ 0) :
    ∃ puts cnt queue, dispFbFree s a = some { s with puts, cnt, addrQueue := queue } ∧
      Room { s with puts, cnt, addrQueue := queue } ∧
      ∀ x, puts.count x + (held (queue.take cnt)).count x =
        s.puts.count x + (held s.postponed).count x + a.refs.count x := by
  have length := room.length
  have below := room.cnt
  have stored : (s.addrQueue.set s.cnt a).take (s.cnt + 1) = s.postponed ++ [a] := by
    rw [List.take_succ_eq_append_getElem (by rw [List.length_set]; omega)]
    simp [Vpp.postponed,List.take_set_of_le]
  unfold dispFbFree
  rw [if_neg set,if_pos (by omega)]
  dsimp only
  split
  · rename_i more
    have keep := s.dispFbKeep.property
    obtain ⟨moved,shifted,same,front⟩ := shift_spec 0 s.cnt (s.addrQueue.set s.cnt a)
      (by rw [List.length_set]; omega)
    have here : 0 < (s.addrQueue.set s.cnt a).length := by rw [List.length_set]; omega
    rw [List.getElem?_eq_getElem here,Nat.add_sub_cancel,shifted]
    refine ⟨_,_,_,congrArg some (putAddrs_eq _ _),⟨?_,below⟩,?_⟩
    · exact same.trans (List.length_set.trans length)
    intro x
    have all : (s.addrQueue.set s.cnt a)[0] :: moved.take s.cnt = s.postponed ++ [a] := by
      have cons := List.drop_eq_getElem_cons here
      rw [List.drop_zero] at cons
      rw [← stored]
      conv_rhs => rw [cons]
      rw [List.take_succ_cons]
      rw [Nat.zero_add] at front
      rw [front]
      rfl
    have counts := congrArg (fun l => (held l).count x) all
    simp only [held,List.flatMap_cons,List.flatMap_append,List.flatMap_nil,List.append_nil,
      List.count_append] at counts ⊢
    omega
  · rename_i enough
    refine ⟨_,_,_,rfl,⟨List.length_set.trans length,?_⟩,?_⟩
    · have keep := s.dispFbKeep.property
      change s.cnt + 1 < 4
      omega
    · intro x
      rw [stored]
      simp [held,Nat.add_assoc]

def Frame.refs (f : Frame) : List Nat := if f.flags.mbNo then [] else (f.counted f.address).refs

def queued (l : List (Nat × Frame)) : List Nat := l.flatMap fun x => x.2.refs

/-- A frame without references; or one pair of addresses, with luma if chroma is counted. -/
def Plain (f : Frame) : Prop :=
  f.flags.mbNo = true ∨
    f.flags.mbGovr = false ∧ (f.flags.addr = true ∨ f.flags.info = true) ∧
      (f.flags.addr = true → f.flags.info = true → f.addrs = f.infoAddrs) ∧
      ((f.counted f.address).y = 0 → (f.counted f.address).c = 0)

theorem Plain.shown (plain : Plain f) (counts : f.flags.mbNo = false) : f.shown = f.address := by
  obtain ⟨_,_,same,_⟩ := plain.resolve_left (by simp [counts])
  unfold Frame.shown Frame.address
  cases addr : f.flags.addr with
  | false => rfl
  | true =>
    cases info : f.flags.info with
    | false => rfl
    | true => exact (same addr info).symm

theorem Plain.cleared (plain : Plain f) (counts : f.flags.mbNo = false) (chkView : Bool)
    (last : Addrs) : f.cleared chkView last = f.address := by
  obtain ⟨_,some,same,_⟩ := plain.resolve_left (by simp [counts])
  unfold Frame.cleared Frame.address
  cases addr : f.flags.addr with
  | false =>
    have info : f.flags.info = true := some.resolve_left (by simp [addr])
    simp [info]
  | true =>
    cases info : f.flags.info with
    | false => simp
    | true => simp [same addr info]

theorem Plain.patched (plain : Plain f) (path : Nat) (vpu : Shape) : Plain (f.patched path vpu) := by
  unfold Frame.patched
  split
  · rename_i cond
    obtain ⟨_,_,info,_⟩ := cond
    refine plain.imp id fun rest => ?_
    obtain ⟨govr,_,same,luma⟩ := rest
    have address : f.address = f.infoAddrs := by
      unfold Frame.address
      split
      · rename_i addr
        exact same addr info
      · rfl
    rw [address] at luma
    exact ⟨govr,.inl rfl,fun _ no => absurd no (by simp),luma⟩
  · exact plain

theorem getFrame_spec (s : Vpp) (f : Frame) :
    ∃ gets, getFrame s f = { s with gets } ∧ (Plain f → gets = s.gets ++ f.refs) := by
  unfold getFrame
  split
  · rename_i none
    refine ⟨s.gets,rfl,fun plain => ?_⟩
    have mbNo : f.flags.mbNo = true := by
      rcases plain with mbNo | ⟨govr,_⟩
      · exact mbNo
      · exact none.resolve_left (by simp [govr])
    simp [Frame.refs,mbNo]
  rename_i some
  have mbNo : f.flags.mbNo = false := by
    cases no : f.flags.mbNo with
    | true => exact absurd (.inr no) some
    | false => rfl
  refine ⟨s.gets ++ (f.counted f.address).refs,?_,fun _ => by simp [Frame.refs,mbNo]⟩
  unfold Addrs.refs mbGet
  by_cases y : (f.counted f.address).y = 0
  · by_cases c : (f.counted f.address).c = 0
    · simp [y,c]
    · simp [y,c]
  · by_cases c : (f.counted f.address).c = 0
    · simp [y,c]
    · simp [y,c]

theorem putFrame_spec (s : Vpp) (f : Frame) (a : Addrs) :
    ∃ puts, putFrame s f a = { s with puts } ∧
      ((f.flags.mbNo = false → a = f.address) → puts = s.puts ++ f.refs) := by
  unfold putFrame Frame.refs
  cases f.flags.mbNo with
  | true => exact ⟨s.puts,rfl,fun _ => by simp⟩
  | false =>
    refine ⟨_,putAddrs_eq _ _,fun same => ?_⟩
    rw [same rfl]
    rfl

theorem clrDisp_spec (chkView : Bool) (l : List (Nat × Frame)) (s : Vpp) (last : Addrs)
    (all : s.dispFbList = l) :
    ∃ puts last', clrDisp chkView s last l = ({ s with
        dispFbList := [], dispFreeList := s.dispFreeList ++ l.map Prod.fst, puts }, last') ∧
      ((∀ x ∈ l, Plain x.2) → puts = s.puts ++ queued l) := by
  induction l generalizing s last with
  | nil =>
    refine ⟨s.puts,last,?_,fun _ => by simp [queued]⟩
    rw [clrDisp,List.map_nil,List.append_nil,← all]
  | cons x rest ih =>
    obtain ⟨node,f⟩ := x
    obtain ⟨puts,put,same⟩ := putFrame_spec { s with
      dispFbList := rest, dispFreeList := s.dispFreeList ++ [node] } f (f.cleared chkView last)
    obtain ⟨puts',last',done,same'⟩ := ih { s with
      dispFbList := rest, dispFreeList := s.dispFreeList ++ [node], puts := puts }
      (f.cleared chkView last) rfl
    refine ⟨puts',last',?_,fun plain => ?_⟩
    · rw [clrDisp,put,done]
      simp
    have first := plain (node,f) (by simp)
    rw [same' fun x mem => plain x (by simp [mem]),
      same fun counts => first.cleared counts chkView last]
    simp [queued]

theorem clrScl_spec (work l : List (Nat × Frame)) (s : Vpp) (last : Addrs)
    (all : s.sclFbList = work ++ l) :
    ∃ puts, clrScl work s last l = { s with
        sclFbList := work, sclFreeList := s.sclFreeList ++ l.map Prod.fst, puts } ∧
      ((∀ x ∈ l, Plain x.2) → puts = s.puts ++ queued l) := by
  induction l generalizing s last with
  | nil =>
    refine ⟨s.puts,?_,fun _ => by simp [queued]⟩
    rw [List.append_nil] at all
    rw [clrScl,List.map_nil,List.append_nil,← all]
  | cons x rest ih =>
    obtain ⟨node,f⟩ := x
    obtain ⟨puts,put,same⟩ := putFrame_spec { s with
      sclFbList := work ++ rest, sclFreeList := s.sclFreeList ++ [node] } f (f.cleared false last)
    obtain ⟨puts',done,same'⟩ := ih { s with
      sclFbList := work ++ rest, sclFreeList := s.sclFreeList ++ [node], puts := puts }
      (f.cleared false last) rfl
    refine ⟨puts',?_,fun plain => ?_⟩
    · rw [clrScl,put,done]
      simp
    have first := plain (node,f) (by simp)
    rw [same' fun x mem => plain x (by simp [mem]),
      same fun counts => first.cleared counts false last]
    simp [queued]

theorem dispFbClr_spec (s : Vpp) (chkView : Bool) : ∃ puts work gone, s.sclFbList = work ++ gone ∧
      dispFbClr s chkView = { s with
        pre := ⟨0,0⟩
        dispFbCnt := 0
        dispFbList := []
        dispFreeList := s.dispFreeList ++ s.dispFbList.map Prod.fst
        sclFbList := work
        sclFreeList := s.sclFreeList ++ gone.map Prod.fst
        puts } ∧
      ((∀ x ∈ s.dispFbList, Plain x.2) → (∀ x ∈ s.sclFbList, Plain x.2) →
        puts = s.puts ++ s.pre.refs ++ queued s.dispFbList ++ queued gone) := by
  unfold dispFbClr
  dsimp only
  rw [putAddrs_eq]
  dsimp only
  obtain ⟨puts,last,disp,counted⟩ := clrDisp_spec chkView s.dispFbList
    { s with pre := ⟨0,0⟩, dispFbCnt := 0, puts := s.puts ++ s.pre.refs } s.pre rfl
  rw [disp]
  dsimp only
  split
  · obtain ⟨puts',scl,counted'⟩ := clrScl_spec (s.sclFbList.take 1) (s.sclFbList.drop 1) { s with
      pre := ⟨0,0⟩, dispFbCnt := 0, dispFbList := [],
      dispFreeList := s.dispFreeList ++ s.dispFbList.map Prod.fst, puts := puts } last
      (List.take_append_drop 1 s.sclFbList).symm
    refine ⟨puts',_,_,(List.take_append_drop 1 s.sclFbList).symm,scl,fun plain plain' => ?_⟩
    rw [counted' fun x mem => plain' x (List.mem_of_mem_drop mem),counted plain]
  · obtain ⟨puts',scl,counted'⟩ := clrScl_spec [] s.sclFbList { s with
      pre := ⟨0,0⟩, dispFbCnt := 0, dispFbList := [],
      dispFreeList := s.dispFreeList ++ s.dispFbList.map Prod.fst, puts := puts } last rfl
    refine ⟨puts',[],s.sclFbList,rfl,scl,fun plain plain' => ?_⟩
    rw [counted' plain',counted plain]

end Apc8750.Display
