import Apc8750.Camera.Model
import Mathlib.Data.List.Perm.Subperm

namespace Apc8750.Camera
open Rings (Links Ring Path addTail del following)

variable {s t : State} {l m : List Nat} {i k n : Nat} {counter : Nat → Int}

def State.queue (s : State) : List Node := following s.links .head (maxFbInQueue + 1) .head

/-- `mb_counter` finds a buffer with one user behind the pointer. -/
def State.free (s : State) (counter : Nat → Int) (fb : Node) : Bool :=
  (s.fb fb).yAddr != 0 && counter (s.fb fb).yAddr == 1

/-- The buffers have their numbers, and no two of them are at the same address. -/
structure PoolReady (pool : Node → Fb) (cnt : Nat) (held : List (Nat × Nat)) : Prop where
  ids : ∀ i < cnt, (pool (.fb i)).id = i
  apart : ∀ i < cnt, ∀ j < cnt, i ≠ j → (pool (.fb i)).yAddr ≠ (pool (.fb j)).yAddr
  held : ∀ p ∈ held, ∀ j < cnt, j ≠ p.1 → (pool (.fb j)).yAddr ≠ p.2

def State.Ready (s : State) : Prop := PoolReady s.fb s.fbCnt s.held

/-- The queue is a circular list of distinct buffers of the pool, none of them handed out. -/
structure Holds (s : State) : Prop where
  queue : ∃ l : List Nat, Ring s.links .head (l.map .fb) ∧ (∀ i ∈ l, i < s.fbCnt) ∧
    (s.streamoff = false → ∃ i ∈ l, s.curFb = some (.fb i))
  held : s.streamoff = false → ∀ p ∈ s.held, s.curFb ≠ some (.fb p.1) ∧ s.y0Sa ≠ p.2

def Node.below (cnt : Nat) : Node → Bool
  | .head => false
  | .fb i => decide (i < cnt)

/-- Callers queue buffers of the pool that are not queued, start with a ready pool and a buffer, and
ask for buffers with the camera off. A switch finds a free buffer behind the current one, and a wait
ends behind it. -/
def Careful (s : State) : Op → Prop
  | .reqbufs known count _ => known = false ∨ count > maxFbInQueue ∨
      (s.streamoff = true ∧ ∀ n ∈ s.queue, n.below count = true)
  | .qbuf index => index < s.fbCnt ∧ .fb index ∉ s.queue
  | .streamon => s.queue ≠ [] ∧ s.Ready
  | .finish k => ∀ c ∈ s.callers[k]?, c.stage = .woken → ∃ n ∈ s.queue, c.fb = some n ∧
      (s.streamoff = false → s.curFb ≠ some n)
  | .isr counter => s.streamoff = false → s.dqbuf = true → s.free counter .head = false ∨
      ∃ cur ∈ s.curFb, ∃ n ∈ following s.links .head (maxFbInQueue + 1) cur, s.free counter n = true
  | .streamoff | .dqbuf | .request _ | .wake _ => True

instance decPoolReady (pool : Node → Fb) (cnt : Nat) (held : List (Nat × Nat)) :
    Decidable (PoolReady pool cnt held) :=
  decidable_of_iff ((∀ i < cnt, (pool (.fb i)).id = i) ∧
      (∀ i < cnt, ∀ j < cnt, i ≠ j → (pool (.fb i)).yAddr ≠ (pool (.fb j)).yAddr) ∧
      ∀ p ∈ held, ∀ j < cnt, j ≠ p.1 → (pool (.fb j)).yAddr ≠ p.2)
    ⟨fun h => ⟨h.1, h.2.1, h.2.2⟩, fun h => ⟨h.ids, h.apart, h.held⟩⟩

instance decReady (s : State) : Decidable s.Ready := decPoolReady s.fb s.fbCnt s.held

instance decCareful (s : State) : (op : Op) → Decidable (Careful s op)
  | .reqbufs known count _ => inferInstanceAs (Decidable (known = false ∨ count > maxFbInQueue ∨
      (s.streamoff = true ∧ ∀ n ∈ s.queue, n.below count = true)))
  | .qbuf index => inferInstanceAs (Decidable (index < s.fbCnt ∧ .fb index ∉ s.queue))
  | .streamon => inferInstanceAs (Decidable (s.queue ≠ [] ∧ s.Ready))
  | .finish k => inferInstanceAs (Decidable (∀ c ∈ s.callers[k]?, c.stage = .woken →
      ∃ n ∈ s.queue, c.fb = some n ∧ (s.streamoff = false → s.curFb ≠ some n)))
  | .isr counter => inferInstanceAs (Decidable (s.streamoff = false → s.dqbuf = true →
      s.free counter .head = false ∨ ∃ cur ∈ s.curFb,
        ∃ n ∈ following s.links .head (maxFbInQueue + 1) cur, s.free counter n = true))
  | .streamoff | .dqbuf | .request _ | .wake _ => inferInstanceAs (Decidable True)

structure QueueOk (s : State) (l : List Nat) : Prop where
  ring : Ring s.links .head (l.map .fb)
  below : ∀ i ∈ l, i < s.fbCnt
  count : s.fbCnt ≤ maxFbInQueue
  target : s.streamoff = false → ∃ i ∈ l, s.curFb = some (.fb i) ∧ s.y0Sa = (s.fb (.fb i)).yAddr
  ready : s.streamoff = false → s.Ready
  handed : ∀ p ∈ s.held, p.1 ∉ l

section
variable (h : QueueOk s l)
include h

theorem QueueOk.holds : Holds s := by
  refine ⟨⟨l,h.ring,h.below,?_⟩,?_⟩
  · intro on
    obtain ⟨i,hi,hcur,_⟩ := h.target on
    exact ⟨i,hi,hcur⟩
  intro on p hp
  obtain ⟨i,hi,hcur,haddr⟩ := h.target on
  have hne : i ≠ p.1 := fun he => h.handed p hp (he ▸ hi)
  refine ⟨?_,?_⟩
  · rw [hcur]
    simpa using hne
  · rw [haddr]
    exact (h.ready on).held p hp i (h.below i hi) hne

theorem QueueOk.nodup : l.Nodup := (List.nodup_cons.mp h.ring.nodup).2.of_map

theorem QueueOk.short : l.length ≤ maxFbInQueue := by
  have hsub : l ⊆ List.range s.fbCnt := fun i hi => List.mem_range.mpr (h.below i hi)
  have hlen := (List.subperm_of_subset h.nodup hsub).length_le
  rw [List.length_range] at hlen
  exact hlen.trans h.count

theorem QueueOk.queue : s.queue = l.map .fb := by
  apply h.ring.following
  rw [List.length_map]
  exact Nat.lt_succ_of_le h.short

theorem QueueOk.mem_queue : .fb i ∈ s.queue ↔ i ∈ l := by
  rw [h.queue,List.mem_map]
  constructor
  · rintro ⟨j,hj,he⟩
    cases he
    exact hj
  · exact fun hi => ⟨i,hi,rfl⟩

end

theorem QueueOk.reqbufs (h : QueueOk s l) {known : Bool} {count : Nat} {granted : Nat → Nat}
    (hc : Careful s (.reqbufs known count granted)) :
    ∃ ret t, reqbufs s known count granted = (⟨ret,none⟩, t) ∧ QueueOk t l := by
  unfold Camera.reqbufs
  split
  · exact ⟨_,s,rfl,h⟩
  rename_i accepted
  rw [not_or] at accepted
  rcases hc with unknown | many | ⟨off,hbelow⟩
  · exact absurd unknown accepted.1
  · exact absurd many accepted.2
  refine ⟨_,_,rfl,h.ring,?_,Nat.not_lt.mp accepted.2,?_,?_,h.handed⟩
  · exact fun i hi => of_decide_eq_true (hbelow (.fb i) (h.mem_queue.mpr hi))
  · intro on
    rw [show s.streamoff = false from on] at off
    cases off
  · intro on
    rw [show s.streamoff = false from on] at off
    cases off

theorem QueueOk.qbuf (h : QueueOk s l) (hi : i < s.fbCnt) (hn : .fb i ∉ s.queue) :
    ∃ t, qbuf s i = some (⟨0,none⟩, t) ∧ QueueOk t (l ++ [i]) := by
  have hni : i ∉ l := fun hmem => hn (h.mem_queue.mpr hmem)
  obtain ⟨links,hadd,hring⟩ := h.ring.addTail (x := .fb i) (by simp [hni])
  unfold Camera.qbuf
  rw [if_pos (Nat.lt_of_lt_of_le hi h.count),hadd]
  refine ⟨_,rfl,?_,?_,h.count,?_,?_,?_⟩
  · simpa using hring
  · intro j hj
    rcases List.mem_append.mp hj with hj | hj
    · exact h.below j hj
    · exact List.mem_singleton.mp hj ▸ hi
  · intro on
    obtain ⟨j,hj,htarget⟩ := h.target on
    exact ⟨j,List.mem_append_left _ hj,htarget⟩
  · intro on
    obtain ⟨hids,hapart,hheld⟩ := h.ready on
    exact ⟨hids,hapart,fun p hp => hheld p (List.mem_of_mem_filter hp)⟩
  · intro p hp hmem
    obtain ⟨hp,hne⟩ := List.mem_filter.mp hp
    rcases List.mem_append.mp hmem with hmem | hmem
    · exact h.handed p hp hmem
    · simp [List.mem_singleton.mp hmem] at hne

theorem mark_yAddr (pool : Node → Fb) (fb : Node) (isBusy done : Bool) (n : Node) :
    (mark pool fb isBusy done n).yAddr = (pool n).yAddr := by
  unfold mark
  by_cases he : n = fb
  · subst he
    rw [Function.update_self]
  · rw [Function.update_of_ne he]

theorem mark_id (pool : Node → Fb) (fb : Node) (isBusy done : Bool) (n : Node) :
    (mark pool fb isBusy done n).id = (pool n).id := by
  unfold mark
  by_cases he : n = fb
  · subst he
    rw [Function.update_self]
  · rw [Function.update_of_ne he]

theorem PoolReady.mark {pool : Node → Fb} {cnt : Nat} {held : List (Nat × Nat)}
    (h : PoolReady pool cnt held) (fb : Node) (isBusy done : Bool) :
    PoolReady (mark pool fb isBusy done) cnt held := by
  refine ⟨?_,?_,?_⟩
  · intro i hi
    rw [mark_id]
    exact h.ids i hi
  · intro i hi j hj hne
    rw [mark_yAddr,mark_yAddr]
    exact h.apart i hi j hj hne
  · intro p hp j hj hne
    rw [mark_yAddr]
    exact h.held p hp j hj hne

theorem QueueOk.setCurFb (h : QueueOk s l) (hi : i ∈ l) (hready : s.Ready) (off : Bool) :
    QueueOk { setCurFb s (.fb i) with streamoff := off } l :=
  ⟨h.ring,h.below,h.count,fun _ => ⟨i,hi,rfl,(mark_yAddr s.fb (.fb i) true false _).symm⟩,
    fun _ => hready.mark (.fb i) true false,h.handed⟩

theorem QueueOk.of_off (h : QueueOk s l) (off : t.streamoff = true) (hlinks : t.links = s.links)
    (hcnt : t.fbCnt = s.fbCnt) (hheld : t.held = s.held) : QueueOk t l := by
  have never : ¬ t.streamoff = false := by simp [off]
  exact ⟨hlinks ▸ h.ring,hcnt ▸ h.below,hcnt ▸ h.count,fun on => absurd on never,
    fun on => absurd on never,hheld ▸ h.handed⟩

theorem QueueOk.streamon (h : QueueOk s l) (hne : s.queue ≠ []) (hready : s.Ready) :
    ∃ t, streamon s = some (⟨0,none⟩, t) ∧ QueueOk t l := by
  rw [h.queue] at hne
  cases l with
  | nil => exact absurd rfl hne
  | cons i l =>
    refine ⟨_,?_,h.setCurFb List.mem_cons_self hready false⟩
    rw [Camera.streamon,h.ring.path.1]
    rfl

theorem QueueOk.pop (before : List Nat) (h : QueueOk s (before ++ i :: after))
    (hcur : s.streamoff = false → s.curFb ≠ some (.fb i)) :
    ∃ t, popQueue s (.fb i) = some t ∧ QueueOk t (before ++ after) ∧
      ∃ links, t = { s with links := links } := by
  have hring := h.ring
  rw [List.map_append,List.map_cons] at hring
  obtain ⟨links,hdel,hring⟩ := hring.del
  have hsub : ∀ j ∈ before ++ after, j ∈ before ++ i :: after := by
    intro j hj
    rcases List.mem_append.mp hj with hj | hj
    · exact List.mem_append_left _ hj
    · exact List.mem_append_right _ (List.mem_cons_of_mem _ hj)
  refine ⟨{ s with links := links },by rw [popQueue,hdel]; rfl,⟨?_,?_,h.count,?_,h.ready,?_⟩,
    links,rfl⟩
  · rwa [List.map_append]
  · exact fun j hj => h.below j (hsub j hj)
  · intro on
    obtain ⟨j,hj,hat,haddr⟩ := h.target on
    refine ⟨j,?_,hat,haddr⟩
    rcases List.mem_append.mp hj with hj | hj
    · exact List.mem_append_left _ hj
    · rcases List.mem_cons.mp hj with rfl | hj
      · exact absurd hat (hcur on)
      · exact List.mem_append_right _ hj
  · exact fun p hp hmem => h.handed p hp (hsub _ hmem)

theorem QueueOk.dqbufEnter (h : QueueOk s l) :
    ∃ t, dqbufEnter s = some (⟨0,none⟩, t) ∧ ∃ m, QueueOk t m := by
  unfold Camera.dqbufEnter
  split
  · rename_i off
    cases l with
    | nil =>
      rw [h.ring.path.1]
      exact ⟨s,rfl,[],h⟩
    | cons i l =>
      obtain ⟨t,hpop,ht,_⟩ := QueueOk.pop [] h (by simp [off])
      rw [h.ring.path.1]
      simp only [hpop]
      exact ⟨t,rfl,l,ht⟩
  · exact ⟨_,rfl,l,h.ring,h.below,h.count,h.target,h.ready,h.handed⟩

theorem QueueOk.dqbufFinish (h : QueueOk s l) (hc : Careful s (.finish k)) :
    ∃ r t, dqbufFinish s k = some (r,t) ∧ (∃ m, QueueOk t m) ∧
      ∀ b, r.buf = some b → s.streamoff = false →
        b.index < t.fbCnt ∧ (b.index,b.offset) ∈ t.held := by
  unfold Camera.dqbufFinish
  split
  · rename_i hcaller
    obtain ⟨n,_,he,_⟩ := hc _ hcaller rfl
    cases he
  · rename_i n hcaller
    obtain ⟨n,hn,he,hcur⟩ := hc _ hcaller rfl
    cases he
    rw [h.queue] at hn
    obtain ⟨i,hi,rfl⟩ := List.mem_map.mp hn
    obtain ⟨before,after,rfl⟩ := List.append_of_mem hi
    obtain ⟨t,hpop,ht,links,rfl⟩ := QueueOk.pop before h hcur
    rw [hpop]
    have hbelow := h.below i hi
    have hgone : i ∉ before ++ after := by
      have hn := h.nodup
      rw [List.nodup_middle,List.nodup_cons] at hn
      exact hn.1
    refine ⟨_,_,rfl,⟨before ++ after,ht.ring,ht.below,ht.count,ht.target,?_,?_⟩,?_⟩
    · intro on
      obtain ⟨hids,hapart,hheld⟩ := ht.ready on
      refine ⟨hids,hapart,?_⟩
      intro p hp j hj hne
      rcases List.mem_cons.mp hp with rfl | hp
      · exact hapart j hj i hbelow hne
      · exact hheld p hp j hj hne
    · intro p hp
      rcases List.mem_cons.mp hp with rfl | hp
      · exact hgone
      · exact ht.handed p hp
    · rintro b hb on
      cases hb
      have hid := (h.ready on).ids i hbelow
      simp only [hid]
      exact ⟨hbelow,List.mem_cons_self⟩
  · exact ⟨_,s,rfl,⟨l,h⟩,fun b hb => by cases hb⟩

theorem meets_path {links : Links Node} {a : Node} {cur : Option Node} {l : List Node}
    (hp : Path links a l .head) (hh : .head ∉ l) (hn : l.length < n) :
    meets links cur n a = some (l.any fun b => some b = cur) := by
  induction l generalizing a n with
  | nil =>
    obtain ⟨n,rfl⟩ := Nat.exists_eq_succ_of_ne_zero (Nat.ne_of_gt hn)
    simp only [meets,hp.1,↓reduceIte,List.any_nil]
  | cons b l ih =>
    obtain ⟨n,rfl⟩ := Nat.exists_eq_succ_of_ne_zero (Nat.ne_of_gt (Nat.zero_lt_of_lt hn))
    rw [List.mem_cons,not_or] at hh
    simp only [meets,hp.1,if_neg (Ne.symm hh.1),List.any_cons]
    by_cases he : some b = cur
    · simp [he]
    · simp only [he,↓reduceIte,decide_false,Bool.false_or]
      exact ih hp.2.2 hh.2 (Nat.lt_of_succ_lt_succ hn)

section Loop

variable {a cur : Node} {last : Int}

theorem mbCount_eq (hlast : last ≠ 1) :
    (if (s.fb a).yAddr ≠ 0 then counter (s.fb a).yAddr else last) = 1 ↔ s.free counter a = true := by
  unfold State.free
  split
  · rename_i hy
    simp [hy]
  · rename_i hy
    simp only [ne_eq,not_not] at hy
    simp [hy,hlast]

theorem nextFree_free (hlast : last ≠ 1) (hfree : s.free counter a = true) :
    nextFree s counter cur (n + 1) a last = some a := by
  simp only [nextFree]
  rw [if_neg (not_not.mpr ((mbCount_eq hlast).mpr hfree))]

theorem nextFree_busy (cur : Node) (n : Nat) (hlast : last ≠ 1) (hfree : s.free counter a = false) {b : Node}
    (hnext : s.links.next a = some b) : ∃ last', last' ≠ 1 ∧ nextFree s counter cur (n + 1) a last =
        if b = cur then some b else nextFree s counter cur n b last' := by
  have hbusy : (if (s.fb a).yAddr ≠ 0 then counter (s.fb a).yAddr else last) ≠ 1 := by
    intro he
    rw [(mbCount_eq hlast).mp he] at hfree
    cases hfree
  refine ⟨_,hbusy,?_⟩
  simp only [nextFree]
  rw [if_pos hbusy,hnext]

theorem nextFree_path {l : List Node} (hp : Path s.links a l cur) (hc : cur ∉ l) (hlast : last ≠ 1)
    (hn : l.length < n) :
    nextFree s counter cur n a last = some (((a :: l).find? (s.free counter)).getD cur) := by
  induction l generalizing a n last with
  | nil =>
    obtain ⟨n,rfl⟩ := Nat.exists_eq_succ_of_ne_zero (Nat.ne_of_gt hn)
    cases hfree : s.free counter a with
    | true => rw [nextFree_free hlast hfree,List.find?_cons_of_pos hfree,Option.getD_some]
    | false =>
      obtain ⟨_,_,hloop⟩ := nextFree_busy cur n hlast hfree hp.1
      rw [hloop,if_pos rfl,List.find?_cons_of_neg (by simp [hfree])]
      rfl
  | cons b l ih =>
    obtain ⟨n,rfl⟩ := Nat.exists_eq_succ_of_ne_zero (Nat.ne_of_gt (Nat.zero_lt_of_lt hn))
    rw [List.mem_cons,not_or] at hc
    cases hfree : s.free counter a with
    | true => rw [nextFree_free hlast hfree,List.find?_cons_of_pos hfree,Option.getD_some]
    | false =>
      obtain ⟨last',hlast',hloop⟩ := nextFree_busy cur n hlast hfree hp.1
      rw [hloop,if_neg (Ne.symm hc.1),List.find?_cons_of_neg (by simp [hfree])]
      exact ih hp.2.2 hc.2 hlast' (Nat.lt_of_succ_lt_succ hn)

end Loop

theorem QueueOk.isrSwitch {before after : List Nat} (h : QueueOk s (before ++ i :: after)) :
    isrSwitch s counter (.fb i) = some (switchTo s
      (((after.map Node.fb ++ Node.head :: before.map Node.fb).find? (s.free counter)).getD
        (.fb i))) := by
  have hring := h.ring
  rw [List.map_append,List.map_cons] at hring
  have hshort := h.short
  have hback := hring.rotate
  have hmine : Node.fb i ∉ after.map Node.fb ++ Node.head :: before.map Node.fb := by
    have hn := h.nodup
    rw [List.nodup_middle,List.nodup_cons] at hn
    simpa [or_comm] using hn.1
  have hlen : (after.map Node.fb ++ Node.head :: before.map Node.fb).length ≤ maxFbInQueue := by
    simp only [List.length_append,List.length_cons,List.length_map] at hshort ⊢
    omega
  cases hway : after.map Node.fb ++ Node.head :: before.map Node.fb with
  | nil => simp at hway
  | cons a way =>
    rw [hway] at hback hmine hlen
    rw [List.mem_cons,not_or] at hmine
    unfold Camera.isrSwitch
    rw [hback.1]
    simp only
    rw [nextFree_path hback.2.2 hmine.2 (by decide) (by simpa using Nat.lt_succ_of_lt hlen)]
    rfl

theorem QueueOk.switchTo (h : QueueOk s l) (hi : i ∈ l) (on : s.streamoff = false) :
    QueueOk (switchTo s (.fb i)) l := by
  have hready := ((h.ready on).mark (.fb i) false true).mark (.fb i) true false
  refine ⟨h.ring,h.below,h.count,fun _ => ⟨i,hi,rfl,?_⟩,fun _ => hready,h.handed⟩
  exact (mark_yAddr _ (.fb i) true false _).symm

theorem switch_target (h : QueueOk s (before ++ i :: after))
    (hc : s.free counter .head = false ∨ ∃ cur ∈ s.curFb,
      ∃ n ∈ following s.links .head (maxFbInQueue + 1) cur, s.free counter n = true)
    (hcur : s.curFb = some (.fb i)) :
    ∃ j ∈ before ++ i :: after, Node.fb j =
      ((after.map Node.fb ++ Node.head :: before.map Node.fb).find? (s.free counter)).getD (.fb i) := by
  have hring := h.ring
  rw [List.map_append,List.map_cons] at hring
  have hshort := h.short
  rw [List.length_append,List.length_cons] at hshort
  have hbehind : following s.links .head (maxFbInQueue + 1) (.fb i) = after.map .fb :=
    hring.behind (by rw [List.length_map]; omega)
  rw [List.find?_append]
  cases hfind : (after.map Node.fb).find? (s.free counter) with
  | some n =>
    obtain ⟨j,hj,rfl⟩ := List.mem_map.mp (List.mem_of_find?_eq_some hfind)
    exact ⟨j,List.mem_append_right _ (List.mem_cons_of_mem _ hj),rfl⟩
  | none =>
    have hhead : s.free counter .head = false := by
      rcases hc with hhead | ⟨cur,hcur',n,hn,hfree⟩
      · exact hhead
      · cases hcur.symm.trans hcur'
        rw [hbehind] at hn
        exact absurd hfree (List.find?_eq_none.mp hfind n hn)
    rw [Option.none_or,List.find?_cons_of_neg (by simp [hhead])]
    cases hfront : (before.map Node.fb).find? (s.free counter) with
    | some n =>
      obtain ⟨j,hj,rfl⟩ := List.mem_map.mp (List.mem_of_find?_eq_some hfront)
      exact ⟨j,List.mem_append_left _ hj,rfl⟩
    | none => exact ⟨i,List.mem_append_cons_self,rfl⟩

theorem QueueOk.isr (h : QueueOk s l) (hc : Careful s (.isr counter)) :
    ∃ t, isr s counter = some (⟨0,none⟩, t) ∧ QueueOk t l := by
  unfold Camera.isr
  split
  · rename_i asked
    have hsame : QueueOk { s with dqbuf := false } l :=
      ⟨h.ring,h.below,h.count,h.target,h.ready,h.handed⟩
    have hhead := (List.nodup_cons.mp h.ring.nodup).1
    rw [meets_path h.ring.path hhead (by simpa using Nat.lt_succ_of_le h.short)]
    split
    · rename_i cur hmeets hcur
      obtain ⟨b,hb,he⟩ := List.any_eq_true.mp (Option.some.inj hmeets)
      obtain ⟨i,hi,rfl⟩ := List.mem_map.mp hb
      cases (of_decide_eq_true he).trans hcur
      obtain ⟨before,after,rfl⟩ := List.append_of_mem hi
      rw [hsame.isrSwitch]
      refine ⟨_,rfl,?_⟩
      rcases Bool.eq_false_or_eq_true s.streamoff with off | on
      · exact hsame.of_off off rfl rfl rfl
      · obtain ⟨j,hj,htarget⟩ := switch_target h (hc on asked) hcur
        exact htarget ▸ hsame.switchTo hj on
    · rename_i hmeets
      cases hmeets
    · exact ⟨_,rfl,hsame⟩
  · exact ⟨s,rfl,h⟩

theorem QueueOk.dqbufRequest (h : QueueOk s l) (k : Nat) :
    ∃ t, dqbufRequest s k = (⟨0,none⟩, t) ∧ QueueOk t l := by
  unfold Camera.dqbufRequest
  split
  · exact ⟨_,rfl,h.ring,h.below,h.count,h.target,h.ready,h.handed⟩
  · exact ⟨s,rfl,h⟩

theorem QueueOk.dqbufWake (h : QueueOk s l) (k : Nat) :
    ∃ t, dqbufWake s k = (⟨0,none⟩, t) ∧ QueueOk t l := by
  unfold Camera.dqbufWake
  split
  · exact ⟨_,rfl,h.ring,h.below,h.count,h.target,h.ready,h.handed⟩
  · exact ⟨s,rfl,h⟩

def Served (s : State) (op : Op) : Prop :=
  ∃ r t, step s op = some (r, t) ∧ (∃ m, QueueOk t m) ∧ ∀ b, r.buf = some b →
    s.streamoff = false → b.index < t.fbCnt ∧ (b.index, b.offset) ∈ t.held

theorem QueueOk.served (h : QueueOk t l) (hstep : step s op = some (⟨ret,none⟩, t)) : Served s op :=
  ⟨_,t,hstep,⟨l,h⟩,fun b hb => by cases hb⟩

theorem QueueOk.step (h : QueueOk s l) (hc : Careful s op) : Served s op := by
  cases op with
  | reqbufs known count granted =>
    obtain ⟨ret,t,hreq,ht⟩ := h.reqbufs hc
    exact ht.served (congrArg some hreq)
  | qbuf index =>
    obtain ⟨t,hqbuf,ht⟩ := h.qbuf hc.1 hc.2
    exact ht.served hqbuf
  | streamon =>
    obtain ⟨t,hon,ht⟩ := h.streamon hc.1 hc.2
    exact ht.served hon
  | streamoff =>
    have hoff : QueueOk { s with streamoff := true } l := h.of_off rfl rfl rfl rfl
    exact hoff.served rfl
  | dqbuf =>
    obtain ⟨t,henter,m,ht⟩ := h.dqbufEnter
    exact ht.served henter
  | request k =>
    obtain ⟨t,hreq,ht⟩ := h.dqbufRequest k
    exact ht.served (congrArg some hreq)
  | wake k =>
    obtain ⟨t,hwake,ht⟩ := h.dqbufWake k
    exact ht.served (congrArg some hwake)
  | finish k => exact h.dqbufFinish hc
  | isr counter =>
    obtain ⟨t,hisr,ht⟩ := h.isr hc
    exact ht.served hisr

end Apc8750.Camera
