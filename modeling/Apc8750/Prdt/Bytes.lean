import Apc8750.Prdt.Model

namespace Apc8750.Prdt
open MemBlock (pageSize)

variable {f g : Nat → Pfn} {t : Table} {l : List Nat} {a m n : Nat}

def span (addr n : Nat) : List Nat := (List.range n).map (add32 addr)

def bytes (table : List Prd) : List Nat := table.flatMap (fun prd => span prd.addr prd.size)

def EdtLast (table : List Prd) : Prop :=
  ∃ init last, table = init ++ [last] ∧ last.edt = true ∧ ∀ prd ∈ init, prd.edt = false

def physAt (frame : Nat → Pfn) (addr : Nat) : Nat :=
  phys (frame (addr / pageSize)) + addr % pageSize

def buffer (frame : Nat → Pfn) (user size : Nat) : List Nat :=
  (List.range size).map (fun i => physAt frame (user + i))

theorem add32_small (h : a + n < 2 ^ 32) : add32 a n = a + n := by
  rw [add32,Nat.mod_eq_of_lt h]

theorem add32_assoc (a m n : Nat) : add32 (add32 a m) n = add32 a (m + n) := by
  simp only [add32,Nat.mod_add_mod,Nat.add_assoc]

theorem phys_le (pfn : Pfn) : phys pfn + pageSize ≤ 2 ^ 32 := by
  have := pfn.isLt
  simp only [phys,pageSize]
  omega

theorem phys_lt (pfn : Pfn) : phys pfn < 2 ^ 32 := by
  have hphys := phys_le pfn
  simp only [pageSize] at hphys
  omega

theorem span_add (addr m n : Nat) : span addr (m + n) = span addr m ++ span (add32 addr m) n := by
  simp only [span,List.range_add,List.map_append,List.map_map]
  apply congrArg
  apply List.map_congr_left
  intro i _
  exact (add32_assoc addr m i).symm

theorem buffer_add (f : Nat → Pfn) (user m n : Nat) :
    buffer f user (m + n) = buffer f user m ++ buffer f (user + m) n := by
  simp only [buffer,List.range_add,List.map_append,List.map_map]
  apply congrArg
  apply List.map_congr_left
  intro i _
  simp only [Function.comp_apply,Nat.add_assoc]

theorem span_page (f : Nat → Pfn) (addr n : Nat) (h : addr % pageSize + n ≤ pageSize) :
    span (add32 (phys (f (addr / pageSize))) (addr % pageSize)) n = buffer f addr n := by
  refine List.map_congr_left (fun i hi => ?_)
  have hi := List.mem_range.mp hi
  have hphys := phys_le (f (addr / pageSize))
  have hdiv : (addr + i) / pageSize = addr / pageSize := by
    simp only [pageSize] at *
    omega
  have hmod : (addr + i) % pageSize = addr % pageSize + i := by
    simp only [pageSize] at *
    omega
  rw [add32_assoc,add32_small (by omega),physAt,hdiv,hmod]

theorem buffer_inj (h : buffer f user size = buffer g user size) (a : Nat) (hl : user ≤ a)
    (hu : a < user + size) : f (a / pageSize) = g (a / pageSize) := by
  have hat := List.map_inj_left.mp h (a - user) (List.mem_range.mpr (by omega))
  rw [Nat.add_sub_cancel' hl] at hat
  have hphys := Nat.add_right_cancel hat
  exact Fin.ext (Nat.eq_of_mul_eq_mul_right (by decide) hphys)

theorem buffer_congr (h : ∀ a, user ≤ a → a < user + size → f (a / pageSize) = g (a / pageSize)) :
    buffer f user size = buffer g user size := by
  refine List.map_congr_left (fun i hi => ?_)
  have hi := List.mem_range.mp hi
  rw [physAt,physAt,h (user + i) (by omega) (by omega)]

/-- A table in the making describes `l`, and does not end before its last entry. -/
structure Table.Holds (t : Table) (l : List Nat) : Prop where
  bytes : Prdt.bytes t.entries = l
  open' : ∀ prd ∈ t.full, prd.edt = false

theorem Table.holds_empty : Table.Holds ⟨[],none⟩ [] := ⟨rfl,by simp⟩

theorem bytes_append (l m : List Prd) : bytes (l ++ m) = bytes l ++ bytes m :=
  List.flatMap_append

theorem bytes_singleton (prd : Prd) : bytes [prd] = span prd.addr prd.size := by
  simp [bytes]

theorem Table.entries_some {last : Prd} (h : t.last = some last) : t.entries = t.full ++ [last] := by
  rw [Table.entries,h]
  rfl

theorem Table.Holds.grow {last : Prd} (h : t.Holds l) (hlast : t.last = some last)
    (hnext : add32 last.addr last.size = a) (hfit : last.size + n < 2 ^ 16) (edt : Bool) :
    (t.grow last n edt).Holds (l ++ span a n) := by
  refine ⟨?_,h.open'⟩
  rw [← h.bytes,Table.entries_some hlast,Table.grow,Table.entries_some rfl,bytes_append,bytes_append,
    bytes_singleton,bytes_singleton,Nat.mod_eq_of_lt hfit,span_add,hnext,List.append_assoc]

theorem Table.Holds.append {full : List Prd} (h : Prdt.bytes full = l)
    (hopen : ∀ prd ∈ full, prd.edt = false) (a n : Nat) (edt : Bool) :
    Table.Holds ⟨full,some ⟨a,n,edt⟩⟩ (l ++ span a n) := by
  refine ⟨?_,hopen⟩
  rw [Table.entries_some rfl,bytes_append,bytes_singleton,h]

def Table.Ended (t : Table) : Prop := ∃ last, t.last = some last ∧ last.edt = true

theorem Table.Holds.edtLast (h : t.Holds l) (hend : t.Ended) : EdtLast t.entries := by
  obtain ⟨last,hlast,hedt⟩ := hend
  exact ⟨t.full,last,Table.entries_some hlast,hedt,h.open'⟩

theorem Table.Holds.putPage (h : t.Holds l) (a n : Nat) :
    (putPage t a n).Holds (l ++ span a n) ∧ (putPage t a n).Ended := by
  unfold Prdt.putPage
  split
  · rename_i hlast
    refine ⟨.append ?_ h.open' a n true,_,rfl,rfl⟩
    rw [← h.bytes,Table.entries,hlast,Option.toList_none,List.append_nil]
  rename_i next hlast
  split
  · refine ⟨.append ?_ ?_ a n true,_,rfl,rfl⟩
    · rw [← h.bytes,Table.entries_some hlast,bytes_append,bytes_append,bytes_singleton,
        bytes_singleton]
    intro prd hprd
    rcases List.mem_append.mp hprd with hprd | hprd
    · exact h.open' prd hprd
    · rw [List.mem_singleton.mp hprd]
  · rename_i hgo
    have hgo := not_or.mp hgo
    exact ⟨h.grow hlast (not_not.mp hgo.1) (by omega) true,_,rfl,rfl⟩

structure Table.Sized (t : Table) (n : Nat) : Prop where
  sizes : ∀ prd ∈ t.entries, 1 ≤ prd.size ∧ prd.size ≤ 65535
  few : t.entries.length ≤ n

theorem Table.sized_empty : Table.Sized ⟨[],none⟩ 0 :=
  ⟨fun _ hprd => absurd hprd List.not_mem_nil,Nat.le_refl 0⟩

theorem Table.Sized.append {full : List Prd} (hfull : ∀ prd ∈ full, 1 ≤ prd.size ∧ prd.size ≤ 65535)
    (hfew : full.length ≤ n) (a : Nat) (hm : 1 ≤ m ∧ m ≤ 65535) (edt : Bool) :
    Table.Sized ⟨full,some ⟨a,m,edt⟩⟩ (n + 1) := by
  refine ⟨?_,?_⟩
  · rw [Table.entries_some rfl]
    intro prd hprd
    rcases List.mem_append.mp hprd with hprd | hprd
    · exact hfull prd hprd
    · rw [List.mem_singleton.mp hprd]
      exact hm
  · rw [Table.entries_some rfl,List.length_append,List.length_singleton]
    exact Nat.succ_le_succ hfew

theorem Table.Sized.putPage (h : t.Sized n) (a : Nat) (hpos : 0 < m) (hpage : m ≤ pageSize) :
    (putPage t a m).Sized (n + 1) := by
  have hm : 1 ≤ m ∧ m ≤ 65535 := by
    simp only [pageSize] at hpage
    omega
  obtain ⟨hsizes,hfew⟩ := h
  unfold Prdt.putPage
  split
  · rename_i hlast
    rw [Table.entries,hlast,Option.toList_none,List.append_nil] at hsizes hfew
    exact .append hsizes hfew a hm true
  rename_i next hlast
  rw [Table.entries_some hlast] at hsizes hfew
  split
  · refine .append ?_ ?_ a hm true
    · intro prd hprd
      rcases List.mem_append.mp hprd with hprd | hprd
      · exact hsizes prd (List.mem_append_left _ hprd)
      · rw [List.mem_singleton.mp hprd]
        exact hsizes next List.mem_append_cons_self
    · rwa [List.length_append,List.length_singleton] at hfew ⊢
  · rename_i hgo
    have hsize := hsizes next List.mem_append_cons_self
    rw [Table.grow,Nat.mod_eq_of_lt (by omega)]
    refine .append (fun prd hprd => hsizes prd (List.mem_append_left _ hprd)) ?_ _ (by omega) true
    rw [List.length_append] at hfew
    omega

end Apc8750.Prdt
