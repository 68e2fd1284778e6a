import Apc8750.Env.Bounds
import Apc8750.SfEnv.Uboot

namespace Apc8750.SfEnv.Early
open Env Cells

/-- `struct env_para_def`, of which `size` is the length of the value. -/
structure Para where
  npos : Nat
  ppos : Nat
  value : List Nat

def untilEq (buf : Mem) : Nat → Nat → Option Nat
  | 0, _ => none
  | fuel + 1, pos => if buf pos = 61 then some pos else untilEq buf fuel (pos + 1)

def envFindNextPos (buf : Mem) (pos : Nat) : Option Nat := (strEnd buf space pos).map (· + 1)

def envFindParaPos (buf : Mem) (pos : Nat) : Option Nat := (untilEq buf space pos).map (· + 1)

/-- The second loop of `env_cmp_name`, which reads past the end of an empty name. -/
def cmpLoop (buf : Mem) : List Nat → Nat → Option Bool
  | [], pos => if buf pos = 0 then none else some false
  | c :: s, pos =>
    if c ≠ buf pos then some false
    else if s = [] ∨ buf (pos + 1) = 61 then some (decide (s = [] ∧ buf (pos + 1) = 61))
    else cmpLoop buf s (pos + 1)

/-- `test_name` has room for 100 bytes. -/
def envCmpName (buf : Mem) (pos : Nat) (name : List Nat) : Option Bool :=
  (untilEq buf space pos).bind fun e => if 100 < e - pos then none else cmpLoop buf name pos

def findLoop (buf : Mem) (name : List Nat) : Nat → Nat → Option (Option Para)
  | 0, _ => none
  | fuel + 1, npos =>
    match envCmpName buf npos name with
    | none => none
    | some true =>
      (envFindParaPos buf npos).bind fun ppos =>
        (strEnd buf space ppos).map fun e => some ⟨npos, ppos, bytesOf buf ppos e⟩
    | some false =>
      (envFindNextPos buf npos).bind fun next =>
        if buf next = 0 then some none else findLoop buf name fuel next

def envFindEnv (buf : Mem) (name : List Nat) : Option (Option Para) := findLoop buf name space 5

def envReadPara1 (copies : Copy → List Nat) (beyond : Mem) (name : List Nat) :
    Option (Option Para) :=
  match sfEnvInit copies with
  | none => some none
  | some c => (envFindEnv (memOf (copies c) beyond) name).map (Option.filter fun p => p.value ≠ [])

theorem untilEq_at (h : At buf i (w ++ 61 :: rest)) (hw : ∀ c ∈ w, c ≠ 0 ∧ c ≠ 61)
    (hf : w.length < fuel) : untilEq buf fuel i = some (i + w.length) := by
  induction fuel generalizing i w with
  | zero => exact absurd hf (Nat.not_lt_zero _)
  | succ fuel ih =>
    cases w with
    | nil => exact if_pos h.1
    | cons c w =>
      rw [List.forall_mem_cons] at hw
      rw [untilEq,if_neg (h.1 ▸ hw.1.2),ih h.2 hw.2 (Nat.lt_of_succ_lt_succ hf),List.length_cons]
      congr 1
      omega

theorem cmpLoop_at (h : At buf i (w ++ 61 :: rest)) (hw : ∀ c ∈ w, c ≠ 0 ∧ c ≠ 61)
    (hn : NameOk name) : cmpLoop buf name i = some (decide (name = w)) := by
  obtain ⟨nonempty,bytes⟩ := hn
  induction name generalizing w i with
  | nil => exact absurd rfl nonempty
  | cons c s ih =>
    rw [List.forall_mem_cons] at bytes
    unfold cmpLoop
    cases w with
    | nil =>
      have here : buf i = 61 := h.1
      simp [here,bytes.1.2]
    | cons d w =>
      rw [List.forall_mem_cons] at hw
      have here : buf i = d := h.1
      have last : buf (i + 1) = 61 ↔ w = [] := by
        cases w with
        | nil => exact ⟨fun _ => rfl,fun _ => h.2.1⟩
        | cons e w =>
          have next : buf (i + 1) = e := h.2.1
          simp [next,(hw.2 e (by simp)).2]
      by_cases same : c = d
      · simp only [here,last,same,ne_eq,not_true_eq_false,if_false,List.cons.injEq,true_and]
        split
        · rename_i stop
          rcases stop with rfl | rfl <;> simp [eq_comm]
        · rename_i more
          exact ih h.2 hw.2 (not_or.mp more).1 bytes.2
      · simp [here,same]

section
variable {buf : Mem} {e : Entry} (h : At buf i (e.bytes ++ [0])) (small : e.bytes.length < space)
include h small

theorem untilEq_entry : untilEq buf space i = some (i + e.name.length) := by
  refine untilEq_at (at_append.mp h).1 e.nameOk (Nat.lt_of_le_of_lt ?_ small)
  simp [Entry.bytes]

theorem findLoop_entry (hn : NameOk name) (short : e.name.length ≤ 100) (fuel : Nat) :
    findLoop buf name (fuel + 1) i =
      if name = e.name then some (some ⟨i,i + e.name.length + 1,e.value⟩)
      else if buf (i + e.bytes.length + 1) = 0 then some none
      else findLoop buf name fuel (i + e.bytes.length + 1) := by
  have compared : envCmpName buf i name = some (decide (name = e.name)) := by
    rw [envCmpName,untilEq_entry h small,Option.bind_some,if_neg (by omega),
      cmpLoop_at (at_append.mp h).1 e.nameOk hn]
  rw [findLoop,compared]
  by_cases same : name = e.name
  · have held : At buf i (e.name ++ [61] ++ (e.value ++ [0])) := by simpa [Entry.bytes] using h
    have value := (at_append.mp held).2
    rw [List.length_append,List.length_singleton,← Nat.add_assoc] at value
    have ends : strEnd buf space _ = _ := strEnd_at value e.valueOk (by
      simp only [Entry.bytes,List.length_append,List.length_cons] at small
      omega)
    simp only [same,decide_true,if_true,envFindParaPos,untilEq_entry h small,Option.map_some,
      Option.bind_some,ends,bytesOf_at (at_append.mp value).1]
  · simp only [same,decide_false,if_false,envFindNextPos,strEnd_at h e.no_nul small,
      Option.map_some,Option.bind_some]

end

theorem findLoop_layout (h : At buf i (layout es)) (small : (layout es).length ≤ space)
    (nonempty : es ≠ []) (hf : es.length ≤ fuel) (hn : NameOk name)
    (short : ∀ e ∈ es, e.name.length ≤ 100) :
    ∃ r, findLoop buf name fuel i = some r ∧
      r.map Para.value = (es.find? fun e => e.name = name).map Entry.value := by
  induction es generalizing i fuel with
  | nil => exact absurd rfl nonempty
  | cons e es ih =>
    obtain _ | fuel := fuel
    · cases hf
    have split : layout (e :: es) = e.bytes ++ [0] ++ layout es := by simp [layout]
    rw [split] at h small
    obtain ⟨first,rest⟩ := at_append.mp h
    rw [List.length_append,List.length_singleton,← Nat.add_assoc] at rest
    simp only [List.length_append,List.length_singleton] at small
    rw [List.forall_mem_cons] at short
    rw [findLoop_entry first (by omega) hn short.1]
    by_cases same : name = e.name
    · exact ⟨_,if_pos same,by simp [same]⟩
    rw [if_neg same,List.find?_cons_of_neg (by simpa using Ne.symm same)]
    cases es with
    | nil => exact ⟨none,if_pos rest.1,rfl⟩
    | cons d es =>
      obtain ⟨c,w,hb,hc⟩ := d.bytes_cons
      have more : buf (i + e.bytes.length + 1) ≠ 0 := by
        rw [layout,body_cons,hb] at rest
        exact rest.1 ▸ hc
      rw [if_neg more]
      exact ih rest (by omega) (by simp) (Nat.le_of_succ_le_succ hf) short.2

theorem data_at (h : l.drop n = layout es ++ rest) (beyond : Mem) :
    At (memOf l beyond) n (layout es) := by
  have long : (l.take n).length = n := by
    have := congrArg List.length h
    simp [layout] at this ⊢
    omega
  have held := memOf_at l beyond
  nth_rewrite 2 [← List.take_append_drop n l] at held
  have data := (at_append.mp held).2
  rw [long,Nat.zero_add,h] at data
  exact (at_append.mp data).1

/-- The early reader finds the values that `wmt_getsyspara` finds, except empty ones. -/
theorem early_agrees {copies : Copy → List Nat} {c : Copy} (es : List Entry) (rest : List Nat)
    (taken : sfEnvInit copies = some c) (data : dataOf (copies c) = layout es ++ rest)
    (small : (layout es).length ≤ space) (nonempty : es ≠ [])
    (short : ∀ e ∈ es, e.name.length ≤ 100) (hn : NameOk name) (beyond : Mem) :
    ∃ r, envReadPara1 copies beyond name = some r ∧
      r.map Para.value = (valueOf (memOf (dataOf (copies c)) beyond) name).filter (· ≠ []) := by
  obtain ⟨r,found,value⟩ := findLoop_layout (data_at data beyond) small nonempty
    (Nat.le_of_lt (Nat.lt_of_lt_of_le (length_lt_layout es) small)) hn short
  refine ⟨r.filter fun p => p.value ≠ [],?_,?_⟩
  · rw [envReadPara1,taken]
    simp only [envFindEnv,found,Option.map_some]
  rw [valueOf_held (data_at (l := dataOf _) (n := 0) data beyond) small,hn.key,← value]
  cases r with
  | none => rfl
  | some p =>
    simp only [Option.filter,Option.map_some]
    split <;> rfl

def oneVariable : Copy → List Nat := fun _ => [0, 0, 0, 0, 1, 97, 61, 98, 0, 0]

theorem early_agrees_one : ∃ r, envReadPara1 oneVariable (fun _ => 0) [97] = some r ∧
    r.map Para.value =
      (valueOf (memOf (dataOf (oneVariable .env1)) fun _ => 0) [97]).filter (· ≠ []) := by
  let e : Entry := ⟨[97],[98],by decide,by decide⟩
  exact early_agrees [e] [] rfl rfl (by decide) (by simp) (by simp [e]) ⟨by simp,by decide⟩ _

end Apc8750.SfEnv.Early
