import Apc8750.Env.Store

namespace Apc8750.Env
open Cells

structure Entry where
  name : List Nat
  value : List Nat
  nameOk : ∀ c ∈ name, c ≠ 0 ∧ c ≠ 61
  valueOk : ∀ c ∈ value, c ≠ 0

def Entry.bytes (e : Entry) : List Nat := e.name ++ 61 :: e.value

def body (es : List Entry) : List Nat := es.flatMap fun e => e.bytes ++ [0]

def layout (es : List Entry) : List Nat := body es ++ [0]

def key (name : List Nat) : List Nat := name.takeWhile (· ≠ 61)

variable {m : Mem} {name w : List Nat} {e : Entry} {es before after : List Entry} {i fuel : Nat}

@[simp] theorem body_nil : body [] = [] := rfl

@[simp] theorem body_cons : body (e :: es) = e.bytes ++ 0 :: body es := by
  simp [body]

@[simp] theorem body_append : body (before ++ after) = body before ++ body after := by
  simp [body]

theorem Entry.no_nul (e : Entry) : ∀ c ∈ e.bytes, c ≠ 0 := by
  intro c hc
  rcases List.mem_append.mp hc with hc | hc
  · exact (e.nameOk c hc).1
  · rcases List.mem_cons.mp hc with rfl | hc
    · decide
    · exact e.valueOk c hc

theorem Entry.bytes_cons (e : Entry) : ∃ c w, e.bytes = c :: w ∧ c ≠ 0 := by
  cases h : e.name with
  | nil =>
    refine ⟨61,e.value,?_,by decide⟩
    rw [Entry.bytes,h,List.nil_append]
  | cons c w =>
    refine ⟨c,w ++ 61 :: e.value,?_,(e.nameOk c (by rw [h]; simp)).1⟩
    rw [Entry.bytes,h,List.cons_append]

theorem Entry.bytes_pos (e : Entry) : 0 < e.bytes.length := by
  obtain ⟨c,w,h,_⟩ := e.bytes_cons
  rw [h]
  exact Nat.succ_pos _

theorem body_pos (h : es ≠ []) : 0 < (body es).length := by
  cases es with
  | nil => exact absurd rfl h
  | cons e es =>
    rw [body_cons,List.length_append,List.length_cons]
    omega

section Loops

theorem strEnd_at (h : At m i (w ++ [0])) (nul : ∀ c ∈ w, c ≠ 0) (hf : w.length < fuel) :
    strEnd m fuel i = some (i + w.length) := by
  induction w generalizing i fuel with
  | nil =>
    obtain ⟨fuel,rfl⟩ := Nat.exists_eq_succ_of_ne_zero (Nat.ne_of_gt hf)
    exact if_pos h.1
  | cons c w ih =>
    obtain ⟨fuel,rfl⟩ := Nat.exists_eq_succ_of_ne_zero (Nat.ne_of_gt (Nat.zero_lt_of_lt hf))
    rw [List.length_cons] at hf
    have ne : m i ≠ 0 := by
      rw [h.1]
      exact nul c (by simp)
    unfold strEnd
    rw [if_neg ne,ih h.2 (fun c hc => nul c (List.mem_cons_of_mem _ hc)) (by omega),
      List.length_cons]
    congr 1
    omega

theorem envmatch_at {n rest : List Nat} (h : At m i (n ++ 61 :: rest))
    (hn : ∀ c ∈ n, c ≠ 0 ∧ c ≠ 61) :
    envmatch m name i = some (if key name = n then some (i + n.length + 1) else none) := by
  induction n generalizing name i with
  | nil =>
    have here : m i = 61 := h.1
    cases name with
    | nil => simp [envmatch,here,key]
    | cons c s =>
      by_cases eq : c = 61
      · simp [envmatch,here,key,eq]
      · simp [envmatch,here,key,eq]
  | cons a n ih =>
    have here : m i = a := h.1
    obtain ⟨a0,a61⟩ := hn a (by simp)
    cases name with
    | nil => simp [envmatch,here,key,a0,a61]
    | cons c s =>
      by_cases eq : c = a
      · subst eq
        have rest : envmatch m s (i + 1) = _ := ih h.2 fun c hc => hn c (List.mem_cons_of_mem _ hc)
        unfold envmatch
        rw [if_pos here.symm,if_neg a61,rest]
        have same : (key (c :: s) = c :: n) = (key s = n) := by
          simp [key,a61]
        simp only [same,List.length_cons]
        split
        · congr 2
          omega
        · rfl
      · have ne : key (c :: s) ≠ a :: n := by
          unfold key
          rw [List.takeWhile_cons]
          split
          · intro h
            exact eq (List.cons.inj h).1
          · simp
        unfold envmatch
        rw [if_neg (by rw [here]; exact eq),if_neg ne]

theorem search_entry (h : At m i (e.bytes ++ [0])) (small : e.bytes.length < space) :
    search m name (fuel + 1) i =
      if key name = e.name then some (some ⟨i,i + e.bytes.length,i + e.name.length + 1⟩)
      else search m name fuel (i + e.bytes.length + 1) := by
  obtain ⟨c,w,hb,hc⟩ := e.bytes_cons
  have ne : m i ≠ 0 := by
    rw [hb] at h
    rw [h.1]
    exact hc
  have matched : envmatch m name i =
      some (if key name = e.name then some (i + e.name.length + 1) else none) :=
    envmatch_at (at_append.mp h).1 e.nameOk
  rw [search,if_neg ne,strEnd_at h e.no_nul small,matched]
  by_cases same : key name = e.name
  · simp only [if_pos same]
  · simp only [if_neg same]

/-- Where the search finds a name among entries that start at `i`. -/
def lookup (name : List Nat) : Nat → List Entry → Option Found
  | _, [] => none
  | i, e :: es =>
    if key name = e.name then some ⟨i, i + e.bytes.length, i + e.name.length + 1⟩
    else lookup name (i + e.bytes.length + 1) es

theorem search_layout (h : At m i (layout es)) (small : (layout es).length ≤ space)
    (hf : es.length < fuel) : search m name fuel i = some (lookup name i es) := by
  induction es generalizing i fuel with
  | nil =>
    obtain ⟨fuel,rfl⟩ := Nat.exists_eq_succ_of_ne_zero (Nat.ne_of_gt hf)
    rw [search,if_pos h.1]
    rfl
  | cons e es ih =>
    obtain ⟨fuel,rfl⟩ := Nat.exists_eq_succ_of_ne_zero (Nat.ne_of_gt (Nat.zero_lt_of_lt hf))
    rw [List.length_cons] at hf
    have split : layout (e :: es) = e.bytes ++ [0] ++ layout es := by simp [layout]
    rw [split] at h small
    obtain ⟨first,rest⟩ := at_append.mp h
    rw [List.length_append,List.length_singleton,← Nat.add_assoc] at rest
    simp only [List.length_append,List.length_singleton] at small
    rw [search_entry first (by omega),ih rest (by omega) (by omega),lookup.eq_2]
    split <;> rfl

theorem lookup_none (h : ∀ e ∈ es, e.name ≠ key name) : lookup name i es = none := by
  induction es generalizing i with
  | nil => rfl
  | cons e es ih =>
    unfold lookup
    rw [if_neg (Ne.symm (h e (by simp))),ih fun e he => h e (List.mem_cons_of_mem _ he)]

theorem lookup_some (hn : e.name = key name) (h : ∀ e ∈ before, e.name ≠ key name) :
    lookup name i (before ++ e :: after) = some ⟨i + (body before).length,
      i + (body before).length + e.bytes.length,i + (body before).length + e.name.length + 1⟩ := by
  induction before generalizing i with
  | nil =>
    rw [List.nil_append,lookup,if_pos hn.symm]
    rfl
  | cons d before ih =>
    have next : i + d.bytes.length + 1 + (body before).length =
        i + (d.bytes.length + ((body before).length + 1)) := by omega
    rw [List.cons_append,lookup,if_neg (Ne.symm (h d (by simp))),
      ih fun e he => h e (List.mem_cons_of_mem _ he)]
    simp only [body_cons,List.length_append,List.length_cons,next]

def Single : List Nat → Prop
  | [] => False
  | [b] => b = 0
  | b :: c :: w => ¬ (b = 0 ∧ c = 0) ∧ Single (c :: w)

theorem single_append (nul : ∀ c ∈ w, c ≠ 0) (h : Single l) : Single (w ++ l) := by
  induction w with
  | nil => exact h
  | cons b w ih =>
    have rest := ih fun c hc => nul c (List.mem_cons_of_mem _ hc)
    rw [List.cons_append]
    cases heq : w ++ l with
    | nil =>
      rw [heq] at rest
      exact absurd rest id
    | cons c v =>
      rw [heq] at rest
      exact ⟨fun zero => nul b (by simp) zero.1,rest⟩

theorem body_single (h : es ≠ []) : Single (body es) := by
  induction es with
  | nil => exact absurd rfl h
  | cons e es ih =>
    rw [body_cons]
    apply single_append e.no_nul
    cases es with
    | nil => exact rfl
    | cons d es =>
      have rest := ih (by simp)
      obtain ⟨c,w,hb,hc⟩ := d.bytes_cons
      rw [body_cons,hb,List.cons_append] at rest ⊢
      exact ⟨fun zero => hc zero.2,rest⟩

theorem shift_single (hw : Single w) (h : At m nxt (w ++ [0])) (lt : i < nxt) (hf : w.length ≤ fuel)
    : shift fuel m i nxt = some (store m i w, i + w.length - 1) := by
  induction w generalizing m i nxt fuel with
  | nil => exact absurd hw id
  | cons b w ih =>
    obtain ⟨fuel,rfl⟩ := Nat.exists_eq_succ_of_ne_zero
      (Nat.ne_of_gt (Nat.lt_of_lt_of_le (Nat.succ_pos _) hf))
    have here : m nxt = b := h.1
    have ahead : Function.update m i b (nxt + 1) = m (nxt + 1) :=
      Function.update_of_ne (by omega) _ _
    unfold shift
    simp only [here,Function.update_self,ahead]
    cases w with
    | nil =>
      have zero : b = 0 := hw
      rw [if_pos ⟨zero,h.2.1⟩]
      rfl
    | cons c w =>
      have next : m (nxt + 1) = c := h.2.1
      rw [next,if_neg hw.1,ih hw.2 _ (by omega) (by simpa using hf)]
      · rw [store,List.length_cons (a := b)]
        congr 2
        omega
      · apply h.2.congr
        intro k low _
        exact Function.update_of_ne (by omega) _ _

theorem findEnd_single (hw : Single w) (h : At m i (w ++ [0])) (hf : w.length ≤ fuel) :
    findEnd m fuel i = some (i + w.length - 1) := by
  induction w generalizing i fuel with
  | nil => exact absurd hw id
  | cons b w ih =>
    obtain ⟨fuel,rfl⟩ := Nat.exists_eq_succ_of_ne_zero
      (Nat.ne_of_gt (Nat.lt_of_lt_of_le (Nat.succ_pos _) hf))
    have here : m i = b := h.1
    unfold findEnd
    cases w with
    | nil =>
      have zero : b = 0 := hw
      have next : m (i + 1) = 0 := h.2.1
      rw [if_neg (by simp [here,next,zero])]
      rfl
    | cons c w =>
      have next : m (i + 1) = c := h.2.1
      rw [if_pos (by rw [here,next]; exact not_and_or.mp hw.1),ih hw.2 h.2 (by simpa using hf),
        List.length_cons (a := b)]
      congr 1
      omega

theorem bytesOf_at (h : At m i l) : bytesOf m i (i + l.length) = l := by
  unfold bytesOf
  rw [Nat.add_sub_cancel_left]
  induction l generalizing i with
  | nil => rfl
  | cons b l ih =>
    rw [List.length_cons,List.range_succ_eq_map,List.map_cons,List.map_map,Nat.add_zero,h.1]
    congr 1
    rw [← ih h.2]
    simp only [List.length_map,List.length_range]
    apply List.map_congr_left
    intro k _
    simp only [Function.comp_apply]
    congr 1
    omega

end Loops

end Apc8750.Env
