import Apc8750.Env.SetGet

namespace Apc8750.Env
open Cells

def SameLast (es : List Entry) (name value : List Nat) : Prop :=
  ∃ e, es = without name es ++ [e] ∧ e.bytes = name ++ 61 :: value

def TooBig (envMaxSize : Nat) (es : List Entry) (name value : List Nat) : Prop :=
  envMaxSize < (body (without name es)).length + (name.length + 2 + value.length)

/-- A deletion or definition that is not written, and a definition that overflows after the old one
is gone. -/
inductive Changes (envMaxSize : Nat) (es : List Entry) (name : List Nat)
    (value : Option (List Nat)) (update : Bool) : Prop where
  | deleted (old : ∃ e ∈ es, e.name = key name) (baud : baudCheck name value = some true)
      (empty : value.getD [] = []) (fails : update = false)
  | overflow (old : ∃ e ∈ es, e.name = key name) (baud : baudCheck name value = some true)
      (v : List Nat) (given : value = some v) (ne : v ≠ []) (big : TooBig envMaxSize es name v)
  | unwritten (baud : (∃ e ∈ es, e.name = key name) → baudCheck name value = some true)
      (v : List Nat) (given : value = some v) (ne : v ≠ []) (small : ¬ TooBig envMaxSize es name v)
      (fails : update = false) (differs : ¬ SameLast es name v)

variable {m m₁ : Mem} {name v : List Nat} {es : List Entry} {e : Entry}

theorem entry_of (hn : ∀ c ∈ name, c ≠ 0) (hv : ∀ c ∈ v, c ≠ 0) :
    ∃ e : Entry, e.bytes = name ++ 61 :: v ∧ e.name = key name := by
  have split := List.takeWhile_append_dropWhile (p := (· ≠ 61)) (l := name)
  have ok : ∀ c ∈ key name, c ≠ 0 ∧ c ≠ 61 := by
    intro c hc
    refine ⟨hn c (List.takeWhile_subset _ hc),?_⟩
    simpa using List.mem_takeWhile_imp hc
  cases rest : name.dropWhile (· ≠ 61) with
  | nil =>
    rw [rest,List.append_nil] at split
    refine ⟨⟨key name,v,ok,hv⟩,?_,rfl⟩
    rw [Entry.bytes]
    exact congrArg (· ++ 61 :: v) split
  | cons c t =>
    have hc : c = 61 := by
      have stop := List.head?_dropWhile_not (· ≠ 61) name
      rw [rest] at stop
      simpa using stop
    have nul : ∀ d ∈ t ++ 61 :: v, d ≠ 0 := by
      intro d hd
      rcases List.mem_append.mp hd with hd | hd
      · apply hn
        rw [← split,rest]
        exact List.mem_append_right _ (List.mem_cons_of_mem _ hd)
      · rcases List.mem_cons.mp hd with rfl | hd
        · decide
        · exact hv d hd
    refine ⟨⟨key name,t ++ 61 :: v,ok,nul⟩,?_,rfl⟩
    calc key name ++ 61 :: (t ++ 61 :: v) = (key name ++ name.dropWhile (· ≠ 61)) ++ 61 :: v := by
          rw [rest,hc,List.append_assoc,List.cons_append]
      _ = name ++ 61 :: v := by rw [key,split]

theorem key_bytes (h : e.bytes = name ++ 61 :: v) : e.name = key name := by
  have left : key e.bytes = e.name := by
    unfold key Entry.bytes
    rw [List.takeWhile_append_of_pos (by simpa using fun c hc => (e.nameOk c hc).2)]
    simp
  have right : key (name ++ 61 :: v) = key name := by
    unfold key
    rw [List.takeWhile_append]
    split
    · rename_i all
      rw [List.takeWhile_cons_of_neg (by simp),List.append_nil]
      exact ((List.takeWhile_prefix _).eq_of_length all).symm
    · rfl
  rw [← left,h,right]

theorem layout_without_lt (he : e ∈ es) (hn : e.name = key name) :
    (layout (without name es)).length < (layout es).length := by
  obtain ⟨before,after,rfl⟩ := List.append_of_mem he
  have h1 := layout_without_le name before
  have h2 := layout_without_le name after
  have split : without name (before ++ e :: after) = without name before ++ without name after := by
    unfold without
    rw [List.filter_append,List.filter_cons_of_neg (by simp [hn])]
  rw [split]
  simp only [layout,body_append,body_cons,List.length_append,List.length_cons] at *
  omega

theorem deleted_ne (h : At m 0 (layout es)) (he : ∃ e ∈ es, e.name = key name)
    (held : At m₁ 0 (layout (without name es))) : m₁ ≠ m := by
  rintro rfl
  obtain ⟨e,he,hn⟩ := he
  exact absurd (layout_length_unique held h) (layout_without_lt he hn).ne

theorem defined_eq (h : At m 0 (layout es)) (hn : ∀ c ∈ name, c ≠ 0)
    (hv : ∀ c ∈ v, c ≠ 0) (held : At m₁ 0 (layout (without name es)))
    (frame : ∀ k, (layout es).length ≤ k → m₁ k = m k) :
    store m₁ (body (without name es)).length (name ++ 61 :: v ++ [0,0]) = m ↔
      SameLast es name v := by
  constructor
  · intro eq
    obtain ⟨n,bytes,keyed⟩ := entry_of hn hv
    have now := stored_held held n
    have same : n.name ++ 61 :: n.value = name ++ 61 :: v := bytes
    rw [same,eq] at now
    have lists := layout_unique h now
    rw [List.map_append,List.map_singleton] at lists
    obtain ⟨init,last,rfl,hi,hl⟩ : ∃ init last, es = init ++ [last] ∧
        init.map Entry.bytes = (without name es).map Entry.bytes ∧ last.bytes = n.bytes := by
      obtain ⟨init,last,rfl,hi,hl⟩ := List.map_eq_append_iff.mp lists
      obtain ⟨last,rfl,bytes⟩ := List.map_eq_singleton_iff.mp hl
      exact ⟨init,last,rfl,hi,bytes⟩
    refine ⟨last,?_,hl.trans bytes⟩
    have gone : without name [last] = [] := by
      simp [without,key_bytes (hl.trans bytes)]
    have split : without name (init ++ [last]) = without name init := by
      unfold without at *
      rw [List.filter_append,gone,List.append_nil]
    rw [split] at hi ⊢
    have count : init.length = (without name init).length := by
      have := congrArg List.length hi
      simpa using this
    have whole : without name init = init := by
      unfold without at *
      exact List.filter_sublist.eq_of_length count.symm
    rw [whole]
  · rintro ⟨e,split,bytes⟩
    have all : layout es = body (without name es) ++ (name ++ 61 :: v ++ [0,0]) := by
      have : body es = body (without name es) ++ (e.bytes ++ [0]) := by
        conv_lhs => rw [split]
        simp
      rw [layout,this,bytes]
      simp
    have whole := h
    rw [all] at h
    obtain ⟨first,last⟩ := at_append.mp h
    rw [Nat.zero_add] at last
    funext k
    rcases Nat.lt_or_ge k (body (without name es)).length with lt | ge
    · rw [store_of_lt _ lt]
      have here := (at_append.mp held).1
      exact At.same first here k (Nat.zero_le k) (by omega)
    rcases Nat.lt_or_ge k (layout es).length with lt' | ge'
    · rw [all,List.length_append] at lt'
      exact At.same last at_store k ge (by omega)
    · rw [store_of_ge,frame k ge']
      rw [all,List.length_append] at ge'
      exact ge'

theorem define_changes (held : At m₁ 0 (layout (without name es)))
    (small : (layout (without name es)).length ≤ space) (empty : without name es = [] → m₁ 1 = 0)
    (defined : old = true ↔ ∃ e ∈ es, e.name = key name) (same : m₁ = m ↔ old = false)
    (baud : old = true → baudCheck name value = some true)
    (last : ∀ v, value = some v → (store m₁ (body (without name es)).length
      (name ++ 61 :: v ++ [0,0]) = m ↔ SameLast es name v))
    (hs : define envMaxSize m₁ name value old update = some (r,m')) :
    (r ≠ 0 → m' = m) ↔ ¬ Changes envMaxSize es name value update := by
  have deleting : value.getD [] = [] →
      ((r ≠ 0 → m' = m) ↔ ¬ Changes envMaxSize es name value update) := by
    intro nothing
    have eq : (if old then some (if update then 0 else 1, m₁) else some (1,m₁)) =
        some (r,m') := by
      rw [← hs]
      rcases value with _ | _ | ⟨c,v⟩
      · rfl
      · rfl
      · cases nothing
    constructor
    · rintro kept (⟨found,ok,_,fails⟩ | ⟨_,_,v,rfl,ne,_⟩ | ⟨_,v,rfl,ne,_⟩)
      · have isOld := defined.mpr found
        simp only [isOld,fails,if_pos] at eq
        obtain ⟨rfl,rfl⟩ : 1 = r ∧ m₁ = m' := by simpa using eq
        exact absurd (same.mp (kept Nat.one_ne_zero)) (by simp [isOld])
      · exact ne nothing
      · exact ne nothing
    intro unchanged ne
    cases isOld : old with
    | false =>
      rw [isOld] at eq same
      obtain ⟨_,rfl⟩ : 1 = r ∧ m₁ = m' := by simpa using eq
      exact same.mpr rfl
    | true =>
      rw [isOld] at eq
      cases update with
      | true =>
        obtain ⟨rfl,_⟩ : 0 = r ∧ m₁ = m' := by simpa using eq
        exact absurd rfl ne
      | false => exact absurd (.deleted (defined.mp isOld) (baud isOld) nothing rfl) unchanged
  rcases value with _ | v
  · exact deleting rfl
  by_cases nothing : v = []
  · exact deleting nothing
  rw [define_value held small empty nothing] at hs
  split at hs
  · rename_i big
    obtain ⟨rfl,rfl⟩ : 1 = r ∧ m₁ = m' := by simpa using hs
    rw [imp_iff_right Nat.one_ne_zero,same]
    constructor
    · rintro isOld (⟨found,_⟩ | ⟨found,_⟩ | ⟨_,_,given,_,fine,_⟩)
      · exact absurd (defined.mpr found) (by simp [isOld])
      · exact absurd (defined.mpr found) (by simp [isOld])
      · cases given
        exact fine big
    · intro unchanged
      by_contra isOld
      rw [Bool.not_eq_false] at isOld
      exact unchanged (.overflow (defined.mp isOld) (baud isOld) v rfl nothing big)
  · rename_i fine
    obtain ⟨rfl,rfl⟩ : (if update then 0 else 1) = r ∧
        store m₁ (body (without name es)).length (name ++ 61 :: v ++ [0,0]) = m' := by
      simpa using hs
    constructor
    · rintro kept (⟨_,_,none,_⟩ | ⟨_,_,_,given,_,big⟩ | ⟨_,_,given,_,_,fails,ne⟩)
      · exact nothing none
      · cases given
        exact fine big
      · cases given
        exact ne ((last v rfl).mp (kept (by simp [fails])))
    intro unchanged failed
    have fails : update = false := by simpa using failed
    rw [last v rfl]
    by_contra ne
    exact unchanged (.unwritten (fun found => baud (defined.mpr found)) v rfl nothing fine
      fails ne)

theorem set_changes (h : WellFormed area m es) (ha : area ≤ space) (two : es = [] → m 1 = 0)
    (hn : ∀ c ∈ name, c ≠ 0) (hv : ∀ v ∈ value, ∀ c ∈ v, c ≠ 0)
    (hs : setsyspara envMaxSize m name value update = some (r,m')) :
    (r ≠ 0 → m' = m) ↔ ¬ Changes envMaxSize es name value update := by
  have small := (layout_without_le name es).trans (h.inside.trans ha)
  rcases set_cases h ha name value update with ⟨none,eq⟩ | ⟨found,⟨_,eq⟩ | ⟨bad,eq⟩ |
    ⟨ok,m₁,held,empty,frame,eq⟩⟩
  · have rest := without_none none
    have held := h.held
    rw [← rest] at held two
    apply define_changes held small two (by simpa using none) (by simp) (by simp) ?_ (eq ▸ hs)
    intro v given
    exact defined_eq h.held hn (hv v given) held fun _ _ => rfl
  · simp [eq] at hs
  · obtain ⟨rfl,rfl⟩ : 1 = r ∧ m = m' := by simpa [eq] using hs
    refine iff_of_true (fun _ => rfl) ?_
    rintro (⟨_,baud,_⟩ | ⟨_,baud,_⟩ | ⟨baud,_⟩)
    · simp [bad] at baud
    · simp [bad] at baud
    · simp [bad] at baud
      obtain ⟨e,he,hk⟩ := found
      exact baud e he hk
  · apply define_changes held small empty (by simpa using found) ?_ (fun _ => ok) ?_ (eq ▸ hs)
    · simpa using deleted_ne h.held found held
    · intro v given
      exact defined_eq h.held hn (hv v given) held frame

def Overruns (envMaxSize area : Nat) (es : List Entry) (name : List Nat)
    (value : Option (List Nat)) : Prop :=
  ∃ v, value = some v ∧ v ≠ [] ∧ ¬ TooBig envMaxSize es name v ∧
    area < (layout (without name es)).length + name.length + v.length + 2

theorem set_wellFormed (h : WellFormed area m es) (ha : area ≤ space) (two : es = [] → m 1 = 0)
    (hn : ∀ c ∈ name, c ≠ 0) (hv : ∀ v ∈ value, ∀ c ∈ v, c ≠ 0)
    (fits : ¬ Overruns envMaxSize area es name value)
    (hs : setsyspara envMaxSize m name value update = some (0,m')) :
    update = true ∧ ∃ es', WellFormed area m' es' ∧ (es' = [] → m' 1 = 0) := by
  have small := (layout_without_le name es).trans (h.inside.trans ha)
  obtain ⟨m₁,old,held,empty,eq⟩ : ∃ m₁ old, At m₁ 0 (layout (without name es)) ∧
      (without name es = [] → m₁ 1 = 0) ∧
      define envMaxSize m₁ name value old update = some (0,m') := by
    rcases set_cases h ha name value update with ⟨none,eq⟩ | ⟨_,⟨_,eq⟩ | ⟨_,eq⟩ |
      ⟨_,m₁,held,empty,_,eq⟩⟩
    · refine ⟨m,false,?_,?_,eq ▸ hs⟩ <;> rw [without_none none]
      · exact h.held
      · exact two
    · simp [eq] at hs
    · simp [eq] at hs
    · exact ⟨m₁,true,held,empty,eq ▸ hs⟩
  have rest : WellFormed area m₁ (without name es) :=
    ⟨without_nodup h.distinct,held,(layout_without_le name es).trans h.inside⟩
  have deleting : define envMaxSize m₁ name (some []) old update = some (0,m') →
      update = true ∧ ∃ es', WellFormed area m' es' ∧ (es' = [] → m' 1 = 0) := by
    intro eq
    cases old <;> cases update <;> simp [define_empty] at eq
    exact ⟨rfl,_,eq ▸ rest,eq ▸ empty⟩
  rcases value with _ | v
  · exact deleting eq
  by_cases nothing : v = []
  · exact deleting (nothing ▸ eq)
  rw [define_value held small empty nothing] at eq
  split at eq
  · simp at eq
  rename_i fine
  obtain ⟨ok,rfl⟩ : update = true ∧
      store m₁ (body (without name es)).length (name ++ 61 :: v ++ [0,0]) = m' := by
    simpa using eq
  obtain ⟨n,bytes,keyed⟩ := entry_of hn (hv v rfl)
  have now := stored_held held n
  have same : n.name ++ 61 :: n.value = name ++ 61 :: v := bytes
  rw [same] at now
  refine ⟨ok,_,⟨?_,now,?_⟩,by simp⟩
  · rw [List.map_append,List.nodup_append]
    refine ⟨rest.distinct,by simp,?_⟩
    intro a ha b hb eq
    obtain ⟨e,he,rfl⟩ := List.mem_map.mp ha
    apply (mem_without.mp he).2
    rw [eq,List.mem_singleton.mp hb,keyed]
  by_contra big
  apply fits
  refine ⟨v,rfl,nothing,fine,?_⟩
  have size := congrArg List.length bytes
  simp only [layout,body_append,body_cons,body_nil,List.length_append,
    List.length_cons,List.length_nil] at *
  omega

end Apc8750.Env
