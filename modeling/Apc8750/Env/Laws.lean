import Apc8750.Env.Crc
import Apc8750.Env.Layout

namespace Apc8750.Env
open Cells Function

structure WellFormed (area : Nat) (m : Mem) (es : List Entry) : Prop where
  distinct : (es.map Entry.name).Nodup
  held : At m 0 (layout es)
  inside : (layout es).length ≤ area

def answer (es : List Entry) (name : List Nat) (varlen : Int) : GetReply :=
  match es.find? fun e => e.name = key name with
  | none => ⟨1, [0], if 0 > varlen then 0 else varlen⟩
  | some e =>
    if (e.value.length : Int) > varlen then ⟨1, e.value ++ [0], e.value.length⟩
    else ⟨0, e.value ++ [0], varlen⟩

def without (name : List Nat) (es : List Entry) : List Entry := es.filter fun e => e.name ≠ key name

variable {m m' : Mem} {name value : List Nat} {e : Entry} {es es' before after : List Entry}
  {i area envMaxSize : Nat} {update old : Bool}

theorem space_succ : space = 4294967295 + 1 := by decide

theorem length_lt_layout (es : List Entry) : es.length < (layout es).length := by
  induction es with
  | nil => decide
  | cons e es ih =>
    simp only [layout,body_cons,List.length_append,List.length_cons] at *
    omega

theorem find_split (h : es.find? (fun e => e.name = key name) = some e) :
    ∃ before after, es = before ++ e :: after ∧ e.name = key name ∧
      ∀ d ∈ before, d.name ≠ key name := by
  obtain ⟨found,before,after,split,none⟩ := List.find?_eq_some_iff_append.mp h
  exact ⟨before,after,split,by simpa using found,by simpa using none⟩

theorem lookup_find (name : List Nat) (es : List Entry) :
    (lookup name 0 es = none ∧ ∀ e ∈ es, e.name ≠ key name) ∨
    ∃ before e after, es = before ++ e :: after ∧ e.name = key name ∧
      (∀ d ∈ before, d.name ≠ key name) ∧
      lookup name 0 es = some ⟨(body before).length,(body before).length + e.bytes.length,
        (body before).length + e.name.length + 1⟩ := by
  cases found : es.find? fun e => e.name = key name with
  | none =>
    have none : ∀ e ∈ es, e.name ≠ key name := by simpa using found
    exact .inl ⟨lookup_none none,none⟩
  | some e =>
    obtain ⟨before,after,rfl,hn,none⟩ := find_split found
    refine .inr ⟨before,e,after,rfl,hn,none,?_⟩
    have found : lookup name 0 (before ++ e :: after) = some _ := lookup_some hn none
    simpa only [Nat.zero_add] using found

theorem search_held (h : At m 0 (layout es)) (small : (layout es).length ≤ space) :
    search m name space 0 = some (lookup name 0 es) :=
  search_layout h small (Nat.lt_of_lt_of_le (length_lt_layout es) small)

theorem WellFormed.search (h : WellFormed area m es) (ha : area ≤ space) :
    search m name space 0 = some (lookup name 0 es) :=
  search_held h.held (h.inside.trans ha)

theorem lookup_value (h : At m 0 (layout es)) (name : List Nat) :
    (es.find? (fun e => e.name = key name) = none ∧ lookup name 0 es = none) ∨
    ∃ e f, es.find? (fun e => e.name = key name) = some e ∧ lookup name 0 es = some f ∧
      bytesOf m f.val f.nxt = e.value := by
  cases found : es.find? fun e => e.name = key name with
  | none =>
    have none : ∀ e ∈ es, e.name ≠ key name := by simpa using found
    exact .inl ⟨rfl,lookup_none none⟩
  | some e =>
    obtain ⟨before,after,rfl,hn,none⟩ := find_split found
    refine .inr ⟨e,_,rfl,lookup_some hn none,?_⟩
    have split : layout (before ++ e :: after) =
        body before ++ e.name ++ [61] ++ e.value ++ (0 :: body after ++ [0]) := by
      simp [layout,Entry.bytes]
    rw [split] at h
    have value := bytesOf_at (at_append.mp (at_append.mp h).1).2
    simp only [List.length_append,List.length_singleton] at value
    rw [← value]
    congr 1
    · dsimp only
      omega
    · simp only [Entry.bytes,List.length_append,List.length_cons]
      omega

theorem getsyspara_answer (h : WellFormed area m es) (ha : area ≤ space) (varlen : Int) :
    getsyspara m name varlen = some (answer es name varlen) := by
  unfold getsyspara answer
  rw [h.search ha]
  rcases lookup_value h.held name with ⟨found,eq⟩ | ⟨e,f,found,eq,value⟩
  · rw [found,eq]
  · rw [found,eq]
    simp only [value]
    split <;> rfl

theorem delete_held (h : At m 0 (layout (before ++ e :: after)))
    (small : (layout (before ++ e :: after)).length ≤ space) (val : Nat) :
    ∃ m', delete m ⟨(body before).length,(body before).length + e.bytes.length,val⟩ = some m' ∧
      At m' 0 (layout (before ++ after)) ∧ (before ++ after = [] → m' 1 = 0) ∧
      ∀ k, (layout (before ++ e :: after)).length ≤ k → m' k = m k := by
  have split : layout (before ++ e :: after) =
      body before ++ (e.bytes ++ ([0] ++ (body after ++ [0]))) := by simp [layout]
  have pos := e.bytes_pos
  rw [split] at h small ⊢
  simp only [List.length_append,List.length_singleton]
  obtain ⟨hb,h⟩ := at_append.mp h
  obtain ⟨_,h⟩ := at_append.mp h
  obtain ⟨_,rest⟩ := at_append.mp h
  rw [Nat.zero_add,List.length_singleton] at rest
  have keep : ∀ b, (∀ k, k < (body before).length → b k = m k) → At b 0 (body before) := by
    intro b same
    exact hb.congr fun k _ high => same k (by omega)
  unfold delete
  dsimp only
  cases after with
  | nil =>
    have last : m ((body before).length + e.bytes.length + 1) = 0 := rest.1
    rw [if_pos last]
    by_cases first : 0 < (body before).length
    · rw [if_pos first]
      refine ⟨_,rfl,?_,?_,?_⟩
      · rw [List.append_nil,layout,at_append]
        refine ⟨keep _ fun k lt => update_of_ne (by omega) _ _,?_,trivial⟩
        rw [Nat.zero_add,update_self]
      · intro none
        rw [List.append_nil] at none
        rw [none] at first
        exact absurd first (Nat.lt_irrefl 0)
      · intro k hk
        exact update_of_ne (by omega) _ _
    · rw [if_neg first]
      have none : before = [] := by
        by_contra ne
        exact first (body_pos ne)
      subst none
      refine ⟨_,rfl,⟨?_,trivial⟩,fun _ => ?_,fun k hk => ?_⟩
      · simp [update]
      · simp [update]
      · rw [body_nil,List.length_nil] at *
        rw [update_of_ne (by omega),update_of_ne (by omega)]
  | cons d after =>
    have single : Single (body (d :: after)) := body_single (by simp)
    have more : m ((body before).length + e.bytes.length + 1) ≠ 0 := by
      obtain ⟨c,w,hd,hc⟩ := d.bytes_cons
      rw [body_cons,hd] at rest
      rw [rest.1]
      exact hc
    simp only [List.length_append] at small
    rw [if_neg more,shift_single single rest (by omega) (by omega)]
    refine ⟨_,rfl,?_,by simp,?_⟩
    rotate_left
    · intro k hk
      rw [update_of_ne (by omega),store_of_ge (by omega)]
    have tail := body_pos (List.cons_ne_nil d after)
    have edge : (body before).length + (body (d :: after)).length - 1 + 1 =
        (body before).length + (body (d :: after)).length := by omega
    rw [layout,body_append,List.append_assoc,at_append,at_append]
    refine ⟨keep _ fun k lt => ?_,?_,?_,trivial⟩
    · rw [update_of_ne (by omega),store_of_lt _ lt]
    · rw [Nat.zero_add]
      exact at_store.congr fun k _ high => update_of_ne (by omega) _ _
    · rw [edge,Nat.zero_add,update_self]

theorem without_split (hd : ((before ++ e :: after).map Entry.name).Nodup) (hn : e.name = key name)
    (none : ∀ d ∈ before, d.name ≠ key name) :
    without name (before ++ e :: after) = before ++ after := by
  have later : ∀ d ∈ after, d.name ≠ key name := by
    intro d mem eq
    rw [List.map_append,List.map_cons] at hd
    have := (List.nodup_cons.mp (List.nodup_append.mp hd).2.1).1
    exact this (by rw [hn,← eq]; exact List.mem_map_of_mem mem)
  unfold without
  rw [List.filter_append,List.filter_cons_of_neg (by simp [hn]),List.filter_eq_self.mpr,
    List.filter_eq_self.mpr]
  · intro d mem
    simpa using later d mem
  · intro d mem
    simpa using none d mem

theorem setsyspara_prepare (envMaxSize : Nat) (m : Mem) (name : List Nat)
    (value : Option (List Nat)) (update : Bool) : setsyspara envMaxSize m name value update =
      match prepare m name value with
      | none => none
      | some none => some (1,m)
      | some (some (m,old)) => define envMaxSize m name value old update := by
  unfold setsyspara prepare
  rcases search m name space 0 with _ | _ | f
  · rfl
  · rfl
  · rcases baudCheck name value with _ | _ | _
    · rfl
    · rfl
    · cases deleted : delete m f <;> simp [deleted]

theorem prepare_cases (h : WellFormed area m es) (ha : area ≤ space) (name : List Nat)
    (value : Option (List Nat)) :
    ((∀ e ∈ es, e.name ≠ key name) ∧ prepare m name value = some (some (m,false))) ∨
    ((∃ e ∈ es, e.name = key name) ∧ ((baudCheck name value = none ∧ prepare m name value = none) ∨
      (baudCheck name value = some false ∧ prepare m name value = some none) ∨
      (baudCheck name value = some true ∧ ∃ m₁, At m₁ 0 (layout (without name es)) ∧
        (without name es = [] → m₁ 1 = 0) ∧ (∀ k, (layout es).length ≤ k → m₁ k = m k) ∧
        prepare m name value = some (some (m₁,true))))) := by
  unfold prepare
  rw [h.search ha]
  rcases lookup_find name es with ⟨found,none⟩ | ⟨before,e,after,rfl,hn,none,found⟩
  · rw [found]
    exact .inl ⟨none,rfl⟩
  rw [found]
  refine .inr ⟨⟨e,by simp,hn⟩,?_⟩
  obtain ⟨m₁,deleted,held,empty,frame⟩ := delete_held h.held (h.inside.trans ha)
    ((body before).length + e.name.length + 1)
  have rest := without_split h.distinct hn none
  cases baud : baudCheck name value with
  | none => exact .inl ⟨rfl,rfl⟩
  | some ok =>
    cases ok with
    | false => exact .inr (.inl ⟨rfl,rfl⟩)
    | true =>
      refine .inr (.inr ⟨rfl,m₁,rest ▸ held,rest ▸ empty,frame,?_⟩)
      dsimp only
      rw [deleted]
      rfl

theorem set_cases (h : WellFormed area m es) (ha : area ≤ space) (name : List Nat)
    (value : Option (List Nat)) (update : Bool) :
    ((∀ e ∈ es, e.name ≠ key name) ∧
      setsyspara envMaxSize m name value update = define envMaxSize m name value false update) ∨
    ((∃ e ∈ es, e.name = key name) ∧
      ((baudCheck name value = none ∧ setsyspara envMaxSize m name value update = none) ∨
      (baudCheck name value = some false ∧
        setsyspara envMaxSize m name value update = some (1,m)) ∨
      (baudCheck name value = some true ∧ ∃ m₁, At m₁ 0 (layout (without name es)) ∧
        (without name es = [] → m₁ 1 = 0) ∧ (∀ k, (layout es).length ≤ k → m₁ k = m k) ∧
        setsyspara envMaxSize m name value update =
          define envMaxSize m₁ name value true update))) := by
  rw [setsyspara_prepare]
  rcases prepare_cases h ha name value with ⟨none,eq⟩ | ⟨found,⟨bad,eq⟩ | ⟨bad,eq⟩ |
    ⟨ok,m₁,held,empty,frame,eq⟩⟩
  · exact .inl ⟨none,by rw [eq]⟩
  · exact .inr ⟨found,.inl ⟨bad,by rw [eq]⟩⟩
  · exact .inr ⟨found,.inr (.inl ⟨bad,by rw [eq]⟩)⟩
  · exact .inr ⟨found,.inr (.inr ⟨ok,m₁,held,empty,frame,by rw [eq]⟩)⟩

theorem findEnd_held (h : At m 0 (layout es)) (small : (layout es).length ≤ space)
    (empty : es = [] → m 1 = 0) : ∃ env, findEnd m space 0 = some env ∧
      (if 0 < env then env + 1 else env) = (body es).length := by
  cases es with
  | nil =>
    have zero : m 0 = 0 := h.1
    refine ⟨0,?_,rfl⟩
    rw [space_succ,findEnd,if_neg (by simp [zero,empty rfl])]
  | cons e es =>
    have pos := e.bytes_pos
    simp only [layout,List.length_append] at small
    refine ⟨(body (e :: es)).length - 1,?_,?_⟩
    · rw [findEnd_single (body_single (by simp)) h (by omega),Nat.zero_add]
    · rw [body_cons,List.length_append,List.length_cons,if_pos (by omega)]
      omega

theorem define_value (h : At m 0 (layout es)) (small : (layout es).length ≤ space)
    (empty : es = [] → m 1 = 0) (hv : value ≠ []) :
    define envMaxSize m name (some value) old update =
      if (body es).length + (name.length + 2 + value.length) > envMaxSize then some (1,m)
      else some (if update then 0 else 1,
        store m (body es).length (name ++ 61 :: value ++ [0,0])) := by
  obtain ⟨env,found,start⟩ := findEnd_held h small empty
  obtain ⟨c,v,rfl⟩ := List.exists_cons_of_ne_nil hv
  unfold define
  rw [found]
  dsimp only
  rw [start]

theorem define_empty : define envMaxSize m name (some []) old update =
    if old then some (if update then 0 else 1, m) else some (1,m) := rfl

theorem stored_held (h : At m 0 (layout es)) (e : Entry) :
    At (store m (body es).length (e.name ++ 61 :: e.value ++ [0,0])) 0 (layout (es ++ [e])) := by
  have split : layout (es ++ [e]) = body es ++ (e.name ++ 61 :: e.value ++ [0,0]) := by
    simp [layout,Entry.bytes]
  rw [split,at_append,Nat.zero_add]
  refine ⟨?_,at_store⟩
  apply (at_append.mp h).1.congr
  intro k _ high
  exact store_of_lt _ (by omega)

theorem layout_unique (h : At m i (layout es)) (h' : At m i (layout es')) :
    es.map Entry.bytes = es'.map Entry.bytes := by
  induction es generalizing i es' with
  | nil =>
    have zero : m i = 0 := h.1
    cases es' with
    | nil => rfl
    | cons d es' =>
      obtain ⟨c,w,hb,hc⟩ := d.bytes_cons
      rw [layout,body_cons,hb] at h'
      exact absurd (zero.symm.trans h'.1).symm hc
  | cons e es ih =>
    cases es' with
    | nil =>
      obtain ⟨c,w,hb,hc⟩ := e.bytes_cons
      rw [layout,body_cons,hb] at h
      have zero : m i = 0 := h'.1
      exact absurd (zero.symm.trans h.1).symm hc
    | cons d es' =>
      have split : ∀ (e : Entry) es, layout (e :: es) = e.bytes ++ [0] ++ layout es := by
        intro e es
        simp [layout]
      rw [split] at h h'
      obtain ⟨first,rest⟩ := at_append.mp h
      obtain ⟨first',rest'⟩ := at_append.mp h'
      have ends := strEnd_at first e.no_nul
        (by omega : e.bytes.length < e.bytes.length + d.bytes.length + 1)
      have ends' := strEnd_at first' d.no_nul
        (by omega : d.bytes.length < e.bytes.length + d.bytes.length + 1)
      have same : e.bytes.length = d.bytes.length := by
        have := Option.some.inj (ends.symm.trans ends')
        omega
      obtain ⟨more,eq⟩ := (at_append.mp first).1.initial (at_append.mp first').1 same.le
      have none : more = [] := by
        rw [eq,List.length_append] at same
        exact List.eq_nil_of_length_eq_zero (by omega)
      rw [none,List.append_nil] at eq
      simp only [List.length_append,List.length_singleton,same] at rest rest'
      rw [List.map_cons,List.map_cons,eq,ih rest rest']

theorem layout_length_unique (h : At m i (layout es)) (h' : At m i (layout es')) :
    (layout es).length = (layout es').length := by
  have flat : ∀ es, body es = (es.map Entry.bytes).flatMap (· ++ [0]) := by
    intro es
    rw [List.flatMap_map]
    rfl
  unfold layout
  rw [flat,flat,layout_unique h h']

theorem memOf_at (data : List Nat) (beyond : Mem) : At (memOf data beyond) 0 data := by
  apply at_of_getD (d := 0)
  intro k hk
  rw [Nat.zero_add,memOf,List.getD_eq_getElem?_getD,List.getD_eq_getElem?_getD,
    List.getElem?_eq_getElem hk]
  rfl

def second : List Nat := first ++ [0, 114, 61, 101, 87, 97, 69]

theorem set_padded (h : At m 0 (padded first (zeros + 9))) (small : 17 ≤ size) :
    ∃ m', setsyspara size m [114] (some [101,87,97,69]) true = some (0,m') ∧
      At m' 0 (padded second (zeros + 2)) := by
  let e : Entry := ⟨[98,97],[84,47,99,111],by decide,by decide⟩
  have split : padded first (zeros + 9) =
      layout [e] ++ ([0,0,0,0,0,0,0] ++ (List.replicate zeros 0 ++ [1])) := by
    unfold padded
    rw [Nat.add_comm zeros,← List.replicate_append_replicate]
    rfl
  rw [split] at h
  obtain ⟨head,tail⟩ := at_append.mp h
  obtain ⟨_,tail⟩ := at_append.mp tail
  have wf : WellFormed 9 m [e] := ⟨by simp,head,by decide⟩
  rcases set_cases wf (by decide) [114] (some [101,87,97,69]) true with
    ⟨_,eq⟩ | ⟨⟨d,mem,same⟩,_⟩
  · have fits : ¬ (body [e]).length + ([114].length + 2 + [101,87,97,69].length) > size := by
      have : (body [e]).length + ([114].length + 2 + [101,87,97,69].length) = 15 := by decide
      omega
    rw [define_value head (by decide) (by simp) (by simp),if_neg fits] at eq
    refine ⟨_,eq,?_⟩
    have split' : padded second (zeros + 2) =
        body [e] ++ ([114] ++ 61 :: [101,87,97,69] ++ [0,0] ++ (List.replicate zeros 0 ++ [1])) := by
      unfold padded
      rw [Nat.add_comm zeros,← List.replicate_append_replicate]
      rfl
    rw [split',at_append,at_append,Nat.zero_add]
    refine ⟨?_,at_store,?_⟩
    · apply (at_append.mp head).1.congr
      intro k _ high
      exact store_of_lt _ (by omega)
    apply At.congr (m := m)
    · exact tail
    · intro k low _
      exact store_of_ge low
  · cases List.mem_singleton.mp mem
    exact absurd same (by decide)

end Apc8750.Env
