import Mathlib.Data.List.TakeWhile
import Apc8750.Env.Laws

namespace Apc8750.Env
open Cells

variable {m m' : Mem} {name value : List Nat} {es : List Entry} {area envMaxSize : Nat}

structure NameOk (name : List Nat) : Prop where
  nonempty : name ≠ []
  bytes : ∀ c ∈ name, c ≠ 0 ∧ c ≠ 61

structure Law (area : Nat) (m m' : Mem) (es : List Entry) (name value : List Nat) : Prop where
  wellFormed : ∃ es', WellFormed area m' es' ∧ without name es' = without name es
  defined : value ≠ [] → ∀ varlen : Int, value.length ≤ varlen →
    getsyspara m' name varlen = some ⟨0, value ++ [0], varlen⟩
  undefined : value = [] → ∀ varlen : Int, 0 ≤ varlen →
    getsyspara m' name varlen = some ⟨1, [0], varlen⟩
  others : ∀ other, (∀ c ∈ other, c ≠ 61) → other ≠ name → ∀ varlen,
    getsyspara m' other varlen = getsyspara m other varlen

/-- The definition fits behind the others, and an empty block ends in two NULs. -/
def Fits (area : Nat) (m : Mem) (es : List Entry) (name value : List Nat) : Prop :=
  (es = [] → m 1 = 0) ∧ (layout (without name es)).length + name.length + value.length + 2 ≤ area

theorem key_eq (h : ∀ c ∈ name, c ≠ 61) : key name = name := by
  unfold key
  rw [List.takeWhile_eq_self_iff]
  simpa using h

theorem NameOk.key (h : NameOk name) : key name = name := key_eq fun c hc => (h.bytes c hc).2

def NameOk.entry (h : NameOk name) (hv : ∀ c ∈ value, c ≠ 0) : Entry :=
  ⟨name, value, h.bytes, hv⟩

theorem find_without (hn : NameOk name) (ho : ∀ c ∈ other, c ≠ 61) (ne : other ≠ name)
    (es : List Entry) :
    (without name es).find? (fun e => e.name = key other) = es.find? fun e => e.name = key other := by
  unfold without
  rw [List.find?_filter]
  congr 1
  funext e
  rw [hn.key,key_eq ho]
  by_cases eq : e.name = other
  · simp [eq,ne]
  · simp [eq]

theorem answer_without {other : List Nat} (hn : NameOk name) (ho : ∀ c ∈ other, c ≠ 61)
    (ne : other ≠ name) {es es' : List Entry} (h : without name es' = without name es) (varlen : Int) :
    answer es' other varlen = answer es other varlen := by
  unfold answer
  rw [← find_without hn ho ne es',h,find_without hn ho ne es]

theorem without_without (name : List Nat) (es : List Entry) :
    without name (without name es) = without name es := by
  unfold without
  rw [List.filter_filter]
  simp

theorem without_none (h : ∀ e ∈ es, e.name ≠ key name) : without name es = es := by
  unfold without
  rw [List.filter_eq_self]
  simpa using h

theorem answer_none (h : ∀ e ∈ es, e.name ≠ key name) (hl : 0 ≤ varlen) :
    answer es name varlen = ⟨1,[0],varlen⟩ := by
  have none : es.find? (fun e => e.name = key name) = none := by
    simpa using h
  unfold answer
  rw [none,if_neg (by omega)]

theorem mem_without {e : Entry} : e ∈ without name es ↔ e ∈ es ∧ e.name ≠ key name := by
  simp [without]

theorem without_nodup (h : (es.map Entry.name).Nodup) : ((without name es).map Entry.name).Nodup :=
  h.sublist (List.filter_sublist.map _)

theorem layout_without_le (name : List Nat) (es : List Entry) :
    (layout (without name es)).length ≤ (layout es).length := by
  induction es with
  | nil => exact le_rfl
  | cons e es ih =>
    unfold without at *
    rw [List.filter_cons]
    split
    · simp only [layout,body_cons,List.length_append,List.length_cons] at *
      omega
    · simp only [layout,body_cons,List.length_append,List.length_cons] at *
      omega

theorem law_defined (h : WellFormed area m es) (ha : area ≤ space) (hn : NameOk name)
    (hv : ∀ c ∈ value, c ≠ 0) (ne : value ≠ [])
    (held : At m' 0 (layout (without name es ++ [hn.entry hv])))
    (inside : (layout (without name es ++ [hn.entry hv])).length ≤ area) :
    Law area m m' es name value := by
  have fresh : ∀ e ∈ without name es, e.name ≠ key name := fun e he => (mem_without.mp he).2
  have wf : WellFormed area m' (without name es ++ [hn.entry hv]) := by
    refine ⟨?_,held,inside⟩
    rw [List.map_append,List.nodup_append]
    refine ⟨without_nodup h.distinct,by simp,?_⟩
    intro a ha b hb eq
    obtain ⟨e,he,rfl⟩ := List.mem_map.mp ha
    have : b = name := by simpa [NameOk.entry] using hb
    exact fresh e he (by rw [eq,this,hn.key])
  have same : without name (without name es ++ [hn.entry hv]) = without name es := by
    have last : without name [hn.entry hv] = [] := by
      simp [without,NameOk.entry,hn.key]
    unfold without at *
    rw [List.filter_append,last,List.append_nil]
    exact without_without name es
  refine ⟨⟨_,wf,same⟩,fun _ varlen hl => ?_,fun eq => absurd eq ne,?_⟩
  · rw [getsyspara_answer wf ha]
    have found : (without name es ++ [hn.entry hv]).find? (fun e => e.name = key name) =
        some (hn.entry hv) := by
      have none : (without name es).find? (fun e => e.name = key name) = none := by
        simpa using fresh
      rw [List.find?_append,none,Option.none_or]
      exact List.find?_cons_of_pos (by simp [NameOk.entry,hn.key])
    unfold answer
    rw [found]
    exact congrArg some (if_neg (by simpa [NameOk.entry] using hl))
  · intro other ho ne' varlen
    rw [getsyspara_answer wf ha,getsyspara_answer h ha,answer_without hn ho ne' same]

theorem law_deleted (h : WellFormed area m es) (ha : area ≤ space) (hn : NameOk name)
    (held : At m' 0 (layout (without name es))) : Law area m m' es name [] := by
  have wf : WellFormed area m' (without name es) :=
    ⟨without_nodup h.distinct,held,(layout_without_le name es).trans h.inside⟩
  refine ⟨⟨_,wf,without_without name es⟩,fun ne => absurd rfl ne,fun _ varlen hl => ?_,?_⟩
  · rw [getsyspara_answer wf ha,answer_none (fun e he => (mem_without.mp he).2) hl]
  · intro other ho ne varlen
    rw [getsyspara_answer wf ha,getsyspara_answer h ha,
      answer_without hn ho ne (without_without name es)]

theorem findEnd_ge (h : findEnd m fuel i = some j) : i ≤ j := by
  induction fuel generalizing i with
  | zero => cases h
  | succ fuel ih =>
    unfold findEnd at h
    split at h
    · exact Nat.le_of_succ_le (ih h)
    · exact (Option.some.inj h).le

theorem law_unseen {c : Nat} {v : List Nat} {old : Bool} (zero : m 0 = 0) (one : m 1 ≠ 0)
    (h : define envMaxSize m name (some (c :: v)) old true = some (0,m')) :
    ¬ Law area m m' [] name (c :: v) := by
  intro law
  have kept : m' 0 = 0 := by
    unfold define at h
    cases found : findEnd m space 0 with
    | none => simp [found] at h
    | some env =>
      have pos : 0 < env := by
        rw [space_succ,findEnd,if_pos (.inr one)] at found
        exact findEnd_ge found
      simp only [found,if_pos pos] at h
      split at h
      · simp at h
      · simp only [Option.some.injEq,Prod.mk.injEq] at h
        rw [← h.2,store_of_lt _ (Nat.succ_pos env),zero]
  have get : ∀ varlen : Int, 0 ≤ varlen → getsyspara m' name varlen = some ⟨1,[0],varlen⟩ := by
    intro varlen hl
    unfold getsyspara
    rw [space_succ,search,if_pos kept]
    exact congrArg some (by rw [if_neg (by omega)])
  have := law.defined (by simp) (c :: v).length le_rfl
  rw [get _ (Int.natCast_nonneg _)] at this
  simp at this

/-- A call that returns 0 obeys the laws exactly when it deletes, or the definition fits and an
empty block has two NULs. -/
theorem setsyspara_laws (h : WellFormed area m es) (ha : area ≤ space) (hn : NameOk name)
    (hv : ∀ c ∈ value, c ≠ 0)
    (hs : setsyspara envMaxSize m name (some value) true = some (0, m')) :
    Law area m m' es name value ↔ (value ≠ [] → Fits area m es name value) := by
  have small : (layout (without name es)).length ≤ space :=
    (layout_without_le name es).trans (h.inside.trans ha)
  have start : (es = [] → m 1 = 0) ∨ (es = [] ∧ m 1 ≠ 0) := by
    by_cases eq : m 1 = 0
    · exact .inl fun _ => eq
    · by_cases none : es = []
      · exact .inr ⟨none, eq⟩
      · exact .inl fun h => absurd h none
  rcases start with two | ⟨rfl, one⟩
  · have defined : ∃ m₁ old, At m₁ 0 (layout (without name es)) ∧ (without name es = [] → m₁ 1 = 0) ∧
        define envMaxSize m₁ name (some value) old true = some (0, m') := by
      rcases set_cases h ha name (some value) true with ⟨none, eq⟩ | ⟨_, ⟨_, eq⟩ | ⟨_, eq⟩ |
        ⟨_, m₁, held, empty, _, eq⟩⟩
      · refine ⟨m, false, ?_, ?_, eq ▸ hs⟩ <;> rw [without_none none]
        · exact h.held
        · exact two
      · simp [eq] at hs
      · simp [eq] at hs
      · exact ⟨m₁, true, held, empty, eq ▸ hs⟩
    obtain ⟨m₁, old, held, empty, eq⟩ := defined
    by_cases del : value = []
    · subst del
      rw [define_empty] at eq
      cases old with
      | false => simp at eq
      | true =>
        have : m₁ = m' := by simpa using eq
        exact iff_of_true (law_deleted h ha hn (this ▸ held)) fun ne => absurd rfl ne
    rw [define_value held small empty del] at eq
    split at eq
    · simp at eq
    have stored : store m₁ (body (without name es)).length (name ++ 61 :: value ++ [0, 0]) = m' := by
      simpa using eq
    have held' : At m' 0 (layout (without name es ++ [hn.entry hv])) :=
      stored ▸ stored_held held (hn.entry hv)
    have size : (layout (without name es ++ [hn.entry hv])).length =
        (layout (without name es)).length + name.length + value.length + 2 := by
      simp only [layout, body_append, body_cons, body_nil, NameOk.entry, Entry.bytes,
        List.length_append, List.length_cons, List.length_nil]
      omega
    rw [imp_iff_right del]
    constructor
    · intro law
      obtain ⟨es', wf, _⟩ := law.wellFormed
      refine ⟨two, ?_⟩
      rw [← size, layout_length_unique held' wf.held]
      exact wf.inside
    · intro fits
      exact law_defined h ha hn hv del held' (size ▸ fits.2)
  · have zero : m 0 = 0 := h.held.1
    have eq : setsyspara envMaxSize m name (some value) true =
        define envMaxSize m name (some value) false true := by
      rcases set_cases h ha name (some value) true with ⟨_, eq⟩ | ⟨⟨e, he, _⟩, _⟩
      · exact eq
      · exact absurd he List.not_mem_nil
    rw [eq] at hs
    cases value with
    | nil => simp [define] at hs
    | cons c v =>
      apply iff_of_false (law_unseen zero one hs)
      intro fits
      exact one ((fits (by simp)).1 rfl)

theorem set_zeros (envMaxSize : Nat) (name value : List Nat) (hv : value ≠ []) (fits : name.length + 2 + value.length ≤ envMaxSize) :
    setsyspara envMaxSize (fun _ => 0) name (some value) true =
      some (0, store (fun _ => 0) 0 (name ++ 61 :: value ++ [0,0])) := by
  have none : search (fun _ => 0) name space 0 = some none := by
    rw [space_succ,search,if_pos rfl]
  have held : At (fun _ => 0) 0 (layout []) := ⟨rfl,trivial⟩
  unfold setsyspara
  rw [none]
  dsimp only
  rw [define_value held (by decide) (fun _ => rfl) hv,if_neg (by rw [body_nil]; simp; omega)]
  rfl

theorem zeros_wellFormed (ha : 0 < area) : WellFormed area (fun _ => 0) [] :=
  ⟨List.nodup_nil,⟨rfl,trivial⟩,ha⟩

theorem setsyspara_laws_zeros : ∃ m',
    setsyspara 65536 (fun _ => 0) [97] (some [98]) true = some (0, m') ∧
    Law 65531 (fun _ => 0) m' [] [97] [98] := by
  have set := set_zeros 65536 [97] [98] (by decide) (by decide)
  refine ⟨_, set, ?_⟩
  apply (setsyspara_laws (zeros_wellFormed (by decide)) (by decide) ⟨by decide, by decide⟩ (by decide)
    set).mpr
  exact fun _ => ⟨fun _ => rfl, by decide⟩

theorem overflow_zeros {n : Nat} (hn : n ≠ 0) (passes : n + 3 ≤ envMaxSize) (big : area < n + 4) :
    ∃ m', setsyspara envMaxSize (fun _ => 0) [97] (some (List.replicate n 98)) true = some (0,m') ∧
      ¬ Law area (fun _ => 0) m' [] [97] (List.replicate n 98) := by
  have nul : ∀ c ∈ List.replicate n 98, c ≠ 0 := by
    intro c hc
    rw [List.eq_of_mem_replicate hc]
    decide
  have ok : NameOk [97] := ⟨by decide,by decide⟩
  have long : [97].length + 2 + (List.replicate n 98).length ≤ envMaxSize := by
    rw [List.length_replicate,List.length_singleton]
    omega
  refine ⟨_,set_zeros _ _ _ (by simpa using hn) long,?_⟩
  intro law
  obtain ⟨es',wf,_⟩ := law.wellFormed
  have empty : At (fun _ => 0) 0 (layout []) := ⟨rfl,trivial⟩
  have inside := wf.inside
  rw [← layout_length_unique (stored_held empty (ok.entry nul)) wf.held] at inside
  simp only [layout,List.nil_append,body_cons,body_nil,NameOk.entry,Entry.bytes,
    List.length_append,List.length_cons,List.length_nil,List.length_replicate] at inside
  omega

/-- In an empty environment of 65531 bytes a value of 65533 bytes is accepted. -/
theorem overflow_accepted : WellFormed 65531 (fun _ => 0) [] ∧ ∃ m',
    setsyspara 65536 (fun _ => 0) [97] (some (List.replicate 65533 98)) true = some (0, m') ∧
    ¬ Law 65531 (fun _ => 0) m' [] [97] (List.replicate 65533 98) :=
  ⟨zeros_wellFormed (by decide), overflow_zeros (by decide) (by decide) (by decide)⟩

end Apc8750.Env
