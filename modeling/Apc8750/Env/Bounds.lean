import Apc8750.Env.Changes

namespace Apc8750.Env
open Cells

/-- The data bytes that `env_crc32` covers and `env_update` writes. -/
def dataArea (nand : Bool) (envMaxSize : Nat) : Nat :=
  if nand then envMaxSize - 4 else envMaxSize - 5

def closed : List Entry → List Nat
  | [] => [0, 0]
  | e :: es => layout (e :: es)

structure Closed (area : Nat) (m : Mem) (es : List Entry) : Prop where
  distinct : (es.map Entry.name).Nodup
  held : At m 0 (closed es)
  inside : (closed es).length ≤ area

def newBlock (es : List Entry) (name value : List Nat) : List Nat :=
  body (without name es) ++ (name ++ 61 :: value ++ [0, 0])

def overflows (envMaxSize : Nat) (m : Mem) (name : List Nat) : Option (List Nat) → Bool
  | none | some [] => false
  | some (c :: v) =>
    match findEnd m space 0 with
    | none => false
    | some env =>
      let env := if 0 < env then env + 1 else env
      decide (env + (name.length + 2 + (c :: v).length) > envMaxSize)

/-- `wmt_setsyspara` gives up with the warning about an overflow. -/
def rejected (envMaxSize : Nat) (m : Mem) (name : List Nat) (value : Option (List Nat)) : Bool :=
  match prepare m name value with
  | some (some (m, _)) => overflows envMaxSize m name value
  | _ => false

def Defines (es : List Entry) (name : List Nat) (value : Option (List Nat)) (v : List Nat) : Prop :=
  value = some v ∧ v ≠ [] ∧ ((∃ e ∈ es, e.name = key name) → baudCheck name value = some true)

def Inside (area : Nat) (m : Mem) : Prop := ∃ es, At m 0 (closed es) ∧ (closed es).length ≤ area

/-- A call that is not rejected leaves a block inside the area, and one that is would
not have. -/
structure Bounded (envMaxSize area : Nat) (m : Mem) (es : List Entry) (name : List Nat)
    (value : Option (List Nat)) (update : Bool) : Prop where
  accepted : rejected envMaxSize m name value = false →
    ∀ r m', setsyspara envMaxSize m name value update = some (r, m') → Inside area m'
  refused : rejected envMaxSize m name value = true →
    ∀ v ∈ value, area < (newBlock es name v).length

theorem closed_layout (h : At m 0 (closed es)) : At m 0 (layout es) ∧ (es = [] → m 1 = 0) := by
  cases es with
  | nil => exact ⟨⟨h.1,trivial⟩,fun _ => h.2.1⟩
  | cons e es => exact ⟨h,nofun⟩

theorem layout_closed (h : At m 0 (layout es)) (empty : es = [] → m 1 = 0) : At m 0 (closed es) := by
  cases es with
  | nil => exact ⟨h.1,empty rfl,trivial⟩
  | cons e es => exact h

theorem layout_le_closed (es : List Entry) : (layout es).length ≤ (closed es).length := by
  cases es with
  | nil => decide
  | cons e es => exact le_rfl

theorem closed_le (fit : (layout es).length ≤ area) (two : 2 ≤ area) :
    (closed es).length ≤ area := by
  cases es with
  | nil => exact two
  | cons e es => exact fit

theorem two_le_closed (es : List Entry) : 2 ≤ (closed es).length := by
  cases es with
  | nil => exact le_rfl
  | cons e es => exact length_lt_layout (e :: es) |>.trans_le' (by simp)

theorem Closed.wellFormed (h : Closed area m es) : WellFormed area m es :=
  ⟨h.distinct,(closed_layout h.held).1,(layout_le_closed es).trans h.inside⟩

theorem dataArea_le (nand : Bool) (envMaxSize : Nat) : dataArea nand envMaxSize ≤ envMaxSize := by
  unfold dataArea
  split <;> exact Nat.sub_le _ _

theorem define_checked (envMaxSize : Nat) (old update : Bool) (h : At m₁ 0 (layout (without name es)))
    (small : (layout (without name es)).length ≤ space) (empty : without name es = [] → m₁ 1 = 0)
    (hv : v ≠ []) :
    (overflows envMaxSize m₁ name (some v) = true ∧ envMaxSize + 1 < (newBlock es name v).length ∧
      define envMaxSize m₁ name (some v) old update = some (1,m₁)) ∨
    (overflows envMaxSize m₁ name (some v) = false ∧ (newBlock es name v).length ≤ envMaxSize + 1 ∧
      ∃ r, define envMaxSize m₁ name (some v) old update =
        some (r, store m₁ (body (without name es)).length (name ++ 61 :: v ++ [0,0]))) := by
  have size : (newBlock es name v).length =
      (body (without name es)).length + (name.length + 2 + v.length) + 1 := by
    simp only [newBlock,List.length_append,List.length_cons,List.length_nil]
    omega
  have check : overflows envMaxSize m₁ name (some v) =
      decide ((body (without name es)).length + (name.length + 2 + v.length) > envMaxSize) := by
    obtain ⟨env,found,start⟩ := findEnd_held h small empty
    obtain ⟨c,v,rfl⟩ := List.exists_cons_of_ne_nil hv
    unfold overflows
    rw [found]
    dsimp only
    rw [start]
  rw [check,size,define_value h small empty hv]
  by_cases big : (body (without name es)).length + (name.length + 2 + v.length) > envMaxSize
  · exact .inl ⟨decide_eq_true big,by omega,if_pos big⟩
  · exact .inr ⟨decide_eq_false big,by omega,_,if_neg big⟩

theorem closed_length_unique (h : At m 0 (closed es)) (h' : At m 0 (closed es')) :
    (closed es).length = (closed es').length := by
  have same := layout_unique (closed_layout h).1 (closed_layout h').1
  cases es with
  | nil =>
    cases es' with
    | nil => rfl
    | cons e es' => cases same
  | cons e es =>
    cases es' with
    | nil => cases same
    | cons e' es' => exact layout_length_unique h h'

theorem stored_closed (h : At m 0 (layout (without name es))) (hn : ∀ c ∈ name, c ≠ 0)
    (hv : ∀ c ∈ v, c ≠ 0) : ∃ es', closed es' = newBlock es name v ∧
      At (store m (body (without name es)).length (name ++ 61 :: v ++ [0,0])) 0 (closed es') := by
  obtain ⟨n,bytes,_⟩ := entry_of hn hv
  have now := stored_held h n
  have same : n.name ++ 61 :: n.value = name ++ 61 :: v := bytes
  have whole : closed (without name es ++ [n]) = layout (without name es ++ [n]) := by
    cases without name es <;> rfl
  rw [same,← whole] at now
  refine ⟨_,?_,now⟩
  simp [whole,layout,newBlock,bytes]

theorem stored_inside (area : Nat) (held : At m₁ 0 (layout (without name es))) (hn : ∀ c ∈ name, c ≠ 0)
    (hv : ∀ c ∈ v, c ≠ 0) :
    Inside area (store m₁ (body (without name es)).length (name ++ 61 :: v ++ [0,0])) ↔
      (newBlock es name v).length ≤ area := by
  obtain ⟨es',eq,now⟩ := stored_closed held hn hv
  rw [← eq]
  constructor
  · rintro ⟨found,there,fits⟩
    rwa [closed_length_unique now there]
  · intro fits
    exact ⟨es',now,fits⟩

theorem baudCheck_none : baudCheck name value = none ↔ name = baudrateName ∧ value = none := by
  unfold baudCheck
  split <;> simp_all

theorem Closed.prepare_cases (h : Closed area m es) (ha : area ≤ space) (name : List Nat)
    (value : Option (List Nat)) :
    ((∃ e ∈ es, e.name = key name) ∧ ((baudCheck name value = none ∧ prepare m name value = none) ∨
      (baudCheck name value = some false ∧ prepare m name value = some none))) ∨
    (((∃ e ∈ es, e.name = key name) → baudCheck name value = some true) ∧
      ∃ m₁ old, prepare m name value = some (some (m₁,old)) ∧
        At m₁ 0 (layout (without name es)) ∧ (without name es = [] → m₁ 1 = 0)) := by
  rcases Env.prepare_cases h.wellFormed ha name value with ⟨none,eq⟩ | ⟨found,bad | bad |
    ⟨ok,m₁,held,empty,_,eq⟩⟩
  · refine .inr ⟨?_,m,false,eq,?_⟩
    · rintro ⟨e,mem,same⟩
      exact absurd same (none e mem)
    · rw [without_none none]
      exact closed_layout h.held
  · exact .inl ⟨found,.inl bad⟩
  · exact .inl ⟨found,.inr bad⟩
  · exact .inr ⟨fun _ => ok,m₁,true,eq,held,empty⟩

theorem Closed.rest_inside (h : Closed area m es) (held : At m₁ 0 (layout (without name es)))
    (empty : without name es = [] → m₁ 1 = 0) : Inside area m₁ :=
  ⟨_,layout_closed held empty,closed_le ((layout_without_le name es).trans h.wellFormed.inside)
    ((two_le_closed es).trans h.inside)⟩

theorem define_nothing (nothing : value.getD [] = []) : overflows envMaxSize m₁ name value = false ∧
      ∃ r, define envMaxSize m₁ name value old update = some (r,m₁) := by
  rcases value with _ | _ | ⟨c,v⟩
  · cases old <;> exact ⟨rfl,_,rfl⟩
  · cases old <;> exact ⟨rfl,_,rfl⟩
  · cases nothing

theorem Closed.define_bounded (h : Closed area m es) (ha : area ≤ space) (he : area ≤ envMaxSize)
    (hn : ∀ c ∈ name, c ≠ 0) (hv : ∀ v ∈ value, ∀ c ∈ v, c ≠ 0)
    (eq : prepare m name value = some (some (m₁,old)))
    (held : At m₁ 0 (layout (without name es))) (empty : without name es = [] → m₁ 1 = 0) :
    (setsyspara envMaxSize m name value update).isSome ∧
    (Bounded envMaxSize area m es name value update ↔
      ∀ v, value = some v → v ≠ [] → (newBlock es name v).length ≤ area ∨
        envMaxSize + 1 < (newBlock es name v).length) := by
  have small := (layout_without_le name es).trans (h.wellFormed.inside.trans ha)
  have call : setsyspara envMaxSize m name value update =
      define envMaxSize m₁ name value old update := by
    rw [setsyspara_prepare,eq]
  have check : rejected envMaxSize m name value = overflows envMaxSize m₁ name value := by
    rw [rejected,eq]
  by_cases nothing : value.getD [] = []
  · obtain ⟨passes,r,done⟩ := define_nothing nothing
    refine ⟨by rw [call,done]; rfl,iff_of_true ⟨?_,?_⟩ ?_⟩
    · intro _ r m' now
      rw [call,done] at now
      cases now
      exact h.rest_inside held empty
    · intro fails
      rw [check,passes] at fails
      cases fails
    · rintro v rfl ne
      exact absurd nothing ne
  · obtain ⟨v,rfl⟩ : ∃ v, value = some v := by
      cases value with
      | none => exact absurd rfl nothing
      | some v => exact ⟨v,rfl⟩
    rw [Option.getD_some] at nothing
    have fits := stored_inside area held hn (hv v rfl)
    rcases define_checked envMaxSize old update held small empty nothing with ⟨fails,big,done⟩ | ⟨passes,less,r,done⟩
    · refine ⟨by rw [call,done]; rfl,iff_of_true ⟨?_,?_⟩ ?_⟩
      · intro passes
        rw [check,fails] at passes
        cases passes
      · rintro _ w given
        cases given
        exact Nat.lt_of_le_of_lt he (Nat.lt_of_succ_lt big)
      · rintro w given _
        cases given
        exact .inr big
    · refine ⟨by rw [call,done]; rfl,?_,fun fit => ⟨?_,?_⟩⟩
      · rintro ⟨accepted,_⟩ w given _
        cases given
        exact .inl (fits.mp (accepted (by rw [check,passes]) _ _ (call.trans done)))
      · intro _ r m' now
        rw [call,done] at now
        cases now
        exact fits.mpr ((fit v rfl nothing).resolve_right (by omega))
      · intro fails
        rw [check,passes] at fails
        cases fails

/-- A call keeps to the data area exactly if the new block fits or is too long by more than one
byte. -/
theorem setsyspara_bounded (h : Closed (dataArea nand envMaxSize) m es) (hs : envMaxSize ≤ space)
    (hn : ∀ c ∈ name, c ≠ 0) (hv : ∀ v ∈ value, ∀ c ∈ v, c ≠ 0) :
    (setsyspara envMaxSize m name value update = none ↔
      (∃ e ∈ es, e.name = key name) ∧ name = baudrateName ∧ value = none) ∧
    (Bounded envMaxSize (dataArea nand envMaxSize) m es name value update ↔
      ∀ v, Defines es name value v → (newBlock es name v).length ≤ dataArea nand envMaxSize ∨
        envMaxSize + 1 < (newBlock es name v).length) := by
  have ha := (dataArea_le nand envMaxSize).trans hs
  have returns := setsyspara_prepare envMaxSize m name value update
  rw [← baudCheck_none]
  rcases h.prepare_cases ha name value with ⟨found, bad⟩ | ⟨baud, m₁, old, eq, held, empty⟩
  · have refuse : ∀ v, ¬ Defines es name value v := by
      rintro v ⟨_, _, ok⟩
      rcases bad with ⟨bad, _⟩ | ⟨bad, _⟩ <;> cases bad.symm.trans (ok found)
    have accepted : rejected envMaxSize m name value = false := by
      rcases bad with ⟨_, eq⟩ | ⟨_, eq⟩ <;> rw [rejected, eq]
    have noRefusal : rejected envMaxSize m name value = true → ∀ v ∈ value,
        dataArea nand envMaxSize < (newBlock es name v).length := by
      simp [accepted]
    rcases bad with ⟨bad, eq⟩ | ⟨bad, eq⟩ <;> rw [eq] at returns
    · refine ⟨iff_of_true returns ⟨found, bad⟩, iff_of_true ⟨?_, noRefusal⟩ ?_⟩
      · simp [returns]
      · exact fun v defines => absurd defines (refuse v)
    refine ⟨iff_of_false (by simp [returns]) (by simp [bad]), iff_of_true ⟨?_, noRefusal⟩ ?_⟩
    · intro _ r m' now
      rw [returns] at now
      cases now
      exact ⟨es, h.held, h.inside⟩
    · exact fun v defines => absurd defines (refuse v)
  · obtain ⟨some, bounded⟩ := h.define_bounded ha (dataArea_le nand envMaxSize)
      hn hv eq held empty
    refine ⟨iff_of_false ?_ ?_, bounded.trans ?_⟩
    · intro none
      rw [none] at some
      cases some
    · rintro ⟨found, bad⟩
      cases bad.symm.trans (baud found)
    · constructor
      · rintro fits v ⟨given, ne, _⟩
        exact fits v given ne
      · intro fits v given ne
        exact fits v ⟨given, ne, baud⟩

theorem zeros_closed (ha : 2 ≤ area) : Closed area (fun _ => 0) [] :=
  ⟨List.nodup_nil,⟨rfl,rfl,trivial⟩,ha⟩

theorem setsyspara_bounded_zeros : Bounded 65536 65531 (fun _ => 0) [] [97] (some [98]) true := by
  have closed : Closed (dataArea false 65536) (fun _ => 0) [] := zeros_closed (by decide)
  apply (setsyspara_bounded closed (by decide) (by decide) (by simp)).2.mpr
  rintro v ⟨given, _⟩
  cases given
  exact .inl (by decide)

theorem long_accepted {v : List Nat} (long : v.length = 65533) (nul : ∀ c ∈ v, c ≠ 0) :
    rejected 65536 (fun _ => 0) [97] (some v) = false ∧ ∃ m',
      setsyspara 65536 (fun _ => 0) [97] (some v) true = some (0,m') ∧ ¬ Inside 65531 m' := by
  have held : At (fun _ => 0) 0 (layout (without [97] [])) := ⟨rfl,trivial⟩
  have ne : v ≠ [] := List.ne_nil_of_length_pos (by omega)
  have size : (newBlock [] [97] v).length = 65537 := by
    unfold newBlock
    simp only [List.length_append,List.length_cons,long]
    rfl
  have prepared : prepare (fun _ => 0) [97] (some v) = some (some (fun _ => 0, false)) := by
    rw [prepare,space_succ,search,if_pos rfl]
  refine ⟨?_,_,set_zeros _ _ _ ne (by rw [long]; decide),?_⟩
  · rw [rejected,prepared]
    rcases define_checked 65536 false true held (by decide) (fun _ => rfl) ne with ⟨_,big,_⟩ | ⟨passes,_⟩
    · omega
    · exact passes
  · intro inside
    have := (stored_inside 65531 held (by decide) nul).mp inside
    omega

/-- A definition of 65536 bytes is accepted into an empty block of 65531 bytes. -/
theorem bound_missed : Closed 65531 (fun _ => 0) [] ∧
    rejected 65536 (fun _ => 0) [97] (some (List.replicate 65533 98)) = false ∧ ∃ m',
      setsyspara 65536 (fun _ => 0) [97] (some (List.replicate 65533 98)) true = some (0, m') ∧
        ¬ Inside 65531 m' := by
  refine ⟨zeros_closed (by decide), long_accepted List.length_replicate fun c hc => ?_⟩
  rw [List.eq_of_mem_replicate hc]
  decide

def valueOf (m : Mem) (name : List Nat) : Option (List Nat) :=
  match search m name space 0 with
  | some (some f) => some (bytesOf m f.val f.nxt)
  | _ => none

structure Honoured (value : Option (List Nat)) (varlen : Int) (reply : GetReply) : Prop where
  written : (reply.varval.length : Int) ≤ varlen
  succeeds : reply.rcode = 0 ↔ ∃ v, value = some v ∧ (v.length : Int) + 1 ≤ varlen
  needed : ∀ v, value = some v → varlen < (v.length : Int) + 1 → reply.varlen = v.length + 1

theorem valueOf_held (h : At m 0 (layout es)) (small : (layout es).length ≤ space) :
    valueOf m name = (es.find? fun e => e.name = key name).map Entry.value := by
  unfold valueOf
  rw [search_held h small]
  rcases lookup_value h name with ⟨found,eq⟩ | ⟨e,f,found,eq,value⟩
  · rw [found,eq]
    rfl
  · rw [found,eq]
    exact congrArg some value

theorem getsyspara_cases (h : getsyspara m name varlen = some reply) :
    (valueOf m name = none ∧ reply = ⟨1,[0],if 0 > varlen then 0 else varlen⟩) ∨
    ∃ v, valueOf m name = some v ∧ ((varlen < v.length ∧ reply = ⟨1,v ++ [0],v.length⟩) ∨
      (v.length ≤ varlen ∧ reply = ⟨0,v ++ [0],varlen⟩)) := by
  unfold getsyspara at h
  unfold valueOf
  generalize search m name space 0 = found at h ⊢
  rcases found with _ | _ | f
  · cases h
  · exact .inl ⟨rfl,(Option.some.inj h).symm⟩
  refine .inr ⟨_,rfl,?_⟩
  dsimp only at h
  split at h
  · rename_i short
    exact .inl ⟨short,(Option.some.inj h).symm⟩
  · rename_i fits
    exact .inr ⟨Int.not_lt.mp fits,(Option.some.inj h).symm⟩

/-- `wmt_getsyspara` keeps to the buffer exactly if the value fits with its terminator. -/
theorem getsyspara_honoured (m : Mem) (name : List Nat) (varlen : Int) :
    (∀ reply, getsyspara m name varlen = some reply →
      (Honoured (valueOf m name) varlen reply ↔
        (((valueOf m name).getD []).length : Int) + 1 ≤ varlen)) ∧
    ∀ es, At m 0 (layout es) → (layout es).length ≤ space →
      (getsyspara m name varlen).isSome ∧
      valueOf m name = (es.find? fun e => e.name = key name).map Entry.value := by
  constructor
  · intro reply h
    rcases getsyspara_cases h with ⟨none, rfl⟩ | ⟨v, found, ⟨short, rfl⟩ | ⟨fits, rfl⟩⟩
    · rw [none]
      exact ⟨fun h => h.written, fun room => ⟨room, by simp, by simp⟩⟩
    · rw [found, Option.getD_some]
      have size : ((v ++ [0]).length : Int) = v.length + 1 := by simp
      refine ⟨fun h => size ▸ h.written, fun room => ?_⟩
      omega
    rw [found, Option.getD_some]
    have size : ((v ++ [0]).length : Int) = v.length + 1 := by simp
    refine ⟨fun h => size ▸ h.written, fun room => ⟨size ▸ room, ?_, ?_⟩⟩
    · exact iff_of_true rfl ⟨v, rfl, room⟩
    · rintro w given less
      cases given
      omega
  · intro es held small
    refine ⟨?_, valueOf_held held small⟩
    unfold getsyspara
    rw [search_held held small]
    cases lookup name 0 es with
    | none => rfl
    | some f =>
      dsimp only
      split <;> rfl

theorem getsyspara_honoured_two : ∃ reply,
    getsyspara (memOf [97, 61, 98, 0, 0] fun _ => 0) [97] 2 = some reply ∧
    Honoured (some [98]) 2 reply := by
  let e : Entry := ⟨[97], [98], by decide, by decide⟩
  have held : At (memOf [97, 61, 98, 0, 0] fun _ => 0) 0 (layout [e]) := memOf_at _ _
  obtain ⟨honoured, returns⟩ := getsyspara_honoured (memOf [97, 61, 98, 0, 0] fun _ => 0) [97] 2
  obtain ⟨done, value⟩ := returns [e] held (by decide)
  have value : valueOf (memOf [97, 61, 98, 0, 0] fun _ => 0) [97] = some [98] := value
  obtain ⟨reply, eq⟩ := Option.isSome_iff_exists.mp done
  rw [value] at honoured
  exact ⟨reply, eq, (honoured reply eq).mpr (by decide)⟩

/-- `a=b` is read into a buffer of one byte: two bytes are written and the call
succeeds. -/
theorem buffer_overrun :
    getsyspara (memOf [97, 61, 98, 0, 0] fun _ => 0) [97] 1 = some ⟨0, [98, 0], 1⟩ ∧
    valueOf (memOf [97, 61, 98, 0, 0] fun _ => 0) [97] = some [98] ∧
    ¬ Honoured (some [98]) 1 ⟨0, [98, 0], 1⟩ := by
  let e : Entry := ⟨[97], [98], by decide, by decide⟩
  have held : At (memOf [97, 61, 98, 0, 0] fun _ => 0) 0 (layout [e]) := memOf_at _ _
  have wf : WellFormed 5 (memOf [97, 61, 98, 0, 0] fun _ => 0) [e] := ⟨by simp, held, by decide⟩
  refine ⟨getsyspara_answer wf (by decide) 1, valueOf_held held (by decide), fun h => ?_⟩
  exact absurd h.written (by decide)

end Apc8750.Env
