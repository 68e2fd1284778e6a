import Mathlib.Data.List.Nodup
import Mathlib.Algebra.GroupWithZero.Nat
import Mathlib.Algebra.Order.Group.Nat
import Mathlib.Algebra.BigOperators.Group.List.Basic

namespace Keyed

theorem others (hn : ((before ++ a :: after).map key).Nodup) :
    ∀ b ∈ before ++ after, key b ≠ key a := by
  rw [List.map_append,List.map_cons,List.nodup_middle,List.nodup_cons,← List.map_append] at hn
  exact fun b hb he => hn.1 (he ▸ List.mem_map_of_mem hb)

variable {α κ : Type*} [DecidableEq κ] (key : α → κ)

def modify (k : κ) (f : α → α) (l : List α) : List α :=
  l.map (fun a => if key a = k then f a else a)

def remove (k : κ) (l : List α) : List α := l.filter (fun a => key a != k)

variable {key} {k : κ} {l : List α} {a : α}

theorem find_key (hf : l.find? (fun a => key a == k) = some a) : key a = k := by
  simpa using List.find?_some hf

theorem find_of_mem (hn : (l.map key).Nodup) (ha : a ∈ l) :
    l.find? (fun b => key b == key a) = some a := by
  induction l with
  | nil => simp at ha
  | cons b l ih =>
    simp only [List.map_cons,List.nodup_cons] at hn
    rcases List.mem_cons.mp ha with rfl | ha
    · simp
    · have hne : key b ≠ key a := fun he => hn.1 (he ▸ List.mem_map_of_mem ha)
      simp [hne,ih hn.2 ha]

theorem modify_absent (h : ∀ b ∈ l, key b ≠ k) (f : α → α) : modify key k f l = l := by
  conv_rhs => rw [← List.map_id l]
  exact List.map_congr_left (fun b hb => by simp [h b hb])

theorem remove_absent (h : ∀ b ∈ l, key b ≠ k) : remove key k l = l :=
  List.filter_eq_self.mpr (fun b hb => by simpa using h b hb)

theorem modify_append (k : κ) (f : α → α) (l m : List α) :
    modify key k f (l ++ m) = modify key k f l ++ modify key k f m := List.map_append

theorem remove_append (k : κ) (l m : List α) :
    remove key k (l ++ m) = remove key k l ++ remove key k m := List.filter_append l m

theorem modify_hit (f : α → α) (l : List α) :
    modify key (key a) f (a :: l) = f a :: modify key (key a) f l := by
  simp [modify]

theorem remove_hit (l : List α) : remove key (key a) (a :: l) = remove key (key a) l := by
  simp [remove]

theorem middle (hn : ((before ++ a :: after).map key).Nodup) :
    (∀ f, modify key (key a) f (before ++ a :: after) = before ++ f a :: after) ∧
      remove key (key a) (before ++ a :: after) = before ++ after := by
  have hb : ∀ b ∈ before, key b ≠ key a := fun b hb => others hn b (List.mem_append_left _ hb)
  have ha : ∀ b ∈ after, key b ≠ key a := fun b hb => others hn b (List.mem_append_right _ hb)
  refine ⟨?_,?_⟩
  · intro f
    rw [modify_append,modify_hit,modify_absent hb,modify_absent ha]
  · rw [remove_append,remove_hit,remove_absent hb,remove_absent ha]

theorem split (hn : (l.map key).Nodup) (ha : a ∈ l) : ∃ before after, l = before ++ a :: after ∧
      (∀ f, modify key (key a) f l = before ++ f a :: after) ∧
      remove key (key a) l = before ++ after := by
  obtain ⟨before,after,rfl⟩ := List.append_of_mem ha
  exact ⟨before,after,rfl,middle hn⟩

theorem countP_remove (hn : (l.map key).Nodup) (ha : a ∈ l) (p : α → Bool) :
    l.countP p = (remove key (key a) l).countP p + if p a then 1 else 0 := by
  obtain ⟨before,after,hl,_,hrem⟩ := split hn ha
  rw [hrem,hl]
  simp only [List.countP_append,List.countP_cons]
  omega

theorem map_key_modify (hf : ∀ b, key (f b) = key b) : (modify key k f l).map key = l.map key := by
  simp only [modify,List.map_map]
  apply List.map_congr_left
  intro b _
  simp only [Function.comp_apply]
  split
  · exact hf b
  · rfl

theorem modify_modify (hf : ∀ b, key (f b) = key b) :
    modify key k g (modify key k f l) = modify key k (fun b => g (f b)) l := by
  simp only [modify,List.map_map]
  apply List.map_congr_left
  intro b _
  by_cases hk : key b = k <;> simp [hk,hf]

theorem remove_modify (hf : ∀ b, key (f b) = key b) :
    remove key k (modify key k f l) = remove key k l := by
  induction l with
  | nil => rfl
  | cons b l ih =>
    simp only [remove,modify,List.map_cons,List.filter_cons] at ih ⊢
    by_cases hk : key b = k <;> simp [hk,hf,ih]

theorem remove_modify_ne (hne : k ≠ k') (hf : ∀ b, key (f b) = key b) :
    remove key k' (modify key k f l) = modify key k f (remove key k' l) := by
  induction l with
  | nil => rfl
  | cons b l ih =>
    simp only [remove,modify,List.map_cons,List.filter_cons] at ih ⊢
    by_cases hk : key b = k
    · simp [hk,hf,ih,hne]
    · by_cases hk' : key b = k' <;> simp [hk,hk',ih,hne.symm]

theorem find_modify (hf : ∀ b, key (f b) = key b) :
    (modify key k f l).find? (fun b => key b == k) =
      (l.find? (fun b => key b == k)).map f := by
  induction l with
  | nil => rfl
  | cons b l ih =>
    simp only [modify,List.map_cons,List.find?_cons] at ih ⊢
    by_cases hk : key b = k
    · simp [hk,hf]
    · simp only [hk,ih,↓reduceIte,beq_eq_false_iff_ne.mpr hk]

theorem mem_modify (ha : a ∈ modify key k f l) :
    (a ∈ l ∧ key a ≠ k) ∨ ∃ b ∈ l, key b = k ∧ a = f b := by
  obtain ⟨b,hb,rfl⟩ := List.mem_map.mp ha
  by_cases hk : key b = k
  · exact Or.inr ⟨b,hb,hk,by simp [hk]⟩
  · exact Or.inl (by simpa [hk] using hb)

def peak (g : α → Nat) (l : List α) : Nat := l.foldl (fun m a => max m (g a)) 0

theorem foldl_max (g : α → Nat) (m : Nat) (l : List α) :
    l.foldl (fun m a => max m (g a)) m = max m (peak g l) := by
  unfold peak
  induction l generalizing m with
  | nil => simp
  | cons a l ih =>
    simp only [List.foldl_cons,Nat.zero_max]
    rw [ih,ih (g a),Nat.max_assoc]

theorem peak_cons (g : α → Nat) : peak g (a :: l) = max (g a) (peak g l) := by
  rw [peak,List.foldl_cons,foldl_max,Nat.zero_max]

theorem peak_append (g : α → Nat) (l m : List α) :
    peak g (l ++ m) = max (peak g l) (peak g m) := by
  rw [peak,List.foldl_append,foldl_max]
  rfl

theorem le_peak (ha : a ∈ l) : g a ≤ peak g l := by
  obtain ⟨before,after,rfl⟩ := List.append_of_mem ha
  rw [peak_append,peak_cons]
  omega

theorem peak_mem (hne : l ≠ []) : ∃ a ∈ l, g a = peak g l := by
  induction l with
  | nil => exact absurd rfl hne
  | cons b l ih =>
    rw [peak_cons]
    rcases Nat.le_total (peak g l) (g b) with h | h
    · exact ⟨b,List.mem_cons_self,(Nat.max_eq_left h).symm⟩
    cases l with
    | nil => exact ⟨b,List.mem_cons_self,(Nat.max_eq_left (Nat.zero_le _)).symm⟩
    | cons c l =>
      obtain ⟨a,ha,he⟩ := ih (List.cons_ne_nil c l)
      exact ⟨a,List.mem_cons_of_mem _ ha,he.trans (Nat.max_eq_right h).symm⟩

end Keyed
