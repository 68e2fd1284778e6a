import Apc8750.MemBlock.Host

namespace Apc8750.MemBlock
open State Gaps

/-- No blocks yet, and the free counters are brought up to date only at the end. -/
structure Filling (s : State) : Prop extends SizeOk s where
  empty : ∀ a ∈ s.mbaList, a.mbList = []

def Held (s : State) (bound : Option Nat) : Prop :=
  ∀ q, bound = some q → ∃ a ∈ s.mbaList, a.ptr = q

theorem AreaOk.combind (hh : AreaOk h) (ht : AreaOk t) (eh : h.mbList = []) (et : t.mbList = [])
    (hnext : h.pgi.pfnEnd = t.pgi.pfnStart) : AreaOk (combined h t) := by
  have h1 := hh.ends
  have h2 := ht.ends
  have hf1 := hh.free
  have hf2 := ht.free
  have ha1 := hh.available
  have ha2 := ht.available
  rw [eh] at hf1 ha1
  rw [et] at hf2 ha2
  simp only [room,largest,gaps,List.sum_cons,List.sum_nil,List.foldr_cons,List.foldr_nil]
    at hf1 hf2 ha1 ha2
  refine ⟨by simp only [combined]; omega,Nat.add_pos_left hh.pos _,hh.low,ht.high,hh.phys,hh.virt,?_,
    hh.placed,hh.distinct,hh.nrMb,?_,?_⟩
  · simp only [combined,eh,Laid]
    omega
  · simp only [combined,eh,room,gaps,List.sum_cons,List.sum_nil]
    omega
  · simp only [combined,eh,largest,gaps,List.foldr_cons,List.foldr_nil]
    omega

theorem Filling.combind (hs : Filling s) (hh : h ∈ s.mbaList) (ht : t ∈ s.mbaList)
    (hne : h.ptr ≠ t.ptr) (hnext : h.pgi.pfnEnd = t.pgi.pfnStart) :
    Filling (combindMba s h.ptr t.ptr) ∧ Held (combindMba s h.ptr t.ptr) (some h.ptr) := by
  have hfind : s.derefMba t.ptr = some t := Keyed.find_of_mem hs.areas.distinct ht
  obtain ⟨before,after,he,_,hrem⟩ := Keyed.split hs.areas.distinct ht
  have hall := he ▸ hs.areas
  have hh' : h ∈ before ++ after := by
    rw [← hrem]
    exact List.mem_filter.mpr ⟨hh,by simpa using hne⟩
  obtain ⟨front,back,he',hmod,_⟩ := Keyed.split hall.drop.distinct hh'
  have hrest := he' ▸ hall.drop
  have hsub : ∀ c ∈ front ++ back, c ∈ before ++ after := by
    intro c hc
    rw [he']
    exact (List.sublist_cons_self h back).append_left front |>.subset hc
  have hnew := (hs.areas.each h hh).combind (hs.areas.each t ht) (hs.empty h hh)
    (hs.empty t ht) hnext
  have hlist : AreasOk (front ++ combined h t :: back) := by
    apply hrest.exchange hnew rfl
    intro c hc
    have h1 := hrest.apart_others c hc
    have h2 := hall.apart_others c (hsub c hc)
    have h3 := (hrest.drop.each c hc).ends
    have h4 := (hrest.drop.each c hc).pos
    simp only [Apart,combined] at h1 h2 ⊢
    omega
  unfold combindMba
  rw [hfind]
  simp only [modifyMba]
  rw [Keyed.remove_modify_ne (f := fun a => combined a t) hne (fun _ => rfl),hrem,hmod]
  have hlen := congrArg List.length he'
  have hsum := congrArg (fun l => (l.map MbArea.pages).sum) he'
  simp only [List.length_append,List.length_cons,List.map_append,List.map_cons,
    List.sum_append,List.sum_cons] at hlen hsum
  refine ⟨⟨⟨hlist,?_,?_⟩,?_⟩,?_⟩
  · have hn := hs.nrMba
    rw [he] at hn
    simp only [List.length_append,List.length_cons] at hn ⊢
    omega
  · have hp := hs.totPages
    rw [he] at hp
    simp only [List.map_append,List.map_cons,List.sum_append,List.sum_cons,combined] at hp ⊢
    omega
  · intro c hc
    have hold : ∀ d ∈ front ++ back, d.mbList = [] := fun d hd =>
      hs.empty d (List.mem_of_mem_filter (hrem ▸ hsub d hd))
    rcases List.mem_append.mp hc with hc | hc
    · exact hold c (List.mem_append_left _ hc)
    · rcases List.mem_cons.mp hc with rfl | hc
      · exact hs.empty h hh
      · exact hold c (List.mem_append_right _ hc)
  · rintro q ⟨⟩
    exact ⟨combined h t,List.mem_append_cons_self,rfl⟩

theorem Filling.markStatic (hs : Filling s) (a : MbArea) (tgid : Nat) :
    Filling (markStatic s a tgid) := by
  refine ⟨hs.toSizeOk.map (retag_unnoticed a.ptr tgid true),?_⟩
  intro c hc
  obtain ⟨d,hd,rfl⟩ := List.mem_map.mp hc
  split <;> exact hs.empty d hd

theorem Filling.probeBind (hs : Filling s) (hnew : a ∈ s.mbaList)
    (hb : ∀ q, bound = some q → q ≠ a.ptr) :
    Filling (probeBind s bound a.ptr).2 ∧
      Held (probeBind s bound a.ptr).2 (probeBind s bound a.ptr).1 := by
  have hfind : s.derefMba a.ptr = some a := Keyed.find_of_mem hs.areas.distinct hnew
  have hlive : Held s (some a.ptr) := by
    rintro q ⟨⟩
    exact ⟨a,hnew,rfl⟩
  unfold MemBlock.probeBind
  rw [hfind]
  cases hold : bound.bind s.derefMba with
  | none => exact ⟨hs,hlive⟩
  | some old =>
    obtain ⟨q,rfl,hq⟩ := Option.bind_eq_some_iff.mp hold
    have hmem : old ∈ s.mbaList := List.mem_of_find?_eq_some hq
    have hkey : old.ptr = q := Keyed.find_key hq
    have hne := hb q rfl
    simp only
    split
    · rename_i h
      exact hs.combind hnew hmem (by omega) h.symm
    split
    · rename_i h
      subst hkey
      exact hs.combind hmem hnew hne h
    · exact ⟨hs,hlive⟩

theorem Filling.probeRound (hs : Filling s) (hb : Held s bound) :
    Filling (probeRound cfg s bound o).2 ∧
      Held (probeRound cfg s bound o).2 (probeRound cfg s bound o).1 := by
  unfold MemBlock.probeRound
  generalize probePages cfg s = pages
  split
  · rename_i u h
    rcases mbAllocMba_cases h with ⟨_,rfl⟩ | ⟨p,run,h,_⟩
    · exact ⟨hs,hb⟩
    · cases h
  rename_i p u h
  rcases mbAllocMba_cases h with ⟨hp,_⟩ | ⟨q,run,hp,rfl,hfresh,hok,hapart⟩
  · cases hp
  cases hp
  have hs' : Filling (enlist s (newMba p run)) := by
    refine ⟨hs.toSizeOk.enlist hfresh hok hapart,?_⟩
    intro c hc
    rcases List.mem_append.mp hc with hc | hc
    · exact hs.empty c hc
    · rw [List.mem_singleton.mp hc]
      rfl
  have hmem : newMba p run ∈ (enlist s (newMba p run)).mbaList :=
    List.mem_append_cons_self
  have hfind : (enlist s (newMba p run)).derefMba p = some (newMba p run) :=
    Keyed.find_of_mem hs'.areas.distinct hmem
  simp only [hfind]
  apply (hs'.markStatic (newMba p run) mbDefTgid).probeBind
    (a := { newMba p run with isStatic := true, tgid := mbDefTgid })
  · exact List.mem_map.mpr ⟨newMba p run,hmem,if_pos rfl⟩
  · intro q hq he
    obtain ⟨c,hc,rfl⟩ := hb q hq
    exact hfresh c hc he

theorem Filling.probeLoop (hs : Filling s) (hb : Held s bound)
    (h : probeLoop cfg s bound os = some t) : Filling t := by
  induction os generalizing s bound with
  | nil =>
    unfold MemBlock.probeLoop at h
    split at h <;> cases h
    exact hs
  | cons o os ih =>
    unfold MemBlock.probeLoop at h
    split at h
    · exact ih (hs.probeRound hb).1 (hs.probeRound hb).2 h
    · cases h
      exact hs

theorem mbProbe_ok (h : mbProbe cfg os = some s) : HostOk s ∧ s.blocks = [] := by
  obtain ⟨u,hu,rfl⟩ := Option.map_eq_some_iff.mp h
  have h0 : Filling emptyHost := ⟨⟨⟨by simp [emptyHost],by simp [emptyHost],
    by simp [emptyHost]⟩,rfl,rfl⟩,by simp [emptyHost]⟩
  have hf := h0.probeLoop (fun q hq => by cases hq) hu
  exact ⟨hf.toSizeOk.update,List.flatMap_eq_nil_iff.mpr hf.empty⟩

end Apc8750.MemBlock
