import Apc8750.Display.Queues

namespace Apc8750.Display

/-- The references of the frames that are queued, shown, shown before or kept for later. -/
def Vpp.held (s : Vpp) : List Nat :=
  queued s.dispFbList ++ queued s.sclFbList ++ s.cur.refs ++ s.pre.refs ++ Display.held s.postponed

structure Kept (s : Vpp) : Prop where
  room : Room s
  disp : (s.dispFbList.map Prod.fst ++ s.dispFreeList).Perm (List.range dispFbMaxNodes)
  scl : (s.sclFbList.map Prod.fst ++ s.sclFreeList).Perm (List.range sclFbMax)
  count : s.dispFbCnt = s.dispFbList.length

structure Counted (s : Vpp) : Prop where
  balance : ∀ x, s.gets.count x = s.puts.count x + s.held.count x
  disp : ∀ x ∈ s.dispFbList, Plain x.2
  scl : ∀ x ∈ s.sclFbList, Plain x.2
  cur : s.cur.y = 0 → s.cur.c = 0
  pre : s.pre.y = 0 → s.pre.c = 0

def Sane (s : Vpp) : Action → Prop
  | .add fb _ => Plain fb
  | .isr => s.vpuSkipAll = true → ∀ x ∈ s.dispFbList.head?, x.2.refs = []
  | _ => True

/-- What `vpp_disp_fb_add` does: nothing, or a node moves to the end of one of the queues. -/
inductive Added (s : Vpp) (fb : Frame) : Vpp → Prop where
  | refused : Added s fb s
  | scl (free : s.sclFreeList = node :: rest)
      (plain : Plain fb → Plain entry ∧ gets = s.gets ++ entry.refs) :
      Added s fb { s with sclFreeList := rest, sclFbList := s.sclFbList ++ [(node, entry)], gets }
  | disp (free : s.dispFreeList = node :: rest)
      (plain : Plain fb → Plain entry ∧ gets = s.gets ++ entry.refs) :
      Added s fb { s with
        dispFbCnt := s.dispFbCnt + 1
        dispFreeList := rest
        dispFbList := s.dispFbList ++ [(node, entry)]
        gets }

variable {s t : Vpp} {f fb : Frame} {a : Action} {reply : Reply} {node : Nat} {vpu : Shape}

theorem dispFbAdd_added (s : Vpp) (fb : Frame) (vpu : Shape) : Added s fb (dispFbAdd s fb vpu).2 := by
  unfold dispFbAdd
  split
  · split
    · exact .refused
    rename_i node free eq
    dsimp only
    obtain ⟨gets,got,same⟩ := getFrame_spec { s with
      sclFreeList := free, sclFbList := s.sclFbList ++
        [(node, { fb with flags := { fb.flags with scl := false } }.patched s.path vpu)] }
      ({ fb with flags := { fb.flags with scl := false } }.patched s.path vpu)
    rw [got]
    refine .scl eq fun plain => ?_
    have plain : Plain { fb with flags := { fb.flags with scl := false } } := plain
    have plain := plain.patched s.path vpu
    exact ⟨plain,same plain⟩
  · split
    · exact .refused
    rename_i node free eq
    split
    · exact .refused
    split
    · exact .refused
    dsimp only
    obtain ⟨gets,got,same⟩ := getFrame_spec { s with
      dispFbCnt := s.dispFbCnt + 1
      dispFreeList := free
      dispFbList := s.dispFbList ++ [(node, fb.patched s.path vpu)] } (fb.patched s.path vpu)
    rw [got]
    refine .disp eq fun plain => ?_
    have plain := plain.patched s.path vpu
    exact ⟨plain,same plain⟩

theorem perm_move (h : (l.map Prod.fst ++ node :: rest).Perm all) :
    ((l ++ [(node,entry)]).map Prod.fst ++ rest).Perm all := by
  rw [List.map_append,List.append_assoc]
  exact h

theorem Kept.added (kept : Kept s) (added : Added s fb t) : Kept t := by
  cases added with
  | refused => exact kept
  | scl free =>
    have scl := kept.scl
    rw [free] at scl
    exact ⟨⟨kept.room.length,kept.room.cnt⟩,kept.disp,perm_move scl,kept.count⟩
  | disp free =>
    have disp := kept.disp
    rw [free] at disp
    refine ⟨⟨kept.room.length,kept.room.cnt⟩,perm_move disp,kept.scl,?_⟩
    dsimp only
    rw [kept.count,List.length_append]
    rfl

theorem Counted.added (counted : Counted s) (added : Added s fb t) (plain : Plain fb) : Counted t := by
  cases added with
  | refused => exact counted
  | scl _ entered =>
    obtain ⟨entry,rfl⟩ := entered plain
    refine ⟨fun x => ?_,counted.disp,?_,counted.cur,counted.pre⟩
    · have balance := counted.balance x
      simp only [Vpp.held,Vpp.postponed,queued,List.flatMap_append,List.flatMap_cons,
        List.flatMap_nil,List.append_nil,List.count_append] at balance ⊢
      omega
    intro x mem
    rcases List.mem_append.mp mem with mem | mem
    · exact counted.scl x mem
    · rw [List.mem_singleton.mp mem]
      exact entry
  | disp _ entered =>
    obtain ⟨entry,rfl⟩ := entered plain
    refine ⟨fun x => ?_,?_,counted.scl,counted.cur,counted.pre⟩
    · have balance := counted.balance x
      simp only [Vpp.held,Vpp.postponed,queued,List.flatMap_append,List.flatMap_cons,
        List.flatMap_nil,List.append_nil,List.count_append] at balance ⊢
      omega
    intro x mem
    rcases List.mem_append.mp mem with mem | mem
    · exact counted.disp x mem
    · rw [List.mem_singleton.mp mem]
      exact entry

theorem release_spec (room : Room s) : ∃ pre puts cnt queue,
      (if s.pre.y = 0 then some s
        else (dispFbFree s s.pre).map fun s => { s with pre := ⟨0,0⟩ }) =
        some { s with pre, puts, cnt, addrQueue := queue } ∧
      Room { s with pre, puts, cnt, addrQueue := queue } ∧ pre.y = 0 ∧
      ((s.pre.y = 0 → s.pre.c = 0) → pre.c = 0 ∧
        ∀ x, puts.count x + (held (queue.take cnt)).count x =
          s.puts.count x + (held s.postponed).count x + s.pre.refs.count x) := by
  split
  · rename_i none
    refine ⟨s.pre,s.puts,s.cnt,s.addrQueue,rfl,room,none,fun chroma => ⟨chroma none,?_⟩⟩
    intro x
    simp [Addrs.refs,none,chroma none,Vpp.postponed]
  rename_i some
  obtain ⟨puts,cnt,queue,freed,room,same⟩ := dispFbFree_spec room some
  refine ⟨⟨0,0⟩,puts,cnt,queue,?_,⟨room.length,room.cnt⟩,rfl,fun _ => ⟨rfl,same⟩⟩
  rw [freed]
  rfl

theorem pace_spec (s : Vpp) : ∃ isrCnt sync, pace s = { s with isrCnt, sync } := by
  unfold pace
  split
  · exact ⟨_,_,rfl⟩
  · exact ⟨_,_,rfl⟩

theorem showFrame_spec (shown : s.dispFbList = (node,f) :: rest) :
    ∃ isrCnt sync pre cur, showFrame s = { s with
        isrCnt, sync, pre, cur
        dispFbList := rest
        dispFreeList := s.dispFreeList ++ [node]
        dispFbCnt := s.dispFbCnt - 1 } ∧
      (s.vpuSkipAll = true → pre = s.pre ∧ cur = s.cur) ∧
      (s.vpuSkipAll = false → pre = s.cur ∧
        cur = if f.flags.mbNo then ⟨0,0⟩ else f.counted f.shown) := by
  obtain ⟨isrCnt,sync,paced⟩ := pace_spec s
  unfold showFrame
  rw [shown]
  dsimp only
  rw [paced]
  dsimp only
  cases s.vpuSkipAll with
  | true => exact ⟨isrCnt,sync,s.pre,s.cur,rfl,fun _ => ⟨rfl,rfl⟩,by simp⟩
  | false => exact ⟨isrCnt,sync,s.cur,_,rfl,by simp,fun _ => ⟨rfl,rfl⟩⟩

theorem showFrame_nil (none : s.dispFbList = []) : showFrame s = s := by
  unfold showFrame
  rw [none]

theorem Kept.showFrame (kept : Kept s) : Kept (showFrame s) := by
  cases shown : s.dispFbList with
  | nil => rw [showFrame_nil shown]; exact kept
  | cons x rest =>
    obtain ⟨node,f⟩ := x
    obtain ⟨isrCnt,sync,pre,cur,eq,_⟩ := showFrame_spec shown
    rw [eq]
    have disp := kept.disp
    have count := kept.count
    rw [shown] at disp count
    refine ⟨⟨kept.room.length,kept.room.cnt⟩,?_,kept.scl,?_⟩
    · rw [← List.append_assoc]
      exact (List.perm_append_singleton node _).trans disp
    · dsimp only
      rw [count,List.length_cons]
      omega

theorem Plain.refs (plain : Plain f) :
    (if f.flags.mbNo then (⟨0,0⟩ : Addrs) else f.counted f.shown).refs = f.refs := by
  unfold Frame.refs
  cases mbNo : f.flags.mbNo with
  | true => rfl
  | false => rw [if_neg (by simp),if_neg (by simp),plain.shown mbNo]

theorem Counted.showFrame (counted : Counted s) (clear : s.pre.y = 0)
    (skip : s.vpuSkipAll = true → ∀ x ∈ s.dispFbList.head?, x.2.refs = []) :
    Counted (showFrame s) := by
  cases shown : s.dispFbList with
  | nil => rw [showFrame_nil shown]; exact counted
  | cons x rest =>
    obtain ⟨node,f⟩ := x
    obtain ⟨isrCnt,sync,pre,cur,eq,skipped,fresh⟩ := showFrame_spec shown
    rw [eq]
    have plain : Plain f := counted.disp (node,f) (by rw [shown]; simp)
    have none : s.pre.refs = [] := by simp [Addrs.refs,clear,counted.pre clear]
    have balance := counted.balance
    unfold Vpp.held at balance
    rw [shown] at balance
    have others : ∀ x ∈ rest, Plain x.2 := fun x mem => counted.disp x (by rw [shown]; simp [mem])
    cases all : s.vpuSkipAll with
    | true =>
      obtain ⟨rfl,rfl⟩ := skipped all
      have refs : f.refs = [] := skip all (node,f) (by rw [shown]; rfl)
      refine ⟨fun x => ?_,others,counted.scl,counted.cur,counted.pre⟩
      have balance := balance x
      simp only [queued,List.flatMap_cons,refs,List.nil_append] at balance
      exact balance
    | false =>
      obtain ⟨rfl,rfl⟩ := fresh all
      refine ⟨fun x => ?_,others,counted.scl,?_,counted.cur⟩
      · have balance := balance x
        unfold Vpp.held
        dsimp only
        rw [plain.refs]
        simp only [queued,List.flatMap_cons,none,List.append_nil,List.count_append,
          Vpp.postponed] at balance ⊢
        omega
      · intro zero
        dsimp only at zero ⊢
        cases mbNo : f.flags.mbNo with
        | true => rfl
        | false =>
          rw [mbNo,if_neg (by simp),plain.shown mbNo] at zero
          rw [if_neg (by simp),plain.shown mbNo]
          exact (plain.resolve_left (by simp [mbNo])).2.2.2 zero

theorem Kept.isr (kept : Kept s) : ∃ t, dispFbIsr s = some t ∧ Kept t := by
  obtain ⟨pre,puts,cnt,queue,freed,room,_⟩ := release_spec kept.room
  unfold dispFbIsr
  rw [freed]
  refine ⟨_,rfl,?_⟩
  dsimp only
  split
  · exact ⟨⟨room.length,room.cnt⟩,kept.disp,kept.scl,kept.count⟩
  · exact Kept.showFrame ⟨⟨room.length,room.cnt⟩,kept.disp,kept.scl,kept.count⟩

theorem Counted.isr (counted : Counted s) (room : Room s)
    (skip : s.vpuSkipAll = true → ∀ x ∈ s.dispFbList.head?, x.2.refs = [])
    (done : dispFbIsr s = some t) : Counted t := by
  obtain ⟨pre,puts,cnt,queue,freed,_,luma,same⟩ := release_spec room
  obtain ⟨chroma,same⟩ := same counted.pre
  unfold dispFbIsr at done
  rw [freed] at done
  have none : pre.refs = [] := by simp [Addrs.refs,luma,chroma]
  have balance : ∀ x, s.gets.count x = puts.count x + (queued s.dispFbList ++ queued s.sclFbList ++
      s.cur.refs ++ pre.refs ++ held (queue.take cnt)).count x := by
    intro x
    have balance := counted.balance x
    have same := same x
    simp only [Vpp.held,List.count_append,none,List.count_nil] at balance ⊢
    omega
  have ticked : ∀ isrCnt sync, Counted { s with isrCnt, sync, pre, puts, cnt, addrQueue := queue } :=
    fun isrCnt sync => ⟨balance,counted.disp,counted.scl,counted.cur,fun _ => chroma⟩
  obtain rfl := Option.some.inj done
  dsimp only
  split
  · exact ticked _ _
  · exact (ticked _ _).showFrame luma skip

theorem Kept.clr (kept : Kept s) (chkView : Bool) : Kept (dispFbClr s chkView) := by
  obtain ⟨puts,work,gone,split,eq,_⟩ := dispFbClr_spec s chkView
  rw [eq]
  have scl := kept.scl
  rw [split,List.map_append,List.append_assoc] at scl
  refine ⟨⟨kept.room.length,kept.room.cnt⟩,?_,?_,rfl⟩
  · have swap : (s.dispFreeList ++ s.dispFbList.map Prod.fst).Perm _ := List.perm_append_comm
    exact swap.trans kept.disp
  · exact (List.Perm.append_left _ List.perm_append_comm).trans scl

theorem Counted.clr (counted : Counted s) (chkView : Bool) : Counted (dispFbClr s chkView) := by
  obtain ⟨puts,work,gone,split,eq,same⟩ := dispFbClr_spec s chkView
  have same := same counted.disp counted.scl
  rw [eq]
  refine ⟨fun x => ?_,by simp,?_,counted.cur,fun _ => rfl⟩
  · have balance := counted.balance x
    rw [same]
    simp only [Vpp.held,Vpp.postponed,split,queued,List.flatMap_append,List.flatMap_nil,
      List.count_append,List.count_nil] at balance ⊢
    have zero : (Addrs.refs ⟨0,0⟩).count x = 0 := rfl
    omega
  · intro x mem
    exact counted.scl x (by rw [split]; exact List.mem_append_left _ mem)

theorem step_cases {P : Reply → Vpp → Prop} (done : step s a = some (reply,t))
    (add : ∀ fb vpu, a = .add fb vpu → P (.ret (dispFbAdd s fb vpu).1) (dispFbAdd s fb vpu).2)
    (isr : a = .isr → ∃ u, dispFbIsr s = some u ∧ P (.ret 0) u)
    (clr : ∀ chkView, a = .clr chkView → P (.ret 0) (dispFbClr s chkView))
    (set : ∀ dispFbMax dispFbKeep vpuSkipAll path sclFbMbOnWork sync, P (.ret 0) { s with
      dispFbMax, dispFbKeep, vpuSkipAll, path, sclFbMbOnWork, sync }) : P reply t := by
  cases a with
  | add fb vpu =>
    cases done
    exact add fb vpu rfl
  | isr =>
    obtain ⟨u,shown,holds⟩ := isr rfl
    simp only [step,shown] at done
    cases done
    exact holds
  | clr chkView =>
    cases done
    exact clr chkView rfl
  | setMax max => cases done; exact set _ _ _ _ _ _
  | setKeep keep => cases done; exact set _ _ _ _ _ _
  | setSkipAll skip => cases done; exact set _ _ _ _ _ _
  | setPath path => cases done; exact set _ _ _ _ _ _
  | setOnWork work => cases done; exact set _ _ _ _ _ _
  | setSync sync => cases done; exact set _ _ _ _ _ _

theorem kept_step (kept : Kept s) (done : step s a = some (reply,t)) :
    reply ≠ .fault ∧ Kept t := by
  refine step_cases (P := fun reply t => reply ≠ .fault ∧ Kept t) done ?_ ?_ ?_ ?_
  · exact fun fb vpu _ => ⟨by simp,kept.added (dispFbAdd_added s fb vpu)⟩
  · intro _
    obtain ⟨u,shown,kept⟩ := kept.isr
    exact ⟨u,shown,by simp,kept⟩
  · exact fun chkView _ => ⟨by simp,kept.clr chkView⟩
  · intro _ _ _ _ _ _
    exact ⟨by simp,⟨kept.room.length,kept.room.cnt⟩,kept.disp,kept.scl,kept.count⟩

theorem counted_step (kept : Kept s) (counted : Counted s) (sane : Sane s a)
    (done : step s a = some (reply,t)) : Counted t := by
  refine step_cases (P := fun _ t => Counted t) done ?_ ?_ ?_ ?_
  · rintro fb vpu rfl
    exact counted.added (dispFbAdd_added s fb vpu) sane
  · rintro rfl
    obtain ⟨u,shown,_⟩ := kept.isr
    exact ⟨u,shown,counted.isr kept.room sane shown⟩
  · exact fun chkView _ => counted.clr chkView
  · intro _ _ _ _ _ _
    exact ⟨counted.balance,counted.disp,counted.scl,counted.cur,counted.pre⟩

/-- The postponed releases keep their bounds and the nodes their lists; in sane runs the references
outstanding are those of the frames queued, shown, shown before or kept. -/
theorem display_references {trace : List (Action × Reply)} {w : Vpp}
    (run : Runs.Run step (fun _ _ => True) idle trace w) :
    .fault ∉ trace.map Prod.snd ∧
    (w.dispFbList.map Prod.fst ++ w.dispFreeList).Perm (List.range dispFbMaxNodes) ∧
    (w.sclFbList.map Prod.fst ++ w.sclFreeList).Perm (List.range sclFbMax) ∧
    (Runs.Run step Sane idle trace w → ∀ x, w.gets.count x = w.puts.count x + w.held.count x) := by
  have start : Kept idle := ⟨⟨rfl, by decide⟩, .refl _, .refl _, rfl⟩
  have now : .fault ∉ trace.map Prod.snd ∧ Kept w := by
    apply run.trace_invariant
    · exact ⟨by simp, start⟩
    intro trace t a r u ht _ done
    obtain ⟨fine, kept⟩ := kept_step ht.2 done
    refine ⟨fun mem => ?_, kept⟩
    rw [List.map_append] at mem
    rcases List.mem_append.mp mem with mem | mem
    · exact ht.1 mem
    · exact fine (List.mem_singleton.mp mem).symm
  refine ⟨now.1, now.2.disp, now.2.scl, fun sane => ?_⟩
  have both : Kept w ∧ Counted w := by
    apply sane.invariant
    · exact ⟨start, fun _ => rfl, by simp [idle], by simp [idle], fun _ => rfl, fun _ => rfl⟩
    · exact fun ht sane done => ⟨(kept_step ht.1 done).2, counted_step ht.1 ht.2 sane done⟩
  exact both.2.balance

def addrFrame (y c : Nat) : Frame :=
  ⟨⟨true, false, false, false, false, false, false, false⟩, ⟨y, c⟩, ⟨0, 0⟩, ⟨0, 0, 0, 0, 0, 0, 0, 0⟩⟩

def otherShape : Shape := ⟨1, 1, 1, 1, 0, 0, 0, 0⟩

theorem display_references_shown : ∃ trace w, Runs.Run step Sane idle trace w ∧
    w.gets = [1, 2] ∧ w.cur = ⟨1, 2⟩ ∧ ∀ x, w.gets.count x = w.puts.count x + w.held.count x := by
  have plain : Plain (addrFrame 1 2) := .inr ⟨rfl, .inl rfl, by simp [addrFrame], by decide⟩
  have added : Runs.Run step Sane idle _ _ :=
    .next .start (show Sane _ (.add (addrFrame 1 2) otherShape) from plain) rfl
  have run := added.next (show Sane _ .isr from fun no => by cases no) rfl
  exact ⟨_, _, run, rfl, rfl, (display_references (run.weaken fun _ _ _ => trivial)).2.2.2 run⟩

/-- A cleared, a skipped, a two-pair, a chroma-only, a scaler frame. -/
theorem display_miscounts :
    (∃ trace w, Runs.Run step (fun _ _ => True) idle trace w ∧
      w.gets = [1, 2] ∧ w.puts = [1, 2, 1, 2] ∧ w.held = []) ∧
    (∃ trace w, Runs.Run step (fun _ _ => True) idle trace w ∧
      w.gets = [1, 2] ∧ w.puts = [] ∧ w.held = []) ∧
    (∃ trace w, Runs.Run step (fun _ _ => True) idle trace w ∧
      w.gets = [1, 2] ∧ w.puts = [] ∧ w.held = [3, 4]) ∧
    (∃ trace w, Runs.Run step (fun _ _ => True) idle trace w ∧
      w.gets = [2, 5, 6, 7, 8] ∧ w.puts = [] ∧ w.held = [7, 8, 5, 6]) ∧
    ∃ trace w, Runs.Run step (fun _ _ => True) idle trace w ∧
      w.gets = [] ∧ w.puts = [1, 2] ∧ w.held = [] := by
  have all : ∀ (t : Vpp) (a : Action), (fun _ _ => true) t a = true → (fun _ _ => True) t a :=
    fun _ _ _ => trivial
  refine ⟨?_, ?_, ?_, ?_, ?_⟩
  · exact ⟨_, _, Runs.Run.exec all .start (show Runs.exec step _ idle []
      [.add (addrFrame 1 2) otherShape, .add { addrFrame 0 0 with
        flags := ⟨false, false, true, false, false, false, false, false⟩ } otherShape,
        .clr false] = some _ from rfl), rfl, rfl, rfl⟩
  · exact ⟨_, _, Runs.Run.exec all .start (show Runs.exec step _ idle []
      [.add (addrFrame 1 2) otherShape, .setSkipAll true, .isr] = some _ from rfl), rfl, rfl, rfl⟩
  · exact ⟨_, _, Runs.Run.exec all .start (show Runs.exec step _ idle []
      [.add { addrFrame 1 2 with
        flags := ⟨true, true, false, false, false, false, false, false⟩
        infoAddrs := ⟨3, 4⟩ } otherShape, .isr] = some _ from rfl), rfl, rfl, rfl⟩
  · exact ⟨_, _, Runs.Run.exec all .start (show Runs.exec step _ idle []
      [.add (addrFrame 0 2) otherShape, .isr, .add (addrFrame 5 6) otherShape, .isr,
        .add (addrFrame 7 8) otherShape, .isr] = some _ from rfl), rfl, rfl, rfl⟩
  · exact ⟨_, _, Runs.Run.exec all .start (show Runs.exec step _ idle []
      [.add { addrFrame 1 2 with
        flags := ⟨true, false, false, false, false, false, false, true⟩ } otherShape,
        .clr false] = some _ from rfl), rfl, rfl, rfl⟩

end Apc8750.Display
