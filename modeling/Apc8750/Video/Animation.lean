import Apc8750.Library.Runs
import Mathlib.Data.Nat.ModEq

namespace Apc8750.Video.Animation
open Function

/-- Before `play_thread`, at `down`, in a frame, behind `decompress`, in the wait, or back. -/
inductive Decoder where
  | launch
  | get
  | decode
  | finished
  | wait
  | returned
  deriving DecidableEq

/-- At `down_trylock`, with a frame, behind `show_frame`, a failed `down_trylock` or its loop, or
back. -/
inductive Player where
  | look
  | display
  | release
  | empty
  | stop
  | ended
  deriving DecidableEq

/-- The frame in each buffer, none if incomplete; the frames decoded, released, shown. -/
structure State where
  decoder : Decoder := .launch
  player : Player := .look
  writable : Nat
  readable : Nat := 0
  eof : Bool := false
  playThread : Bool := false
  wPos : Nat := 0
  rPos : Nat := 0
  slots : Nat → Option Nat := fun _ => none
  decoded : Nat := 0
  released : Nat := 0
  shown : List (Option Nat) := []

/-- A step of the decoder, with the result of a frame it decodes, or of the player. -/
inductive Event where
  | decoder (ok : Bool)
  | player

def advance (count pos : Nat) : Nat := if pos + 1 = count then 0 else pos + 1

/-- `decode_clip` for a clip of so many frames that does not repeat. -/
def decodeClip (frames count : Nat) (ok : Bool) (s : State) : Option State :=
  match s.decoder with
  | .launch => some { s with playThread := true, decoder := .get }
  | .get =>
    if s.writable = 0 then none
    else some { s with
      writable := s.writable - 1, slots := update s.slots s.wPos none, decoder := .decode }
  | .decode => some { s with
      slots := update s.slots s.wPos (if ok then some s.decoded else none)
      wPos := advance count s.wPos
      readable := s.readable + 1
      decoded := s.decoded + 1
      decoder := if !ok || s.decoded + 1 = frames then .finished else .get }
  | .finished => some { s with eof := true, decoder := .wait }
  | .wait => if s.playThread then none else some { s with decoder := .returned }
  | .returned => none

def animationPlay (count : Nat) (s : State) : Option State :=
  match s.player with
  | .look =>
    if s.readable = 0 then some { s with player := .empty }
    else some { s with readable := s.readable - 1, player := .display }
  | .display => some { s with shown := s.shown ++ [s.slots s.rPos], player := .release }
  | .release => some { s with
      rPos := advance count s.rPos
      writable := s.writable + 1
      released := s.released + 1
      player := .look }
  | .empty => some { s with player := if s.eof then .stop else .look }
  | .stop => some { s with
      readable := s.readable + 1, writable := s.writable + 2, playThread := false, player := .ended }
  | .ended => none

def step (frames count : Nat) (s : State) : Event → Option (Unit × State)
  | .decoder ok => (decodeClip frames count ok s).map ((), ·)
  | .player => (animationPlay count s).map ((), ·)

/-- The last frame does not come between the looks at `sem_readable` and at `eof`. -/
def Careful (s : State) : Event → Prop
  | .decoder ok => s.decoder = .decode → ok = true
  | .player => s.player = .empty → s.eof = true → s.readable = 0

/-- Complete frames, shown in order, all before the player leaves, and the decoder returns after it.
-/
structure Orderly (frames : Nat) (s : State) : Prop where
  handed : s.player = .display →
    s.slots s.rPos = some s.shown.length ∧ ¬ (s.decoder = .decode ∧ s.wPos = s.rPos)
  shown : s.shown = (List.range s.shown.length).map some
  all : s.player = .stop ∨ s.player = .ended → s.shown.length = s.decoded ∧ s.decoded = frames
  after : s.decoder = .returned → s.player = .ended

def Decoder.holds (d : Decoder) : Nat := if d = .decode then 1 else 0

def Player.holds (p : Player) : Nat := if p = .display ∨ p = .release then 1 else 0

structure Ledger (frames count : Nat) (s : State) : Prop where
  done : s.decoder = .finished ∨ s.decoder = .wait ∨ s.decoder = .returned → s.decoded = frames
  eof : s.eof = true ↔ s.decoder = .wait ∨ s.decoder = .returned
  left : s.player = .stop ∨ s.player = .ended → s.eof = true ∧ s.released = s.decoded
  alive : s.decoder ≠ .launch → (s.playThread = false ↔ s.player = .ended)
  after : s.decoder = .returned → s.player = .ended
  readable : s.player ≠ .ended → s.readable + s.released + s.player.holds = s.decoded
  writable : s.player ≠ .ended → s.writable + s.decoder.holds + s.decoded = count + s.released
  length : s.shown.length = s.released + if s.player = .release then 1 else 0

structure Stored (count : Nat) (s : State) : Prop where
  wPos : s.wPos = s.decoded % count
  rPos : s.rPos = s.released % count
  slots : ∀ k, s.released ≤ k → k < s.decoded → s.slots (k % count) = some k
  shown : s.shown = (List.range s.shown.length).map some

theorem advance_mod (pos : 0 < count) (n : Nat) : advance count (n % count) = (n + 1) % count := by
  have low := Nat.mod_lt n pos
  unfold advance
  rw [← Nat.mod_add_mod]
  split
  · rename_i last
    rw [last,Nat.mod_self]
  · exact (Nat.mod_eq_of_lt (by omega)).symm

theorem mod_ne {i j : Nat} (less : i < j) (near : j < i + count) : i % count ≠ j % count := by
  intro same
  have := (Nat.modEq_iff_dvd' less.le).mp same
  exact absurd (Nat.le_of_dvd (by omega) this) (by omega)

theorem Stored.update (c : Stored count s) (room : s.decoded < count + s.released)
    (low : s.released ≤ k) (high : k < s.decoded) (frame : Option Nat) :
    update s.slots s.wPos frame (k % count) = some k := by
  rw [update_of_ne,c.slots k low high]
  rw [c.wPos]
  exact mod_ne high (by omega)

theorem Ledger.decodeClip (h : Ledger frames count s) (good : s.decoder = .decode → ok = true)
    (done : decodeClip frames count ok s = some t) : Ledger frames count t := by
  obtain ⟨finished,eof,left,alive,after,readable,writable,length⟩ := h
  unfold Animation.decodeClip at done
  split at done <;> try split at done
  all_goals
    cases done
    try constructor <;> grind [Decoder.holds]

theorem Ledger.animationPlay (h : Ledger frames count s)
    (good : s.player = .empty → s.eof = true → s.readable = 0)
    (done : animationPlay count s = some t) : Ledger frames count t := by
  obtain ⟨finished,eof,left,alive,after,readable,writable,length⟩ := h
  unfold Animation.animationPlay at done
  split at done
  · split at done <;> cases done
    · constructor <;> simp_all [Player.holds]
    · constructor <;> simp_all [Player.holds]
      omega
  · cases done
    constructor <;> simp_all [Player.holds]
  · cases done
    constructor <;> simp_all [Player.holds] <;> omega
  · cases done
    cases ended : s.eof <;> constructor <;> simp_all [Player.holds]
  · cases done
    constructor <;> simp_all
  · cases done

/-- A frame that is written is behind those to be shown, and not more than the buffers. -/
theorem Ledger.room (h : Ledger frames count s) (decodes : s.decoder = .decode) :
    s.released ≤ s.decoded ∧ s.decoded < count + s.released := by
  obtain ⟨_,eof,left,_,_,readable,writable,_⟩ := h
  grind [Decoder.holds]

section
variable (c : Stored count s) (h : Ledger frames count s)
include c h

theorem Stored.decodeClip (good : s.decoder = .decode → ok = true)
    (done : decodeClip frames count ok s = some t) :
    Stored count t := by
  have next := h.decodeClip good done
  have ⟨wPos,rPos,slots,shown⟩ := c
  unfold Animation.decodeClip at done
  split at done
  · cases done
    exact ⟨wPos,rPos,slots,shown⟩
  · split at done <;> cases done
    exact ⟨wPos,rPos,fun k low high => c.update (next.room rfl).2 low high none,shown⟩
  · rename_i at_decode
    obtain ⟨order,room⟩ := h.room at_decode
    cases done
    refine ⟨?_,rPos,fun k low high => ?_,shown⟩
    · simp only [wPos]
      exact advance_mod (by omega) s.decoded
    rw [good at_decode,if_pos rfl]
    rcases Nat.lt_or_eq_of_le (Nat.lt_succ_iff.mp high) with before | last
    · exact c.update room low before _
    · rw [last,← wPos]
      exact update_self ..
  · cases done
    exact ⟨wPos,rPos,slots,shown⟩
  · split at done <;> cases done
    exact ⟨wPos,rPos,slots,shown⟩
  · cases done

theorem Stored.handed (shows : s.player = .display) :
    s.slots s.rPos = some s.shown.length := by
  have readable := h.readable (by simp [shows])
  have length := h.length
  simp only [shows,Player.holds,true_or,if_true,reduceCtorEq,if_false] at readable length
  rw [length,c.rPos]
  exact c.slots _ le_rfl (by omega)

theorem Stored.animationPlay (done : animationPlay count s = some t) : Stored count t := by
  have ⟨wPos,rPos,slots,shown⟩ := c
  unfold Animation.animationPlay at done
  split at done
  · split at done <;> cases done <;> exact ⟨wPos,rPos,slots,shown⟩
  · rename_i at_display
    cases done
    refine ⟨wPos,rPos,slots,?_⟩
    rw [c.handed h at_display,List.length_append,List.length_singleton,List.range_succ,
      List.map_append,← shown]
    rfl
  · rename_i at_release
    have readable := h.readable (by simp [at_release])
    have writable := h.writable (by simp [at_release])
    simp only [at_release,Player.holds,or_true,if_true] at readable
    cases done
    refine ⟨wPos,?_,fun k low high => slots k (Nat.le_of_succ_le low) high,shown⟩
    simp only [rPos]
    exact advance_mod (by omega) s.released
  · cases done
    exact ⟨wPos,rPos,slots,shown⟩
  · cases done
    exact ⟨wPos,rPos,slots,shown⟩
  · cases done

end

theorem orderly (h : Ledger frames count s) (c : Stored count s) : Orderly frames s := by
  refine ⟨fun shows => ⟨c.handed h shows,fun ⟨decodes,same⟩ => ?_⟩,c.shown,fun ends => ?_,h.after⟩
  · have readable := h.readable (by simp [shows])
    simp only [shows,Player.holds,true_or,if_true] at readable
    rw [c.wPos,c.rPos] at same
    have room := h.room decodes
    exact mod_ne (by omega) (by omega) same.symm
  · obtain ⟨eof,all⟩ := h.left ends
    have length := h.length
    rw [if_neg (by rcases ends with h | h <;> simp [h])] at length
    exact ⟨length.trans all,h.done (.inr (h.eof.mp eof))⟩

theorem sound_step (sound : Ledger frames count s ∧ Stored count s) (allowed : Careful s e)
    (done : step frames count s e = some (r,t)) : Ledger frames count t ∧ Stored count t := by
  obtain ⟨h,c⟩ := sound
  cases e with
  | decoder ok =>
    obtain ⟨u,done,eq⟩ := Option.map_eq_some_iff.mp done
    cases eq
    exact ⟨h.decodeClip allowed done,c.decodeClip h allowed done⟩
  | player =>
    obtain ⟨u,done,eq⟩ := Option.map_eq_some_iff.mp done
    cases eq
    exact ⟨h.animationPlay allowed done,c.animationPlay h done⟩

/-- In careful runs the player shows each frame complete, once and in order, and `decode_clip`
returns after it. -/
theorem frames_shown (frames count : Nat)
    (run : Runs.Run (step frames count) Careful { writable := count } trace s) :
    Orderly frames s := by
  have sound := run.invariant (I := fun s => Ledger frames count s ∧ Stored count s)
    ⟨by constructor <;> simp [Player.holds, Decoder.holds], by constructor <;> simp⟩ sound_step
  exact orderly sound.1 sound.2

theorem frames_shown_one : ∃ trace s,
    Runs.Run (step 1 1) Careful { writable := 1 } trace s ∧ s.player = .stop ∧ Orderly 1 s := by
  have run : ∃ trace s, Runs.Run (step 1 1) Careful { writable := 1 } trace s ∧ s.player = .stop := by
    refine ⟨_, _, .next (.next (.next (.next (.next (.next (.next (.next (.next .start
      (a := .decoder true) ?_ rfl) (a := .decoder true) ?_ rfl) (a := .decoder true) ?_ rfl)
      (a := .decoder true) ?_ rfl) (a := .player) ?_ rfl) (a := .player) ?_ rfl)
      (a := .player) ?_ rfl) (a := .player) ?_ rfl) (a := .player) ?_ rfl, rfl⟩ <;> simp [Careful]
  obtain ⟨trace, s, run, ends⟩ := run
  exact ⟨trace, s, run, ends, frames_shown 1 1 run⟩

/-- The frame comes between the two looks of the player. -/
theorem frame_lost :
    (∃ trace s, Runs.Run (step 1 1) (fun _ _ => True) { writable := 1 } trace s ∧
      s.decoder = .returned ∧ s.decoded = 1 ∧ s.shown = [] ∧ ¬ Orderly 1 s) ∧
    ∃ trace s, Runs.Run (step 1 1) (fun _ _ => True) { writable := 1 } trace s ∧
      s.shown = [none] ∧ ¬ Orderly 1 s := by
  constructor
  · refine ⟨_, _, .next (.next (.next (.next (.next (.next (.next (.next .start
      (a := .decoder true) trivial rfl) (a := .player) trivial rfl) (a := .decoder true) trivial rfl)
      (a := .decoder true) trivial rfl) (a := .decoder true) trivial rfl) (a := .player) trivial rfl)
      (a := .player) trivial rfl) (a := .decoder true) trivial rfl, rfl, rfl, rfl, fun h => ?_⟩
    exact absurd (h.all (.inr rfl)).1 (by decide)
  · refine ⟨_, _, .next (.next (.next (.next (.next .start
      (a := .decoder true) trivial rfl) (a := .decoder true) trivial rfl)
      (a := .decoder false) trivial rfl) (a := .player) trivial rfl) (a := .player) trivial rfl,
      rfl, fun h => ?_⟩
    exact absurd h.shown (by decide)

end Apc8750.Video.Animation
