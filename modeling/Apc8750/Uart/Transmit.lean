import Apc8750.Library.Runs

namespace Apc8750.Uart

def uartBufferSize : Nat := 4096

/-- The ring from its tail, the transfers by length, and what was written, asked for as `x_char`,
taken and put on the line; `spoiled` tells of a write during a transfer. -/
structure Port where
  xmit : List (BitVec 8) := []
  xChar : BitVec 8 := 0
  going : Bool := false
  dmaBuf : List (BitVec 8) := []
  transfers : List Nat := []
  written : List (BitVec 8) := []
  asked : List (BitVec 8) := []
  taken : List (Bool × BitVec 8) := []
  line : List (BitVec 8) := []
  spoiled : Bool := false
  deriving DecidableEq

def send (p : Port) (x : Bool) (chars : List (BitVec 8)) : Port :=
  { p with
    dmaBuf := chars ++ p.dmaBuf.drop chars.length
    going := true
    transfers := p.transfers ++ [chars.length]
    taken := p.taken ++ chars.map (x, ·)
    spoiled := p.spoiled || !p.transfers.isEmpty }

/-- `stopped` is what `uart_tx_stopped` gives after the modem lines were checked. -/
def wmtTxChars (p : Port) (stopped : Bool) : Port :=
  if p.xChar ≠ 0 then { send p true [p.xChar] with xChar := 0 }
  else if p.xmit = [] ∨ stopped = true then p
  else if p.going = false then
    { send p false (p.xmit.take uartBufferSize) with xmit := p.xmit.drop uartBufferSize }
  else p

inductive Event where
  | write (chars : List (BitVec 8))
  | startTx (stopped : Bool)
  | sendXchar (ch : BitVec 8) (stopped : Bool)
  | complete (stopped : Bool)

/-- A transfer reads the buffer until it completes and calls `uart_dma_callback_tx`. -/
def step (p : Port) : Event → Option (Unit × Port)
  | .write chars => some ((), { p with xmit := p.xmit ++ chars, written := p.written ++ chars })
  | .startTx stopped => some ((), wmtTxChars p stopped)
  | .sendXchar ch stopped =>
    some ((), if ch = 0 then p
      else wmtTxChars { p with xChar := ch, asked := p.asked ++ [ch] } stopped)
  | .complete stopped =>
    match p.transfers with
    | [] => none
    | n :: rest =>
      let p := { p with line := p.line ++ p.dmaBuf.take n, transfers := rest, going := false }
      some ((), wmtTxChars p stopped)

/-- No `x_char` is asked for during a transfer. -/
def Careful (p : Port) : Event → Prop
  | .sendXchar _ _ => p.transfers = []
  | _ => True

def Port.inFlight (p : Port) : List (BitVec 8) := p.transfers.head?.elim [] p.dmaBuf.take

structure Orderly (p : Port) : Prop where
  intact : p.spoiled = false
  single : p.transfers.length ≤ 1
  line : p.line ++ p.inFlight = p.taken.map Prod.snd
  ring : (p.taken.filter (!·.1)).map Prod.snd ++ p.xmit = p.written
  xchars : (p.taken.filter (·.1)).map Prod.snd = p.asked

structure Flagged (p : Port) : Prop extends Orderly p where
  clear : p.xChar = 0
  flag : p.going = !p.transfers.isEmpty

theorem send_line (x : Bool) (chars : List (BitVec 8)) (idle : p.transfers = [])
    (line : p.line ++ p.inFlight = p.taken.map Prod.snd) :
    (send p x chars).line ++ (send p x chars).inFlight = (send p x chars).taken.map Prod.snd := by
  rw [Port.inFlight,idle] at line
  simp only [send,Port.inFlight,idle,List.nil_append,List.head?_cons,Option.elim_some,
    List.take_left,List.map_append,List.map_map,← line,List.head?_nil,Option.elim_none,
    List.append_nil]
  exact congrArg _ (List.map_id' chars).symm

theorem Flagged.txChars (h : Flagged p) (stopped : Bool) : Flagged (wmtTxChars p stopped) := by
  unfold wmtTxChars
  rw [if_neg (not_not.mpr h.clear)]
  split
  · exact h
  split
  · rename_i free
    have idle : p.transfers = [] := by simpa [free] using h.flag
    have ring := h.ring
    have xchars := h.xchars
    have whole := List.take_append_drop uartBufferSize p.xmit
    generalize p.xmit.take uartBufferSize = chars at whole ⊢
    generalize p.xmit.drop uartBufferSize = rest at whole ⊢
    refine ⟨⟨?_,?_,send_line _ _ idle h.line,?_,?_⟩,h.clear,?_⟩
    · simp [send,h.intact,idle]
    · simp [send,idle]
    · simp [send,List.filter_map,Function.comp_def,← ring,← whole]
    · simp [send,List.filter_map,Function.comp_def,← xchars]
    · simp [send]
  · exact h

theorem Flagged.sendXchar (h : Flagged p) (some : ch ≠ 0) (stopped : Bool) (idle : p.transfers = []) :
    Flagged (wmtTxChars { p with xChar := ch, asked := p.asked ++ [ch] } stopped) := by
  have ring := h.ring
  have xchars := h.xchars
  rw [wmtTxChars,if_pos some]
  refine ⟨⟨?_,?_,send_line true [ch] idle h.line,?_,?_⟩,rfl,?_⟩
  · simp [send,h.intact,idle]
  · simp [send,idle]
  · simp [send,← ring]
  · simp [send,← xchars]
  · simp [send]

theorem Flagged.step (h : Flagged p) (careful : Careful p e) (done : step p e = some (r,q)) :
    Flagged q := by
  cases e with
  | write chars =>
    cases done
    exact ⟨⟨h.intact,h.single,h.line,by rw [← List.append_assoc,h.ring],h.xchars⟩,h.clear,h.flag⟩
  | startTx stopped =>
    cases done
    exact h.txChars stopped
  | sendXchar ch stopped =>
    cases done
    split
    · exact h
    · rename_i some
      exact h.sendXchar some stopped careful
  | complete stopped =>
    rw [Uart.step] at done
    split at done
    · cases done
    rename_i n rest eq
    cases done
    have last : rest = [] := by
      have := h.single
      rw [eq,List.length_cons] at this
      exact List.length_eq_zero_iff.mp (by omega)
    have line := h.line
    rw [Port.inFlight,eq] at line
    subst last
    have free : Flagged { p with line := p.line ++ p.dmaBuf.take n, transfers := [], going := false } :=
      ⟨⟨h.intact,Nat.zero_le _,(List.append_nil _).trans line,h.ring,h.xchars⟩,h.clear,rfl⟩
    exact free.txChars stopped

/-- Without an `x_char` during a transfer the line has what was taken, in order. -/
theorem transmit_intact {trace : List (Event × Unit)} (run : Runs.Run step Careful {} trace p) : Orderly p :=
  (run.invariant (I := Flagged) ⟨⟨rfl, by decide, rfl, rfl, rfl⟩, rfl, rfl⟩ fun h careful done =>
    h.step careful done).toOrderly

theorem transmit_intact_two : ∃ p, Runs.Run step Careful {}
      [(.write [1, 2], ()), (.startTx false, ()), (.complete false, ()), (.sendXchar 17 false, ())] p ∧
    Orderly p ∧ p.line = [1, 2] := by
  obtain ⟨p, run, line⟩ : ∃ p, Runs.Run step Careful {}
      [(.write [1, 2], ()), (.startTx false, ()), (.complete false, ()), (.sendXchar 17 false, ())] p ∧
      p.line = [1, 2] := by
    refine ⟨_, .next (.next (.next (.next .start trivial rfl) trivial rfl) trivial rfl) ?_ rfl, ?_⟩
    · exact (rfl : _ = [])
    · decide
  exact ⟨p, run, transmit_intact run, line⟩

/-- An XOFF during a transfer overwrites its first character and starts a second one. -/
theorem xchar_overwrites : ∃ p q, Runs.Run step (fun _ _ => True) {}
      [(.write [1, 2], ()), (.startTx false, ()), (.sendXchar 19 false, ())] p ∧
    p.spoiled = true ∧ p.transfers = [2, 1] ∧
    Runs.Run step (fun _ _ => True) p [(.complete true, ()), (.complete true, ())] q ∧
    q.line = [19, 2, 19] :=
  ⟨_, _, .next (.next (.next .start trivial rfl) trivial rfl) trivial rfl, by decide, by decide,
    .next (.next .start trivial rfl) trivial rfl, by decide⟩

end Apc8750.Uart
