import Mathlib.Data.List.Nodup
import Mathlib.Data.Nat.Bitwise

namespace Apc8750.Usb

/-- Where it starts and the byte count that was written to `Bulk1DesTbytes`. -/
structure Chunk where
  addr : BitVec 32
  count : Nat
  deriving DecidableEq

/-- `struct vt8500_req` with the DMAs programmed for it. -/
structure Request where
  id : Nat
  length : BitVec 32
  zero : Bool
  dma : BitVec 32
  actual : BitVec 32
  status : Int
  dmaBytes : BitVec 32
  chunks : List Chunk
  deriving DecidableEq

/-- `rndis` is the bounce buffer once there is one, `alloc` the address of the next. -/
structure Endpoint where
  maxpacket : Nat
  pos : 0 < maxpacket
  toggleBit : Nat
  rndis : Option (BitVec 32)
  alloc : BitVec 32
  stalled : Bool
  stallMoreProcessing : Bool
  tempDcmd : Nat
  tempBulkDmaAddr : BitVec 32
  epStallToggleBit : Nat
  tbytes2 : Nat
  tbytes1 : Nat
  tbytes0 : Nat
  queue : List Request
  finished : List Request
  deriving DecidableEq

def ubeMaxDma : Nat := 0x20000

def einprogress : Int := -115

/-- The count in the three byte registers; after a transfer it is the residue. -/
def Endpoint.tbytes (e : Endpoint) : Nat :=
  e.tbytes2 % 4 * 65536 + e.tbytes1 * 256 + e.tbytes0

def dmaSrcLen (e : Endpoint) (req : Request) : BitVec 32 :=
  req.length - BitVec.ofNat 32 e.tbytes

/-- Its own, or the bounce buffer, allocated for the first request without address. -/
def Endpoint.bounce (e : Endpoint) (req : Request) : Option (BitVec 32) :=
  if req.dma = 0xFFFFFFFF ∧ e.rndis = none then some e.alloc else e.rndis

def Endpoint.source (e : Endpoint) (req : Request) : BitVec 32 := (e.bounce req).getD req.dma

def nextInDma (e : Endpoint) (req : Request) : Endpoint × Request :=
  let length := req.length - req.actual
  let buf := (req.dma + req.actual) &&& 0xFFFFFFFC
  let addr := (e.source req + req.actual) &&& 0xFFFFFFFC
  let dcmd := if ubeMaxDma < length.toNat then ubeMaxDma else length.toNat
  let tbytes2 := e.tbytes2 ||| (dcmd / 65536 % 4)
  let next := { e with
    rndis := e.bounce req
    stallMoreProcessing := e.stalled
    tempDcmd := if e.stalled then dcmd else e.tempDcmd
    tempBulkDmaAddr := if e.stalled then buf else e.tempBulkDmaAddr
    epStallToggleBit := if e.stalled then e.toggleBit else e.epStallToggleBit
    tbytes2 := if e.toggleBit ≠ 0 then tbytes2 ||| 0x40 else tbytes2 &&& 0xBF
    tbytes1 := dcmd / 256 % 256
    tbytes0 := dcmd % 256
    toggleBit :=
      if e.maxpacket < req.length.toNat then
        ((req.length.toNat + e.maxpacket - 1) % 2 ^ 32 / e.maxpacket + e.toggleBit) % 2
      else if e.toggleBit = 0 then 1 else 0 }
  (next, { req with dmaBytes := length, chunks := req.chunks ++ [⟨addr, next.tbytes⟩] })

def finishInDma (e : Endpoint) (req : Request) (status : Int) : Request × Bool :=
  let req := { req with actual := req.actual + dmaSrcLen e req }
  if status = 0 then
    if req.actual < req.length then (req, false)
    else if req.zero ∧ req.dmaBytes ≠ 0 ∧ req.actual.toNat % e.maxpacket = 0 then (req, false)
    else (req, true)
  else (req, true)

def done (e : Endpoint) (req : Request) (rest : List Request) (status : Int) : Endpoint :=
  let req := if req.status = einprogress then { req with status } else req
  { e with queue := rest, finished := e.finished ++ [req] }

def program (e : Endpoint) : Endpoint :=
  match e.queue with
  | [] => e
  | req :: rest =>
    let (e, req) := nextInDma e req
    { e with queue := req :: rest }

def dmaIrq (e : Endpoint) : Endpoint :=
  match e.queue with
  | [] => e
  | req :: rest =>
    let (req, finished) := finishInDma e req 0
    program (if finished then done e req rest 0 else { e with queue := req :: rest })

def complete (e : Endpoint) : Endpoint :=
  { e with tbytes2 := e.tbytes2 / 4 * 4, tbytes1 := 0, tbytes0 := 0 }

def transfer (e : Endpoint) : Endpoint := dmaIrq (complete e)

/-- From an offset to the end, each beginning where the one before it ends. -/
def Covers (base : BitVec 32) (length : Nat) : Nat → List Chunk → Prop
  | offset, [] => offset = length
  | offset, c :: chunks => 0 < c.count ∧ c.addr = base + BitVec.ofNat 32 offset ∧
    Covers base length (offset + c.count) chunks

def WantsZlp (maxpacket : Nat) (req : Request) : Prop :=
  req.zero = true ∧ 0 < req.length.toNat ∧ maxpacket ∣ req.length.toNat

instance (maxpacket : Nat) (req : Request) : Decidable (WantsZlp maxpacket req) :=
  inferInstanceAs (Decidable (_ ∧ _ ∧ _))

/-- Its chunks cover it, with a zero-length transfer behind them if there is to be one. -/
structure SentWhole (base : BitVec 32) (maxpacket : Nat) (req : Request) : Prop where
  actual : req.actual = req.length
  chunks : ∃ data zlp, req.chunks = data ++ zlp ∧
    (if req.length = 0 then data.map Chunk.count = [0]
      else Covers base req.length.toNat 0 data) ∧
    zlp.map Chunk.count = if WantsZlp maxpacket req then [0] else []

/-- The request at the head of the queue comes to `done` exactly once, and is sent whole
then. -/
def Sends (e : Endpoint) (req : Request) : Prop :=
  (∃ n f, (transfer^[n] (program e)).finished = e.finished ++ [f] ∧ f.id = req.id ∧
    SentWhole (e.source req) e.maxpacket f) ∧
  ∀ n, ((transfer^[n] (program e)).finished.map Request.id).count req.id ≤ 1

theorem or_low (idle : a % 4 = 0) (low : b < 4) : (a ||| b) % 4 = b := by
  have split : (a ||| b) % 2 ^ 2 = a % 2 ^ 2 ||| b % 2 ^ 2 := Nat.or_mod_two_pow
  have clear : a % 2 ^ 2 = 0 := idle
  rw [clear,Nat.zero_or] at split
  exact split.trans (Nat.mod_eq_of_lt low)

theorem toggle_low (a : Nat) (t : Nat) : (if t ≠ 0 then a ||| 0x40 else a &&& 0xBF) % 4 = a % 4 := by
  split
  · have split : (a ||| 0x40) % 2 ^ 2 = a % 2 ^ 2 ||| 0x40 % 2 ^ 2 := Nat.or_mod_two_pow
    exact split.trans (Nat.or_zero _)
  · have split : (a &&& 0xBF) % 2 ^ 2 = a % 2 ^ 2 &&& 0xBF % 2 ^ 2 := Nat.and_mod_two_pow
    have ones : a % 2 ^ 2 &&& 2 ^ 2 - 1 = a % 2 ^ 2 % 2 ^ 2 := Nat.and_two_pow_sub_one_eq_mod _ _
    exact split.trans (ones.trans (Nat.mod_mod _ _))

theorem tbytes_program (idle : e.tbytes2 % 4 = 0) :
    (nextInDma e req).1.tbytes = min (req.length - req.actual).toNat ubeMaxDma := by
  let dcmd := if ubeMaxDma < (req.length - req.actual).toNat then ubeMaxDma
    else (req.length - req.actual).toNat
  have eq : dcmd = min (req.length - req.actual).toNat ubeMaxDma := by
    unfold dcmd
    split <;> omega
  have le : dcmd ≤ 0x20000 := by
    rw [eq]
    exact Nat.min_le_right _ _
  rw [← eq]
  change (if e.toggleBit ≠ 0 then _ else _) % 4 * 65536 + dcmd / 256 % 256 * 256 + dcmd % 256 = dcmd
  rw [toggle_low,or_low idle (by omega)]
  omega

theorem program_cons (h : e.queue = req :: rest) :
    ∃ c : Chunk, (program e).queue = { req with
        dmaBytes := req.length - req.actual
        chunks := req.chunks ++ [c] } :: rest ∧
      c.addr = (e.source req + req.actual) &&& 0xFFFFFFFC ∧
      (e.tbytes2 % 4 = 0 → c.count = min (req.length - req.actual).toNat ubeMaxDma) := by
  unfold program
  rw [h]
  exact ⟨_,rfl,rfl,tbytes_program⟩

@[simp] theorem program_finished : (program e).finished = e.finished := by
  unfold program
  split <;> rfl

@[simp] theorem program_maxpacket : (program e).maxpacket = e.maxpacket := by
  unfold program
  split <;> rfl

theorem program_ids : (program e).queue.map Request.id = e.queue.map Request.id := by
  unfold program
  split
  · rfl
  · rename_i req rest h
    rw [h]
    rfl

/-- `finish_in_dma` leaves the request in the queue. -/
def Unfinished (maxpacket : Nat) (req : Request) : Prop :=
  req.actual < req.length ∨ req.zero = true ∧ req.dmaBytes ≠ 0 ∧ req.actual.toNat % maxpacket = 0

instance (maxpacket : Nat) (req : Request) : Decidable (Unfinished maxpacket req) :=
  inferInstanceAs (Decidable (_ ∨ _))

/-- With the residue 0 `dma_src_len` is the whole length, whatever the chunk. -/
def Request.advance (req : Request) : Request := { req with actual := req.actual + req.length }

theorem dmaSrcLen_complete : dmaSrcLen (complete e) req = req.length := by
  have zero : (complete e).tbytes = 0 := by
    simp [complete,Endpoint.tbytes]
  simp [dmaSrcLen,zero]

theorem finish_complete : finishInDma (complete e) req 0 =
    (req.advance, decide ¬ Unfinished e.maxpacket req.advance) := by
  unfold finishInDma
  rw [dmaSrcLen_complete,if_pos rfl]
  change (if req.advance.actual < req.advance.length then (req.advance,false)
    else if req.zero = true ∧ req.dmaBytes ≠ 0 ∧ req.advance.actual.toNat % e.maxpacket = 0 then
      (req.advance,false) else (req.advance,true)) = _
  by_cases less : req.advance.actual < req.advance.length
  · have unfinished : Unfinished e.maxpacket req.advance := .inl less
    rw [if_pos less,decide_eq_false (by simpa using unfinished)]
  rw [if_neg less]
  split
  · rename_i zlp
    have unfinished : Unfinished e.maxpacket req.advance := .inr zlp
    rw [decide_eq_false (by simpa using unfinished)]
  · rename_i zlp
    have ended : ¬ Unfinished e.maxpacket req.advance := not_or.mpr ⟨less,zlp⟩
    rw [decide_eq_true ended]

theorem transfer_cons (h : e.queue = req :: rest) :
    transfer e = program (if Unfinished e.maxpacket req.advance then
      { complete e with queue := req.advance :: rest } else done (complete e) req.advance rest 0) := by
  have queue : (complete e).queue = req :: rest := h
  unfold transfer dmaIrq
  rw [queue]
  simp only [finish_complete]
  split
  · rename_i ended
    rw [if_neg (of_decide_eq_true ended)]
  · rename_i more
    rw [if_pos (by simpa using more)]

theorem transfer_nil (h : e.queue = []) : transfer e = complete e := by
  have queue : (complete e).queue = [] := h
  unfold transfer dmaIrq
  rw [queue]

theorem transfer_ids (e : Endpoint) : ((transfer e).finished ++ (transfer e).queue).map Request.id =
      (e.finished ++ e.queue).map Request.id := by
  cases h : e.queue with
  | nil => rw [transfer_nil h,← h]; rfl
  | cons req rest =>
    rw [List.map_append,List.map_append]
    rw [transfer_cons h,program_finished,program_ids]
    split
    · rfl
    · unfold done
      dsimp only
      split <;> simp [complete,Request.advance]

theorem transfers_ids (n : Nat) (e : Endpoint) :
    ((transfer^[n] e).finished ++ (transfer^[n] e).queue).map Request.id =
      (e.finished ++ e.queue).map Request.id := by
  induction n generalizing e with
  | zero => rfl
  | succ n ih => rw [Function.iterate_succ_apply,ih,transfer_ids]

theorem transfer_grows (e : Endpoint) : ∃ more, (transfer e).finished = e.finished ++ more := by
  cases h : e.queue with
  | nil => exact ⟨[],by rw [transfer_nil h,List.append_nil]; rfl⟩
  | cons req rest =>
    rw [transfer_cons h,program_finished]
    split
    · exact ⟨[],(List.append_nil _).symm⟩
    · exact ⟨_,rfl⟩

theorem transfers_grow (n : Nat) (e : Endpoint) :
    ∃ more, (transfer^[n] e).finished = e.finished ++ more := by
  induction n generalizing e with
  | zero => exact ⟨[],(List.append_nil _).symm⟩
  | succ n ih =>
    obtain ⟨more,eq⟩ := ih (transfer e)
    obtain ⟨one,first⟩ := transfer_grows e
    exact ⟨one ++ more,by rw [Function.iterate_succ_apply,eq,first,List.append_assoc]⟩

/-- Its zero-length transfer was programmed: each turn adds the length to `actual`. -/
def Trailing (req : Request) (turns : Nat) (f : Request) : Prop :=
  f.id = req.id ∧ f.length = req.length ∧ f.zero = req.zero ∧ ∃ first addr more,
    f.chunks = first :: ⟨addr, 0⟩ :: more ∧ first.count = min req.length.toNat ubeMaxDma ∧
    f.actual = BitVec.ofNat 32 (more.length + turns) * req.length

theorem ofNat_succ_mul (n : Nat) (l : BitVec 32) :
    BitVec.ofNat 32 n * l + l = BitVec.ofNat 32 (n + 1) * l := by
  rw [BitVec.ofNat_add,BitVec.add_mul]
  simp

theorem trailing_step (h : e.queue = r :: rest) (trails : Trailing req 1 r) :
    ((transfer e).finished = e.finished ∧
      ∃ r', (transfer e).queue = r' :: rest ∧ Trailing req 1 r') ∨
    ∃ f, (transfer e).finished = e.finished ++ [f] ∧ Trailing req 2 f := by
  obtain ⟨id,length,zero,first,addr,more,chunks,count,actual⟩ := trails
  have next : r.advance.actual = BitVec.ofNat 32 (more.length + 1 + 1) * req.length := by
    rw [← ofNat_succ_mul,← actual,Request.advance,length]
  rw [transfer_cons h]
  split
  · left
    refine ⟨program_finished,?_⟩
    obtain ⟨c,queue,_⟩ := program_cons (e := { complete e with queue := r.advance :: rest }) rfl
    refine ⟨_,queue,id,length,zero,first,addr,more ++ [c],?_,count,?_⟩
    · rw [Request.advance,chunks]
      rfl
    · rw [List.length_append]
      exact next
  · right
    refine ⟨_,program_finished,?_⟩
    split
    · exact ⟨id,length,zero,first,addr,more,chunks,count,next⟩
    · exact ⟨id,length,zero,first,addr,more,chunks,count,next⟩

theorem trailing_not_whole (trails : Trailing req 2 f) (wants : WantsZlp maxpacket req) :
    ¬ SentWhole base maxpacket f := by
  obtain ⟨_,length,zero,first,addr,more,chunks,count,actual⟩ := trails
  intro ⟨whole,data,zlp,split,cover,tail⟩
  have wants' : WantsZlp maxpacket f := by
    unfold WantsZlp
    rw [length,zero]
    exact wants
  have pos := wants.2.1
  have nonzero : f.length ≠ 0 := by
    rw [length]
    intro none
    simp [none] at pos
  rw [if_pos wants'] at tail
  rw [if_neg nonzero] at cover
  rw [chunks] at split
  cases data with
  | nil =>
    have zero : 0 = f.length.toNat := cover
    rw [length] at zero
    omega
  | cons c data =>
    obtain ⟨rfl,rest⟩ := List.cons.inj split
    cases data with
    | nil =>
      have single := congrArg List.length tail
      rw [← show _ = zlp from rest] at single
      obtain rfl : more = [] := by simpa using single
      rw [whole,length] at actual
      have double : req.length = 2#32 * req.length := actual
      bv_omega
    | cons d data =>
      obtain ⟨rfl,_⟩ := List.cons.inj rest
      exact absurd cover.2.2.1 (Nat.lt_irrefl 0)

theorem trailing_run (wants : WantsZlp maxpacket req) (h : e.queue = r :: rest)
    (trails : Trailing req 1 r) (n : Nat) (first : (transfer^[n] e).finished = e.finished ++ [f]) :
    ¬ SentWhole base maxpacket f := by
  induction n generalizing e r with
  | zero => exact absurd (congrArg List.length first) (by simp)
  | succ n ih =>
    rw [Function.iterate_succ_apply] at first
    rcases trailing_step h trails with ⟨same,r',queue,trails⟩ | ⟨g,added,trails⟩
    · rw [← same] at first
      exact ih queue trails first
    obtain ⟨more,later⟩ := transfers_grow n (transfer e)
    rw [added,first,List.append_assoc,List.append_cancel_left_eq] at later
    obtain ⟨rfl,_⟩ := List.cons.inj later
    exact trailing_not_whole trails wants

theorem aligned_iff (a : BitVec 32) : a &&& 0xFFFFFFFC = a ↔ a &&& 3 = 0 := by
  have mask : (0xFFFFFFFC : BitVec 32) = ~~~ 3 := by decide
  rw [mask]
  constructor
  · intro h
    rw [← h,BitVec.and_assoc]
    simp
  intro h
  apply BitVec.eq_of_getLsbD_eq
  intro i hi
  have clear := congrArg (fun b => b.getLsbD i) h
  simp only [BitVec.getLsbD_and,BitVec.getLsbD_not,hi,decide_true,Bool.true_and] at clear ⊢
  cases set : a.getLsbD i with
  | false => rfl
  | true => simpa [set] using clear

theorem start_first (h : e.queue = req :: rest) (fresh : req.actual = 0) (empty : req.chunks = [])
    (idle : e.tbytes = 0) :
    ∃ c : Chunk, (program e).queue = { req with dmaBytes := req.length, chunks := [c] } :: rest ∧
      c.addr = e.source req &&& 0xFFFFFFFC ∧ c.count = min req.length.toNat ubeMaxDma := by
  have low : e.tbytes2 % 4 = 0 := by
    unfold Endpoint.tbytes at idle
    omega
  have whole : req.length - req.actual = req.length := by simp [fresh]
  have start : e.source req + req.actual = e.source req := by simp [fresh]
  obtain ⟨c,queue,addr,count⟩ := program_cons h
  rw [whole] at queue count
  rw [start] at addr
  rw [empty] at queue
  exact ⟨c,queue,addr,count low⟩

theorem first_unfinished (fresh : req.actual = 0) : Unfinished maxpacket
      { req with dmaBytes := req.length, chunks := [c] : Request }.advance ↔
    WantsZlp maxpacket req := by
  have all : req.actual + req.length = req.length := by simp [fresh]
  have pos : req.length ≠ 0 ↔ 0 < req.length.toNat := by
    rw [Nat.pos_iff_ne_zero]
    exact not_congr BitVec.toNat_eq
  simp only [Unfinished,WantsZlp,Request.advance,all,BitVec.lt_irrefl,false_or,pos,
    Nat.dvd_iff_mod_eq_zero]

theorem done_finished (e : Endpoint) (req : Request) (rest : List Request) (status : Int) :
    ∃ f, (done e req rest status).finished = e.finished ++ [f] ∧ f.id = req.id ∧
      f.length = req.length ∧ f.zero = req.zero ∧ f.actual = req.actual ∧
      f.chunks = req.chunks := by
  unfold done
  dsimp only
  split
  · exact ⟨_,rfl,rfl,rfl,rfl,rfl,rfl⟩
  · exact ⟨_,rfl,rfl,rfl,rfl,rfl,rfl⟩

theorem single_whole (chunks : f.chunks = [c]) (actual : f.actual = f.length)
    (wants : ¬ WantsZlp maxpacket f) (addr : c.addr = base &&& 0xFFFFFFFC)
    (count : c.count = min f.length.toNat ubeMaxDma) :
    SentWhole base maxpacket f ↔
      f.length.toNat ≤ ubeMaxDma ∧ (f.length = 0 ∨ base &&& 3 = 0) := by
  by_cases none : f.length = 0
  · have zero : f.length.toNat = 0 := by simp [none]
    refine ⟨fun _ => ⟨by omega,.inl none⟩,fun _ => ⟨actual,[c],[],chunks,?_,?_⟩⟩
    · rw [if_pos none,List.map_singleton,count,zero,Nat.zero_min]
    · rw [if_neg wants]
      rfl
  have pos : 0 < f.length.toNat := by
    rw [Nat.pos_iff_ne_zero]
    exact fun zero => none (BitVec.toNat_eq.mpr zero)
  have start : base + BitVec.ofNat 32 0 = base := by simp
  constructor
  · intro ⟨_,data,zlp,split,cover,tail⟩
    rw [if_neg wants,List.map_eq_nil_iff] at tail
    rw [chunks,tail,List.append_nil] at split
    rw [if_neg none,← split] at cover
    obtain ⟨_,at0,ends⟩ := cover
    have ends : 0 + c.count = f.length.toNat := ends
    rw [start,addr,aligned_iff] at at0
    exact ⟨by omega,.inr at0⟩
  intro ⟨le,aligned⟩
  refine ⟨actual,[c],[],chunks,?_,?_⟩
  · rw [if_neg none]
    refine ⟨by rw [count,ubeMaxDma]; omega,?_,?_⟩
    · rw [start,addr,aligned_iff]
      exact aligned.resolve_left none
    · change 0 + c.count = f.length.toNat
      omega
  · rw [if_neg wants]
    rfl

theorem first_turn (h : e.queue = req :: rest) (fresh : req.actual = 0) (empty : req.chunks = [])
    (idle : e.tbytes = 0) :
    if WantsZlp e.maxpacket req then
      (transfer (program e)).finished = e.finished ∧
        ∃ r, (transfer (program e)).queue = r :: rest ∧ Trailing req 1 r
    else ∃ f, (transfer (program e)).finished = e.finished ++ [f] ∧ f.id = req.id ∧
      (SentWhole (e.source req) e.maxpacket f ↔
        req.length.toNat ≤ ubeMaxDma ∧ (req.length = 0 ∨ e.source req &&& 3 = 0)) := by
  obtain ⟨c,queue,addr,count⟩ := start_first h fresh empty idle
  have turn := transfer_cons queue
  have all : req.actual + req.length = req.length := by simp [fresh]
  rw [program_maxpacket] at turn
  by_cases wants : WantsZlp e.maxpacket req
  · rw [if_pos ((first_unfinished fresh).mpr wants)] at turn
    rw [if_pos wants,turn]
    refine ⟨program_finished.trans program_finished,?_⟩
    obtain ⟨d,queue',_,last⟩ := program_cons (e := { complete (program e) with
      queue := { req with dmaBytes := req.length, chunks := [c] : Request }.advance :: rest }) rfl
    have low : (complete (program e)).tbytes2 % 4 = 0 := by simp [complete]
    have zero : d = ⟨d.addr,0⟩ := by
      have last := last low
      simp only [Request.advance,all,BitVec.sub_self] at last
      rw [← show d.count = 0 from last]
    refine ⟨_,queue',rfl,rfl,rfl,c,d.addr,[],?_,count,?_⟩
    · rw [← zero]
      rfl
    · simp [Request.advance,all]
  · rw [if_neg fun more => wants ((first_unfinished fresh).mp more)] at turn
    rw [if_neg wants,turn,program_finished]
    obtain ⟨f,finished,id,length,zero,actual,chunks⟩ := done_finished (complete (program e))
      { req with dmaBytes := req.length, chunks := [c] : Request }.advance rest 0
    rw [finished]
    have wants' : ¬ WantsZlp e.maxpacket f := by
      unfold WantsZlp
      rw [length,zero]
      exact wants
    refine ⟨f,congrArg (· ++ [f]) program_finished,id,?_⟩
    have length : f.length = req.length := length
    rw [← length]
    exact single_whole chunks (by rw [actual,length]; exact all) wants' addr (by rw [length,count])

/-- A request is sent whole, once, exactly when it fits one DMA, needs no zero-length transfer and
is aligned. -/
theorem bulk_in_sent (h : e.queue = req :: rest) (fresh : req.actual = 0) (empty : req.chunks = [])
    (idle : e.tbytes = 0) (distinct : ((e.finished ++ e.queue).map Request.id).Nodup) :
    Sends e req ↔ req.length.toNat ≤ ubeMaxDma ∧ ¬ WantsZlp e.maxpacket req ∧
      (req.length = 0 ∨ e.source req &&& 3 = 0) := by
  have once : ∀ n, ((transfer^[n] (program e)).finished.map Request.id).count req.id ≤ 1 := by
    intro n
    have ids := transfers_ids n (program e)
    rw [List.map_append, List.map_append, program_ids, program_finished] at ids
    rw [List.map_append, ← ids] at distinct
    have nodup := (List.nodup_append.mp distinct).1
    exact List.nodup_iff_count_le_one.mp nodup req.id
  have turn := first_turn h fresh empty idle
  have zero : ∀ {f}, (program e).finished ≠ e.finished ++ [f] := by simp
  unfold Sends
  by_cases wants : WantsZlp e.maxpacket req
  · rw [if_pos wants] at turn
    obtain ⟨same, r, queue, trails⟩ := turn
    refine ⟨?_, fun holds => absurd wants holds.2.1⟩
    intro ⟨⟨n, f, first, _, whole⟩, _⟩
    cases n with
    | zero => exact absurd first zero
    | succ n =>
      rw [Function.iterate_succ_apply, ← same] at first
      exact absurd whole (trailing_run wants queue trails n first)
  · rw [if_neg wants] at turn
    obtain ⟨f, finished, id, whole⟩ := turn
    constructor
    · intro ⟨⟨n, g, first, _, sent⟩, _⟩
      cases n with
      | zero => exact absurd first zero
      | succ n =>
        obtain ⟨more, later⟩ := transfers_grow n (transfer (program e))
        rw [Function.iterate_succ_apply] at first
        rw [first, finished, List.append_assoc, List.append_cancel_left_eq] at later
        obtain ⟨rfl, _⟩ := List.cons.inj later
        exact ⟨(whole.mp sent).1, wants, (whole.mp sent).2⟩
    · intro ⟨le, _, aligned⟩
      exact ⟨⟨1, f, finished, id, whole.mpr ⟨le, aligned⟩⟩, once⟩

/-- A request for an aligned buffer, alone in the queue of an idle endpoint. -/
def request (length : BitVec 32) (zero : Bool) : Request :=
  ⟨0, length, zero, 0x10000000, 0, einprogress, 0, []⟩

def queued (req : Request) : Endpoint where
  maxpacket := 64
  pos := by decide
  toggleBit := 0
  rndis := none
  alloc := 0
  stalled := false
  stallMoreProcessing := false
  tempDcmd := 0
  tempBulkDmaAddr := 0
  epStallToggleBit := 0
  tbytes2 := 0
  tbytes1 := 0
  tbytes0 := 0
  queue := [req]
  finished := []

theorem bulk_in_sent_short : Sends (queued (request 100 true)) (request 100 true) :=
  (bulk_in_sent rfl rfl rfl rfl (by decide)).mpr ⟨by decide, by decide, by decide⟩

/-- 128 KB and one byte are done after the first chunk. -/
theorem bulk_in_cut :
    (transfer (program (queued (request 0x20001 false)))).finished.map
      (fun f => (f.length, f.actual, f.chunks.map Chunk.count)) = [(0x20001, 0x20001, [0x20000])] ∧
    (transfer^[2] (program (queued (request 64 true)))).finished.map
      (fun f => (f.length, f.actual, f.chunks.map Chunk.count)) = [(64, 128, [64, 0])] := by
  decide +kernel

end Apc8750.Usb
