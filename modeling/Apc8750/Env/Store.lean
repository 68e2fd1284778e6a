import Apc8750.Library.Cells

namespace Apc8750.Env
open Cells

abbrev Mem := Nat → Nat

def memOf (data : List Nat) (beyond : Mem) : Mem := fun k => data.getD k (beyond k)

/-- A bound on the rounds of every loop over memory, so that a loop that runs away
faults. -/
def space : Nat := 2 ^ 32

def strEnd (m : Mem) : Nat → Nat → Option Nat
  | 0, _ => none
  | fuel + 1, i => if m i = 0 then some i else strEnd m fuel (i + 1)

def envmatch (m : Mem) : List Nat → Nat → Option (Option Nat)
  | [], i => if m i = 0 then none else if m i = 61 then some (some (i + 1)) else some none
  | c :: s, i =>
    if c = m i then if c = 61 then some (some (i + 1)) else envmatch m s (i + 1)
    else some none

structure Found where
  env : Nat
  nxt : Nat
  val : Nat
  deriving DecidableEq

def search (m : Mem) (name : List Nat) : Nat → Nat → Option (Option Found)
  | 0, _ => none
  | fuel + 1, env =>
    if m env = 0 then some none
    else match strEnd m space env, envmatch m name env with
      | some nxt, some (some val) => some (some ⟨env, nxt, val⟩)
      | some nxt, some none => search m name fuel (nxt + 1)
      | _, _ => none

/-- What `wmt_getsyspara` returns and puts into the caller's buffer and length. -/
structure GetReply where
  rcode : Nat
  varval : List Nat
  varlen : Int
  deriving DecidableEq

def bytesOf (m : Mem) (i j : Nat) : List Nat := (List.range (j - i)).map fun k => m (i + k)

def getsyspara (m : Mem) (name : List Nat) (varlen : Int) : Option GetReply :=
  match search m name space 0 with
  | none => none
  | some none => some ⟨1, [0], if 0 > varlen then 0 else varlen⟩
  | some (some f) =>
    let val := bytesOf m f.val f.nxt
    if (val.length : Int) > varlen then some ⟨1, val ++ [0], val.length⟩
    else some ⟨0, val ++ [0], varlen⟩

/-- The loop that moves the entries behind a deleted one down over it. -/
def shift : Nat → Mem → Nat → Nat → Option (Mem × Nat)
  | 0, _, _, _ => none
  | fuel + 1, m, env, nxt =>
    let m := Function.update m env (m nxt)
    if m env = 0 ∧ m (nxt + 1) = 0 then some (m, env) else shift fuel m (env + 1) (nxt + 1)

def delete (m : Mem) (f : Found) : Option Mem :=
  if m (f.nxt + 1) = 0 then
    if 0 < f.env then some (Function.update m f.env 0)
    else some (Function.update (Function.update m f.env 0) (f.env + 1) 0)
  else match shift space m f.env (f.nxt + 1) with
    | none => none
    | some (m, env) => some (Function.update m (env + 1) 0)

def findEnd (m : Mem) : Nat → Nat → Option Nat
  | 0, _ => none
  | fuel + 1, env =>
    if m env ≠ 0 ∨ m (env + 1) ≠ 0 then findEnd m fuel (env + 1) else some env

/-- The digits that `simple_strtoul` reads, and the number they make, which has 32
bits. -/
def strtoul (s : List Nat) : Nat :=
  (s.takeWhile fun c => decide (48 ≤ c ∧ c ≤ 57)).foldl (fun n c => (n * 10 + (c - 48)) % 2 ^ 32) 0

def baudrateTable : List Nat := [9600, 19200, 38400, 57600, 115200]

def baudrateName : List Nat := [98, 97, 117, 100, 114, 97, 116, 101]

def baudCheck (name : List Nat) (value : Option (List Nat)) : Option Bool :=
  if name = baudrateName then value.map fun v => decide (strtoul v ∈ baudrateTable) else some true

/-- `old` says whether there was a definition, `update` whether `env_update` succeeds. -/
def define (envMaxSize : Nat) (m : Mem) (name : List Nat) (value : Option (List Nat)) (old : Bool)
    (update : Bool) : Option (Nat × Mem) :=
  match value with
  | none | some [] => if old then some (if update then 0 else 1, m) else some (1, m)
  | some (c :: v) =>
    match findEnd m space 0 with
    | none => none
    | some env =>
      let env := if 0 < env then env + 1 else env
      let len := name.length + 2 + (c :: v).length
      if env + len > envMaxSize then some (1, m)
      else some (if update then 0 else 1, store m env (name ++ 61 :: (c :: v) ++ [0, 0]))

/-- `wmt_setsyspara` up to the deletion: the block left, and whether there was a definition. -/
def prepare (m : Mem) (name : List Nat) (value : Option (List Nat)) :
    Option (Option (Mem × Bool)) :=
  match search m name space 0 with
  | none => none
  | some none => some (some (m, false))
  | some (some f) =>
    match baudCheck name value with
    | none => none
    | some false => some none
    | some true => (delete m f).map fun m => some (m, true)

def setsyspara (envMaxSize : Nat) (m : Mem) (name : List Nat) (value : Option (List Nat))
    (update : Bool) : Option (Nat × Mem) :=
  match search m name space 0 with
  | none => none
  | some none => define envMaxSize m name value false update
  | some (some f) =>
    match baudCheck name value with
    | none => none
    | some false => some (1, m)
    | some true =>
      match delete m f with
      | none => none
      | some m => define envMaxSize m name value true update

end Apc8750.Env
