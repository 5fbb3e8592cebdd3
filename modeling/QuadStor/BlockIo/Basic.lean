import QuadStor.Lib.System
import Mathlib.Algebra.Order.Ring.Nat

/-!
# Batched block I/O

`struct tcache` of the FreeBSD build. Pages are gathered into transfers, transfers shorter than a page go together
through a bounce buffer when the batch is issued, and a counter says how many are outstanding.
-/

namespace QuadStor.BlockIo

open Lib List

structure Bint where
  id : Nat
  sectorShift : Nat
deriving DecidableEq

/-- The arguments of `tcache_add_page` -/
structure Add where
  page : Nat
  bStart : UInt64
  bint : Bint
  size : Nat
  write : Bool

structure Biot where
  bint : Bint
  bStart : UInt64
  pages : List Nat
  dxferLen : Nat

structure Tcache where
  bioList : List (Option Biot)
  bioCount : Nat
  lastIdx : Nat
  bioRemain : Nat

/-- One request to a disk. `mem` holds the bytes of memory it moves, in order. -/
structure Transfer where
  bint : Bint
  bStart : UInt64
  mem : List (Option Nat × Nat)

structure Move where
  disk : Bint × UInt64
  mem : Option Nat × Nat

structure Kernel where
  maxphys : Nat
  page_le : 4096 ≤ maxphys

variable (kern : Kernel)

/-- `bio_count` has 16 bits. -/
def tcacheAlloc (bioCount : Nat) : Tcache := ⟨List.replicate bioCount none, bioCount % 65536, 0, 0⟩

def tcacheNeedNewBio (biot : Biot) (bStart : UInt64) (bint : Bint) : Bool :=
  biot.bint ≠ bint || biot.bStart + UInt64.ofNat (biot.dxferLen >>> bint.sectorShift) ≠ bStart ||
    biot.dxferLen % 4096 ≠ 0

def biotAlloc (bint : Bint) (bStart : UInt64) : Biot := ⟨bint, bStart, [], 0⟩

/-- not in the source: the page is added without a check -/
def Biot.add (biot : Biot) (page pgLength : Nat) : Biot :=
  { biot with pages := biot.pages ++ [page], dxferLen := biot.dxferLen + pgLength }

def biotAddPage (biot : Biot) (page pgLength : Nat) : Option Biot :=
  if kern.maxphys < biot.dxferLen + pgLength ∨ biot.pages.length = kern.maxphys / 4096 then none
  else some (biot.add page pgLength)

def Tcache.slot (s : Tcache) (i : Nat) : Option (Nat × Biot) := s.bioList[i]?.join.map (i, ·)

/-- Where no slot fits, the last one that was looked at is returned. -/
def tcacheBioLocate (s : Tcache) (bStart : UInt64) (bint : Bint) : Option (Nat × Biot) :=
  let slots := (List.range s.bioRemain).filterMap s.slot
  (slots.find? fun bio => !tcacheNeedNewBio bio.2 bStart bint).or slots.getLast?

/-- The part of `__tcache_add_page` from `again` on without a `bio`. A store outside of the array is a fault. -/
def newBio (s : Tcache) (a : Add) (lastIdx : Nat) : Option Tcache :=
  if lastIdx < s.bioList.length then
    (biotAddPage kern (biotAlloc a.bint a.bStart) a.page a.size).map fun bio =>
      { s with bioList := s.bioList.set lastIdx (some bio), lastIdx, bioRemain := s.bioRemain + 1 }
  else none

def tcacheAddPage (s : Tcache) (a : Add) : Option Tcache :=
  let bio := if a.write then s.slot s.lastIdx else tcacheBioLocate s a.bStart a.bint
  let needNew := bio.any fun bio => tcacheNeedNewBio bio.2 a.bStart a.bint
  let lastIdx := if needNew then (s.lastIdx + 1) % 65536 else s.lastIdx
  if s.bioCount ≤ lastIdx then none
  else
    match if needNew then none else bio with
    | none => newBio kern s a lastIdx
    | some (i, biot) =>
      match biotAddPage kern biot a.page a.size with
      | some biot => some { s with bioList := s.bioList.set i (some biot) }
      | none => newBio kern s a ((lastIdx + 1) % 65536)

/-- The pages are mapped one behind the other. -/
def sendBiot (biot : Biot) : Transfer :=
  ⟨biot.bint, biot.bStart, (List.range biot.dxferLen).map fun k => (biot.pages[k / 4096]?, k % 4096)⟩

/-- The transfers behind `start` that share its bounce buffer -/
def compGroup (start prev : Biot) (dxferLen : Nat) : List Biot → List Biot
  | [] => []
  | biot :: rest =>
    if biot.bint ≠ prev.bint ∨ 4096 ≤ biot.dxferLen ∨ biot.pages.length ≠ 1 ∨
        prev.bStart + UInt64.ofNat (prev.dxferLen >>> prev.bint.sectorShift) ≠ biot.bStart ∨
        kern.maxphys < dxferLen + biot.dxferLen + start.dxferLen then []
    else biot :: compGroup start biot (dxferLen + biot.dxferLen) rest

/-- What a bounce buffer is filled from, and what `tcache_read_comp` copies it to -/
def compMem (biot : Biot) : List (Option Nat × Nat) :=
  (List.range biot.dxferLen).map fun i => (biot.pages[0]?, i)

inductive Op where
  | inc
  | dec
  | send (transfer : Transfer)

def tcacheEntryRw : List Biot → List Op
  | [] => []
  | bio :: rest =>
    let group := if bio.dxferLen < 4096 then compGroup kern bio bio 0 rest else []
    if (group.map Biot.dxferLen).sum = 0 then .send (sendBiot bio) :: tcacheEntryRw rest
    else
      .inc :: (List.replicate (group.length + 1) .dec ++
        .send ⟨bio.bint, bio.bStart, (bio :: group).flatMap compMem⟩ :: tcacheEntryRw (rest.drop group.length))
termination_by slots => slots.length

def Op.transfer : Op → List Transfer
  | .send transfer => [transfer]
  | _ => []

/-- The slots below the count that `__tcache_entry_rw` reads first -/
def Tcache.biots (s : Tcache) : List Biot := (s.bioList.take s.bioRemain).filterMap id

/-- The byte of the disk is the one that `bio_offset` counts from. -/
def moves (bint : Bint) (bStart : UInt64) (mem : List (Option Nat × Nat)) : List Move :=
  mem.mapIdx fun k byte => ⟨(bint, bStart * UInt64.ofNat (2 ^ bint.sectorShift) + UInt64.ofNat k), byte⟩

def Transfer.moves (t : Transfer) : List Move := BlockIo.moves t.bint t.bStart t.mem

def Add.moves (a : Add) : List Move :=
  BlockIo.moves a.bint a.bStart ((List.range a.size).map (some a.page, ·))

def Tcache.moved (s : Tcache) : List Move :=
  ((tcacheEntryRw kern s.biots).flatMap Op.transfer).flatMap Transfer.moves

def store {K V : Type} [DecidableEq K] (key : Move → K) (val : Move → V) : (K → V) → List Move → K → V :=
  List.foldl fun f m => Function.update f (key m) (val m)

/-- In whatever order the bytes are moved, one gets the value wanted there, where the wanted moves agree on it. -/
def Stores {K V : Type} [DecidableEq K] (key : Move → K) (val : Move → V) (moved wanted : List Move) : Prop :=
  ∀ {f order m}, order.Perm moved → m ∈ wanted → (∀ m' ∈ wanted, key m' = key m → val m' = val m) →
    store key val f order (key m) = val m

structure Issue where
  rest : List Op
  remain : Nat
  flying : List Transfer

inductive Action where
  | next
  | endBio (i : Nat)

def exec (x : Issue) : Action → Option Issue
  | .next =>
    match x.rest with
    | [] => none
    | .inc :: rest => some { x with rest, remain := x.remain + 1 }
    | .dec :: rest => some { x with rest, remain := x.remain - 1 }
    | .send t :: rest => some { x with rest, flying := t :: x.flying }
  | .endBio i =>
    if i < x.flying.length then some { x with remain := x.remain - 1, flying := x.flying.eraseIdx i } else none

def Tcache.issued (s : Tcache) : System Issue Action where
  init x := x = ⟨tcacheEntryRw kern s.biots, s.bioRemain, []⟩
  step x action y := exec x action = some y

structure Add.Ok (a : Add) : Prop where
  pos : 0 < a.size
  le : a.size ≤ 4096
  dvd : 2 ^ a.bint.sectorShift ∣ a.size

structure Exact (n : Nat) (s : Tcache) (adds : List Add) : Prop where
  slots : ∀ i, (s.slot i).isSome ↔ i < s.bioRemain
  bounds : s.bioRemain ≤ n ∧ s.bioList.length = n
  once : (s.moved kern).Perm (adds.flatMap Add.moves)
  read : ∀ {V : Type} (disk : Bint × UInt64 → V), Stores Move.mem (disk ·.disk) (s.moved kern) (adds.flatMap Add.moves)
  write : ∀ {V : Type} (mem : Option Nat × Nat → V), Stores Move.disk (mem ·.mem) (s.moved kern) (adds.flatMap Add.moves)
  ended : ∀ {x}, (s.issued kern).Reachable x → (x.remain = 0 ↔ x.rest = [] ∧ x.flying = [])

end QuadStor.BlockIo
