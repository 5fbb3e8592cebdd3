import Mathlib.Algebra.Order.Ring.Nat

/-!
# Writes sent to another node

The message has a `pgdata_spec` for each page. In a write of whole pages zero pages are left out, and `csum` is the
number of the page; otherwise it is the checksum of the page, and the pages follow the message.
-/

namespace QuadStor.NodeWrite

abbrev Page := List UInt8

structure Pgdata where
  flags : BitVec 32 := 0
  hash : BitVec 256 := 0
  page : Page := []
  completed : Bool := false

def ddblockZeroBlock : Nat := 0

def pgdataHashCheckDone : Nat := 12

def Pgdata.setBit (pgdata : Pgdata) (bit : Nat) : Pgdata :=
  { pgdata with flags := pgdata.flags ||| BitVec.twoPow 32 bit }

def Pgdata.zero (pgdata : Pgdata) : Bool := pgdata.flags.getLsbD ddblockZeroBlock

def Pgdata.markComplete (pgdata : Pgdata) : Pgdata :=
  { pgdata.setBit pgdataHashCheckDone with completed := true }

structure PgdataSpec where
  hash : BitVec 256
  flags : BitVec 16
  csum : BitVec 16

inductive Sender where
  | client
  | mirror

/-- The client sends all flags, the mirror those of `NODE_CLIENT_WRITE_MASK`. -/
def Sender.mask : Sender → BitVec 32
  | .client => BitVec.allOnes 32
  | .mirror => 3

def leftOut (unaligned : Bool) (pgdata : Pgdata) : Bool := !unaligned && pgdata.zero

section Write

variable (sender : Sender) (pgdataCsum : Page → BitVec 16) (unaligned : Bool)

def specOf (i : Nat) (pgdata : Pgdata) : PgdataSpec where
  hash := pgdata.hash
  flags := (pgdata.flags &&& sender.mask).setWidth 16
  csum := if unaligned then pgdataCsum pgdata.page else BitVec.ofNat 16 i

def writeSetup : Nat → List Pgdata → List PgdataSpec
  | _, [] => []
  | i, pgdata :: rest =>
    if leftOut unaligned pgdata then writeSetup (i + 1) rest
    else specOf sender pgdataCsum unaligned i pgdata :: writeSetup (i + 1) rest

/-- What is at `pgdata_spec_ptr`, in the message and behind it, and the pages that can be read from the socket -/
structure NodeMsg where
  dxferLen : BitVec 32
  pglistCnt : BitVec 16
  spec : Nat → PgdataSpec
  page : Nat → Option Page

/-- `sizeof(struct scsi_cmd_spec)` is 64 and `sizeof(struct pgdata_spec)` 36; `behind` is what comes after them. -/
def sentMsg (behind : Nat → PgdataSpec) (pglist : List Pgdata) : NodeMsg where
  dxferLen := BitVec.ofNat 32 (64 + 36 * (writeSetup sender pgdataCsum unaligned 0 pglist).length)
  pglistCnt := BitVec.ofNat 16 pglist.length
  spec k := (writeSetup sender pgdataCsum unaligned 0 pglist)[k]?.getD (behind k)
  page k := pglist[k]?.map Pgdata.page

end Write

/-- The loop under way. `touched` has the pages of `pglist` that were accessed. -/
structure Fill where
  i : Nat := 0
  todo : Int
  srcIdx : Nat := 0
  pglist : Nat → Pgdata := fun _ => {}
  touched : List Nat := []

def Fill.update (f : Fill) (change : Pgdata → Pgdata) : Fill :=
  { f with pglist := Function.update f.pglist f.i (change (f.pglist f.i)), touched := f.i :: f.touched }

/-- `mark_pgdata_zero_block` from `i` on, and `i` is set to the end. -/
def Fill.markPgdataZeroBlock (f : Fill) (stop : Nat) : Fill :=
  { f with
    i := stop
    pglist := fun k =>
      if f.i ≤ k ∧ k < stop then ((f.pglist k).setBit ddblockZeroBlock).markComplete else f.pglist k
    touched := List.range' f.i (stop - f.i) ++ f.touched }

def Fill.put (f : Fill) (spec : PgdataSpec) : Fill :=
  let f := f.update fun pgdata => { pgdata with flags := spec.flags.signExtend 32, hash := spec.hash }
  { f with i := f.i + 1, todo := f.todo - 36, srcIdx := f.srcIdx + 1 }

section Fill

variable (pgdataCsum : Page → BitVec 16) (unaligned : Bool) (alloc : Nat → Bool) (msg : NodeMsg)

/-- The loop body; `none` is a return with an error, and `alloc` says for which pages `pgdata_alloc_page` succeeds. -/
def fillStep (f : Fill) : Option Fill :=
  let spec := msg.spec f.srcIdx
  let f := f.update Pgdata.markComplete
  if unaligned then
    if alloc f.i then
      match msg.page f.srcIdx with
      | some page =>
        if pgdataCsum page = spec.csum then some ((f.update fun pgdata => { pgdata with page }).put spec) else none
      | none => none
    else none
  else if spec.csum.toNat ≠ f.i then
    if spec.csum > msg.pglistCnt then none
    else some (((f.markPgdataZeroBlock spec.csum.toNat).update Pgdata.markComplete).put spec)
  else some (f.put spec)

inductive Result where
  | rejected
  | accepted (f : Fill)
  /-- `fuel` rounds were not enough. -/
  | running (f : Fill)

def fillLoop (fuel : Nat) (f : Fill) : Result :=
  if f.i < msg.pglistCnt.toNat ∧ f.todo ≠ 0 then
    match fuel with
    | 0 => .running f
    | fuel + 1 =>
      match fillStep pgdataCsum unaligned alloc msg f with
      | none => .rejected
      | some f => fillLoop fuel f
  else if f.todo ≠ 0 then .rejected
  else .accepted (f.markPgdataZeroBlock msg.pglistCnt.toNat)

def fillPglist (fuel : Nat) : Result :=
  fillLoop pgdataCsum unaligned alloc msg fuel { todo := (msg.dxferLen - 64).toInt }

end Fill

/-- The receiver's list has as many pages; those that were left out are zero, and the others have their hashes. -/
def Arrives (sender : Sender) (pgdataCsum : Page → BitVec 16) (unaligned : Bool) (behind : Nat → PgdataSpec)
    (pglist : List Pgdata) : Prop :=
  let msg := sentMsg sender pgdataCsum unaligned behind pglist
  msg.pglistCnt.toNat = pglist.length ∧
    ∃ f, fillPglist pgdataCsum unaligned (fun _ => true) msg pglist.length = .accepted f ∧
      ∀ (k : Nat) (pgdata : Pgdata), pglist[k]? = some pgdata → (f.pglist k).zero = leftOut unaligned pgdata ∧
          (leftOut unaligned pgdata = false → (f.pglist k).hash = pgdata.hash)

def Result.Within (cnt : Nat) : Result → Prop
  | .rejected => True
  | .accepted f | .running f => ∀ k ∈ f.touched, k < cnt

/-- A message of whole pages whose last spec is for the page behind the list, and no spec before it -/
def Overruns (unaligned : Bool) (msg : NodeMsg) : Prop :=
  unaligned = false ∧ 0 < msg.pglistCnt.toNat ∧ ∃ n : Nat, (msg.dxferLen - 64).toInt = 36 * (n + 1) ∧
    (msg.spec n).csum = msg.pglistCnt ∧ ∀ j < n, (msg.spec j).csum.toNat + 1 < msg.pglistCnt.toNat

end QuadStor.NodeWrite
