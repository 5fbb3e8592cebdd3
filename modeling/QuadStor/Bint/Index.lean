import QuadStor.Lib.MachineInt

/-!
# Allocation indexes

A `struct bintindex` has 640 bitmap entries of 51 bits: a reference count in the low 13 bits and, above it, the block
number of the hash node the run was entered in.
-/

namespace QuadStor.Bint

open Lib Function

def bmapEntries : Nat := 640

def maxRefs : Nat := 2 ^ 13 - 1

def refsOf (val : Nat) : Nat := val % 2 ^ 13

def nodeOf (val : Nat) : Nat := val / 2 ^ 13

def bmapVal (node refs : Nat) : Nat := node * 2 ^ 13 + refs

structure Index where
  bmap : Nat → Nat
  freeBlocks : Nat
  checkIdx : Nat
  writeId : Nat
  loadDone : Bool
  dataError : Bool

def Index.set (x : Index) (i val : Nat) : Index := { x with bmap := update x.bmap i val }

def loadScan (bmap : Nat → Nat) : (n i freeBlocks checkIdx : Nat) → Nat × Nat
  | 0, _, freeBlocks, checkIdx => (freeBlocks, checkIdx)
  | n + 1, i, freeBlocks, checkIdx =>
    if bmap i ≠ 0 then loadScan bmap n (i + 1) freeBlocks checkIdx
    else loadScan bmap n (i + 1) (freeBlocks + 1) (if i < checkIdx then i else checkIdx)

def indexCheckLoad (x : Index) : Index :=
  if x.loadDone then x
  else if x.dataError then x
  else
    let (freeBlocks, checkIdx) := loadScan x.bmap bmapEntries 0 0 bmapEntries
    { x with freeBlocks, checkIdx, loadDone := true }

def markLoop (bmap : Nat → Nat) : (n i : Nat) → Nat → Nat
  | 0, _ => bmap
  | n + 1, i => markLoop (update bmap i 1) n (i + 1)

def indexMarkBlocks (x : Index) (start count : Nat) : Index :=
  { x with bmap := markLoop x.bmap count start, freeBlocks := u16 (x.freeBlocks + 2 ^ 16 - count) }

def refLoop (bmap : Nat → Nat) : (n i : Nat) → (Nat → Nat) × Bool
  | 0, _ => (bmap, true)
  | n + 1, i =>
    if bmap i = maxRefs then (bmap, false)
    else refLoop (update bmap i (bmap i + 1)) n (i + 1)

/-- The whole entry is counted up, so it is only used on a run that was marked in the same call. -/
def indexRefBlocks (x : Index) (start count : Nat) : Index × Bool :=
  let (bmap, ok) := refLoop x.bmap count start
  ({ x with bmap }, ok)

/-- The search for `count` zero entries in a row among the `n` entries from `i` on, `done` of them found just before `i`
-/
def allocScan (bmap : Nat → Nat) (count : Nat) : (n i done : Nat) → Option Nat
  | 0, _, _ => none
  | n + 1, i, done =>
    if bmap i ≠ 0 then allocScan bmap count n (i + 1) 0
    else if done + 1 = count then some (i - done)
    else allocScan bmap count n (i + 1) (done + 1)

/-- The part `bint_alloc_block` and `bint_alloc_for_pgdata` share: search from `check_idx` on and mark -/
def allocRun (x : Index) (count : Nat) : Index × Option Nat :=
  match allocScan x.bmap count (bmapEntries - x.checkIdx) x.checkIdx 0 with
  | none => ({ x with checkIdx := bmapEntries }, none)
  | some start => ({ indexMarkBlocks x start count with checkIdx := start + count }, some start)

def bintAllocBlock (metaShift : Nat) (x : Index) (size : Nat) : Index × Option Nat :=
  allocRun x (size / 2 ^ metaShift)

def lbaSize : Nat := 4096

/-- What the allocator reads of a `struct pgdata`, with the logical page as its name; `hash` is the SHA-256 digest. -/
structure Pgdata where
  lba : Nat
  hash : Nat
  dedupeDisabled : Bool
  writeSize : Nat
  deriving DecidableEq, Repr

def hashValid (hash : Nat) : Bool := hash ≠ 0

/-- A page that got a block: the first entry, the size, and whether it shares the block of a page before it
(`DDBLOCK_ENTRY_FOUND_DUPLICATE`) -/
structure Placed where
  pgdata : Pgdata
  start : Nat
  size : Nat
  duplicate : Bool
  deriving DecidableEq, Repr

def scanDuplicatesLoop (pgdata : Pgdata) (start count size : Nat) (x : Index) :
    List Pgdata → Index × List Placed × List Pgdata
  | [] => (x, [], [])
  | iter :: rest =>
    if iter.dedupeDisabled || pgdata.hash ≠ iter.hash then
      let (x', placed, left) := scanDuplicatesLoop pgdata start count size x rest
      (x', placed, iter :: left)
    else
      let (xr, ok) := indexRefBlocks x start count
      let (x', placed, left) := scanDuplicatesLoop pgdata start count size xr rest
      if ok then (x', ⟨iter, start, size, true⟩ :: placed, left) else (x', placed, iter :: left)

def bintPgdataScanDuplicates (enableVerify : Bool) (pgdata : Pgdata) (start count size : Nat)
    (x : Index) (allocList : List Pgdata) : Index × List Placed × List Pgdata :=
  if pgdata.dedupeDisabled || enableVerify then (x, [], allocList)
  else if !hashValid pgdata.hash then (x, [], allocList)
  else scanDuplicatesLoop pgdata start count size x allocList

/-- A compressed page smaller than one bitmap entry is stored uncompressed. -/
def writeSizeFor (metaShift : Nat) (pgdata : Pgdata) : Nat :=
  if pgdata.writeSize < 2 ^ metaShift then lbaSize else pgdata.writeSize

/-- The outer loop of `bint_alloc_for_pgdata`; every round takes a page off the list or is the last. -/
def allocForPgdataLoop (metaShift : Nat) (enableVerify : Bool) :
    (fuel : Nat) → Index → List Pgdata → Index × List Placed × List Pgdata
  | 0, x, allocList => (x, [], allocList)
  | _, x, [] => (x, [], [])
  | fuel + 1, x, pgdata :: rest =>
    let size := writeSizeFor metaShift pgdata
    let count := size / 2 ^ metaShift
    match allocRun x count with
    | (x', none) => (x', [], pgdata :: rest)
    | (x', some start) =>
      let (xd, dups, left) := bintPgdataScanDuplicates enableVerify pgdata start count size x' rest
      let placed := ⟨pgdata, start, size, false⟩ :: dups
      if xd.checkIdx = bmapEntries then (xd, placed, left)
      else
        let (xl, more, left') := allocForPgdataLoop metaShift enableVerify fuel xd left
        (xl, placed ++ more, left')

def bintAllocForPgdata (metaShift : Nat) (enableVerify : Bool) (x : Index)
    (allocList : List Pgdata) : Index × List Placed × List Pgdata :=
  allocForPgdataLoop metaShift enableVerify allocList.length x allocList

inductive RefError where
  | invalidNodeBlock
  | invalidRefs
  | maxRefs
  deriving DecidableEq, Repr

def refBlockLoop (oldRefs : Nat) (bmap : Nat → Nat) : (n i : Nat) → (Nat → Nat) × Option (RefError × Nat)
  | 0, _ => (bmap, none)
  | n + 1, i =>
    let refs := refsOf (bmap i)
    if refs = 0 then (bmap, some (.invalidRefs, i))
    else if refs ≠ oldRefs then (bmap, some (.invalidRefs, i))
    else if refs = maxRefs then (bmap, some (.maxRefs, i))
    else refBlockLoop oldRefs (update bmap i (bmapVal (nodeOf (bmap i)) (refs + 1))) n (i + 1)

def unrefLoop (bmap : Nat → Nat) : (n j : Nat) → Nat → Nat
  | 0, _ => bmap
  | n + 1, j =>
    unrefLoop (update bmap j (bmapVal (nodeOf (bmap j)) (refsOf (bmap j) - 1))) n (j + 1)

/-- `nodeBlock` is 0 when the caller does not come from a hash node. -/
def bintRefBlock (x : Index) (entry count nodeBlock : Nat) : Index × Option RefError :=
  if 0 < count ∧ nodeBlock ≠ 0 ∧ nodeOf (x.bmap entry) ≠ nodeBlock then (x, some .invalidNodeBlock)
  else
    match refBlockLoop (refsOf (x.bmap entry)) x.bmap count entry with
    | (bmap, none) => ({ x with bmap }, none)
    | (bmap, some (e, i)) => ({ x with bmap := unrefLoop bmap (i - entry) entry }, some e)

def bdevSetNodeBlock (x : Index) (entry nodeBlock : Nat) : Option Index :=
  if x.bmap entry = 0 then none
  else if nodeOf (x.bmap entry) ≠ 0 then none
  else some (x.set entry (bmapVal nodeBlock (refsOf (x.bmap entry))))

def freeLoop (oldRefs : Nat) : (n i : Nat) → Index → Nat → Index × Nat × Bool
  | 0, _, x, given => (x, given, true)
  | n + 1, i, x, given =>
    let refs := refsOf (x.bmap i)
    if refs = 0 ∨ refs ≠ oldRefs then (x, given, false)
    else if refs = 1 then
      freeLoop oldRefs n (i + 1)
        { x.set i 0 with freeBlocks := u16 (x.freeBlocks + 1) } (given + 1)
    else freeLoop oldRefs n (i + 1) (x.set i (bmapVal (nodeOf (x.bmap i)) (refs - 1))) given

/-- The entries whose bytes `bint_free_block` gave back, and `*freed`, which an early return leaves unset -/
structure FreeResult where
  index : Index
  given : Nat
  freed : Bool

def bintFreeBlock (x : Index) (entry count : Nat) : FreeResult :=
  let (x', given, finished) := freeLoop (refsOf (x.bmap entry)) count entry x 0
  ⟨x', given, finished && decide (0 < given)⟩

/-- An index without a block in use is searched from its start again. -/
def bintUnmapBlocks (unmapSupported : Bool) (x : Index) : Index :=
  if !unmapSupported || x.freeBlocks ≠ bmapEntries || x.dataError then x
  else if (List.range bmapEntries).all fun i => x.bmap i = 0 then { x with checkIdx := 0 }
  else x

def replayLoop (isMeta : Bool) : (n i : Nat) → Index → Nat → Index × Nat
  | 0, _, x, taken => (x, taken)
  | n + 1, i, x, taken =>
    let refs := refsOf (x.bmap i)
    if refs = maxRefs ∨ (refs ≠ 0 ∧ isMeta = true) then replayLoop isMeta n (i + 1) x taken
    else replayLoop isMeta n (i + 1) (x.set i (refs + 1)) (if refs = 0 then taken + 1 else taken)

/-- The node block of an entry it counts up is dropped. -/
def bintLogReplay (x : Index) (entry count : Nat) (isMeta : Bool) : Index × Nat :=
  let (x', taken) := replayLoop isMeta count entry x 0
  ({ x' with loadDone := false }, taken)

def Index.new : Index where
  bmap _ := 0
  freeBlocks := bmapEntries
  checkIdx := 0
  writeId := 1
  loadDone := true
  dataError := false

def bintIndexMarkReserved (x : Index) (reservedBlocks : Nat) : Index × Nat :=
  let todo := min reservedBlocks bmapEntries
  ({ x with bmap := markLoop x.bmap todo 0, freeBlocks := u16 (x.freeBlocks + 2 ^ 16 - todo) }, reservedBlocks - todo)

end QuadStor.Bint
