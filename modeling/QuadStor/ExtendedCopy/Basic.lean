import QuadStor.Token.Basic

/-!
# EXTENDED COPY

A segment is copied by reference, if source, destination and length are whole pages, and otherwise by reading the
source and moving the data within the pages.
-/

namespace QuadStor.ExtendedCopy

open Lib Command Token
open Read (zeroPage)

def segmentLengthMax : Nat := 8 * 1024 * 1024

/-- `segment_descriptor_common` with its `segment_descriptor_b2b` -/
structure Segment where
  typeCode : Nat
  srcTargetIndex : Nat
  destTargetIndex : Nat
  numBlocks : Nat
  srcLba : Nat
  destLba : Nat
  numBlocks_lt : numBlocks < 2 ^ 16

variable {disks : Nat → Settings}

/-- Source and destination. `targets` has the disk that each target descriptor names, if there is one. -/
def extendedCopyGetTdisks (disks : Nat → Settings) (targets : List (Option Nat)) (seg : Segment) : Option (Nat × Nat) :=
  match targets[seg.srcTargetIndex]?, targets[seg.destTargetIndex]? with
  | some (some src), some (some dest) =>
    if (disks src).legacy = (disks dest).legacy then some (src, dest) else none
  | _, _ => none

def readInt (s : State disks) (src lba transferLength : Nat) : List Pgdata :=
  (List.range (transferLengthToPglistCnt (disks src).lbaShift (transferLength + (disks src).lbaDiff lba))).map fun i =>
    rodPage s.pool (s.pool.name (.page src ((disks src).lbaReal lba + i)))

inductive Plan where
  | check
  | stop
  | write (pages : List Pgdata)

/-- A segment of `extended_copy_run`, to the call of `__tdisk_cmd_write`; `read` of `io` stands for all of
`__tdisk_cmd_read_int`. -/
def plan (io : CopyIo) (s : State disks) (src dest : Nat) (seg : Segment) : Plan :=
  let g := disks src
  let size := u32 (seg.numBlocks * 2 ^ g.lbaShift)
  if segmentLengthMax < size then .check
  else if (s.volume src).reachedEom seg.srcLba seg.numBlocks then .check
  else if !isUnalignedExtendedCopy g.legacy seg.srcLba seg.destLba size then
    if io.ref.ok then .write (s.refPages io src dest seg.srcLba seg.numBlocks) else .check
  else if !io.read then .check
  else
    let pages := readInt s src seg.srcLba seg.numBlocks
    let pgOffset := g.lbaDiff seg.srcLba * 2 ^ g.lbaShift
    if pgOffset = 0 then .write (pages.map (pglistCalcHash (disks dest).dedupe))
    else if io.remap then
      .write ((remapPglistForWrite io pgOffset size pages).map (pglistCalcHash (disks dest).dedupe))
    else .stop

inductive Outcome where
  | next
  | good
  | check
  deriving DecidableEq, Repr

inductive CopySegment (io : CopyIo) (s : State disks) (targets : List (Option Nat)) (seg : Segment) :
    State disks → Outcome → Prop where
  | other : seg.typeCode ≠ 2 → CopySegment io s targets seg s .next
  | unreachable : seg.typeCode = 2 → extendedCopyGetTdisks disks targets seg = none →
      CopySegment io s targets seg s .check
  | empty {src dest : Nat} : seg.typeCode = 2 → extendedCopyGetTdisks disks targets seg = some (src, dest) →
      seg.numBlocks = 0 → CopySegment io s targets seg s .next
  | check {src dest : Nat} : seg.typeCode = 2 → extendedCopyGetTdisks disks targets seg = some (src, dest) →
      seg.numBlocks ≠ 0 → plan io s src dest seg = .check → CopySegment io s targets seg s .check
  | stop {src dest : Nat} : seg.typeCode = 2 → extendedCopyGetTdisks disks targets seg = some (src, dest) →
      seg.numBlocks ≠ 0 → plan io s src dest seg = .stop → CopySegment io s targets seg s .good
  | write {src dest : Nat} {pages : List Pgdata} {s' : State disks} {ok : Bool} :
      seg.typeCode = 2 → extendedCopyGetTdisks disks targets seg = some (src, dest) → seg.numBlocks ≠ 0 →
      plan io s src dest seg = .write pages →
      s.TdiskCmdWrite io.write dest seg.destLba seg.numBlocks pages s' ok →
      CopySegment io s targets seg s' (if ok then .next else .check)

/-- `extended_copy_run`, with what each segment meets: what it leaves, and whether the status is GOOD -/
inductive ExtendedCopyRun (targets : List (Option Nat)) :
    State disks → List (CopyIo × Segment) → State disks → Bool → Prop where
  | nil {s : State disks} : ExtendedCopyRun targets s [] s true
  | next {s s₁ s₂ : State disks} {io : CopyIo} {seg : Segment} {rest : List (CopyIo × Segment)} {good : Bool} :
      CopySegment io s targets seg s₁ .next → ExtendedCopyRun targets s₁ rest s₂ good →
      ExtendedCopyRun targets s ((io, seg) :: rest) s₂ good
  | good {s s₁ : State disks} {io : CopyIo} {seg : Segment} {rest : List (CopyIo × Segment)} :
      CopySegment io s targets seg s₁ .good → ExtendedCopyRun targets s ((io, seg) :: rest) s₁ true
  | check {s s₁ : State disks} {io : CopyIo} {seg : Segment} {rest : List (CopyIo × Segment)} :
      CopySegment io s targets seg s₁ .check → ExtendedCopyRun targets s ((io, seg) :: rest) s₁ false

inductive Action where
  | token (a : Token.Action)
  | extendedCopy (targets : List (Option Nat)) (segments : List (CopyIo × Segment))

def Step (s : State disks) (a : Action) (s' : State disks) : Prop :=
  match a with
  | .token a => s.Step a s'
  | .extendedCopy targets segments => ∃ good, ExtendedCopyRun targets s segments s' good

def system (disks : Nat → Settings) : System (State disks) Action where
  init := (Token.system disks).init
  step := Step

structure Exact (s : State disks) (src dest : Nat) (seg : Segment) (s' : State disks) : Prop where
  range : ∀ j, j < seg.numBlocks → (s'.volume dest).block (seg.destLba + j) = (s.volume src).block (seg.srcLba + j)
  others : ∀ disk b, disk ≠ dest ∨ b < seg.destLba ∨ seg.destLba + seg.numBlocks ≤ b →
    (s'.volume disk).block b = (s.volume disk).block b

def Aligned (disks : Nat → Settings) (src : Nat) (seg : Segment) : Prop :=
  (disks src).legacy = true → seg.srcLba % 8 = 0 ∧ seg.numBlocks % 8 = 0 ∧ seg.destLba % 8 = 0

def Unmoved (disks : Nat → Settings) (io : CopyIo) (src : Nat) (seg : Segment) : Prop :=
  ¬ Aligned disks src seg ∧ (disks src).lbaDiff seg.srcLba ≠ 0 ∧ io.remap = false

section

variable (io : CopyIo) (s : State disks) (src dest : Nat) (seg : Segment)

def target : Volume :=
  (s.volume dest).put (seg.destLba * 2 ^ (disks src).lbaShift) ((s.volume src).bytes
    (seg.srcLba * 2 ^ (disks src).lbaShift) (seg.numBlocks * 2 ^ (disks src).lbaShift))

/-- Page `n` of the destination is written as a zero page: the source does not map it, or its data has been looked at.
-/
def ZeroPage (n : Nat) : Prop :=
  Aligned disks src seg ∧
      s.pool.name (.page src ((disks src).lbaReal seg.srcLba + (n - (disks src).lbaReal seg.destLba))) = none ∨
    (disks dest).dedupe = true ∧ ¬ (Aligned disks src seg ∧ io.ref.taken (n - (disks src).lbaReal seg.destLba) = true) ∧
      (target s src dest seg).page n = zeroPage

/-- What does not reach the destination is there already: the whole range, if the data could not be moved, and otherwise
the zero pages that are skipped while a table is being read. -/
def Fits : Prop :=
  ∀ j, j < seg.numBlocks → Unmoved disks io src seg ∨ SkippedAt io.write (ZeroPage io s src dest seg)
      ((disks src).lbaReal seg.destLba) ((disks src).lbaReal (seg.destLba + j)) →
    (s.volume dest).block (seg.destLba + j) = (s.volume src).block (seg.srcLba + j)

end

end QuadStor.ExtendedCopy
