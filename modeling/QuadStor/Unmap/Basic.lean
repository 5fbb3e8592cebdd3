import QuadStor.Command.Lemmas.Write

/-!
# UNMAP

`tdisk_cmd_unmap` writes zero pages over every descriptor. On a disk with blocks of 512 bytes it leaves out the
blocks that do not make a whole page.
-/

namespace QuadStor.Unmap

open Lib Command
open Read (Bytes zeroPage)

structure Descriptor where
  lba : Nat
  numBlocks : Nat
  deriving DecidableEq, Repr

def Descriptor.ofBytes (buffer : Bytes) : Descriptor :=
  ⟨Lib.ofBytes (buffer.take 8), Lib.ofBytes ((buffer.drop 8).take 4)⟩

def Descriptor.Covers (d : Descriptor) (b : Nat) : Prop := d.lba ≤ b ∧ b < d.lba + d.numBlocks

/-- `num_blocks & ~0x7U`, of 32 bits -/
def wholePages (numBlocks : Nat) : Nat := numBlocks / 8 * 8

def Descriptor.trim (v : Volume) (d : Descriptor) : Descriptor :=
  if v.legacy then
    ⟨alignSize d.lba, wholePages (u32 (d.numBlocks + 2 ^ 32 - (alignSize d.lba - d.lba)))⟩
  else d

/-- `pglist_cnt` before it is cut to 16 bits -/
def Descriptor.pglistCnt (v : Volume) (d : Descriptor) : Nat :=
  transferLengthToPglistCnt v.lbaShift (d.trim v).numBlocks

def unmapDescriptor (io : PglistIo) (v : Volume) (d : Descriptor) : Volume × Bool :=
  if unmapLbaCount v < d.numBlocks then (v, false)
  else if v.reachedEom d.lba d.numBlocks then (v, false)
  else if d.pglistCnt v = 0 then (v, true)
  else if !io.alloc then (v, false)
  else
    v.tdiskCmdWrite io.write (d.trim v).lba (d.trim v).numBlocks (ctioReallocPglist .unmapped (d.pglistCnt v))

def unmapDescriptors (io : Nat → PglistIo) : Nat → Volume → List Descriptor → Volume × Bool
  | _, v, [] => (v, true)
  | k, v, d :: rest =>
    match unmapDescriptor (io k) v d with
    | (v, false) => (v, false)
    | (v, true) => unmapDescriptors io (k + 1) v rest

def descriptors (buffer : Bytes) (blockDescriptorLength : Nat) : List Descriptor :=
  (List.range (blockDescriptorLength / 16)).map fun i => .ofBytes (buffer.drop (8 + 16 * i))

/-- `parameter_list_length` of the command and the parameter list; `dxfer_len` is its length. -/
structure Request where
  parameterListLength : Nat
  buffer : Bytes

def Request.dataLength (r : Request) : Nat := Lib.ofBytes (r.buffer.take 2)

def Request.blockDescriptorLength (r : Request) : Nat := Lib.ofBytes ((r.buffer.drop 2).take 2)

def Request.descriptors (r : Request) : List Descriptor :=
  if r.parameterListLength ≤ 4 ∨ r.blockDescriptorLength = 0 ∨ r.dataLength + 2 ≠ r.buffer.length ∨
    r.blockDescriptorLength + 8 ≠ r.buffer.length then []
  else Unmap.descriptors r.buffer r.blockDescriptorLength

/-- What it leaves, and whether the status is GOOD -/
def tdiskCmdUnmap (io : Nat → PglistIo) (v : Volume) (r : Request) : Volume × Bool :=
  if r.parameterListLength ≤ 4 then (v, true)
  else if r.blockDescriptorLength = 0 then (v, true)
  else if r.dataLength + 2 ≠ r.buffer.length ∨ r.blockDescriptorLength + 8 ≠ r.buffer.length then (v, false)
  else unmapDescriptors io 0 v (Unmap.descriptors r.buffer r.blockDescriptorLength)

def Descriptor.Valid (v : Volume) (d : Descriptor) : Prop :=
  d.numBlocks ≤ unmapLbaCount v ∧ v.reachedEom d.lba d.numBlocks = false

def Descriptor.Written (io : PglistIo) (v : Volume) (d : Descriptor) : Prop :=
  d.Valid v ∧ d.pglistCnt v ≠ 0 ∧ io.alloc = true ∧ v.reachedEom (d.trim v).lba (d.trim v).numBlocks = false

def Descriptor.start (v : Volume) (d : Descriptor) : Nat := v.lbaReal (d.trim v).lba

def Descriptor.Skips (io : PglistIo) (v : Volume) (d : Descriptor) (n : Nat) : Prop :=
  io.write.skipped (d.start v) (n - d.start v) .unmapped = true

def Descriptor.Clears (io : PglistIo) (v : Volume) (d : Descriptor) (n : Nat) : Prop :=
  d.Written io v ∧ d.start v ≤ n ∧ n < d.start v + u16 (d.pglistCnt v) ∧ ¬ d.Skips io v n

/-- A range that ends before the first page boundary after its start -/
def Descriptor.Wraps (v : Volume) (d : Descriptor) : Prop :=
  v.legacy = true ∧ d.lba + d.numBlocks < alignSize d.lba

def Descriptor.Contains (v : Volume) (d : Descriptor) (n : Nat) : Prop :=
  ∀ b, v.lbaReal b = n → d.Covers b

/-- Nothing is to be written, or the pages are written. -/
def Descriptor.Accepted (io : PglistIo) (v : Volume) (d : Descriptor) : Prop :=
  d.Valid v ∧ d.pglistCnt v = 0 ∨ d.Written io v ∧ io.write.ok = true

def Passes (io : Nat → PglistIo) (v : Volume) (ds : List Descriptor) (i : Nat) : Prop :=
  ∀ j d, j < i → ds[j]? = some d → d.Accepted (io j) v

/-- Only blocks of the ranges change, and a page in a range that was gone through reads as zero. -/
structure Confined (io : Nat → PglistIo) (v v' : Volume) (ds : List Descriptor) : Prop where
  within : ∀ b, v'.block b ≠ v.block b → ∃ d ∈ ds, d.Covers b
  cleared : ∀ i d n, ds[i]? = some d → Passes io v ds (i + 1) → d.Contains v n → v'.page n = zeroPage

/-- Where a range wraps, and where a write skips a page, nothing is lost that should stay and nothing
stays that should go. -/
structure Harmless (io : Nat → PglistIo) (v : Volume) (ds : List Descriptor) : Prop where
  wraps : ∀ i d n, ds[i]? = some d → Passes io v ds i → d.Wraps v → d.Clears (io i) v n →
    ∀ b, v.lbaReal b = n → (∃ e ∈ ds, e.Covers b) ∨ v.block b = v.zeroBlock
  skips : ∀ i d n, ds[i]? = some d → Passes io v ds (i + 1) → d.Contains v n → d.Skips (io i) v n →
    v.page n = zeroPage ∨ ∃ j e, ds[j]? = some e ∧ Passes io v ds j ∧ e.Clears (io j) v n

end QuadStor.Unmap
