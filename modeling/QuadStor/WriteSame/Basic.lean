import QuadStor.Command.Lemmas.Write

/-!
# WRITE SAME

`__tdisk_cmd_write_same` writes its one block in chunks of equal pages. With LBDATA or PBDATA the address is stamped
into the first bytes of the page.
-/

namespace QuadStor.WriteSame

open Lib Command
open Read (Bytes zeroPage)

structure Request where
  lba : Nat
  numBlocks : Nat
  lbdata : Bool
  pbdata : Bool
  unmap : Bool
  /-- The page that the block came in; on a disk with blocks of 512 bytes the rest of it is anything. -/
  page : Bytes
  numBlocks_lt : numBlocks < 2 ^ 32
  length_page : page.length = 4096

inductive Outcome where
  | good (v : Volume)
  | check (v : Volume)
  /-- a chunk of no blocks, again and again -/
  | hangs

def Request.stamps (r : Request) : Bool := r.pbdata || r.lbdata

def Request.width (r : Request) : Nat := if r.pbdata then 8 else 4

theorem Request.width_le (r : Request) : r.width ≤ 8 := by
  rw [Request.width]
  cases r.pbdata <;> simp

theorem Request.length_stamp (r : Request) (lba : Nat) :
    (toBytes r.width lba ++ r.page.drop r.width).length = 4096 := by
  have := r.width_le
  rw [List.length_append, length_toBytes, List.length_drop, r.length_page]
  omega

def Request.stamp (r : Request) (lba : Nat) : Pgdata :=
  ⟨false, toBytes r.width lba ++ r.page.drop r.width, r.length_stamp lba⟩

def Request.pgtmp (v : Volume) (r : Request) : Pgdata :=
  let p : Pgdata := if v.legacy then ⟨false, zeroPage, length_zeroPage⟩ else ⟨false, r.page, r.length_page⟩
  { p.hashCompute with zero := p.hashCompute.zero || r.unmap }

def Request.pgdata (v : Volume) (r : Request) (lba : Nat) : Pgdata :=
  if r.stamps then (r.stamp lba).hashCompute else r.pgtmp v

def writeSameLoop (io : Nat → PglistIo) (r : Request) (k : Nat) (v : Volume) (lba numBlocks : Nat) : Outcome :=
  if numBlocks = 0 then .good v
  else
    let todo := min (u32 numBlocks) (unmapLbaCount v)
    if todo = 0 then .hangs
    else if !(io k).alloc then .check v
    else
      match v.tdiskCmdWrite (io k).write lba todo
          (ctioReallocPglist (r.pgdata v lba) (transferLengthToPglistCnt v.lbaShift todo)) with
      | (v, false) => .check v
      | (v, true) => writeSameLoop io r (k + 1) v (lba + todo) (numBlocks - todo)
termination_by numBlocks

/-- The number of blocks; 0 stands for all up to the end of the disk. -/
def Request.count (v : Volume) (r : Request) : Nat := if r.numBlocks = 0 then v.endLba - r.lba else r.numBlocks

/-- `num_blocks & ~0x7U` cuts `num_blocks` to 32 bits. -/
def Request.wholePages (v : Volume) (r : Request) : Nat :=
  u32 (u64 (r.count v + 2 ^ 64 - (alignSize r.lba - r.lba))) / 8 * 8

def tdiskCmdWriteSame (io : Nat → PglistIo) (v : Volume) (r : Request) : Outcome :=
  if v.reachedEom r.lba r.numBlocks then .check v
  else if r.pbdata && r.lbdata then .check v
  else if r.count v = 0 then .good v
  else if r.stamps && v.legacy then .check v
  else if v.legacy then
    if r.page.take 512 ≠ List.replicate 512 0 then .check v
    else writeSameLoop io r 0 v (alignSize r.lba) (r.wholePages v)
  else writeSameLoop io r 0 v r.lba (r.count v)

def Request.wanted (v : Volume) (r : Request) (b : Nat) : Bytes :=
  let block := r.page.take (2 ^ v.lbaShift)
  if r.stamps then toBytes r.width b ++ block.drop r.width else block

structure Exact (v v' : Volume) (r : Request) : Prop where
  written : ∀ b, r.lba ≤ b → b < r.lba + r.count v → v'.block b = r.wanted v b
  others : ∀ b, b < r.lba ∨ r.lba + r.count v ≤ b → v'.block b = v.block b

def Skips (io : Nat → PglistIo) (v : Volume) (r : Request) (lba i : Nat) : Prop :=
  (io (i / 512)).write.skipped (v.lbaReal lba + i / 512 * 512) (i % 512)
    (r.pgdata v (lba + i / 512 * unmapLbaCount v)) = true

structure PagesFit (io : Nat → PglistIo) (v : Volume) (r : Request) : Prop where
  /-- only the first block of a chunk has its own stamp, and UNMAP writes zeroes -/
  written : ∀ i, i < r.count v → ¬ Skips io v r r.lba i →
    if r.stamps then i % 512 = 0 else r.unmap = true → r.page = zeroPage
  skipped : ∀ i, i < r.count v → Skips io v r r.lba i → v.block (r.lba + i) = r.wanted v (r.lba + i)

/-- On a disk with blocks of 512 bytes, where the blocks are zeroes -/
structure SectorsFit (io : Nat → PglistIo) (v : Volume) (r : Request) : Prop where
  /-- the blocks that do not make a whole page stay what they are -/
  ends : ∀ b, r.lba ≤ b → b < r.lba + r.count v →
    b < alignSize r.lba ∨ alignSize r.lba + r.wholePages v ≤ b → v.block b = v.zeroBlock
  skipped : ∀ b, r.lba ≤ b → b < r.lba + r.count v → alignSize r.lba ≤ b → b < alignSize r.lba + r.wholePages v →
    Skips io v r (alignSize r.lba) (b / 8 - alignSize r.lba / 8) → v.block b = v.zeroBlock
  /-- a range that ends before the first page boundary after its start -/
  wraps : r.lba + r.count v < alignSize r.lba → ∀ b, alignSize r.lba ≤ b → b < alignSize r.lba + r.wholePages v →
    ¬ Skips io v r (alignSize r.lba) (b / 8 - alignSize r.lba / 8) → v.block b = v.zeroBlock

def Fits (io : Nat → PglistIo) (v : Volume) (r : Request) : Prop :=
  if v.legacy then SectorsFit io v r else PagesFit io v r

end QuadStor.WriteSame
