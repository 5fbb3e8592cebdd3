import QuadStor.Bint.Index
import QuadStor.Lib.System
import QuadStor.Lib.RefRuns

/-!
# The allocator of one disk

A disk of the pool has its geometry, the allocation indexes that cover its usable size, and the counter of its free
bytes.
-/

namespace QuadStor.Bint

open Lib Function

/-- The properties `bdev_add_new` and `bint_gen_properties` give a disk, with their checks; `usize` is the size without
the tail set aside for a copy of the metadata. -/
structure Config where
  usize : Nat
  sectorShift : Nat
  enableComp : Bool
  ddmaster : Bool
  ddbits : Nat
  sectorShift_ge : 9 ≤ sectorShift
  sectorShift_le : sectorShift ≤ 12
  comp_sectorShift : enableComp = true → sectorShift ≤ 10
  ddbits_ge : 16 ≤ ddbits
  ddbits_le : ddbits ≤ 23
  usize_le : usize / 2 ^ sectorShift ≤ 2 ^ 38

namespace Config

def metaShift (c : Config) : Nat := if c.enableComp then 10 else 12

def maxIndexes (c : Config) : Nat := u32 (c.usize / 2 ^ c.metaShift / bmapEntries)

def maxIndexGroups (c : Config) : Nat :=
  if c.maxIndexes % 2 ^ 15 = 0 then c.maxIndexes / 2 ^ 15 else c.maxIndexes / 2 ^ 15 + 1

/-- Sectors of one 4096-byte metadata block (`BINT_INDEX_META_SIZE`, `INDEX_LOOKUP_MAP_SIZE`). -/
def metaBlocks (c : Config) : Nat :=
  if 4096 % 2 ^ c.sectorShift = 0 then 4096 / 2 ^ c.sectorShift else 4096 / 2 ^ c.sectorShift + 1

/-- Disk metadata, the write-ahead log and one block per virtual disk. -/
def ddtableMetaOffset : Nat := 262144 + 4096 + 64 * 1024 * 1024 + 4096 * 4096

def bintIndexLookupBstart (c : Config) (groupId : Nat) : Nat :=
  ddtableMetaOffset / 2 ^ c.sectorShift + (if c.ddmaster then 2 ^ c.ddbits * 8 / 2 ^ c.sectorShift else 0) +
    u32 (groupId * c.metaBlocks)

/-- `bint->index_b_start` is the lookup start of the group after the last. -/
def bintIndexBstart (c : Config) (indexId : Nat) : Nat :=
  c.bintIndexLookupBstart c.maxIndexGroups + u32 (indexId * c.metaBlocks)

def reserved (c : Config) : Nat := c.bintIndexBstart c.maxIndexes * 2 ^ c.sectorShift

def reservedBlocks (c : Config) : Nat := u32 (c.reserved / 2 ^ c.metaShift)

def blockFromIndex (c : Config) (indexId indexOffset : Nat) : Nat :=
  (indexId * bmapEntries + indexOffset) * 2 ^ c.metaShift / 2 ^ c.sectorShift

end Config

structure Bdevint where
  index : Nat → Index
  free : Int

/-- `bint_initialize_groups` of a new disk, with `n` indexes left from `indexId` on; the first ones have the reserved
blocks marked. -/
def initializeLoop (c : Config) : (n indexId reservedBlocks : Nat) → Bdevint → Bdevint
  | 0, _, _, b => b
  | n + 1, indexId, reservedBlocks, b =>
    let (x, left) := bintIndexMarkReserved Index.new reservedBlocks
    initializeLoop c n (indexId + 1) left
      { index := update b.index indexId x
        free := b.free - ((reservedBlocks - left) * 2 ^ c.metaShift : Nat) }

def Bdevint.new (c : Config) : Bdevint :=
  initializeLoop c c.maxIndexes 0 c.reservedBlocks ⟨fun _ => Index.new, c.usize⟩

inductive Action where
  | allocBlock (indexId size : Nat)
  | allocForPgdata (indexId : Nat) (enableVerify : Bool) (allocList : List Pgdata)
  | refBlock (indexId entry size nodeBlock : Nat)
  | setNodeBlock (indexId entry nodeBlock : Nat)
  | freeBlock (indexId entry size : Nat)
  | logReplay (indexId entry size : Nat) (isMeta : Bool)
  | checkLoad (indexId : Nat)
  /-- the index was found full and is to be looked at again, or was evicted and read back -/
  | clearLoad (indexId : Nat)
  | unmapBlocks (indexId : Nat) (unmapSupported : Bool)

def Action.indexId : Action → Nat
  | .allocBlock id _ => id
  | .allocForPgdata id _ _ => id
  | .refBlock id _ _ _ => id
  | .setNodeBlock id _ _ => id
  | .freeBlock id _ _ => id
  | .logReplay id _ _ _ => id
  | .checkLoad id => id
  | .clearLoad id => id
  | .unmapBlocks id _ => id

/-- The block an operation is given lies in the bitmap (`debug_check((entry + count) > ...)`). -/
def Action.InBitmap (c : Config) : Action → Prop
  | .refBlock _ entry size _ => entry + size / 2 ^ c.metaShift ≤ bmapEntries
  | .setNodeBlock _ entry _ => entry < bmapEntries
  | .freeBlock _ entry size | .logReplay _ entry size _ => entry + size / 2 ^ c.metaShift ≤ bmapEntries
  | _ => True

def Action.run (c : Config) (x : Index) : Action → Index × Int
  | .allocBlock _ size =>
    match bintAllocBlock c.metaShift x size with
    | (x', some _) => (x', (size / 2 ^ c.metaShift : Nat))
    | (x', none) => (x', 0)
  | .allocForPgdata _ enableVerify allocList =>
    let (x', placed, _) := bintAllocForPgdata c.metaShift enableVerify x allocList
    (x', (((placed.filter fun p => !p.duplicate).map fun p => p.size / 2 ^ c.metaShift).sum : Nat))
  | .refBlock _ entry size nodeBlock =>
    ((bintRefBlock x entry (size / 2 ^ c.metaShift) nodeBlock).1, 0)
  | .setNodeBlock _ entry nodeBlock => ((bdevSetNodeBlock x entry nodeBlock).getD x, 0)
  | .freeBlock _ entry size =>
    let r := bintFreeBlock x entry (size / 2 ^ c.metaShift)
    (r.index, -r.given)
  | .logReplay _ entry size isMeta =>
    let (x', taken) := bintLogReplay x entry (size / 2 ^ c.metaShift) isMeta
    (x', taken)
  | .checkLoad _ => (indexCheckLoad x, 0)
  | .clearLoad _ => ({ x with loadDone := false }, 0)
  | .unmapBlocks _ unmapSupported => (bintUnmapBlocks unmapSupported x, 0)

/-- `bint_decr_free` and `bint_incr_free` follow every change of the bitmap. -/
def Bdevint.step (c : Config) (b : Bdevint) (a : Action) : Bdevint :=
  let (x', taken) := a.run c (b.index a.indexId)
  { index := update b.index a.indexId x'
    free := b.free - taken * 2 ^ c.metaShift }

def system (c : Config) : System Bdevint Action where
  init b := b = Bdevint.new c
  step b a b' := a.indexId < c.maxIndexes ∧ a.InBitmap c ∧ b' = b.step c a

section

variable {κ : Type} [DecidableEq κ]

def blockRun (metaShift : Nat) (row : κ) (entry size : Nat) : Run κ :=
  ⟨row, entry, size / 2 ^ metaShift⟩

def accountPlaced (metaShift : Nat) (row : κ) (σ : Store κ) (placed : List Placed) : Store κ :=
  placed.foldl (fun σ p =>
      let r := blockRun metaShift row p.start p.size
      update σ r (σ r + 1)) σ

def counts (index : κ → Index) (row : κ) (entry : Nat) : Nat := refsOf ((index row).bmap entry)

end

structure RunState where
  bint : Bdevint
  live : Store Nat

def Config.run (c : Config) (indexId entry size : Nat) : Run Nat :=
  blockRun c.metaShift indexId entry size

def Action.account (c : Config) (x : Index) (σ : Store Nat) : Action → Store Nat
  | .allocBlock id size =>
    match bintAllocBlock c.metaShift x size with
    | (_, some start) => update σ (c.run id start size) 1
    | (_, none) => σ
  | .allocForPgdata id enableVerify allocList =>
    accountPlaced c.metaShift id σ (bintAllocForPgdata c.metaShift enableVerify x allocList).2.1
  | .refBlock id entry size nodeBlock =>
    match bintRefBlock x entry (size / 2 ^ c.metaShift) nodeBlock with
    | (_, none) => update σ (c.run id entry size) (σ (c.run id entry size) + 1)
    | (_, some _) => σ
  | .freeBlock id entry size =>
    update σ (c.run id entry size) (σ (c.run id entry size) - 1)
  | _ => σ

/-- References are taken and given back on outstanding runs. The log is replayed before a disk is put to use. -/
def Action.Granted (c : Config) (σ : Store Nat) : Action → Prop
  | .refBlock id entry size _ | .freeBlock id entry size => σ.Live (c.run id entry size)
  | .logReplay _ _ _ _ => False
  | _ => True

def RunState.step (c : Config) (s : RunState) (a : Action) : RunState :=
  ⟨s.bint.step c a, a.account c (s.bint.index a.indexId) s.live⟩

def Config.Reserved (c : Config) (indexId entry : Nat) : Prop :=
  indexId < c.maxIndexes ∧ entry < bmapEntries ∧ indexId * bmapEntries + entry < c.reservedBlocks

instance (c : Config) (indexId entry : Nat) : Decidable (c.Reserved indexId entry) :=
  inferInstanceAs (Decidable (_ ∧ _ ∧ _))

structure RunState.Consistent (c : Config) (s : RunState) : Prop where
  represents : Represents c.Reserved (counts s.bint.index) s.live
  row_lt : ∀ {r}, s.live.Live r → r.row < c.maxIndexes
  end_le : ∀ {r}, s.live.Live r → r.start + r.len ≤ bmapEntries

def runSystem (c : Config) : System RunState Action where
  init s := s.Consistent c
  step s a s' := a.indexId < c.maxIndexes ∧ a.Granted c s.live ∧ s' = s.step c a

structure FreshRun (c : Config) (s : RunState) (r : Run Nat) : Prop where
  len_pos : 0 < r.len
  zero : ∀ i, r.start ≤ i → i < r.start + r.len → (s.bint.index r.row).bmap i = 0
  end_le : r.start + r.len ≤ bmapEntries
  reserved_le : c.reserved ≤ c.blockFromIndex r.row r.start * 2 ^ c.sectorShift
  le_usize : c.blockFromIndex r.row r.start * 2 ^ c.sectorShift + r.len * 2 ^ c.metaShift ≤ c.usize
  disjoint : ∀ r', s.live.Live r' → r.Disjoint r'

end QuadStor.Bint
