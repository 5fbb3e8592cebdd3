import QuadStor.Lib.Fields

/-!
# Entries of a log page

An entry of the log says that a page of a virtual disk is at a new block, or that a block has a new table or a new
map.
-/

namespace QuadStor.LogPage

open Lib

structure V2LogEntry where
  bit1 : BitVec 64
  bit2 : BitVec 32
  index1 : BitVec 32
  index2 : BitVec 16
  amap1 : BitVec 32
  amap2 : BitVec 16
  deriving DecidableEq, Repr

def v2LogEntrySetBlock (newBlock : BitVec 64) (targetId : BitVec 16) (lba indexWriteId amapWriteId : BitVec 64) :
    V2LogEntry where
  bit1 := newBlock ||| (lba &&& 0x3FFF#64) <<< 50
  bit2 := ((lba >>> 14) ||| ((targetId.setWidth 32 &&& 0xFFF#32) <<< 20).setWidth 64).setWidth 32
  index1 := (indexWriteId &&& 0xFFFFFFFF#64).setWidth 32
  index2 := ((indexWriteId >>> 32) &&& 0xFFFF#64).setWidth 16
  amap1 := (amapWriteId &&& 0xFFFFFFFF#64).setWidth 32
  amap2 := ((amapWriteId >>> 32) &&& 0xFFFF#64).setWidth 16

def V2LogEntry.clear : V2LogEntry := ⟨0, 0, 0, 0, 0, 0⟩

namespace V2LogEntry

variable (entry : V2LogEntry)

def targetId : BitVec 16 := ((entry.bit2 >>> 20) &&& 0xFFF#32).setWidth 16

def newBlock : BitVec 64 := entry.bit1 &&& 0x3FFFFFFFFFFFF#64

def lba : BitVec 64 := ((entry.bit2 &&& 0xFFFFF#32).setWidth 64 <<< 14) ||| (entry.bit1 >>> 50)

def amapWriteId : BitVec 64 := entry.amap1.setWidth 64 ||| (entry.amap2.setWidth 64 <<< 32)

def indexWriteId : BitVec 64 := entry.index1.setWidth 64 ||| (entry.index2.setWidth 64 <<< 32)

end V2LogEntry

inductive MetaType where
  | amap
  | amapTable
  deriving DecidableEq, Repr

def MetaType.code : MetaType → BitVec 64
  | .amap => 0
  | .amapTable => 1

/-- An `index_info` or a map that has a write id; the older formats have none. -/
structure WriteId where
  v2 : Bool
  id : BitVec 48
  deriving DecidableEq, Repr

def WriteId.logged (w : WriteId) : BitVec 64 := if w.v2 then w.id.setWidth 64 else 0

/-- A page of a virtual disk with at most `MAX_TARGET_SIZE` bytes -/
structure DataEntry where
  /-- `amap_block`: 38 bits of block number, 9 of the disk, 3 of the size -/
  block : BitVec 50
  targetId : BitVec 12
  lba : BitVec 34
  /-- a page without a new block has no `index_info` -/
  indexInfo : Option WriteId
  amap : WriteId
  pos : targetId ≠ 0

structure MetaEntry where
  type : MetaType
  block : BitVec 50
  targetId : BitVec 12
  lba : BitVec 34
  index : WriteId

def fastlogInsertTransaction (d : DataEntry) : V2LogEntry :=
  v2LogEntrySetBlock (d.block.setWidth 64) (d.targetId.setWidth 16) (d.lba.setWidth 64)
    ((d.indexInfo.map WriteId.logged).getD 0) d.amap.logged

def MetaEntry.amapWriteId (e : MetaEntry) : BitVec 64 := e.type.code <<< 14 ||| e.targetId.setWidth 64

def fastlogAddTransaction (e : MetaEntry) : V2LogEntry :=
  v2LogEntrySetBlock (e.block.setWidth 64) 0 (e.lba.setWidth 64) e.index.logged e.amapWriteId

inductive Slot where
  | empty
  | data (d : DataEntry)
  | metadata (e : MetaEntry)

def Slot.raw : Slot → V2LogEntry
  | .empty => .clear
  | .data d => fastlogInsertTransaction d
  | .metadata e => fastlogAddTransaction e

structure LogEntry where
  transactionId : BitVec 64
  newBlock : BitVec 64
  lba : BitVec 64
  indexWriteId : BitVec 64
  amapWriteId : BitVec 64
  targetId : BitVec 16
  deriving DecidableEq, Repr

def V2LogEntry.load (transactionId : BitVec 64) (entry : V2LogEntry) : LogEntry :=
  ⟨transactionId, entry.newBlock, entry.lba, entry.indexWriteId, entry.amapWriteId, entry.targetId⟩

/-- The loop of `log_page_load_entries_v2` from slot `i` on; `alloc` is whether the memory for a slot's entry is
there. -/
def loadFrom (alloc : Nat → Bool) (transactionStart : BitVec 64) : Nat → List V2LogEntry → Option (List LogEntry)
  | _, [] => some []
  | i, entry :: rest =>
    if entry.targetId = 0 ∧ entry.newBlock = 0 then loadFrom alloc transactionStart (i + 1) rest
    else if alloc i then
      (loadFrom alloc transactionStart (i + 1) rest).map (entry.load (transactionStart + BitVec.ofNat 64 i) :: ·)
    else none

/-- The entries before a `raw_log_page` -/
def v2LogEntries : Nat := (4096 - 8) / 24

structure Page where
  entries : Vector V2LogEntry v2LogEntries
  transactionStart : BitVec 64

def logPageLoadEntriesV2 (alloc : Nat → Bool) (page : Page) : Option (List LogEntry) :=
  loadFrom alloc page.transactionStart 0 page.entries.toList

/-- `log_entries_replay` takes it for a data entry. -/
def LogEntry.isData (e : LogEntry) : Bool := e.targetId != 0

/-- `type` in `tdisk_replay_meta_block` -/
def LogEntry.metaType (e : LogEntry) : BitVec 8 := ((e.amapWriteId >>> 14) &&& 0x3#64).setWidth 8

/-- `target_id` in `tdisk_replay_meta_block` -/
def LogEntry.metaTargetId (e : LogEntry) : BitVec 16 := (e.amapWriteId &&& 0xFFF#64).setWidth 16

def Slot.used : Slot → Bool
  | .empty => false
  | _ => true

def Slot.Reads : Slot → LogEntry → Prop
  | .empty, _ => False
  | .data d, e =>
    e.isData ∧ e.newBlock = d.block.setWidth 64 ∧ e.lba = d.lba.setWidth 64 ∧ e.targetId = d.targetId.setWidth 16 ∧
      e.indexWriteId = (d.indexInfo.map WriteId.logged).getD 0 ∧ e.amapWriteId = d.amap.logged
  | .metadata m, e =>
    ¬e.isData ∧ e.newBlock = m.block.setWidth 64 ∧ e.lba = m.lba.setWidth 64 ∧
      e.metaTargetId = m.targetId.setWidth 16 ∧ e.metaType = m.type.code.setWidth 8 ∧ e.indexWriteId = m.index.logged

def EntryOf (start : BitVec 64) (p : Slot × Nat) (e : LogEntry) : Prop :=
  p.1.Reads e ∧ e.transactionId = start + BitVec.ofNat 64 p.2

def Slot.Visible : Slot → Prop
  | .metadata e => e.block ≠ 0
  | _ => True

end QuadStor.LogPage
