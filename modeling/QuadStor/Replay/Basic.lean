import QuadStor.AddrMap.Basic
import QuadStor.Fastlog.Basic
import QuadStor.Lib.Counter

/-!
# Log replay

`log_entries_replay` applies the entries of the log to indexes and address maps in memory.
-/

namespace QuadStor.Replay

open Lib Bint DDTable Function
open Fastlog (replayAccepts)

/-- `struct log_entry`; `newBlock` is `none` for block number 0. -/
structure LogEntry where
  newBlock : Option Block
  lba : Nat
  targetId : Nat
  indexWriteId : Nat
  amapWriteId : Nat
  deriving DecidableEq, Repr

def typeAmapTable : Nat := 1

/-- An entry for the block of a new table or map has no target id; its map write id holds the type and
the target. -/
def LogEntry.metaType (e : LogEntry) : Nat := e.amapWriteId / 2 ^ 14 % 4

def LogEntry.metaTarget (e : LogEntry) : Nat := e.amapWriteId % 2 ^ 12

def LogEntry.isMeta (e : LogEntry) : Bool := e.targetId == 0

structure Amap where
  writeId : Nat
  /-- `AMAP_META_DATA_ERROR`: the checksum does not match -/
  error : Bool
  entries : Nat → Option Block

structure Table where
  error : Bool
  amap : Nat → Option Amap

structure World where
  index : Row → Index
  table : Nat × Nat → Option Table

structure Config where
  metaShift : Nat → Nat
  /-- `tdisk_locate` finds the virtual disk -/
  tdisk : Nat → Bool
  bdev : Nat → Bool

def World.setIndex (w : World) (row : Row) (x : Index) : World :=
  { w with index := update w.index row x }

def World.setTable (w : World) (key : Nat × Nat) (t : Table) : World :=
  { w with table := update w.table key (some t) }

def Table.setAmap (t : Table) (n : Nat) (a : Amap) : Table :=
  { t with amap := update t.amap n (some a) }

variable (c : Config)

def LogEntry.tdiskValid (e : LogEntry) : Bool :=
  if e.targetId ≠ 0 then c.tdisk e.targetId
  else if e.amapWriteId ≠ 0 then c.tdisk e.metaTarget
  else false

def bdevLogReplay (w : World) (b : Block) (indexWriteId : Nat) (isMeta : Bool) : World :=
  let x := w.index b.row
  if x.dataError then w
  else if !replayAccepts x.writeId indexWriteId then w
  else
    w.setIndex b.row (bintLogReplay x b.entry (b.size / 2 ^ c.metaShift b.bid) isMeta).1

def tdiskReplayAmapBlock (w : World) (e : LogEntry) : World :=
  match w.table (e.targetId, amapTableId e.lba) with
  | none => w
  | some t =>
    if t.error then w
    else
      match t.amap (amapId e.lba) with
      | none => w
      | some a =>
        if a.error then w
        else if !replayAccepts a.writeId e.amapWriteId then w
        else
          w.setTable (e.targetId, amapTableId e.lba) (t.setAmap (amapId e.lba)
            { a with entries := update a.entries e.lba e.newBlock })

/-- `amap_table_recreate` and `amap_recreate` need the disk of the new block. -/
def LogEntry.blockFound (e : LogEntry) : Bool :=
  match e.newBlock with
  | none => false
  | some b => c.bdev b.bid

def Amap.recreate : Amap := ⟨0, false, fun _ => none⟩

def tdiskReplayMetaBlock (w : World) (e : LogEntry) : World :=
  if e.amapWriteId = 0 then w
  else if !c.tdisk e.metaTarget then w
  else
    match w.table (e.metaTarget, amapTableId e.lba) with
    | none =>
      if e.metaType ≠ typeAmapTable then w
      else if !e.blockFound c then w
      else w.setTable (e.metaTarget, amapTableId e.lba) ⟨false, fun _ => none⟩
    | some t =>
      if t.error then w
      else if e.metaType = typeAmapTable then w
      else
        match t.amap (amapId e.lba) with
        | some _ => w
        | none =>
          if !e.blockFound c then w
          else w.setTable (e.metaTarget, amapTableId e.lba) (t.setAmap (amapId e.lba) .recreate)

/-- The entry is not passed over: its virtual disk is there, and so is the disk of its block. -/
def LogEntry.inUse (e : LogEntry) : Bool :=
  e.tdiskValid c && (e.newBlock.isNone || e.blockFound c)

def replayRef (w : World) (e : LogEntry) : World :=
  match e.newBlock with
  | none => w
  | some b => bdevLogReplay c w b e.indexWriteId e.isMeta

def replayMap (w : World) (e : LogEntry) : World :=
  if e.isMeta then tdiskReplayMetaBlock c w e else tdiskReplayAmapBlock w e

/-- The loop body of `log_entries_replay`, between the flushes -/
def replayEntry (w : World) (e : LogEntry) : World :=
  if e.inUse c then replayMap c (replayRef c w e) e else w

def logEntriesReplay (w : World) (log : List LogEntry) : World := log.foldl (replayEntry c) w

/-- `done` and `flushed` are not in the source: the entries replayed so far, and how many of them each index had when it
was written last. -/
structure Run where
  rest : List LogEntry
  /-- `done` of the source: the entries since the last flush -/
  count : Nat
  mem : World
  disk : World
  done : Nat
  flushed : Row → Nat

def Run.start (w : World) (log : List LogEntry) : Run := ⟨log, 0, w, w, 0, fun _ => 0⟩

def recreateOnDisk (w : World) (e : LogEntry) : World :=
  if e.inUse c && e.isMeta then tdiskReplayMetaBlock c w e else w

def World.flushAmap (disk mem : World) (target n : Nat) : World :=
  match disk.table (target, tableId n), mem.table (target, tableId n) with
  | some t, some t' =>
    match t'.amap n with
    | some a => disk.setTable (target, tableId n) (t.setAmap n a)
    | none => disk
  | _, _ => disk

inductive Action where
  | entry
  | flushIndex (row : Row)
  | flushAmap (target n : Nat)

/-- `index_sync_start_io` does not move the write id, and `WRITE_ID_MAX` keeps that of a map: a flush only copies. -/
def Run.run (r : Run) : Action → Run
  | .entry =>
    match r.rest with
    | [] => r
    | e :: rest =>
      { r with
        rest
        count := if r.count = 4096 then 0 else r.count + 1
        mem := replayEntry c r.mem e
        disk := recreateOnDisk c r.disk e
        done := r.done + 1 }
  | .flushIndex row =>
    { r with
      disk := r.disk.setIndex row (r.mem.index row)
      flushed := update r.flushed row r.done }
  | .flushAmap target n => { r with disk := r.disk.flushAmap r.mem target n }

/-- The replay flushes when 4096 entries have been counted and at the end, and goes on when everything is on disk. -/
def Action.Allowed (r : Run) : Action → Prop
  | .entry => r.rest ≠ [] ∧ (r.count = 4096 → r.disk = r.mem)
  | .flushIndex _ | .flushAmap _ _ => r.count = 4096 ∨ r.rest = []

def system (w : World) (log : List LogEntry) : System Run Action where
  init r := r = Run.start w log
  step r a r' := a.Allowed r ∧ r' = r.run c a

def Run.Complete (r : Run) : Prop := r.rest = [] ∧ r.disk = r.mem

def World.entry (w : World) (target lba : Nat) : Option Block :=
  match w.table (target, amapTableId lba) with
  | none => none
  | some t =>
    match t.amap (amapId lba) with
    | none => none
    | some a => a.entries lba

structure SameResult (w w' : World) : Prop where
  refs : ∀ row i, refsOf ((w.index row).bmap i) = refsOf ((w'.index row).bmap i)
  entry : ∀ target lba, w.entry target lba = w'.entry target lba

/-! ## What a log asks for

Said of the log and of the disk a replay starts from, without running it.
-/

def LogEntry.takes (w : World) (row : Row) (i : Nat) (e : LogEntry) : Bool :=
  e.inUse c && match e.newBlock with
    | none => false
    | some b =>
      decide (b.row = row ∧ b.entry ≤ i ∧ i < b.entry + b.size / 2 ^ c.metaShift b.bid) &&
        !(w.index row).dataError && replayAccepts (w.index row).writeId e.indexWriteId

def replayOp (isMeta : Bool) : Counter.Op := if isMeta then .claim else .incr

def takenOps (w : World) (row : Row) (i : Nat) (log : List LogEntry) : List Counter.Op :=
  (log.filter (LogEntry.takes c w row i)).map fun e => replayOp e.isMeta

def LogEntry.makesTable (target lba : Nat) (e : LogEntry) : Bool :=
  e.inUse c && e.isMeta && e.blockFound c && e.metaTarget == target && e.metaType == typeAmapTable &&
    amapTableId e.lba == amapTableId lba

def LogEntry.makesMap (target lba : Nat) (e : LogEntry) : Bool :=
  e.inUse c && e.isMeta && e.blockFound c && e.metaTarget == target && e.metaType != typeAmapTable &&
    amapId e.lba == amapId lba

inductive Present where
  | nothing
  | table (error : Bool)
  | map (error : Bool) (writeId : Nat)
  deriving DecidableEq, Repr

def World.present (w : World) (target lba : Nat) : Present :=
  match w.table (target, amapTableId lba) with
  | none => .nothing
  | some t =>
    match t.amap (amapId lba) with
    | none => .table t.error
    | some a => .map (t.error || a.error) a.writeId

def Present.step (target lba : Nat) : Present → LogEntry → Present
  | .nothing, e => if e.makesTable c target lba then .table false else .nothing
  | .table false, e => if e.makesMap c target lba then .map false 0 else .table false
  | p, _ => p

def Present.isMap : Present → Bool
  | .map _ _ => true
  | _ => false

/-- Whether an entry would be accepted once the map is there; a map that is still to be made will have
write id 0. -/
def Present.accepts : Present → LogEntry → Bool
  | .nothing, e => replayAccepts 0 e.amapWriteId
  | .table error, e => !error && replayAccepts 0 e.amapWriteId
  | .map error writeId, e => !error && replayAccepts writeId e.amapWriteId

def LogEntry.sets (w : World) (target lba : Nat) (e : LogEntry) : Bool :=
  e.inUse c && !e.isMeta && e.targetId == target && e.lba == lba && (w.present target lba).accepts e

def mapThere (w : World) (target lba : Nat) (log : List LogEntry) : Bool :=
  (log.foldl (Present.step c target lba) (w.present target lba)).isMap

/-- No index was written with a data block counted that the next replay counts again, unless the count ends at its
maximum. -/
def CountsOnce (w : World) (log : List LogEntry) (flushed : Row → Nat) : Prop :=
  ∀ row i, (∃ e ∈ log.take (flushed row), e.takes c w row i = true ∧ e.isMeta = false) →
    maxRefs ≤ Counter.want (takenOps c w row i log) (refsOf ((w.index row).bmap i))

/-- The last entry for a page finds its map there in the second replay only if it did in the first. -/
def MapsInTime (w : World) (log : List LogEntry) (done : Nat) : Prop :=
  ∀ target lba pre e post, log = pre ++ e :: post → e.sets c w target lba = true →
    (∀ e' ∈ post, e'.sets c w target lba = false) → e.newBlock ≠ none →
      mapThere c w target lba (log.take done ++ pre) = mapThere c w target lba pre

def InOrder (w : World) (log : List LogEntry) : Prop :=
  ∀ target lba pre e post, log = pre ++ e :: post → e.sets c w target lba = true → mapThere c w target lba pre = true

end QuadStor.Replay
