import QuadStor.AddrMap.Basic
import QuadStor.Lib.Loop

/-!
# Deleting and shrinking a virtual disk

The delete thread walks the table groups, the tables and the maps of a disk from a start page on.
-/

namespace QuadStor.Delete

open Lib

/-- A call of `process_delete_block`, with the place that named the block -/
inductive Freed where
  | data (m e b : Nat)
  | amap (m b : Nat)
  | table (t b : Nat)
  | index (g b : Nat)
  deriving DecidableEq, Repr

structure Amap where
  block : Nat
  /-- `amap_metadata_get_block`, 0 where nothing is mapped -/
  entries : Nat → Nat

structure Table where
  block : Nat
  amap : Nat → Cached Amap

def Table.setAmap (x : Table) (i : Nat) (a : Cached Amap) : Table :=
  { x with amap := Function.update x.amap i a }

/-- The tables and groups of a disk are those of the largest size it has had; `endLba` is its size now. -/
structure Tdisk where
  legacy : Bool
  endLba : Nat
  amapTableMax : Nat
  table : Nat → Cached Table
  index : Nat → Nat
  /-- `INDEX_TABLE_PAD_MAX` groups of 512 -/
  amapTableMax_le : amapTableMax ≤ 74 * 512
  endLba_le : (if legacy then endLba / 8 else endLba) ≤ amapTableMax * (695 * 654)

namespace Tdisk

def setTable (d : Tdisk) (t : Nat) (x : Cached Table) : Tdisk :=
  { d with table := Function.update d.table t x }

def endPage (d : Tdisk) : Nat := if d.legacy then d.endLba / 8 else d.endLba

def maxAmaps (d : Tdisk) : Nat :=
  u32 (if d.endPage % 654 ≠ 0 then d.endPage / 654 + 1 else d.endPage / 654)

/-- `amap_table_group_max`, and `table_index_max` -/
def groupMax (d : Tdisk) : Nat :=
  if d.amapTableMax % 512 ≠ 0 then d.amapTableMax / 512 + 1 else d.amapTableMax / 512

def groupTables (d : Tdisk) (g : Nat) : Nat := min 512 (d.amapTableMax - g * 512)

/-- The maps of table `t` that `amap_table_delete` walks; the subtraction is of `uint32_t`. -/
def todo (d : Tdisk) (t : Nat) : Nat := min 695 (u32 (d.maxAmaps + (2 ^ 32 - t * 695)))

end Tdisk

/-- The first map with all its pages at or after the start -/
def startAmapId (start : Nat) : Nat :=
  if u32 (amapId start) * 654 ≠ start then u32 (u32 (amapId start) + 1) else u32 (amapId start)

inductive Stop where
  /-- `-1`: memory or a transfer failed -/
  | failed
  /-- `-2`: `VDISK_DELETE_EXIT` -/
  | exit
  /-- a map that is not in memory is used -/
  | nullAmap
  deriving DecidableEq, Repr

/-- What the walk finds when it asks for something else to be done, by map, table or group -/
structure Env where
  amapLoad : Nat → Bool
  tableLoad : Nat → Bool
  /-- `AMAP_META_DATA_ERROR`, `ATABLE_META_DATA_ERROR` after the read -/
  amapError : Nat → Bool
  tableError : Nat → Bool
  /-- a zero page was there and was written over the map, the table, the table index, the disk -/
  amapClear : Nat → Bool
  tableClear : Nat → Bool
  indexClear : Nat → Bool
  diskClear : Bool
  /-- `VDISK_DELETE_EXIT` seen after a batch ending with a map, before a table, after a group -/
  exitAmap : Nat → Bool
  exitTable : Nat → Bool
  exitGroup : Nat → Bool

structure Env.Undisturbed (env : Env) : Prop where
  amapLoad : ∀ m, env.amapLoad m = true
  tableLoad : ∀ t, env.tableLoad t = true
  amapError : ∀ m, env.amapError m = false
  tableError : ∀ t, env.tableError t = false
  amapClear : ∀ m, env.amapClear m = true
  tableClear : ∀ t, env.tableClear t = true
  indexClear : ∀ g, env.indexClear g = true
  diskClear : env.diskClear = true
  exitAmap : ∀ m, env.exitAmap m = false
  exitTable : ∀ t, env.exitTable t = false
  exitGroup : ∀ g, env.exitGroup g = false

variable (env : Env) (start : Nat)

def Amap.freed (m : Nat) (a : Amap) : List Freed :=
  (List.range 654).filterMap fun e => if a.entries e = 0 then none else some (.data m e (a.entries e))

def Amap.isEmpty (a : Amap) : Bool := (List.range 654).all fun e => a.entries e == 0

/-- The map after it, what is freed, and `clone_data->error` -/
def amapDelete (m : Nat) (a : Amap) : Amap × List Freed × Bool :=
  if a.isEmpty then (a, [], false)
  else if !env.amapClear m then (a, [], true)
  else ({ a with entries := fun _ => 0 }, a.freed m, false)

/-- First loop of `amap_table_delete`: the maps from the start on are read in. -/
def loadStep (t : Nat) (x : Table) (i : Nat) : Except Stop Table :=
  if t * 695 + i < startAmapId start then .ok x
  else
    match x.amap i with
    | .onDisk a => if env.amapLoad (t * 695 + i) then .ok (x.setAmap i (.reading a)) else .error .failed
    | _ => .ok x

/-- The second loop under way: `done` maps were handed to the delete threads since the last wait. -/
structure Deleting where
  table : Table
  freed : List Freed
  done : Nat
  error : Bool

/-- The end of a batch: `clone_list_wait` after `MAX_AMAP_DELETE_THREADS` maps -/
def Deleting.wait (s : Deleting) (m : Nat) (last : Bool) : Except Stop Deleting :=
  if s.done = 51 then
    if s.error then .error .failed
    else if env.exitAmap m && !last then .error .exit
    else .ok { s with done := 0 }
  else .ok s

def Deleting.delete (s : Deleting) (t i : Nat) (last : Bool) (a : Amap) : Except Stop Deleting :=
  if env.amapError (t * 695 + i) then .error .failed
  else
    let r := amapDelete env (t * 695 + i) a
    Deleting.wait env
      ⟨s.table.setAmap i (.loaded r.1), s.freed ++ r.2.1, s.done + 1, s.error || r.2.2⟩ (t * 695 + i) last

/-- Second loop of `amap_table_delete`. It goes on counting `amap_id` from the end of the table, and compares that with
the start. -/
def deleteStep (t todo : Nat) (s : Deleting) (i : Nat) : Except Stop Deleting :=
  if t * 695 + todo + i < startAmapId start then .ok s
  else
    match s.table.amap i with
    | .missing => .ok s
    | .onDisk _ => .error .nullAmap
    | .reading a | .loaded a => s.delete env t i (i + 1 == todo) a

def Table.freedAmaps (x : Table) (t todo : Nat) : List Freed :=
  (List.range todo).filterMap fun i => (x.amap i).content.map fun a => .amap (t * 695 + i) a.block

def amapTableDelete (d : Tdisk) (t : Nat) (x : Table) : Except Stop (Table × List Freed) :=
  if t * 695 + d.todo t ≤ startAmapId start then .ok (x, [])
  else do
    let x ← loop (d.todo t) (loadStep env start t) x
    let s ← loop (d.todo t) (deleteStep env start t (d.todo t)) ⟨x, [], 0, false⟩
    if s.error then .error .failed
    else if start ≠ 0 then .ok (s.table, s.freed)
    else if !env.tableClear t then .error .failed
    else .ok ({ s.table with amap := fun _ => .missing }, s.freed ++ s.table.freedAmaps t (d.todo t))

structure Walk where
  tdisk : Tdisk
  freed : List Freed

def tableStep (t : Nat) (w : Walk) : Except Stop Walk :=
  if t < u32 (amapTableId start) then .ok w
  else if env.exitTable t then .error .exit
  else
    match w.tdisk.table t with
    | .missing => .ok w
    | .onDisk x =>
      if !env.tableLoad t then .error .failed else body t x w
    | .reading x | .loaded x => body t x w
where
  body (t : Nat) (x : Table) (w : Walk) : Except Stop Walk :=
    if env.tableError t then .error .failed
    else do
      let r ← amapTableDelete env start w.tdisk t x
      -- `amap_table_remove`
      .ok ⟨w.tdisk.setTable t (.onDisk r.1), w.freed ++ r.2⟩

def Tdisk.freedTables (d : Tdisk) (g : Nat) : List Freed :=
  (List.range (d.groupTables g)).filterMap fun i =>
    (d.table (g * 512 + i)).content.map fun x => .table (g * 512 + i) x.block

def Tdisk.clearGroup (d : Tdisk) (g : Nat) : Tdisk :=
  { d with table := fun t => if t / 512 = g then .missing else d.table t }

def amapTableGroupDelete (g : Nat) (w : Walk) : Except Stop Walk :=
  if g * 512 + w.tdisk.groupTables g ≤ u32 (amapTableId start) then .ok w
  else do
    let w ← loop (w.tdisk.groupTables g) (fun w i => tableStep env start (g * 512 + i) w) w
    if start ≠ 0 then .ok w
    else if !env.indexClear g then .error .failed
    else .ok ⟨w.tdisk.clearGroup g, w.freed ++ w.tdisk.freedTables g⟩

def groupStep (g : Nat) (w : Walk) : Except Stop Walk := do
  let w ← amapTableGroupDelete env start g w
  if env.exitGroup g then .error .exit else .ok w

def Tdisk.freedIndexes (d : Tdisk) : List Freed :=
  (List.range d.groupMax).map fun g => .index g (d.index g)

def tdiskDeleteThread (d : Tdisk) : Except Stop Walk := do
  let first := u32 (amapTableId start) / 512
  let w ← loop (d.groupMax - first) (fun w k => groupStep env start (first + k) w) ⟨d, []⟩
  if start ≠ 0 then .ok w
  else if !env.diskClear then .error .failed
  else .ok ⟨w.tdisk, w.freed ++ w.tdisk.freedIndexes⟩

namespace Tdisk

def tableAt (d : Tdisk) (t : Nat) : Option Table := if t < d.amapTableMax then (d.table t).content else none

def amapAt (d : Tdisk) (m : Nat) : Option Amap :=
  (d.tableAt (m / 695)).bind fun x => (x.amap (m % 695)).content

def Names (d : Tdisk) : Freed → Prop
  | .data m e b => ∃ a, d.amapAt m = some a ∧ e < 654 ∧ a.entries e = b ∧ b ≠ 0
  | .amap m b => ∃ a, d.amapAt m = some a ∧ a.block = b
  | .table t b => ∃ x, d.tableAt t = some x ∧ x.block = b
  | .index g b => g < d.groupMax ∧ d.index g = b

def firstRemoved (start : Nat) : Nat := (start + 653) / 654

def Emptied (d : Tdisk) (start t : Nat) : Prop :=
  firstRemoved start < (t + 1) * 695 ∧ ∀ m, m / 695 = t → (d.amapAt m).isSome → firstRemoved start ≤ m

def Removed (d : Tdisk) (start : Nat) : Freed → Prop
  | .data m _ _ | .amap m _ => firstRemoved start ≤ m
  | .table t _ => d.Emptied start t
  | .index _ _ => start = 0

def FreesExactly (d : Tdisk) (start : Nat) (freed : List Freed) : Prop :=
  freed.Nodup ∧ ∀ x, x ∈ freed ↔ d.Names x ∧ d.Removed start x

end Tdisk

end QuadStor.Delete
