import Mathlib.Algebra.Order.Ring.Nat
import QuadStor.Geometry
import QuadStor.Lib.System

/-!
# Resizing a virtual disk

The index page of a virtual disk has its size, the greatest size it had (`max_size`, 0 if it was never resized), and
the blocks of its table index pages.
-/

namespace QuadStor.Resize

open Lib

def maxTargetSize : Nat := 2 ^ 46

def roundUp (n d : Nat) : Nat := if n % d ≠ 0 then n / d + 1 else n / d

/-- `amap_table_max` for a size in bytes -/
def amapTableMaxOf (size : Nat) : Nat := roundUp (size / 4096) lbasPerAmapTable

def tableIndexMaxOf (size : Nat) : Nat := roundUp (amapTableMaxOf size) amapTablePerGroup

/-- What a resize and a load use of `struct raw_index_data` -/
structure RawIndexData where
  size : Nat
  maxSize : Nat
  /-- the blocks of the table index pages, 0 where there is none -/
  tablePad : Nat → Nat

def RawIndexData.tdiskMaxSize (raw : RawIndexData) : Nat := if raw.maxSize ≠ 0 then raw.maxSize else raw.size

structure Tdisk where
  /-- the index page, on disk and in memory -/
  raw : RawIndexData
  lbaShift : Nat
  endLba : Nat
  amapTableMax : Nat
  tableIndexMax : Nat
  /-- the blocks of the table index pages in memory -/
  tableIndex : Nat → Option Nat
  /-- not in the source: the greatest size that the disk got table index pages for -/
  everSize : Nat
  /-- not in the source: the number of table index pages that were allocated -/
  allocated : Nat

/-- Whether a table index page gets a block, and whether it is then written -/
structure PageIo where
  block : Option Nat
  block_ne : block ≠ some 0
  written : Bool

structure Io where
  page : Nat → PageIo
  groups : Bool
  index : Bool

structure Pages where
  tablePad : Nat → Nat
  tableIndex : Nat → Option Nat
  count : Nat
  ok : Bool

def Pages.add (p : Pages) (i b : Nat) : Pages :=
  { p with
    tablePad := Function.update p.tablePad i b
    tableIndex := Function.update p.tableIndex i (some b)
    count := p.count + 1 }

def allocPages (page : Nat → PageIo) : (n i : Nat) → Pages → Pages
  | 0, _, p => p
  | n + 1, i, p =>
    match (page i).block with
    | none => { p with ok := false }
    | some b =>
      if (page i).written then allocPages page n (i + 1) (p.add i b) else { p.add i b with ok := false }

def tdiskInitializeIndex (io : Io) (lbaShift size : Nat) : Option Tdisk :=
  -- the size that is recorded is one of whole blocks
  let raw := (size / 2 ^ lbaShift) * 2 ^ lbaShift
  let p := allocPages io.page (tableIndexMaxOf raw) 0 ⟨fun _ => 0, fun _ => none, 0, true⟩
  if io.groups && p.ok && io.index then
    some ⟨⟨raw, 0, p.tablePad⟩, lbaShift, size / 2 ^ lbaShift, amapTableMaxOf raw, tableIndexMaxOf raw, p.tableIndex, raw,
      p.count⟩
  else none

def tdiskReinitializeIndex (io : Io) (d : Tdisk) (newSize : Nat) (updateSize : Bool) : Int × Tdisk :=
  let size := if updateSize then newSize else d.raw.size
  let endLba := if updateSize then newSize / 2 ^ d.lbaShift else d.endLba
  if d.raw.maxSize ≠ 0 ∧ newSize ≤ d.raw.maxSize then
    -- `skip`
    if io.index then (0, { d with raw := ⟨size, newSize, d.raw.tablePad⟩, endLba }) else (-1, d)
  else
    let p := allocPages io.page (tableIndexMaxOf newSize - d.tableIndexMax) d.tableIndexMax
      ⟨d.raw.tablePad, d.tableIndex, 0, true⟩
    if p.ok && io.groups && io.index then
      (0,
        { d with
          raw := ⟨size, newSize, p.tablePad⟩
          endLba
          amapTableMax := amapTableMaxOf newSize
          tableIndexMax := tableIndexMaxOf newSize
          tableIndex := p.tableIndex
          everSize := max d.everSize newSize
          allocated := d.allocated + p.count })
    else (-1, { d with tableIndex := p.tableIndex, allocated := d.allocated + p.count })

/-- It returns 0 whether or not the index page was written. -/
def tdiskReinitializeIndexReduc (io : Io) (d : Tdisk) (newSize : Nat) : Tdisk :=
  if io.index then
    { d with
      raw := ⟨newSize, d.raw.tdiskMaxSize, d.raw.tablePad⟩
      endLba := newSize / 2 ^ d.lbaShift }
  else d

/-- The choice of `target_resize_disk` and of `node_mirror_update_vdisk_properties` -/
def resizeIndex (io : Io) (d : Tdisk) (size : Nat) : Int × Tdisk :=
  if d.endLba * 2 ^ d.lbaShift < size then tdiskReinitializeIndex io d size true
  else (0, tdiskReinitializeIndexReduc io d size)

/-- The peer of a mirror does not compare the sizes. -/
def nodeMirrorVdiskResize (io : Io) (d : Tdisk) (endLba : Nat) : Tdisk :=
  (tdiskReinitializeIndex io d (endLba * 2 ^ d.lbaShift) true).2

def nodeMirrorUpdateVdiskProperties (io : Io) (d : Tdisk) (endLba : Nat) : Tdisk :=
  if d.endLba = endLba then d
  else
    let (retval, d) := resizeIndex io d (endLba * 2 ^ d.lbaShift)
    if retval = 0 then { d with endLba } else d

/-- The disk is not loaded if a table index page has no block. -/
def tdiskLoadIndex (d : Tdisk) : Option Tdisk :=
  let tableIndexMax := tableIndexMaxOf d.raw.tdiskMaxSize
  if ∀ i < tableIndexMax, d.raw.tablePad i ≠ 0 then
    some { d with
      endLba := d.raw.size / 2 ^ d.lbaShift
      amapTableMax := amapTableMaxOf d.raw.tdiskMaxSize
      tableIndexMax
      tableIndex := fun i => if i < tableIndexMax then some (d.raw.tablePad i) else none }
  else none

inductive Action where
  | resize (io : Io) (size : Nat)
  /-- A mirror peer asks for the greatest size that its disk had. -/
  | mirror (io : Io) (maxSize : Nat)
  /-- The master of a mirror was resized, to more or to less. -/
  | mirrorResize (io : Io) (endLba : Nat)
  | mirrorUpdate (io : Io) (endLba : Nat)
  | reload

def exec (d : Tdisk) : Action → Option Tdisk
  | .resize io size =>
    -- `__tl_server_vdisk_resize`
    if size = 0 ∨ maxTargetSize < size then none else some (resizeIndex io d size).2
  | .mirror io maxSize =>
    if d.raw.tdiskMaxSize < maxSize ∧ maxSize ≤ maxTargetSize then some (tdiskReinitializeIndex io d maxSize false).2
    else none
  | .mirrorResize io endLba =>
    if endLba * 2 ^ d.lbaShift ≤ maxTargetSize then some (nodeMirrorVdiskResize io d endLba) else none
  | .mirrorUpdate io endLba =>
    if endLba * 2 ^ d.lbaShift ≤ maxTargetSize then some (nodeMirrorUpdateVdiskProperties io d endLba) else none
  | .reload => tdiskLoadIndex d

def Initial (d : Tdisk) : Prop :=
  ∃ io lbaShift size, 2 ^ lbaShift ≤ size ∧ size ≤ maxTargetSize ∧ tdiskInitializeIndex io lbaShift size = some d

def system : System Tdisk Action where
  init := Initial
  step d a d' := exec d a = some d'

/-- A reload brings back all table index pages that were allocated, and all tables. -/
structure Kept (d d' : Tdisk) : Prop where
  allocated : d'.tableIndexMax = d.allocated
  pages : ∀ i < d.tableIndexMax, i < d'.tableIndexMax ∧ d'.tableIndex i = d.tableIndex i
  tables : d.amapTableMax ≤ d'.amapTableMax

structure Remembers (d : Tdisk) : Prop where
  maxSize : d.everSize ≤ d.raw.tdiskMaxSize
  reload : ∃ d', exec d .reload = some d' ∧ Kept d d'

/-- Where a table index page is allocated for the new size, nothing fails afterwards. -/
def NoLeak (io : Io) (d : Tdisk) (newSize : Nat) : Prop :=
  tableIndexMaxOf newSize ≤ d.tableIndexMax ∨ (io.page d.tableIndexMax).block = none ∨
    (∀ i, d.tableIndexMax ≤ i → i < tableIndexMaxOf newSize → (io.page i).block ≠ none ∧ (io.page i).written = true) ∧
      io.groups = true ∧ io.index = true

/-- The new size is at least the one that is recorded as the greatest. -/
structure Grows (io : Io) (d : Tdisk) (size : Nat) : Prop where
  maxSize : d.raw.tdiskMaxSize ≤ size
  noLeak : NoLeak io d size

/-- The peer takes every size for a greater one, if it comes by itself. -/
def Allowed (d : Tdisk) : Action → Prop
  | .resize io size => d.endLba * 2 ^ d.lbaShift < size → Grows io d size
  | .mirror io maxSize => NoLeak io d maxSize
  | .mirrorResize io endLba => Grows io d (endLba * 2 ^ d.lbaShift)
  | .mirrorUpdate io endLba => d.endLba < endLba → Grows io d (endLba * 2 ^ d.lbaShift)
  | .reload => True

/-! ## A resize request -/

/-- Where a disk is kept in step, and whether it is the slave of a mirror -/
structure Peers where
  haSync : Bool
  mirrored : Bool
  slave : Bool

structure Outcome where
  retval : Int
  disk : Tdisk
  /-- `VDISK_IN_RESIZE` of `tdisk->flags` -/
  inResize : Bool
  /-- the `end_lba` in the messages to the two peers -/
  haEndLba : Option Nat
  mirrorEndLba : Option Nat

/-- `tdisk_update_peers` sends the HA peer the disk as it is, and the mirror peer the new size. -/
def tdiskUpdatePeers (p : Peers) (d : Tdisk) (inResize : Bool) (newSize : Nat) : Outcome :=
  ⟨0, d, inResize, if p.haSync then some d.endLba else none, if p.mirrored then some (newSize / 2 ^ d.lbaShift) else none⟩

/-- `target_resize_disk`; `tdisk_reinitialize_index_reduc` sets the flag before it writes the index page. -/
def targetResizeDisk (io : Io) (p : Peers) (d : Tdisk) (inResize : Bool) (size : Nat) : Outcome :=
  if p.slave then ⟨-1, d, inResize, none, none⟩
  else
    let (retval, disk) := resizeIndex io d size
    let inResize := inResize || !decide (d.endLba * 2 ^ d.lbaShift < size)
    if retval = 0 then tdiskUpdatePeers p disk inResize size else ⟨-1, disk, inResize, none, none⟩

structure NoEffect (d : Tdisk) (inResize : Bool) (o : Outcome) : Prop where
  failed : o.retval ≠ 0
  size : o.disk.endLba = d.endLba
  index : o.disk.raw = d.raw
  inResize : o.inResize = inResize
  haPeer : ∀ e ∈ o.haEndLba, e = d.endLba
  mirrorPeer : ∀ e ∈ o.mirrorEndLba, e = d.endLba

end QuadStor.Resize
