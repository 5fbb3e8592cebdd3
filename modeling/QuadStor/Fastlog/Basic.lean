import QuadStor.Lib.Backed
import QuadStor.Lib.MachineInt
import QuadStor.Lib.System

/-!
# Write ids and the log

An index and an address map carry a 48-bit write id. A log entry has the ids its index and its map had when the
page's reference and map entry were made; a flush gives them a new id.
-/

namespace QuadStor.Fastlog

open Lib

def writeIdMax : Nat := 2 ^ 48 - 1

def writeIdGreater (current writeId : Nat) : Bool :=
  if current > writeId then true
  else
    let writeIdDiff := u64 (writeIdMax + 2 ^ 64 - writeId)
    let currentDiff := u64 (writeIdMax + 2 ^ 64 - current)
    decide (u64 (currentDiff + 2 ^ 64 - writeIdDiff) > 2 ^ 32)

def writeIdIncr (writeId incr : Nat) : Nat :=
  if u64 (writeId + incr) < writeIdMax then u64 (writeId + incr)
  else u64 (u64 (writeId + incr) + 2 ^ 64 - (writeIdMax - 1))

/-- `index_write_csum`: the id an index is flushed with. A disk of the older format does not look at `incr`. -/
def indexWriteId (v2 incr : Bool) (writeId : Nat) : Nat :=
  if v2 then if incr then writeIdIncr writeId 1 else writeId
  else writeIdIncr writeId 1

/-- `amap_write_csum`: `given` is the id the caller asks for, `skip` comes from `mirror_get_write_id_skip`. -/
def amapWriteId (v2 : Bool) (given skip writeId : Nat) : Nat :=
  if v2 then
    if given = 0 then writeIdIncr writeId skip
    else if given = writeIdMax then writeId
    else given
  else writeIdIncr writeId skip

def storedId (writeId : Nat) : Nat := writeId % 2 ^ 48

/-- `index_check_csum` and `amap_check_csum`: the id an image is loaded with. -/
def loadedId (v2 : Bool) (i : Image) : Nat := if v2 then storedId i.serial else 1

/-- The test of `bdev_log_replay` and of `tdisk_replay_amap_block`: whether the logged update is
applied. -/
def replayAccepts (current logged : Nat) : Bool :=
  !(logged != 0 && writeIdGreater current logged)

/-! ## Writes, flushes and the log -/

abbrev Row := Nat × Nat

abbrev MapKey := Nat × Nat

/-- A reference or a map entry a page made: where, its number among all updates, and the write id the
index or the map had. -/
structure Update (κ : Type) where
  key : κ
  seq : Nat
  writeId : Nat
  deriving DecidableEq, Repr

structure Page where
  /-- `none` for a zero page -/
  ref : Option (Update Row)
  indexInfo : Bool
  map : Option (Update MapKey)
  deriving DecidableEq, Repr

structure LogEntry where
  page : Page
  indexWriteId : Nat
  amapWriteId : Nat
  deriving DecidableEq, Repr

structure State where
  index : Row → Backed
  amap : MapKey → Backed
  pages : List Page
  log : List LogEntry
  next : Nat

structure Config where
  v2Disk : Nat → Bool
  v2Tdisk : Nat → Bool

inductive Action where
  /-- `bint_alloc_for_pgdata`, `bint_alloc_block` and `bint_ref_block`; `indexInfo` is false for a page
  copied by reference, whose `index_info` stays on the list of the copy -/
  | takeRef (row : Row) (indexInfo : Bool)
  | zeroPage
  | setMap (p : Page) (key : MapKey)
  | logPage (p : Page)
  /-- `fastlog_add_transaction`, for the block of a new map or table -/
  | logMeta (p : Page)
  | cancel (p : Page)
  /-- the log page of the entry is used again -/
  | clear (e : LogEntry)
  | flushIndex (row : Row) (incr : Bool)
  | endIndex (row : Row) (ok : Bool)
  | flushAmap (key : MapKey) (given skip : Nat)
  | endAmap (key : MapKey) (ok : Bool)

variable (c : Config)

def Page.logEntry (p : Page) : LogEntry where
  page := p
  indexWriteId := match p.ref with
    | some r => if p.indexInfo && c.v2Disk r.key.1 then storedId r.writeId else 0
    | none => 0
  amapWriteId := match p.map with
    | some u => if c.v2Tdisk u.key.1 then storedId u.writeId else 0
    | none => 0

def State.setIndex (s : State) (row : Row) (o : Backed) : State :=
  { s with index := Function.update s.index row o }

def State.setAmap (s : State) (key : MapKey) (o : Backed) : State :=
  { s with amap := Function.update s.amap key o }

def State.takeRef (s : State) (row : Row) (indexInfo : Bool) : State :=
  { s.setIndex row ((s.index row).update s.next) with
    pages := ⟨some ⟨row, s.next, (s.index row).mem.serial⟩, indexInfo, none⟩ :: s.pages
    next := s.next + 1 }

def State.setMap (s : State) (p : Page) (key : MapKey) : State :=
  { s.setAmap key ((s.amap key).update s.next) with
    pages := { p with map := some ⟨key, s.next, (s.amap key).mem.serial⟩ } :: s.pages.erase p
    next := s.next + 1 }

def State.insertLog (s : State) (p : Page) : State :=
  { s with pages := s.pages.erase p, log := s.log ++ [p.logEntry c] }

def State.run (s : State) : Action → State
  | .takeRef row indexInfo => s.takeRef row indexInfo
  | .zeroPage => { s with pages := ⟨none, false, none⟩ :: s.pages }
  | .setMap p key => s.setMap p key
  | .logPage p | .logMeta p => s.insertLog c p
  | .cancel p => { s with pages := s.pages.erase p }
  | .clear e => { s with log := s.log.erase e }
  | .flushIndex row incr =>
    s.setIndex row ((s.index row).writeBack (indexWriteId (c.v2Disk row.1) incr (s.index row).mem.serial))
  | .endIndex row ok => s.setIndex row ((s.index row).written ok)
  | .flushAmap key given skip =>
    s.setAmap key ((s.amap key).writeBack (amapWriteId (c.v2Tdisk key.1) given skip (s.amap key).mem.serial))
  | .endAmap key ok => s.setAmap key ((s.amap key).written ok)

/-- Only pages with a map entry are logged, and a flush waits for the one before it. -/
def Action.Allowed (s : State) : Action → Prop
  | .setMap p _ => p ∈ s.pages ∧ p.map = none
  | .logPage p => p ∈ s.pages ∧ p.map ≠ none
  | .logMeta p => p ∈ s.pages ∧ p.map = none
  | .flushIndex row _ => (s.index row).inFlight = none
  | .flushAmap key _ _ => (s.amap key).inFlight = none
  | _ => True

structure Loaded (next : Nat) (o : Backed) : Prop where
  serial : o.mem.serial = o.disk.serial ∨ (o.mem.serial = 1 ∧ o.disk.serial = 0)
  pos : 0 < o.mem.serial
  lt : o.mem.serial < 2 ^ 48
  idle : o.inFlight = none
  below : o.Below next

structure State.Start (s : State) : Prop where
  index : ∀ row, Loaded s.next (s.index row)
  amap : ∀ key, Loaded s.next (s.amap key)
  pages : s.pages = []
  log : s.log = []

def system : System State Action where
  init := State.Start
  step s a s' := a.Allowed s ∧ s' = s.run c a

def Ahead (o : Backed) (writeId : Nat) : Prop :=
  o.mem.serial < writeId ∧ writeId ≤ o.disk.serial + 2 ^ 32 ∧ writeId < 2 ^ 48

/-- A page is logged with the ids of its index and its map, and flushes stamp ids ahead. -/
def Action.Sound (s : State) : Action → Prop
  | .logPage p =>
    (∀ r, p.ref = some r → p.indexInfo = true ∧ c.v2Disk r.key.1 = true) ∧
      ∀ u, p.map = some u → c.v2Tdisk u.key.1 = true
  | .logMeta p => ∀ r, p.ref = some r → p.indexInfo = true ∧ c.v2Disk r.key.1 = true
  | .flushIndex row incr =>
    Ahead (s.index row) (indexWriteId (c.v2Disk row.1) incr (s.index row).mem.serial)
  | .flushAmap key given skip =>
    Ahead (s.amap key) (amapWriteId (c.v2Tdisk key.1) given skip (s.amap key).mem.serial)
  | _ => True

end QuadStor.Fastlog
