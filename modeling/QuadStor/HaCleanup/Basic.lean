import QuadStor.Replay.Basic
import QuadStor.Lib.Sweep

/-!
# The clean-up of a takeover

The standby has a message for every write in progress on the master. At a takeover `node_ha_hash_cleanup` finishes
the writes whose client was answered and takes the others back.
-/

namespace QuadStor.HaCleanup

open Bint DDTable Function

open Fastlog (writeIdGreater)
open Replay (Amap)

/-- `struct pgdata_write_spec`; `none` is block number 0. -/
structure WriteSpec where
  amapBlock : Option Block
  oldAmapBlock : Option Block
  amapWriteId : Nat
  indexWriteId : Nat
  deriving DecidableEq, Repr

inductive MsgCmd where
  | pgdataSyncStart
  | pgdataSyncClientDone
  deriving DecidableEq, Repr

/-- A message in `node_ha_hash`, with its `struct pgdata_write_spec_header` -/
structure Msg where
  msgCmd : MsgCmd
  targetId : Nat
  lba : Nat
  specs : List WriteSpec
  deriving DecidableEq, Repr

structure Config where
  metaShift : Nat → Nat
  v2Disk : Nat → Bool
  v2Tdisk : Nat → Bool
  /-- `tdisk_locate` finds the virtual disk -/
  tdisk : Nat → Bool

structure State where
  amaps : Nat × Nat → Option Amap
  /-- the maps on disk; `none` where the table has no block -/
  amapDisk : Nat × Nat → Option Amap
  indexes : Row → Option Index
  indexDisk : Row → Index

def State.setAmap (s : State) (key : Nat × Nat) (a : Amap) : State :=
  { s with amaps := update s.amaps key (some a) }

def State.setIndex (s : State) (row : Row) (x : Index) : State :=
  { s with indexes := update s.indexes row (some x) }

variable (c : Config) {s : State} {specs : List WriteSpec}

def Config.count (b : Block) : Nat := b.size / 2 ^ c.metaShift b.bid

def Config.covers (block : Option Block) (row : Row) (e : Nat) : Bool :=
  match block with
  | none => false
  | some b => decide (b.row = row ∧ b.entry ≤ e ∧ e < b.entry + c.count b)

/-- `amap_load` and `amap_check_csum`: the id of an older format is 1. -/
def Config.amapLoad (target : Nat) (a : Amap) : Amap := { a with writeId := if c.v2Tdisk target then a.writeId else 1 }

/-- The read in `node_ha_index_validate` and `index_check_csum` -/
def Config.indexLoad (row : Row) (x : Index) : Index :=
  { x with writeId := if c.v2Disk row.1 then x.writeId else 1, loadDone := false }

def nodeHaAmapLocate (s : State) (target lba : Nat) : State × Option Amap :=
  let key := (target, amapId lba)
  match s.amaps key with
  | some a => (s, if a.error then none else some a)
  | none =>
    match s.amapDisk key with
    | none => (s, none)
    | some a => (s.setAmap key (c.amapLoad target a), if a.error then none else some (c.amapLoad target a))

/-- What `node_ha_amap_validate` sets the entry to, if the map with this write id does not have it yet -/
def amapValidated (writeId : Nat) (spec : WriteSpec) : Option (Option Block) :=
  if writeIdGreater writeId spec.amapWriteId then none else some spec.amapBlock

/-- What `node_ha_amap_cancel` sets the entry to -/
def amapCancelled (writeId : Nat) (spec : WriteSpec) : Option (Option Block) :=
  if !writeIdGreater writeId spec.amapWriteId && writeId != spec.amapWriteId then none else some spec.oldAmapBlock

def MsgCmd.amapVerdict : MsgCmd → Nat → WriteSpec → Option (Option Block)
  | .pgdataSyncStart => amapCancelled
  | .pgdataSyncClientDone => amapValidated

def nodeHaAmapUpdate (verdict : Nat → WriteSpec → Option (Option Block)) (s : State) (target lba : Nat)
    (spec : WriteSpec) : State :=
  if spec.amapBlock = spec.oldAmapBlock then s
  else
    match nodeHaAmapLocate c s target lba with
    | (s, none) => s
    | (s, some a) =>
      match verdict a.writeId spec with
      | none => s
      | some block => s.setAmap (target, amapId lba) { a with entries := update a.entries lba block }

def nodeHaAmapValidate : State → Nat → Nat → WriteSpec → State := nodeHaAmapUpdate c amapValidated

def nodeHaAmapCancel : State → Nat → Nat → WriteSpec → State := nodeHaAmapUpdate c amapCancelled

/-- An index that is read in is counted up whatever its write id is. -/
def nodeHaIndexValidate (s : State) (spec : WriteSpec) : State :=
  match spec.amapBlock with
  | none => s
  | some b =>
    let (x, load) :=
      match s.indexes b.row with
      | some x => (x, false)
      | none => (c.indexLoad b.row (s.indexDisk b.row), true)
    if x.dataError then s.setIndex b.row x
    else if load || !writeIdGreater x.writeId spec.indexWriteId then
      s.setIndex b.row (bintLogReplay x b.entry (c.count b) false).1
    else s.setIndex b.row x

def processDeleteBlock (x : Index) (b : Block) : Index :=
  if (indexCheckLoad x).dataError then indexCheckLoad x
  else (bintFreeBlock (indexCheckLoad x) b.entry (c.count b)).index

def nodeHaIndexCancel (s : State) (spec : WriteSpec) : State :=
  match spec.amapBlock with
  | none => s
  | some b =>
    match s.indexes b.row with
    | none => s
    | some x =>
      if !writeIdGreater x.writeId spec.indexWriteId then s
      else s.setIndex b.row (processDeleteBlock c x b)

def checkLogs (target : Nat) : State → Nat → List WriteSpec → State
  | s, _, [] => s
  | s, lba, spec :: rest =>
    checkLogs target (nodeHaIndexValidate c (nodeHaAmapValidate c s target lba spec) spec) (lba + 1) rest

def cancelLogs (target : Nat) : State → Nat → List WriteSpec → State
  | s, _, [] => s
  | s, lba, spec :: rest =>
    cancelLogs target (nodeHaIndexCancel c (nodeHaAmapCancel c s target lba spec) spec) (lba + 1) rest

def nodeHaMsgCleanup (s : State) (msg : Msg) : State :=
  if !c.tdisk msg.targetId then s
  else
    match msg.msgCmd with
    | .pgdataSyncStart => cancelLogs c msg.targetId s msg.lba msg.specs
    | .pgdataSyncClientDone => checkLogs c msg.targetId s msg.lba msg.specs

def nodeHaHashCleanup (s : State) (hash : List Msg) : State := hash.foldl (nodeHaMsgCleanup c) s

structure Update where
  msgCmd : MsgCmd
  targetId : Nat
  lba : Nat
  spec : WriteSpec
  deriving DecidableEq, Repr

def updatesFrom (msgCmd : MsgCmd) (target : Nat) : Nat → List WriteSpec → List Update
  | _, [] => []
  | lba, spec :: rest => ⟨msgCmd, target, lba, spec⟩ :: updatesFrom msgCmd target (lba + 1) rest

def Msg.updates (msg : Msg) : List Update := updatesFrom msg.msgCmd msg.targetId msg.lba msg.specs

def handle (s : State) (u : Update) : State :=
  match u.msgCmd with
  | .pgdataSyncStart => nodeHaIndexCancel c (nodeHaAmapCancel c s u.targetId u.lba u.spec) u.spec
  | .pgdataSyncClientDone => nodeHaIndexValidate c (nodeHaAmapValidate c s u.targetId u.lba u.spec) u.spec

variable {c}

theorem foldl_updates {msg : Msg} (h : c.tdisk msg.targetId = true) :
    msg.updates.foldl (handle c) s = nodeHaMsgCleanup c s msg := by
  obtain ⟨msgCmd, target, lba, specs⟩ := msg
  simp only [nodeHaMsgCleanup, h, Bool.not_true, Bool.false_eq_true, if_false, Msg.updates]
  clear h
  cases msgCmd
  all_goals
    induction specs generalizing lba s with
    | nil => rfl
    | cons spec rest ih => exact ih (lba + 1)

theorem nodeHaHashCleanup_eq {hash : List Msg} (h : ∀ msg ∈ hash, c.tdisk msg.targetId = true) :
    nodeHaHashCleanup c s hash = (hash.flatMap Msg.updates).foldl (handle c) s := by
  induction hash generalizing s with
  | nil => rfl
  | cons msg rest ih =>
    have hrest := ih (s := nodeHaMsgCleanup c s msg) fun m hm => h m (List.mem_cons_of_mem _ hm)
    rw [List.flatMap_cons, List.foldl_append, foldl_updates (h msg List.mem_cons_self)]
    exact hrest

open Lib
open Fastlog (writeIdMax)

/-- The write id of a map or an index that was written `n` times -/
def serialId (n : Nat) : Nat := n % (writeIdMax - 1) + 1

structure PageWrite where
  amapBlock : Option Block
  oldAmapBlock : Option Block
  /-- how often the map was written before its entry was set -/
  amapAt : Nat
  /-- how often the index was written before the reference was taken -/
  indexAt : Nat
  /-- The page has an `index_info`; one that is copied by reference has none. -/
  indexInfo : Bool
  deriving DecidableEq, Repr

/-- The index write id that `node_pgdata_sync_start` puts into the message -/
def PageWrite.indexWriteId (w : PageWrite) : Nat := if w.indexInfo then serialId w.indexAt else 0

def PageWrite.spec (w : PageWrite) : WriteSpec :=
  ⟨w.amapBlock, w.oldAmapBlock, serialId w.amapAt, w.indexWriteId⟩

structure InFlight where
  clientDone : Bool
  targetId : Nat
  lba : Nat
  pages : List PageWrite
  deriving DecidableEq, Repr

def msgCmdOf (clientDone : Bool) : MsgCmd := if clientDone then .pgdataSyncClientDone else .pgdataSyncStart

def InFlight.msg (w : InFlight) : Msg := ⟨msgCmdOf w.clientDone, w.targetId, w.lba, w.pages.map PageWrite.spec⟩

structure Page where
  clientDone : Bool
  targetId : Nat
  lba : Nat
  write : PageWrite
  deriving DecidableEq, Repr

def Page.update (p : Page) : Update := ⟨msgCmdOf p.clientDone, p.targetId, p.lba, p.write.spec⟩

def Page.amapKey (p : Page) : Nat × Nat := (p.targetId, amapId p.lba)

def pagesFrom (clientDone : Bool) (target : Nat) : Nat → List PageWrite → List Page
  | _, [] => []
  | lba, w :: rest => ⟨clientDone, target, lba, w⟩ :: pagesFrom clientDone target (lba + 1) rest

def InFlight.pageList (w : InFlight) : List Page := pagesFrom w.clientDone w.targetId w.lba w.pages

def Page.covers (c : Config) (p : Page) (row : Row) (e : Nat) : Bool := c.covers p.write.amapBlock row e

/-- The image of a map: the one received by sync or else the one on disk -/
def State.amapImage (s : State) (key : Nat × Nat) : Option Amap := (s.amaps key).or (s.amapDisk key)

def State.indexImage (s : State) (row : Row) : Index := (s.indexes row).getD (s.indexDisk row)

def State.refs (s : State) (row : Row) (e : Nat) : Nat := refsOf ((s.indexImage row).bmap e)

def State.entry (s : State) (target lba : Nat) : Option Block :=
  (s.amapImage (target, amapId lba)).bind fun a => a.entries lba

structure Takeover (c : Config) where
  writes : List InFlight
  standby : State
  /-- how often a map had been given a new write id with its image -/
  amapAt : Nat × Nat → Nat
  /-- whether the image of its map has a page's entry; one that was written again with the id it had may have it or not -/
  amapHas : Page → Bool
  /-- how often an index had been written with its image -/
  indexAt : Row → Nat
  /-- the references that do not belong to a write in flight -/
  base : Row → Nat → Nat
  tdisk : ∀ w ∈ writes, c.tdisk w.targetId = true
  disjoint : (writes.flatMap InFlight.pageList).Pairwise fun p q => (p.targetId, p.lba) ≠ (q.targetId, q.lba)
  /-- A bitmap entry belongs to one block. -/
  oneBlock : ∀ p ∈ writes.flatMap InFlight.pageList, ∀ q ∈ writes.flatMap InFlight.pageList, ∀ row e,
    p.covers c row e = true → q.covers c row e = true → p.write.amapBlock = q.write.amapBlock
  nonempty : ∀ p ∈ writes.flatMap InFlight.pageList, ∀ b, p.write.amapBlock = some b → 0 < c.count b
  amap : ∀ p ∈ writes.flatMap InFlight.pageList, ∃ a, standby.amapImage p.amapKey = some a ∧ a.error = false ∧
    a.writeId = serialId (amapAt p.amapKey) ∧ a.entries p.lba = if amapHas p then p.write.amapBlock else p.write.oldAmapBlock
  has_of_lt : ∀ p ∈ writes.flatMap InFlight.pageList, p.write.amapAt < amapAt p.amapKey → amapHas p = true
  not_has_of_lt : ∀ p ∈ writes.flatMap InFlight.pageList, amapAt p.amapKey < p.write.amapAt → amapHas p = false
  index : ∀ p ∈ writes.flatMap InFlight.pageList, ∀ b, p.write.amapBlock = some b →
    (standby.indexImage b.row).dataError = false ∧
    (standby.indexImage b.row).writeId = serialId (indexAt b.row) ∧
    ∀ e, standby.refs b.row e = base b.row e + (writes.flatMap InFlight.pageList).countP
      fun q => q.covers c b.row e && decide (q.write.indexAt < indexAt b.row)
  uniform : ∀ p ∈ writes.flatMap InFlight.pageList, ∀ row e e', p.covers c row e = true →
    p.covers c row e' = true → base row e = base row e'
  fits : ∀ row e, base row e + (writes.flatMap InFlight.pageList).countP (fun q => q.covers c row e) ≤ maxRefs

namespace Takeover

variable (t : Takeover c)

def pages : List Page := t.writes.flatMap InFlight.pageList

def indexHas (p : Page) : Bool :=
  match p.write.amapBlock with
  | none => false
  | some b => decide (p.write.indexAt < t.indexAt b.row)

def before (k : Nat) : State := Sweep.before (handle c) t.standby (t.pages.map Page.update) k

def after : State := nodeHaHashCleanup c t.standby (t.writes.map InFlight.msg)

/-- How often the reference of page `k` is counted in an entry: once if the image has it, and what the
clean-up does for this page -/
def counted (k : Nat) (p : Page) (row : Row) (e : Nat) : Int :=
  (if t.indexHas p then 1 else 0) + ((t.before (k + 1)).refs row e - (t.before k).refs row e)

structure Resolved : Prop where
  maps : ∀ p ∈ t.pages, t.after.entry p.targetId p.lba =
    if p.clientDone then p.write.amapBlock else p.write.oldAmapBlock
  references : ∀ k p, t.pages[k]? = some p → ∀ row e, p.covers c row e = true →
    t.counted k p row e = if p.clientDone then 1 else 0
  /-- The counts are those without the writes in flight and one for each page that is done. -/
  counts : ∀ p ∈ t.pages, ∀ row e, p.covers c row e = true →
    t.after.refs row e = t.base row e + t.pages.countP fun q => q.covers c row e && q.clientDone

/-- The write id the clean-up compares with that of a page's map -/
def amapWriteId (p : Page) : Nat :=
  if (t.standby.amaps p.amapKey).isSome || c.v2Tdisk p.targetId then serialId (t.amapAt p.amapKey) else 1

def indexWriteId (row : Row) : Nat :=
  if (t.standby.indexes row).isSome || c.v2Disk row.1 then serialId (t.indexAt row) else 1

/-- The index is in memory when page `k` is handled: it was received by sync, or an answered page before has
read it in. -/
def inMemory (k : Nat) (row : Row) : Bool :=
  (t.standby.indexes row).isSome ||
    (t.pages.take k).any fun q => q.clientDone && decide (q.write.amapBlock.map Block.row = some row)

/-- The clean-up takes the image of the index to have the reference of page `k`. -/
def seen (k : Nat) (p : Page) : Bool :=
  match p.write.amapBlock with
  | none => false
  | some b => t.inMemory k b.row && writeIdGreater (t.indexWriteId b.row) p.write.indexWriteId

def countAt (k : Nat) (row : Row) (e : Nat) : Nat :=
  t.base row e + (t.pages.take k).countP (fun q => q.covers c row e && q.clientDone) +
    (t.pages.drop k).countP fun q => q.covers c row e && t.indexHas q

/-- The map of a page tells by its write id whether it has the entry, or the entry is set in any case. -/
def MapTold (p : Page) : Prop :=
  p.write.amapBlock = p.write.oldAmapBlock ∨
    if p.clientDone then writeIdGreater (t.amapWriteId p) (serialId p.write.amapAt) = true → t.amapHas p = true
    else writeIdGreater (t.amapWriteId p) (serialId p.write.amapAt) = false → t.amapWriteId p ≠ serialId p.write.amapAt →
      t.amapHas p = false

/-- The index of a page tells whether it has the reference, or is not asked: the count is full, or nothing is to be
given back. -/
def RefTold (k : Nat) (p : Page) : Prop :=
  ∀ row e, p.covers c row e = true → t.seen k p = t.indexHas p ∨
    if p.clientDone then t.indexHas p = true ∧ t.countAt k row e = maxRefs
    else t.indexHas p = false ∧ t.countAt k row e = 0

structure Told : Prop where
  maps : ∀ p ∈ t.pages, t.MapTold p
  references : ∀ k p, t.pages[k]? = some p → t.RefTold k p

end Takeover

end QuadStor.HaCleanup
