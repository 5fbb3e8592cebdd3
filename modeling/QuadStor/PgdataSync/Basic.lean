import QuadStor.HaCleanup.Basic

/-!
# Writes on a master with a standby

`__tdisk_cmd_write` tells the standby when it has updated the maps, when its client is answered, and when all is on
disk.
-/

namespace QuadStor.PgdataSync

open Lib DDTable HaCleanup Function
open Bint (Index)
open Fastlog (writeIdGreater amapWriteId writeIdMax)
open Replay (Amap)

inductive Kind where
  | write
  | compareAndWrite
  | writeSame
  | unmap
  | extendedCopy
  | writeUsingToken
  deriving DecidableEq, Repr

/-- `sendstatus` in the command's calls of `__tdisk_cmd_write` -/
def Kind.sendstatus : Kind → Bool
  | .write | .compareAndWrite => true
  | .writeSame | .unmap | .extendedCopy | .writeUsingToken => false

inductive Phase where
  /-- after `scan_write_data`: the pages are locked, their maps have a writer -/
  | scanned
  /-- after `pgdata_amap_io` -/
  | updated
  /-- after `node_pgdata_sync_start` -/
  | started
  /-- after `node_pgdata_sync_client_done` -/
  | clientDone
  /-- after `pgdata_post_write`: the pages are unlocked, the rest is left to a thread of `ddthread.c` -/
  | posted
  /-- after the old blocks have been given up -/
  | deleted
  /-- after `node_pgdata_sync_complete` -/
  | completed
  /-- after `pgdata_cancel` in `tdisk_write_error` -/
  | cancelled
  /-- after `tdisk_write_error` -/
  | failed
  deriving DecidableEq, Repr

/-- `__tdisk_cmd_write` has returned 0. -/
def Phase.succeeded : Phase → Bool
  | .posted | .deleted | .completed => true
  | _ => false

def Phase.failing : Phase → Bool
  | .cancelled | .failed => true
  | _ => false

def Phase.unlocked (phase : Phase) : Bool := phase.succeeded || phase == .failed

def Phase.complete : Phase → Phase
  | .cancelled => .failed
  | _ => .completed

/-- Where the reference of a page comes from -/
inductive Origin where
  | allocated
  /-- a block of the dedupe table; `DDBLOCK_ENTRY_DONE_ALLOC` is not set -/
  | duplicate
  /-- `tdisk_add_block_ref`, which sets no `index_info` -/
  | byRef
  deriving DecidableEq, Repr

structure Call where
  cmd : Nat
  targetId : Nat
  lba : Nat
  blocks : List (Option Block)
  origin : Nat → Origin
  /-- not in the source: how often the index of a page had been written when its reference was taken, and when it was
  given back -/
  taken : Nat → Nat
  released : Nat → Option Nat
  phase : Phase
  specs : List WriteSpec
  /-- the maps that `pgdata_amap_io` finds with `AMAP_META_DATA_NEW` -/
  metaNew : Nat × Nat → Bool
  /-- `transaction_id` is not 0: the start message was answered -/
  transaction : Bool
  /-- the maps whose `amap_end_writes` has been called -/
  ended : Nat × Nat → Bool
  /-- the maps whose waiter has `IOWAITER_DONE_IO` -/
  doneIo : Nat × Nat → Bool
  disabling : Bool

def Call.keys (call : Call) : List (Nat × Nat) :=
  (List.range call.blocks.length).map fun i => (call.targetId, amapId (call.lba + i))

/-- The call has changed the map when that had this write id. -/
def Call.HasUpdate (call : Call) (key : Nat × Nat) (w : Nat) : Prop :=
  ∃ i spec, call.specs[i]? = some spec ∧ spec.amapBlock ≠ spec.oldAmapBlock ∧
    key = (call.targetId, amapId (call.lba + i)) ∧ w = spec.amapWriteId

def Call.Has (call : Call) (target lba : Nat) : Prop :=
  target = call.targetId ∧ call.lba ≤ lba ∧ lba < call.lba + call.blocks.length

/-- The index write id that `node_pgdata_sync_start` puts into the message -/
def Call.indexWriteId (call : Call) (i : Nat) : Nat :=
  if (call.blocks.getD i none).isNone || call.origin i == .byRef then 0 else serialId (call.taken i)

/-- The pages in the map that have `PGDATA_DONE_AMAP_UPDATE` -/
def Call.updates (call : Call) (key : Nat × Nat) : List (WriteSpec × Nat) :=
  call.specs.zipIdx.filter fun (spec, i) =>
    (call.targetId, amapId (call.lba + i)) == key && (spec.amapBlock.isSome || spec.oldAmapBlock.isSome)

/-- The map is in `nowrites_amap_sync_list`. -/
def Call.nowrites (call : Call) (key : Nat × Nat) : Bool := !call.metaNew key && (call.updates key).isEmpty

def overlaps (target lba n target' lba' n' : Nat) : Bool :=
  decide (target = target' ∧ lba < lba' + n' ∧ lba' < lba + n)

structure Config where
  cleanup : HaCleanup.Config
  kind : Nat → Kind

/-- A message in `node_ha_hash`, with the number of its call -/
structure Record where
  txn : Nat
  msg : Msg

structure State where
  /-- the calls in the order in which they got their lock -/
  calls : Nat → Option Call
  next : Nat
  good : Nat → Bool
  entry : Nat → Nat → Option Block
  writeId : Nat × Nat → Nat
  /-- the references in the indexes -/
  refs : Row → Nat → Nat
  /-- how often an index has been written, and how often it had been with the image in the standby's memory -/
  indexAt : Row → Nat
  memAt : Row → Nat
  syncError : Bool
  /-- `node_ha_disable` has written the record -/
  haDisabled : Bool
  hash : List Record
  standby : HaCleanup.State

def State.setCall (s : State) (k : Nat) (call : Call) : State :=
  { s with calls := update s.calls k (some call) }

/-- What becomes of a message: it is answered, it does not arrive, or it arrives and is not answered. -/
inductive Net where
  | ok
  | lost
  | noReply
  deriving DecidableEq, Repr

def Net.delivered : Net → Bool
  | .lost => false
  | _ => true

/-- `node_sync_disable` up to the write of the record -/
def State.disable (s : State) (k : Nat) : State :=
  { s with
    syncError := true
    calls := update s.calls k ((s.calls k).map fun call => { call with disabling := true }) }

/-- `node_sync_send_page`, for a thread of call `k` -/
def State.send (s : State) (k : Nat) (net : Net) (receive : State → State) : State :=
  let s := if net.delivered then receive s else s
  if net = .ok then s else s.disable k

def State.onCall (s : State) (k : Nat) (guard : Call → Bool) (f : Call → State) : Option State :=
  match s.calls k with
  | none => none
  | some call => if guard call && (!call.disabling || s.haDisabled) then some (f call) else none

def State.allCalls (s : State) (f : Call → Bool) : Bool :=
  (List.range s.next).all fun j => (s.calls j).all f

variable (c : Config)

/-- The command has no status yet, its thread is between two calls, and `tdisk_lba_write_setup` finds the pages
unlocked. -/
def State.mayScan (s : State) (cmd target lba : Nat) (blocks : List (Option Block)) : Bool :=
  !s.good cmd &&
  s.allCalls (fun call => call.cmd != cmd || !(c.kind cmd).sendstatus && call.phase.succeeded) &&
  s.allCalls fun call =>
    call.phase.unlocked || !overlaps call.targetId call.lba call.blocks.length target lba blocks.length

def State.writesOf (s : State) (blocks : List (Option Block)) (i : Nat) : Nat :=
  (blocks.getD i none).elim 0 fun b => s.indexAt b.row

def references (blocks : List (Option Block)) (row : Row) (e : Nat) : Nat := blocks.countP (c.cleanup.covers · row e)

def State.scan (s : State) (cmd target lba : Nat) (blocks : List (Option Block)) (origin : Nat → Origin) : State :=
  { s with
    calls := update s.calls s.next (some
      { cmd, targetId := target, lba, blocks, origin, taken := s.writesOf blocks, released := fun _ => none
        phase := .scanned, specs := [], metaNew := fun _ => false, transaction := false
        ended := fun _ => false, doneIo := fun _ => false, disabling := false })
    refs := fun row e => s.refs row e + references c blocks row e
    next := s.next + 1 }

/-- What `__pgdata_amap_io` leaves in a page for `node_pgdata_sync_start` -/
def State.specOf (s : State) (target lba : Nat) (block : Option Block) (indexWriteId : Nat) : WriteSpec :=
  if s.entry target lba = none ∧ block = none then ⟨none, none, 0, indexWriteId⟩
  else ⟨block, s.entry target lba, s.writeId (target, amapId lba), indexWriteId⟩

def State.pgdataAmapIo (s : State) (k : Nat) (call : Call) (metaNew : Nat × Nat → Bool) : State :=
  { s.setCall k { call with
      phase := .updated
      metaNew
      specs := call.blocks.mapIdx fun i block => s.specOf call.targetId (call.lba + i) block (call.indexWriteId i) } with
    entry := fun target lba =>
      if target = call.targetId ∧ call.lba ≤ lba ∧ lba < call.lba + call.blocks.length then
        call.blocks.getD (lba - call.lba) none
      else s.entry target lba }

def State.startRecv (s : State) (k : Nat) (call : Call) : State :=
  { s with hash := ⟨k, ⟨.pgdataSyncStart, call.targetId, call.lba, call.specs⟩⟩ :: s.hash }

def State.nodePgdataSyncStart (s : State) (k : Nat) (call : Call) (net : Net) : State :=
  if s.syncError then s.setCall k { call with phase := .started }
  else (s.setCall k { call with phase := .started, transaction := net == .ok }).send k net (·.startRecv k call)

/-- The end of `node_amap_sync_recv`; `amap_create` makes an empty map with write id 0. -/
def nodeAmapSyncRecv (s : HaCleanup.State) (key : Nat × Nat) (image : Amap) : HaCleanup.State :=
  let a := (s.amaps key).getD ⟨0, false, fun _ => none⟩
  if writeIdGreater a.writeId image.writeId then s.setAmap key a else s.setAmap key image

def State.pending (s : State) (key : Nat × Nat) : Bool :=
  !s.allCalls fun call => !call.keys.contains key || call.ended key

def Call.mark (key : Nat × Nat) (call : Call) : Call :=
  if call.ended key then { call with doneIo := update call.doneIo key true } else call

/-- The id that the last writer gives the map; the list of `pgdata_cancel` has `WRITE_ID_MAX`. -/
def State.nextId (s : State) (call : Call) (key : Nat × Nat) (skip : Nat) : Nat :=
  amapWriteId (c.cleanup.v2Tdisk key.1) (if call.phase = .cancelled then writeIdMax else 0) skip (s.writeId key)

/-- `amap_io` with its `node_amap_sync_send` -/
def State.amapIo (s : State) (k : Nat) (key : Nat × Nat) (id : Nat) (net : Net) : State :=
  let t : State :=
    { s with
      writeId := update s.writeId key id
      calls := fun j => (s.calls j).map (Call.mark key) }
  if s.syncError then t
  else
    t.send k net fun u =>
      { u with standby := nodeAmapSyncRecv u.standby key ⟨id, false, fun lba => s.entry key.1 lba⟩ }

/-- `amap_end_writes` sets the call's mark; the last writer writes the map. -/
def State.endWrites (s : State) (k : Nat) (call : Call) (key : Nat × Nat) : State :=
  s.setCall k { call with ended := update call.ended key true }

def State.amapEndWrites (s : State) (k : Nat) (call : Call) (key : Nat × Nat) (skip : Nat) (net : Net) : State :=
  let s := s.endWrites k call key
  if s.pending key then s else s.amapIo k key (s.nextId c call key skip) net

/-- `AMAP_META_IO_NEEDED`: a call that has ended its write waits for the map. -/
def State.ioNeeded (s : State) (key : Nat × Nat) : Bool :=
  !s.allCalls fun call => !call.keys.contains key || !call.ended key || call.doneIo key

/-- `amap_sync_list_free_error` takes the waiter away; the last writer writes the map only if another one needs it. -/
def State.amapEndWritesNoio (s : State) (k : Nat) (call : Call) (key : Nat × Nat) (skip : Nat) (net : Net) : State :=
  let s := s.setCall k { call with
    ended := update call.ended key true, doneIo := update call.doneIo key true }
  if s.pending key || !s.ioNeeded key then s else s.amapIo k key (s.nextId c call key skip) net

/-- `node_bintindex_sync_recv`; an index that is made for the message has write id 0. -/
def State.nodeBintindexSyncRecv (s : State) (row : Row) (image : Index) (n : Nat) : State :=
  if writeIdGreater ((s.standby.indexes row).map Index.writeId |>.getD 0) image.writeId then s
  else { s with standby := s.standby.setIndex row image, memAt := update s.memAt row n }

/-- `subgroup_write_io` for one index, with its `node_bintindex_sync_send`. The nodes share the disks. -/
def State.subgroupWriteIo (s : State) (k : Nat) (row : Row) (net : Net) : State :=
  let n := s.indexAt row + 1
  let image : Index := { Index.new with bmap := s.refs row, writeId := serialId n, loadDone := false }
  let t : State := { s with
    indexAt := update s.indexAt row n
    standby := { s.standby with indexDisk := update s.standby.indexDisk row image } }
  if s.syncError then t else t.send k net (·.nodeBintindexSyncRecv row image n)

/-- The number of writes of the index with the image that the standby goes by -/
def State.imageAt (s : State) (row : Row) : Nat :=
  if (s.standby.indexes row).isSome then s.memAt row else s.indexAt row

/-- `node_pgdata_sync_client_done_recv` with the message it has found -/
def State.clientDoneRecv (s : State) (k : Nat) (r : Record) : State :=
  { s with
    hash := { r with msg := { r.msg with msgCmd := .pgdataSyncClientDone } } :: s.hash.eraseP fun r => r.txn == k }

/-- A message the standby does not find is answered with an error. -/
def State.nodePgdataSyncClientDone (s : State) (k : Nat) (call : Call) (net : Net) : State :=
  let t := s.setCall k { call with phase := .clientDone }
  if !call.transaction || s.syncError then t
  else
    match s.hash.find? fun r => r.txn == k with
    | none => t.disable k
    | some r => t.send k net (·.clientDoneRecv k r)

def State.nodePgdataSyncComplete (s : State) (k : Nat) (call : Call) (net : Net) : State :=
  let t := s.setCall k { call with phase := call.phase.complete }
  if !call.transaction || s.syncError then t
  else
    match s.hash.find? fun r => r.txn == k with
    | none => t.disable k
    | some _ => t.send k net fun u => { u with hash := u.hash.eraseP fun r => r.txn == k }

/-- The loop over `process_delete_block` in `ddthread_handle_ddwork` -/
def State.deleteOld (s : State) (k : Nat) (call : Call) : State :=
  { s.setCall k { call with phase := .deleted } with
    refs := fun row e => s.refs row e - references c (call.specs.map WriteSpec.oldAmapBlock) row e }

/-- `pgdata_cancel` puts the map into its own list: it has been written since. -/
def State.rewrites (s : State) (call : Call) (key : Nat × Nat) : Bool :=
  (call.updates key).any fun (spec, i) => s.entry call.targetId (call.lba + i) == spec.amapBlock &&
    writeIdGreater (s.writeId key) spec.amapWriteId

/-- The reference of the page is given back. -/
def State.gives (s : State) (call : Call) (i : Nat) : Bool :=
  s.entry call.targetId (call.lba + i) == call.blocks.getD i none && call.origin i != .duplicate

def State.cancelled (s : State) (call : Call) : Call :=
  { call with
    phase := .cancelled
    released := fun i =>
      if s.gives call i then some (s.writesOf call.blocks i) else none
    ended := fun key => call.ended key && !s.rewrites call key
    doneIo := fun key => call.doneIo key && !s.rewrites call key }

def State.pgdataCancel (s : State) (k : Nat) (call : Call) : State :=
  { s.setCall k (s.cancelled call) with
    entry := fun target lba =>
      if target = call.targetId ∧ call.lba ≤ lba then
        match call.specs[lba - call.lba]? with
        | some spec => if s.entry target lba = spec.amapBlock then spec.oldAmapBlock else s.entry target lba
        | none => s.entry target lba
      else s.entry target lba
    refs := fun row e => s.refs row e - references c (call.blocks.mapIdx fun i block =>
      if s.gives call i then block else none) row e }

def State.answer (s : State) (cmd : Nat) : State := { s with good := update s.good cmd true }

/-- `sync_amap_list_pre` is over. -/
def Call.allEnded (call : Call) : Bool := call.keys.all call.ended

/-- `sync_amap_list_post` does not wait. -/
def Call.allDoneIo (call : Call) : Bool := call.keys.all call.doneIo

inductive Action where
  | scan (cmd target lba : Nat) (blocks : List (Option Block)) (origin : Nat → Origin)
  | pgdataAmapIo (k : Nat) (metaNew : Nat × Nat → Bool)
  | syncStart (k : Nat) (net : Net)
  | amapEndWrites (k : Nat) (key : Nat × Nat) (skip : Nat) (net : Net)
  | amapEndWritesNoio (k : Nat) (key : Nat × Nat) (skip : Nat) (net : Net)
  | clientDone (k : Nat) (net : Net)
  /-- the status of a call with `sendstatus` -/
  | sendStatus (k : Nat)
  | postWrite (k : Nat)
  | deleteOld (k : Nat)
  /-- `tdisk_mirror_write_done_pre` fails -/
  | pgdataCancel (k : Nat)
  | syncComplete (k : Nat) (net : Net)
  /-- the status of a command whose calls are without -/
  | answer (cmd : Nat)
  | haDisable
  /-- the standby drops a map that is on disk -/
  | dropAmap (key : Nat × Nat)
  | subgroupWriteIo (k : Nat) (row : Row) (net : Net)
  /-- the standby drops an index -/
  | dropIndex (row : Row)

def exec (s : State) : Action → Option State
  | .scan cmd target lba blocks origin =>
    if s.mayScan c cmd target lba blocks then some (s.scan c cmd target lba blocks origin) else none
  | .pgdataAmapIo k metaNew => s.onCall k (·.phase == .scanned) fun call => s.pgdataAmapIo k call metaNew
  | .syncStart k net => s.onCall k (·.phase == .updated) fun call => s.nodePgdataSyncStart k call net
  | .amapEndWrites k key skip net =>
    s.onCall k (fun call => (call.phase == .started && !call.nowrites key || call.phase == .cancelled) &&
        call.keys.contains key && !call.ended key && decide (0 < skip))
      fun call => s.amapEndWrites c k call key skip net
  | .amapEndWritesNoio k key skip net =>
    s.onCall k (fun call => call.phase == .started && call.nowrites key && call.keys.contains key &&
        !call.ended key && decide (0 < skip))
      fun call => s.amapEndWritesNoio c k call key skip net
  | .clientDone k net =>
    s.onCall k (fun call => call.phase == .started && (c.kind call.cmd).sendstatus && call.allEnded)
      fun call => s.nodePgdataSyncClientDone k call net
  | .sendStatus k =>
    s.onCall k (fun call => (call.phase == .clientDone || call.phase.succeeded) && (c.kind call.cmd).sendstatus)
      fun call => s.answer call.cmd
  | .postWrite k =>
    s.onCall k (fun call => (call.phase == .clientDone ||
        call.phase == .started && !(c.kind call.cmd).sendstatus && call.allEnded) && call.allDoneIo)
      fun call => s.setCall k { call with phase := .posted }
  | .deleteOld k => s.onCall k (·.phase == .posted) fun call => s.deleteOld c k call
  | .pgdataCancel k =>
    s.onCall k (fun call => call.phase == .started && call.allEnded) fun call => s.pgdataCancel c k call
  | .syncComplete k net =>
    s.onCall k (fun call => call.phase == .deleted || call.phase == .cancelled && call.allDoneIo)
      fun call => s.nodePgdataSyncComplete k call net
  | .answer cmd =>
    if !(c.kind cmd).sendstatus && s.allCalls fun call => call.cmd != cmd || call.phase.succeeded then
      some (s.answer cmd)
    else none
  | .haDisable => if s.syncError then some { s with haDisabled := true } else none
  | .dropAmap key =>
    match s.standby.amaps key with
    | none => none
    | some a => some { s with standby := { s.standby with
        amaps := update s.standby.amaps key none
        amapDisk := update s.standby.amapDisk key (some a) } }
  | .subgroupWriteIo k row net => s.onCall k (fun _ => true) fun _ => s.subgroupWriteIo k row net
  | .dropIndex row =>
    some { s with standby := { s.standby with indexes := update s.standby.indexes row none } }

structure State.Init (s : State) : Prop where
  calls : ∀ k, s.calls k = none
  good : ∀ cmd, s.good cmd = false
  hash : s.hash = []
  syncError : s.syncError = false
  haDisabled : s.haDisabled = false
  image : ∀ row x, s.standby.indexes row = some x → x.writeId = serialId (s.memAt row) ∧ s.memAt row = s.indexAt row
  disk : ∀ row, (s.standby.indexDisk row).writeId = serialId (s.indexAt row)

def system : System State Action where
  init := State.Init
  step s a t := exec c s a = some t

def Sets (s : HaCleanup.State) (u : Update) : Prop :=
  u.spec.amapBlock ≠ u.spec.oldAmapBlock ∧ ∃ a, (nodeHaAmapLocate c.cleanup s u.targetId u.lba).2 = some a ∧
    (u.msgCmd.amapVerdict a.writeId u.spec).isSome

/-- The clean-up gives back the reference of the page's new block. -/
def Drops (s : HaCleanup.State) (u : Update) : Prop :=
  u.msgCmd = .pgdataSyncStart ∧ ∃ b x, u.spec.amapBlock = some b ∧ s.indexes b.row = some x ∧
    writeIdGreater x.writeId u.spec.indexWriteId = true

def pagesOf (hash : List Record) : List (Nat × Update) :=
  hash.flatMap fun r => r.msg.updates.map fun u => (r.txn, u)

def handlePage (s : HaCleanup.State) (p : Nat × Update) : HaCleanup.State := handle c.cleanup s p.2

/-- The index as the standby has it counts the reference of a page of call `n`: it was written after the reference was
taken, and not after it was given back. -/
def State.Counted (s : State) (n : Nat) (u : Update) : Prop :=
  ∃ call b, s.calls n = some call ∧ u.spec.amapBlock = some b ∧ call.taken (u.lba - call.lba) < s.imageAt b.row ∧
    ∀ released, call.released (u.lba - call.lba) = some released → s.imageAt b.row ≤ released

/-- With its messages in this order, the clean-up undoes a page of the command: it sets the entry back to the old block
of its own call or of a call before it, or gives back the reference of its own call, or takes one of the references
to its block for a page whose reference is not counted. -/
def State.UndoneIn (s : State) (hash : List Record) (cmd : Nat) : Prop :=
  ∃ i n u m call, (pagesOf hash)[i]? = some (n, u) ∧ s.calls m = some call ∧ call.cmd = cmd ∧
    (call.Has u.targetId u.lba ∧ Sets c (Sweep.before (handlePage c) s.standby (pagesOf hash) i) u ∧
        (n < m ∨ n = m ∧ u.msgCmd = .pgdataSyncStart) ∨
      Drops (Sweep.before (handlePage c) s.standby (pagesOf hash) i) u ∧
        (n = m ∨ u.spec.amapBlock ∈ call.blocks ∧ ¬s.Counted n u))

def State.Undone (s : State) (cmd : Nat) : Prop := ∃ hash, hash.Perm s.hash ∧ s.UndoneIn c hash cmd

/-- No message on the standby is of a failing call that has a block of the command. -/
def State.Unshared (s : State) (cmd : Nat) : Prop :=
  ∀ r ∈ s.hash, ∀ call, s.calls r.txn = some call → call.phase.failing = true →
    ∀ m call', s.calls m = some call' → call'.cmd = cmd → ∀ b, some b ∈ call.blocks → some b ∉ call'.blocks

/-- The id does not wrap, the standby takes the image, and an image with the id of the last one has no later update. -/
structure State.Taken (s : State) (key : Nat × Nat) (id : Nat) (net : Net) : Prop where
  le : s.writeId key ≤ id
  taken : s.syncError = false → net.delivered = true →
    writeIdGreater ((s.standby.amaps key).map Amap.writeId |>.getD 0) id = false
  again : id = s.writeId key → ∀ n call w, s.calls n = some call → call.HasUpdate key w → w < id

def Allowed (s : State) : Action → Prop
  | .scan _ target lba blocks _ => ∀ r ∈ s.hash, r.msg.msgCmd = .pgdataSyncStart →
      overlaps r.msg.targetId r.msg.lba r.msg.specs.length target lba blocks.length = false
  | .syncStart k net => s.syncError = false → net.delivered = true → ∀ call, s.calls k = some call →
      ∀ i b, call.blocks[i]? = some (some b) →
        ((s.standby.indexes b.row).isSome = true ∨ c.cleanup.v2Disk b.row.1 = true) ∧
        (call.origin i = .byRef → call.taken i < s.imageAt b.row)
  | .amapEndWrites k key skip net => ∀ call, s.calls k = some call → (s.endWrites k call key).pending key = false →
      s.Taken key (s.nextId c call key skip) net
  | .amapEndWritesNoio k key skip net => ∀ call, s.calls k = some call → s.Taken key (s.nextId c call key skip) net
  | .subgroupWriteIo _ row net => s.syncError = false → net.delivered = true →
      writeIdGreater ((s.standby.indexes row).map Index.writeId |>.getD 0) (serialId (s.indexAt row + 1)) = false
  | .sendStatus _ => s.syncError = true → s.haDisabled = true
  | .answer cmd => (s.syncError = true → s.haDisabled = true) ∧
      ∀ r ∈ s.hash, ∀ call, s.calls r.txn = some call → call.cmd = cmd → r.msg.msgCmd = .pgdataSyncClientDone
  | .dropAmap key => c.cleanup.v2Tdisk key.1 = true
  | .dropIndex row => c.cleanup.v2Disk row.1 = true
  | _ => True

end QuadStor.PgdataSync
