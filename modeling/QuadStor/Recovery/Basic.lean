import QuadStor.Replay.Basic
import QuadStor.WriteLog

/-!
# Starting and stopping a group

A group that starts replays its log, unless the flag `log_write` of the master disk says that there is nothing to
replay, and then empties the log pages.
-/

namespace QuadStor.Recovery

open Lib
open Replay (World LogEntry Config Run logEntriesReplay)

structure LogPage where
  /-- `transaction_start`; 0 if the page is not in use -/
  start : Nat
  entries : List LogEntry
  deriving DecidableEq, Repr

structure Disks where
  /-- `log_write` in the block of the master disk -/
  logWrite : Bool
  page : Nat → Nat → LogPage
  world : World

variable (disks : List Nat)

def Disks.pages (d : Disks) : List LogPage :=
  disks.flatMap fun bid => (List.range maxLogPages).map (d.page bid)

def Disks.log (d : Disks) : List LogEntry := (checkWriteLogs LogPage.start (d.pages disks)).flatMap LogPage.entries

def Disks.resetPage (d : Disks) (bid i : Nat) : Disks :=
  { d with page := Function.update d.page bid (Function.update (d.page bid) i ⟨0, []⟩) }

inductive Phase where
  | down
  | loaded
  /-- in `log_entries_replay` of `log`, from disk `w` on -/
  | replaying (w : World) (log : List LogEntry) (r : Run)
  /-- in `bdev_reset_write_logs`: before `log_write` is set, before it is synced, while the pages left to do
  are emptied, before `log_write` is synced again -/
  | resetStart
  | resetSync
  | resetting (todo : List (Nat × List Nat))
  | resetEnd
  | up
  | failed

/-- How far the effects of the valid entries are on disk; not in the source -/
inductive Progress where
  | pending
  | finished
  /-- all of them were replayed, from disk `w` on -/
  | replayed (w : World)

structure State where
  disk : Disks
  phase : Phase
  /-- `log_write`, `in_log_replay` and `BINT_IO_PENDING` of the master disk in memory -/
  logWrite : Bool
  inLogReplay : Bool
  ioPending : Bool
  /-- the entries that were valid when the group was up last; not in the source -/
  valid : List LogEntry
  progress : Progress

namespace State

def bintSync (s : State) : State :=
  if s.ioPending then { s with disk := { s.disk with logWrite := s.logWrite }, ioPending := false } else s

variable (c : Config)

def EffectsOnDisk (s : State) : Prop :=
  s.valid = [] ∨ match s.progress with
    | .pending => False
    | .finished => True
    | .replayed w => s.disk.world = logEntriesReplay c w s.valid

end State

inductive Action where
  | load
  /-- the free space or a count of the master disk changes -/
  | touch
  | syncThread
  | check
  | replay (a : Replay.Action)
  | replayed
  /-- a disk is missing, a checksum does not match, or a transfer fails -/
  | fail
  /-- the steps of `bdev_reset_write_logs` -/
  | setLogWrite
  | syncSet
  | resetPage (i : Nat)
  | nextDisk
  | clearLogWrite
  | syncCleared
  /-- the group is in use: the log and what it is for change; `finished` if no transaction is open -/
  | write (page : Nat → Nat → LogPage) (world : World) (finished : Bool)
  /-- `bdev_finalize`, when all transactions are completed -/
  | shutdown
  | crash

namespace State

variable (c : Config) (s : State)

def allowed : Action → Prop
  | .load => match s.phase with | .down => True | _ => False
  | .touch | .syncThread | .crash => match s.phase with | .down => False | _ => True
  | .check => match s.phase with | .loaded => True | _ => False
  | .replay a => match s.phase with | .replaying _ _ r => a.Allowed r | _ => False
  | .replayed => match s.phase with | .replaying _ _ r => r.Complete | _ => False
  | .fail => match s.phase with | .down | .up => False | _ => True
  | .setLogWrite => match s.phase with | .resetStart => True | _ => False
  | .syncSet => match s.phase with | .resetSync => True | _ => False
  | .resetPage i => match s.phase with | .resetting ((_, left) :: _) => i ∈ left | _ => False
  | .nextDisk => match s.phase with | .resetting ((_, []) :: _) => True | _ => False
  | .clearLogWrite => match s.phase with | .resetting [] => True | _ => False
  | .syncCleared => match s.phase with | .resetEnd => True | _ => False
  | .write _ _ _ => match s.phase with | .up => True | _ => False
  | .shutdown =>
    match s.phase, s.progress with
    | .up, .finished | .failed, _ => True
    | _, _ => False

def run : Action → State
  | .load =>
    { s with phase := .loaded, logWrite := s.disk.logWrite, inLogReplay := !s.disk.logWrite, ioPending := false }
  | .touch => { s with ioPending := true }
  | .syncThread => s.bintSync
  | .check =>
    if s.logWrite then { s with phase := .resetStart }
    else if (checkWriteLogs LogPage.start (s.disk.pages disks)).isEmpty then { s with phase := .resetStart }
    else
      { s with
        phase := .replaying s.disk.world (s.disk.log disks) (.start s.disk.world (s.disk.log disks))
        progress := .pending }
  | .replay a =>
    match s.phase with
    | .replaying w log r =>
      { s with phase := .replaying w log (r.run c a), disk := { s.disk with world := (r.run c a).disk } }
    | _ => s
  | .replayed =>
    match s.phase with
    | .replaying w log _ =>
      { s with phase := .resetStart, progress := if log = s.valid then .replayed w else .pending }
    | _ => s
  | .fail => { s with phase := .failed }
  | .setLogWrite => { s with phase := .resetSync, logWrite := true, inLogReplay := false }
  | .syncSet => { s.bintSync with phase := .resetting (disks.map fun bid => (bid, List.range maxLogPages)) }
  | .resetPage i =>
    match s.phase with
    | .resetting ((bid, left) :: rest) =>
      { s with phase := .resetting ((bid, left.erase i) :: rest), disk := s.disk.resetPage bid i }
    | _ => s
  | .nextDisk =>
    match s.phase with
    | .resetting (_ :: rest) => { s with phase := .resetting rest }
    | _ => s
  | .clearLogWrite => { s with phase := .resetEnd, logWrite := false }
  | .syncCleared =>
    { s.bintSync with phase := .up, valid := s.disk.log disks, progress := .finished }
  | .write page world finished =>
    { s with
      disk := { s.disk with page, world }
      valid := { s.disk with page }.log disks
      progress := if finished then .finished else .pending }
  | .shutdown =>
    if s.inLogReplay then { s.bintSync with phase := .down }
    else { s with phase := .down, logWrite := true, ioPending := false, disk := { s.disk with logWrite := true } }
  | .crash => { s with phase := .down }

/-- When the reset syncs `log_write`, the master disk is marked as changed or has the value already. -/
def Writes (s : State) : Action → Prop
  | .syncSet | .syncCleared => s.ioPending = true ∨ s.disk.logWrite = s.logWrite
  | _ => True

end State

def system (c : Config) : System State Action where
  init s :=
    s.phase = .down ∧ s.valid = s.disk.log disks ∧ (s.disk.logWrite = true → s.progress = .finished)
  step s a t := s.allowed a ∧ t = s.run disks c a

end QuadStor.Recovery
