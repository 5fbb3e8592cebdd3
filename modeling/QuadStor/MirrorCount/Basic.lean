import Mathlib.Tactic.Common

/-!
# The commands in progress of a mirrored disk

`tdisk_mirror_incr` and `tdisk_mirror_decr` count the commands of a disk that talk to its mirror peer.
-/

namespace QuadStor.MirrorCount

/-- The functions that talk to the peer; a write comes to each of them once at most. -/
inductive Site where
  | setup | setupEnd | verify | comp | io | postPre | donePre | doneWait | donePost | error

inductive CmdStatus where
  | done | needVerify | needComp | needIo | needIoUnaligned
  deriving DecidableEq

/-- What becomes of the messages of a write, by the function that sends or awaits them. The role may change at any time.
-/
structure Peer where
  master : Site → Bool
  comm : Bool
  send : Site → Int
  /-- `node_resp_status`, or the result of `node_verify_setup` and `node_send_write_io` -/
  resp : Site → Int
  /-- `node_resp_status` in `node_mirror_wait_for_prev_resp` -/
  prev : Site → Int
  /-- `tdisk_mirror_peer_failure`: 0 if this node goes on as master -/
  failure : Site → Int
  status : Site → CmdStatus
  /-- `NODE_STATUS_SKIP_LOCAL_WRITE` -/
  skipLocal : Site → Bool
  /-- All messages of `tdisk_mirror_skip_local_write` succeed. -/
  skipDone : Bool

/-- What a write has added to `mirror_cmds` of its disk, and `async_wait` of `wlist->msg` -/
structure State where
  cmds : Int := 0
  msg : Option Bool := none

def State.incr (s : State) : State := { s with cmds := s.cmds + 1 }

def State.decr (s : State) : State := { s with cmds := s.cmds - 1 }

def State.release (s : State) : State := { s.decr with msg := none }

section Messages

variable (p : Peer) (site : Site) (s : State)

def nodeMirrorWaitForPrevResp : State × Int :=
  if s.msg = some true then
    if p.prev site < 0 then (s.release, p.failure site)
    else if p.prev site > 0 then (s.release, -1)
    else ({ s with msg := some false }, 0)
  else (s, 0)

/-- How the functions begin: they return if there is no message, or if there is none any more after the wait. -/
def waited (rest : State → State × Int) : State × Int :=
  if s.msg = none then (s, 0)
  else
    let r := nodeMirrorWaitForPrevResp p site s
    if r.2 ≠ 0 ∨ r.1.msg = none then r else rest r.1

/-- With `check_peer` -/
def tdiskMirrorSendCmd : State × Int :=
  if p.send site < 0 ∨ p.resp site < 0 then (s.release, if p.failure site = 0 then 0 else 1) else (s, 0)

def tdiskMirrorSkipLocalWrite : State × Int := (s.release, if p.skipDone then 1 else -1)

def tdiskMirrorCheckVerify : State × Int :=
  waited p .verify s fun s =>
    if p.skipLocal .verify then tdiskMirrorSkipLocalWrite p s
    else if p.status .verify ≠ .needVerify then (s, 0)
    else if p.resp .verify = 0 then (s, 0)
    else (s.release, p.failure .verify)

def tdiskMirrorCheckComp : State × Int :=
  waited p .comp s fun s =>
    if p.status .comp ≠ .needComp then (s, 0)
    else if p.send .comp = 0 then ({ s with msg := some true }, 0)
    else (s.release, p.failure .comp)

def tdiskMirrorCheckIo : State × Int :=
  waited p .io s fun s =>
    if p.status .io = .needIoUnaligned then tdiskMirrorSendCmd p .io s
    else if p.status .io ≠ .needIo then (s, 0)
    else if p.resp .io = 0 then (s, 0)
    else (s.release, p.failure .io)

def tdiskMirrorWritePostPre : State × Int :=
  if p.master .postPre then (s, 0) else waited p .postPre s (tdiskMirrorSendCmd p .postPre)

def tdiskMirrorWriteDone : State × Int := (s.release, 0)

def tdiskMirrorWriteDonePre : State × Int :=
  if p.master .donePre then (s, 0) else waited p .donePre s tdiskMirrorWriteDone

def tdiskMirrorWriteDoneWait : State :=
  if p.master .doneWait then (waited p .doneWait s fun s => (s, 0)).1 else s

def tdiskMirrorWriteDonePost : State :=
  if p.master .donePost then (waited p .donePost s tdiskMirrorWriteDone).1 else s

def tdiskMirrorWriteError : State := (waited p .error s fun s => (s.release, 0)).1

end Messages

structure Write extends Peer where
  configured : Bool
  disabled : Bool
  needsSync : Bool
  flagWrite : Int
  inSync : Bool
  inMirror : Bool
  /-- COMPARE AND WRITE, and `pgdata_allocate_for_cw` fails -/
  cwAllocFails : Bool
  /-- beyond the end of the disk, or in standby -/
  refused : Bool
  /-- `check_cw_data` or `check_unaligned_data` fails, or the data does not compare. -/
  checkFails : Bool
  scanFails : Bool
  ioFails : Bool
  amapFails : Bool
  norefs : Bool

section Write

variable (w : Write) (xchgId : Nat)

/-- The label `write_error` of the two functions that send the first message -/
def writeErrorLabel (s : State) : State × Int := (s.decr, if w.failure .setup = 0 then 0 else -1)

def tdiskMirrorXcopyWrite (s : State) : State × Int :=
  if w.comm && w.send .setup = 0 then ({ s with msg := some true }, 0) else writeErrorLabel w s

def tdiskMirrorWriteSetup (s : State) : State × Int :=
  if !w.configured then (s, 0)
  else if w.disabled then (s, if w.master .setup then w.flagWrite else -1)
  else if w.master .setup && !w.needsSync then (s, 0)
  else
    let s := s.incr
    if xchgId ≠ 0 then tdiskMirrorXcopyWrite w s
    else if w.cwAllocFails then (s.decr, -1)
    else if w.comm && w.send .setup = 0 then
      let s := { s with msg := some true }
      if w.master .setupEnd then (s, 0)
      else waited w.toPeer .setup s fun s =>
        if w.skipLocal .setup then tdiskMirrorSkipLocalWrite w.toPeer s else (s, 0)
    else writeErrorLabel w s

def tdiskLbaWriteSetup (s : State) : State × Int :=
  if !w.configured || !w.inMirror && w.inSync then (s, 0) else tdiskMirrorWriteSetup w xchgId s

/-- Where a write stops to use its message: it has ended, or comes to `pgdata_post_write`. -/
inductive Stop where
  | ended (s : State)
  | post (s : State)

def orEnd (r : State × Int) (rest : State → Stop) : Stop := if r.2 ≠ 0 then .ended r.1 else rest r.1

/-- `tdisk_write_error` with `ignore_mirror` does nothing about the message. -/
def tdiskCmdWrite : Stop :=
  if w.refused then .ended {}
  else orEnd (tdiskLbaWriteSetup w xchgId {}) fun s =>
    if w.checkFails then .ended (if !w.inSync || w.inMirror then tdiskMirrorWriteError w.toPeer s else s)
    else if w.scanFails then .ended (tdiskMirrorWriteError w.toPeer s)
    else orEnd (tdiskMirrorCheckVerify w.toPeer s) fun s =>
      orEnd (tdiskMirrorCheckComp w.toPeer s) fun s =>
        if w.ioFails then .ended (tdiskMirrorWriteError w.toPeer s)
        else orEnd (tdiskMirrorCheckIo w.toPeer s) fun s =>
          orEnd (tdiskMirrorWritePostPre w.toPeer s) fun s =>
            if w.amapFails then .ended (tdiskMirrorWriteError w.toPeer s)
            else orEnd (tdiskMirrorWriteDonePre w.toPeer s) fun s =>
              .post (if w.norefs then tdiskMirrorWriteDoneWait w.toPeer s else s)

/-- A write of another node; `ctio_set_in_mirror` is for other commands. -/
def Write.remote : Write := { w with inMirror := false }

def nodeMasterWriteSetup : State × Int := tdiskLbaWriteSetup w.remote 0 {}

/-- From `__node_master_write_pre` to `node_master_write_error` or `node_master_write_post` -/
def nodeMasterWrite : Stop :=
  if w.refused then .ended {}
  else orEnd (nodeMasterWriteSetup w) fun s =>
    if w.checkFails then .ended s
    else if w.scanFails || w.ioFails || w.amapFails then
      .ended (if w.inSync then s else tdiskMirrorWriteError w.toPeer s)
    else .post s

def Stop.complete : Stop → State
  | .ended s => s
  | .post s => tdiskMirrorWriteDonePost w.toPeer s

end Write

/-- A copy without moving data: what `extended_copy_mirror_check` and `__tdisk_cmd_ref_int` meet -/
structure Copy where
  /-- Both disks are mirrored to the same peer, and neither is disabled or needs a resync. -/
  asks : Bool
  comm : Bool
  send : Int
  resp : Int
  failure : Int
  xchgId : Nat
  refOk : Bool

/-- What is added to the count of the source, and the result -/
def tdiskMirrorExtendedCopyRead (c : Copy) : Int × Int :=
  let cmds : Int := 0 + 1
  if !c.comm || c.send ≠ 0 || c.resp < 0 then (cmds - 1, if c.failure = 0 then 1 else -1) else (cmds, c.resp)

/-- With the exchange id of the answer; 0 is none. -/
def extendedCopyMirrorCheck (c : Copy) : Int × Int × Nat :=
  if c.asks then
    let r := tdiskMirrorExtendedCopyRead c
    if r.2 < 0 then (r.1, r.2, 0) else (r.1, 0, if r.2 = 0 then c.xchgId else 0)
  else (0, 0, 0)

/-- A mirrored write: of this node, as a part of a copy or not, or of another one -/
inductive Job where
  | write (dest : Nat) (w : Write)
  | copy (src dest : Nat) (c : Copy) (w : Write)
  | remote (dest : Nat) (w : Write)

def Job.added : Job → Nat → Int
  | .write dest w, d => if d = dest then ((tdiskCmdWrite w 0).complete w).cmds else 0
  | .copy src dest c w, d =>
    let r := extendedCopyMirrorCheck c
    (if d = src then r.1 else 0) +
      if r.2.1 = 0 ∧ c.refOk = true ∧ d = dest then ((tdiskCmdWrite w r.2.2).complete w).cmds else 0
  | .remote dest w, d => if d = dest then ((nodeMasterWrite w).complete w).cmds else 0

def run (jobs : List Job) (cmds : Nat → Int) : Nat → Int :=
  jobs.foldl (fun cmds job d => cmds d + job.added d) cmds

/-- `tdisk_mirror_write_setup` sends the message, and does not give it up. -/
def Write.Sends (w : Write) (xchgId : Nat) : Prop :=
  w.configured = true ∧ (w.inSync = true → w.inMirror = true) ∧ w.disabled = false ∧
    (w.master .setup = true → w.needsSync = true) ∧ w.comm = true ∧ w.send .setup = 0 ∧
    (xchgId = 0 → w.cwAllocFails = false ∧
      (w.master .setupEnd = false → w.prev .setup = 0 ∧ w.skipLocal .setup = false))

/-! What each function must meet so that it leaves the message as it is; the answer may still be awaited. -/

def Peer.Writes (p : Peer) : Prop :=
  (p.status .comp = .needComp → p.prev .io = 0) ∧
    (p.status .io = .needIoUnaligned → 0 ≤ p.send .io ∧ 0 ≤ p.resp .io) ∧ (p.status .io = .needIo → p.resp .io = 0)

end QuadStor.MirrorCount
