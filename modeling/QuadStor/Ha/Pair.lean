import Mathlib.Logic.Function.Basic
import QuadStor.Ha.Takeover
import QuadStor.Lib.System

/-!
# The controller and its HA peer

Every thread of the two nodes goes from one access to the record, to a role or to a message to the next.
-/

namespace QuadStor.Ha

open Lib Function

inductive NodeId where
  | controller
  | peer
deriving DecidableEq

def NodeId.other : NodeId → NodeId
  | .controller => .peer
  | .peer => .controller

structure Cluster where
  /-- `ha_bind_ipaddr`, and the other node's `ha_ipaddr` -/
  ip : NodeId → Nat
  ip_ne : ip .controller ≠ ip .peer
  ip_pos : ∀ n, ip n ≠ 0
  fenceEnabled : NodeId → Bool

/-- Who takes over, and for a hand-over how often the record had been written when the message was sent -/
inductive Source where
  | ha
  /-- `node_controller_ha_init`, after the peer has answered `NODE_MSG_HA_TAKEOVER` -/
  | answer (writes : Nat)
  | request (id writes : Nat)
deriving DecidableEq

def Source.graceful : Source → Bool
  | .ha => false
  | .answer _ | .request _ _ => true

inductive Syncer where
  | controller
  | peer (tries : Nat)

/-- Where `node_controller_ha_init`, `node_master_ha_init` and `node_ha_exit` are, with what was read of the record and
the number of writes until then -/
inductive Main where
  | idle
  | initRead
  | initAsk (haConfig : HaConfig) (writes : Nat)
  | initActive (haConfig : HaConfig) (writes retries : Nat)
  | initFence (writes : Nat)
  | initWrite (writes : Nat)
  | initRole
  | sync (syncer : Syncer)
  | syncing (syncer : Syncer)
  | initSend
  | initWait (id : Nat)
  | exitSync
  | exitDisabling
  | exitEnable
  | exitSend (writes : Nat)
  | exitComm (writes : Nat)
  | exitWait (id writes : Nat)
  | exitPoll (writes : Nat)
  /-- The relinquish request has failed. -/
  | exitFailed (writes : Nat)
  | exitInit
  /-- `node_ha_exit` of a controller without HA thread -/
  | exitQuiet
  | exited

inductive Job where
  | idle
  | syncing
  | standbyCheck (haConfig : HaConfig)
  | takeoverStart (source : Source)
  | takeoverFence (source : Source) (old : HaConfig) (writes : Nat)
  | takeoverCheck (source : Source) (old : HaConfig) (writes : Nat)
  | takeoverWrite (source : Source) (writes : Nat)
  | takeoverRole (source : Source) (mine : Nat)
  | takeoverPost (source : Source) (mine : Nat)
  | takeoverPostWrite (source : Source)
  | disableRead
  | disableWrite
  | syncSetup
  | syncEnable
  | handOver (id : Nat)
deriving DecidableEq

inductive Thread where
  | main
  | ha
  | recv (i : Nat)
  | io (i : Nat)
deriving DecidableEq

inductive Msg where
  | takeover (id : Nat)
  | relinquish (id writes : Nat)
  | syncStart
deriving DecidableEq

inductive Reply where
  | takeover (id : Nat) (ok : Bool) (writes : Nat)
  | relinquish (id : Nat) (ok : Bool)
deriving DecidableEq

structure Node where
  up : Bool
  role : Role
  status : SyncStatus
  transition : Bool
  haTask : Bool
  main : Main
  job : Thread → Job
  inbox : List Msg
  reply : Option Reply

def Node.down : Node := ⟨false, .unknown, .unknown, false, false, .idle, fun _ => .idle, [], none⟩

def Node.run (d : Node) (t : Thread) (j : Job) : Node := { d with job := update d.job t j }

/-- `comm` says whether there is a `sync_comm`. -/
def Node.syncEnabled (d : Node) (comm : Bool) : Bool := comm && (d.status == .inprogress || d.status == .done)

structure State where
  node : NodeId → Node
  record : HaConfig
  /-- not in the source: how often the record was written -/
  writes : Nat
  transactionId : Nat

def State.set (s : State) (n : NodeId) (d : Node) : State := { s with node := update s.node n d }

def State.stop (s : State) (n : NodeId) : State := s.set n .down

def State.write (s : State) (haConfig : HaConfig) : State := { s with record := haConfig, writes := s.writes + 1 }

def State.send (s : State) (n : NodeId) (msg : Msg) : State :=
  { s with
    node := update s.node n { s.node n with inbox := msg :: (s.node n).inbox }
    transactionId := s.transactionId + 1 }

/-- The quorum disk stays configured. -/
structure Input where
  ok : Bool
  /-- A write of the record that fails has reached the disk. -/
  landed : Bool
  created : Bool
  fenced : Bool
  /-- The uninitialised `ha_config.ipaddr` of `node_ha_disable` is the node's own address. -/
  garbage : Bool
  pinged : Bool
  busy : Bool
  comm : Bool
  arrives : Bool
  ticks : Nat

def Input.read (i : Input) (s : State) : Option HaConfig := if i.ok then some s.record else none

def Input.write (i : Input) : WriteIo := if i.ok then .ok else .error i.landed

def WriteIo.lands : WriteIo → Bool
  | .ok => true
  | .error landed => landed
  | _ => false

def State.setConfig (s : State) (i : Input) (haConfig : HaConfig) : State :=
  match (haSetConfig i.write haConfig).2 with
  | none => s
  | some haConfig => s.write haConfig

def Node.syncDisable (d : Node) (t : Thread) : Node :=
  if d.status = .error then d.run t .idle else { d.run t .disableRead with status := .error }

/-- `node_ha_thr_setup`, and `node_sync_disable` where it fails -/
def Node.haThrSetup (d : Node) (t : Thread) (created : Bool) : Node :=
  if d.haTask || created then { d.run t .idle with haTask := true } else d.syncDisable t

/-! ## `node_controller_ha_init`, `node_master_ha_init`, `node_ha_exit` -/

variable (c : Cluster)

def nextMain (s : State) (n : NodeId) (i : Input) : Option State :=
  let d := s.node n
  let m := n.other
  let goto := fun main => some (s.set n { d with main })
  match d.main with
  | .idle => none
  | .initRead =>
    if !i.ok then goto .idle
    else if s.record.ipaddr = 0 ∨ s.record.ipaddr = c.ip n ∨ s.record.magic = false ∨ s.record.haAllowedInit = true then
      goto (.initWrite s.writes)
    else goto (.initAsk s.record s.writes)
  | .initAsk haConfig w =>
    -- `ha_peer_role`
    match if i.ok && (s.node m).up then (s.node m).role else .unknown with
    | .master => some (s.set n { d with role := .standby, main := .sync .controller })
    | .standby => goto (.initWrite w)
    | .unknown => goto (.initActive haConfig w 5)
  | .initActive haConfig w retries =>
    match checkHaActive (i.read s) haConfig.timestamp true with
    | none | some true => goto .idle
    | some false =>
      if !c.fenceEnabled n then goto .idle
      else if haConfig.ipaddr = c.ip m then goto (.initFence w)
      else if retries ≤ 1 then goto (.initWrite w)
      else goto (.initActive haConfig w (retries - 1))
  | .initFence w => if i.fenced then some ((s.stop m).set n { d with main := .initWrite w }) else goto .idle
  | .initWrite _ =>
    some ((s.setConfig i (.disabled (c.ip n) i.ticks)).set n { d with main := if i.ok then .initRole else .idle })
  | .initRole => some (s.set n ({ d with role := .master, main := .idle }.haThrSetup .main i.created))
  | .sync syncer => some ((s.send m .syncStart).set n { d with status := .inprogress, main := .syncing syncer })
  | .syncing syncer =>
    let d' := { d with status := if i.busy then .needResync else .error, main := .idle }
    if i.ok && (s.node m).up && (s.node m).status == .done then
      match syncer with
      | .controller => some (s.set n { d with status := .done, main := .initSend })
      | .peer _ => some (s.set n ({ d with status := .done, main := .idle }.haThrSetup .main i.created))
    else
      match syncer with
      | .controller => some (s.set n d')
      | .peer tries => some (s.set n (if i.busy && 1 < tries then { d' with main := .sync (.peer (tries - 1)) } else d'))
  | .initSend =>
    if d.syncEnabled i.comm then
      some ((s.send m (.takeover s.transactionId)).set n { d with main := .initWait s.transactionId })
    else some (s.set n { d with status := .error, main := .idle })
  | .initWait id =>
    let failed := some (s.set n { d with status := .error, main := .idle })
    match d.reply with
    | some (.takeover id' true w) =>
      if i.ok && id' == id then some (s.set n ({ d with main := .idle }.run .main (.takeoverStart (.answer w)))) else failed
    | _ => failed
  | .exitSync =>
    if d.status = .inprogress then none
    else some (s.set n ({ d with main := .exitDisabling }.run .main .disableRead))
  | .exitDisabling =>
    if d.job .main ≠ .idle then none
    else some (s.set n { d with transition := true, role := .standby, main := .exitEnable })
  | .exitEnable =>
    -- `node_ha_enable` does not look at what becomes of its write
    let s' := s.setConfig i (.enabled (c.ip n) i.ticks)
    some (s'.set n { d with main := .exitSend s'.writes })
  | .exitSend w =>
    if d.syncEnabled i.comm then goto (.exitComm w) else some (s.set n { d with transition := false, main := .exited })
  | .exitComm w =>
    if d.status = .inprogress then none
    else if i.ok then
      some ((s.send m (.relinquish s.transactionId w)).set n { d with main := .exitWait s.transactionId w })
    else goto (.exitFailed w)
  | .exitWait id w =>
    if i.ok && d.reply == some (.relinquish id true) then goto (.exitPoll w) else goto (.exitFailed w)
  | .exitPoll w =>
    -- `node_sync_relinquish_status`
    if i.ok && (s.node m).up then
      if (s.node m).transition then some s
      else if (s.node m).role = .master then some (s.set n { d with transition := false, main := .exited })
      else goto (.exitFailed w)
    else goto (.exitFailed w)
  | .exitFailed _ => some (s.set n { d with role := .master, main := .exitInit })
  | .exitInit =>
    some ((s.setConfig i (.enabledInit (c.ip n) i.ticks)).set n { d with transition := false, main := .exited })
  | .exitQuiet =>
    let d := { d with role := .master, transition := false, main := .exited }
    -- `node_sync_disable_send`
    if d.syncEnabled i.comm then some (s.set n { d.run .main .disableRead with status := .error }) else some (s.set n d)
  | .exited => none

/-- The end of a takeover: the caller in `node_controller_ha_init` sets up the HA thread. -/
def Node.finish (d : Node) (t : Thread) (source : Source) (created : Bool) : Node :=
  match source with
  | .answer _ => d.haThrSetup t created
  | _ => d.run t .idle

def State.answer (s : State) (n : NodeId) (source : Source) (arrives ok : Bool) : State :=
  match source with
  | .request id _ =>
    if arrives then s.set n.other { s.node n.other with reply := some (.relinquish id ok) } else s
  | _ => s

def State.fail (s : State) (n : NodeId) (t : Thread) (source : Source) (i : Input) (transition : Bool) : State :=
  (s.set n ({ s.node n with status := .needResync, transition }.finish t source i.created)).answer n source i.arrives false

/-- The other node is fenced, or this one panics. -/
def haCrit (s : State) (n : NodeId) (i : Input) (d : Node) : State :=
  if c.fenceEnabled n && i.fenced then (s.stop n.other).set n d else s.stop n

def nextJob (s : State) (n : NodeId) (t : Thread) (i : Input) : Option State :=
  let d := s.node n
  let m := n.other
  let goto := fun job => some (s.set n (d.run t job))
  match d.job t with
  | .idle => none
  | .syncing =>
    if i.ok && (s.node m).up && (s.node m).status == .done then some (s.set n { d.run t .idle with status := .done })
    else some (s.set n { d.run t .idle with status := if i.busy then .needResync else .error })
  -- `node_standby_checks`
  | .standbyCheck haConfig =>
    match checkHaActive (i.read s) haConfig.timestamp false with
    | none => some (s.set n { d.run t .idle with status := .error })
    | some true => some (s.set n { d.run t .idle with status := .needResync })
    | some false =>
      if i.pinged then some (s.set n { d.run t .idle with status := .needResync }) else goto (.takeoverStart .ha)
  -- `node_ha_takeover_pre`
  | .takeoverStart source =>
    match takeoverAllowed d.status (i.read s) with
    | none => some (s.fail n t source i d.transition)
    | some old => some (s.set n { d.run t (.takeoverFence source old s.writes) with transition := true })
  | .takeoverFence source old w =>
    -- `wait_for_ha_busy`
    if source.graceful ∧ d.job .ha ≠ .idle then none
    else if !peerFenced source.graceful (c.fenceEnabled n) i.fenced then some (s.fail n t source i false)
    else
      let s := if !source.graceful && c.fenceEnabled n then s.stop m else s
      some (s.set n (d.run t (.takeoverCheck source old w)))
  | .takeoverCheck source old _ =>
    if sameTimestamp (i.read s) old then goto (.takeoverWrite source s.writes) else some (s.fail n t source i false)
  | .takeoverWrite source _ =>
    let s := s.setConfig i (.disabled (c.ip n) i.ticks)
    if i.ok && (source.graceful || c.fenceEnabled n) then
      let d := { d.run t (.takeoverRole source i.ticks) with status := if n = .controller then d.status else .error }
      some ((s.set n d).answer n source i.arrives true)
    else some (s.fail n t source i false)
  -- `node_ha_takeover`
  | .takeoverRole source mine => some (s.set n { d.run t (.takeoverPost source mine) with role := .master })
  | .takeoverPost source mine =>
    let d' := { d with transition := false }.finish t source i.created
    if n = .controller then some ((s.setConfig i (.enabled (c.ip n) i.ticks)).set n d')
    else if i.ok ∧ s.record.timestamp = mine then goto (.takeoverPostWrite source)
    else some (s.set n d')
  | .takeoverPostWrite source =>
    some ((s.setConfig i (.disabled (c.ip n) i.ticks)).set n ({ d with transition := false }.finish t source i.created))
  -- `node_ha_disable`
  | .disableRead =>
    if d.role ≠ .master then goto .idle
    else if i.ok then
      if s.record.ipaddr = c.ip n then goto .disableWrite else some (s.stop n)
    else if i.garbage then some (haCrit c s n i (d.run t .disableWrite))
    else some (haCrit c s n i .down)
  | .disableWrite =>
    let s := s.setConfig i (.disabled (c.ip n) i.ticks)
    if i.ok then some (s.set n (d.run t .idle)) else some (haCrit c s n i (d.run t .idle))
  -- `node_sync_setup_bdevs`
  | .syncSetup => if i.ok ∧ d.status ≠ .error then goto .syncEnable else goto .disableRead
  | .syncEnable =>
    some ((s.setConfig i (.enabled (c.ip n) i.ticks)).set n { d.run t .idle with status := .done })
  -- `node_sync_takeover_recv`
  | .handOver id =>
    if d.job .ha ≠ .idle then none
    else
      let s := s.set n { d.run t .idle with transition := false }
      if i.arrives then
        some (s.set m { s.node m with reply := some (.takeover id (d.syncEnabled i.comm) s.writes) })
      else some s

def deliver (s : State) (n : NodeId) (j : Nat) (msg : Msg) (i : Input) : Option State :=
  let d := { s.node n with inbox := (s.node n).inbox.erase msg }
  let m := n.other
  if (s.node n).up = false ∨ msg ∉ (s.node n).inbox ∨ d.job (.recv j) ≠ .idle then none
  else
    match msg with
    | .relinquish id w =>
      if d.status = .inprogress then none
      else if d.status ≠ .done then
        let s := s.set n d
        some (if i.arrives then s.set m { s.node m with reply := some (.relinquish id false) } else s)
      else some (s.set n (d.run (.recv j) (.takeoverStart (.request id w))))
    | .takeover id =>
      if d.status ≠ .done then
        let s := s.set n d
        some (if i.arrives then s.set m { s.node m with reply := some (.takeover id false s.writes) } else s)
      else some (s.set n { d.run (.recv j) (.handOver id) with transition := true, role := .standby })
    | .syncStart =>
      -- `node_master_sync_start`
      if d.role ≠ .master ∨ d.status = .inprogress then some (s.set n d)
      else some (s.set n { d.run (.recv j) .syncSetup with status := .inprogress })

inductive Action where
  | start (n : NodeId)
  | crash (n : NodeId)
  | main (n : NodeId) (i : Input)
  | job (n : NodeId) (t : Thread) (i : Input)
  | deliver (n : NodeId) (j : Nat) (msg : Msg) (i : Input)
  | lose (n : NodeId) (msg : Msg)
  | exit (n : NodeId) (i : Input)
  | pingFails (n : NodeId) (i : Input)
  /-- The answer to a ping is `NODE_STATUS_NEED_RESYNC`. -/
  | pingResync (n : NodeId)
  /-- The HA thread calls `node_sync_start`. -/
  | resync (n : NodeId)
  /-- The HA thread of a master without sync calls `node_ha_disable`. -/
  | haDisable (n : NodeId) (i : Input)
  /-- `node_sync_disable`, as after every message that is not answered -/
  | syncDisable (n : NodeId) (j : Nat)

def Node.haReady (d : Node) : Bool := d.up && d.haTask && d.job .ha == .idle

def exec (s : State) : Action → Option State
  | .start n =>
    if (s.node n).up then none
    else
      match n with
      | .controller => some (s.set n { Node.down with up := true, main := .initRead })
      | .peer => some (s.set n { Node.down with up := true, role := .standby, main := .sync (.peer 5) })
  | .crash n => some (s.stop n)
  | .main n i => nextMain c s n i
  | .job n t i => nextJob c s n t i
  | .deliver n j msg i => Ha.deliver s n j msg i
  | .lose n msg => some (s.set n { s.node n with inbox := (s.node n).inbox.erase msg })
  | .exit n i =>
    let d := s.node n
    match d.main with
    | .idle =>
      if d.up = false ∨ d.job .main ≠ .idle then none
      else if d.haTask then
        -- `wait_for_ha_busy`, and the thread is stopped
        if d.job .ha ≠ .idle then none
        else if d.role = .standby then
          let status := if d.syncEnabled i.comm then .error else d.status
          some (s.set n { d with haTask := false, status, main := .exited })
        else if d.syncEnabled i.comm then some (s.set n { d with haTask := false, main := .exitSync })
        else some (s.set n { d with haTask := false, main := .exitInit })
      else if n = .controller then
        if d.status = .inprogress then none
        else some (s.set n { d with transition := true, role := .standby, main := .exitQuiet })
      else some (s.set n { d with main := .exited })
    | _ => none
  | .pingFails n i =>
    let d := s.node n
    if d.haReady && !d.transition && d.status == .done then
      match d.role with
      | .standby =>
        if i.ok then some (s.set n (d.run .ha (.standbyCheck s.record))) else some (s.set n { d with status := .error })
      | .master => some (s.set n { d.run .ha .disableRead with status := .error })
      | .unknown => none
    else none
  | .pingResync n =>
    let d := s.node n
    if d.haReady && !d.transition && d.role == .standby && (s.node n.other).up && (s.node n.other).status == .error then
      some (s.set n { d with status := .needResync })
    else none
  | .resync n =>
    let d := s.node n
    if d.haReady && !d.transition && d.status == .needResync then
      some ((s.send n.other .syncStart).set n { d.run .ha .syncing with status := .inprogress })
    else none
  | .haDisable n i =>
    let d := s.node n
    if d.haReady && d.role == .master && !d.syncEnabled i.comm && n == .peer then some (s.set n (d.run .ha .disableRead))
    else none
  | .syncDisable n j =>
    let d := s.node n
    if d.up && d.status != .error && d.job (.io j) == .idle then
      some (s.set n { d.run (.io j) .disableRead with status := .error })
    else none

def Initial (s : State) : Prop := (∀ n, s.node n = .down) ∧ s.writes = 0

def system : System State Action where
  init := Initial
  step s a s' := exec c s a = some s'

def Main.leaving : Main → Bool
  | .exitSync | .exitDisabling | .exitEnable | .exitSend _ | .exitComm _ | .exitWait _ _ | .exitPoll _ | .exitFailed _
  | .exitInit | .exitQuiet => true
  | _ => false

def Job.taking : Job → Bool
  | .takeoverStart _ | .takeoverFence _ _ _ | .takeoverCheck _ _ _ | .takeoverWrite _ _ | .takeoverRole _ _ => true
  | _ => false

/-- A standby that is in no takeover, leaves no role and is not about to get one from its own start. -/
def Quiet (d : Node) : Prop := d.role = .standby ∧ d.main.leaving = false ∧ d.main ≠ .initRole ∧ ∀ t, (d.job t).taking = false

variable {c}

def AllowedMain (c : Cluster) (s : State) (n : NodeId) (i : Input) : Prop :=
  match (s.node n).main with
  -- a node that lets others start as master has stopped
  | .initRead => s.record.haAllowedInit = true → (s.node n.other).up = false
  -- the answer is not one of a node that is about to take over or to come back
  | .initAsk _ _ => (s.node n.other).role = .standby → Quiet (s.node n.other)
  -- nobody has written the record since it was read
  | .initWrite w => i.write.lands = true → s.writes = w
  -- the record is the node's own one; `node_ha_enable` does not look at what becomes of its write
  | .exitEnable => i.write.lands = true ∧ s.record.ipaddr = c.ip n
  | .exitInit => i.write.lands = true → s.record.ipaddr = c.ip n
  -- the other node has not taken over, and is not going to
  | .exitFailed w => s.writes = w ∧ (∀ t, ((s.node n.other).job t).taking = false) ∧
      ∀ id w, .relinquish id w ∉ (s.node n.other).inbox
  | _ => True

def AllowedJob (c : Cluster) (s : State) (n : NodeId) (t : Thread) (i : Input) : Prop :=
  match (s.node n).job t with
  -- nobody has written the record since the message was sent
  | .takeoverStart (.answer w) | .takeoverStart (.request _ w) => s.writes = w ∧ (s.node n).main.leaving = false
  | .takeoverStart .ha => (s.node n).main.leaving = false
  -- a record that was rewritten has another timestamp
  | .takeoverCheck _ old w => s.record.timestamp = old.timestamp → s.writes = w
  -- nobody has written the record since it was read, and there is a fence command
  | .takeoverWrite source w => i.write.lands = true → s.writes = w ∧ (source.graceful = true ∨ c.fenceEnabled n = true)
  | .takeoverPost _ _ => s.record.ipaddr = c.ip n
  | .takeoverPostWrite _ | .disableWrite | .syncEnable => i.write.lands = true → s.record.ipaddr = c.ip n
  | .handOver _ => i.arrives = true → Quiet (s.node n)
  | _ => True

def Allowed (c : Cluster) (s : State) : Action → Prop
  | .main n i => AllowedMain c s n i
  | .job n t i => AllowedJob c s n t i
  -- no takeover of the node is under way, and a controller without HA thread is master
  | .exit n _ => (∀ t, ((s.node n).job t).taking = false) ∧
      ((s.node n).haTask = false → n = .controller → (s.node n).role = .master)
  | _ => True

end QuadStor.Ha
