import Mathlib.Tactic.SplitIfs

/-!
# The quorum record

Two nodes share a disk: the controller and its HA peer. One of them is master.
-/

namespace QuadStor.Ha

inductive Role where
  | unknown
  | master
  | standby
deriving DecidableEq

inductive SyncStatus where
  | unknown
  | inprogress
  | error
  | needResync
  | done
deriving DecidableEq

/-- What is read of `struct ha_config` on the disk -/
structure HaConfig where
  timestamp : Nat
  ipaddr : Nat
  haAllowed : Bool
  haAllowedInit : Bool
  /-- The page begins with `HA_MAGIC`. -/
  magic : Bool
deriving DecidableEq

/-- The record of `node_ha_disable`, `node_ha_disable_nocheck` and of a node that starts as master -/
def HaConfig.disabled (ipaddr ticks : Nat) : HaConfig := ⟨ticks, ipaddr, false, false, true⟩

/-- The record of `node_ha_enable` -/
def HaConfig.enabled (ipaddr ticks : Nat) : HaConfig := ⟨ticks, ipaddr, true, false, true⟩

/-- The record of `node_ha_enable_init` -/
def HaConfig.enabledInit (ipaddr ticks : Nat) : HaConfig := ⟨ticks, ipaddr, false, true, true⟩

/-- The record of `ha_init_config` -/
def HaConfig.blank : HaConfig := ⟨0, 0, false, false, true⟩

structure HaNode where
  haBindIpaddr : Nat
  fenceEnabled : Bool
  controller : Bool

inductive WriteIo where
  | ok
  /-- There is no quorum disk any more. `ha_set_config` returns 0. -/
  | noDisk
  | noPage
  /-- The request fails, and may have reached the disk. -/
  | error (landed : Bool)
deriving DecidableEq

def haSetConfig (io : WriteIo) (haConfig : HaConfig) : Bool × Option HaConfig :=
  match io with
  | .ok => (true, some haConfig)
  | .noDisk => (true, none)
  | .noPage => (false, none)
  | .error landed => (false, if landed then some haConfig else none)

/-- What an attempt meets; a read that fails gives `none`. -/
structure Meets where
  status : SyncStatus
  transition : Bool
  read : Option HaConfig
  /-- The fence command stops the peer. -/
  fenced : Bool
  reread : Option HaConfig
  write : WriteIo
  ticks : Nat

structure Outcome where
  ok : Bool
  written : Option HaConfig
  status : SyncStatus
  transition : Bool

variable (n : HaNode) (graceful : Bool) (m : Meets)

/-- `node_ha_disable_nocheck` finds the timestamp again. -/
def sameTimestamp (reread : Option HaConfig) (old : HaConfig) : Bool :=
  reread.any fun haConfig => haConfig.timestamp == old.timestamp

def nodeHaDisableNocheck (old : HaConfig) : Bool × Option HaConfig :=
  if sameTimestamp m.reread old then haSetConfig m.write (.disabled n.haBindIpaddr m.ticks) else (false, none)

/-- `node_ha_monitor` need not fence the peer, or has fenced it. -/
def peerFenced (graceful fenceEnabled fenced : Bool) : Bool := graceful || !fenceEnabled || fenced

def nodeHaMonitor (old : HaConfig) : Bool × Option HaConfig :=
  if !peerFenced graceful n.fenceEnabled m.fenced then (false, none)
  else
    let (ok, written) := nodeHaDisableNocheck n m old
    -- the record has been written when the fence command turns out to be missing
    (ok && (graceful || n.fenceEnabled), written)

/-- The record with which `node_ha_takeover_pre` goes on -/
def takeoverAllowed (status : SyncStatus) (read : Option HaConfig) : Option HaConfig :=
  if status ≠ .done then none else read.filter HaConfig.haAllowed

def nodeHaTakeoverPre : Outcome :=
  match takeoverAllowed m.status m.read with
  | none => ⟨false, none, .needResync, m.transition⟩
  | some haConfig =>
    let (ok, written) := nodeHaMonitor n graceful m haConfig
    if ok then ⟨true, written, if n.controller then .done else .error, true⟩
    else ⟨false, written, .needResync, false⟩

inductive CheckResult where
  | error
  | needResync
  | takeover
deriving DecidableEq

def checkHaActive (read : Option HaConfig) (timestamp : Nat) (checkTimestamp : Bool) : Option Bool :=
  read.map fun haConfig =>
    (!haConfig.haAllowed && !haConfig.haAllowedInit && !checkTimestamp) || haConfig.timestamp != timestamp

structure Checks where
  first : Option HaConfig
  second : Option HaConfig
  /-- The peer has sent a ping in between. -/
  pinged : Bool

def nodeStandbyChecks (c : Checks) : CheckResult :=
  match c.first with
  | none => .error
  | some haConfig =>
    match checkHaActive c.second haConfig.timestamp false with
    | none => .error
    | some true => .needResync
    | some false => if c.pinged then .needResync else .takeover

inductive Attempt where
  | handOver (m : Meets)
  | peerFailed (c : Checks) (m : Meets)

/-- For the HA thread this is `node_ha_peer_checks` of a standby. -/
def Attempt.run (n : HaNode) : Attempt → Outcome
  | .handOver m => nodeHaTakeoverPre n true m
  | .peerFailed c m =>
    if m.status = .needResync then ⟨false, none, .needResync, m.transition⟩
    else
      match nodeStandbyChecks c with
      | .error => ⟨false, none, .error, m.transition⟩
      | .needResync => ⟨false, none, .needResync, m.transition⟩
      | .takeover => nodeHaTakeoverPre n false m

def Outcome.leaves (o : Outcome) (disk : HaConfig) : HaConfig := o.written.getD disk

/-- `node_ha_disable`: a master that finds another address in the record panics. -/
def LostQuorum (haBindIpaddr : Nat) (disk : HaConfig) : Prop := disk.ipaddr ≠ haBindIpaddr

/-- The record is the peer's one, and a master that rereads it finds itself the owner. -/
structure Unchanged (o : Outcome) (disk : HaConfig) : Prop where
  record : o.leaves disk = disk
  owner : ∀ ip, ¬LostQuorum ip disk → ¬LostQuorum ip (o.leaves disk)

def Meets.ReachesWrite (m : Meets) (n : HaNode) (graceful : Bool) : Prop :=
  m.status = .done ∧ (graceful || !n.fenceEnabled || m.fenced) = true ∧
    ∃ old new, m.read = some old ∧ old.haAllowed = true ∧ m.reread = some new ∧ new.timestamp = old.timestamp

def Attempt.ReachesWrite (n : HaNode) : Attempt → Prop
  | .handOver m => m.ReachesWrite n true
  | .peerFailed c m => nodeStandbyChecks c = .takeover ∧ m.ReachesWrite n false

def Attempt.meets : Attempt → Meets
  | .handOver m => m
  | .peerFailed _ m => m

def Attempt.handsOver : Attempt → Bool
  | .handOver _ => true
  | .peerFailed _ _ => false

/-- A write that succeeds is one of a hand-over, or of a node with a fence command; one that fails does not land. -/
def Attempt.WriteOk (n : HaNode) (a : Attempt) : Prop :=
  a.meets.write ≠ .error true ∧ (a.meets.write = .ok → a.handsOver = true ∨ n.fenceEnabled = true)

variable {n graceful m} {o : Outcome} {a : Attempt} {old : HaConfig}

theorem unchanged_of_written_eq_none (h : o.written = none) (disk : HaConfig) : Unchanged o disk := by
  have hleaves : o.leaves disk = disk := by rw [Outcome.leaves, h, Option.getD_none]
  exact ⟨hleaves, fun ip hip => hleaves.symm ▸ hip⟩

theorem written_eq_none_of_unchanged (h : ∀ disk, Unchanged o disk) : o.written = none := by
  cases hwritten : o.written with
  | none => rfl
  | some c =>
    have hrecord := (h { c with timestamp := c.timestamp + 1 }).record
    rw [Outcome.leaves, hwritten, Option.getD_some] at hrecord
    have htime : c.timestamp = c.timestamp + 1 := congrArg HaConfig.timestamp hrecord
    omega

theorem forall_unchanged_iff : (∀ disk, Unchanged o disk) ↔ o.written = none :=
  ⟨written_eq_none_of_unchanged, unchanged_of_written_eq_none⟩

theorem sameTimestamp_iff : sameTimestamp m.reread old = true ↔ ∃ new, m.reread = some new ∧ new.timestamp = old.timestamp := by
  simp [sameTimestamp, Option.any_eq_true]

theorem takeoverAllowed_iff : takeoverAllowed m.status m.read = some old ↔
    m.status = .done ∧ m.read = some old ∧ old.haAllowed = true := by
  unfold takeoverAllowed
  split_ifs with hstatus
  · simp [hstatus]
  · have hdone := Decidable.not_not.1 hstatus
    simp [hdone, Option.filter_eq_some_iff]

theorem nodeHaTakeoverPre_of_reaches (h : m.ReachesWrite n graceful) : (nodeHaTakeoverPre n graceful m).ok =
        ((haSetConfig m.write (.disabled n.haBindIpaddr m.ticks)).1 && (graceful || n.fenceEnabled)) ∧
      (nodeHaTakeoverPre n graceful m).written = (haSetConfig m.write (.disabled n.haBindIpaddr m.ticks)).2 := by
  obtain ⟨hstatus, hfence, old, new, hread, hallowed, hreread, htime⟩ := h
  have hfenced : peerFenced graceful n.fenceEnabled m.fenced = true := hfence
  simp only [nodeHaTakeoverPre, takeoverAllowed_iff.2 ⟨hstatus, hread, hallowed⟩, nodeHaMonitor, hfenced,
    nodeHaDisableNocheck, sameTimestamp_iff.2 ⟨new, hreread, htime⟩, Bool.not_true, Bool.false_eq_true, if_false, if_true]
  cases (haSetConfig m.write (.disabled n.haBindIpaddr m.ticks)).1 && (graceful || n.fenceEnabled) with
  | false | true => exact ⟨rfl, rfl⟩

theorem nodeHaTakeoverPre_of_not_reaches (h : ¬m.ReachesWrite n graceful) :
    (nodeHaTakeoverPre n graceful m).written = none := by
  unfold nodeHaTakeoverPre
  cases hallowed : takeoverAllowed m.status m.read with
  | none => rfl
  | some old =>
    obtain ⟨hstatus, hread, hold⟩ := takeoverAllowed_iff.1 hallowed
    have hmonitor : nodeHaMonitor n graceful m old = (false, none) := by
      unfold nodeHaMonitor nodeHaDisableNocheck
      cases hfenced : peerFenced graceful n.fenceEnabled m.fenced with
      | false => rfl
      | true =>
        cases hsame : sameTimestamp m.reread old with
        | false => rfl
        | true =>
          obtain ⟨new, hreread, htime⟩ := sameTimestamp_iff.1 hsame
          exact absurd ⟨hstatus, hfenced, old, new, hread, hold, hreread, htime⟩ h
    simp [hmonitor]

theorem written_of_not_reaches (h : ¬a.ReachesWrite n) : (a.run n).written = none := by
  cases a with
  | handOver m => exact nodeHaTakeoverPre_of_not_reaches h
  | peerFailed c m =>
    rw [Attempt.run]
    split_ifs
    · rfl
    · cases hchecks : nodeStandbyChecks c with
      | error | needResync => rfl
      | takeover => exact nodeHaTakeoverPre_of_not_reaches fun hreaches => h ⟨hchecks, hreaches⟩

theorem run_of_reaches (h : a.ReachesWrite n) :
    (a.run n).ok = ((haSetConfig a.meets.write (.disabled n.haBindIpaddr a.meets.ticks)).1 && (a.handsOver || n.fenceEnabled)) ∧
      (a.run n).written = (haSetConfig a.meets.write (.disabled n.haBindIpaddr a.meets.ticks)).2 := by
  cases a with
  | handOver m => exact nodeHaTakeoverPre_of_reaches h
  | peerFailed c m =>
    obtain ⟨hchecks, hreaches⟩ := h
    have hrun : Attempt.run n (.peerFailed c m) = nodeHaTakeoverPre n false m := by
      have hstatus : m.status ≠ .needResync := by
        rw [hreaches.1]
        exact nofun
      rw [Attempt.run, if_neg hstatus, hchecks]
    rw [hrun]
    exact nodeHaTakeoverPre_of_reaches hreaches

/-- A failed takeover changes the record without a fence command, or where its write fails and lands. -/
theorem failed_unchanged_iff :
    ((a.run n).ok = false → ∀ disk, Unchanged (a.run n) disk) ↔ (a.ReachesWrite n → a.WriteOk n) := by
  rw [forall_unchanged_iff]
  by_cases hreaches : a.ReachesWrite n
  · obtain ⟨hok, hwritten⟩ := run_of_reaches hreaches
    rw [hok, hwritten, Attempt.WriteOk]
    cases a.meets.write with
    | ok => cases a.handsOver <;> cases n.fenceEnabled <;> simp [haSetConfig, hreaches]
    | noDisk | noPage => simp [haSetConfig]
    | error landed => cases landed <;> simp [haSetConfig, hreaches]
  · exact ⟨fun _ h => absurd h hreaches, fun _ _ => written_of_not_reaches hreaches⟩

/-- The standby of a running master misses its pings, and has no fence command. -/
theorem unfenced_takes_record : ∃ (n : HaNode) (a : Attempt) (disk : HaConfig), (a.run n).ok = false ∧
    ¬LostQuorum 1 disk ∧ LostQuorum 1 ((a.run n).leaves disk) := by
  refine ⟨⟨2, false, false⟩, .peerFailed ⟨some (.enabled 1 7), some (.enabled 1 7), false⟩
    ⟨.done, false, some (.enabled 1 7), false, some (.enabled 1 7), .ok, 9⟩, .enabled 1 7, rfl, ?_, ?_⟩
  · exact fun h => h rfl
  · exact fun h => absurd h (by decide)

end QuadStor.Ha
