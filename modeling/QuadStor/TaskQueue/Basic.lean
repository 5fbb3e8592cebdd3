import QuadStor.Lib.System
import Mathlib.Data.List.Basic
import Mathlib.Data.List.Count

/-!
# The task queue of one initiator

`istate->queue_list` holds the commands of one I_T nexus that have arrived and not completed, in order of arrival.
-/

namespace QuadStor.TaskQueue

open Lib

inductive TaskAttr where
  | simple
  | headOfQueue
  | ordered
  | aca
  deriving DecidableEq, Repr

/-- A command, by the number of commands that arrived before it. -/
structure Task where
  tag : Nat
  taskAttr : TaskAttr
  deriving DecidableEq, Repr

/-- The attributes that `istate_queue_cmd` and `istate_remove_cmd` treat as ordered. -/
def Task.isOrdered (task : Task) : Bool :=
  match task.taskAttr with
  | .ordered | .aca => true
  | .simple | .headOfQueue => false

/-- The part of `struct qsio_scsiio` the queue looks at. -/
structure Ctio extends Task where
  queued : Bool
  deriving DecidableEq, Repr

/-- What is behind `istate_lock`. `queued`, `ordered` and `head` count commands that have been started, `pending` those
that wait. -/
structure Istate where
  ordered : Nat
  head : Nat
  queued : Nat
  pending : Nat
  queueList : List Ctio
  deriving DecidableEq, Repr

def mayStart (istate : Istate) : TaskAttr → Bool
  | .simple => istate.ordered = 0 ∧ istate.head = 0
  | .headOfQueue => true
  | .ordered | .aca => istate.queued = 0

def istateQueueCmd (istate : Istate) (task : Task) : Istate :=
  let exec := mayStart istate task.taskAttr
  { ordered := if exec && task.isOrdered then istate.ordered + 1 else istate.ordered
    head := if task.taskAttr = .headOfQueue then istate.head + 1 else istate.head
    queued := if exec then istate.queued + 1 else istate.queued
    pending := if exec then istate.pending else istate.pending + 1
    queueList := istate.queueList ++ [⟨task, exec⟩] }

/-- The first half of `istate_remove_cmd`: a command that had been started leaves the counters. -/
def uncount (istate : Istate) (ctio : Ctio) : Istate :=
  if ctio.queued then
    { istate with
      queued := istate.queued - 1
      head := if ctio.taskAttr = .headOfQueue then istate.head - 1 else istate.head
      ordered := if ctio.isOrdered then istate.ordered - 1 else istate.ordered }
  else istate

abbrev Scanned := List Ctio × List Task

def Scanned.pass (iter : Ctio) (r : Scanned) : Scanned := (iter :: r.1, r.2)

def Scanned.start (iter : Ctio) (r : Scanned) : Scanned :=
  ({ iter with queued := true } :: r.1, iter.toTask :: r.2)

/-- The loop over the rest of the list: `queued` commands passed so far, all of them started, `ordered` of them not
simple -/
def rescan : Nat → Nat → List Ctio → Scanned
  | _, _, [] => ([], [])
  | ordered, queued, iter :: rest =>
    if iter.queued then
      .pass iter (rescan (if iter.taskAttr = .simple then ordered else ordered + 1) (queued + 1) rest)
    else
      match iter.taskAttr with
      | .simple =>
        if ordered ≠ 0 then (iter :: rest, []) else .start iter (rescan ordered (queued + 1) rest)
      | .headOfQueue => (iter :: rest, [])
      | .ordered | .aca =>
        if queued ≠ 0 then (iter :: rest, [])
        else .start iter (rescan (ordered + 1) (queued + 1) rest)

def count (istate : Istate) (task : Task) : Istate :=
  { istate with
    pending := istate.pending - 1
    queued := istate.queued + 1
    ordered := if task.isOrdered then istate.ordered + 1 else istate.ordered }

/-- `istate_remove_cmd` and the `task_list` it returns; the caller starts those commands. -/
def istateRemoveCmd (istate : Istate) (ctio : Ctio) : Istate × List Task :=
  let left := uncount istate ctio
  let queueList := istate.queueList.erase ctio
  if left.pending = 0 ∨ istate.queueList.head? ≠ some ctio then ({ left with queueList }, [])
  else
    let r := rescan 0 0 queueList
    ({ r.2.foldl count left with queueList := r.1 }, r.2)

inductive Event where
  | arrived (task : Task)
  | started (task : Task)
  | completed (task : Task)
  deriving DecidableEq, Repr

/-- `arrived` and `history` are not in the source: the number of arrivals so far, and what has
happened to each command. -/
structure State where
  istate : Istate
  arrived : Nat
  history : List Event
  deriving DecidableEq, Repr

inductive Action where
  | arrive (taskAttr : TaskAttr)
  | complete (ctio : Ctio)
  deriving DecidableEq, Repr

def State.arrive (s : State) (taskAttr : TaskAttr) : State :=
  let task : Task := ⟨s.arrived, taskAttr⟩
  { istate := istateQueueCmd s.istate task
    arrived := s.arrived + 1
    history := s.history ++ .arrived task :: (if mayStart s.istate taskAttr then [.started task] else []) }

def State.complete (s : State) (ctio : Ctio) : State :=
  let r := istateRemoveCmd s.istate ctio
  { s with
    istate := r.1
    history := s.history ++ .completed ctio.toTask :: r.2.map .started }

def State.initial : State := ⟨⟨0, 0, 0, 0, []⟩, 0, []⟩

/-- A command that leaves the queue is completed or was aborted while it waited. -/
inductive Step : State → Action → State → Prop
  | arrive (s : State) (taskAttr : TaskAttr) : Step s (.arrive taskAttr) (s.arrive taskAttr)
  | complete (s : State) (ctio : Ctio) : ctio ∈ s.istate.queueList → Step s (.complete ctio) (s.complete ctio)

def system : System State Action where
  init s := s = .initial
  step := Step

/-- An ordered command may be started only when every earlier one has completed, and no simple or ordered command while
an earlier ordered one has not. -/
structure StartOk (before : List Event) (task : Task) : Prop where
  afterEarlier : task.isOrdered = true → ∀ earlier : Task, .arrived earlier ∈ before →
    earlier.tag < task.tag → .completed earlier ∈ before
  notOvertaking : task.taskAttr ≠ .headOfQueue → ∀ earlier : Task, earlier.isOrdered = true →
    .arrived earlier ∈ before → earlier.tag < task.tag → .completed earlier ∈ before

def InOrder (history : List Event) : Prop :=
  ∀ before task after, history = before ++ .started task :: after → StartOk before task

/-- A simple command does not arrive while an ordered one waits and neither an ordered nor a head-of-queue command runs.
-/
def Allowed (s : State) : Action → Prop
  | .arrive .simple => s.istate.ordered = 0 → s.istate.head = 0 →
      ∀ ctio ∈ s.istate.queueList, ctio.isOrdered = true → ctio.queued = true
  | _ => True

end QuadStor.TaskQueue
