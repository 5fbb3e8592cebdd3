import Mathlib.Logic.Function.Basic
import QuadStor.Lib.System

/-!
# The handshake of a mirrored disk

A node that loads a mirrored disk, or has lost its peer, sends its mirror state. The peer validates its own state
and answers with it, and the node validates its own against the answer.
-/

namespace QuadStor.Handshake

open Lib

inductive Role where
  | unknown
  | master
  | peer
  deriving DecidableEq, Repr

structure MirrorState where
  mirrorRole : Role
  prevRole : Role
  needResync : Bool
  inResync : Bool
  deriving DecidableEq, Repr

def MirrorState.master (state : MirrorState) : Bool := state.mirrorRole == .master

def MirrorState.setMirrorRole (state : MirrorState) (role : Role) : MirrorState :=
  { state with prevRole := state.mirrorRole, mirrorRole := role }

/-- `mirror_state_validate`, where both nodes claim to be master; `none` is a conflict -/
def validateMasters (state peer : MirrorState) (load : Bool) : Option MirrorState :=
  if state.needResync && peer.needResync then none
  else if peer.needResync then some { state.setMirrorRole .peer with inResync := true }
  else if !state.needResync && load then some (state.setMirrorRole .peer)
  else some state

/-- `mirror_state_validate`, where no node claims to be master -/
def validatePeers (state peer : MirrorState) : Option MirrorState :=
  if state.needResync && peer.needResync then
    if state.prevRole = .master ∧ peer.prevRole = .master then none
    else if state.prevRole ≠ .master ∧ peer.prevRole ≠ .master then none
    else if state.prevRole = .master then some { state.setMirrorRole .master with prevRole := .master }
    else some state
  else if state.needResync then some (state.setMirrorRole .master)
  else if !peer.needResync && decide (state.prevRole = .master ∨ peer.prevRole ≠ .master) then
    some (state.setMirrorRole .master)
  else some state

def mirrorStateValidate (state peer : MirrorState) (load : Bool) : Option MirrorState :=
  match if peer.master && state.master then validateMasters state peer load else some state with
  | none => none
  | some state =>
    let state := if peer.master && peer.needResync then { state with inResync := true } else state
    if !peer.master && !state.master then validatePeers state peer else some state

inductive Node where
  | left
  | right
  deriving DecidableEq

def Node.other : Node → Node
  | .left => .right
  | .right => .left

inductive Stage where
  | idle
  /-- the state that `tdisk_mirror_startup` has sent -/
  | requested (sent : MirrorState)
  /-- The peer is in `node_mirror_state`, behind `mirror_state_validate`. -/
  | received
  /-- the state that the peer has answered with -/
  | replied (answer : MirrorState)
  deriving DecidableEq

/-- A handshake: the node that starts it, and which of its handshakes it is -/
abbrev Key := Node × Nat

structure State where
  node : Node → MirrorState
  stage : Key → Stage
  /-- not in the source: a validation has failed -/
  failed : Bool
  /-- not in the source: an exchange was completed -/
  completed : Bool

inductive Action where
  | start (k : Key)
  | receive (k : Key)
  | reply (k : Key)
  | finish (k : Key)

def State.setStage (s : State) (k : Key) (stage : Stage) : State :=
  { s with stage := Function.update s.stage k stage }

def State.setNode (s : State) (n : Node) (state : MirrorState) : State :=
  { s with node := Function.update s.node n state }

def exec (s : State) : Action → Option State
  | .start k =>
    -- `tdisk_mirror_startup`, up to `node_mirror_send_page`
    match s.stage k with
    | .idle => some (s.setStage k (.requested (s.node k.1)))
    | _ => none
  | .receive k =>
    -- `node_mirror_state`
    match s.stage k with
    | .requested sent =>
      match mirrorStateValidate (s.node k.1.other) sent false with
      | some state => some ((s.setNode k.1.other state).setStage k .received)
      | none => some { s.setStage k .idle with failed := true }
    | _ => none
  | .reply k =>
    match s.stage k with
    | .received => some (s.setStage k (.replied (s.node k.1.other)))
    | _ => none
  | .finish k =>
    -- `tdisk_mirror_startup`, with the answer
    match s.stage k with
    | .replied answer =>
      match mirrorStateValidate (s.node k.1) answer true with
      | some state => some { (s.setNode k.1 state).setStage k .idle with completed := true }
      | none => some { s.setStage k .idle with failed := true }
    | _ => none

def Initial (s : State) : Prop := (∀ k, s.stage k = .idle) ∧ s.failed = false ∧ s.completed = false

def system : System State Action where
  init := Initial
  step s a t := exec s a = some t

/-- One node is master, and the other one is marked if the master needs a resync. -/
def Upright (master peer : MirrorState) : Prop :=
  master.master = true ∧ peer.master = false ∧ (master.needResync = true → peer.inResync = true)

def Agreed (s : State) : Prop :=
  s.failed = false → s.completed = true → (∀ k, s.stage k = .idle) → ∃ n, Upright (s.node n) (s.node n.other)

/-- If no node is master and `a` needs a resync, then `b` becomes the master or is marked already. -/
def Fits (a b : MirrorState) : Prop :=
  a.master = true ∨ b.master = true ∨ a.needResync = false ∨ b.inResync = true ∨
    b.needResync = true ∧ b.prevRole = .master

instance {a b : MirrorState} : Decidable (Fits a b) :=
  inferInstanceAs (Decidable (_ ∨ _ ∨ _ ∨ _ ∨ _ ∧ _))

/-- A handshake is started while just one node is master, or while there is no other handshake. -/
def Allowed (s : State) : Action → Prop
  | .start k =>
    (s.node .left).master ≠ (s.node .right).master ∨ (∀ k, s.stage k = .idle) ∧ Fits (s.node k.1) (s.node k.1.other)
  | _ => True

end QuadStor.Handshake
