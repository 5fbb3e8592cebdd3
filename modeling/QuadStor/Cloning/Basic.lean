import QuadStor.Cloning.Bitmaps
import QuadStor.Lib.System

/-!
# Clones

The clone thread copies every map of the source. Writers go on meanwhile: before a map is changed `amap_clone_check`
makes the copy if the thread has not come to it yet.
-/

namespace QuadStor.Cloning

open Lib Function

structure Geometry where
  amapMax : Nat
  pos : 0 < amapMax
  le : amapMax ≤ 2 ^ 32

def Geometry.tableMax (geo : Geometry) : Nat := (geo.amapMax + amapsPerAmapTable - 1) / amapsPerAmapTable

inductive Writer where
  | idle
  /-- in `amap_clone_check`, before the bitmap -/
  | checking (isnew : Bool)
  /-- in `amap_clone_check`, the bit is set and the copy is to be made -/
  | copying
  | ready
  deriving DecidableEq

inductive Pc (α : Type) where
  /-- `amap_table_group_clone`, before table `t` -/
  | table (t : Nat)
  /-- `amap_table_clone`, before map `n` -/
  | amap (n : Nat)
  /-- map `n` has a block -/
  | claim (n : Nat)
  /-- map `n` was read and its bit set -/
  | store (n : Nat) (metadata : Option α)
  /-- before `tdisk_set_clone_amap_id` -/
  | advance (n : Nat)
  /-- `clone_list_wait` at the end of `amap_table_clone` -/
  | endTable (t : Nat)
  /-- before `amap_group_bmaps_free` -/
  | free (g : Nat)
  /-- before `tdisk_clone_cleanup` -/
  | done
  deriving DecidableEq

inductive Phase (α : Type) where
  | idle
  /-- with the local `bmap` of `amap_table_clone`: its offset and the bitmap -/
  | running (pc : Pc α) (bmap : Option (Nat × Nat))
  | finished
  deriving DecidableEq

structure State (α : Type) where
  amap : Nat → Option α
  /-- The table has the block of the map; it gets it some time after the map was made. -/
  entered : Nat → Bool
  table : Nat → Bool
  writer : Nat → Writer
  /-- the map whose writer has the source's `clone_lock` -/
  cloneLock : Option Nat
  phase : Phase α
  cloneAmapId : Nat
  cloneError : Bool
  cloneBusy : Nat
  bmaps : Bitmaps
  tableBmap : Nat → Bool
  clone : Nat → List α
  /-- not in the source: the maps when the clone was started, and those that were changed since -/
  start : Nat → Option α
  changed : Nat → Bool

variable {α : Type}

def State.inCloning (s : State α) : Bool :=
  match s.phase with
  | .running _ _ => true
  | _ => false

def State.setWriter (s : State α) (n : Nat) (w : Writer) : State α :=
  { s with writer := update s.writer n w }

def checked (isnew : Bool) : Writer := if isnew then .idle else .ready

def State.amapCloneCheck (s : State α) (n : Nat) (isnew ok : Bool) : State α :=
  if s.inCloning && !s.cloneError && decide (s.cloneAmapId < n) then
    if ok then { s.setWriter n (.checking isnew) with cloneLock := some n }
    else { s.setWriter n (checked isnew) with cloneError := true }
  else s.setWriter n (checked isnew)

def State.mark (s : State α) (n : Nat) (isnew ok : Bool) : State α :=
  if !ok then { s.setWriter n (checked isnew) with cloneError := true, cloneLock := none }
  else
    let located := s.bmaps.locate n
    if located.1.bitIsSet located.2 n then
      { s.setWriter n (checked isnew) with bmaps := located.1, cloneLock := none }
    else if isnew then
      { s.setWriter n .idle with bmaps := located.1.setBit located.2 n, cloneLock := none }
    else { s.setWriter n .copying with
        bmaps := located.1.setBit located.2 n, cloneBusy := s.cloneBusy + 1 }

def State.copy (s : State α) (n : Nat) (ok : Bool) : State α :=
  let s' := { s.setWriter n .ready with cloneBusy := s.cloneBusy - 1, cloneLock := none }
  if ok then { s' with clone := update s.clone n (s.clone n ++ (s.amap n).toList) }
  else { s' with cloneError := true }

def State.tableCheck (s : State α) (t : Nat) (ok : Bool) : State α :=
  if s.inCloning && !s.cloneError && !decide (t < tableId s.cloneAmapId) then
    if ok then { s with tableBmap := update s.tableBmap t true } else { s with cloneError := true }
  else s

/-! ## The clone thread -/

def nextTable (geo : Geometry) (t : Nat) : Pc α :=
  if (t + 1) % amapTablePerGroup = 0 ∨ t + 1 = geo.tableMax then .free (t / amapTablePerGroup) else .table (t + 1)

def nextAmap (geo : Geometry) (n : Nat) : Pc α :=
  if (n + 1) % amapsPerAmapTable = 0 ∨ n + 1 = geo.amapMax then .endTable (tableId n) else .amap (n + 1)

def nextGroup (geo : Geometry) (g : Nat) : Pc α :=
  if (g + 1) * amapTablePerGroup < geo.tableMax then .table ((g + 1) * amapTablePerGroup) else .done

def State.goto (s : State α) (pc : Pc α) (bmap : Option (Nat × Nat)) : State α :=
  { s with phase := .running pc bmap }

def State.fail (s : State α) : State α := { s.goto .done none with cloneError := true }

def State.setCloneAmapId (s : State α) (n : Nat) : State α := { s with cloneAmapId := max s.cloneAmapId n }

/-- The bitmap that `amap_table_clone` looks at: the one it has, if it is the right one -/
def State.sweepLocate (s : State α) (n : Nat) (bmap : Option (Nat × Nat)) : Bitmaps × Nat :=
  match bmap with
  | some (offset, bmap) => if offset = amapBitmapGroupOffset n then (s.bmaps, bmap) else s.bmaps.locate n
  | none => s.bmaps.locate n

def State.claim (geo : Geometry) (s : State α) (n : Nat) (bmap : Option (Nat × Nat)) : State α :=
  let located := s.sweepLocate n bmap
  let bmap := some (amapBitmapGroupOffset n, located.2)
  if located.1.bitIsSet located.2 n then
    ({ s with bmaps := located.1 }.setCloneAmapId n).goto (nextAmap geo n) bmap
  else { s with bmaps := located.1.setBit located.2 n }.goto (.store n (s.amap n)) bmap

/-- One step of the clone thread; `ok` tells whether what it asks for is done. -/
def State.sweep (geo : Geometry) (s : State α) (ok : Bool) : Option (State α) :=
  match s.phase with
  | .running (.table t) _ =>
    if !s.table t || s.tableBmap t then some (s.goto (nextTable geo t) none)
    else if ok then some (s.goto (.amap (amapsPerAmapTable * t)) none)
    else some s.fail
  | .running (.amap n) bmap =>
    if !s.entered n then some (s.goto (.advance n) bmap)
    else if ok then some (s.goto (.claim n) bmap)
    else some s.fail
  | .running (.claim n) bmap => if ok then some (s.claim geo n bmap) else some s.fail
  | .running (.store n metadata) bmap =>
    if ok then
      some ({ s with clone := update s.clone n (s.clone n ++ metadata.toList) }.goto (.advance n) bmap)
    else some s.fail
  | .running (.advance n) bmap => some ((s.setCloneAmapId n).goto (nextAmap geo n) bmap)
  | .running (.endTable t) _ =>
    if s.cloneBusy ≠ 0 then none
    else if s.cloneError then some s.fail
    else some (s.goto (nextTable geo t) none)
  | .running (.free g) _ =>
    some ({ s with
      bmaps := s.bmaps.free g
      tableBmap := fun t => if t / amapTablePerGroup = g then false else s.tableBmap t }.goto (nextGroup geo g) none)
  | .running .done _ => if s.cloneLock.isNone then some { s with phase := .finished } else none
  | _ => none

inductive Action (α : Type) where
  | start
  | newTable (t : Nat) (ok : Bool)
  /-- `amap_new` for a write, and the begin of `amap_clone_check` -/
  | create (n : Nat) (ok : Bool)
  /-- `set_amap_block` in `pgdata_wait_for_amap` -/
  | enter (n : Nat)
  /-- `__pgdata_amap_io` takes the lock of a map, and the begin of `amap_clone_check` -/
  | look (n : Nat) (ok : Bool)
  | mark (ok : Bool)
  | copy (ok : Bool)
  | change (n : Nat) (metadata : α)
  /-- `pgdata_cancel`: a write that fails puts its entries back, and does not call `amap_clone_check`. -/
  | undo (n : Nat) (metadata : α)
  | cancel
  | sweep (ok : Bool)

def exec [Inhabited α] (geo : Geometry) (s : State α) : Action α → Option (State α)
  | .start =>
    match s.phase with
    | .idle => some { s with phase := .running (.table 0) none, start := s.amap, changed := fun _ => false }
    | _ => none
  | .newTable t ok =>
    if s.table t || decide (geo.tableMax ≤ t) || s.cloneLock.isSome then none
    else some ({ s with table := update s.table t true }.tableCheck t ok)
  | .create n ok =>
    if (s.amap n).isSome || !s.table (tableId n) || decide (geo.amapMax ≤ n) || s.cloneLock.isSome then none
    else some ({ s with amap := update s.amap n (some default) }.amapCloneCheck n true ok)
  | .enter n =>
    if (s.amap n).isNone || s.writer n == .checking true then none
    else some { s with entered := update s.entered n true }
  | .look n ok =>
    if (s.amap n).isNone || s.writer n != .idle || s.cloneLock.isSome then none
    else some (s.amapCloneCheck n false ok)
  | .mark ok =>
    match s.cloneLock with
    | none => none
    | some n =>
      match s.writer n with
      | .checking isnew => some (s.mark n isnew ok)
      | _ => none
  | .copy ok =>
    match s.cloneLock with
    | none => none
    | some n => if s.writer n = .copying then some (s.copy n ok) else none
  | .change n metadata =>
    if s.writer n = .ready then
      some { s.setWriter n .idle with
        amap := update s.amap n (some metadata), changed := update s.changed n true }
    else none
  | .undo n metadata =>
    if (s.amap n).isNone || s.writer n != .idle then none
    else some { s with amap := update s.amap n (some metadata) }
  | .cancel => some { s with cloneError := true }
  | .sweep ok => s.sweep geo ok

structure Initial (geo : Geometry) (s : State α) : Prop where
  phase : s.phase = .idle
  cloneLock : s.cloneLock = none
  cloneError : s.cloneError = false
  cloneAmapId : s.cloneAmapId = 0
  cloneBusy : s.cloneBusy = 0
  bmaps : s.bmaps = .empty
  tableBmap : ∀ t, s.tableBmap t = false
  clone : ∀ n, s.clone n = []
  writer : ∀ n, s.writer n = .idle ∨ s.writer n = .ready ∧ s.amap n ≠ none
  amap : ∀ n, s.amap n ≠ none → n < geo.amapMax ∧ s.table (tableId n) = true
  entered : ∀ n, s.entered n = true → s.amap n ≠ none

def system [Inhabited α] (geo : Geometry) : System (State α) (Action α) where
  init := Initial geo
  step s a t := exec geo s a = some t

structure Exact (s : State α) : Prop where
  once : s.cloneError = false → ∀ n, (s.clone n).length ≤ 1
  same : s.phase = .finished → s.cloneError = false → ∀ n, s.clone n = (s.start n).toList

def Pc.BeforeFirst : Pc α → Prop
  | .table 0 | .amap 0 | .claim 0 => True
  | _ => False

def Pc.Freed (g : Nat) : Pc α → Prop
  | .table t => g < t / amapTablePerGroup
  | .amap n | .claim n | .store n _ | .advance n => g < groupId n
  | .endTable t => g < t / amapTablePerGroup
  | .free g' => g < g'
  | .done => True

/-- The first map is not looked at for a change before the thread has come to it. -/
def State.NotFirst (s : State α) (n : Nat) : Prop := ∀ pc bmap, s.phase = .running pc bmap → pc.BeforeFirst → n ≠ 0

def Allowed (s : State α) : Action α → Prop
  | .start =>
    -- no writer is between its check and its change, and every map has its block in its table
    (∀ n, s.writer n = .idle) ∧ ∀ n, s.amap n ≠ none → s.entered n = true
  | .create n _ | .look n _ => s.NotFirst n
  | .mark _ =>
    -- the bitmap is found in order, and still there unless the map is new
    ∀ n, s.cloneLock = some n → s.bmaps.Ordered n ∧
      ∀ pc bmap, s.phase = .running pc bmap → pc.Freed (groupId n) → s.writer n = .checking false → s.bmaps.IsSet n
  | .undo n _ =>
    -- a write that set its entries before the start does not put them back
    s.inCloning = true → s.changed n = true
  | .sweep _ => ∀ n bmap, s.phase = .running (.claim n) bmap → s.bmaps.Ordered n
  | _ => True

end QuadStor.Cloning
