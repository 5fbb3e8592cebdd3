import QuadStor.Geometry
import QuadStor.Lib.FifoQueue

/-!
# The range lock of a virtual disk

`tdisk->lba_list` holds a `struct lba_write` for every read or write in progress or waiting, in order of arrival.
-/

namespace QuadStor.RangeLock

open Lib Lib.FifoQueue

inductive Dir where
  | read
  | write
  deriving DecidableEq, Repr

/-- The arguments of one call of `tdisk_add_lba_write`, with the ranges of their C types. -/
structure Request where
  lba : Nat
  transferLength : Nat
  cw : Bool
  dir : Dir
  syncWait : Bool
  lba_lt : lba < 2 ^ 64
  transferLength_lt : transferLength < 2 ^ 32
  deriving DecidableEq, Repr

/-- `struct lba_write`, without the list links and the fields this list never looks at. -/
structure LbaWrite where
  lbaStart : Nat
  lbaEnd : Nat
  dir : Dir
  syncWait : Bool
  deriving DecidableEq, Repr

def lbaWriteOf (lbaShift : LbaShift) (r : Request) : LbaWrite :=
  let lbaDiff := match lbaShift with
    | .page => 0
    | .sector => r.lba - r.lba / 8 * 8
  let transferLength := u32 (r.transferLength + lbaDiff)
  let lba := match lbaShift with
    | .page => r.lba
    | .sector => (r.lba - lbaDiff) / 2 ^ 3
  { lbaStart := lba
    lbaEnd := addInt64 lba (s32 (transferLengthToPglistCnt lbaShift.bits transferLength))
    dir := r.dir
    syncWait := r.syncWait }

def lbaInRange (first second : LbaWrite) : Bool :=
  if first.lbaEnd ≤ second.lbaStart then false
  else if second.lbaEnd ≤ first.lbaStart then false
  else true

/-- One pass over the entries ahead of `lbaWrite`: `true` when it reaches its own entry, `false` when it goes to sleep
-/
def scanLbaList (lbaWrite : LbaWrite) : List LbaWrite → Bool
  | [] => true
  | iter :: rest =>
    if iter.syncWait then
      if !lbaWrite.syncWait then false else scanLbaList lbaWrite rest
    else if !lbaInRange lbaWrite iter && !lbaWrite.syncWait then scanLbaList lbaWrite rest
    else if lbaWrite.dir = .read ∧ iter.dir = .read ∧ lbaWrite.syncWait = false then
      scanLbaList lbaWrite rest
    else false

abbrev LbaList := List (Waiter Request)

def scan (lbaShift : LbaShift) (ahead : LbaList) (r : Request) : Status :=
  if scanLbaList (lbaWriteOf lbaShift r) (ahead.map fun v => lbaWriteOf lbaShift v.req)
  then .granted else .asleep

inductive Action where
  /-- `tdisk_add_lba_write` up to its return or its first sleep -/
  | add (r : Request)
  /-- `wait_on_chan_uncond` returns early, on a signal -/
  | signal (i : Nat)
  | again (i : Nat)
  /-- `tdisk_remove_lba_write` by the thread whose request was granted -/
  | remove (i : Nat)
  deriving DecidableEq, Repr

def step (lbaShift : LbaShift) (q : LbaList) : Action → Option LbaList
  | .add r => some (q ++ [⟨r, scan lbaShift q r⟩])
  | .signal i =>
    match q.drop i with
    | w :: post => some (q.take i ++ w.wake :: post)
    | [] => none
  | .again i =>
    match q.drop i with
    | ⟨r, .awake⟩ :: post => some (q.take i ++ ⟨r, scan lbaShift (q.take i) r⟩ :: post)
    | _ => none
  | .remove i =>
    match q.drop i with
    | ⟨_, .granted⟩ :: post => some ((q.take i ++ post).map Waiter.wake)
    | _ => none

def system (lbaShift : LbaShift) : System LbaList Action where
  init q := q = []
  step q a q' := step lbaShift q a = some q'

def pageOf (lbaShift : LbaShift) (lba : Nat) : Nat :=
  match lbaShift with
  | .page => lba
  | .sector => lba / 8

def Covers (lbaShift : LbaShift) (r : Request) (p : Nat) : Prop :=
  ∃ b, r.lba ≤ b ∧ b < r.lba + r.transferLength ∧ pageOf lbaShift b = p

def Overlap (lbaShift : LbaShift) (r r' : Request) : Prop :=
  ∃ p, Covers lbaShift r p ∧ Covers lbaShift r' p

def Compatible (lbaShift : LbaShift) (v w : Waiter Request) : Prop :=
  v.status = .granted → w.status = .granted → v.req.syncWait = w.req.syncWait ∧
    (¬(v.req.syncWait = true ∧ w.req.syncWait = true) → Overlap lbaShift v.req w.req →
      v.req.dir = .read ∧ w.req.dir = .read)

/-- With nothing granted, some waiting thread gets the lock as soon as it runs. -/
def CanProceed (lbaShift : LbaShift) (q : LbaList) : Prop :=
  q ≠ [] → (∀ w ∈ q, w.status ≠ .granted) → ∃ i q' r, step lbaShift q (.again i) = some q' ∧ q'[i]? = some ⟨r, .granted⟩

structure Safe (lbaShift : LbaShift) (q : LbaList) : Prop where
  compatible : q.Pairwise (Compatible lbaShift)
  canProceed : CanProceed lbaShift q

/-- The page count fits the `int` (4K) or the `uint32_t` byte size (512) it is computed in, and the range ends below
2^64. -/
def Request.Fits (r : Request) : LbaShift → Prop
  | .page => r.transferLength < 2 ^ 31 ∧ r.lba + r.transferLength < 2 ^ 64
  | .sector => r.lba % 8 + r.transferLength < 2 ^ 23

instance (r : Request) : (lbaShift : LbaShift) → Decidable (r.Fits lbaShift)
  | .page => inferInstanceAs (Decidable (_ ∧ _))
  | .sector => inferInstanceAs (Decidable (_ < _))

def Action.Fits (lbaShift : LbaShift) : Action → Prop
  | .add r => r.Fits lbaShift
  | _ => True

end QuadStor.RangeLock
