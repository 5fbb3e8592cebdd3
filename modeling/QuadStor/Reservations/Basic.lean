import Mathlib.Data.List.Basic
import QuadStor.Lib.MachineInt
import QuadStor.Lib.System

/-!
# Reservations of a virtual disk

One `struct reservation` per disk serves `RESERVE` and `RELEASE` and `PERSISTENT RESERVE OUT`.
-/

namespace QuadStor.Reservations

open Lib

/-- The scope and the type have four bits, the service action five. -/
instance neZero16 : NeZero 16 := ⟨by decide⟩

instance neZero32 : NeZero 32 := ⟨by decide⟩

/-- An I_T nexus: initiator port, target port and target interface (`iid_equal`). -/
structure Nexus where
  iPrt : Nat × Nat
  tPrt : Nat × Nat
  initInt : Nat
  deriving DecidableEq, Repr

def targetIntIscsi : Nat := 2

def targetIntMirror : Nat := 4

/-- `reservation->type`: never set, `RESERVATION_TYPE_RESERVE` or `RESERVATION_TYPE_PERSISTENT`. -/
inductive ReservationType where
  | none
  | reserve
  | persistent
  deriving DecidableEq, Repr

/-- `struct registration`; the initiator name is only reported, never compared. -/
structure Registration where
  key : Nat
  nexus : Nexus
  rPrt : Nat
  initName : String
  deriving DecidableEq, Repr

structure Reservation where
  generation : Nat
  isReserved : Bool
  type : ReservationType
  persistentType : Fin 16
  nexus : Nexus
  rPrt : Nat
  persistentKey : Nat
  registrationList : List Registration
  deriving DecidableEq, Repr

def Reservation.empty : Reservation where
  generation := 0
  isReserved := false
  type := .none
  persistentType := 0
  nexus := ⟨(0, 0), (0, 0), 0⟩
  rPrt := 0
  persistentKey := 0
  registrationList := []

def writeExclusive : Fin 16 := 1

def exclusiveAccess : Fin 16 := 3

def writeExclusiveRO : Fin 16 := 5

def exclusiveAccessRO : Fin 16 := 6

def writeExclusiveAR : Fin 16 := 7

def exclusiveAccessAR : Fin 16 := 8

def allRegistrantsType (t : Fin 16) : Bool := t = writeExclusiveAR || t = exclusiveAccessAR

def singleHolderType (t : Fin 16) : Bool :=
  t = writeExclusive || t = exclusiveAccess || t = writeExclusiveRO || t = exclusiveAccessRO

/-- The type nibbles the switches of `reservation.c` have a case for. -/
def supportedType (t : Fin 16) : Bool := singleHolderType t || allRegistrantsType t

def inPersistentArType (r : Reservation) : Bool :=
  if !r.isReserved || r.type ≠ .persistent then false else allRegistrantsType r.persistentType

def initiatorHasRegisteredAr (r : Reservation) (n : Nexus) : Bool :=
  r.registrationList.any fun t => t.nexus = n

def initiatorHasRegistered (key : Nat) (n : Nexus) (regs : List Registration) : Bool :=
  regs.any fun t => t.nexus = n && t.key = key

/-- The default case stands for `debug_check(1); return 0`. -/
def isPersistentReservationHolder (r : Reservation) (n : Nexus) : Bool :=
  if r.type ≠ .persistent then false
  else if singleHolderType r.persistentType then r.nexus = n
  else if allRegistrantsType r.persistentType then initiatorHasRegisteredAr r n
  else false

def persistentReservationUpdateKey (r : Reservation) (n : Nexus) (key : Nat) : Reservation :=
  if r.type ≠ .persistent then r
  else if allRegistrantsType r.persistentType then r
  else if r.nexus ≠ n then r
  else { r with persistentKey := key }

def persistentReservationReset (r : Reservation) : Reservation :=
  { r with isReserved := false, type := .none, persistentType := 0, persistentKey := 0 }

def persistentReservationRemoveRegistration (r : Reservation) (n : Nexus) : Reservation :=
  if !r.isReserved then r
  else if inPersistentArType r then
    if r.registrationList.isEmpty then persistentReservationReset r else r
  else if isPersistentReservationHolder r n then persistentReservationReset r
  else r

/-- `tmp->key = service_action_key` at the first registration of the nexus. -/
def registrationSetKey (n : Nexus) (key : Nat) : List Registration → List Registration
  | [] => []
  | t :: ts => if t.nexus = n then { t with key } :: ts else t :: registrationSetKey n key ts

/-- The unlinking of the first registration of the nexus, with the `prev` pointer of the loop. -/
def registrationUnlink (n : Nexus) : List Registration → List Registration
  | [] => []
  | t :: ts => if t.nexus = n then ts else t :: registrationUnlink n ts

def registrationFind (n : Nexus) (regs : List Registration) : Option Registration :=
  regs.find? fun t => t.nexus = n

/-! ## PERSISTENT RESERVE OUT -/

/-- Status good, `RESERVATION CONFLICT`, a check condition with `ILLEGAL REQUEST` and one of four additional sense
codes; the last four come from the mirror peer or from a failure to reach it. -/
inductive Reply where
  | good
  | reservConflict
  | invalidFieldInCdb
  | parameterListLengthError
  | invalidFieldInParameterList
  | invalidReleaseOfPersistentReservation
  | busy
  | logicalUnitNotSupported
  | internalTargetFailure
  | peerSense (senseKey asc ascq : Nat)
  deriving DecidableEq, Repr

/-- What `tdisk_mirror_cmd_generic` and `tdisk_mirror_cmd_generic_nocheck` return, with the status they leave: 0 when
nothing is to be sent or the peer was taken over, 1 with the peer's status (`node_resp_status`), -1 when the command is
to end here -/
inductive MirrorAnswer where
  | notSent
  | answered (status : Reply)
  | failed (status : Reply) (hne : status ≠ .good)
  deriving DecidableEq, Repr

def MirrorAnswer.status : MirrorAnswer → Reply
  | .notSent => .good
  | .answered status | .failed status _ => status

def MirrorAnswer.isFailed : MirrorAnswer → Bool
  | .failed _ _ => true
  | _ => false

def MirrorAnswer.Refused (a : MirrorAnswer) : Prop := ∃ status, a = .answered status ∧ status ≠ .good

/-- A command with the fields of its CDB and of its parameter list, and what the mirror peer answers: `forwarded` when
the peer is the master and handles the command, `mirror` when this node has the peer follow -/
structure Prout where
  nexus : Nexus
  rPrt : Nat
  initName : String
  serviceAction : Fin 32
  scope : Fin 16
  type : Fin 16
  parameterListLength : Nat
  key : Nat
  serviceActionKey : Nat
  forwarded : MirrorAnswer
  mirror : MirrorAnswer
  deriving DecidableEq, Repr

/-- A parameter list of 24 bytes, and a mirror that is sent nothing -/
def Prout.short (nexus : Nexus) (rPrt : Nat) (initName : String) (serviceAction : Fin 32) (type : Fin 16)
    (key serviceActionKey : Nat) : Prout :=
  ⟨nexus, rPrt, initName, serviceAction, 0, type, 24, key, serviceActionKey, .notSent, .notSent⟩

def Prout.mirrorHandled (c : Prout) : Bool := c.forwarded ≠ .notSent

def Prout.mirrorFails (c : Prout) : Bool := c.mirror.isFailed

def Reservation.bump (r : Reservation) : Reservation :=
  { r with generation := u32 (r.generation + 1) }

/-- What the handlers make of a command, for each way through them -/
structure Works (ρ : Type) where
  /-- It ends with this status and nothing changes. -/
  refuse : Reply → ρ
  count : ρ
  unlink : Registration → ρ
  setKey : Registration → ρ
  register : ρ
  reserve : ρ
  release : ρ
  clear : ρ
  preempt : ρ

section

variable {ρ : Type} (w : Works ρ) (r : Reservation) (c : Prout)

/-- The part `REGISTER` and `REGISTER AND IGNORE EXISTING KEY` share for a known nexus. -/
def registerExisting (tmp : Registration) : ρ :=
  if c.mirrorFails then w.refuse c.mirror.status
  else if c.serviceActionKey = 0 then w.unlink tmp
  else w.setKey tmp

def registerNew : ρ := if c.mirrorFails then w.refuse c.mirror.status else w.register

def persistentReservationHandleRegister : ρ :=
  match registrationFind c.nexus r.registrationList with
  | some tmp => if c.key ≠ tmp.key then w.refuse .reservConflict else registerExisting w c tmp
  | none =>
    if c.key = 0 ∧ c.serviceActionKey = 0 then
      if c.mirrorFails then w.refuse c.mirror.status else w.count
    else if c.key ≠ 0 then w.refuse .reservConflict
    else registerNew w c

def persistentReservationHandleRegisterAndIgnore : ρ :=
  match registrationFind c.nexus r.registrationList with
  | some tmp => registerExisting w c tmp
  | none =>
    if c.serviceActionKey = 0 then
      if c.mirrorFails then w.refuse c.mirror.status else w.count
    else registerNew w c

def persistentReservationHandleReserve : ρ :=
  if !initiatorHasRegistered c.key c.nexus r.registrationList then w.refuse .reservConflict
  else if r.isReserved && !isPersistentReservationHolder r c.nexus then w.refuse .reservConflict
  else if r.isReserved && (r.persistentKey ≠ c.key || r.persistentType ≠ c.type) then w.refuse .reservConflict
  else if r.isReserved then w.refuse .good
  else if c.mirrorFails then w.refuse c.mirror.status
  else w.reserve

def persistentReservationHandleRelease : ρ :=
  if !r.isReserved then w.refuse .good
  else if !initiatorHasRegistered c.key c.nexus r.registrationList then w.refuse .reservConflict
  else if !inPersistentArType r && r.nexus ≠ c.nexus then w.refuse .good
  else if !inPersistentArType r && r.persistentKey ≠ c.key then w.refuse .reservConflict
  else if c.scope ≠ 0 || r.persistentType ≠ c.type then w.refuse .invalidReleaseOfPersistentReservation
  else if c.mirrorFails then w.refuse c.mirror.status
  else w.release

def persistentReservationHandleClear : ρ :=
  if !initiatorHasRegistered c.key c.nexus r.registrationList then w.refuse .reservConflict
  else if c.mirrorFails then w.refuse c.mirror.status
  else w.clear

def persistentReservationHandlePreempt : ρ :=
  if !initiatorHasRegistered c.key c.nexus r.registrationList then w.refuse .reservConflict
  else if !inPersistentArType r && r.isReserved && c.serviceActionKey = 0 then w.refuse .invalidFieldInParameterList
  else if c.mirrorFails then w.refuse c.mirror.status
  else w.preempt

def persistentReserveOut : ρ :=
  if c.mirrorHandled then w.refuse c.forwarded.status
  else if c.scope ≠ 0 then w.refuse .invalidFieldInCdb
  else if c.parameterListLength ≠ 24 then w.refuse .parameterListLengthError
  else
    match c.serviceAction.val with
    | 0 => persistentReservationHandleRegister w r c
    | 1 => persistentReservationHandleReserve w r c
    | 2 => persistentReservationHandleRelease w r c
    | 3 => persistentReservationHandleClear w r c
    | 4 | 5 => persistentReservationHandlePreempt w r c
    | 6 => persistentReservationHandleRegisterAndIgnore w r c
    | _ => w.refuse .invalidFieldInCdb

def unlinked : Reservation :=
  persistentReservationRemoveRegistration
    { r with registrationList := registrationUnlink c.nexus r.registrationList } c.nexus

def rekeyed : Reservation :=
  persistentReservationUpdateKey
    { r with registrationList := registrationSetKey c.nexus c.serviceActionKey r.registrationList } c.nexus
    c.serviceActionKey

def newRegistration : Registration where
  key := c.serviceActionKey
  nexus := c.nexus
  rPrt := c.rPrt
  initName := if c.nexus.initInt = targetIntIscsi then c.initName else ""

def reserved : Reservation :=
  { r with
    isReserved := true
    type := .persistent
    persistentType := c.type
    persistentKey := c.key
    nexus := c.nexus
    rPrt := c.rPrt }

def preemptKeeps (isAr : Bool) (t : Registration) : Bool :=
  t.nexus = c.nexus || (t.key ≠ c.serviceActionKey && (!isAr || c.serviceActionKey ≠ 0))

def preempted : Reservation :=
  let isAr := inPersistentArType r
  let kept := { r with registrationList := r.registrationList.filter (preemptKeeps c isAr) }
  if (r.isReserved && !isAr && r.persistentKey = c.serviceActionKey) || (isAr && c.serviceActionKey = 0) then
    { kept with
      type := .persistent
      nexus := c.nexus
      rPrt := c.rPrt
      persistentKey := c.key
      persistentType := c.type }
  else kept

def works : Works (Reservation × Reply) where
  refuse status := (r, status)
  count := (r.bump, c.mirror.status)
  unlink _ := ((unlinked r c).bump, c.mirror.status)
  setKey _ := ((rekeyed r c).bump, c.mirror.status)
  register := ({ r with registrationList := newRegistration c :: r.registrationList }.bump, c.mirror.status)
  reserve := (reserved r c, c.mirror.status)
  release := (persistentReservationReset r, c.mirror.status)
  clear := ((persistentReservationReset { r with registrationList := [] }).bump, c.mirror.status)
  preempt := ((preempted r c).bump, c.mirror.status)

def tdiskCmdPersistentReserveOut : Reservation × Reply := persistentReserveOut (works r c) r c

end

def deviceReserved (r : Reservation) (n : Nexus) : Bool :=
  !(!r.isReserved || r.nexus = n || n.initInt = targetIntMirror)

/-- `tdisk_cmd_access_ok` for a `RESERVE` command: a conflict under either kind of reservation. -/
def tdiskCmdAccessOk (r : Reservation) (n : Nexus) : Bool := !deviceReserved r n

def tdiskCmdReserve (r : Reservation) (n : Nexus) : Reservation × Reply :=
  if !tdiskCmdAccessOk r n then (r, .reservConflict)
  else ({ r with isReserved := true, type := .reserve, nexus := n }, .good)

def tdiskCmdRelease (r : Reservation) (n : Nexus) : Reservation × Reply :=
  if r.nexus = n then ({ r with isReserved := false }, .good) else (r, .good)

def tdiskReset (r : Reservation) : Reservation :=
  if r.isReserved && r.type = .reserve then { r with isReserved := false, type := .none } else r

inductive Command where
  | persistentReserveOut (c : Prout)
  | reserve (n : Nexus)
  | release (n : Nexus)
  | reset
  deriving DecidableEq, Repr

def execute (r : Reservation) : Command → Reservation
  | .persistentReserveOut c => (tdiskCmdPersistentReserveOut r c).1
  | .reserve n => (tdiskCmdReserve r n).1
  | .release n => (tdiskCmdRelease r n).1
  | .reset => tdiskReset r

def system : System Reservation Command where
  init r := r = .empty
  step r c r' := r' = execute r c

def Reservation.Held (r : Reservation) : Prop := r.isReserved = true ∧ r.type = .persistent

structure Reservation.WellFormed (r : Reservation) : Prop where
  nexus_unique : (r.registrationList.map Registration.nexus).Nodup
  key_ne_zero : ∀ t ∈ r.registrationList, t.key ≠ 0
  holder_registered : r.Held → allRegistrantsType r.persistentType = false →
    ∃ t ∈ r.registrationList, t.nexus = r.nexus ∧ t.key = r.persistentKey
  registrants : r.Held → allRegistrantsType r.persistentType = true → r.registrationList ≠ []
  not_held_of_nil : r.registrationList = [] → ¬r.Held

/-- `RESERVE` and `PREEMPT` carry one of the six types the code knows. -/
def Command.TypeSupported : Command → Prop
  | .persistentReserveOut c =>
    c.serviceAction.val = 1 ∨ c.serviceAction.val = 4 ∨ c.serviceAction.val = 5 → supportedType c.type = true
  | _ => True

end QuadStor.Reservations
