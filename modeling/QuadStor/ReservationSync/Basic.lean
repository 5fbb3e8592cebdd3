import QuadStor.Reservations.Basic

/-!
# The standby's copy of a reservation

The primary sends a message wherever a handler has changed the reservation or a registration, with the reservation
as it is then.
-/

namespace QuadStor.ReservationSync

open Lib Reservations

structure ReservationSpec where
  generation : Nat
  isReserved : Bool
  type : ReservationType
  persistentType : Fin 16
  nexus : Nexus
  rPrt : Nat
  persistentKey : Nat
  deriving DecidableEq, Repr

def reservationSpecFill (r : Reservation) : ReservationSpec where
  generation := r.generation
  isReserved := r.isReserved
  type := r.type
  persistentType := r.persistentType
  nexus := r.nexus
  rPrt := r.rPrt
  persistentKey := r.persistentKey

def reservationSpecCopy (r : Reservation) (spec : ReservationSpec) : Reservation where
  generation := spec.generation
  isReserved := spec.isReserved
  type := spec.type
  persistentType := spec.persistentType
  nexus := spec.nexus
  rPrt := spec.rPrt
  persistentKey := spec.persistentKey
  registrationList := r.registrationList

inductive RegistrationOp where
  | add
  | delete
  | modify
  deriving DecidableEq, Repr

inductive Message where
  | reservation (spec : ReservationSpec)
  | registration (op : RegistrationOp) (registration : Registration) (spec : ReservationSpec)
  | registrationClear (spec : ReservationSpec)
  deriving DecidableEq, Repr

def nodeReservationSyncSend (r : Reservation) : Message := .reservation (reservationSpecFill r)

def nodeRegistrationSyncSend (r : Reservation) (t : Registration) (op : RegistrationOp) : Message :=
  .registration op t (reservationSpecFill r)

def nodeRegistrationClearSyncSend (r : Reservation) : Message := .registrationClear (reservationSpecFill r)

/-- What is sent for each way through a handler. The message about a registration that is known goes out before the
generation is counted; a `PREEMPT` sends one for each registration that is taken off the list, in the order of the
list. -/
def sends (r : Reservation) (c : Prout) : Works (List Message) where
  refuse _ := []
  count := [nodeReservationSyncSend r.bump]
  unlink tmp := [nodeRegistrationSyncSend (unlinked r c) tmp .delete, nodeReservationSyncSend (unlinked r c).bump]
  setKey tmp :=
    [nodeRegistrationSyncSend (rekeyed r c) { tmp with key := c.serviceActionKey } .modify,
      nodeReservationSyncSend (rekeyed r c).bump]
  register :=
    [nodeRegistrationSyncSend { r with registrationList := newRegistration c :: r.registrationList }.bump
      (newRegistration c) .add]
  reserve := [nodeReservationSyncSend (reserved r c)]
  release := [nodeReservationSyncSend (persistentReservationReset r)]
  clear := [nodeRegistrationClearSyncSend (persistentReservationReset { r with registrationList := [] }).bump]
  preempt :=
    (r.registrationList.filter fun t => !preemptKeeps c (inPersistentArType r) t).map
        (nodeRegistrationSyncSend r · .delete) ++ [nodeReservationSyncSend (preempted r c).bump]

def tdiskCmdReserveSent (r : Reservation) (n : Nexus) : List Message :=
  if !tdiskCmdAccessOk r n then [] else [nodeReservationSyncSend (tdiskCmdReserve r n).1]

def tdiskCmdReleaseSent (r : Reservation) (n : Nexus) : List Message :=
  if r.nexus = n then [nodeReservationSyncSend (tdiskCmdRelease r n).1] else []

/-- `tdisk_reset` sends nothing about the reservation. -/
def sent (r : Reservation) : Command → List Message
  | .persistentReserveOut c => persistentReserveOut (sends r c) r c
  | .reserve n => tdiskCmdReserveSent r n
  | .release n => tdiskCmdReleaseSent r n
  | .reset => []

/-- It does not copy the name. -/
def registrationSpecAdd (r : Reservation) (t : Registration) (spec : ReservationSpec) : Reservation :=
  reservationSpecCopy { r with registrationList := { t with initName := "" } :: r.registrationList } spec

def registrationSpecRemove (r : Reservation) (t : Registration) (spec : ReservationSpec) : Reservation :=
  reservationSpecCopy { r with registrationList := registrationUnlink t.nexus r.registrationList } spec

def registrationSpecClear (r : Reservation) (spec : ReservationSpec) : Reservation :=
  reservationSpecCopy { r with registrationList := [] } spec

def receive (r : Reservation) : Message → Reservation
  | .reservation spec => reservationSpecCopy r spec
  | .registration op t spec => if op = .add then registrationSpecAdd r t spec else registrationSpecRemove r t spec
  | .registrationClear spec => registrationSpecClear r spec

structure State where
  primary : Reservation
  standby : Reservation
  deriving DecidableEq, Repr

def State.command (s : State) (c : Command) : State where
  primary := execute s.primary c
  standby := (sent s.primary c).foldl receive s.standby

def system : System State Command where
  init s := s.standby = s.primary ∧ (s.primary.registrationList.map Registration.nexus).Nodup
  step s c t := c ≠ .reset ∧ t = s.command c

structure Registers (c : Prout) : Prop where
  handled : c.mirrorHandled = false
  scope : c.scope = 0
  length : c.parameterListLength = 24
  action : c.serviceAction.val = 0 ∨ c.serviceAction.val = 6
  mirror : c.mirrorFails = false

def Rekeys (r : Reservation) (c : Prout) : Prop :=
  Registers c ∧ c.serviceActionKey ≠ 0 ∧
    ∃ tmp, registrationFind c.nexus r.registrationList = some tmp ∧ (c.serviceAction.val = 0 → c.key = tmp.key)

def AddsName (r : Reservation) (c : Prout) : Prop :=
  Registers c ∧ c.serviceActionKey ≠ 0 ∧ registrationFind c.nexus r.registrationList = none ∧
    (c.serviceAction.val = 0 → c.key = 0) ∧ c.nexus.initInt = targetIntIscsi ∧ c.initName ≠ ""

def Allowed (s : State) : Command → Prop
  | .persistentReserveOut c => ¬ Rekeys s.primary c ∧ ¬ AddsName s.primary c
  | _ => True

end QuadStor.ReservationSync
