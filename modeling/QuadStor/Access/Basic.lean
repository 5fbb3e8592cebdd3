import QuadStor.ExtendedCopy.Basic
import QuadStor.Reservations.Basic

/-!
# Reservations and the commands that change data

The reservation is looked at once, for the disk a command is sent to. The disks an EXTENDED COPY writes to are found
later, from its parameter list.
-/

namespace QuadStor.Access

open Lib Command Reservations
open Token (Descriptor RefIo CopyIo)
open ExtendedCopy (Segment ExtendedCopyRun extendedCopyGetTdisks)

inductive Opcode where
  | testUnitReady
  | inquiry
  | requestSense
  | readCapacity
  | serviceActionIn
  | reportLuns
  | logSelect
  | logSense
  | modeSelect6
  | modeSelect10
  | modeSense6
  | modeSense10
  | reserve
  | release
  | persistentReserveIn
  | persistentReserveOut
  | read6
  | read10
  | read12
  | read16
  | verify
  | verify12
  | verify16
  | synchronizeCache
  | synchronizeCache16
  | receiveCopyResults
  | write6
  | write10
  | write12
  | write16
  | writeSame
  | writeSame16
  | unmap
  | compareAndWrite
  | extendedCopy
  deriving DecidableEq, Repr

/-- The switch of `tdisk_cmd_access_ok` for `RESERVATION_TYPE_RESERVE` -/
def reserveAccessOk : Opcode → Bool
  | .logSelect | .modeSelect6 | .modeSelect10 | .modeSense6 | .modeSense10 | .persistentReserveIn
  | .persistentReserveOut | .testUnitReady | .reserve | .read6 | .read10 | .read12 | .read16 | .write6 | .write10
  | .write12 | .write16 | .unmap | .extendedCopy | .receiveCopyResults | .compareAndWrite | .writeSame | .writeSame16
  | .synchronizeCache | .synchronizeCache16 | .verify | .verify12 | .verify16 => false
  | .inquiry | .logSense | .reportLuns | .release => true
  | _ => true

def persistentAccessOk (writeExcl exclAccess writeExclRo exclAccessRo registered : Bool) : Opcode → Bool
  | .logSelect | .modeSense6 | .modeSense10 | .modeSelect6 | .modeSelect10 | .testUnitReady | .write6 | .write10
  | .write12 | .write16 | .unmap | .extendedCopy | .receiveCopyResults | .compareAndWrite | .writeSame | .writeSame16
  | .synchronizeCache | .synchronizeCache16 =>
    !(writeExcl || exclAccess) && !((writeExclRo || exclAccessRo) && !registered)
  | .read6 | .read10 | .read12 | .read16 | .verify | .verify12 | .verify16 =>
    !exclAccess && !(exclAccessRo && !registered)
  | .inquiry | .persistentReserveIn | .persistentReserveOut | .reportLuns => true
  | .release | .reserve => false
  | _ => true

def tdiskCmdAccessOk (r : Reservation) (n : Nexus) (op : Opcode) : Bool :=
  if !deviceReserved r n then true
  else if r.type = .reserve then reserveAccessOk op
  else
    persistentAccessOk (r.persistentType = writeExclusive) (r.persistentType = exclusiveAccess)
      (r.persistentType = writeExclusiveRO || r.persistentType = writeExclusiveAR)
      (r.persistentType = exclusiveAccessRO || r.persistentType = exclusiveAccessAR) (initiatorHasRegisteredAr r n) op

/-- The commands that come down to `__tdisk_cmd_write` for the disk they are sent to -/
inductive WriteOpcode where
  | write6
  | write10
  | write12
  | write16
  | writeSame
  | writeSame16
  | unmap
  | compareAndWrite
  deriving DecidableEq, Repr

def WriteOpcode.opcode : WriteOpcode → Opcode
  | .write6 => .write6
  | .write10 => .write10
  | .write12 => .write12
  | .write16 => .write16
  | .writeSame => .writeSame
  | .writeSame16 => .writeSame16
  | .unmap => .unmap
  | .compareAndWrite => .compareAndWrite

structure WriteCall where
  io : WriteIo
  lba : Nat
  transferLength : Nat
  pages : List Pgdata

inductive Operation where
  | persistentReserveOut (c : Prout)
  | reserve
  | release
  | write (opcode : WriteOpcode) (calls : List WriteCall)
  | populateToken (io : RefIo) (rod : Nat) (descriptors : List Descriptor)
  | writeUsingToken (io : CopyIo) (rod offset : Nat) (descriptors : List Descriptor)
  | extendedCopy (targets : List (Option Nat)) (segments : List (CopyIo × Segment))
  | other (opcode : Opcode)

/-- POPULATE TOKEN and WRITE USING TOKEN are service actions of EXTENDED COPY. -/
def Operation.opcode : Operation → Opcode
  | .persistentReserveOut _ => .persistentReserveOut
  | .reserve => .reserve
  | .release => .release
  | .write opcode _ => opcode.opcode
  | .populateToken _ _ _ | .writeUsingToken _ _ _ _ | .extendedCopy _ _ => .extendedCopy
  | .other opcode => opcode

structure Command where
  nexus : Nexus
  disk : Nat
  op : Operation

def Operation.reservation (n : Nexus) : Operation → Option Reservations.Command
  | .persistentReserveOut c => some (.persistentReserveOut { c with nexus := n })
  | .reserve => some (.reserve n)
  | .release => some (.release n)
  | _ => none

variable {disks : Nat → Settings}

inductive Writes (disk : Nat) : Token.State disks → List WriteCall → Token.State disks → Prop where
  | nil {s : Token.State disks} : Writes disk s [] s
  | cons {s s₁ s₂ : Token.State disks} {call : WriteCall} {rest : List WriteCall} {ok : Bool} :
      s.TdiskCmdWrite call.io disk call.lba call.transferLength call.pages s₁ ok → Writes disk s₁ rest s₂ →
      Writes disk s (call :: rest) s₂

inductive Effect (s : Token.State disks) (disk : Nat) : Operation → Token.State disks → Prop where
  | write {opcode : WriteOpcode} {calls : List WriteCall} {s' : Token.State disks} :
      Writes disk s calls s' → Effect s disk (.write opcode calls) s'
  | populateToken {io : RefIo} {rod : Nat} {descriptors : List Descriptor} : s.token rod = none →
      Effect s disk (.populateToken io rod descriptors) (s.populateToken io disk rod descriptors)
  | writeUsingToken {io : CopyIo} {rod offset written : Nat} {descriptors : List Descriptor} {s' : Token.State disks}
      {status : Token.Status} : status ≠ .undefined →
      s.WriteUsingToken io ⟨disk, rod, offset, descriptors⟩ s' status written →
      Effect s disk (.writeUsingToken io rod offset descriptors) s'
  | extendedCopy {targets : List (Option Nat)} {segments : List (CopyIo × Segment)} {s' : Token.State disks}
      {good : Bool} : ExtendedCopyRun targets s segments s' good →
      Effect s disk (.extendedCopy targets segments) s'

structure State (disks : Nat → Settings) where
  reservation : Nat → Reservation
  store : Token.State disks

inductive Action where
  | command (c : Command)
  | reset (disk : Nat)
  | rodTokenErrorFree (rod : Nat)

inductive Step (s : State disks) : Action → State disks → Prop where
  /-- BUSY, sense data that was pending, a reservation conflict, or nothing to do -/
  | answered {c : Command} : Step s (.command c) s
  | effect {c : Command} {store : Token.State disks} :
      tdiskCmdAccessOk (s.reservation c.disk) c.nexus c.op.opcode = true → Effect s.store c.disk c.op store →
      Step s (.command c) { s with store }
  | reservation {c : Command} {command : Reservations.Command} :
      tdiskCmdAccessOk (s.reservation c.disk) c.nexus c.op.opcode = true →
      c.op.reservation c.nexus = some command →
      Step s (.command c) { s with
        reservation := Function.update s.reservation c.disk (execute (s.reservation c.disk) command) }
  | reset {disk : Nat} : Step s (.reset disk) { s with
      reservation := Function.update s.reservation disk (execute (s.reservation disk) .reset) }
  | rodTokenErrorFree {rod : Nat} : Step s (.rodTokenErrorFree rod) { s with store := s.store.rodTokenErrorFree rod }

def system (disks : Nat → Settings) : System (State disks) Action where
  init s := (Token.system disks).init s.store
  step := Step

def registrantsType (t : Fin 16) : Bool :=
  t = writeExclusiveRO || t = exclusiveAccessRO || allRegistrantsType t

/-- The nexus does not hold the persistent reservation, and is not registered where that would do. -/
def Excluded (r : Reservation) (n : Nexus) : Prop :=
  r.Held ∧ supportedType r.persistentType = true ∧ isPersistentReservationHolder r n = false ∧
    (registrantsType r.persistentType = true → initiatorHasRegisteredAr r n = false)

/-- The reservation is not that of the nexus, and it keeps out what changes data. -/
def Barred (r : Reservation) (n : Nexus) : Prop :=
  deviceReserved r n = true ∧ (r.type = .reserve ∨ r.persistentType = writeExclusive ∨
    r.persistentType = exclusiveAccess ∨
    registrantsType r.persistentType = true ∧ initiatorHasRegisteredAr r n = false)

inductive Path where
  | direct
  /-- a segment of an EXTENDED COPY names it -/
  | copy (dest : Nat)
  deriving DecidableEq, Repr

def Path.dest (disk : Nat) : Path → Nat
  | .direct => disk
  | .copy dest => dest

def segmentDest (disks : Nat → Settings) (targets : List (Option Nat)) (seg : Segment) : Option Nat :=
  if seg.typeCode = 2 ∧ seg.numBlocks ≠ 0 then (extendedCopyGetTdisks disks targets seg).map Prod.snd else none

def Operation.paths (disks : Nat → Settings) : Operation → List Path
  | .write _ _ | .writeUsingToken _ _ _ _ => [.direct]
  | .extendedCopy targets segments => (segments.filterMap fun p => segmentDest disks targets p.2).map .copy
  | _ => []

/-- No command that comes to the disk this way changes its data. -/
def Protects (rs : Nat → Reservation) (n : Nexus) (disk : Nat) (path : Path) : Prop :=
  ∀ {disks : Nat → Settings} {s s' : State disks} {c : Command}, (system disks).Reachable s → s.reservation = rs →
    c.nexus = n → c.disk = disk → path ∈ c.op.paths disks → Step s (.command c) s' →
    s'.store.volume (path.dest disk) = s.store.volume (path.dest disk)

end QuadStor.Access
