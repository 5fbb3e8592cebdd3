import QuadStor.Lib.BigEndian
import QuadStor.Lib.Fill
import QuadStor.Reservations.Basic
import QuadStor.Geometry

/-!
# Commands that answer with a buffer

PERSISTENT RESERVE IN, MODE SENSE and READ CAPACITY (16) allocate a buffer from the allocation length of the
command, fill it through pointers and set `ctio->dxfer_len`.
-/

namespace QuadStor.DataIn

open Lib Reservations

/-- The buffer behind `ctio->data_ptr`, the stores made through it in program order, and `ctio->dxfer_len` -/
structure Answer where
  bufferSize : Nat
  stores : List ByteStore
  dxferLen : Nat
  deriving DecidableEq, Repr

inductive Outcome where
  | noMemory
  | checkCondition
  | noData
  | answer (a : Answer)
  deriving DecidableEq, Repr

/-- `new_length` of `ctio_allocate_buffer` -/
def ctioAllocateBuffer (initInt length : Nat) : Nat :=
  if initInt = targetIntIscsi ∧ length % 4 ≠ 0 then length + (4 - length % 4) else length

def Answer.transferred (a : Answer) (m : Memory) : List UInt8 := fetch (applyStores m a.stores) 0 a.dxferLen

def put (offset width value : Nat) : ByteStore := ⟨offset, hostBytes width value⟩

def bzero (offset length : Nat) : ByteStore := ⟨offset, List.replicate length 0⟩

/-- A command as its front end passes it on; `allocated` says whether `malloc` succeeds. -/
structure Ctio where
  initInt : Nat
  allocated : Bool
  deriving DecidableEq, Repr

/-- PERSISTENT RESERVE IN answers start with the generation and the length of what follows; `done` is a 16-bit count,
`done - 8` an `int`. -/
def reserveInAnswer (ctio : Ctio) (allocationLength : Nat) (generation : Nat) (body : List ByteStore) (done : Nat) :
    Outcome :=
  if ctio.allocated then
    .answer {
      bufferSize := ctioAllocateBuffer ctio.initInt allocationLength
      stores := put 0 4 (htobe 4 generation) :: body ++ [put 4 4 (htobe 4 (done + 2 ^ 32 - 8))]
      dxferLen := if done < allocationLength then done else allocationLength }
  else .noMemory

def keySize (_ : Registration) : Nat := 8

def keyDescriptor (registration : Registration) (done : Nat) : List ByteStore :=
  [put done 8 (htobe 8 registration.key)]

def persistentReservationReadKeys (ctio : Ctio) (allocationLength : UInt16) (r : Reservation) : Outcome :=
  let loop := fillLoop allocationLength.toNat keySize keyDescriptor r.registrationList 8
  reserveInAnswer ctio allocationLength.toNat r.generation loop.1 loop.2

def pinData (r : Reservation) : List UInt8 :=
  hostBytes 8 (htobe 8 (if inPersistentArType r then 0 else r.persistentKey)) ++ hostBytes 4 0 ++ [0] ++
    [UInt8.ofNat r.persistentType.1] ++ hostBytes 2 0

/-- `sizeof(pin_data)` in the test is the size of a pointer. -/
def persistentReservationReadReservations (ctio : Ctio) (allocationLength : UInt16) (r : Reservation) : Outcome :=
  let body := if r.isReserved ∧ allocationLength.toNat ≥ 8 + 8 then [⟨8, pinData r⟩] else []
  let done := if r.isReserved then 8 + 16 else 8
  reserveInAnswer ctio allocationLength.toNat r.generation body done

def targetIntLocal : Nat := 1

def targetIntFc : Nat := 5

def cString (name : String) : List UInt8 := name.toByteArray.data.toList.takeWhile (· ≠ 0)

/-- A name has at most 255 bytes, so the 16 bits of it and of `desc_size` are enough. -/
def transportSize (registration : Registration) : Nat :=
  if registration.nexus.initInt = targetIntIscsi then 4 + (cString registration.initName).length
  else if registration.nexus.initInt = targetIntFc then 24
  else if registration.nexus.initInt = targetIntLocal then 24
  else 0

def descSize (registration : Registration) : Nat := 24 + transportSize registration

/-- `struct pfull_data`, cleared and filled; `addl_len` is a field of four bytes. -/
def pfullData (r : Reservation) (registration : Registration) : List UInt8 :=
  let holder := r.isReserved && isPersistentReservationHolder r registration.nexus
  hostBytes 8 (htobe 8 registration.key) ++ hostBytes 4 0 ++ [if holder then 1 else 0] ++
    [if holder then UInt8.ofNat r.persistentType.1 else 0] ++ hostBytes 4 0 ++ hostBytes 2 (htobe 2 r.rPrt) ++
    hostBytes 4 (htobe 2 (transportSize registration))

/-- The stores of the transport id at `done`, after it is cleared; `strcpy` ends the name with a NUL. -/
def transportId (registration : Registration) (done : Nat) : List ByteStore :=
  if registration.nexus.initInt = targetIntIscsi then
    [⟨done, [0x05]⟩, put (done + 2) 2 (htobe 2 (transportSize registration - 4)),
      ⟨done + 4, cString registration.initName ++ [0]⟩]
  else if registration.nexus.initInt = targetIntFc then
    put (done + 8) 8 registration.nexus.iPrt.1 ::
      (if registration.nexus.iPrt.2 ≠ 0 then [⟨done, [0x04]⟩, put (done + 16) 8 registration.nexus.iPrt.2] else [])
  else if registration.nexus.initInt = targetIntLocal then [⟨done, [0x01]⟩, put (done + 2) 2 (htobe 2 0x07)]
  else []

def fullDescriptor (r : Reservation) (registration : Registration) (done : Nat) : List ByteStore :=
  ⟨done, pfullData r registration⟩ :: bzero (done + 24) (transportSize registration) ::
    transportId registration (done + 24)

def persistentReservationReadFull (ctio : Ctio) (allocationLength : UInt16) (r : Reservation) : Outcome :=
  let loop := fillLoop allocationLength.toNat descSize (fullDescriptor r) r.registrationList 8
  reserveInAnswer ctio allocationLength.toNat r.generation loop.1 loop.2

def reservationCapabilities : List UInt8 := hostBytes 2 (htobe 2 8) ++ [0, 0x80, 0xea, 0x1, 0, 0]

def persistentReservationReadCapabilities (ctio : Ctio) (allocationLength : UInt16) : Outcome :=
  let minLen := min allocationLength.toNat 8
  if ctio.allocated then
    .answer {
      bufferSize := ctioAllocateBuffer ctio.initInt minLen
      stores := [⟨0, reservationCapabilities.take minLen⟩]
      dxferLen := minLen }
  else .noMemory

inductive ReserveInAction where
  | readKeys
  | readReservations
  | readCapabilities
  | readFull
  | other
  deriving DecidableEq, Repr

def tdiskCmdPersistentReserveIn (ctio : Ctio) (action : ReserveInAction) (allocationLength : UInt16)
    (r : Reservation) : Outcome :=
  if allocationLength.toNat < 8 then .checkCondition
  else
    match action with
    | .readKeys => persistentReservationReadKeys ctio allocationLength r
    | .readReservations => persistentReservationReadReservations ctio allocationLength r
    | .readCapabilities => persistentReservationReadCapabilities ctio allocationLength
    | .readFull => persistentReservationReadFull ctio allocationLength r
    | .other => .checkCondition

structure Disk where
  endLba : Nat
  lbaShift : LbaShift
  threshold : Nat
  deriving DecidableEq, Repr

def cachingModePage : List UInt8 :=
  [0x08, 0x12, 0x10, 0, 0xff, 0xff, 0, 0xff, 0xff, 0xff, 0xff, 0xff, 0, 0, 0, 0, 0, 0, 0, 0]

def controlModePage : List UInt8 := [0x0a, 0x0a, 0x20, 0, 0x40, 0, 0, 0, 0, 0, 0, 0]

def rwErrorRecoveryPage : List UInt8 := [0x01, 0x0a, 0, 0, 0, 0, 0, 0x80, 0, 0, 0, 0]

def alignSize (size boundary : Nat) : Nat := u64 (size + (boundary - 1)) / boundary * boundary

def thresholdSet (disk : Disk) : Nat :=
  let setSize := match disk.lbaShift with
    | .page => 8
    | .sector => 11
  let bytes := u64 (disk.endLba * 2 ^ disk.lbaShift.bits)
  alignSize (u64 (bytes / 100 * disk.threshold)) (2 ^ setSize) / 2 ^ disk.lbaShift.bits / 2 ^ setSize

def logicalBlockProvisioningModePage (disk : Disk) : List UInt8 :=
  [0x1c, 0x2, 0, 0x14, 0x1] ++ List.replicate 11 0 ++ [0x80, 0x01, 0, 0] ++ hostBytes 4 (htobe 4 (thresholdSet disk))

structure Pages where
  offset : Nat
  avail : Nat
  stores : List ByteStore
  deriving DecidableEq, Repr

/-- `min_len` is positive in the source when the copy is made; `offset` stays below the allocation length. -/
def Pages.copy (p : Pages) (allocationLength : Nat) (page : List UInt8) : Pages :=
  let minLen := min page.length (allocationLength - p.offset)
  { offset := p.offset + minLen
    avail := p.avail + page.length
    stores := if minLen > 0 then p.stores ++ [⟨p.offset, page.take minLen⟩] else p.stores }

def allPages : Nat := 0x3f

def modeSenseCurrentValues (disk : Disk) (allocationLength pageCode : Nat) (p : Pages) : Pages :=
  let p := if pageCode = allPages ∨ pageCode = 0x08 then p.copy allocationLength cachingModePage else p
  let p := if pageCode = allPages ∨ pageCode = 0x0a then p.copy allocationLength controlModePage else p
  let p :=
    if disk.threshold ≠ 0 ∧ (pageCode = allPages ∨ pageCode = 0x1c) then
      p.copy allocationLength (logicalBlockProvisioningModePage disk)
    else p
  if pageCode = allPages ∨ pageCode = 0x01 then p.copy allocationLength rwErrorRecoveryPage else p

/-- `struct mode_parameter_header6` and `struct mode_parameter_header10`: the size, the offsets of `medium_type` and
`block_descriptor_length`, and the width of that field and of `mode_data_length` -/
structure ModeHeader where
  size : Nat
  mediumType : Nat
  blockDescriptorLength : Nat
  width : Nat
  deriving DecidableEq, Repr

def modeParameterHeader6 : ModeHeader := ⟨4, 1, 3, 1⟩

def modeParameterHeader10 : ModeHeader := ⟨8, 2, 6, 2⟩

inductive PageControl where
  | current
  | changeable
  | default
  | saved
  deriving DecidableEq, Repr

/-- Both words of the descriptor are stored when there is room for a part of it. -/
def modeSenseBlockDescriptor (disk : Disk) (allocationLength : Nat) (p : Pages) : Pages :=
  let minLen := min 8 (allocationLength - p.offset)
  let blocks := if disk.endLba > 0xffffffff then 0xffffffff else htobe 4 (disk.endLba + 2 ^ 64 - 1)
  { p with
    offset := p.offset + minLen
    stores :=
      if minLen > 0 then
        p.stores ++ [put p.offset 4 blocks, put (p.offset + 4) 4 (htobe 4 (2 ^ disk.lbaShift.bits))]
      else p.stores }

def ModeHeader.describe (h : ModeHeader) (disk : Disk) (dbd : Bool) (allocationLength : Nat) : Pages :=
  let p : Pages := ⟨min allocationLength h.size, h.size, [bzero 0 allocationLength]⟩
  if dbd then { p with stores := p.stores ++ [put h.blockDescriptorLength h.width 0] }
  else
    let p := modeSenseBlockDescriptor disk allocationLength p
    { p with
      avail := p.avail + 8
      stores := p.stores ++ [put h.blockDescriptorLength h.width (htobe h.width 8)] }

def modeSense (h : ModeHeader) (ctio : Ctio) (disk : Disk) (dbd : Bool) (pc : PageControl)
    (pageCode allocationLength : Nat) : Outcome :=
  if allocationLength = 0 then .noData
  else if allocationLength < h.size - h.mediumType then .checkCondition
  else if ctio.allocated then
    let described := h.describe disk dbd allocationLength
    let p := match pc with
      | .changeable => described
      | .current | .default | .saved => modeSenseCurrentValues disk allocationLength pageCode described
    .answer {
      bufferSize := ctioAllocateBuffer ctio.initInt allocationLength
      stores := p.stores ++ [put 0 h.width (htobe h.width (p.avail - h.mediumType))]
      dxferLen := p.offset }
  else .noMemory

def tdiskCmdModeSense6 (ctio : Ctio) (disk : Disk) (dbd : Bool) (pc : PageControl) (pageCode : Nat)
    (allocationLength : UInt8) : Outcome :=
  modeSense modeParameterHeader6 ctio disk dbd pc pageCode allocationLength.toNat

def tdiskCmdModeSense10 (ctio : Ctio) (disk : Disk) (dbd : Bool) (pc : PageControl) (pageCode : Nat)
    (allocationLength : UInt16) : Outcome :=
  modeSense modeParameterHeader10 ctio disk dbd pc pageCode allocationLength.toNat

def tdiskCmdServiceActionIn (ctio : Ctio) (disk : Disk) (lba : Nat) (pmi : Bool) (serviceAction : Nat)
    (allocationLength : UInt32) : Outcome :=
  if allocationLength = 0 then .noData
  else if lba ≠ 0 ∧ pmi = false ∨ serviceAction ≠ 0x10 then .checkCondition
  else if ctio.allocated then
    .answer {
      bufferSize := ctioAllocateBuffer ctio.initInt 32
      stores := [bzero 0 32, put 0 8 (htobe 8 (disk.endLba + 2 ^ 64 - 1)),
        put 8 4 (htobe 4 (2 ^ disk.lbaShift.bits)), ⟨14, [0x80]⟩, ⟨14, [0xc0]⟩]
      dxferLen := allocationLength.toNat }
  else .noMemory

end QuadStor.DataIn
