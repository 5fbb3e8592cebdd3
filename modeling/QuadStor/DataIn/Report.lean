import QuadStor.DataIn.Basic
import QuadStor.Lib.Records
import QuadStor.Reservations.Status

/-!
# What READ KEYS and READ FULL STATUS report

An initiator reads the header, and then the list with the lengths it finds: keys of eight bytes, or descriptors
whose 24 bytes end in a length of four bytes.
-/

namespace QuadStor.DataIn

open Lib Reservations List

structure HeaderReported (r : Reservation) (bytes : List UInt8) : Prop where
  generation : ofBytes (bytes.take 4) = r.generation % 2 ^ 32
  additionalLength : 8 + ofBytes ((bytes.drop 4).take 4) = bytes.length

structure KeysReported (r : Reservation) (bytes : List UInt8) : Prop extends HeaderReported r bytes where
  keys : (walk 8 (fun _ => 0) (bytes.drop 8)).map ofBytes = r.registrationList.map Registration.key

structure FullStatus where
  key : Nat
  holder : Bool
  type : Nat
  relTgtPort : Nat
  deriving DecidableEq, Repr

def FullStatus.ofHead (head : List UInt8) : FullStatus where
  key := ofBytes (head.take 8)
  holder := (head.getD 12 0).toNat % 2 = 1
  type := (head.getD 13 0).toNat % 16
  relTgtPort := ofBytes ((head.drop 18).take 2)

def additionalDescriptorLength (head : List UInt8) : Nat := ofBytes ((head.drop 20).take 4)

def Holds (r : Reservation) (registration : Registration) : Prop :=
  r.isReserved = true ∧ r.type = .persistent ∧
    (singleHolderType r.persistentType = true ∧ r.nexus = registration.nexus ∨
      allRegistrantsType r.persistentType = true)

instance (r : Reservation) (registration : Registration) : Decidable (Holds r registration) :=
  inferInstanceAs (Decidable (_ ∧ _ ∧ (_ ∧ _ ∨ _)))

def FullStatus.of (r : Reservation) (registration : Registration) : FullStatus where
  key := registration.key
  holder := Holds r registration
  type := if Holds r registration then r.persistentType.1 else 0
  relTgtPort := registration.rPrt

structure FullReported (r : Reservation) (bytes : List UInt8) : Prop extends HeaderReported r bytes where
  status : (walk 24 additionalDescriptorLength (bytes.drop 8)).map FullStatus.ofHead =
    r.registrationList.map (FullStatus.of r)

structure Sized (r : Reservation) : Prop where
  key : ∀ registration ∈ r.registrationList, registration.key < 2 ^ 64
  rPrt : ∀ registration ∈ r.registrationList, registration.rPrt < 2 ^ 16
  reservationRPrt : r.rPrt < 2 ^ 16

variable {r : Reservation} {m : Memory} {body : List ByteStore} {done allocationLength : Nat} {rs : List Registration}
  {ctio : Ctio}

def opened (r : Reservation) (m : Memory) : Memory := (put 0 4 (htobe 4 r.generation)).apply m

theorem transferred_answer {bufferSize dxferLen : Nat} (hbody : ∀ s ∈ body, 8 ≤ s.offset) (hdone : 8 ≤ done)
    (hlen : dxferLen = done) :
    Answer.transferred ⟨bufferSize, put 0 4 (htobe 4 r.generation) :: body ++ [put 4 4 (htobe 4 (done + 2 ^ 32 - 8))],
        dxferLen⟩ m =
      toBytes 4 r.generation ++ toBytes 4 (done + 2 ^ 32 - 8) ++
        fetch (applyStores (opened r m) body) 8 (done - 8) := by
  obtain ⟨n, rfl⟩ := Nat.exists_eq_add_of_le hdone
  subst hlen
  have hlast : applyStores m (put 0 4 (htobe 4 r.generation) :: body ++ [put 4 4 (htobe 4 (8 + n + 2 ^ 32 - 8))]) =
      (put 4 4 (htobe 4 (8 + n + 2 ^ 32 - 8))).apply (applyStores (opened r m) body) := by
    rw [cons_append, applyStores_cons, applyStores_append]
    rfl
  rw [Answer.transferred, hlast, Nat.add_sub_cancel_left, fetch_add (n := 8), fetch_add (n := 4) 4, Nat.zero_add,
    Nat.zero_add]
  congr 1
  · congr 1
    · -- the generation: stored first, and everything after it lies above
      rw [fetch_apply_below (by simp [put]), fetch_applyStores_below fun s hs => by have := hbody s hs; omega]
      exact (fetch_apply_same (by simp [put])).trans (by simp [put])
    · exact (fetch_apply_same (by simp [put])).trans (by simp [put])
  · exact fetch_apply_above (by simp [put])

theorem HeaderReported.of_transferred {tail : List UInt8} (hlen : tail.length = done - 8) (hdone : 8 ≤ done)
    (hlt : done < 2 ^ 32) : HeaderReported r (toBytes 4 r.generation ++ toBytes 4 (done + 2 ^ 32 - 8) ++ tail) := by
  constructor
  · rw [append_assoc, take_left' (length_toBytes 4 _), ofBytes_toBytes]
    rfl
  · rw [append_assoc, drop_left' (length_toBytes 4 _), take_left' (length_toBytes 4 _), ofBytes_toBytes]
    simp only [length_append, length_toBytes, hlen]
    omega

theorem drop_header (tail : List UInt8) (length : Nat) :
    (toBytes 4 r.generation ++ toBytes 4 length ++ tail).drop 8 = tail :=
  drop_left' (by simp)

theorem keyDescriptor_offset (registration : Registration) (done : Nat) :
    ∀ s ∈ keyDescriptor registration done, done ≤ s.offset := by
  simp [keyDescriptor, put]

theorem keyDescriptor_eq (registration : Registration) (done : Nat) :
    keyDescriptor registration done = [⟨done, toBytes 8 registration.key⟩] := by
  simp [keyDescriptor, put]

theorem walk_keys (h : done + totalSize keySize rs ≤ allocationLength) (hal : allocationLength < 2 ^ 16) :
    walk 8 (fun _ => 0) (fetch (applyStores m (fillLoop allocationLength keySize keyDescriptor rs done).1) done
        (totalSize keySize rs)) =
      rs.map fun registration => toBytes 8 registration.key := by
  induction rs generalizing done m with
  | nil => exact walk_short (by simp)
  | cons registration rs ih =>
    have hle : done + 8 + totalSize keySize rs ≤ allocationLength := by
      rw [totalSize_cons, keySize] at h
      omega
    rw [fetch_fillLoop_cons keyDescriptor_offset (keyDescriptor_eq registration done) (by simp)
      (by simp [keySize]) h hal, walk_append (by decide) (length_toBytes 8 _), drop_zero, length_toBytes]
    exact congrArg _ (ih hle)

theorem keys_reported {allocationLength : UInt16} (hsized : Sized r) (halloc : ctio.allocated = true)
    (hfits : 8 + totalSize keySize r.registrationList ≤ allocationLength.toNat) :
    ∃ a, persistentReservationReadKeys ctio allocationLength r = .answer a ∧ ∀ m, KeysReported r (a.transferred m) := by
  have hal := allocationLength.toNat_lt
  have hcount : (fillLoop _ keySize keyDescriptor r.registrationList 8).2 = _ := fillLoop_count hfits hal
  rw [persistentReservationReadKeys, reserveInAnswer, if_pos halloc, hcount]
  refine ⟨_, rfl, fun m => ?_⟩
  rw [transferred_answer (fillLoop_offset keyDescriptor_offset hfits hal) (by omega) (by split <;> omega)]
  refine ⟨.of_transferred (by simp) (by omega) (by omega), ?_⟩
  rw [drop_header, Nat.add_sub_cancel_left, walk_keys hfits hal, map_map]
  apply map_congr_left
  intro registration hmem
  rw [Function.comp_apply, ofBytes_toBytes]
  exact Nat.mod_eq_of_lt (hsized.key registration hmem)

variable {registration : Registration}

theorem transportId_offset : ∀ s ∈ transportId registration done, done ≤ s.offset := by
  rw [transportId]
  split
  · simp [put]
  · split
    all_goals split <;> simp [put]

theorem fullDescriptor_offset (registration : Registration) (done : Nat) :
    ∀ s ∈ fullDescriptor r registration done, done ≤ s.offset := by
  refine forall_mem_cons.2 ⟨Nat.le_refl done, forall_mem_cons.2 ⟨Nat.le_add_right done 24, fun s hs => ?_⟩⟩
  have := transportId_offset s hs
  omega

theorem pfullData_eq : pfullData r registration = toBytes 8 registration.key ++ ([0, 0, 0, 0] ++
      ([if r.isReserved && isPersistentReservationHolder r registration.nexus then 1 else 0] ++
        ([if r.isReserved && isPersistentReservationHolder r registration.nexus then
            UInt8.ofNat r.persistentType.1 else 0] ++
          ([0, 0, 0, 0] ++ (toBytes 2 r.rPrt ++ (toBytes 2 (transportSize registration) ++ [0, 0])))))) := by
  have hzeros : hostBytes 4 0 = [0, 0, 0, 0] := by decide
  have hlen : hostBytes 4 (htobe 2 (transportSize registration)) = toBytes 2 (transportSize registration) ++ [0, 0] :=
    hostBytes_htobe_add 2 2 _
  simp only [pfullData, hostBytes_htobe, hzeros, hlen, append_assoc]

@[simp] theorem length_pfullData : (pfullData r registration).length = 24 := by
  simp [pfullData_eq]

theorem additionalDescriptorLength_pfullData :
    additionalDescriptorLength (pfullData r registration) = transportSize registration % 2 ^ 16 * 2 ^ 16 := by
  have hfield : ((pfullData r registration).drop 20).take 4 = toBytes 2 (transportSize registration) ++ [0, 0] := by
    rw [pfullData_eq]
    simp [drop_append, drop_eq_nil_of_le, take_of_length_le]
  rw [additionalDescriptorLength, hfield]
  have hzeros := ofBytes_append_zeros (toBytes 2 (transportSize registration)) 2
  rw [ofBytes_toBytes] at hzeros
  exact hzeros

theorem holds_iff (hmem : registration ∈ r.registrationList) :
    (r.isReserved && isPersistentReservationHolder r registration.nexus) = true ↔ Holds r registration := by
  have hself : initiatorHasRegisteredAr r registration.nexus = true :=
    any_eq_true.2 ⟨registration, hmem, by simp⟩
  have hexcl : ∀ t, singleHolderType t = true → allRegistrantsType t = false := by decide
  rw [Bool.and_eq_true, isPersistentReservationHolder, hself, Holds]
  apply and_congr_right
  intro _
  split
  · simp_all
  · split
    · simp_all
    · simp_all

theorem ofHead_pfullData (hsized : Sized r) (hmem : registration ∈ r.registrationList) :
    FullStatus.ofHead (pfullData r registration) = { FullStatus.of r registration with relTgtPort := r.rPrt } := by
  have hkey : (pfullData r registration).take 8 = toBytes 8 registration.key := by
    rw [pfullData_eq]
    exact take_left' (length_toBytes 8 _)
  have hport : ((pfullData r registration).drop 18).take 2 = toBytes 2 r.rPrt := by
    rw [pfullData_eq]
    simp [drop_append, drop_eq_nil_of_le]
  have hkeyLt : registration.key % 256 ^ 8 = registration.key := Nat.mod_eq_of_lt (hsized.key _ hmem)
  have hportLt : r.rPrt % 256 ^ 2 = r.rPrt := Nat.mod_eq_of_lt hsized.reservationRPrt
  rw [FullStatus.ofHead, hkey, hport, ofBytes_toBytes, ofBytes_toBytes, hkeyLt, hportLt]
  by_cases hh : Holds r registration
  · have hflag := (holds_iff hmem).2 hh
    simp [pfullData_eq, hflag, FullStatus.of, hh]
  · have hflag := mt (holds_iff hmem).1 hh
    simp [pfullData_eq, hflag, FullStatus.of, hh]

/-! ## READ FULL STATUS -/

/-- The registrations an initiator comes to: the length of a descriptor with a transport id leads out of the answer. -/
def reached : List Registration → List Registration
  | [] => []
  | registration :: rest => if transportSize registration = 0 then registration :: reached rest else [registration]

theorem reached_sublist (rs : List Registration) : (reached rs).Sublist rs := by
  induction rs with
  | nil => exact .slnil
  | cons registration rs ih =>
    rw [reached]
    split
    · exact ih.cons_cons registration
    · exact (nil_sublist rs).cons_cons registration

theorem reached_eq_iff (rs : List Registration) :
    (reached rs).length = rs.length ↔ ∀ registration ∈ rs.dropLast, transportSize registration = 0 := by
  induction rs with
  | nil => simp [reached]
  | cons registration rs ih =>
    cases rs with
    | nil => simp [reached]
    | cons next rs =>
      rw [reached, dropLast_cons_cons]
      split
      · rename_i hzero
        simp only [length_cons, Nat.add_right_cancel_iff, mem_cons, forall_eq_or_imp, hzero, true_and]
        exact ih
      · rename_i hpos
        simp [hpos]

theorem walk_full (h : done + totalSize descSize rs ≤ allocationLength)
    (hal : allocationLength < 2 ^ 16) : walk 24 additionalDescriptorLength
        (fetch (applyStores m (fillLoop allocationLength descSize (fullDescriptor r) rs done).1) done
          (totalSize descSize rs)) =
      (reached rs).map (pfullData r) := by
  induction rs generalizing done m with
  | nil => exact walk_short (by simp)
  | cons registration rs ih =>
    have hsize : done + (24 + transportSize registration) + totalSize descSize rs ≤ allocationLength := by
      rw [totalSize_cons, descSize] at h
      omega
    have hothers : ∀ s ∈ bzero (done + 24) (transportSize registration) :: transportId registration (done + 24),
        done + (pfullData r registration).length ≤ s.offset := by
      simp only [length_pfullData, mem_cons]
      rintro s (rfl | hs)
      · exact le_rfl
      · exact transportId_offset s hs
    rw [fetch_fillLoop_cons fullDescriptor_offset rfl hothers (by simp [descSize]) h hal, reached]
    cases hzero : transportSize registration with
    | zero =>
      have hnext : done + 24 + totalSize descSize rs ≤ allocationLength := by omega
      have hlen : additionalDescriptorLength (pfullData r registration) = 0 := by
        rw [additionalDescriptorLength_pfullData, hzero]
        rfl
      rw [walk_append (by decide) length_pfullData, hlen, drop_zero, length_pfullData, descSize, hzero,
        if_pos rfl, map_cons]
      exact congrArg _ (ih hnext)
    | succ n =>
      -- at least 65536 bytes are skipped, more than an answer has
      have hlong : 2 ^ 16 ≤ additionalDescriptorLength (pfullData r registration) := by
        rw [additionalDescriptorLength_pfullData, Nat.mod_eq_of_lt (by omega)]
        omega
      rw [walk_append_overlong (by decide) length_pfullData, if_neg (Nat.succ_ne_zero n)]
      · rfl
      · simp only [length_append, length_fetch, length_pfullData, descSize]
        omega

theorem full_reported_iff (hsized : Sized r) (ctio : Ctio) (halloc : ctio.allocated = true) {allocationLength : UInt16}
    (hfits : 8 + totalSize descSize r.registrationList ≤ allocationLength.toNat) :
    ∃ a, persistentReservationReadFull ctio allocationLength r = .answer a ∧ ∀ m, FullReported r (a.transferred m) ↔
        (∀ registration ∈ r.registrationList.dropLast, transportSize registration = 0) ∧
          ∀ registration ∈ r.registrationList, registration.rPrt = r.rPrt := by
  have hal := allocationLength.toNat_lt
  have hcount : (fillLoop _ descSize (fullDescriptor r) r.registrationList 8).2 = _ := fillLoop_count hfits hal
  rw [persistentReservationReadFull, reserveInAnswer, if_pos halloc, hcount]
  refine ⟨_, rfl, fun m => ?_⟩
  rw [transferred_answer (fillLoop_offset fullDescriptor_offset hfits hal) (by omega) (by split <;> omega)]
  have hseen : (walk 24 additionalDescriptorLength (fetch (applyStores (opened r m)
      (fillLoop allocationLength.toNat descSize (fullDescriptor r) r.registrationList 8).1) 8
        (totalSize descSize r.registrationList))).map FullStatus.ofHead =
      (reached r.registrationList).map fun registration =>
        { FullStatus.of r registration with relTgtPort := r.rPrt } := by
    rw [walk_full hfits hal, map_map]
    apply map_congr_left
    intro registration hmem
    exact ofHead_pfullData hsized ((reached_sublist _).subset hmem)
  constructor
  · intro h
    have hstatus := h.status
    rw [drop_header, Nat.add_sub_cancel_left, hseen] at hstatus
    have hlen : (reached r.registrationList).length = r.registrationList.length := by
      simpa using congrArg List.length hstatus
    refine ⟨(reached_eq_iff _).1 hlen, fun registration hmem => ?_⟩
    rw [(reached_sublist _).eq_of_length hlen] at hstatus
    exact (congrArg FullStatus.relTgtPort (map_inj_left.1 hstatus registration hmem)).symm
  · rintro ⟨hzero, hport⟩
    refine ⟨.of_transferred (by simp) (by omega) (by omega), ?_⟩
    rw [drop_header, Nat.add_sub_cancel_left, hseen, (reached_sublist _).eq_of_length ((reached_eq_iff _).2 hzero)]
    apply map_congr_left
    intro registration hmem
    rw [← hport registration hmem]
    rfl

/-- READ KEYS reports the keys of all registrations. READ FULL STATUS reports the registrations just when only the last
descriptor has a transport id and every registration came through the port of the reservation. -/
theorem reserve_in_reports (hsized : Sized r) (ctio : Ctio) (halloc : ctio.allocated = true)
    (allocationLength : UInt16) : (8 + totalSize keySize r.registrationList ≤ allocationLength.toNat →
      ∃ a, tdiskCmdPersistentReserveIn ctio .readKeys allocationLength r = .answer a ∧
        ∀ m, KeysReported r (a.transferred m)) ∧ (8 + totalSize descSize r.registrationList ≤ allocationLength.toNat →
      ∃ a, tdiskCmdPersistentReserveIn ctio .readFull allocationLength r = .answer a ∧
        ∀ m, FullReported r (a.transferred m) ↔
          (∀ registration ∈ r.registrationList.dropLast, transportSize registration = 0) ∧
            ∀ registration ∈ r.registrationList, registration.rPrt = r.rPrt) := by
  constructor
  · intro hfits
    rw [tdiskCmdPersistentReserveIn, if_neg (by omega)]
    exact keys_reported hsized halloc hfits
  · intro hfits
    rw [tdiskCmdPersistentReserveIn, if_neg (by omega)]
    exact full_reported_iff hsized ctio halloc hfits

def registerFc (initiatorPort rPrt key : Nat) : Reservations.Command :=
  .persistentReserveOut (.short ⟨(initiatorPort, 0), (0, 0), targetIntFc⟩ rPrt "" 0 0 0 key)

def reserveFc (initiatorPort rPrt key : Nat) : Reservations.Command :=
  .persistentReserveOut (.short ⟨(initiatorPort, 0), (0, 0), targetIntFc⟩ rPrt "" 1 writeExclusive key 0)

theorem sized_run {commands : List Reservations.Command}
    (h : (run commands).rPrt < 2 ^ 16 ∧ ∀ registration ∈ (run commands).registrationList,
      registration.key < 2 ^ 64 ∧ registration.rPrt < 2 ^ 16) : Sized (run commands) :=
  ⟨fun registration hmem => (h.2 registration hmem).1, fun registration hmem => (h.2 registration hmem).2, h.1⟩

theorem reserve_in_reports_holder :
    ∃ a, tdiskCmdPersistentReserveIn ⟨targetIntFc, true⟩ .readFull 255 (run [registerFc 1 4 7, reserveFc 1 4 7]) =
      .answer a ∧ ∀ m, FullReported (run [registerFc 1 4 7, reserveFc 1 4 7]) (a.transferred m) := by
  have hsized : Sized (run [registerFc 1 4 7, reserveFc 1 4 7]) := sized_run (by decide)
  obtain ⟨a, ha, hiff⟩ := (reserve_in_reports hsized ⟨targetIntFc, true⟩ rfl 255).2 (by decide)
  exact ⟨a, ha, fun m => (hiff m).2 (by decide)⟩

/-- Two initiators are registered through the ports 4 and 5, and the first one holds a reservation. -/
theorem full_status_two_registrants :
    ∃ r, system.Reachable r ∧ Sized r ∧ 8 + totalSize descSize r.registrationList = 104 ∧
      ∃ a, tdiskCmdPersistentReserveIn ⟨targetIntFc, true⟩ .readFull 255 r = .answer a ∧
        ∀ m, ¬ FullReported r (a.transferred m) := by
  have hsized : Sized (run [registerFc 1 4 7, registerFc 3 5 8, reserveFc 1 4 7]) := sized_run (by decide)
  refine ⟨_, reachable_run _, hsized, by decide, ?_⟩
  have hfits : 8 + totalSize descSize (run [registerFc 1 4 7, registerFc 3 5 8, reserveFc 1 4 7]).registrationList ≤
      (255 : UInt16).toNat := by decide
  obtain ⟨a, ha, hiff⟩ := full_reported_iff hsized ⟨targetIntFc, true⟩ rfl hfits
  refine ⟨a, ha, fun m h => ?_⟩
  have hcond := (hiff m).1 h
  revert hcond
  decide

end QuadStor.DataIn
