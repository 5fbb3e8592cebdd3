import QuadStor.DataIn.Basic
import QuadStor.Reservations.Status

/-!
# The answers and their buffers
-/

namespace QuadStor.DataIn

open Lib List
open Reservations hiding Command

structure Device where
  disk : Disk
  reservation : Reservation
  deriving DecidableEq, Repr

inductive Command where
  | reserveIn (action : ReserveInAction) (allocationLength : UInt16)
  | modeSense6 (dbd : Bool) (pc : PageControl) (pageCode : Nat) (allocationLength : UInt8)
  | modeSense10 (dbd : Bool) (pc : PageControl) (pageCode : Nat) (allocationLength : UInt16)
  | serviceActionIn (lba : Nat) (pmi : Bool) (serviceAction : Nat) (allocationLength : UInt32)
  deriving DecidableEq, Repr

def Command.allocationLength : Command → Nat
  | .reserveIn _ allocationLength | .modeSense6 _ _ _ allocationLength | .modeSense10 _ _ _ allocationLength
  | .serviceActionIn _ _ _ allocationLength => allocationLength.toNat

def Command.execute (ctio : Ctio) (d : Device) : Command → Outcome
  | .reserveIn action allocationLength => tdiskCmdPersistentReserveIn ctio action allocationLength d.reservation
  | .modeSense6 dbd pc pageCode allocationLength => tdiskCmdModeSense6 ctio d.disk dbd pc pageCode allocationLength
  | .modeSense10 dbd pc pageCode allocationLength => tdiskCmdModeSense10 ctio d.disk dbd pc pageCode allocationLength
  | .serviceActionIn lba pmi serviceAction allocationLength =>
    tdiskCmdServiceActionIn ctio d.disk lba pmi serviceAction allocationLength

structure Answer.Safe (allocationLength : Nat) (a : Answer) : Prop where
  stores : ∀ s ∈ a.stores, s.Within a.bufferSize
  allocationLength : a.dxferLen ≤ allocationLength
  bufferSize : a.dxferLen ≤ a.bufferSize

def Outcome.Safe (allocationLength : Nat) : Outcome → Prop
  | .answer a => a.Safe allocationLength
  | _ => True

instance (allocationLength : Nat) (a : Answer) : Decidable (a.Safe allocationLength) :=
  decidable_of_iff ((∀ s ∈ a.stores, s.Within a.bufferSize) ∧ a.dxferLen ≤ allocationLength ∧ a.dxferLen ≤ a.bufferSize)
    ⟨fun h => ⟨h.1, h.2.1, h.2.2⟩, fun h => ⟨h.stores, h.allocationLength, h.bufferSize⟩⟩

instance (allocationLength : Nat) : (o : Outcome) → Decidable (o.Safe allocationLength)
  | .answer a => inferInstanceAs (Decidable (a.Safe allocationLength))
  | .noMemory | .checkCondition | .noData => .isTrue trivial

/-- READ FULL STATUS has no room for the NUL of a name: the descriptor of an iSCSI registrant ends with the buffer. -/
def NulOutside (initInt allocationLength : Nat) (r : Reservation) : Prop :=
  ∃ before registration after, r.registrationList = before ++ registration :: after ∧
    registration.nexus.initInt = targetIntIscsi ∧
    (8 + totalSize descSize before) % 2 ^ 16 + descSize registration = allocationLength ∧
    ctioAllocateBuffer initInt allocationLength = allocationLength

def ModeHeader.Roomy (h : ModeHeader) (initInt : Nat) (dbd : Bool) (allocationLength : Nat) : Prop :=
  h.size - h.mediumType ≤ allocationLength → h.size ≤ ctioAllocateBuffer initInt allocationLength ∧
      (dbd = false → h.size < allocationLength → h.size + 8 ≤ ctioAllocateBuffer initInt allocationLength)

def Command.Roomy (initInt : Nat) (d : Device) : Command → Prop
  | .reserveIn .readReservations allocationLength =>
    d.reservation.isReserved = true → 16 ≤ allocationLength.toNat →
      24 ≤ ctioAllocateBuffer initInt allocationLength.toNat
  | .reserveIn .readFull allocationLength => ¬ NulOutside initInt allocationLength.toNat d.reservation
  | .reserveIn _ _ => True
  | .modeSense6 dbd _ _ allocationLength => modeParameterHeader6.Roomy initInt dbd allocationLength.toNat
  | .modeSense10 dbd _ _ allocationLength => modeParameterHeader10.Roomy initInt dbd allocationLength.toNat
  | .serviceActionIn lba pmi serviceAction allocationLength =>
    (lba = 0 ∨ pmi = true) → serviceAction = 0x10 → allocationLength.toNat ≤ 32

variable {initInt allocationLength offset done width value : Nat} {ctio : Ctio} {r : Reservation} {disk : Disk}
  {h : ModeHeader} {registration : Registration} {action : ReserveInAction} {dbd : Bool}

theorem le_ctioAllocateBuffer : allocationLength ≤ ctioAllocateBuffer initInt allocationLength := by
  rw [ctioAllocateBuffer]
  split <;> omega

theorem put_within {size : Nat} (h : offset + width ≤ size) : (put offset width value).Within size :=
  ByteStore.within_of_le (by simpa [put] using h)

theorem put_within_iff {size : Nat} (hpos : 0 < width) :
    (put offset width value).Within size ↔ offset + width ≤ size := by
  have hne : (put offset width value).bytes ≠ [] := by
    apply ne_nil_of_length_pos
    simpa [put] using hpos
  rw [ByteStore.within_iff hne]
  simp [put]

theorem bzero_within {length size : Nat} (h : offset + length ≤ size) : (bzero offset length).Within size :=
  ByteStore.within_of_le (by simpa [bzero] using h)

/-! ## PERSISTENT RESERVE IN -/

theorem reserveInAnswer_safe_iff {generation : Nat} {body : List ByteStore} (h : 8 ≤ allocationLength) :
    (reserveInAnswer ctio allocationLength generation body done).Safe allocationLength ↔
      (ctio.allocated = true → ∀ s ∈ body, s.Within (ctioAllocateBuffer ctio.initInt allocationLength)) := by
  have hbuf := @le_ctioAllocateBuffer ctio.initInt allocationLength
  rw [reserveInAnswer]
  split
  · rename_i halloc
    constructor
    · intro hsafe _ s hs
      exact hsafe.stores s (by simp [hs])
    · intro hbody
      refine ⟨?_, ?_, ?_⟩
      · exact forall_mem_append.2 ⟨forall_mem_cons.2 ⟨put_within (by dsimp only; omega), hbody halloc⟩,
          forall_mem_singleton.2 (put_within (by dsimp only; omega))⟩
      all_goals
        dsimp only
        split <;> omega
  · rename_i halloc
    exact iff_of_true trivial fun hyes => absurd hyes halloc

theorem transportId_within {size : Nat}
    (hiscsi : registration.nexus.initInt ≠ targetIntIscsi) (h : done + transportSize registration ≤ size) :
    ∀ s ∈ transportId registration done, s.Within size := by
  rw [transportSize, if_neg hiscsi] at h
  rw [transportId, if_neg hiscsi]
  split
  · rename_i hfc
    rw [if_pos hfc] at h
    simp only [mem_cons, forall_eq_or_imp]
    refine ⟨put_within (by omega), ?_⟩
    split
    · simp only [mem_cons, not_mem_nil, or_false, forall_eq_or_imp, forall_eq]
      exact ⟨ByteStore.within_of_le (by simp; omega), put_within (by omega)⟩
    · simp
  · rename_i hfc
    rw [if_neg hfc] at h
    split
    · rename_i hlocal
      rw [if_pos hlocal] at h
      simp only [mem_cons, not_mem_nil, or_false, forall_eq_or_imp, forall_eq]
      exact ⟨ByteStore.within_of_le (by simp; omega), put_within (by omega)⟩
    · simp

theorem fullDescriptor_within_iff {size : Nat}
    (h : done + descSize registration ≤ size) : (∀ s ∈ fullDescriptor r registration done, s.Within size) ↔
      (registration.nexus.initInt = targetIntIscsi → done + descSize registration ≠ size) := by
  have hhead : done + (pfullData r registration).length ≤ size := by
    have hlen : (pfullData r registration).length = 24 := by simp [pfullData]
    rw [descSize] at h
    omega
  have hzero : (bzero (done + 24) (transportSize registration)).Within size :=
    bzero_within (by rw [descSize] at h; omega)
  have hrest : (∀ s ∈ fullDescriptor r registration done, s.Within size) ↔
      ∀ s ∈ transportId registration (done + 24), s.Within size := by
    simp only [fullDescriptor, mem_cons, forall_eq_or_imp, hzero, true_and]
    exact and_iff_right (ByteStore.within_of_le hhead)
  rw [hrest]
  by_cases hiscsi : registration.nexus.initInt = targetIntIscsi
  · have hsize : transportSize registration = 4 + (cString registration.initName).length := by
      rw [transportSize, if_pos hiscsi]
    rw [descSize, hsize] at h ⊢
    have hname : (⟨done + 24 + 4, cString registration.initName ++ [0]⟩ : ByteStore).Within size ↔
        done + 24 + 4 + ((cString registration.initName).length + 1) ≤ size := by
      rw [ByteStore.within_iff (by simp)]
      simp
    have hproto : (⟨done + 24, [0x05]⟩ : ByteStore).Within size := ByteStore.within_of_le (by simp; omega)
    have hlen : (put (done + 24 + 2) 2 (htobe 2 (4 + (cString registration.initName).length - 4))).Within size :=
      put_within (by omega)
    simp only [transportId, hsize, hiscsi, if_true, mem_cons, not_mem_nil, or_false, forall_eq_or_imp, forall_eq, hname, hproto,
      hlen, true_and, forall_const]
    omega
  · apply iff_of_true
    · exact transportId_within hiscsi (by rw [descSize] at h; omega)
    · exact fun hyes => absurd hyes hiscsi

theorem readKeys_safe {allocationLength : UInt16} (h : 8 ≤ allocationLength.toNat) :
    (persistentReservationReadKeys ctio allocationLength r).Safe allocationLength.toNat := by
  have hbuf := @le_ctioAllocateBuffer ctio.initInt allocationLength.toNat
  apply (reserveInAnswer_safe_iff h).2
  intro _
  apply (within_fillLoop_iff (by decide)).2
  intro before registration after _ hfit s hs
  rw [mem_singleton.1 hs]
  apply put_within
  rw [keySize] at hfit
  omega

theorem readReservations_safe_iff {allocationLength : UInt16} (h : 8 ≤ allocationLength.toNat) :
    (persistentReservationReadReservations ctio allocationLength r).Safe allocationLength.toNat ↔
      (ctio.allocated = true → r.isReserved = true → 16 ≤ allocationLength.toNat →
        24 ≤ ctioAllocateBuffer ctio.initInt allocationLength.toNat) := by
  have hlen : (pinData r).length = 16 := by simp [pinData]
  have hpin : (⟨8, pinData r⟩ : ByteStore).Within (ctioAllocateBuffer ctio.initInt allocationLength.toNat) ↔
      24 ≤ ctioAllocateBuffer ctio.initInt allocationLength.toNat := by
    rw [ByteStore.within_iff (ne_nil_of_length_pos (by simp [hlen])), hlen]
  apply Iff.trans (reserveInAnswer_safe_iff h)
  apply imp_congr_right
  intro _
  split
  · rename_i hboth
    simp only [mem_singleton, forall_eq, hpin]
    exact ⟨fun hroom _ _ => hroom, fun hroom => hroom hboth.1 hboth.2⟩
  · rename_i hnot
    exact iff_of_true (by simp) fun hreserved hlong => absurd ⟨hreserved, hlong⟩ hnot

theorem readCapabilities_safe {allocationLength : UInt16} :
    (persistentReservationReadCapabilities ctio allocationLength).Safe allocationLength.toNat := by
  have hbuf := @le_ctioAllocateBuffer ctio.initInt (min allocationLength.toNat 8)
  rw [persistentReservationReadCapabilities]
  split
  · refine ⟨?_, Nat.min_le_left _ _, hbuf⟩
    intro s hs
    rw [mem_singleton.1 hs]
    apply ByteStore.within_of_le
    simp only [length_take]
    omega
  · exact trivial

theorem readFull_safe_iff {allocationLength : UInt16} (h : 8 ≤ allocationLength.toNat) :
    (persistentReservationReadFull ctio allocationLength r).Safe allocationLength.toNat ↔
      (ctio.allocated = true → ¬ NulOutside ctio.initInt allocationLength.toNat r) := by
  have hbuf := @le_ctioAllocateBuffer ctio.initInt allocationLength.toNat
  apply Iff.trans (reserveInAnswer_safe_iff h)
  apply imp_congr_right
  intro _
  apply Iff.trans (within_fillLoop_iff (by decide))
  constructor
  · rintro hall ⟨before, registration, after, hl, hiscsi, hend, hexact⟩
    have hfit : (8 + totalSize descSize before) % 2 ^ 16 + descSize registration ≤ allocationLength.toNat := by omega
    exact (fullDescriptor_within_iff (by omega)).1 (hall before registration after hl hfit) hiscsi (by omega)
  · intro hnone before registration after hl hfit
    apply (fullDescriptor_within_iff (by omega)).2
    intro hiscsi hend
    exact hnone ⟨before, registration, after, hl, hiscsi, by omega, by omega⟩

structure Pages.Grows (allocationLength size : Nat) (p q : Pages) : Prop where
  offset : p.offset ≤ allocationLength → q.offset ≤ allocationLength
  stores : p.offset ≤ allocationLength → ((∀ s ∈ q.stores, s.Within size) ↔ ∀ s ∈ p.stores, s.Within size)

namespace Pages.Grows

variable {size : Nat} {p q w : Pages}

theorem refl : Grows allocationLength size p p := ⟨id, fun _ => Iff.rfl⟩

theorem trans (h : Grows allocationLength size p q) (h' : Grows allocationLength size q w) :
    Grows allocationLength size p w :=
  ⟨fun hp => h'.offset (h.offset hp), fun hp => Iff.trans (h'.stores (h.offset hp)) (h.stores hp)⟩

theorem copy (hsize : allocationLength ≤ size) (page : List UInt8) :
    Grows allocationLength size p (p.copy allocationLength page) := by
  constructor
  · intro hp
    simp only [Pages.copy]
    omega
  · intro hp
    simp only [Pages.copy]
    split
    · have hnew : (⟨p.offset, page.take (min page.length (allocationLength - p.offset))⟩ : ByteStore).Within size := by
        apply ByteStore.within_of_le
        simp only [length_take]
        omega
      simp only [mem_append, mem_singleton, or_imp, forall_and, forall_eq, hnew, and_true]
    · exact Iff.rfl

theorem ite {c : Prop} [Decidable c] (h : Grows allocationLength size p q) :
    Grows allocationLength size p (if c then q else p) := by
  split
  · exact h
  · exact refl

theorem modeSenseCurrentValues (hsize : allocationLength ≤ size) (disk : Disk) (pageCode : Nat) :
    Grows allocationLength size p (modeSenseCurrentValues disk allocationLength pageCode p) := by
  apply trans _ (ite (copy hsize _))
  apply trans _ (ite (copy hsize _))
  apply trans _ (ite (copy hsize _))
  exact ite (copy hsize _)

end Pages.Grows

theorem blockDescriptor_stores (disk : Disk) (allocationLength : Nat) (p : Pages) :
    ∃ blocks length, (modeSenseBlockDescriptor disk allocationLength p).stores =
      if min 8 (allocationLength - p.offset) > 0 then
        p.stores ++ [put p.offset 4 blocks, put (p.offset + 4) 4 length]
      else p.stores :=
  ⟨_, _, rfl⟩

theorem describe_offset_le : (h.describe disk dbd allocationLength).offset ≤ allocationLength := by
  cases dbd with
  | true => exact Nat.min_le_left _ _
  | false =>
    show min allocationLength h.size + min 8 (allocationLength - min allocationLength h.size) ≤ allocationLength
    omega

theorem describe_within_iff {size : Nat} (hwidth : 0 < h.width)
    (hfield : h.blockDescriptorLength + h.width = h.size) (hsize : allocationLength ≤ size) :
    (∀ s ∈ (h.describe disk dbd allocationLength).stores, s.Within size) ↔
      h.size ≤ size ∧ (dbd = false → h.size < allocationLength → h.size + 8 ≤ size) := by
  have hzero : (bzero 0 allocationLength).Within size := bzero_within (by omega)
  cases dbd with
  | true => simp [ModeHeader.describe, hzero, put_within_iff hwidth, hfield]
  | false =>
    obtain ⟨blocks, length, hstores⟩ := blockDescriptor_stores disk allocationLength
      ⟨min allocationLength h.size, h.size, [bzero 0 allocationLength]⟩
    simp only [ModeHeader.describe, Bool.false_eq_true, if_false, hstores]
    split
    · have hmin : min allocationLength h.size = h.size := by omega
      simp only [hmin, mem_append, mem_cons, not_mem_nil, or_false, or_imp, forall_and, forall_eq,
        hzero, put_within_iff hwidth, put_within_iff (Nat.succ_pos 3), hfield, true_and, true_implies]
      omega
    · simp only [mem_append, mem_singleton, or_imp, forall_and, forall_eq, hzero,
        put_within_iff hwidth, hfield, true_and, true_implies]
      omega

theorem grows_values {size : Nat} (p : Pages) (hbuf : allocationLength ≤ size) (disk : Disk) (pageCode : Nat)
    (pc : PageControl) : Pages.Grows allocationLength size p (match pc with
      | .changeable => p
      | .current | .default | .saved => modeSenseCurrentValues disk allocationLength pageCode p) := by
  cases pc with
  | changeable => exact .refl
  | current | default | saved => exact .modeSenseCurrentValues hbuf disk pageCode

theorem modeSense_safe_iff {pc : PageControl} {pageCode : Nat}
    (hwidth : 0 < h.width) (hfield : h.blockDescriptorLength + h.width = h.size)
    (hmedium : h.mediumType = h.width) (hle : h.mediumType < h.size) :
    (modeSense h ctio disk dbd pc pageCode allocationLength).Safe allocationLength ↔
      (ctio.allocated = true → h.Roomy ctio.initInt dbd allocationLength) := by
  have hbuf := @le_ctioAllocateBuffer ctio.initInt allocationLength
  rw [modeSense, ModeHeader.Roomy]
  split
  · exact iff_of_true trivial fun _ hlong => by omega
  split
  · exact iff_of_true trivial fun _ hlong => by omega
  split
  · rename_i _ _ halloc
    have hgrows := grows_values (h.describe disk dbd allocationLength) hbuf disk pageCode pc
    have hoffset := hgrows.offset describe_offset_le
    have hstores := hgrows.stores describe_offset_le
    rw [describe_within_iff hwidth hfield hbuf] at hstores
    constructor
    · intro hsafe _ _
      exact hstores.1 fun s hs => hsafe.stores s (mem_append_left _ hs)
    · intro hroomy
      have hroom := hroomy halloc (by omega)
      refine ⟨?_, hoffset, hoffset.trans hbuf⟩
      exact forall_mem_append.2 ⟨hstores.2 hroom, forall_mem_singleton.2 (put_within (by dsimp only; omega))⟩
  · rename_i halloc
    exact iff_of_true trivial fun hyes => absurd hyes halloc

theorem serviceActionIn_safe_iff {lba serviceAction : Nat} {pmi : Bool} {allocationLength : UInt32} :
    (tdiskCmdServiceActionIn ctio disk lba pmi serviceAction allocationLength).Safe allocationLength.toNat ↔
      (ctio.allocated = true → (lba = 0 ∨ pmi = true) → serviceAction = 0x10 → allocationLength.toNat ≤ 32) := by
  have hbuf : ctioAllocateBuffer ctio.initInt 32 = 32 := by simp [ctioAllocateBuffer]
  rw [tdiskCmdServiceActionIn]
  split
  · rename_i hzero
    exact iff_of_true trivial fun _ _ _ => by simp [hzero]
  split
  · rename_i hbad
    apply iff_of_true trivial
    intro _ hlba haction
    rcases hbad with ⟨hne, hpmi⟩ | hne
    · rcases hlba with hlba | hlba
      · exact absurd hlba hne
      · rw [hlba] at hpmi
        cases hpmi
    · exact absurd haction hne
  split
  · rename_i hgood halloc
    rw [hbuf]
    have hstores : ∀ s ∈ [bzero 0 32, put 0 8 (htobe 8 (disk.endLba + 2 ^ 64 - 1)),
        put 8 4 (htobe 4 (2 ^ disk.lbaShift.bits)), ⟨14, [0x80]⟩, ⟨14, [0xc0]⟩], s.Within 32 := by
      simp only [mem_cons, not_mem_nil, or_false, forall_eq_or_imp, forall_eq]
      exact ⟨bzero_within (by decide), put_within (by decide), put_within (by decide),
        ByteStore.within_of_le (by decide), ByteStore.within_of_le (by decide)⟩
    constructor
    · intro hsafe _ _ _
      exact hsafe.bufferSize
    · intro hle
      have hshort : allocationLength.toNat ≤ 32 := by
        apply hle halloc
        · by_contra hnone
          apply hgood
          simp_all
        · by_contra hne
          exact hgood (.inr hne)
      exact ⟨hstores, le_rfl, hshort⟩
  · rename_i halloc
    exact iff_of_true trivial fun hyes => absurd hyes halloc

/-- The answer stays in its buffer just when the allocation length leaves room for it. -/
theorem answer_in_buffer (ctio : Ctio) (d : Device) (c : Command) :
    (c.execute ctio d).Safe c.allocationLength ↔ (ctio.allocated = true → c.Roomy ctio.initInt d) := by
  cases c with
  | reserveIn action allocationLength =>
    simp only [Command.execute, Command.allocationLength]
    unfold tdiskCmdPersistentReserveIn
    by_cases hshort : allocationLength.toNat < 8
    · rw [if_pos hshort]
      apply iff_of_true trivial
      intro _
      cases action with
      | readReservations => exact fun _ _ => by omega
      | readFull =>
        rintro ⟨before, registration, after, _, _, hend, _⟩
        rw [descSize] at hend
        omega
      | readKeys | readCapabilities | other => exact trivial
    · rw [if_neg hshort]
      have hlong : 8 ≤ allocationLength.toNat := by omega
      cases action with
      | readKeys => exact iff_of_true (readKeys_safe hlong) fun _ => trivial
      | readReservations => exact readReservations_safe_iff hlong
      | readCapabilities => exact iff_of_true readCapabilities_safe fun _ => trivial
      | readFull => exact readFull_safe_iff hlong
      | other => exact iff_of_true trivial fun _ => trivial
  | modeSense6 dbd pc pageCode allocationLength | modeSense10 dbd pc pageCode allocationLength =>
    exact modeSense_safe_iff (by decide) (by decide) (by decide) (by decide)
  | serviceActionIn lba pmi serviceAction allocationLength => exact serviceActionIn_safe_iff

def holder : Reservation :=
  run [.persistentReserveOut (.short ⟨(1, 0), (0, 0), targetIntIscsi⟩ 32768 "iqn1" 0 0 0 7),
    .persistentReserveOut (.short ⟨(1, 0), (0, 0), targetIntIscsi⟩ 32768 "iqn1" 1 writeExclusive 7 0)]

theorem answers_out_of_buffer : ∃ d : Device, system.Reachable d.reservation ∧
      ∀ c ∈ [Command.serviceActionIn 0 false 0x10 64, .reserveIn .readReservations 16, .reserveIn .readFull 40,
        .modeSense6 false .current 0x3f 5, .modeSense10 false .current 0x3f 9],
        ¬ (c.execute ⟨targetIntIscsi, true⟩ d).Safe c.allocationLength := by
  refine ⟨⟨⟨2048, .page, 0⟩, holder⟩, reachable_run _, ?_⟩
  decide

end QuadStor.DataIn
