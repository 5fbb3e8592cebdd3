import QuadStor.LogPage.Basic

/-!
# Log entries decode to what was logged
-/

namespace QuadStor.LogPage

open Lib

section Entry

variable {newBlock lba indexWriteId amapWriteId id : BitVec 64} {targetId : BitVec 16}

theorem low_lba_lt : (lba &&& 0x3FFF#64).toNat * 2 ^ 50 < 2 ^ 64 := by
  have hmask : (lba &&& 0x3FFF#64).toNat = lba.toNat % 2 ^ 14 := Fields.toNat_and_mask (n := 14) (by decide)
  omega

theorem high_lba_lt (hlba : lba.toNat < 2 ^ 34) : (lba >>> 14).toNat < 2 ^ 20 := by
  rw [BitVec.toNat_ushiftRight, Nat.shiftRight_eq_div_pow]
  omega

theorem toNat_setWidth_high_lba (hlba : lba.toNat < 2 ^ 34) : ((lba >>> 14).setWidth 32).toNat < 2 ^ 20 := by
  have hlt := high_lba_lt hlba
  rw [BitVec.toNat_setWidth, Nat.mod_eq_of_lt (by omega)]
  exact hlt

theorem toNat_masked_targetId : (targetId.setWidth 32 &&& 0xFFF#32).toNat = targetId.toNat % 2 ^ 12 := by
  have hmask : (targetId.setWidth 32 &&& 0xFFF#32).toNat = (targetId.setWidth 32).toNat % 2 ^ 12 :=
    Fields.toNat_and_mask (n := 12) (by decide)
  rw [hmask, BitVec.toNat_setWidth_of_le (by decide)]

theorem masked_targetId_lt : (targetId.setWidth 32 &&& 0xFFF#32).toNat * 2 ^ 20 < 2 ^ 32 := by
  rw [toNat_masked_targetId]
  omega

theorem bit2_eq : (v2LogEntrySetBlock newBlock targetId lba indexWriteId amapWriteId).bit2 =
    Fields.join 20 ((lba >>> 14).setWidth 32) (targetId.setWidth 32 &&& 0xFFF#32) := by
  simp only [v2LogEntrySetBlock, Fields.join, BitVec.setWidth_or, BitVec.setWidth_setWidth_of_le _ (by decide : 32 ≤ 64),
    BitVec.setWidth_eq]

theorem newBlock_setBlock (hblock : newBlock.toNat < 2 ^ 50) :
    (v2LogEntrySetBlock newBlock targetId lba indexWriteId amapWriteId).newBlock = newBlock :=
  Fields.join_and_mask (n := 50) (by decide) hblock low_lba_lt

theorem targetId_setBlock (hlba : lba.toNat < 2 ^ 34) (htarget : targetId.toNat < 2 ^ 12) :
    (v2LogEntrySetBlock newBlock targetId lba indexWriteId amapWriteId).targetId = targetId := by
  apply BitVec.eq_of_toNat_eq
  have hmask : ∀ x : BitVec 32, (x &&& 0xFFF#32).toNat = x.toNat % 2 ^ 12 :=
    fun x => Fields.toNat_and_mask (n := 12) (by decide)
  rw [V2LogEntry.targetId, bit2_eq, Fields.join_ushiftRight (toNat_setWidth_high_lba hlba) masked_targetId_lt,
    BitVec.toNat_setWidth, hmask, toNat_masked_targetId]
  omega

theorem lba_setBlock (hblock : newBlock.toNat < 2 ^ 50) (hlba : lba.toNat < 2 ^ 34) :
    (v2LogEntrySetBlock newBlock targetId lba indexWriteId amapWriteId).lba = lba := by
  have hlow : (v2LogEntrySetBlock newBlock targetId lba indexWriteId amapWriteId).bit1 >>> 50 = lba &&& 0x3FFF#64 :=
    Fields.join_ushiftRight (n := 50) hblock low_lba_lt
  have hhigh : (v2LogEntrySetBlock newBlock targetId lba indexWriteId amapWriteId).bit2 &&& 0xFFFFF#32 =
      (lba >>> 14).setWidth 32 := by
    rw [bit2_eq]
    exact Fields.join_and_mask (n := 20) (by decide) (toNat_setWidth_high_lba hlba) masked_targetId_lt
  have hlt := high_lba_lt hlba
  rw [V2LogEntry.lba, hlow, hhigh, Fields.setWidth_setWidth (by omega), BitVec.or_comm]
  exact Fields.join_and_mask_ushiftRight (n := 14) (by decide)

theorem join_writeId (hid : id.toNat < 2 ^ 48) : ((id &&& 0xFFFFFFFF#64).setWidth 32).setWidth 64 |||
      (((id >>> 32) &&& 0xFFFF#64).setWidth 16).setWidth 64 <<< 32 = id := by
  have hlow : (id &&& 0xFFFFFFFF#64).toNat = id.toNat % 2 ^ 32 := Fields.toNat_and_mask (n := 32) (by decide)
  have hhigh : (id >>> 32 &&& 0xFFFF#64).toNat = (id >>> 32).toNat % 2 ^ 16 :=
    Fields.toNat_and_mask (n := 16) (by decide)
  have hshift : (id >>> 32).toNat = id.toNat / 2 ^ 32 := by
    rw [BitVec.toNat_ushiftRight, Nat.shiftRight_eq_div_pow]
  have hwhole : id >>> 32 &&& 0xFFFF#64 = id >>> 32 := by
    apply BitVec.eq_of_toNat_eq
    omega
  rw [Fields.setWidth_setWidth (by omega), Fields.setWidth_setWidth (by omega), hwhole]
  exact Fields.join_and_mask_ushiftRight (n := 32) (by decide)

theorem load_setBlock (t : BitVec 64) (hblock : newBlock.toNat < 2 ^ 50) (htarget : targetId.toNat < 2 ^ 12)
    (hlba : lba.toNat < 2 ^ 34) (hindex : indexWriteId.toNat < 2 ^ 48) (hamap : amapWriteId.toNat < 2 ^ 48) :
    (v2LogEntrySetBlock newBlock targetId lba indexWriteId amapWriteId).load t =
      ⟨t, newBlock, lba, indexWriteId, amapWriteId, targetId⟩ := by
  have hindexId : (v2LogEntrySetBlock newBlock targetId lba indexWriteId amapWriteId).indexWriteId = indexWriteId :=
    join_writeId hindex
  have hamapId : (v2LogEntrySetBlock newBlock targetId lba indexWriteId amapWriteId).amapWriteId = amapWriteId :=
    join_writeId hamap
  rw [V2LogEntry.load, newBlock_setBlock hblock, lba_setBlock hblock hlba, targetId_setBlock hlba htarget, hindexId,
    hamapId]

end Entry

theorem WriteId.logged_lt (i : WriteId) : i.logged.toNat < 2 ^ 48 := by
  rw [WriteId.logged]
  split
  · exact Fields.toNat_setWidth_lt i.id
  · decide

namespace MetaEntry

variable (e : MetaEntry)

theorem code_lt : e.type.code.toNat < 2 := by
  cases e.type <;> decide

theorem toNat_amapWriteId : e.amapWriteId.toNat = e.type.code.toNat * 2 ^ 14 + e.targetId.toNat := by
  have hcode := e.code_lt
  have htarget : (e.targetId.setWidth 64).toNat = e.targetId.toNat := BitVec.toNat_setWidth_of_le (by decide)
  rw [amapWriteId, BitVec.or_comm, ← htarget]
  exact Fields.toNat_join (by omega) (by omega)

theorem amapWriteId_lt : e.amapWriteId.toNat < 2 ^ 48 := by
  have hcode := e.code_lt
  rw [toNat_amapWriteId]
  omega

theorem type_amapWriteId : ((e.amapWriteId >>> 14) &&& 0x3#64).setWidth 8 = e.type.code.setWidth 8 := by
  have hcode := e.code_lt
  have hmask : ((e.amapWriteId >>> 14) &&& 0x3#64).toNat = (e.amapWriteId >>> 14).toNat % 2 ^ 2 :=
    Fields.toNat_and_mask (n := 2) (by decide)
  apply BitVec.eq_of_toNat_eq
  rw [BitVec.toNat_setWidth, BitVec.toNat_setWidth, hmask, BitVec.toNat_ushiftRight, Nat.shiftRight_eq_div_pow,
    toNat_amapWriteId]
  omega

theorem targetId_amapWriteId : (e.amapWriteId &&& 0xFFF#64).setWidth 16 = e.targetId.setWidth 16 := by
  have hmask : (e.amapWriteId &&& 0xFFF#64).toNat = e.amapWriteId.toNat % 2 ^ 12 :=
    Fields.toNat_and_mask (n := 12) (by decide)
  apply BitVec.eq_of_toNat_eq
  rw [BitVec.toNat_setWidth, BitVec.toNat_setWidth, hmask, toNat_amapWriteId]
  omega

end MetaEntry

theorem load_insertTransaction (d : DataEntry) (t : BitVec 64) :
    (fastlogInsertTransaction d).load t = ⟨t, d.block.setWidth 64, d.lba.setWidth 64,
      (d.indexInfo.map WriteId.logged).getD 0, d.amap.logged, d.targetId.setWidth 16⟩ := by
  have hindex : ((d.indexInfo.map WriteId.logged).getD 0).toNat < 2 ^ 48 := by
    cases d.indexInfo with
    | none => decide
    | some i => exact i.logged_lt
  exact load_setBlock t (Fields.toNat_setWidth_lt _) (Fields.toNat_setWidth_lt _) (Fields.toNat_setWidth_lt _) hindex
    d.amap.logged_lt

theorem load_addTransaction (e : MetaEntry) (t : BitVec 64) : (fastlogAddTransaction e).load t =
      ⟨t, e.block.setWidth 64, e.lba.setWidth 64, e.index.logged, e.amapWriteId, 0⟩ :=
  load_setBlock t (Fields.toNat_setWidth_lt _) (by decide) (Fields.toNat_setWidth_lt _) e.index.logged_lt e.amapWriteId_lt

theorem Slot.skipped_iff {slot : Slot} (h : slot.Visible) : (slot.raw.targetId = 0 ∧ slot.raw.newBlock = 0) ↔ ¬slot.used := by
  cases slot with
  | empty => exact ⟨nofun, fun _ => by decide⟩
  | data d =>
    have htarget := congrArg LogEntry.targetId (load_insertTransaction d 0)
    refine ⟨fun hs => ?_, fun hu => absurd rfl hu⟩
    exact absurd (htarget.symm.trans hs.1) (Fields.setWidth_ne_zero (by decide) d.pos)
  | metadata e =>
    have hblock := congrArg LogEntry.newBlock (load_addTransaction e 0)
    refine ⟨fun hs => ?_, fun hu => absurd rfl hu⟩
    exact absurd (hblock.symm.trans hs.2) (Fields.setWidth_ne_zero (by decide) h)

theorem Slot.reads_load {slot : Slot} (hu : slot.used) (t : BitVec 64) : slot.Reads (slot.raw.load t) := by
  cases slot with
  | empty => cases hu
  | data d =>
    have htarget : d.targetId.setWidth 16 ≠ 0 := Fields.setWidth_ne_zero (by decide) d.pos
    rw [Slot.raw, load_insertTransaction]
    exact ⟨bne_iff_ne.2 htarget, rfl, rfl, rfl, rfl, rfl⟩
  | metadata e =>
    rw [Slot.raw, load_addTransaction]
    exact ⟨nofun, rfl, rfl, e.targetId_amapWriteId, e.type_amapWriteId, rfl⟩

theorem loadFrom_raw (alloc : Nat → Bool) (start : BitVec 64) {slots : List Slot} (h : ∀ slot ∈ slots, slot.Visible)
    (i : Nat) : (∃ l, loadFrom alloc start i (slots.map Slot.raw) = some l ∧
      List.Forall₂ (EntryOf start) ((slots.zipIdx i).filter (·.1.used)) l) ∨
    (loadFrom alloc start i (slots.map Slot.raw) = none ∧ ∃ j, alloc j = false) := by
  induction slots generalizing i with
  | nil => exact .inl ⟨[], rfl, .nil⟩
  | cons slot rest ih =>
    have hslot := h slot List.mem_cons_self
    have hrest := ih (fun x hx => h x (List.mem_cons_of_mem _ hx)) (i + 1)
    rw [List.map_cons, List.zipIdx_cons, loadFrom]
    by_cases hu : slot.used
    · have hskip : ¬(slot.raw.targetId = 0 ∧ slot.raw.newBlock = 0) := fun hs => (Slot.skipped_iff hslot).1 hs hu
      rw [if_neg hskip, List.filter_cons_of_pos (by exact hu)]
      cases halloc : alloc i with
      | false => exact .inr ⟨rfl, i, halloc⟩
      | true =>
        rcases hrest with ⟨l, hl, hall⟩ | ⟨hl, hj⟩
        · left
          refine ⟨slot.raw.load (start + BitVec.ofNat 64 i) :: l, ?_, .cons ⟨Slot.reads_load hu _, rfl⟩ hall⟩
          rw [hl]
          rfl
        · right
          rw [hl]
          exact ⟨rfl, hj⟩
    · rw [if_pos ((Slot.skipped_iff hslot).2 hu), List.filter_cons_of_neg (by exact hu)]
      exact hrest

/-- Loading a page gives the entries of its used slots, one each and in order, as long as there is memory. -/
theorem loads_logged (alloc : Nat → Bool) (start : BitVec 64) (slots : Vector Slot v2LogEntries)
    (h : ∀ slot ∈ slots.toList, slot.Visible) : (∃ l, logPageLoadEntriesV2 alloc ⟨slots.map Slot.raw, start⟩ = some l ∧
      List.Forall₂ (EntryOf start) (slots.toList.zipIdx.filter (·.1.used)) l) ∨
    (logPageLoadEntriesV2 alloc ⟨slots.map Slot.raw, start⟩ = none ∧ ∃ i, alloc i = false) := by
  rw [logPageLoadEntriesV2, Vector.toList_map]
  exact loadFrom_raw alloc start h 0

theorem loads_logged_mixed : ∃ l, logPageLoadEntriesV2 (fun _ => true)
        ⟨((Vector.replicate v2LogEntries (.data ⟨0, 1, 2, none, ⟨true, 3⟩, by decide⟩)).set 3
          (.metadata ⟨.amapTable, 4, 5, 6, ⟨true, 7⟩⟩) (by decide)).map Slot.raw, 171⟩ = some l ∧
      List.Forall₂ (EntryOf 171) (((Vector.replicate v2LogEntries (.data ⟨0, 1, 2, none, ⟨true, 3⟩, by decide⟩)).set 3
          (.metadata ⟨.amapTable, 4, 5, 6, ⟨true, 7⟩⟩) (by decide)).toList.zipIdx.filter (·.1.used)) l := by
  refine (loads_logged (fun _ => true) 171 _ ?_).resolve_right (fun h => absurd h.2.choose_spec (by decide))
  intro slot hslot
  rcases List.mem_or_eq_of_mem_set hslot with hmem | rfl
  · rw [List.eq_of_mem_replicate hmem]
    trivial
  · exact (by decide : (4 : BitVec 50) ≠ 0)

/-- A metadata entry for block 0 would be lost. -/
theorem metadata_block_zero_lost : logPageLoadEntriesV2 (fun _ => true)
      ⟨((Vector.replicate v2LogEntries Slot.empty).set 0 (.metadata ⟨.amap, 0, 5, 6, ⟨true, 7⟩⟩) (by decide)).map
        Slot.raw, 171⟩ = some [] := by
  decide +kernel

end QuadStor.LogPage
