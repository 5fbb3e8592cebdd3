import Mathlib.Data.Set.Card
import Mathlib.Order.Interval.Finset.Nat
import QuadStor.RangeLock.Theorems

/-!
# The page counts of a command

A read or a write computes its number of pages for the range lock, for the list of pages, and for the loops over
this list.
-/

namespace QuadStor.RangeLock

open Lib

/-- What a command looks at of its virtual disk; `size` is in bytes. -/
structure Disk where
  lbaShift : LbaShift
  size : Nat
  size_lt : size < 2 ^ 64

def Disk.geometry (d : Disk) : Geometry := ⟨d.size / 2 ^ d.lbaShift.bits, d.lbaShift == .sector⟩

def Disk.reachedEom (d : Disk) (r : Request) : Bool := d.geometry.reachedEom r.lba r.transferLength

structure PageCounts where
  locked : Nat
  /-- `num_blocks` of `pgdata_allocate` or `pgdata_allocate_nopage` -/
  allocated : Nat
  processed : Nat
  /-- `ctio->pglist_cnt`, which is 16 bits wide: the pages of a read are sent under it -/
  listed : Nat
  deriving DecidableEq

def lockedPages (lbaShift : LbaShift) (r : Request) : Nat :=
  (lbaWriteOf lbaShift r).lbaEnd - (lbaWriteOf lbaShift r).lbaStart

def lbaDiff (lbaShift : LbaShift) (lba : Nat) : Nat :=
  match lbaShift with
  | .page => 0
  | .sector => lba % 8

/-- `pglist_cnt` after the first and the last page are made whole, in `__tdisk_cmd_read_int` and in
`check_unaligned_data` -/
def wholePglistCnt (lbaShift : LbaShift) (r : Request) : Nat :=
  transferLengthToPglistCnt lbaShift.bits (u32 (r.transferLength + lbaDiff lbaShift r.lba))

/-- The loops of `__tdisk_cmd_read_int` compare an unsigned `i` with the count. -/
def readCounts (lbaShift : LbaShift) (r : Request) : PageCounts :=
  let pglistCnt := wholePglistCnt lbaShift r
  ⟨lockedPages lbaShift r, pglistCnt, pglistCnt, u16 pglistCnt⟩

def isUnalignedWrite (lbaShift : LbaShift) (r : Request) : Bool :=
  match lbaShift with
  | .page => false
  | .sector => lbaDiff .sector r.lba != 0 || u32 (r.transferLength * 2 ^ 9) % 2 ^ 12 != 0

/-- `ctio_write_length`; the data of COMPARE AND WRITE has the blocks to compare with in front. -/
def dataPglistCnt (lbaShift : LbaShift) (r : Request) : Nat :=
  transferLengthToPglistCnt lbaShift.bits (if r.cw then u32 (r.transferLength * 2) else r.transferLength)

/-- With blocks of 512 bytes, `check_unaligned_data` puts another list in the place of the data's, and `check_cw_data`
always does. The loops of `__tdisk_cmd_write` go to `ctio->pglist_cnt`. -/
def writeCounts (lbaShift : LbaShift) (r : Request) : PageCounts :=
  let numBlocks :=
    if lbaShift = .sector ∧ (r.cw = true ∨ isUnalignedWrite lbaShift r = true) then wholePglistCnt lbaShift r
    else dataPglistCnt lbaShift r
  ⟨lockedPages lbaShift r, numBlocks, u16 numBlocks, u16 numBlocks⟩

def pageCounts (lbaShift : LbaShift) (r : Request) : PageCounts :=
  if r.transferLength = 0 then ⟨0, 0, 0, 0⟩
  else
    match r.dir with
    | .read => readCounts lbaShift r
    | .write => writeCounts lbaShift r

structure PageCounts.Match (c : PageCounts) (lbaShift : LbaShift) (r : Request) : Prop where
  locked : c.locked = Set.ncard {p | Covers lbaShift r p}
  allocated : c.allocated = Set.ncard {p | Covers lbaShift r p}
  processed : c.processed = Set.ncard {p | Covers lbaShift r p}
  listed : c.listed = Set.ncard {p | Covers lbaShift r p}

variable {lbaShift : LbaShift} {d : Disk} {r : Request}

theorem covers_eq_Ico (hpos : 0 < r.transferLength) : {p | Covers lbaShift r p} =
      Set.Ico (pageOf lbaShift r.lba) (pageOf lbaShift r.lba + coveredPages lbaShift r) := by
  ext p
  simp only [Set.mem_ofPred_eq, Set.mem_Ico]
  refine ⟨Covers.mem, fun ⟨hle, hlt⟩ => ?_⟩
  cases lbaShift with
  | page => exact ⟨p, hle, hlt, rfl⟩
  | sector =>
    simp only [pageOf, coveredPages] at hle hlt
    -- the first block of the request in the page
    refine ⟨max r.lba (8 * p), Nat.le_max_left _ _, ?_, ?_⟩
    · omega
    · simp only [pageOf]
      omega

theorem ncard_covers (lbaShift : LbaShift) (hpos : 0 < r.transferLength) :
    Set.ncard {p | Covers lbaShift r p} = coveredPages lbaShift r := by
  rw [covers_eq_Ico hpos, Set.ncard_eq_toFinset_card', Set.toFinset_Ico, Nat.card_Ico, Nat.add_sub_cancel_left]

theorem ncard_covers_zero (lbaShift : LbaShift) (hzero : r.transferLength = 0) : Set.ncard {p | Covers lbaShift r p} = 0 := by
  have hempty : {p | Covers lbaShift r p} = ∅ := by
    refine Set.eq_empty_of_forall_notMem ?_
    rintro p ⟨b, hle, hlt, -⟩
    omega
  rw [hempty, Set.ncard_empty]

/-- The pages fit 16 bits, and the request is no COMPARE AND WRITE with blocks of 4096 bytes. -/
def Request.CountFits (r : Request) : LbaShift → Prop
  | .page => r.transferLength < 2 ^ 16 ∧ (r.dir = .write → r.cw = true → r.transferLength = 0)
  | .sector => (r.lba % 8 + r.transferLength + 7) / 8 < 2 ^ 16

theorem Disk.endLba_le (d : Disk) : d.geometry.endLba ≤ 2 ^ 55 := by
  obtain ⟨lbaShift, size, hlt⟩ := d
  cases lbaShift with
  | page | sector =>
    simp only [Disk.geometry, LbaShift.bits]
    omega

/-- The source adds in 64 bits. -/
theorem Disk.reachedEom_eq_u64 (d : Disk) (r : Request) : d.reachedEom r =
    (decide (d.geometry.endLba ≤ r.lba) || decide (d.geometry.endLba < u64 (r.lba + r.transferLength))) := by
  have hend := d.endLba_le
  have hlen := r.transferLength_lt
  unfold Disk.reachedEom Geometry.reachedEom u64
  by_cases hstart : d.geometry.endLba ≤ r.lba
  · simp [hstart]
  · rw [Nat.mod_eq_of_lt (by omega)]

theorem Disk.le_of_not_reachedEom (h : d.reachedEom r = false) : r.lba + r.transferLength ≤ 2 ^ 55 := by
  have hend := d.endLba_le
  simp only [Disk.reachedEom, Geometry.reachedEom, Bool.or_eq_false_iff, decide_eq_false_iff_not] at h
  omega

theorem lockedPages_eq (h : coveredPages lbaShift r < 2 ^ 16) (hend : r.lba + r.transferLength ≤ 2 ^ 55) :
    lockedPages lbaShift r = coveredPages lbaShift r := by
  have hfits : r.Fits lbaShift := by
    cases lbaShift with
    | page | sector =>
      simp only [coveredPages] at h
      simp only [Request.Fits]
      omega
  rw [lockedPages, (lbaWriteOf_eq hfits).1, (lbaWriteOf_eq hfits).2, Nat.add_sub_cancel_left]

theorem wholePglistCnt_eq (h : coveredPages lbaShift r < 2 ^ 16) :
    wholePglistCnt lbaShift r = coveredPages lbaShift r := by
  cases lbaShift with
  | page =>
    simp only [coveredPages] at h ⊢
    exact u32_eq_of_lt (n := r.transferLength) (by omega)
  | sector =>
    simp only [coveredPages] at h ⊢
    rw [wholePglistCnt, LbaShift.bits, pglistCnt_legacy, u32_eq_of_lt (by simp only [lbaDiff]; omega)]
    simp only [lbaDiff]
    omega

theorem match_iff {c : PageCounts} {n : Nat} (hpos : 0 < r.transferLength) (hend : r.lba + r.transferLength ≤ 2 ^ 55)
    (hlocked : c.locked = lockedPages lbaShift r) (hallocated : c.allocated = n) (hlisted : c.listed = u16 n)
    (hprocessed : c.processed = n ∨ c.processed = u16 n) :
    c.Match lbaShift r ↔ coveredPages lbaShift r < 2 ^ 16 ∧ n = coveredPages lbaShift r := by
  have hcard := ncard_covers lbaShift hpos
  constructor
  · intro h
    have hn := hallocated.symm.trans (h.allocated.trans hcard)
    refine ⟨?_, hn⟩
    rw [← hcard, ← h.listed, hlisted]
    exact Nat.mod_lt _ (by decide)
  · rintro ⟨hlt, rfl⟩
    have hu16 : u16 (coveredPages lbaShift r) = coveredPages lbaShift r := Nat.mod_eq_of_lt hlt
    refine ⟨?_, ?_, ?_, ?_⟩
    · rw [hcard, hlocked, lockedPages_eq hlt hend]
    · rw [hcard, hallocated]
    · rw [hcard]
      rcases hprocessed with h | h
      · exact h
      · rw [h, hu16]
    · rw [hcard, hlisted, hu16]

theorem readCounts_match_iff (hpos : 0 < r.transferLength) (hdir : r.dir = .read)
    (hend : r.lba + r.transferLength ≤ 2 ^ 55) : (readCounts lbaShift r).Match lbaShift r ↔ r.CountFits lbaShift := by
  rw [match_iff (n := wholePglistCnt lbaShift r) hpos hend rfl rfl rfl (.inl rfl), and_iff_left_of_imp wholePglistCnt_eq]
  cases lbaShift with
  | page => simp [Request.CountFits, coveredPages, hdir]
  | sector => rfl

theorem writeCounts_sector : writeCounts .sector r =
    ⟨lockedPages .sector r, wholePglistCnt .sector r, u16 (wholePglistCnt .sector r), u16 (wholePglistCnt .sector r)⟩ := by
  unfold writeCounts
  split_ifs with h
  · rfl
  · obtain ⟨hcw, hal⟩ : r.cw = false ∧ isUnalignedWrite .sector r = false := by simpa using h
    simp only [isUnalignedWrite, Bool.or_eq_false_iff, bne_eq_false_iff_eq] at hal
    simp only [dataPglistCnt, wholePglistCnt, hcw, hal.1, Nat.add_zero, u32_eq_of_lt r.transferLength_lt,
      Bool.false_eq_true, if_false]

theorem writeCounts_match_iff (hpos : 0 < r.transferLength) (hdir : r.dir = .write)
    (hend : r.lba + r.transferLength ≤ 2 ^ 55) : (writeCounts lbaShift r).Match lbaShift r ↔ r.CountFits lbaShift := by
  cases lbaShift with
  | sector =>
    rw [writeCounts_sector, match_iff hpos hend rfl rfl rfl (.inr rfl), and_iff_left_of_imp wholePglistCnt_eq]
    rfl
  | page =>
    have hcounts : writeCounts .page r =
        ⟨lockedPages .page r, dataPglistCnt .page r, u16 (dataPglistCnt .page r), u16 (dataPglistCnt .page r)⟩ := by
      simp [writeCounts]
    rw [hcounts, match_iff hpos hend rfl rfl rfl (.inr rfl)]
    simp only [Request.CountFits, coveredPages, hdir, forall_const]
    refine and_congr_right fun hlt => ?_
    cases hcw : r.cw with
    | false => simp [dataPglistCnt, hcw, transferLengthToPglistCnt]
    | true =>
      -- twice the pages are listed
      have hdata : dataPglistCnt .page r = u32 (r.transferLength * 2) := by
        simp [dataPglistCnt, hcw, transferLengthToPglistCnt]
      rw [hdata, u32_eq_of_lt (by omega)]
      simp only [forall_const]
      omega

/-- The pages that are locked, allocated, processed and listed are those that hold the blocks of the request, exactly if
the counts fit. -/
theorem pageCounts_match_iff (d : Disk) (r : Request) (heom : d.reachedEom r = false) :
    (pageCounts d.lbaShift r).Match d.lbaShift r ↔ r.CountFits d.lbaShift := by
  have hend := d.le_of_not_reachedEom heom
  unfold pageCounts
  split_ifs with hzero
  · have hcard := ncard_covers_zero d.lbaShift hzero
    refine iff_of_true ⟨hcard.symm, hcard.symm, hcard.symm, hcard.symm⟩ ?_
    cases d.lbaShift with
    | page => exact ⟨by omega, fun _ _ => hzero⟩
    | sector =>
      simp only [Request.CountFits]
      omega
  · have hpos := Nat.pos_of_ne_zero hzero
    cases hdir : r.dir with
    | read => exact readCounts_match_iff hpos hdir hend
    | write => exact writeCounts_match_iff hpos hdir hend

def smallDisk : Disk := ⟨.sector, 2 ^ 33, by decide⟩

def twoSectors : Request := ⟨7, 2, false, .write, false, by decide, by decide⟩

theorem pageCounts_match_twoSectors : smallDisk.reachedEom twoSectors = false ∧
    (pageCounts .sector twoSectors).Match .sector twoSectors :=
  ⟨by decide, (pageCounts_match_iff smallDisk twoSectors (by decide)).mpr (show (7 % 8 + 2 + 7) / 8 < 2 ^ 16 by decide)⟩

def longRead : Request := { verifyRange with dir := .read }

def compareTwo : Request :=
  { firstPageWrite with transferLength := 2, cw := true, transferLength_lt := twoSectors.transferLength_lt }

/-- The byte size of the read wraps to 0. COMPARE AND WRITE of two blocks goes over four pages. -/
theorem longRead_no_pages : smallDisk.reachedEom longRead = false ∧ pageCounts .sector longRead = ⟨0, 0, 0, 0⟩ ∧
    Set.ncard {p | Covers .sector longRead p} = 2 ^ 20 ∧
    pageCounts .page compareTwo = ⟨2, 4, 4, 4⟩ ∧ Set.ncard {p | Covers .page compareTwo p} = 2 := by
  refine ⟨by decide, by decide +kernel, ?_, by decide +kernel, ?_⟩
  · rw [ncard_covers _ (by decide)]
    rfl
  · rw [ncard_covers _ (by decide)]
    rfl

end QuadStor.RangeLock
