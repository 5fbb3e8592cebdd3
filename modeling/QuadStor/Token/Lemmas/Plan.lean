import QuadStor.Token.Basic

/-!
# How a WRITE USING TOKEN goes on
-/

namespace QuadStor.Token

open Lib Command List
open DDTable (Block)

variable {disks : Nat → Settings} {io : CopyIo} {s : State disks} {t : RodToken disks} {r : Request}
  {d : Descriptor} {pool : Pool}

theorem pglistCnt_eq {g : Geometry} {n : Nat} (h : n * 2 ^ g.lbaShift < 2 ^ 32) :
    transferLengthToPglistCnt g.lbaShift n = sizeToPglistCnt (n * 2 ^ g.lbaShift) := by
  obtain ⟨-, hshift, -⟩ | ⟨-, hshift, -⟩ := g.cases
  · rw [hshift] at h ⊢
    simp only [transferLengthToPglistCnt, u32_eq_of_lt h]
    rfl
  · rw [hshift] at h ⊢
    simp only [transferLengthToPglistCnt, sizeToPglistCnt]
    simp

theorem size_lt (t : RodToken disks) :
    (t.numBlocks + (disks t.src).lbaDiff t.lba) * 2 ^ (disks t.src).lbaShift < 2 ^ 32 := by
  have hsize := t.size_le
  have hmax : maximumBytesInBlockRod = 4194304 := by decide
  obtain ⟨-, hshift, -, hdiff, -⟩ | ⟨-, hshift, -, hdiff, -⟩ := (disks t.src).cases
  all_goals
    rw [hshift] at hsize
    rw [hdiff, hshift]
    omega

theorem rodIdx_eq : (r.offset + (disks t.src).lbaDiff t.lba) * 2 ^ (disks t.src).lbaShift / 4096 = firstPage t r := by
  rw [firstPage]
  obtain ⟨-, hshift, -, hdiff, hreal⟩ | ⟨-, hshift, -, hdiff, hreal⟩ := (disks t.src).cases
  all_goals
    rw [hdiff, hshift, hreal]
    omega

section Numbers

variable (hoffset : r.offset < t.numBlocks)
include hoffset

theorem startBlock_eq (hshift : (disks r.dest).lbaShift = (disks t.src).lbaShift) :
    u32 (r.offset * 2 ^ (disks r.dest).lbaShift) / 2 ^ (disks t.src).lbaShift = r.offset := by
  have hle : r.offset * 2 ^ (disks t.src).lbaShift ≤ t.numBlocks * 2 ^ (disks t.src).lbaShift :=
    Nat.mul_le_mul_right _ (Nat.le_of_lt hoffset)
  have hsize := t.size_le
  have hmax : maximumBytesInBlockRod < 2 ^ 32 := by decide
  rw [hshift, u32_eq_of_lt (by omega), Nat.mul_div_cancel _ (Nat.two_pow_pos _)]

theorem srcSize_eq : u32 ((r.offset + (disks t.src).lbaDiff t.lba) * 2 ^ (disks t.src).lbaShift) =
    (r.offset + (disks t.src).lbaDiff t.lba) * 2 ^ (disks t.src).lbaShift := by
  refine u32_eq_of_lt (Nat.lt_of_le_of_lt ?_ (size_lt t))
  exact Nat.mul_le_mul_right _ (by omega)

theorem rodPglistCnt_eq : sizeToPglistCnt (u32 ((r.offset + (disks t.src).lbaDiff t.lba) * 2 ^ (disks t.src).lbaShift +
      u32 ((t.numBlocks - r.offset) * 2 ^ (disks t.src).lbaShift))) = t.pglist.length := by
  have hlt := size_lt t
  have hsum : (r.offset + (disks t.src).lbaDiff t.lba) * 2 ^ (disks t.src).lbaShift +
      (t.numBlocks - r.offset) * 2 ^ (disks t.src).lbaShift =
        (t.numBlocks + (disks t.src).lbaDiff t.lba) * 2 ^ (disks t.src).lbaShift := by
    rw [← Nat.add_mul]
    congr 1
    omega
  rw [u32_eq_of_lt (show (t.numBlocks - r.offset) * 2 ^ (disks t.src).lbaShift < 2 ^ 32 by omega), hsum,
    u32_eq_of_lt hlt, t.length_pglist, pglistCnt_eq hlt]

theorem blocks_eq (hlength : r.offset + d.numBlocks ≤ t.numBlocks)
    (hshift : (disks r.dest).lbaShift = (disks t.src).lbaShift) :
    min (u32 ((t.numBlocks - r.offset) * 2 ^ (disks t.src).lbaShift))
      (u32 (d.numBlocks * 2 ^ (disks r.dest).lbaShift)) / 2 ^ (disks t.src).lbaShift = d.numBlocks := by
  have hsize := t.size_le
  have hmax : maximumBytesInBlockRod < 2 ^ 32 := by decide
  have hrest : (t.numBlocks - r.offset) * 2 ^ (disks t.src).lbaShift ≤ t.numBlocks * 2 ^ (disks t.src).lbaShift :=
    Nat.mul_le_mul_right _ (Nat.sub_le _ _)
  have hmin : d.numBlocks * 2 ^ (disks t.src).lbaShift ≤ (t.numBlocks - r.offset) * 2 ^ (disks t.src).lbaShift :=
    Nat.mul_le_mul_right _ (by omega)
  rw [hshift, u32_eq_of_lt (by omega), u32_eq_of_lt (by omega), Nat.min_eq_right hmin,
    Nat.mul_div_cancel _ (Nat.two_pow_pos _)]

theorem rodTokenProcessDescriptor_eq (hlength : r.offset + d.numBlocks ≤ t.numBlocks)
    (hlegacy : (disks t.src).legacy = (disks r.dest).legacy) : s.rodTokenProcessDescriptor io r.dest r.offset d t =
      s.copyToDestRange io r.dest d t (t.lba + r.offset) d.numBlocks (firstPage t r) t.pglist.length := by
  have hshift : (disks r.dest).lbaShift = (disks t.src).lbaShift := by
    rw [Geometry.lbaShift, Geometry.lbaShift, hlegacy]
  simp only [State.rodTokenProcessDescriptor, startBlock_eq hoffset hshift, srcSize_eq hoffset, rodIdx_eq,
    rodPglistCnt_eq hoffset, blocks_eq hoffset hlength hshift, if_neg (Nat.not_le.mpr hoffset)]

end Numbers

def PagesOk (io : CopyIo) (pglistCnt i : Nat) (l : List (Option Block)) : Prop :=
  ∀ j b, l[j]? = some (some b) → i + j < pglistCnt → io.page (i + j) = true

section Read

variable {pglistCnt i : Nat} {e : Option Block} {l rest : List (Option Block)} {done : List Pgdata}

theorem pagesOk_cons : PagesOk io pglistCnt i (e :: rest) ↔
    (i < pglistCnt → (e.isSome && !io.page i) = false) ∧ PagesOk io pglistCnt (i + 1) rest := by
  constructor
  · intro h
    refine ⟨fun hlt => ?_, fun j b hj hlt => ?_⟩
    · cases e with
      | none => rfl
      | some b =>
        have hpage : io.page i = true := h 0 b rfl hlt
        simp [hpage]
    · have hpage := h (j + 1) b (by simpa using hj) (by omega)
      rwa [← Nat.add_assoc, Nat.add_right_comm] at hpage
  · rintro ⟨hhead, htail⟩ j b hj hlt
    cases j with
    | zero =>
      obtain rfl : e = some b := by simpa using hj
      simpa using hhead hlt
    | succ j =>
      have hpage := htail j b (by simpa using hj) (by omega)
      rwa [← Nat.add_assoc, Nat.add_right_comm]

theorem readRodPages_failed (h : ¬ PagesOk io pglistCnt i l) : readRodPages io pool pglistCnt i l done = .failed := by
  induction l generalizing i done with
  | nil => simp [PagesOk] at h
  | cons e rest ih =>
    have hlt : i < pglistCnt := by
      by_contra hge
      exact h fun j b _ hlt => absurd hlt (by omega)
    rw [readRodPages, if_neg (Nat.not_le.mpr hlt)]
    split_ifs with hfails
    · rfl
    · exact ih fun hrest => h (pagesOk_cons.2 ⟨fun _ => Bool.eq_false_of_not_eq_true hfails, hrest⟩)

theorem readRodPages_outOfBounds (h : PagesOk io pglistCnt i l) (hlt : pglistCnt < i + l.length) (hne : l ≠ []) :
    readRodPages io pool pglistCnt i l done = .outOfBounds := by
  induction l generalizing i done with
  | nil => exact absurd rfl hne
  | cons e rest ih =>
    obtain ⟨hhead, htail⟩ := pagesOk_cons.1 h
    rw [readRodPages]
    split_ifs with hend hfails
    · rfl
    · rw [hhead (Nat.lt_of_not_le hend)] at hfails
      cases hfails
    · rw [length_cons] at hlt
      refine ih htail (by omega) ?_
      rintro rfl
      rw [length_nil] at hlt
      omega

theorem readRodPages_pages (h : PagesOk io pglistCnt i l) (hle : i + l.length ≤ pglistCnt) :
    readRodPages io pool pglistCnt i l done = .pages (done ++ l.map (rodPage pool)) := by
  induction l generalizing i done with
  | nil => simp [readRodPages]
  | cons e rest ih =>
    obtain ⟨hhead, htail⟩ := pagesOk_cons.1 h
    rw [length_cons] at hle
    rw [readRodPages, if_neg (by omega), hhead (by omega), ih htail (by omega)]
    simp

end Read

theorem firstPage_lt (hoffset : r.offset < t.numBlocks) : firstPage t r < t.pglist.length := by
  have hlen := t.length_pglist
  rw [pglistCnt_eq (size_lt t), sizeToPglistCnt] at hlen
  rw [hlen, firstPage]
  obtain ⟨-, hshift, -, hdiff, hreal⟩ | ⟨-, hshift, -, hdiff, hreal⟩ := (disks t.src).cases
  all_goals
    rw [hdiff, hshift, hreal]
    split_ifs <;> omega

theorem unaligned_eq (hlength : r.offset + d.numBlocks ≤ t.numBlocks) :
    ((disks t.src).lbaDiff t.lba != 0 || isUnalignedExtendedCopy (disks t.src).legacy (t.lba + r.offset) d.lba
      (u32 (d.numBlocks * 2 ^ (disks t.src).lbaShift))) = false ↔ Aligned t r d := by
  have hsize := size_lt t
  have hle : d.numBlocks * 2 ^ (disks t.src).lbaShift ≤
      (t.numBlocks + (disks t.src).lbaDiff t.lba) * 2 ^ (disks t.src).lbaShift :=
    Nat.mul_le_mul_right _ (by omega)
  rw [u32_eq_of_lt (hle.trans_lt hsize), Aligned]
  obtain ⟨hl, hshift, -, hdiff, -⟩ | ⟨hl, hshift, -, hdiff, -⟩ := (disks t.src).cases
  · simp only [isUnalignedExtendedCopy, hl, hdiff, hshift, Bool.or_eq_false_iff, bne_eq_false_iff_eq, Bool.true_and,
      Bool.not_eq_false', Bool.and_eq_true, beq_iff_eq, forall_const]
    omega
  · simp [isUnalignedExtendedCopy, hl, hdiff]

theorem modified_eq : s.rodEntryAmapModified io t (firstPage t r) t.pglist.length = false ↔ Unmodified io s t r := by
  simp only [State.rodEntryAmapModified, Unmodified, Bool.or_eq_false_iff, Bool.not_eq_false', any_eq_false,
    mem_range'_1, bne_iff_ne, ne_eq, not_not]
  refine and_congr_right fun _ => ?_
  constructor
  · intro h i hi hlt
    exact h i (by omega)
  · intro h i hi
    exact h i hi.1 (by omega)

theorem pagesOk_iff : PagesOk io (t.pglist.length - firstPage t r) (firstPage t r) (t.pglist.drop (firstPage t r)) ↔
    ¬ ∃ i b, firstPage t r ≤ i ∧ i < t.pglist.length - firstPage t r ∧ t.pglist[i]? = some (some b) ∧
      io.page i = false := by
  constructor
  · rintro h ⟨i, b, hle, hlt, hb, hpage⟩
    obtain ⟨j, rfl⟩ := Nat.exists_eq_add_of_le hle
    have := h j b (by rwa [getElem?_drop]) hlt
    simp [hpage] at this
  · intro h j b hb hlt
    rw [getElem?_drop] at hb
    by_contra hpage
    exact h ⟨_, b, Nat.le_add_right _ _, hlt, hb, Bool.eq_false_of_not_eq_true hpage⟩

def movedPages (io : CopyIo) (dedupe : Bool) (pgOffset size : Nat) (pages : List Pgdata) : List Pgdata :=
  (if pgOffset = 0 then pages else remapPglistForWrite io pgOffset size pages).map (pglistCalcHash dedupe)

def readPages (io : CopyIo) (s : State disks) (t : RodToken disks) (r : Request) (d : Descriptor) : List Pgdata :=
  movedPages io (disks r.dest).dedupe ((disks t.src).lbaDiff (t.lba + r.offset) * 2 ^ (disks t.src).lbaShift)
    (u32 (d.numBlocks * 2 ^ (disks t.src).lbaShift)) (t.pglist.map (rodPage s.pool))

section Plan

variable (hoffset : r.offset < t.numBlocks) (hlength : r.offset + d.numBlocks ≤ t.numBlocks)
include hlength

theorem copy_byReference (h : ByReference io s t r d) :
    s.copyToDestRange io r.dest d t (t.lba + r.offset) d.numBlocks (firstPage t r) t.pglist.length =
      if io.ref.ok then .write d d.numBlocks (s.refPages io t.src r.dest (t.lba + r.offset) d.numBlocks)
      else .check := by
  simp only [State.copyToDestRange, (unaligned_eq hlength).mpr h.1, modified_eq.2 h.2]
  rfl

theorem copy_read (h : ¬ ByReference io s t r d) :
    s.copyToDestRange io r.dest d t (t.lba + r.offset) d.numBlocks (firstPage t r) t.pglist.length =
      match readFromRodEntry io s.pool t (firstPage t r) t.pglist.length with
      | .failed => .stop
      | .outOfBounds => .outOfBounds
      | .pages pages =>
        let pgOffset := (disks t.src).lbaDiff (t.lba + r.offset) * 2 ^ (disks t.src).lbaShift
        if pgOffset = 0 then .write d d.numBlocks (pages.map (pglistCalcHash (disks r.dest).dedupe))
        else if io.remap then .write d d.numBlocks ((remapPglistForWrite io pgOffset
          (u32 (d.numBlocks * 2 ^ (disks t.src).lbaShift)) pages).map (pglistCalcHash (disks r.dest).dedupe))
        else .stop := by
  have hmodified : (((disks t.src).lbaDiff t.lba != 0 || isUnalignedExtendedCopy (disks t.src).legacy
      (t.lba + r.offset) d.lba (u32 (d.numBlocks * 2 ^ (disks t.src).lbaShift))) ||
        s.rodEntryAmapModified io t (firstPage t r) t.pglist.length) = true := by
    by_contra hnot
    rw [Bool.not_eq_true, Bool.or_eq_false_iff] at hnot
    exact h ⟨(unaligned_eq hlength).mp hnot.1, modified_eq.1 hnot.2⟩
  simp only [State.copyToDestRange, hmodified]
  rfl

theorem copy_unread (h : Unread io s t r d) :
    s.copyToDestRange io r.dest d t (t.lba + r.offset) d.numBlocks (firstPage t r) t.pglist.length = .stop := by
  obtain ⟨hnot, hfails⟩ := h
  rw [copy_read hlength hnot, readFromRodEntry, take_of_length_le le_rfl]
  cases halloc : io.alloc with
  | false => rfl
  | true =>
    by_cases hok : PagesOk io (t.pglist.length - firstPage t r) (firstPage t r) (t.pglist.drop (firstPage t r))
    · obtain ⟨hfirst, hread⟩ := (hfails.resolve_left (by simp [halloc])).resolve_left (pagesOk_iff.1 hok)
      rw [readRodPages_pages hok (by rw [length_drop]; omega)]
      cases hr : io.read with
      | false => rfl
      | true =>
        obtain ⟨hdiff, hremap⟩ := hread.resolve_left (by simp [hr])
        have hne : (disks t.src).lbaDiff (t.lba + r.offset) * 2 ^ (disks t.src).lbaShift ≠ 0 :=
          Nat.mul_ne_zero hdiff (Nat.two_pow_pos _).ne'
        simp [hne, hremap]
    · rw [readRodPages_failed hok]
      rfl

theorem copy_pages (hnot : ¬ ByReference io s t r d) (hread : ¬ Unread io s t r d) (hfirst : firstPage t r = 0) :
    s.copyToDestRange io r.dest d t (t.lba + r.offset) d.numBlocks (firstPage t r) t.pglist.length =
      .write d d.numBlocks (readPages io s t r d) := by
  simp only [Unread, hnot, not_false_eq_true, true_and, not_or, not_and, Bool.not_eq_false] at hread
  have hok := pagesOk_iff.2 hread.2.1
  obtain ⟨hio, hremap⟩ := hread.2.2 hfirst
  rw [copy_read hlength hnot, readFromRodEntry, take_of_length_le le_rfl, hread.1,
    readRodPages_pages hok (by rw [length_drop]; omega), hio, hfirst]
  simp only [readPages, movedPages, drop_zero, nil_append]
  by_cases hoff : (disks t.src).lbaDiff (t.lba + r.offset) * 2 ^ (disks t.src).lbaShift = 0
  · simp [hoff]
  · have hdiff : (disks t.src).lbaDiff (t.lba + r.offset) ≠ 0 := fun h => hoff (by rw [h, Nat.zero_mul])
    simp [hoff, hremap hdiff]

include hoffset

theorem copy_outOfBounds (hnot : ¬ ByReference io s t r d) (hread : ¬ Unread io s t r d) (hfirst : firstPage t r ≠ 0) :
    s.copyToDestRange io r.dest d t (t.lba + r.offset) d.numBlocks (firstPage t r) t.pglist.length = .outOfBounds := by
  have hlt := firstPage_lt hoffset
  simp only [Unread, hnot, not_false_eq_true, true_and, not_or, Bool.not_eq_false] at hread
  have hok := pagesOk_iff.2 hread.2.1
  rw [copy_read hlength hnot, readFromRodEntry, take_of_length_le le_rfl, hread.1,
    readRodPages_outOfBounds hok (by rw [length_drop]; omega)]
  · rfl
  · rw [Ne, drop_eq_nil_iff]
    omega

end Plan

end QuadStor.Token
