import QuadStor.WriteSame.Lemmas.Loop

/-!
# What a WRITE SAME leaves
-/

namespace QuadStor.WriteSame

open Lib Command List
open Read (zeroPage)

variable {io : Nat → PglistIo} {v v' : Volume} {r : Request} {b i : Nat}

theorem content_hashCompute {p : Pgdata} (h : p.zero = false) : p.hashCompute.content = p.bytes := by
  unfold Pgdata.content Pgdata.hashCompute
  simp only [h, Bool.false_or]
  split_ifs with hzero
  · exact (beq_iff_eq.mp hzero).symm
  · rfl

theorem good_cases (h : tdiskCmdWriteSame io v r = .good v') :
    (v.legacy = false ∧ writeSameLoop io r 0 v r.lba (r.count v) = .good v') ∨
      (v.legacy = true ∧ r.stamps = false ∧ r.page.take 512 = replicate 512 0 ∧
        writeSameLoop io r 0 v (alignSize r.lba) (r.wholePages v) = .good v') := by
  unfold tdiskCmdWriteSame at h
  split_ifs at h with heom hboth hcount hstamps hlegacy hpage
  · have hpos : r.count v ≠ 0 := by
      simp only [Geometry.reachedEom, Bool.or_eq_true, decide_eq_true_eq, not_or] at heom
      rw [Request.count]
      split_ifs <;> omega
    exact absurd hcount hpos
  · refine .inr ⟨hlegacy, ?_, not_not.mp hpage, h⟩
    simpa [hlegacy] using hstamps
  · exact .inl ⟨Bool.eq_false_of_not_eq_true hlegacy, h⟩

section Pages

variable (hl : v.legacy = false)
include hl

theorem wanted_page (b : Nat) : r.wanted v b = if r.stamps then (r.stamp b).bytes else r.page := by
  have hall : r.page.take (2 ^ v.lbaShift) = r.page :=
    take_of_length_le (by simp [Geometry.lbaShift, hl, r.length_page])
  simp only [Request.wanted, hall, Request.stamp]

theorem content_page (lba : Nat) : (r.pgdata v lba).content = if r.stamps then (r.stamp lba).bytes else
      if r.unmap then zeroPage else r.page := by
  unfold Request.pgdata
  split_ifs with hstamps hunmap
  · exact content_hashCompute rfl
  · simp [Request.pgtmp, Pgdata.content, hunmap]
  · have hpgtmp : r.pgtmp v = Pgdata.hashCompute ⟨false, r.page, r.length_page⟩ := by
      simp [Request.pgtmp, hunmap, hl, Pgdata.hashCompute]
    rw [hpgtmp, content_hashCompute rfl]

omit hl in
theorem stamp_eq_iff {lba j : Nat} (hj : j < 512) : (r.stamp lba).bytes = (r.stamp (lba + j)).bytes ↔ j = 0 := by
  have hinj : (r.stamp lba).bytes = (r.stamp (lba + j)).bytes ↔ lba % 256 ^ r.width = (lba + j) % 256 ^ r.width := by
    rw [← toBytes_eq_iff]
    exact ⟨fun h => (append_inj h (by simp)).1, fun h => by simp only [Request.stamp, h]⟩
  rw [hinj, Request.width]
  cases r.pbdata with
  | false =>
    simp only [Bool.false_eq_true, if_false]
    omega
  | true =>
    simp only [if_true]
    omega

theorem exact_iff_pagesFit (h : Filled io v v' r r.lba (r.count v)) : Exact v v' r ↔ PagesFit io v r := by
  have hl' := h.legacy.trans hl
  have hothers := h.others
  have hskipped := h.skipped
  have hwritten := h.written
  simp only [lbaReal_page hl] at hothers hskipped hwritten
  have hcount : unmapLbaCount v = 512 := by simp [unmapLbaCount, hl]
  -- a page that is written is right exactly if it is the first of its chunk, or not to be stamped
  have hpage : ∀ i, i < r.count v → ¬ Skips io v r r.lba i → (v'.block (r.lba + i) = r.wanted v (r.lba + i) ↔
        if r.stamps then i % 512 = 0 else r.unmap = true → r.page = zeroPage) := by
    intro i hi hskip
    have hstart : r.lba + i = r.lba + i / 512 * 512 + i % 512 := by omega
    rw [block_page hl', hwritten i hi hskip, content_page hl, wanted_page hl, hcount]
    cases hs : r.stamps with
    | true =>
      simp only [if_true]
      rw [hstart, stamp_eq_iff (Nat.mod_lt _ (by decide))]
    | false =>
      cases hu : r.unmap with
      | true => simp [eq_comm]
      | false => simp
  have hold : ∀ i, i < r.count v → Skips io v r r.lba i → v'.block (r.lba + i) = v.block (r.lba + i) := by
    intro i hi hskip
    rw [block_page hl', block_page hl, hskipped i hi hskip]
  constructor
  · intro hexact
    have hrange : ∀ i, i < r.count v → v'.block (r.lba + i) = r.wanted v (r.lba + i) := fun i hi =>
      hexact.written _ (Nat.le_add_right _ _) (by omega)
    exact ⟨fun i hi hskip => (hpage i hi hskip).mp (hrange i hi),
      fun i hi hskip => (hold i hi hskip).symm.trans (hrange i hi)⟩
  · intro hfit
    refine ⟨fun b hle hlt => ?_, fun b hb => ?_⟩
    · obtain ⟨i, rfl⟩ := Nat.exists_eq_add_of_le hle
      by_cases hskip : Skips io v r r.lba i
      · rw [hold i (by omega) hskip, hfit.skipped i (by omega) hskip]
      · exact (hpage i (by omega) hskip).mpr (hfit.written i (by omega) hskip)
    · rw [block_page hl', block_page hl, hothers b hb]

end Pages

section Sectors

variable (hl : v.legacy = true)
include hl

theorem zeroBlock_sector : v.zeroBlock = replicate 512 0 := by
  simp [Volume.zeroBlock, Geometry.lbaShift, hl]

theorem content_sector (hstamps : r.stamps = false) (lba : Nat) : (r.pgdata v lba).content = zeroPage := by
  simp [Request.pgdata, hstamps, Request.pgtmp, hl, Pgdata.hashCompute, Pgdata.content]

theorem block_sector (h : Filled io v v' r (alignSize r.lba) (r.wholePages v)) (hstamps : r.stamps = false) (b : Nat) :
    (alignSize r.lba ≤ b ∧ b < alignSize r.lba + r.wholePages v ∧
        ¬ Skips io v r (alignSize r.lba) (b / 8 - alignSize r.lba / 8) → v'.block b = v.zeroBlock) ∧
      (¬ (alignSize r.lba ≤ b ∧ b < alignSize r.lba + r.wholePages v ∧
        ¬ Skips io v r (alignSize r.lba) (b / 8 - alignSize r.lba / 8)) → v'.block b = v.block b) := by
  have hreal : ∀ m, v.lbaReal m = m / 8 := by simp [Geometry.lbaReal, hl]
  have hreal' : ∀ m, v'.lbaReal m = m / 8 := by simp [Geometry.lbaReal, h.legacy, hl]
  have halign : alignSize r.lba % 8 = 0 := Nat.mul_mod_left _ _
  have hwhole : r.wholePages v % 8 = 0 := Nat.mul_mod_left _ _
  have hothers := h.others
  have hskipped := h.skipped
  have hwritten := h.written
  simp only [hreal] at hothers hskipped hwritten
  constructor
  · rintro ⟨hle, hlt, hskip⟩
    have hpage := hwritten (b / 8 - alignSize r.lba / 8) (by omega) hskip
    rw [content_sector hl hstamps, Nat.add_sub_cancel' (by omega)] at hpage
    rw [block_of_zero (by rwa [hreal']), Volume.zeroBlock, Volume.zeroBlock, Geometry.lbaShift, Geometry.lbaShift, h.legacy]
  · intro hnot
    refine block_congr h.legacy ?_
    rw [hreal]
    by_cases hin : alignSize r.lba ≤ b ∧ b < alignSize r.lba + r.wholePages v
    · have hskip := not_not.mp fun hskip => hnot ⟨hin.1, hin.2, hskip⟩
      have hpage := hskipped (b / 8 - alignSize r.lba / 8) (by omega) hskip
      rwa [Nat.add_sub_cancel' (by omega)] at hpage
    · exact hothers _ (by omega)

omit hl in
theorem wholePages_le (h : alignSize r.lba ≤ r.lba + r.count v) :
    alignSize r.lba + r.wholePages v ≤ r.lba + r.count v := by
  rw [alignSize] at h
  rw [Request.wholePages, u32, u64, alignSize]
  omega

theorem exact_iff_sectorsFit (h : Filled io v v' r (alignSize r.lba) (r.wholePages v))
    (hstamps : r.stamps = false) (hzero : r.page.take 512 = replicate 512 0) :
    Exact v v' r ↔ SectorsFit io v r := by
  have hwanted : ∀ b, r.wanted v b = v.zeroBlock := by
    intro b
    simp [Request.wanted, hstamps, Geometry.lbaShift, hl, hzero, zeroBlock_sector hl]
  have halign : r.lba ≤ alignSize r.lba := by
    rw [alignSize]
    omega
  have hblock := block_sector hl h hstamps
  constructor
  · intro hexact
    refine ⟨fun b hle hlt hend => ?_, fun b hle hlt _ _ hskip => ?_, fun hwrap b hle hlt hskip => ?_⟩
    · rw [← (hblock b).2 (by omega), hexact.written b hle hlt, hwanted]
    · rw [← (hblock b).2 (fun hin => hin.2.2 hskip), hexact.written b hle hlt, hwanted]
    · rw [← hexact.others b (by omega), (hblock b).1 ⟨hle, hlt, hskip⟩]
  · intro hfit
    refine ⟨fun b hle hlt => ?_, fun b hb => ?_⟩
    · rw [hwanted]
      by_cases hin : alignSize r.lba ≤ b ∧ b < alignSize r.lba + r.wholePages v
      · by_cases hskip : Skips io v r (alignSize r.lba) (b / 8 - alignSize r.lba / 8)
        · rw [(hblock b).2 (fun h => h.2.2 hskip), hfit.skipped b hle hlt hin.1 hin.2 hskip]
        · exact (hblock b).1 ⟨hin.1, hin.2, hskip⟩
      · rw [(hblock b).2 (fun h => hin ⟨h.1, h.2.1⟩), hfit.ends b hle hlt (by omega)]
    · by_cases hin : alignSize r.lba ≤ b ∧ b < alignSize r.lba + r.wholePages v ∧
        ¬ Skips io v r (alignSize r.lba) (b / 8 - alignSize r.lba / 8)
      · have hwrap : r.lba + r.count v < alignSize r.lba := by
          by_contra hreach
          have := wholePages_le (Nat.le_of_not_lt hreach)
          omega
        rw [(hblock b).1 hin, hfit.wraps hwrap b hin.1 hin.2.1 hin.2.2]
      · exact (hblock b).2 hin

end Sectors

/-- A WRITE SAME that ends in GOOD status has written exactly its range if and only if `Fits`. -/
theorem write_same_exact (h : tdiskCmdWriteSame io v r = .good v') : Exact v v' r ↔ Fits io v r := by
  obtain ⟨hl, hloop⟩ | ⟨hl, hstamps, hzero, hloop⟩ := good_cases h
  · have hfilled := filled_of_good hloop (by simp [hl]) (by simp [hl])
    rw [exact_iff_pagesFit hl hfilled, Fits, hl]
    simp
  · have hfilled := filled_of_good hloop (fun _ => Nat.mul_mod_left _ _) (fun _ => Nat.mul_mod_left _ _)
    rw [exact_iff_sectorsFit hl hfilled hstamps hzero, Fits, hl]
    simp

theorem two_lt : 2 < 2 ^ 32 := by decide

def twoBlocks (lbdata : Bool) : Request :=
  ⟨1, 2, lbdata, false, false, (onePage 1).bytes, two_lt, (onePage 1).length_bytes⟩

theorem twoBlocks_good (lbdata : Bool) : tdiskCmdWriteSame (fun _ => quickPglist) (zeroVolume false) (twoBlocks lbdata) =
      .good ((zeroVolume false).writePages quickIo 1 (replicate 2 ((twoBlocks lbdata).pgdata (zeroVolume false) 1))) := by
  have hloop : writeSameLoop (fun _ => quickPglist) (twoBlocks lbdata) 0 (zeroVolume false) 1 2 = .good _ :=
    writeSameLoop_chunk rfl rfl (by decide) (by decide) (by simp [zeroVolume]) (by decide)
  refine Eq.trans ?_ hloop
  cases lbdata <;> rfl

theorem twoBlocks_not_skipped (lbdata : Bool) (i : Nat) :
    ¬ Skips (fun _ => quickPglist) (zeroVolume false) (twoBlocks lbdata) 1 i := by
  rw [Skips, quickPglist, quickIo_skipped]
  simp

theorem second_block_stamped_as_first :
    ∃ v', tdiskCmdWriteSame (fun _ => quickPglist) (zeroVolume false) (twoBlocks true) = .good v' ∧
      v'.block 2 = (twoBlocks true).wanted (zeroVolume false) 1 ∧ v'.block 2 ≠ (twoBlocks true).wanted (zeroVolume false) 2 := by
  refine ⟨_, twoBlocks_good true, ?_⟩
  have hpage : ((zeroVolume false).writePages quickIo 1
      (replicate 2 ((twoBlocks true).pgdata (zeroVolume false) 1))).block 2 = ((twoBlocks true).stamp 1).bytes := by
    rw [block_page rfl, page_writePages_replicate, if_pos ⟨by decide, by decide, quickIo_skipped _ _ _⟩,
      content_page rfl]
    rfl
  have hstamps : (twoBlocks true).stamps = true := rfl
  rw [hpage, wanted_page rfl, wanted_page rfl, hstamps, if_pos rfl, if_pos rfl]
  refine ⟨rfl, fun heq => ?_⟩
  have : (1 : Nat) = 0 := (stamp_eq_iff (j := 1) (by decide)).mp heq
  exact absurd this (by decide)

theorem write_same_exact_plain :
    ∃ v', tdiskCmdWriteSame (fun _ => quickPglist) (zeroVolume false) (twoBlocks false) = .good v' ∧
      Exact (zeroVolume false) v' (twoBlocks false) := by
  refine ⟨_, twoBlocks_good false, (write_same_exact (twoBlocks_good false)).mpr ?_⟩
  have hfits : PagesFit (fun _ => quickPglist) (zeroVolume false) (twoBlocks false) :=
    ⟨fun _ _ _ => by simp [Request.stamps, twoBlocks], fun i _ hskip => absurd hskip (twoBlocks_not_skipped false i)⟩
  exact hfits

end QuadStor.WriteSame
