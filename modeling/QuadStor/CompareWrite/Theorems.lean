import QuadStor.CompareWrite.Lemmas

/-!
# What a COMPARE AND WRITE leaves
-/

namespace QuadStor.CompareWrite

open Lib Command List
open Read (Bytes zeroPage)

variable {v : Volume} {r : Request v} {io : CwIo} {i k : Nat} {p : Pgdata}

theorem length_write (r : Request v) : r.write.length = r.size := by
  have := two_size_le r
  rw [Request.write, length_take, length_drop]
  omega

section Sectors

variable (hl : v.legacy = true)
include hl

theorem map_bytes_pglist : r.pglist.map Pgdata.content = (checkCwData r).dest := by
  rw [Request.pglist, if_pos hl, map_pmap]
  simp [Pgdata.content]

theorem length_pglist : r.pglist.length = r.dest.length := by
  have hlen : (checkCwData r).dest.map length = r.dest.map length := map_length_cwLoop _ _ _ _ _
  have hdest := congrArg length hlen
  have hpages := congrArg length (map_bytes_pglist (r := r) hl)
  simp only [length_map] at hdest hpages
  exact hpages.trans hdest

theorem overwrites_sector (hok : io.write.ok = true) :
    Overwrites v (v.writePages io.write (v.lbaReal r.lba) r.pglist) (r.lba * 2 ^ v.lbaShift) r.write := by
  have hbytes := (checkCwData_ok r).2 hl
  rw [← v.lbaReal_mul_add]
  refine overwrites_writePages (fun i q hq => ?_) ?_ ?_
  · -- no page is marked as a zero page
    have hzero : q.zero = false := by
      rw [Request.pglist, if_pos hl] at hq
      obtain ⟨bytes, -, rfl⟩ := mem_pmap.mp (mem_of_getElem? hq)
      rfl
    simp [WriteIo.skipped, hok, hzero]
  · rw [map_bytes_pglist hl, hbytes, flatten_dest, length_pglist hl]
  · rw [length_write, length_pglist hl]
    exact (size_le_dest r).1

theorem written_sector (hok : io.write.ok = true) : Written r (v.writePages io.write (v.lbaReal r.lba) r.pglist) := by
  have h := overwrites_sector (r := r) hl hok
  have hsize : r.size = r.transferLength * 2 ^ v.lbaShift := rfl
  refine ⟨fun k hk => ?_, fun b _ hb => ?_⟩
  · have hlt : (r.lba + k + 1) * 2 ^ v.lbaShift ≤ r.lba * 2 ^ v.lbaShift + r.write.length := by
      rw [length_write, hsize, ← Nat.add_mul]
      exact Nat.mul_le_mul_right _ (by omega)
    rw [h.block_in (Nat.mul_le_mul_right _ (Nat.le_add_right _ _)) hlt, Nat.add_mul, Nat.add_sub_cancel_left]
    rfl
  · refine h.block_out ?_
    rw [length_write, hsize, ← Nat.add_mul]
    exact hb.imp (fun hb => Nat.mul_le_mul_right _ hb) (fun hb => Nat.mul_le_mul_right _ hb)

end Sectors

theorem content_pages (hp : r.pages[i]? = some p) : p.content = p.bytes := by
  unfold Pgdata.content
  split_ifs with hzero
  · exact (r.zero_pages p (mem_of_getElem? hp) hzero).symm
  · rfl

theorem slice_src (hp : r.pages[i]? = some p) : (r.src.flatten.drop (i * 4096)).take 4096 = p.bytes := by
  obtain ⟨hi, rfl⟩ := List.getElem?_eq_some_iff.mp hp
  have hi' : i < r.src.length := by simpa [Request.src] using hi
  rw [Cursor.slice_flatten_uniform (length_src r) hi']
  simp [Request.src]

section Pages

variable (hl : v.legacy = false)
include hl

theorem size_page : r.size = r.transferLength * 4096 := by simp [Request.size, Geometry.lbaShift, hl]

theorem getElem_pages (hi : i < 2 * r.transferLength) : ∃ p, r.pages[i]? = some p := by
  have hlen : r.pages.length = 2 * r.transferLength := by
    rw [r.length_pages, Geometry.lbaShift, hl]
    rfl
  exact ⟨_, getElem?_eq_getElem (hlen ▸ hi)⟩

theorem slice_compare (hk : k < r.transferLength) (hp : r.pages[k]? = some p) :
    (r.compare.drop (k * 4096)).take 4096 = p.bytes := by
  have hsize := size_page (r := r) hl
  rw [Request.compare, drop_take, take_take, Nat.min_eq_left (by omega), slice_src hp]

theorem writeBlock_page (hk : k < r.transferLength) (hp : r.pages[r.transferLength + k]? = some p) :
    r.writeBlock k = p.bytes := by
  have hsize := size_page (r := r) hl
  have hshift : 2 ^ v.lbaShift = 4096 := by simp [Geometry.lbaShift, hl]
  rw [Request.writeBlock, Request.write, hshift, drop_take, take_take, Nat.min_eq_left (by omega),
    drop_drop, hsize, ← Nat.add_mul, slice_src hp]

theorem write_eq_compare_iff : r.write = r.compare ↔
    ∀ k, k < r.transferLength → r.writeBlock k = (r.compare.drop (k * 4096)).take 4096 := by
  have hshift : 2 ^ v.lbaShift = 4096 := by simp [Geometry.lbaShift, hl]
  have hcompare : r.compare.length = r.transferLength * 4096 := by
    have := two_size_le r
    rw [Request.compare, length_take, ← size_page hl]
    omega
  rw [eq_iff_pieces ((length_write r).trans (size_page hl)) hcompare]
  simp only [Request.writeBlock, hshift]

theorem stored_block (h : r.stored = r.compare) (hk : k < r.transferLength) :
    v.block (r.lba + k) = (r.compare.drop (k * 4096)).take 4096 := by
  have hshift : 2 ^ v.lbaShift = 4096 := by simp [Geometry.lbaShift, hl]
  rw [← h, stored_eq, bytes_slice (by rw [size_page hl]; omega), block_eq_bytes, hshift, Nat.add_mul]

theorem written_iff_page (h : r.stored = r.compare) :
    Written r (v.writePages io.write r.lba r.pages) ↔ r.write = r.compare ∧
      ∀ k p, k < r.transferLength → r.lba + r.transferLength + k < v.endLba →
        r.pages[r.transferLength + k]? = some p → io.write.skipped r.lba (r.transferLength + k) p = false →
        v.block (r.lba + r.transferLength + k) = r.writeBlock k := by
  have hl' : (v.writePages io.write r.lba r.pages).legacy = false := hl
  -- the compare half over the range changes nothing
  have hrange : ∀ k, k < r.transferLength →
      (v.writePages io.write r.lba r.pages).block (r.lba + k) = (r.compare.drop (k * 4096)).take 4096 := by
    intro k hk
    obtain ⟨p, hp⟩ := getElem_pages (r := r) hl (show k < _ by omega)
    rw [block_page hl', page_writePages_of_some hp, content_pages hp, ← slice_compare hl hk hp,
      ← stored_block hl h hk, block_page hl, ite_self]
  have hbehind : ∀ k p, k < r.transferLength → r.pages[r.transferLength + k]? = some p →
      (v.writePages io.write r.lba r.pages).block (r.lba + r.transferLength + k) =
        if io.write.skipped r.lba (r.transferLength + k) p then v.block (r.lba + r.transferLength + k)
        else r.writeBlock k := by
    intro k p hk hp
    rw [block_page hl', Nat.add_assoc, page_writePages_of_some hp, content_pages hp, ← writeBlock_page hl hk hp,
      block_page hl]
  rw [write_eq_compare_iff hl]
  constructor
  · intro hw
    refine ⟨fun k hk => ?_, fun k p hk hend hp hskip => ?_⟩
    · rw [← hw.range k hk, hrange k hk]
    · rw [← hw.others _ hend (by omega), hbehind k p hk hp, hskip]
      rfl
  · rintro ⟨hsame, hold⟩
    refine ⟨fun k hk => by rw [hrange k hk, hsame k hk], fun b hend hb => ?_⟩
    by_cases hin : r.lba + r.transferLength ≤ b ∧ b < r.lba + r.transferLength + r.transferLength
    · obtain ⟨k, rfl⟩ := Nat.exists_eq_add_of_le hin.1
      obtain ⟨p, hp⟩ := getElem_pages (r := r) hl (show r.transferLength + k < _ by omega)
      rw [hbehind k p (by omega) hp]
      split_ifs with hskip
      · rfl
      · exact (hold k p (by omega) hend hp (Bool.eq_false_of_not_eq_true hskip)).symm
    · have hlen : r.pages.length = 2 * r.transferLength := by
        rw [r.length_pages, Geometry.lbaShift, hl]
        rfl
      rw [block_page hl', block_page hl, page_writePages_of_not (by omega)]

end Pages

/-- A COMPARE AND WRITE that does not fail is exact if and only if `Fits`; with blocks of 512 bytes it
always is. -/
theorem compare_and_write_exact (hrun : (tdiskCmdCompareAndWrite io r).2 ≠ .check) :
    Exact r (tdiskCmdCompareAndWrite io r) ↔ Fits io.write r := by
  unfold tdiskCmdCompareAndWrite at hrun ⊢
  split_ifs at hrun ⊢ with heom hread hfailed hok
  · exact absurd rfl hrun
  · exact absurd rfl hrun
  · have hne := (checkCwData_ok r).1.mp hfailed
    exact iff_of_true ⟨fun heq => absurd heq hne, fun _ => rfl⟩ fun _ heq => absurd heq hne
  · have heq := not_not.mp fun hne => hfailed ((checkCwData_ok r).1.mpr hne)
    have hexact : ∀ v', Exact r (v', .good) ↔ Written r v' := fun v' =>
      ⟨fun h => h.equal heq, fun h => ⟨fun _ => h, fun hne => absurd heq hne⟩⟩
    rw [hexact]
    cases hl : v.legacy with
    | true => exact iff_of_true (written_sector hl hok) (by simp [Fits, hl])
    | false =>
      have hpglist : r.pglist = r.pages := by rw [Request.pglist, hl]; rfl
      rw [Fits, hl, hpglist, lbaReal_page hl, written_iff_page hl heq]
      simp [heq]
  · exact absurd rfl hrun

/-! ## One block of zeroes, to be replaced by ones -/

def quickCw : CwIo := ⟨true, quickIo⟩

theorem block_zeroVolume (legacy : Bool) (b : Nat) : (zeroVolume legacy).block b = (zeroVolume legacy).zeroBlock :=
  block_of_zero rfl

def pageRequest : Request (zeroVolume false) where
  lba := 0
  transferLength := 1
  pages := [⟨true, zeroPage, length_zeroPage⟩, onePage 1]
  transferLength_pos := by decide
  transferLength_lt := by decide
  length_pages := rfl
  zero_pages := forall_mem_cons.mpr ⟨fun _ => rfl, forall_mem_singleton.mpr nofun⟩

theorem stored_of_one {r : Request v} (h : r.transferLength = 1) : r.stored = v.block r.lba := by
  simp [Request.stored, h]

theorem pageRequest_stored : pageRequest.stored = pageRequest.compare := by
  have hcompare : pageRequest.compare = zeroPage := take_left' length_zeroPage
  rw [stored_of_one rfl, block_zeroVolume, hcompare]
  rfl

theorem result_of_stored {r : Request v} (h : r.stored = r.compare)
    (heom : v.reachedEom r.lba r.transferLength = false) :
    tdiskCmdCompareAndWrite quickCw r = (v.writePages quickIo (v.lbaReal r.lba) r.pglist, .good) := by
  have hfailed := Bool.eq_false_of_not_eq_true fun hfailed => (checkCwData_ok r).1.mp hfailed h
  simp [tdiskCmdCompareAndWrite, heom, quickCw, hfailed, quickIo]

theorem write_half_behind_range : pageRequest.stored = pageRequest.compare ∧
      (tdiskCmdCompareAndWrite quickCw pageRequest).2 = .good ∧
      (tdiskCmdCompareAndWrite quickCw pageRequest).1.block 0 = zeroPage ∧
      (tdiskCmdCompareAndWrite quickCw pageRequest).1.block 1 = (onePage 1).bytes ∧
      pageRequest.writeBlock 0 = (onePage 1).bytes := by
  rw [result_of_stored pageRequest_stored (by decide)]
  have hfirst : pageRequest.pglist[0]? = some ⟨true, zeroPage, length_zeroPage⟩ := rfl
  have hsecond : pageRequest.pglist[1]? = some (onePage 1) := rfl
  refine ⟨pageRequest_stored, rfl, ?_, ?_, ?_⟩
  · rw [block_page rfl]
    exact (page_writePages_of_some hfirst).trans rfl
  · rw [block_page rfl]
    exact (page_writePages_of_some hsecond).trans rfl
  · exact writeBlock_page (r := pageRequest) rfl Nat.zero_lt_one hsecond

def sectorPage : Bytes := replicate 512 0 ++ (replicate 512 1 ++ replicate 3072 0)

theorem length_sectorPage : sectorPage.length = 4096 := by
  simp only [sectorPage, length_append, length_replicate]

def sectorRequest : Request (zeroVolume true) where
  lba := 3
  transferLength := 1
  pages := [⟨false, sectorPage, length_sectorPage⟩]
  transferLength_pos := by decide
  transferLength_lt := by decide
  length_pages := by decide
  zero_pages := by simp

theorem sectorRequest_stored : sectorRequest.stored = sectorRequest.compare := by
  have hcompare : sectorRequest.compare = replicate 512 0 := by
    rw [Request.compare, Request.src, Request.size]
    simp only [sectorRequest, map_cons, map_nil, flatten_cons, flatten_nil, append_nil]
    exact take_left' length_replicate
  rw [stored_of_one rfl, block_zeroVolume, hcompare]
  rfl

theorem compare_and_write_exact_sector : sectorRequest.stored = sectorRequest.compare ∧
      Written sectorRequest (tdiskCmdCompareAndWrite quickCw sectorRequest).1 := by
  have hrun : (tdiskCmdCompareAndWrite quickCw sectorRequest).2 = .good := by
    rw [result_of_stored (r := sectorRequest) sectorRequest_stored rfl]
  have hfits : Fits quickCw.write sectorRequest := fun h => absurd h (by decide)
  have hne : (tdiskCmdCompareAndWrite quickCw sectorRequest).2 ≠ .check := by
    rw [hrun]
    decide
  have hexact := (compare_and_write_exact hne).mpr hfits
  exact ⟨sectorRequest_stored, hexact.equal sectorRequest_stored⟩

end QuadStor.CompareWrite
