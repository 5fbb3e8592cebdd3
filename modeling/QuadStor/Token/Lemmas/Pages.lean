import QuadStor.Command.Lemmas.Merge
import QuadStor.Token.Lemmas.Plan

/-!
# The pages that are written
-/

namespace QuadStor.Token

open Lib Command List
open DDTable (Block)
open Read (Bytes zeroPage)

variable {disks : Nat → Settings} {io : CopyIo} {s : State disks} {t : RodToken disks} {r : Request} {d : Descriptor}
  {pool : Pool} {e : Option Block} {p q : Pgdata} {pages merged : List Pgdata} {dedupe : Bool} {i k n lba : Nat}
  {l : List Bytes}

theorem bytes_rodPage : (rodPage pool e).bytes = (pool.get blank e).1 := by cases e <;> rfl

theorem zero_rodPage : (rodPage pool e).zero = true ↔ e = none := by cases e <;> simp [rodPage, Pgdata.unmapped]

theorem content_rodPage : (rodPage pool e).content = (pool.get blank e).1 := by cases e <;> rfl

theorem bytes_hash : (pglistCalcHash dedupe p).bytes = p.bytes := by
  unfold pglistCalcHash
  split_ifs <;> rfl

theorem content_hash : (pglistCalcHash dedupe p).content = p.content := by
  cases hzero : p.zero with
  | true => rw [pglistCalcHash, if_pos hzero]
  | false =>
    rw [pglistCalcHash, hzero, if_neg Bool.false_ne_true, content_hashed, Pgdata.content, hzero]
    rfl

theorem zero_hash : (pglistCalcHash dedupe p).zero = true ↔ p.zero = true ∨ dedupe = true ∧ p.content = zeroPage := by
  cases hzero : p.zero with
  | true => simp [pglistCalcHash, hzero]
  | false => simp [pglistCalcHash, Pgdata.content, hzero]

theorem copiedBlock_byReference (h : ByReference io s t r d) : copiedBlock io s t r d i = s.sourceBlock t i := if_pos h

theorem copiedBlock_read (h : ¬ ByReference io s t r d) : copiedBlock io s t r d i = t.pglist.getD i none := if_neg h

theorem flatten_rodPages (h : ¬ ByReference io s t r d) : ((t.pglist.map (rodPage s.pool)).map Pgdata.bytes).flatten =
    (copySource io s t r d).bytes ((disks t.src).lbaReal t.lba * 4096) (t.pglist.length * 4096) := by
  rw [← flatten_map_page]
  congr 1
  refine ext_getElem (by simp) fun i hi hi' => ?_
  have hlt : i < t.pglist.length := by simpa using hi
  simp only [getElem_map, getElem_range, bytes_rodPage, copySource, Nat.add_sub_cancel_left]
  rw [copiedBlock_read h, getD_eq_getElem _ _ hlt]

theorem start_eq : (disks t.src).lbaReal t.lba * 4096 +
    ((disks t.src).lbaDiff t.lba + r.offset) * 2 ^ (disks t.src).lbaShift =
      (t.lba + r.offset) * 2 ^ (disks t.src).lbaShift := by
  obtain ⟨-, hshift, -, hdiff, hreal⟩ | ⟨-, hshift, -, hdiff, hreal⟩ := (disks t.src).cases
  all_goals
    rw [hshift, hdiff, hreal]
    omega

theorem end_le (hlength : r.offset + d.numBlocks ≤ t.numBlocks) :
    ((disks t.src).lbaDiff t.lba + r.offset) * 2 ^ (disks t.src).lbaShift +
      d.numBlocks * 2 ^ (disks t.src).lbaShift ≤ t.pglist.length * 4096 := by
  have hle : (t.numBlocks + (disks t.src).lbaDiff t.lba) * 2 ^ (disks t.src).lbaShift ≤ t.pglist.length * 4096 := by
    rw [t.length_pglist, pglistCnt_eq (size_lt t), sizeToPglistCnt]
    split_ifs <;> omega
  refine Nat.le_trans ?_ hle
  rw [← Nat.add_mul]
  exact Nat.mul_le_mul_right _ (by omega)

theorem bytes_range (h : ¬ ByReference io s t r d) (hlength : r.offset + d.numBlocks ≤ t.numBlocks) :
    (((t.pglist.map (rodPage s.pool)).map Pgdata.bytes).flatten.drop
      (((disks t.src).lbaDiff t.lba + r.offset) * 2 ^ (disks t.src).lbaShift)).take
        (d.numBlocks * 2 ^ (disks t.src).lbaShift) =
      (copySource io s t r d).bytes ((t.lba + r.offset) * 2 ^ (disks t.src).lbaShift)
        (d.numBlocks * 2 ^ (disks t.src).lbaShift) := by
  rw [flatten_rodPages h, bytes_slice (end_le hlength), start_eq]

/-! ## `remap_pglist_for_write` -/

theorem flatten_modify_drop (h : ∀ p ∈ l, n < p.length) (hne : l ≠ []) :
    (l.modify 0 (drop n)).flatten = l.flatten.drop n := by
  cases l with
  | nil => exact absurd rfl hne
  | cons p rest =>
    have hlt := h p mem_cons_self
    rw [modify_zero_cons, flatten_cons, flatten_cons, drop_append_of_le_length (Nat.le_of_lt hlt)]

theorem nonempty_modify_drop (h : ∀ p ∈ l, n < p.length) : ∀ p ∈ l.modify 0 (drop n), p ≠ [] := by
  intro p hp hnil
  cases l with
  | nil => simp at hp
  | cons q rest =>
    obtain rfl | hp := mem_cons.mp hp
    · have hlt := h q mem_cons_self
      rw [drop_eq_nil_iff] at hnil
      omega
    · have hlt := h p (mem_cons_of_mem _ hp)
      rw [hnil, length_nil] at hlt
      omega

section Remap

variable {pgOffset size : Nat}

theorem length_remap : (remapPglistForWrite io pgOffset size pages).length = sizeToPglistCnt size := by
  have hlen : (Cursor.copy ((pages.map Pgdata.bytes).modify 0 (drop pgOffset)) size
      ((range (sizeToPglistCnt size)).map fun i => (io.fresh i).1) ⟨0, 0⟩ ⟨0, 0⟩ size).map length =
        ((range (sizeToPglistCnt size)).map fun i => (io.fresh i).1).map length := Cursor.map_length_copy
  have hlen' := congrArg length hlen
  rw [length_map, length_map, length_map, length_range] at hlen'
  rw [remapPglistForWrite, length_pmap, hlen']

theorem size_le_count : size ≤ sizeToPglistCnt size * 4096 := by
  rw [sizeToPglistCnt]
  split_ifs <;> omega

theorem take_flatten_remap (hoff : pgOffset < 4096) (hpos : 0 < size) (hsize : pgOffset + size ≤ pages.length * 4096) :
    ((remapPglistForWrite io pgOffset size pages).map Pgdata.bytes).flatten.take size =
      ((pages.map Pgdata.bytes).flatten.drop pgOffset).take size := by
  have hlen : ∀ p ∈ pages.map Pgdata.bytes, pgOffset < p.length := fun p hp => by
    rw [length_src_pages p hp]
    exact hoff
  have hne : pages.map Pgdata.bytes ≠ [] := by
    intro hnil
    have := congrArg length hnil
    rw [length_map, length_nil] at this
    omega
  have hflat := flatten_modify_drop hlen hne
  have hfresh : ∀ p ∈ (range (sizeToPglistCnt size)).map fun i => (io.fresh i).1, p.length = 4096 := by
    simp [fun i => (io.fresh i).2]
  have hcount : size ≤ sizeToPglistCnt size * 4096 := size_le_count
  have hdata : ((pages.map Pgdata.bytes).flatten.drop pgOffset).length = pages.length * 4096 - pgOffset := by
    rw [length_drop, Cursor.length_flatten_uniform length_src_pages, length_map]
  have hmap : (remapPglistForWrite io pgOffset size pages).map Pgdata.bytes =
      Cursor.copy ((pages.map Pgdata.bytes).modify 0 (drop pgOffset)) size
        ((range (sizeToPglistCnt size)).map fun i => (io.fresh i).1) ⟨0, 0⟩ ⟨0, 0⟩ size := by
    rw [remapPglistForWrite, map_pmap]
    exact pmap_eq_self.mpr fun _ _ => rfl
  rw [hmap, Cursor.flatten_copy le_rfl, hflat]
  · have hlength : ((((pages.map Pgdata.bytes).flatten.drop pgOffset).drop 0).take size).length = size := by
      rw [drop_zero, length_take, hdata]
      omega
    have htake := take_overlay_zero (l := ((range (sizeToPglistCnt size)).map fun i => (io.fresh i).1).flatten)
      (a := (((pages.map Pgdata.bytes).flatten.drop pgOffset).drop 0).take size)
    rw [hlength] at htake
    exact htake
  · exact Cursor.valid_uniform hfresh (show 0 < _ by rw [length_map, length_range]; omega) (by decide)
  · exact Cursor.valid_start (nonempty_modify_drop hlen)
  · rw [Cursor.length_flatten_uniform hfresh, length_map, length_range]
    simpa [Lib.Cursor.pos] using hcount
  · rw [hflat, hdata]
    simp only [Lib.Cursor.pos, take_zero, flatten_nil, length_nil]
    omega

variable (io dedupe) in
theorem take_flatten_moved (hoff : pgOffset < 4096) (hpos : 0 < size) (hsize : pgOffset + size ≤ pages.length * 4096) :
    ((movedPages io dedupe pgOffset size pages).map Pgdata.bytes).flatten.take size =
        ((pages.map Pgdata.bytes).flatten.drop pgOffset).take size ∧
      size ≤ (movedPages io dedupe pgOffset size pages).length * 4096 := by
  have hmap : ∀ l : List Pgdata, (l.map (pglistCalcHash dedupe)).map Pgdata.bytes = l.map Pgdata.bytes := by
    intro l
    simp [Function.comp_def, bytes_hash]
  simp only [movedPages, hmap, length_map]
  split_ifs with hzero
  · rw [hzero, drop_zero]
    exact ⟨rfl, Nat.le_trans (Nat.le_add_left _ _) hsize⟩
  · rw [take_flatten_remap hoff hpos hsize, length_remap]
    exact ⟨rfl, size_le_count⟩

theorem zero_moved (hoff : pgOffset ≠ 0) (hq : q ∈ movedPages io dedupe pgOffset size pages) :
    q.zero = (dedupe && q.content == zeroPage) ∧ q.content = q.bytes := by
  rw [movedPages, if_neg hoff] at hq
  obtain ⟨p, hp, rfl⟩ := mem_map.mp hq
  obtain ⟨bytes, hlen, rfl⟩ := mem_pmap.mp hp
  rw [content_hash]
  exact ⟨rfl, rfl⟩

theorem carries_moved {v : Volume} {diff : Nat} (hl : v.legacy = true) (hn : n < 2 ^ 20)
    (hpos : 0 < n) (hdiff : diff < 8) (hsize : diff * 512 + n * 512 ≤ pages.length * 4096)
    (hmoved : lba % 8 = 0 → n % 8 = 0 → diff ≠ 0) (hrun : v.checkUnalignedData io.write lba n
      (movedPages io v.dedupe (diff * 512) (n * 512) pages) = some (k, merged)) :
    Merged v lba (((pages.map Pgdata.bytes).flatten.drop (diff * 512)).take (n * 512)) k merged := by
  obtain ⟨hbytes, hle⟩ := take_flatten_moved io v.dedupe (by omega) (by omega) hsize
  rw [← hbytes]
  refine carries_sectors hl hn hpos hle (fun hlba hblocks => ?_) hrun
  have hoff : diff * 512 ≠ 0 := Nat.mul_ne_zero (hmoved hlba hblocks) (by decide)
  refine ⟨?_, fun q => zero_moved hoff⟩
  rw [movedPages, if_neg hoff, length_map, length_remap, sizeToPglistCnt, if_neg (by omega)]
  omega

end Remap

theorem lbaDiff_of_first (hfirst : firstPage t r = 0) :
    (disks t.src).lbaDiff (t.lba + r.offset) = (disks t.src).lbaDiff t.lba + r.offset := by
  rw [firstPage] at hfirst
  obtain ⟨-, -, -, hdiff, hreal⟩ | ⟨-, -, -, hdiff, hreal⟩ := (disks t.src).cases
  all_goals
    rw [hdiff, hreal] at hfirst
    rw [hdiff, hdiff]
    omega

section Whole

variable (hal : Aligned t r d)
include hal

theorem aligned_src (hl : (disks t.src).legacy = true) : (t.lba + r.offset) % 8 = 0 := by
  have := hal hl
  omega

theorem lbaReal_src : (disks t.src).lbaReal (t.lba + r.offset) = (disks t.src).lbaReal t.lba + firstPage t r := by
  rw [firstPage]
  obtain ⟨hl, -, -, hdiff, hreal⟩ | ⟨-, -, -, hdiff, hreal⟩ := (disks t.src).cases
  · have := hal hl
    rw [hdiff, hreal, hreal, hreal]
    omega
  · rw [hdiff, hreal, hreal, hreal]
    omega

theorem brings_whole (hcount : pages.length * (disks t.src).perPage = copied io s t r d)
    (hcontent : ∀ i q, pages[i]? = some q → q.content = (s.pool.get blank (copiedBlock io s t r d (firstPage t r + i))).1)
    (hzero : ∀ i q, pages[i]? = some q → (q.zero = true ↔ copiedBlock io s t r d (firstPage t r + i) = none ∨
      (disks r.dest).dedupe = true ∧ ¬ (ByReference io s t r d ∧ io.ref.taken i = true) ∧ q.content = zeroPage)) :
    BringsTo (s.volume r.dest) (target io s t r d) (ZeroPage io s t r d) ((disks t.src).lbaReal d.lba) pages := by
  have hcarries : Carries (s.volume r.dest) (target io s t r d) ((disks t.src).lbaReal d.lba) pages := by
    rw [target, ← Geometry.lbaReal_mul fun hl => (hal hl).2.2.2, ← Geometry.lbaReal_mul (aligned_src hal), ← hcount,
      Geometry.mul_perPage]
    refine carries_pages fun i q hq => ?_
    simp only [hcontent i q hq, copySource, lbaReal_src hal, Nat.add_assoc, Nat.add_sub_cancel_left]
  refine ⟨put_legacy, hcarries, fun i q hq => ?_⟩
  rw [hzero i q hq, hcarries.content i q hq, ZeroPage, Nat.add_sub_cancel_left]
  simp only [hal, true_and]

end Whole

theorem length_refPages (io : CopyIo) (s : State disks) {src : Nat} (dest lba : Nat)
    (hlt : n * 2 ^ (disks src).lbaShift < 2 ^ 32) (hal : (disks src).legacy = true → n % 8 = 0) :
    (s.refPages io src dest lba n).length * 4096 = n * 2 ^ (disks src).lbaShift := by
  rw [State.refPages, length_map, length_range, pglistCnt_eq hlt, sizeToPglistCnt]
  obtain ⟨hl, hshift, -⟩ | ⟨-, hshift, -⟩ := (disks src).cases
  · have := hal hl
    rw [hshift, if_neg (by omega)]
    omega
  · rw [hshift, if_neg (by omega)]
    omega

theorem refPages_getElem (h : ByReference io s t r d)
    (hq : (s.refPages io t.src r.dest (t.lba + r.offset) d.numBlocks)[i]? = some q) :
    q = if io.ref.taken i then rodPage s.pool (copiedBlock io s t r d (firstPage t r + i))
      else pglistCalcHash (disks r.dest).dedupe (rodPage s.pool (copiedBlock io s t r d (firstPage t r + i))) := by
  obtain ⟨hi, rfl⟩ := List.getElem?_eq_some_iff.mp hq
  simp only [State.refPages, getElem_map, getElem_range, lbaReal_src h.1, copiedBlock_byReference h,
    State.sourceBlock, Nat.add_assoc]

theorem brings_byReference (h : ByReference io s t r d) (hlength : r.offset + d.numBlocks ≤ t.numBlocks) :
    BringsTo (s.volume r.dest) (target io s t r d) (ZeroPage io s t r d) ((disks t.src).lbaReal d.lba)
      (s.refPages io t.src r.dest (t.lba + r.offset) d.numBlocks) := by
  have hcopied : copied io s t r d = d.numBlocks := by rw [copied, if_neg fun hnot => hnot.2 h]
  refine brings_whole h.1 ?_ (fun i q hq => ?_) (fun i q hq => ?_)
  · refine Nat.eq_of_mul_eq_mul_right (Nat.two_pow_pos (disks t.src).lbaShift) ?_
    rw [Geometry.mul_perPage, hcopied]
    exact length_refPages io s _ _ (Nat.lt_of_le_of_lt (Nat.mul_le_mul_right _ (by omega)) (size_lt t))
      fun hl => (h.1 hl).2.2.1
  · rw [refPages_getElem h hq]
    split_ifs
    · exact content_rodPage
    · rw [content_hash, content_rodPage]
  · rw [refPages_getElem h hq]
    split_ifs with htaken
    · simp [zero_rodPage, h, htaken]
    · simp [zero_hash, zero_rodPage, content_hash, htaken]

theorem brings_pages (hal : Aligned t r d) (hnot : ¬ ByReference io s t r d) (hfirst : firstPage t r = 0) :
    BringsTo (s.volume r.dest) (target io s t r d) (ZeroPage io s t r d) ((disks t.src).lbaReal d.lba)
      (readPages io s t r d) := by
  have hdiff : (disks t.src).lbaDiff (t.lba + r.offset) = 0 := by
    rw [Geometry.lbaDiff]
    split_ifs with hl
    · exact aligned_src hal hl
    · rfl
  have hpages : readPages io s t r d = (t.pglist.map (rodPage s.pool)).map (pglistCalcHash (disks r.dest).dedupe) := by
    simp [readPages, movedPages, hdiff]
  have hget : ∀ i q, (readPages io s t r d)[i]? = some q → q = pglistCalcHash (disks r.dest).dedupe
      (rodPage s.pool (copiedBlock io s t r d (firstPage t r + i))) := by
    intro i q hq
    rw [hpages, List.getElem?_map, List.getElem?_map, Option.map_map, Option.map_eq_some_iff] at hq
    obtain ⟨e, he, rfl⟩ := hq
    rw [copiedBlock_read hnot, hfirst, Nat.zero_add, getD_eq_getElem?_getD, he]
    rfl
  refine brings_whole hal ?_ (fun i q hq => ?_) (fun i q hq => ?_)
  · rw [hpages, length_map, length_map, copied, if_pos ⟨hal, hnot⟩]
  · rw [hget i q hq, content_hash, content_rodPage]
  · rw [hget i q hq]
    simp [zero_hash, zero_rodPage, content_hash, hnot]

theorem brings_sectors (hal : ¬ Aligned t r d) (hfirst : firstPage t r = 0)
    (hlength : r.offset + d.numBlocks ≤ t.numBlocks) (hpos : 0 < d.numBlocks)
    (hlegacy : (disks t.src).legacy = (disks r.dest).legacy)
    (hrun : (s.volume r.dest).checkUnalignedData io.write d.lba d.numBlocks (readPages io s t r d) = some (k, merged)) :
    k = (disks t.src).lbaReal d.lba ∧
      BringsTo (s.volume r.dest) (target io s t r d) (ZeroPage io s t r d) k merged := by
  have hl : (disks t.src).legacy = true := by
    by_contra hnot
    exact hal fun hl => absurd hl hnot
  have hshift : 2 ^ (disks t.src).lbaShift = 512 := by simp [Geometry.lbaShift, hl]
  have hcopied : copied io s t r d = d.numBlocks := by rw [copied, if_neg fun h => hal h.1]
  have hreal : (disks t.src).lbaReal d.lba = d.lba / 8 := by rw [Geometry.lbaReal, if_pos hl]
  have hdiff : (disks t.src).lbaDiff (t.lba + r.offset) = (t.lba + r.offset) % 8 := by
    rw [Geometry.lbaDiff, if_pos hl]
  have hn : d.numBlocks < 2 ^ 20 := by
    have hsize := t.size_le
    have hmax : maximumBytesInBlockRod = 4194304 := by decide
    rw [hshift] at hsize
    omega
  have hsize := end_le hlength
  have hnot : ¬ ByReference io s t r d := fun h => hal h.1
  have hbytes := bytes_range hnot hlength
  rw [← lbaDiff_of_first hfirst, hshift, hdiff] at hsize hbytes
  rw [readPages, hdiff, hshift, u32_eq_of_lt (by omega)] at hrun
  -- whole pages at the destination have been moved, or the copy would be aligned
  have hmoved : d.lba % 8 = 0 → d.numBlocks % 8 = 0 → (t.lba + r.offset) % 8 ≠ 0 := by
    intro hlba hblocks hzero
    have hmod := lbaDiff_of_first hfirst
    exact hal fun _ => by omega
  obtain ⟨rfl, hcarries, hzeros⟩ := carries_moved (v := s.volume r.dest) (hlegacy.symm.trans hl) hn hpos
    (Nat.mod_lt _ (by decide)) (by rwa [length_map]) hmoved hrun
  have htarget : target io s t r d = (s.volume r.dest).put (d.lba * 512)
      ((copySource io s t r d).bytes ((t.lba + r.offset) * 512) (d.numBlocks * 512)) := by
    rw [target, hshift, hcopied]
  rw [hbytes, ← htarget] at hcarries
  refine ⟨hreal.symm, put_legacy, hcarries, fun i q hq => ?_⟩
  rw [hzeros i q hq, ZeroPage, ← hcarries.content i q hq]
  simp [hal, hnot, State.volume]

end QuadStor.Token
