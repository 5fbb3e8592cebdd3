import QuadStor.Command.Lemmas.Write

/-!
# What `check_unaligned_data` makes of a range of sectors
-/

namespace QuadStor.Command

open Lib List
open Read (Bytes zeroPage)

variable {io : WriteIo} {v : Volume} {lba n k : Nat} {pages merged : List Pgdata} {m : Merge} {bytes : Bytes}

theorem merge_eq (lba : Nat) (hn : n < 2 ^ 20) : (merge lba n).lbaDiff = lba % 8 ∧ (merge lba n).size = n * 512 ∧
      (merge lba n).newSize = lba % 8 * 512 + n * 512 := by
  refine ⟨rfl, u32_eq_of_lt (by omega), ?_⟩
  simp only [merge, u32]
  omega

theorem merge_pglistCnt (lba n : Nat) : (merge lba n).pglistCnt = ((merge lba n).newSize + 4095) / 4096 :=
  pglistCnt_legacy _

theorem length_dest : (m.dest io v lba).length = m.pglistCnt := by
  simp only [Merge.dest]
  split_ifs <;> simp

theorem flatten_map_page (k c : Nat) :
    ((range c).map fun i => v.page (k + i)).flatten = v.bytes (k * 4096) (c * 4096) := by
  rw [← flatMap_page, flatMap_def]

theorem newSize_le_dest (lba n : Nat) : (merge lba n).newSize ≤ (merge lba n).pglistCnt * 4096 := by
  rw [merge_pglistCnt]
  omega

section Dest

variable (hn : n < 2 ^ 20) (hpos : 0 < n)
include hn hpos

theorem dest_first (hdiff : lba % 8 ≠ 0) : ((merge lba n).dest io v lba)[0]? = some (v.page (lba / 8)) := by
  obtain ⟨hd, -, hnew⟩ := merge_eq lba hn
  have hle := newSize_le_dest lba n
  have hfirst : (merge lba n).readsFirst := by rwa [Merge.readsFirst, hd]
  simp only [Merge.dest, if_pos hfirst]
  split_ifs with hlast
  · -- there is another page before the end
    have hgt := hlast.1.resolve_right (by rwa [hd])
    rw [List.getElem?_set_ne (by omega), List.getElem?_set_self (by simp; omega)]
  · rw [List.getElem?_set_self (by simp; omega)]

theorem dest_last (hmod : (merge lba n).newSize % 4096 ≠ 0) :
    ((merge lba n).dest io v lba)[(merge lba n).newSize / 4096]? =
      some (v.page (lba / 8 + (merge lba n).newSize / 4096)) := by
  obtain ⟨hd, -, hnew⟩ := merge_eq lba hn
  have hcnt : (merge lba n).pglistCnt = (merge lba n).newSize / 4096 + 1 := by
    rw [merge_pglistCnt]
    omega
  by_cases hlast : (merge lba n).readsLast
  · simp only [Merge.dest, if_pos hlast, hcnt, Nat.add_sub_cancel]
    rw [List.getElem?_set_self (by split_ifs <;> simp)]
  · -- the only page is the first one
    have hone : (merge lba n).newSize / 4096 = 0 ∧ lba % 8 ≠ 0 := by
      simp only [Merge.readsLast, not_and_or, not_or] at hlast
      omega
    rw [hone.1, dest_first hn hpos hone.2, Nat.add_zero]

theorem overlay_dest (hlen : bytes.length = n * 512) :
    overlay ((merge lba n).dest io v lba).flatten (lba % 8 * 512) bytes =
      overlay (v.bytes (lba / 8 * 4096) ((merge lba n).pglistCnt * 4096)) (lba % 8 * 512) bytes := by
  obtain ⟨hd, -, hnew⟩ := merge_eq lba hn
  have hdest := (merge lba n).length_dest io v lba
  have hold : ∀ p ∈ (range (merge lba n).pglistCnt).map fun i => v.page (lba / 8 + i), p.length = 4096 := by
    simp [v.length_page]
  rw [← flatten_map_page]
  have hle := newSize_le_dest lba n
  refine overlay_congr ?_ ?_
  · by_cases hdiff : lba % 8 = 0
    · simp [hdiff]
    · have hp : lba % 8 * 512 ≤ 4096 := by omega
      have hget : ((range (merge lba n).pglistCnt).map fun i => v.page (lba / 8 + i))[0]? =
          some (v.page (lba / 8)) := by
        rw [List.getElem?_map, List.getElem?_range (by omega), Option.map_some, Nat.add_zero]
      rw [Cursor.take_flatten_uniform hdest (dest_first hn hpos hdiff) hp, Cursor.take_flatten_uniform hold hget hp]
  · rw [hlen, ← hnew]
    have hcnt := merge_pglistCnt lba n
    by_cases hmod : (merge lba n).newSize % 4096 = 0
    · replace hcnt : (merge lba n).pglistCnt * 4096 = (merge lba n).newSize := by omega
      rw [drop_of_length_le, drop_of_length_le]
      · rw [Cursor.length_flatten_uniform hold, length_map, length_range, hcnt]
      · rw [Cursor.length_flatten_uniform hdest, length_dest, hcnt]
    · replace hcnt : (merge lba n).pglistCnt = (merge lba n).newSize / 4096 + 1 := by omega
      have hsplit : (merge lba n).newSize = (merge lba n).newSize / 4096 * 4096 + (merge lba n).newSize % 4096 :=
        (Nat.div_add_mod' _ _).symm
      have hget : ((range (merge lba n).pglistCnt).map fun i =>
          v.page (lba / 8 + i))[(merge lba n).newSize / 4096]? =
            some (v.page (lba / 8 + (merge lba n).newSize / 4096)) := by
        rw [List.getElem?_map, List.getElem?_range (by omega), Option.map_some]
      rw [hsplit, Cursor.drop_flatten_uniform hdest (dest_last hn hpos hmod) (length_dest.trans hcnt),
        Cursor.drop_flatten_uniform hold hget (by simpa using hcnt)]

end Dest

theorem content_hashed {dedupe : Bool} (h : bytes.length = 4096) :
    Pgdata.content ⟨dedupe && bytes == zeroPage, bytes, h⟩ = bytes := by
  simp only [Pgdata.content, Bool.and_eq_true, beq_iff_eq]
  split_ifs with hzero
  · exact hzero.2.symm
  · rfl

theorem map_content_pages : (m.pages io v lba pages).map Pgdata.content =
    Cursor.copy (pages.map Pgdata.bytes) m.size (m.dest io v lba) ⟨0, m.lbaDiff * 512⟩ ⟨0, 0⟩ m.size := by
  rw [Merge.pages, map_pmap]
  exact pmap_eq_self.mpr fun bytes _ => content_hashed _

theorem length_pages : (m.pages io v lba pages).length = m.pglistCnt := by
  have hlen : (Cursor.copy (pages.map Pgdata.bytes) m.size (m.dest io v lba) ⟨0, m.lbaDiff * 512⟩ ⟨0, 0⟩
      m.size).map length = (m.dest io v lba).map length := Cursor.map_length_copy
  have hlen' := congrArg length hlen
  rw [length_map, length_map, length_dest] at hlen'
  rw [Merge.pages, length_pmap, hlen']

theorem zero_pages {i : Nat} {q : Pgdata} (hq : (m.pages io v lba pages)[i]? = some q) :
    q.zero = (v.dedupe && q.content == zeroPage) := by
  obtain ⟨bytes, hlen, rfl⟩ := mem_pmap.mp (mem_of_getElem? hq)
  rw [content_hashed]

theorem length_src_pages : ∀ p ∈ pages.map Pgdata.bytes, p.length = 4096 := by
  simp only [mem_map, forall_exists_index, and_imp, forall_apply_eq_imp_iff₂]
  exact fun p _ => p.length_bytes

theorem flatten_merged (hn : n < 2 ^ 20) (hpos : 0 < n) (hsrc : n * 512 ≤ pages.length * 4096) :
    (((merge lba n).pages io v lba pages).map Pgdata.content).flatten =
      overlay (v.bytes (lba / 8 * 4096) ((merge lba n).pglistCnt * 4096)) (lba % 8 * 512)
        ((pages.map Pgdata.bytes).flatten.take (n * 512)) := by
  obtain ⟨hd, hsize, hnew⟩ := merge_eq lba hn
  have hle := newSize_le_dest lba n
  have hdest := (merge lba n).length_dest io v lba
  have hlen : (pages.map Pgdata.bytes).flatten.length = pages.length * 4096 := by
    rw [Cursor.length_flatten_uniform length_src_pages, length_map]
  have hdpos : Lib.Cursor.pos ((merge lba n).dest io v lba) ⟨0, lba % 8 * 512⟩ = lba % 8 * 512 := by
    simp [Lib.Cursor.pos]
  have hs : Lib.Cursor.pos (pages.map Pgdata.bytes) ⟨0, 0⟩ = 0 := by simp [Lib.Cursor.pos]
  rw [map_content_pages, hd, hsize, Cursor.flatten_copy le_rfl, hdpos]
  · rw [hs, drop_zero]
    exact overlay_dest hn hpos (by rw [length_take, hlen]; omega)
  · exact Cursor.valid_uniform hdest (show 0 < _ by rw [length_dest]; omega) (show lba % 8 * 512 < 4096 by omega)
  · exact Cursor.valid_uniform length_src_pages (show 0 < _ by rw [length_map]; omega) (by decide)
  · rw [hdpos, Cursor.length_flatten_uniform hdest, length_dest, ← hnew]
    exact hle
  · rw [hs, hlen, Nat.zero_add]
    exact hsrc

structure Merged (v : Volume) (lba : Nat) (bytes : Bytes) (k : Nat) (merged : List Pgdata) : Prop where
  start : k = lba / 8
  carries : Carries v (v.put (lba * 512) bytes) k merged
  zero : ∀ (i : Nat) (q : Pgdata), merged[i]? = some q → q.zero = (v.dedupe && q.content == zeroPage)

theorem carries_merged (hl : v.legacy = true) (hn : n < 2 ^ 20) (hpos : 0 < n)
    (hnot : ¬ (lba % 8 = 0 ∧ n % 8 = 0)) (hsrc : n * 512 ≤ pages.length * 4096)
    (hrun : v.checkUnalignedData io lba n pages = some (k, merged)) :
    Merged v lba ((pages.map Pgdata.bytes).flatten.take (n * 512)) k merged := by
  obtain ⟨hd, hsize, hnew⟩ := merge_eq lba hn
  have hnot' : ¬ ((merge lba n).lbaDiff = 0 ∧ (merge lba n).size % 4096 = 0) := by
    omega
  simp only [Volume.checkUnalignedData, hl, Bool.not_true, Bool.false_eq_true, if_false, if_neg hnot'] at hrun
  split_ifs at hrun
  cases hrun
  have hle := newSize_le_dest lba n
  have hstart : lba / 8 * 4096 + lba % 8 * 512 = lba * 512 := by omega
  refine ⟨rfl, ?_, fun i q hq => zero_pages hq⟩
  rw [← hstart]
  refine carries_put ?_ ?_
  · rw [length_pages]
    exact flatten_merged hn hpos hsrc
  · rw [length_pages]
    refine Nat.le_trans (Nat.add_le_add_left (length_take_le _ _) _) ?_
    rwa [← hnew]

theorem carries_whole {m : Bytes} (hflat : (pages.map Pgdata.content).flatten = m)
    (hlen : m.length = pages.length * 4096) : Carries v (v.put (k * 4096) m) k pages := by
  rw [← Nat.add_zero (k * 4096)]
  refine carries_put ?_ (Nat.le_of_eq (by rw [Nat.zero_add, hlen]))
  rw [overlay_all (by rw [length_bytes, hlen]), hflat]

theorem carries_pages {w : Volume} {m : Nat} (hcontent : ∀ i q, pages[i]? = some q → q.content = w.page (m + i)) :
    Carries v (v.put (k * 4096) (w.bytes (m * 4096) (pages.length * 4096))) k pages := by
  have hmap : pages.map Pgdata.content = (range pages.length).map fun i => w.page (m + i) := by
    refine ext_getElem (by simp) fun i hi hi' => ?_
    rw [getElem_map, getElem_map, getElem_range]
    exact hcontent i _ (List.getElem?_eq_getElem (by simpa using hi))
  exact carries_whole (by rw [hmap, flatten_map_page]) length_bytes

theorem carries_sectors (hl : v.legacy = true) (hn : n < 2 ^ 20) (hpos : 0 < n)
    (hsrc : n * 512 ≤ pages.length * 4096) (hwhole : lba % 8 = 0 → n % 8 = 0 → pages.length * 4096 = n * 512 ∧
      ∀ q ∈ pages, q.zero = (v.dedupe && q.content == zeroPage) ∧ q.content = q.bytes)
    (hrun : v.checkUnalignedData io lba n pages = some (k, merged)) :
    Merged v lba ((pages.map Pgdata.bytes).flatten.take (n * 512)) k merged := by
  by_cases hal : lba % 8 = 0 ∧ n % 8 = 0
  · have hmul : lba * 512 = lba / 8 * 4096 := by
      omega
    obtain ⟨hlen, hpages⟩ := hwhole hal.1 hal.2
    rw [checkUnalignedData_aligned fun _ => hal] at hrun
    cases hrun
    have hstart : v.lbaReal lba = lba / 8 := by rw [Geometry.lbaReal, if_pos hl]
    have hflat : (pages.map Pgdata.bytes).flatten.length = n * 512 := by
      rw [Cursor.length_flatten_uniform length_src_pages, length_map, hlen]
    have hcontent := map_congr_left fun q hq => (hpages q hq).2
    refine ⟨hstart, ?_, fun i q hq => (hpages q (mem_of_getElem? hq)).1⟩
    rw [take_of_length_le (Nat.le_of_eq hflat), hstart, hmul]
    exact carries_whole (congrArg flatten hcontent) (hflat.trans hlen.symm)
  · exact carries_merged hl hn hpos hal hsrc hrun

end QuadStor.Command
