import QuadStor.Command.Lemmas.Merge
import QuadStor.AddrMap.Theorems
import QuadStor.Read.Theorems

/-!
# The pages of a write of sectors
-/

namespace QuadStor.Command

open Lib List

open Read (Bytes zeroPage)

section

variable {io : WriteIo} {v : Volume} {lba n k : Nat} {pages merged : List Pgdata}

def ctioPglist (pages : List Pgdata) : List Pgdata := pages.take (u16 pages.length)

def sectorPages (lba n : Nat) : Nat := (lba % 8 + n + 7) / 8

structure MergedAt (v : Volume) (lba n : Nat) (data : List Pgdata) (k : Nat) (merged : List Pgdata) : Prop where
  start : k = lba / 8
  bytes : (merged.map Pgdata.bytes).flatten = overlay (v.bytes (k * 4096) (sectorPages lba n * 4096)) (lba % 8 * 512)
      ((data.map Pgdata.bytes).flatten.take (n * 512))

theorem ctioPglist_eq (h : pages.length < 2 ^ 16) : ctioPglist pages = pages := by
  have hcount : u16 pages.length = pages.length := Nat.mod_eq_of_lt h
  rw [ctioPglist, hcount, take_length]

theorem length_ctioPglist_lt {p : List Pgdata} : (ctioPglist p).length < 2 ^ 16 := by
  have hlt : u16 p.length < 2 ^ 16 := Nat.mod_lt _ (by decide)
  exact Nat.lt_of_le_of_lt (length_take_le _ _) hlt

theorem pglistCnt_eq_sectorPages (hsize : lba % 8 + n < 2 ^ 23) :
    transferLengthToPglistCnt 9 (n + lba % 8) = sectorPages lba n := by
  rw [pglistCnt_legacy, sectorPages]
  omega

theorem merge_pglistCnt_eq (hsize : lba % 8 + n < 2 ^ 23) : (merge lba n).pglistCnt = sectorPages lba n := by
  have hlen : u32 (n + lba % 8) = n + lba % 8 := u32_eq_of_lt (by omega)
  rw [← pglistCnt_eq_sectorPages hsize]
  simp only [merge, hlen]

theorem bytes_pages {m : Merge} : (m.pages io v lba pages).map Pgdata.bytes = (m.pages io v lba pages).map Pgdata.content := by
  rw [map_content_pages, Merge.pages, map_pmap]
  exact pmap_eq_self.mpr fun _ _ => rfl

section

variable (hl : v.legacy = true)
include hl

theorem checkUnalignedData_cases (hrun : v.checkUnalignedData io lba n pages = some (k, merged)) :
    k = lba / 8 ∧ (lba % 8 = 0 ∧ n % 8 = 0 ∧ merged = pages ∨ merged = (merge lba n).pages io v lba pages) := by
  have hmod : (merge lba n).size % 4096 = 0 ↔ n % 8 = 0 := by
    simp only [merge, u32]
    omega
  simp only [Volume.checkUnalignedData, hl, Bool.not_true, Bool.false_eq_true, if_false] at hrun
  split_ifs at hrun with haligned <;> cases hrun
  · exact ⟨rfl, .inl ⟨haligned.1, hmod.mp haligned.2, rfl⟩⟩
  · exact ⟨rfl, .inr rfl⟩

variable (hsize : lba % 8 + n < 2 ^ 23) (hdata : pages.length = transferLengthToPglistCnt 9 n)
include hsize hdata

theorem length_checkUnalignedData (hrun : v.checkUnalignedData io lba n pages = some (k, merged)) :
    merged.length = sectorPages lba n := by
  obtain ⟨-, ⟨hdiff, -, rfl⟩ | rfl⟩ := checkUnalignedData_cases hl hrun
  · rw [hdata, ← pglistCnt_eq_sectorPages hsize, hdiff, Nat.add_zero]
  · rw [length_pages, merge_pglistCnt_eq hsize]

theorem mergedAt_checkUnalignedData (hpos : 0 < n) (hcount : sectorPages lba n < 2 ^ 16)
    (hrun : v.checkUnalignedData io lba n pages = some (k, merged)) : MergedAt v lba n pages k merged := by
  have hn : n < 2 ^ 20 := by
    unfold sectorPages at hcount
    omega
  have hsrc : n * 512 ≤ pages.length * 4096 := by
    have hdata' : pages.length = sectorPages 0 n := by
      rw [hdata, ← pglistCnt_eq_sectorPages (show 0 % 8 + n < 2 ^ 23 by omega), Nat.zero_mod, Nat.add_zero]
    unfold sectorPages at hdata'
    omega
  obtain ⟨rfl, ⟨hdiff, hmod, rfl⟩ | rfl⟩ := checkUnalignedData_cases hl hrun
  · have hlen : (merged.map Pgdata.bytes).flatten.length = n * 512 := by
      rw [Cursor.length_flatten_uniform length_src_pages, length_map,
        length_checkUnalignedData hl hsize hdata hrun, sectorPages, hdiff]
      omega
    refine ⟨rfl, ?_⟩
    rw [take_of_length_le (Nat.le_of_eq hlen), hdiff, Nat.zero_mul, overlay_all]
    rw [hlen, length_bytes, sectorPages, hdiff]
    omega
  · refine ⟨rfl, ?_⟩
    rw [bytes_pages, flatten_merged hn hpos hsrc, merge_pglistCnt_eq hsize]

/-- The page list of a write on a disk with sectors of 512 bytes has the stored bytes with the data in its place,
exactly if its number of pages fits 16 bits. -/
theorem mergedAt_ctioPglist_iff (hpos : 0 < n) (hrun : v.checkUnalignedData io lba n pages = some (k, merged)) :
    MergedAt v lba n pages k (ctioPglist merged) ↔ sectorPages lba n < 2 ^ 16 := by
  have hlen := length_checkUnalignedData hl hsize hdata hrun
  constructor
  · intro h
    have hbytes := congrArg length h.bytes
    rw [Cursor.length_flatten_uniform length_src_pages, length_map, length_overlay ?_, length_bytes] at hbytes
    · have hlt := length_ctioPglist_lt (p := merged)
      omega
    · refine Nat.le_trans (Nat.add_le_add_left (length_take_le _ _) _) ?_
      rw [length_bytes, sectorPages]
      omega
  · intro hcount
    rw [ctioPglist_eq (hlen ▸ hcount)]
    exact mergedAt_checkUnalignedData hl hsize hdata hpos hcount hrun

end

def zeroDisk : Volume := ⟨⟨⟨2 ^ 22, true⟩, false⟩, fun _ => zeroPage, fun _ => length_zeroPage⟩

theorem mergedAt_ctioPglist_two : ∃ k merged, zeroDisk.checkUnalignedData quickIo 7 2 [onePage 1] = some (k, merged) ∧
    MergedAt zeroDisk 7 2 [onePage 1] k (ctioPglist merged) := by
  have hrun : zeroDisk.checkUnalignedData quickIo 7 2 [onePage 1] =
      some (0, (merge 7 2).pages quickIo zeroDisk 7 [onePage 1]) := by
    rfl
  exact ⟨_, _, hrun, (mergedAt_ctioPglist_iff rfl (by decide) rfl (by decide) hrun).mpr (by decide)⟩

theorem ctioPglist_nil (h : pages.length = 2 ^ 16) : ctioPglist pages = [] := by
  rw [ctioPglist, h]
  exact take_zero

theorem not_mergedAt_nil (hpos : 0 < n) : ¬MergedAt v lba n pages k [] := by
  intro h
  have hbytes := congrArg length h.bytes
  have hcount : 0 < sectorPages lba n := by
    unfold sectorPages
    omega
  simp only [overlay, map_nil, flatten_nil, length_nil, length_append, length_take,
    length_drop, length_bytes] at hbytes
  omega

theorem long_write_not_merged : ∃ k merged,
    zeroDisk.checkUnalignedData quickIo 0 (2 ^ 19) (replicate (2 ^ 16) (onePage 1)) = some (k, merged) ∧
      ¬MergedAt zeroDisk 0 (2 ^ 19) (replicate (2 ^ 16) (onePage 1)) k (ctioPglist merged) := by
  refine ⟨_, _, checkUnalignedData_aligned fun _ => by decide, ?_⟩
  rw [ctioPglist_nil length_replicate]
  exact not_mergedAt_nil (by decide)

end

/-! ## Volumes and address maps -/

open AddrMap
open Read (Store Vdisk want length_want)

variable {io : Io} {st st' : Store} {d : Vdisk} {maps : Tdisk} {lba i : Nat} {pages : List Pgdata} {p : Pgdata}

def Volume.ofVdisk (st : Store) (d : Vdisk) (dedupe : Bool) : Volume where
  toGeometry := d.toGeometry
  dedupe := dedupe
  page n := want st (d.maps.entry n)
  length_page n := length_want st (d.maps.entry n)

theorem readInt_refines {mem : Read.Memory st} {env : Read.Env} {transferLength : Nat} {bytes : List Bytes}
    (dedupe : Bool) (h : Read.tdiskCmdReadInt mem env d lba transferLength = .ok bytes) :
    bytes = (range (d.pglistCnt lba transferLength)).map fun i =>
      (Volume.ofVdisk st d dedupe).page (d.lbaReal lba + i) :=
  Read.tdiskCmdReadInt_ok h

structure Blocks (st : Store) (pages : List Pgdata) where
  page : Nat → Page
  zero : ∀ i p, pages[i]? = some p → (page i).zero = p.zero
  data : ∀ i p, pages[i]? = some p → p.zero = false → want st (page i).block = p.bytes

def Blocks.list (blocks : Blocks st pages) : List Page := (range pages.length).map blocks.page

section

variable (blocks : Blocks st pages) (h : pages[i]? = some p)
include blocks h

theorem getElem?_list : blocks.list[i]? = some (blocks.page i) := by
  have hi := (List.getElem?_eq_some_iff.mp h).1
  simp [Blocks.list, hi]

theorem want_block : want st (blocks.page i).block = p.content := by
  unfold Pgdata.content
  split_ifs with hzero
  · rw [(blocks.page i).zero_block ((blocks.zero i p h).trans hzero)]
    rfl
  · exact blocks.data i p h (Bool.eq_false_of_not_eq_true hzero)

theorem skipped_of_lost {wio : WriteIo}
    (hskips : wio.skips i = true) (hlost : Lost io maps lba blocks.list i) :
    wio.skipped lba i p = true := by
  obtain ⟨hnot, -⟩ := hlost
  have hzero := zero_of_not_lookedUp (getElem?_list blocks h) hnot
  rw [blocks.zero i p h] at hzero
  simp only [LookedUp, not_or, not_not] at hnot
  simp [WriteIo.skipped, hskips, hzero, hnot.1, hnot.2.1]

end

theorem writeMap_refines (blocks : Blocks st' pages) (dedupe : Bool)
    (hkeeps : ∀ n, want st' (d.maps.entry n) = want st (d.maps.entry n))
    (hrun : writeMap io d.maps lba blocks.list = .ok maps) :
    ∃ wio : WriteIo, wio.ok = true ∧ ∀ n, (Volume.ofVdisk st' { d with maps } dedupe).page n =
      ((Volume.ofVdisk st d dedupe).writePages wio lba pages).page n := by
  classical
  obtain ⟨hpages, hothers⟩ := entry_writeMap hrun
  refine ⟨⟨true, fun i => decide (Lost io d.maps lba blocks.list i), fun _ => Read.zeroPage,
    fun _ => length_zeroPage⟩, rfl, fun n => ?_⟩
  show want st' (maps.entry n) = _
  by_cases hin : lba ≤ n ∧ n < lba + pages.length
  · obtain ⟨i, rfl⟩ := Nat.exists_eq_add_of_le hin.1
    obtain ⟨p, hp⟩ : ∃ p, pages[i]? = some p := ⟨_, getElem?_eq_getElem (by omega)⟩
    obtain ⟨hlost, hkept⟩ := hpages i _ (getElem?_list blocks hp)
    rw [page_writePages_of_some hp]
    by_cases h : Lost io d.maps lba blocks.list i
    · rw [hlost h, if_pos (skipped_of_lost blocks hp (by simpa using h) h), hkeeps]
      rfl
    · rw [hkept h, want_block blocks hp, if_neg]
      simp [WriteIo.skipped, h]
  · have hlen : blocks.list.length = pages.length := by simp [Blocks.list]
    rw [hothers n (by omega), hkeeps, page_writePages_of_not (by omega)]
    rfl

/-- A read of any range after a write returns the pages of the volume with those of the write in their place. Of these
only a zero page that follows a page of the same map can be missing. -/
theorem read_after_write {mem : Read.Memory st'} {env : Read.Env} {start transferLength : Nat} {bytes : List Bytes}
    (blocks : Blocks st' pages) (dedupe : Bool)
    (hkeeps : ∀ n, want st' (d.maps.entry n) = want st (d.maps.entry n))
    (hrun : writeMap io d.maps lba blocks.list = .ok maps)
    (hread : Read.tdiskCmdReadInt mem env { d with maps } start transferLength = .ok bytes) :
    ∃ wio : WriteIo, wio.ok = true ∧ bytes = (range (d.pglistCnt start transferLength)).map fun i =>
      ((Volume.ofVdisk st d dedupe).writePages wio lba pages).page (d.lbaReal start + i) := by
  obtain ⟨wio, hok, hpages⟩ := writeMap_refines blocks dedupe hkeeps hrun
  refine ⟨wio, hok, (readInt_refines dedupe hread).trans (map_congr_left fun i _ => ?_)⟩
  exact hpages (d.lbaReal start + i)

open Read (coldMemory calmEnv smallDisk sevensStore)

def sevens : Blocks sevensStore [onePage 7] where
  page _ := dataPage
  zero i p h := by
    obtain rfl := mem_singleton.mp (mem_of_getElem? h)
    rfl
  data i p h _ := by
    obtain rfl := mem_singleton.mp (mem_of_getElem? h)
    rfl

theorem read_after_write_sevens : ∃ maps bytes wio, writeMap calmEnv.io smallDisk.maps 0 sevens.list = .ok maps ∧
    Read.tdiskCmdReadInt coldMemory calmEnv { smallDisk with maps } 0 8 = .ok bytes ∧ wio.ok = true ∧
    bytes = [((Volume.ofVdisk sevensStore smallDisk true).writePages wio 0 [onePage 7]).page 0] := by
  obtain ⟨maps, hrun⟩ : ∃ maps, writeMap calmEnv.io smallDisk.maps 0 sevens.list = .ok maps := ⟨_, rfl⟩
  obtain ⟨bytes, hread⟩ : ∃ bytes, Read.tdiskCmdReadInt coldMemory calmEnv { smallDisk with maps } 0 8 = .ok bytes := by
    cases hrun
    exact ⟨_, rfl⟩
  obtain ⟨wio, hok, hbytes⟩ := read_after_write sevens true (fun _ => rfl) hrun hread
  exact ⟨maps, bytes, wio, hrun, hread, hok, hbytes⟩

end QuadStor.Command
