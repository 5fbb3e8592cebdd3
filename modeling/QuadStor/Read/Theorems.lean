import QuadStor.AddrMap.Lemmas.Read
import QuadStor.Read.Lemmas.Expand
import QuadStor.Read.Lemmas.Slices

/-!
# Reads return the mapped data
-/

namespace QuadStor.Read

open Lib DDTable AddrMap List

variable {st : Store} {mem : Memory st} {env : Env} {v : Vdisk} {lba transferLength : Nat}
  {pages : List Bytes} {slices : List Slice}

theorem tdiskCmdReadInt_ok (h : tdiskCmdReadInt mem env v lba transferLength = .ok pages) :
    pages = v.mapped st lba (v.pglistCnt lba transferLength) := by
  unfold tdiskCmdReadInt at h
  split_ifs at h
  simp only at h
  split at h
  · cases h
  · rename_i blocks hblocks
    rw [readBlocks_ok h, lookupBlocks_ok hblocks, map_map]
    rfl

theorem length_of_mem_mapped {n : Nat} {page : Bytes} (h : page ∈ v.mapped st lba n) : page.length = 4096 := by
  obtain ⟨i, -, rfl⟩ := mem_map.mp h
  exact length_want st _

theorem tdiskCmdRead_ok (h : tdiskCmdRead mem env v lba transferLength = .ok slices) :
    slices = trim v lba (u32 (transferLength * 2 ^ v.lbaShift))
      (((v.mapped st lba (v.pglistCnt lba transferLength)).map Slice.whole).take
        (u16 (v.pglistCnt lba transferLength))) := by
  unfold tdiskCmdRead at h
  split at h
  · cases h
  · rename_i pages hpages
    cases h
    obtain rfl := tdiskCmdReadInt_ok hpages
    simp [Vdisk.mapped]

theorem length_bytes_lt (h : tdiskCmdRead mem env v lba transferLength = .ok slices)
    (hcount : 65536 ≤ v.pageCount lba transferLength) :
    (slices.flatMap Slice.bytes).length < (v.requested st lba transferLength).length := by
  have hpage := congrArg (map Slice.page) (tdiskCmdRead_ok h)
  rw [trim_page, map_take, map_map] at hpage
  have hlen : slices.length ≤ u16 (v.pglistCnt lba transferLength) := by
    have hpages := congrArg length hpage
    rw [length_map, length_take] at hpages
    omega
  have hbytes : (slices.flatMap Slice.bytes).length ≤ slices.length * 4096 := by
    refine length_bytes_le fun p hp => ?_
    have hmem : p.page ∈ slices.map Slice.page := mem_map_of_mem hp
    rw [hpage] at hmem
    obtain ⟨q, hq, heq⟩ := mem_map.mp (mem_of_mem_take hmem)
    rw [← heq]
    exact length_of_mem_mapped hq
  rw [length_requested]
  calc (slices.flatMap Slice.bytes).length
      ≤ slices.length * 4096 := hbytes
    _ ≤ u16 (v.pglistCnt lba transferLength) * 4096 := Nat.mul_le_mul_right 4096 hlen
    _ < transferLength * 2 ^ v.lbaShift := (pglistCnt_spec v lba transferLength).2 hcount

/-- What a read hands over is what was asked for, exactly if 16 bits count its pages. -/
theorem read_returns_mapped_data (hpos : 0 < transferLength)
    (h : tdiskCmdRead mem env v lba transferLength = .ok slices) :
    slices.flatMap Slice.bytes = v.requested st lba transferLength ↔ v.pageCount lba transferLength < 65536 := by
  constructor
  · intro hbytes
    by_contra hcount
    have hlt := length_bytes_lt h (Nat.le_of_not_lt hcount)
    rw [hbytes] at hlt
    exact Nat.lt_irrefl _ hlt
  · intro hcount
    have hn := (pglistCnt_spec v lba transferLength).1 hcount
    have hlen : (v.mapped st lba (v.pageCount lba transferLength)).length = v.pageCount lba transferLength := by
      simp [Vdisk.mapped]
    have hwhole : u16 (v.pageCount lba transferLength) = v.pageCount lba transferLength :=
      Nat.mod_eq_of_lt hcount
    rw [tdiskCmdRead_ok h, hn, hwhole, take_of_length_le (by simp [hlen]),
      trim_bytes (fun _ => length_of_mem_mapped) hpos hcount hlen,
      requested_eq st (lbaDiff_add_le v lba transferLength)]

theorem readPages_none (mem : Memory st) (hcopy : env.copy = false) : ∀ (n i : Nat) (s : Loading),
    (∀ p ∈ s.pglist, p.block = none) → ∃ s', readPages mem env i s (replicate n none) = .ok s' ∧
      s'.tcache = s.tcache ∧ ∀ p ∈ s'.pglist, p.block = none
  | 0, _, s, h => ⟨s, rfl, rfl, h⟩
  | n + 1, i, s, h => by
      have hpush : ∀ p ∈ (s.push ⟨.zero, none, false, false⟩).pglist, p.block = none :=
        forall_mem_append.2 ⟨h, forall_mem_singleton.2 rfl⟩
      obtain ⟨s', hrest, htcache, hnone⟩ := readPages_none mem hcopy n (i + 1) _ hpush
      refine ⟨s', ?_, htcache, hnone⟩
      simpa [replicate_succ, readPages, readPage, readUnmapped, hcopy] using hrest

theorem pgdataPostReadIo_none (env : Env) (st : Store) : ∀ (ps : List Pgdata) (i : Nat) (s : Posting),
    (∀ p ∈ ps, p.block = none) → ∃ s', pgdataPostReadIo env st i s ps = .ok s'
  | [], _, s, _ => ⟨s, rfl⟩
  | p :: rest, i, s, h => by
      obtain ⟨s', hrest⟩ := pgdataPostReadIo_none env st rest (i + 1) (s.push p)
        fun q hq => h q (mem_cons_of_mem _ hq)
      exact ⟨s', by simpa [pgdataPostReadIo, postPage, h p mem_cons_self] using hrest⟩

theorem readBlocks_none (mem : Memory st) (hcopy : env.copy = false) (n : Nat) :
    ∃ pages, readBlocks mem env (replicate n none) = .ok pages := by
  obtain ⟨s, hload, htcache, hnone⟩ := readPages_none mem hcopy n 0 ⟨mem.heap, [], [], []⟩ (by simp)
  obtain ⟨s', hpost⟩ := pgdataPostReadIo_none env st s.pglist 0 ⟨tcacheRead st s.heap [], [], []⟩ hnone
  refine ⟨s'.pglist.map fun p => s'.heap p.page, ?_⟩
  simp [readBlocks, hload, htcache, hpost]

theorem read_unmapped_succeeds (mem : Memory st) (hcopy : env.copy = false)
    (hmaps : ∀ t, v.maps.table t = .missing) (hfits : v.reachedEom lba transferLength = false) :
    ∃ slices, tdiskCmdRead mem env v lba transferLength = .ok slices := by
  obtain ⟨pages, hpages⟩ := readBlocks_none mem hcopy (v.pglistCnt lba transferLength)
  rw [Vdisk.pglistCnt] at hpages
  simp only [tdiskCmdRead, tdiskCmdReadInt, hfits, lookupBlocks_missing hmaps, hpages, Bool.false_eq_true, if_false]
  exact ⟨_, rfl⟩

/-! ## A read that is too long, and one that is not -/

def onePageCodec (page : Bytes) : Codec where
  compress _ p := if p = page then some [] else none
  decompress _ out := if out = [] then some page else none
  length_compress {alg p out} h := by
    split_ifs at h
    cases h
    simp
  decompress_compress {alg p out} h := by
    split_ifs at h with hpage
    cases h
    simp [hpage]

theorem two_le_lbaBlockSize (b : Block) : 2 ≤ lbaBlockSize b := by
  unfold lbaBlockSize
  split_ifs <;> omega

def onePageStore (page : Bytes) (hpage : page.length = 4096) : Store where
  codec := onePageCodec page
  data _ := page
  stored b := if lbaBlockSize b = 4096 then page
    else compHeader .lz4 0 ++ replicate (lbaBlockSize b - 2) 0
  length_data _ := hpage
  length_stored b := by
    have h := two_le_lbaBlockSize b
    split_ifs with hsize
    · rw [hsize, hpage]
    · simp only [compHeader, length_append, length_cons, length_nil, length_replicate]
      exact Nat.add_sub_cancel' h
  stored_plain b hsize := if_pos hsize
  stored_comp b hsize :=
    ⟨.lz4, compHeader .lz4 0, replicate (lbaBlockSize b - 2) 0, by
      simp [qsDeflateBlock, onePageCodec], if_neg hsize⟩

def sevensStore : Store := onePageStore (replicate 4096 7) length_replicate

def coldMemory : Memory sevensStore where
  heap _ := zeroPage
  cached _ := false
  length_heap _ := length_replicate
  heap_zero := rfl
  heap_cached := by simp

theorem norefs_copy_calmEnv : false = true → false = true := id

def calmEnv : Env where
  io := ⟨fun _ _ => false, fun _ => true, fun _ => true, fun _ => none, fun _ => none⟩
  bdev _ := true
  pageAlloc _ := true
  inflateAlloc _ := true
  tcacheAdd _ := true
  ioError := false
  copy := false
  norefs := false
  norefs_copy := norefs_copy_calmEnv

def newDisk : Vdisk := ⟨⟨2 ^ 20, false⟩, ⟨1, fun _ => .missing⟩⟩

theorem long_read_short : ∃ slices, tdiskCmdRead coldMemory calmEnv newDisk 0 65536 = .ok slices ∧
    slices.flatMap Slice.bytes ≠ newDisk.requested sevensStore 0 65536 := by
  obtain ⟨slices, h⟩ : ∃ slices, tdiskCmdRead coldMemory calmEnv newDisk 0 65536 = .ok slices :=
    read_unmapped_succeeds coldMemory rfl (fun _ => rfl) (by decide)
  refine ⟨slices, h, fun heq => ?_⟩
  have hlt := length_bytes_lt h (by decide)
  rw [heq] at hlt
  exact Nat.lt_irrefl _ hlt

def smallDisk : Vdisk :=
  ⟨⟨2 ^ 20, true⟩, ⟨1, fun t => if t = 0 then .loaded ⟨false, fun n => if n = 0 then
    .loaded ⟨false, fun lba => if lba = 1 then some ⟨1, 0, 0, 4096⟩ else none⟩ else .missing⟩
    else .missing⟩⟩

theorem read_returns_mapped_data_sectors : ∃ slices, tdiskCmdRead coldMemory calmEnv smallDisk 6 4 = .ok slices ∧
      slices.flatMap Slice.bytes = smallDisk.requested sevensStore 6 4 := by
  obtain ⟨slices, h⟩ : ∃ slices, tdiskCmdRead coldMemory calmEnv smallDisk 6 4 = .ok slices := ⟨_, rfl⟩
  exact ⟨slices, h, (read_returns_mapped_data (by decide) h).mpr (by decide)⟩

end QuadStor.Read
