import QuadStor.Bint.Lemmas.Layout
import QuadStor.WriteLog

/-!
# What is where on a disk

The disk's own block, the log pages, the blocks of the virtual disks, the dedupe tables, the lookup maps and the
index pages come before the blocks of the allocator.
-/

namespace QuadStor.Bint

open Lib

def tlMaxTdisks : Nat := 4096

def logPagesOffset : Nat := 262144 + 4096

def tdiskReservedOffset : Nat := logPagesOffset + 64 * 1024 * 1024

def bintTailReserved : Nat := 4096 * 4096 + 262144 + 4096

/-- What is known of a device that is added as a new disk, `ddbits` being from `calc_ddbits` -/
structure BdevInfo where
  usize : Nat
  sectorShift : Nat
  enableComp : Bool
  ddmaster : Bool
  ddbits : Nat
  sectorShift_ge : 9 ≤ sectorShift
  ddbits_ge : 16 ≤ ddbits
  ddbits_le : ddbits ≤ 23

def bdevAddNew (b : BdevInfo) : Option Config :=
  if b.usize < 2 ^ 32 then none
  else if hshift : 12 < b.sectorShift then none
  else if hblocks : 2 ^ 38 < b.usize / 2 ^ b.sectorShift then none
  else some
    { b with
      usize := b.usize - bintTailReserved
      -- compression is turned off where a sector is larger than its unit
      enableComp := b.enableComp && (b.sectorShift == 9 || b.sectorShift == 10)
      sectorShift_le := Nat.le_of_not_lt hshift
      comp_sectorShift := by
        simp only [Bool.and_eq_true, Bool.or_eq_true, beq_iff_eq]
        omega
      usize_le := (Nat.div_le_div_right (Nat.sub_le _ _)).trans (Nat.le_of_not_lt hblocks) }

def Config.indexIdFromBlock (c : Config) (block : Nat) : Nat × Nat :=
  let unit := u64 (block * 2 ^ c.sectorShift) / 2 ^ c.metaShift
  (unit / bmapEntries, unit - unit / bmapEntries * bmapEntries)

inductive Region where
  | bint
  | logPage (i : Nat)
  | tdisk (targetId : Nat)
  | ddtable (page : Nat)
  | lookup (groupId : Nat)
  | index (indexId : Nat)
  | data (indexId entry : Nat)
  deriving DecidableEq, Repr

namespace Region

variable (c : Config)

def Valid : Region → Prop
  | bint => True
  | logPage i => i < maxLogPages
  | tdisk targetId => targetId < tlMaxTdisks
  | ddtable page => c.ddmaster = true ∧ page < 2 ^ c.ddbits * 8 / 4096
  | lookup groupId => groupId < c.maxIndexGroups
  | index indexId => indexId < c.maxIndexes
  | data indexId entry => indexId < c.maxIndexes ∧ entry < bmapEntries ∧ ¬ c.Reserved indexId entry

def bStart : Region → Nat
  | bint => 262144 / 2 ^ c.sectorShift
  -- `log_page_b_start`: the pages are in groups of 16.
  | logPage i =>
    logPagesOffset / 2 ^ c.sectorShift + i / 16 * 16 * (4096 / 2 ^ c.sectorShift) + i % 16 * 4096 / 2 ^ c.sectorShift
  -- `bdev_get_disk_index_block`
  | tdisk targetId => (tdiskReservedOffset + u32 (targetId * 4096)) / 2 ^ c.sectorShift
  | ddtable page => Config.ddtableMetaOffset / 2 ^ c.sectorShift + page * (4096 / 2 ^ c.sectorShift)
  | lookup groupId => c.bintIndexLookupBstart groupId
  | index indexId => c.bintIndexBstart indexId
  | data indexId entry => c.blockFromIndex indexId entry

def start (r : Region) : Nat := r.bStart c * 2 ^ c.sectorShift

def size : Region → Nat
  | data _ _ => 2 ^ c.metaShift
  | _ => 4096

def stop (r : Region) : Nat := r.start c + r.size c

def rank : Region → Nat
  | bint => 0
  | logPage _ => 1
  | tdisk _ => 2
  | ddtable _ => 3
  | lookup _ => 4
  | index _ => 5
  | data _ _ => 6

end Region

namespace Config

variable (c : Config)

def areaStart : Nat → Nat
  | 0 => 262144
  | 1 => logPagesOffset
  | 2 => tdiskReservedOffset
  | 3 => ddtableMetaOffset
  | 4 => ddtableMetaOffset + c.ddtableSize
  | 5 => ddtableMetaOffset + c.ddtableSize + c.maxIndexGroups * 4096
  | 6 => c.reserved
  | _ => c.usize

end Config

variable {c : Config}

namespace Region

theorem ddtableMetaOffset_eq : Config.ddtableMetaOffset = tdiskReservedOffset + 4096 * 4096 := rfl

theorem start_bint : bint.start c = 262144 := div_mul_sector (by decide)

theorem start_logPage (i : Nat) : (logPage i).start c = logPagesOffset + i * 4096 := by
  simp only [start, bStart]
  rw [Nat.add_mul, Nat.add_mul, div_mul_sector (by decide), Nat.mul_assoc (i / 16 * 16), div_mul_sector (by decide),
    div_mul_sector (Dvd.intro_left _ rfl)]
  omega

theorem start_tdisk {targetId : Nat} (h : targetId < tlMaxTdisks) :
    (tdisk targetId).start c = tdiskReservedOffset + targetId * 4096 := by
  unfold tlMaxTdisks at h
  simp only [start, bStart]
  rw [u32_eq_of_lt (by omega)]
  exact div_mul_sector (Nat.dvd_add (by decide) (Dvd.intro_left _ rfl))

theorem start_ddtable (page : Nat) : (ddtable page).start c = Config.ddtableMetaOffset + page * 4096 := by
  simp only [start, bStart]
  rw [Nat.add_mul, div_mul_sector (by decide), Nat.mul_assoc, div_mul_sector (by decide)]

theorem start_data (id i : Nat) : (data id i).start c = (id * bmapEntries + i) * 2 ^ c.metaShift :=
  c.blockFromIndex_mul id i

theorem within {r : Region} (h : r.Valid c) : c.areaStart r.rank ≤ r.start c ∧ r.stop c ≤ c.areaStart (r.rank + 1) := by
  cases r with
  | bint =>
    rw [stop, start_bint]
    simp [size, rank, Config.areaStart, logPagesOffset]
  | logPage i =>
    have hi : i < maxLogPages := h
    have hend : c.areaStart 2 = logPagesOffset + maxLogPages * 4096 := rfl
    rw [stop, start_logPage, rank, hend]
    refine ⟨Nat.le_add_right _ _, ?_⟩
    simp only [size]
    omega
  | tdisk targetId =>
    rw [stop, start_tdisk h]
    simp only [Valid, tlMaxTdisks] at h
    simp only [size, rank, Config.areaStart, ddtableMetaOffset_eq]
    omega
  | ddtable page =>
    obtain ⟨hdd, hpage⟩ : c.ddmaster = true ∧ page < 2 ^ c.ddbits * 8 / 4096 := h
    rw [stop, start_ddtable]
    simp only [size, rank, Config.areaStart, Config.ddtableSize, hdd, if_true]
    omega
  | lookup groupId =>
    have hg : groupId < c.maxIndexGroups := h
    rw [stop, start, bStart, Config.bintIndexLookupBstart_mul hg.le]
    simp only [size, rank, Config.areaStart]
    omega
  | index indexId =>
    have hid : indexId < c.maxIndexes := h
    have hreserved := c.reserved_eq
    rw [stop, start, bStart, Config.bintIndexBstart_mul hid.le]
    simp only [size, rank, Config.areaStart]
    omega
  | data indexId entry =>
    obtain ⟨hid, hentry, hres⟩ : _ ∧ _ ∧ _ := h
    have hend : c.blockFromIndex indexId entry * 2 ^ c.sectorShift + 1 * 2 ^ c.metaShift ≤ c.usize :=
      Config.block_end_le hid hentry
    exact ⟨Config.reserved_le_block hid hentry hres, by simpa [stop, start, bStart, size, rank, Config.areaStart] using hend⟩

theorem disjoint_of_rank_eq {a b : Region} (ha : a.Valid c) (hb : b.Valid c) (hrank : a.rank = b.rank) (hne : a ≠ b) :
    a.stop c ≤ b.start c ∨ b.stop c ≤ a.start c := by
  -- pieces of one size, in order of their number
  have hpieces : ∀ {m n size offset : Nat}, m ≠ n →
      offset + m * size + size ≤ offset + n * size ∨ offset + n * size + size ≤ offset + m * size := by
    intro m n size offset hmn
    obtain hlt | hlt := Nat.lt_or_gt_of_ne hmn
    all_goals
      have := Nat.mul_le_mul_right size hlt
      rw [Nat.succ_mul] at this
      omega
  cases a <;> cases b <;> try cases hrank
  case bint.bint => exact absurd rfl hne
  case logPage.logPage i j =>
    simp only [stop, start_logPage, size]
    exact hpieces fun h => hne (h ▸ rfl)
  case tdisk.tdisk i j =>
    rw [stop, stop, start_tdisk ha, start_tdisk hb]
    exact hpieces fun h => hne (h ▸ rfl)
  case ddtable.ddtable i j =>
    simp only [stop, start_ddtable, size]
    exact hpieces fun h => hne (h ▸ rfl)
  case lookup.lookup i j =>
    simp only [stop, start, bStart, Config.bintIndexLookupBstart_mul (le_of_lt ha),
      Config.bintIndexLookupBstart_mul (le_of_lt hb), size]
    exact hpieces fun h => hne (h ▸ rfl)
  case index.index i j =>
    simp only [stop, start, bStart, Config.bintIndexBstart_mul (le_of_lt ha), Config.bintIndexBstart_mul (le_of_lt hb), size]
    exact hpieces fun h => hne (h ▸ rfl)
  case data.data id i id' i' =>
    have hentries : id * bmapEntries + i ≠ id' * bmapEntries + i' := by
      intro heq
      have hi := ha.2.1
      have hi' := hb.2.1
      have hid : id = id' := by
        have hdiv := congrArg (· / bmapEntries) heq
        have hpos : 0 < bmapEntries := by decide
        simpa [Nat.mul_comm _ bmapEntries, Nat.mul_add_div hpos, Nat.div_eq_of_lt hi, Nat.div_eq_of_lt hi'] using hdiv
      subst hid
      exact hne (by rw [Nat.add_left_cancel heq])
    simp only [stop, start_data, size]
    simpa using @hpieces _ _ (2 ^ c.metaShift) 0 hentries

end Region

theorem Config.reserved_le_usize (c : Config) (hsize : 2 ^ 32 ≤ c.usize + bintTailReserved) : c.reserved ≤ c.usize := by
  have hdd := c.ddtableSize_le
  have hreserved := c.reserved_eq
  have hgroups := c.maxIndexGroups_le
  have hmax := c.maxIndexes_eq
  unfold ddtableMetaOffset at hreserved
  unfold bintTailReserved at hsize
  unfold bmapEntries at hmax
  rcases c.shift_cases.2 with h | ⟨h, -⟩ <;> rw [h] at hmax <;> omega

theorem Config.areaStart_mono (hsize : 2 ^ 32 ≤ c.usize + bintTailReserved) : Monotone c.areaStart := by
  refine monotone_nat_of_le_succ fun k => ?_
  have hreserved := c.reserved_eq
  match k with
  | 0 => exact Nat.le_add_right 262144 _
  | 1 => exact Nat.le_add_right logPagesOffset _
  | 2 =>
    exact Nat.le_add_right _ _
  | 3 => exact Nat.le_add_right ddtableMetaOffset _
  | 4 => exact Nat.le_add_right (ddtableMetaOffset + c.ddtableSize) _
  | 5 =>
    simp only [areaStart]
    omega
  | 6 => exact c.reserved_le_usize hsize
  | _ + 7 => exact le_rfl

end QuadStor.Bint
