import QuadStor.Bint.Disk
import QuadStor.Bint.Lemmas.Loops

/-!
# Where the blocks of a disk lie
-/

namespace QuadStor.Bint

open Lib

theorem div_mul_sector {c : Config} {n : Nat} (h : 4096 ∣ n) : n / 2 ^ c.sectorShift * 2 ^ c.sectorShift = n :=
  Nat.div_mul_cancel (((pow_dvd_pow 2 c.sectorShift_le).trans (by norm_num)).trans h)

namespace Config

variable {c : Config} {id i : Nat}

theorem shift_cases (c : Config) : (c.sectorShift = 9 ∨ c.sectorShift = 10 ∨ c.sectorShift = 11 ∨ c.sectorShift = 12) ∧
      (c.metaShift = 12 ∨ c.metaShift = 10 ∧ c.sectorShift ≤ 10) := by
  have hge := c.sectorShift_ge
  have hle := c.sectorShift_le
  refine ⟨by omega, ?_⟩
  unfold metaShift
  split_ifs with hcomp
  · exact .inr ⟨rfl, c.comp_sectorShift hcomp⟩
  · exact .inl rfl

theorem exists_shift (c : Config) : ∃ a b, 2 ^ c.metaShift = a * 2 ^ c.sectorShift ∧ 4096 = b * 2 ^ c.metaShift := by
  obtain ⟨hss, hms⟩ := c.shift_cases
  rcases hss with h | h | h | h <;> rcases hms with h' | ⟨h', hle⟩ <;> rw [h, h'] <;>
    first
      | exact ⟨1, 1, by decide, by decide⟩
      | exact ⟨2, 1, by decide, by decide⟩
      | exact ⟨4, 1, by decide, by decide⟩
      | exact ⟨8, 1, by decide, by decide⟩
      | exact ⟨1, 4, by decide, by decide⟩
      | exact ⟨2, 4, by decide, by decide⟩
      | omega

theorem metaBlocks_mul (c : Config) : c.metaBlocks * 2 ^ c.sectorShift = 4096 := by
  obtain ⟨hss, -⟩ := c.shift_cases
  unfold metaBlocks
  rcases hss with h | h | h | h <;> rw [h] <;> decide

theorem usize_lt (c : Config) : c.usize < (2 ^ 38 + 1) * 2 ^ c.sectorShift := by
  have hdiv := c.usize_le
  have hpos : 0 < 2 ^ c.sectorShift := Nat.two_pow_pos _
  exact (Nat.div_lt_iff_lt_mul hpos).mp (by omega)

theorem maxIndexes_eq (c : Config) : c.maxIndexes = c.usize / 2 ^ c.metaShift / bmapEntries := by
  have husize := c.usize_lt
  obtain ⟨hss, hms⟩ := c.shift_cases
  refine u32_eq_of_lt ?_
  unfold bmapEntries
  rcases hss with h | h | h | h <;> rcases hms with h' | ⟨h', hle⟩ <;> rw [h] at husize <;>
    rw [h'] <;> omega

theorem maxIndexes_mul_lt (c : Config) : c.maxIndexes * c.metaBlocks < 2 ^ 32 := by
  have husize := c.usize_lt
  have hblocks := Nat.eq_div_of_mul_eq_left (Nat.two_pow_pos _).ne' c.metaBlocks_mul
  obtain ⟨hss, hms⟩ := c.shift_cases
  rw [c.maxIndexes_eq, hblocks]
  unfold bmapEntries
  rcases hss with h | h | h | h <;> rw [h] at husize <;>
    rcases hms with h' | ⟨h', hle⟩ <;> rw [h, h'] <;> omega

theorem maxIndexGroups_le (c : Config) : c.maxIndexGroups ≤ c.maxIndexes := by
  unfold maxIndexGroups
  split_ifs <;> omega

def ddtableSize (c : Config) : Nat := if c.ddmaster then 2 ^ c.ddbits * 8 else 0

theorem ddtableSize_le (c : Config) : c.ddtableSize ≤ 2 ^ 26 := by
  unfold ddtableSize
  split_ifs
  · exact Nat.mul_le_mul_right 8 (Nat.pow_le_pow_right (by decide) c.ddbits_le)
  · exact Nat.zero_le _

theorem dvd_ddtableSize (c : Config) : 4096 ∣ c.ddtableSize := by
  unfold ddtableSize
  split_ifs
  · exact Dvd.dvd.mul_right ((by norm_num : (4096 : Nat) = 2 ^ 12) ▸ pow_dvd_pow 2 (by have := c.ddbits_ge; omega)) 8
  · exact dvd_zero _

theorem bintIndexLookupBstart_mul {g : Nat} (hg : g ≤ c.maxIndexGroups) :
    c.bintIndexLookupBstart g * 2 ^ c.sectorShift = ddtableMetaOffset + c.ddtableSize + g * 4096 := by
  have hlt := Nat.lt_of_le_of_lt (Nat.mul_le_mul_right _ (hg.trans c.maxIndexGroups_le)) c.maxIndexes_mul_lt
  have hdd : (if c.ddmaster then 2 ^ c.ddbits * 8 / 2 ^ c.sectorShift else 0) =
      c.ddtableSize / 2 ^ c.sectorShift := by
    unfold ddtableSize
    split_ifs
    · rfl
    · exact (Nat.zero_div _).symm
  rw [bintIndexLookupBstart, u32_eq_of_lt hlt, Nat.add_mul, Nat.add_mul, div_mul_sector (by decide), hdd,
    div_mul_sector c.dvd_ddtableSize, Nat.mul_assoc, c.metaBlocks_mul]

theorem bintIndexBstart_mul (hid : id ≤ c.maxIndexes) : c.bintIndexBstart id * 2 ^ c.sectorShift =
      ddtableMetaOffset + c.ddtableSize + c.maxIndexGroups * 4096 + id * 4096 := by
  have hlt := Nat.lt_of_le_of_lt (Nat.mul_le_mul_right _ hid) c.maxIndexes_mul_lt
  rw [bintIndexBstart, u32_eq_of_lt hlt, Nat.add_mul, bintIndexLookupBstart_mul le_rfl, Nat.mul_assoc, c.metaBlocks_mul]

theorem reserved_eq (c : Config) :
    c.reserved = ddtableMetaOffset + c.ddtableSize + c.maxIndexGroups * 4096 + c.maxIndexes * 4096 :=
  bintIndexBstart_mul le_rfl

theorem reservedBlocks_mul (c : Config) : c.reservedBlocks * 2 ^ c.metaShift = c.reserved := by
  obtain ⟨a, b, -, hb⟩ := c.exists_shift
  have hdvd : 2 ^ c.metaShift ∣ c.reserved := by
    have h4096 : 2 ^ c.metaShift ∣ 4096 := ⟨b, by rw [Nat.mul_comm]; exact hb⟩
    have hoff : 2 ^ c.metaShift ∣ ddtableMetaOffset := h4096.trans (by decide)
    rw [c.reserved_eq]
    exact Nat.dvd_add (Nat.dvd_add (Nat.dvd_add hoff (h4096.trans c.dvd_ddtableSize)) (h4096.mul_left _)) (h4096.mul_left _)
  have hlt : c.reserved / 2 ^ c.metaShift < 2 ^ 32 := by
    have husize := c.usize_lt
    have hgroups := c.maxIndexGroups_le
    have hmax := c.maxIndexes_eq
    have hdd := c.ddtableSize_le
    have hss := c.shift_cases.1
    rw [c.reserved_eq]
    unfold ddtableMetaOffset
    unfold bmapEntries at hmax
    rcases c.shift_cases.2 with h' | ⟨h', hle⟩ <;> rw [h'] at hmax ⊢ <;>
      rcases hss with h | h | h | h <;> rw [h] at husize <;> omega
  unfold reservedBlocks
  rw [u32_eq_of_lt hlt]
  exact Nat.div_mul_cancel hdvd

theorem blockFromIndex_mul (c : Config) (id i : Nat) :
    c.blockFromIndex id i * 2 ^ c.sectorShift = (id * bmapEntries + i) * 2 ^ c.metaShift := by
  obtain ⟨a, -, ha, -⟩ := c.exists_shift
  exact Nat.div_mul_cancel (Dvd.dvd.mul_left ⟨a, by rw [ha, Nat.mul_comm]⟩ _)

theorem reserved_le_block (hid : id < c.maxIndexes) (hi : i < bmapEntries)
    (h : ¬c.Reserved id i) : c.reserved ≤ c.blockFromIndex id i * 2 ^ c.sectorShift := by
  have hle := Nat.le_of_not_lt fun hlt => h ⟨hid, hi, hlt⟩
  rw [c.blockFromIndex_mul, ← c.reservedBlocks_mul]
  exact Nat.mul_le_mul_right _ hle

theorem block_end_le {len : Nat} (hid : id < c.maxIndexes) (hend : i + len ≤ bmapEntries) :
    c.blockFromIndex id i * 2 ^ c.sectorShift + len * 2 ^ c.metaShift ≤ c.usize := by
  have hmax : c.maxIndexes * bmapEntries ≤ c.usize / 2 ^ c.metaShift := by
    rw [c.maxIndexes_eq]
    exact Nat.div_mul_le_self _ _
  have hentries : id * bmapEntries + i + len ≤ c.maxIndexes * bmapEntries := by
    have hsucc := Nat.mul_le_mul_right bmapEntries hid
    rw [Nat.succ_mul] at hsucc
    omega
  rw [c.blockFromIndex_mul, ← Nat.add_mul]
  calc (id * bmapEntries + i + len) * 2 ^ c.metaShift
      ≤ c.usize / 2 ^ c.metaShift * 2 ^ c.metaShift :=
        Nat.mul_le_mul_right _ (hentries.trans hmax)
    _ ≤ c.usize := Nat.div_mul_le_self _ _

end Config

end QuadStor.Bint
