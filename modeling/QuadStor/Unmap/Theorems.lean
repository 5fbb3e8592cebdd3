import QuadStor.Unmap.Basic

/-!
# What an UNMAP changes
-/

namespace QuadStor.Unmap

open Lib Command List

open Read (zeroPage)

section

variable {io : PglistIo} {ios : Nat → PglistIo} {v w : Volume} {d : Descriptor} {ds : List Descriptor}
  {n b i k : Nat}

theorem trim_of_page (h : v.legacy = false) : d.trim v = d := by
  rw [Descriptor.trim, h]
  rfl

theorem trim_lba (h : v.legacy = true) : (d.trim v).lba = alignSize d.lba := by
  rw [Descriptor.trim, h]
  rfl

theorem trim_aligned (h : v.legacy = true) : (d.trim v).lba % 8 = 0 ∧ (d.trim v).numBlocks % 8 = 0 := by
  rw [Descriptor.trim, h]
  exact ⟨Nat.mul_mod_left _ _, Nat.mul_mod_left _ _⟩

theorem pglistCnt_of_page (h : v.legacy = false) : d.pglistCnt v = d.numBlocks := by
  simp [Descriptor.pglistCnt, trim_of_page h, Geometry.lbaShift, h, transferLengthToPglistCnt]

theorem trim_of_reaches (h : v.legacy = true) (hd : d.numBlocks ≤ 4096)
    (hreach : alignSize d.lba ≤ d.lba + d.numBlocks) :
    (d.trim v).numBlocks = (d.lba + d.numBlocks - alignSize d.lba) / 8 * 8 ∧
      d.pglistCnt v = (d.lba + d.numBlocks - alignSize d.lba) / 8 := by
  have htrim : (d.trim v).numBlocks = (d.lba + d.numBlocks - alignSize d.lba) / 8 * 8 := by
    rw [Descriptor.trim, h]
    simp only [if_true, wholePages, u32, alignSize] at hreach ⊢
    omega
  refine ⟨htrim, ?_⟩
  rw [Descriptor.pglistCnt, htrim, Geometry.lbaShift, h]
  refine pglistCnt_whole ?_
  rw [alignSize] at hreach ⊢
  omega

theorem valid_congr (hend : w.endLba = v.endLba) (hlegacy : w.legacy = v.legacy) : d.Valid w ↔ d.Valid v := by
  simp only [Descriptor.Valid, unmapLbaCount, Geometry.reachedEom, hend, hlegacy]

section

variable (hlegacy : w.legacy = v.legacy)
include hlegacy

theorem trim_congr : d.trim w = d.trim v := by
  simp only [Descriptor.trim, hlegacy]

theorem pglistCnt_congr : d.pglistCnt w = d.pglistCnt v := by
  simp only [Descriptor.pglistCnt, trim_congr hlegacy, Geometry.lbaShift, hlegacy]

theorem skips_congr : d.Skips io w n ↔ d.Skips io v n := by
  simp only [Descriptor.Skips, Descriptor.start, trim_congr hlegacy, Geometry.lbaReal, hlegacy]

end

theorem written_congr (hend : w.endLba = v.endLba) (hlegacy : w.legacy = v.legacy) : d.Written io w ↔ d.Written io v := by
  simp only [Descriptor.Written, valid_congr hend hlegacy, trim_congr hlegacy, pglistCnt_congr hlegacy,
    Geometry.reachedEom, hend]

theorem clears_congr (hend : w.endLba = v.endLba) (hlegacy : w.legacy = v.legacy) :
    d.Clears io w n ↔ d.Clears io v n := by
  have hstart : d.start w = d.start v := by
    simp only [Descriptor.start, trim_congr hlegacy, Geometry.lbaReal, hlegacy]
  simp only [Descriptor.Clears, written_congr hend hlegacy, skips_congr hlegacy, pglistCnt_congr hlegacy, hstart]

theorem accepted_congr (hend : w.endLba = v.endLba) (hlegacy : w.legacy = v.legacy) :
    d.Accepted io w ↔ d.Accepted io v := by
  simp only [Descriptor.Accepted, valid_congr hend hlegacy, written_congr hend hlegacy, pglistCnt_congr hlegacy]

theorem unmapDescriptor_cases (io : PglistIo) (v : Volume) (d : Descriptor) :
    (unmapDescriptor io v d = (v, false) ∧ ¬ d.Written io v ∧ ¬ d.Accepted io v) ∨
      (unmapDescriptor io v d = (v, true) ∧ d.Valid v ∧ d.pglistCnt v = 0) ∨
      (unmapDescriptor io v d = (v.writePages io.write (d.start v)
        (replicate (u16 (d.pglistCnt v)) .unmapped), io.write.ok) ∧ d.Written io v) := by
  have hrefused : ¬ d.Written io v → d.pglistCnt v ≠ 0 ∨ ¬ d.Valid v → ¬ d.Accepted io v := by
    rintro hnot hvalid (⟨hv, hzero⟩ | ⟨hw, -⟩)
    · exact hvalid.elim (absurd hzero) (absurd hv)
    · exact hnot hw
  unfold unmapDescriptor
  split_ifs with hcount heom hzero halloc
  · have hnot : ¬ d.Valid v := fun h => absurd h.1 (Nat.not_le.mpr hcount)
    exact .inl ⟨rfl, fun h => hnot h.1, hrefused (fun h => hnot h.1) (.inr hnot)⟩
  · have hnot : ¬ d.Valid v := fun h => by simp [h.2] at heom
    exact .inl ⟨rfl, fun h => hnot h.1, hrefused (fun h => hnot h.1) (.inr hnot)⟩
  · exact .inr (.inl ⟨rfl, ⟨Nat.le_of_not_lt hcount, by simpa using heom⟩, hzero⟩)
  · have hnot : ¬ d.Written io v := fun h => by simp [h.2.2.1] at halloc
    exact .inl ⟨rfl, hnot, hrefused hnot (.inl hzero)⟩
  · rw [tdiskCmdWrite_aligned trim_aligned]
    split_ifs with hend
    · have hnot : ¬ d.Written io v := fun h => by simp [h.2.2.2] at hend
      exact .inl ⟨rfl, hnot, hrefused hnot (.inl hzero)⟩
    · exact .inr (.inr ⟨rfl, ⟨Nat.le_of_not_lt hcount, by simpa using heom⟩, hzero, by simpa using halloc,
        by simpa using hend⟩)

theorem unmapDescriptor_ok_iff : (unmapDescriptor io v d).2 = true ↔ d.Accepted io v := by
  obtain ⟨heq, -, hnot⟩ | ⟨heq, hvalid, hzero⟩ | ⟨heq, hwritten⟩ := unmapDescriptor_cases io v d
  · rw [heq]
    exact ⟨nofun, fun h => absurd h hnot⟩
  · rw [heq]
    exact ⟨fun _ => .inl ⟨hvalid, hzero⟩, fun _ => rfl⟩
  · rw [heq]
    refine ⟨fun hok => .inr ⟨hwritten, hok⟩, ?_⟩
    rintro (⟨-, hzero⟩ | ⟨-, hok⟩)
    · exact absurd hzero hwritten.2.1
    · exact hok

theorem unmapDescriptor_same (io : PglistIo) (v : Volume) (d : Descriptor) :
    (unmapDescriptor io v d).1.endLba = v.endLba ∧ (unmapDescriptor io v d).1.legacy = v.legacy := by
  obtain ⟨h, -⟩ | ⟨h, -⟩ | ⟨h, -⟩ := unmapDescriptor_cases io v d <;> simp [h]

theorem unmapDescriptor_clears (h : d.Clears io v n) : (unmapDescriptor io v d).1.page n = zeroPage := by
  obtain ⟨-, hnot, -⟩ | ⟨-, -, hzero⟩ | ⟨heq, -⟩ := unmapDescriptor_cases io v d
  · exact absurd h.1 hnot
  · exact absurd hzero h.1.2.1
  · have hskip := Bool.eq_false_of_not_eq_true h.2.2.2
    rw [heq, page_writePages_replicate, if_pos ⟨h.2.1, h.2.2.1, hskip⟩, content_unmapped]

theorem unmapDescriptor_keeps (h : ¬ d.Clears io v n) : (unmapDescriptor io v d).1.page n = v.page n := by
  obtain ⟨heq, -⟩ | ⟨heq, -⟩ | ⟨heq, hwritten⟩ := unmapDescriptor_cases io v d
  · rw [heq]
  · rw [heq]
  · rw [heq, page_writePages_replicate, if_neg]
    rintro ⟨hle, hlt, hskip⟩
    exact h ⟨hwritten, hle, hlt, by rw [Descriptor.Skips, hskip]; simp⟩

theorem Descriptor.Clears.covers (h : d.Clears io v n) (hwraps : ¬ d.Wraps v) (hb : v.lbaReal b = n) : d.Covers b := by
  obtain ⟨⟨⟨hcount, -⟩, -⟩, hle, hlt, -⟩ := h
  rw [Descriptor.start, Geometry.lbaReal] at hle hlt
  rw [Geometry.lbaReal] at hb
  cases hl : v.legacy with
  | false =>
    simp only [hl, Bool.false_eq_true, if_false, trim_of_page hl, pglistCnt_of_page hl, u16] at hb hle hlt
    constructor <;> omega
  | true =>
    have hreach := Nat.le_of_not_lt fun h => hwraps ⟨hl, h⟩
    simp only [unmapLbaCount, hl, if_true] at hcount
    have hcnt := (trim_of_reaches hl hcount hreach).2
    simp only [hl, if_true, trim_lba hl, hcnt, u16, alignSize] at hb hle hlt hreach
    constructor <;> omega

theorem Descriptor.Contains.clears (h : d.Contains v n) (haccepted : d.Accepted io v)
    (hskip : ¬ d.Skips io v n) : d.Clears io v n := by
  have hin : d.Valid v → d.start v ≤ n ∧ n < d.start v + u16 (d.pglistCnt v) := by
    rintro ⟨hcount, -⟩
    rw [Descriptor.start, Geometry.lbaReal]
    cases hl : v.legacy with
    | false =>
      have := h n (by simp [Geometry.lbaReal, hl])
      simp only [Descriptor.Covers, unmapLbaCount, hl, Bool.false_eq_true, if_false, trim_of_page hl,
        pglistCnt_of_page hl, u16] at this hcount ⊢
      omega
    | true =>
      have hfirst := h (n * 8) (by simp [Geometry.lbaReal, hl])
      have hlast := h (n * 8 + 7) (by simp only [Geometry.lbaReal, hl, if_true]; omega)
      simp only [Descriptor.Covers, unmapLbaCount, hl, if_true] at hfirst hlast hcount
      have hreach : alignSize d.lba ≤ d.lba + d.numBlocks := by
        rw [alignSize]
        omega
      simp only [if_true, trim_lba hl, (trim_of_reaches hl hcount hreach).2, u16, alignSize]
      omega
  obtain ⟨hvalid, hzero⟩ | ⟨hwritten, -⟩ := haccepted
  · have := hin hvalid
    rw [hzero, u16] at this
    omega
  · exact ⟨hwritten, (hin hwritten.1).1, (hin hwritten.1).2, hskip⟩

theorem unmapDescriptors_cons (rest : List Descriptor) : unmapDescriptors ios k v (d :: rest) =
      if (unmapDescriptor (ios k) v d).2 then unmapDescriptors ios (k + 1) (unmapDescriptor (ios k) v d).1 rest
      else unmapDescriptor (ios k) v d := by
  rw [unmapDescriptors]
  split
  all_goals
    rename_i h
    simp [h]

theorem passes_cons (rest : List Descriptor) :
    Passes ios v (d :: rest) (i + 1) ↔ d.Accepted (ios 0) v ∧ Passes (fun j => ios (j + 1)) v rest i := by
  constructor
  · intro h
    exact ⟨h 0 d (Nat.succ_pos i) rfl, fun j e hj hget => h (j + 1) e (Nat.succ_lt_succ hj) hget⟩
  · rintro ⟨hfirst, hrest⟩ j e hj hget
    cases j with
    | zero =>
      obtain rfl : d = e := by simpa using hget
      exact hfirst
    | succ j => exact hrest j e (Nat.lt_of_succ_lt_succ hj) hget

def Cleared (ios : Nat → PglistIo) (v : Volume) (ds : List Descriptor) (n : Nat) : Prop :=
  ∃ i d, ds[i]? = some d ∧ Passes ios v ds i ∧ d.Clears (ios i) v n

theorem cleared_congr (hend : w.endLba = v.endLba) (hlegacy : w.legacy = v.legacy) :
    Cleared ios w ds n ↔ Cleared ios v ds n := by
  simp only [Cleared, Passes, accepted_congr hend hlegacy, clears_congr hend hlegacy]

theorem cleared_cons (rest : List Descriptor) : Cleared ios v (d :: rest) n ↔
      d.Clears (ios 0) v n ∨ d.Accepted (ios 0) v ∧ Cleared (fun j => ios (j + 1)) v rest n := by
  constructor
  · rintro ⟨i, e, hget, hpass, hclears⟩
    cases i with
    | zero =>
      obtain rfl : d = e := by simpa using hget
      exact .inl hclears
    | succ i =>
      obtain ⟨haccepted, hpass⟩ := (passes_cons _).mp hpass
      exact .inr ⟨haccepted, i, e, hget, hpass, hclears⟩
  · rintro (hclears | ⟨haccepted, i, e, hget, hpass, hclears⟩)
    · exact ⟨0, d, rfl, fun j _ hj => absurd hj (Nat.not_lt_zero j), hclears⟩
    · exact ⟨i + 1, e, hget, (passes_cons _).mpr ⟨haccepted, hpass⟩, hclears⟩

theorem unmapDescriptors_ok (ios : Nat → PglistIo) (k : Nat) (v : Volume) (ds : List Descriptor) :
    (unmapDescriptors ios k v ds).1.legacy = v.legacy ∧
      ∀ n, (Cleared (fun j => ios (k + j)) v ds n → (unmapDescriptors ios k v ds).1.page n = zeroPage) ∧
        (¬ Cleared (fun j => ios (k + j)) v ds n → (unmapDescriptors ios k v ds).1.page n = v.page n) := by
  induction ds generalizing k v with
  | nil =>
    refine ⟨rfl, fun n => ⟨?_, fun _ => rfl⟩⟩
    rintro ⟨i, d, hget, -⟩
    simp at hget
  | cons d rest ih =>
    obtain ⟨hend, hsame⟩ := unmapDescriptor_same (ios k) v d
    rw [unmapDescriptors_cons]
    cases hok : (unmapDescriptor (ios k) v d).2 with
    | false =>
      have hnot : ¬ d.Accepted (ios k) v := fun h => by simp [unmapDescriptor_ok_iff.2 h] at hok
      refine ⟨hsame, fun n => ?_⟩
      simp only [cleared_cons, Nat.add_zero, hnot, Bool.false_eq_true, false_and, or_false, if_false]
      exact ⟨unmapDescriptor_clears, unmapDescriptor_keeps⟩
    | true =>
      obtain ⟨hlegacy, hpages⟩ := ih (k + 1) (unmapDescriptor (ios k) v d).1
      refine ⟨hlegacy.trans hsame, fun n => ?_⟩
      obtain ⟨hzero, hkeep⟩ := hpages n
      rw [cleared_congr hend hsame] at hzero hkeep
      simp only [Nat.add_right_comm k 1, Nat.add_assoc k _ 1] at hzero hkeep
      simp only [cleared_cons, Nat.add_zero, unmapDescriptor_ok_iff.1 hok, true_and, if_true]
      constructor
      · rintro (hclears | hrest)
        · by_cases hrest : Cleared (fun j => ios (k + (j + 1))) v rest n
          · exact hzero hrest
          · rw [hkeep hrest, unmapDescriptor_clears hclears]
        · exact hzero hrest
      · intro hnot
        rw [not_or] at hnot
        rw [hkeep hnot.2, unmapDescriptor_keeps hnot.1]

end


variable {io : Nat → PglistIo} {v : Volume} {ds : List Descriptor} {n : Nat}

theorem tdiskCmdUnmap_eq (io : Nat → PglistIo) (v : Volume) (r : Request) :
    (tdiskCmdUnmap io v r).1 = (unmapDescriptors io 0 v r.descriptors).1 := by
  unfold tdiskCmdUnmap Request.descriptors
  by_cases hlen : r.parameterListLength ≤ 4
  · simp only [hlen, true_or, if_true, unmapDescriptors]
  · by_cases hnone : r.blockDescriptorLength = 0
    · simp only [hlen, hnone, true_or, or_true, if_true, if_false, unmapDescriptors]
    · simp only [hlen, hnone, false_or, if_false]
      split_ifs
      · rfl
      · rfl

theorem cleared_of_contains {i : Nat} {d : Descriptor} (hget : ds[i]? = some d)
    (hpass : Passes io v ds (i + 1)) (hcontains : d.Contains v n) (hskip : ¬ d.Skips (io i) v n) : Cleared io v ds n :=
  ⟨i, d, hget, fun j e hj => hpass j e (Nat.lt_succ_of_lt hj), hcontains.clears (hpass i d (Nat.lt_succ_self i) hget) hskip⟩

/-- Only blocks of the descriptors change, and the pages in them are cleared, exactly if no range that
wraps and no page that is skipped does harm. -/
theorem unmap_confined (io : Nat → PglistIo) (v : Volume) (r : Request) :
    Confined io v (tdiskCmdUnmap io v r).1 r.descriptors ↔ Harmless io v r.descriptors := by
  rw [tdiskCmdUnmap_eq]
  obtain ⟨hlegacy, hpages⟩ := unmapDescriptors_ok io 0 v r.descriptors
  simp only [Nat.zero_add] at hpages
  generalize (unmapDescriptors io 0 v r.descriptors).1 = v' at hlegacy hpages
  have hreal : ∀ b, v'.lbaReal b = v.lbaReal b := by simp [Geometry.lbaReal, hlegacy]
  have hzero : ∀ b, Cleared io v r.descriptors (v.lbaReal b) → v'.block b = v.zeroBlock := by
    intro b hcleared
    rw [block_of_zero (by rw [hreal]; exact (hpages _).1 hcleared)]
    simp [Volume.zeroBlock, Geometry.lbaShift, hlegacy]
  constructor
  · intro h
    refine ⟨fun i d n hget hpass _ hclears b hb => ?_, fun i d n hget hpass hcontains _ => ?_⟩
    · have hcleared : Cleared io v r.descriptors n := ⟨i, d, hget, hpass, hclears⟩
      by_cases hcovered : ∃ e ∈ r.descriptors, e.Covers b
      · exact .inl hcovered
      · have hsame := not_not.mp fun hne => hcovered (h.within b hne)
        exact .inr (hsame.symm.trans (hzero b (hb ▸ hcleared)))
    · by_cases hcleared : Cleared io v r.descriptors n
      · exact .inr hcleared
      · exact .inl (((hpages n).2 hcleared).symm.trans (h.cleared i d n hget hpass hcontains))
  · intro h
    refine ⟨fun b hne => ?_, fun i d n hget hpass hcontains => ?_⟩
    · have hcleared : Cleared io v r.descriptors (v.lbaReal b) := by
        by_contra hnot
        exact hne (block_congr hlegacy ((hpages _).2 hnot))
      obtain ⟨i, d, hget, hpass, hclears⟩ := hcleared
      by_cases hwraps : d.Wraps v
      · refine (h.wraps i d _ hget hpass hwraps hclears b rfl).resolve_right fun hold => ?_
        exact hne ((hzero b ⟨i, d, hget, hpass, hclears⟩).trans hold.symm)
      · exact ⟨d, mem_of_getElem? hget, hclears.covers hwraps rfl⟩
    · by_cases hcleared : Cleared io v r.descriptors n
      · exact (hpages n).1 hcleared
      · have hskip := not_not.mp fun hskip =>
          hcleared (cleared_of_contains hget hpass hcontains hskip)
        obtain hold | hother := h.skips i d n hget hpass hcontains hskip
        · rw [(hpages n).2 hcleared, hold]
        · exact absurd hother hcleared

def bigVolume : Volume where
  endLba := 2 ^ 32 + 8
  legacy := true
  dedupe := true
  page n := if n = 1 then replicate 4096 1 else zeroPage
  length_page n := by
    split_ifs
    · exact length_replicate
    · exact length_zeroPage

def oneBlock : Request :=
  ⟨24, toBytes 2 22 ++ toBytes 2 16 ++ toBytes 4 0 ++ toBytes 8 1 ++ toBytes 4 1 ++ toBytes 4 0⟩

theorem oneBlock_descriptors : oneBlock.descriptors = [⟨1, 1⟩] := by decide

theorem short_range_clears_others : (∀ d ∈ oneBlock.descriptors, ¬ d.Covers 8) ∧
      (tdiskCmdUnmap (fun _ => quickPglist) bigVolume oneBlock).1.block 8 ≠ bigVolume.block 8 := by
  constructor
  · rw [oneBlock_descriptors]
    simp [Descriptor.Covers]
  · rw [tdiskCmdUnmap_eq, oneBlock_descriptors]
    obtain ⟨hlegacy, hpages⟩ := unmapDescriptors_ok (fun _ => quickPglist) 0 bigVolume [⟨1, 1⟩]
    have hclears : Descriptor.Clears quickPglist bigVolume ⟨1, 1⟩ 1 := by
      refine ⟨⟨⟨by decide, by decide⟩, by decide, rfl, by decide⟩, by decide, by decide, ?_⟩
      rw [Descriptor.Skips, quickPglist, quickIo_skipped]
      simp
    have hpage := (hpages 1).1 ⟨0, ⟨1, 1⟩, rfl, fun j _ hj => absurd hj (Nat.not_lt_zero j), hclears⟩
    generalize (unmapDescriptors (fun _ => quickPglist) 0 bigVolume [⟨1, 1⟩]).1 = v' at hlegacy hpage
    have hlegacy' : v'.legacy = true := hlegacy
    have hreal : v'.lbaReal 8 = 1 := by rw [Geometry.lbaReal, hlegacy']; rfl
    have hdata : bigVolume.block 8 = replicate 512 1 := by
      show (replicate 4096 (1 : UInt8)).take 512 = _
      rw [take_replicate]
      rfl
    rw [block_of_zero (by rwa [hreal]), hdata, Volume.zeroBlock, Geometry.lbaShift, hlegacy']
    intro h
    have := congrArg head? h
    simp at this

end QuadStor.Unmap
