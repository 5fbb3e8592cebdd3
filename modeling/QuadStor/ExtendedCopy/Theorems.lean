import QuadStor.ExtendedCopy.Basic
import QuadStor.Token.Lemmas.Pages
import QuadStor.Token.Lemmas.Runs

/-!
# What a segment of an EXTENDED COPY leaves
-/

namespace QuadStor.ExtendedCopy

open Lib Command Token List
open DDTable (Block)
open Read (zeroPage)

variable {disks : Nat → Settings} {io : CopyIo} {s s' : State disks} {targets : List (Option Nat)} {seg : Segment}
  {src dest k i j b : Nat} {outcome : Outcome} {q : Pgdata} {pages merged : List Pgdata}

theorem legacy_of_tdisks (h : extendedCopyGetTdisks disks targets seg = some (src, dest)) :
    (disks src).legacy = (disks dest).legacy := by
  simp only [extendedCopyGetTdisks] at h
  split at h
  · split_ifs at h with hlegacy
    cases h
    exact hlegacy
  · cases h

theorem size_lt (seg : Segment) (g : Geometry) : seg.numBlocks * 2 ^ g.lbaShift < 2 ^ 28 := by
  have hlt := seg.numBlocks_lt
  obtain ⟨-, hshift, -⟩ | ⟨-, hshift, -⟩ := g.cases
  all_goals
    rw [hshift]
    omega

theorem u32_size (seg : Segment) (g : Geometry) :
    u32 (seg.numBlocks * 2 ^ g.lbaShift) = seg.numBlocks * 2 ^ g.lbaShift := by
  have hlt := size_lt seg g
  exact u32_eq_of_lt (by omega)

theorem legacy_of_not_aligned (h : ¬ Aligned disks src seg) : (disks src).legacy = true := by
  by_contra hnot
  exact h fun hl => absurd hl hnot

theorem two_pow_of_not_aligned (h : ¬ Aligned disks src seg) : 2 ^ (disks src).lbaShift = 512 := by
  simp [Geometry.lbaShift, legacy_of_not_aligned h]

theorem not_isUnaligned_iff : isUnalignedExtendedCopy (disks src).legacy seg.srcLba seg.destLba
    (seg.numBlocks * 2 ^ (disks src).lbaShift) = false ↔ Aligned disks src seg := by
  obtain ⟨hl, hshift, -⟩ | ⟨hl, hshift, -⟩ := (disks src).cases
  · have hmod : seg.numBlocks * 2 ^ 9 % 4096 = 0 ↔ seg.numBlocks % 8 = 0 := by omega
    simp only [isUnalignedExtendedCopy, Aligned, hl, hshift, Bool.true_and, Bool.not_eq_false', Bool.and_eq_true,
      beq_iff_eq, hmod, forall_const, and_assoc]
  · simp [isUnalignedExtendedCopy, Aligned, hl]

theorem getElem?_refPages (h : (s.refPages io src dest seg.srcLba seg.numBlocks)[i]? = some q) :
    q.content = (s.volume src).page ((disks src).lbaReal seg.srcLba + i) ∧
      (q.zero = true ↔ s.pool.name (.page src ((disks src).lbaReal seg.srcLba + i)) = none ∨
        (disks dest).dedupe = true ∧ ¬ io.ref.taken i = true ∧ q.content = zeroPage) := by
  obtain ⟨hi, rfl⟩ := List.getElem?_eq_some_iff.mp h
  simp only [State.refPages, getElem_map, getElem_range]
  split_ifs with htaken
  · exact ⟨content_rodPage, by simp [zero_rodPage, htaken]⟩
  · rw [content_hash]
    exact ⟨content_rodPage, by simp [zero_hash, zero_rodPage, htaken]⟩

theorem bringsTo_whole (hal : Aligned disks src seg) :
    BringsTo (s.volume dest) (target s src dest seg) (ZeroPage io s src dest seg) ((disks src).lbaReal seg.destLba)
      (s.refPages io src dest seg.srcLba seg.numBlocks) := by
  have hlt := size_lt seg (disks src).toGeometry
  have hlen := length_refPages io s dest seg.srcLba (by omega) fun hl => (hal hl).2.1
  have hcarries : Carries (s.volume dest) (target s src dest seg) ((disks src).lbaReal seg.destLba)
      (s.refPages io src dest seg.srcLba seg.numBlocks) := by
    rw [target, ← Geometry.lbaReal_mul fun hl => (hal hl).2.2, ← Geometry.lbaReal_mul fun hl => (hal hl).1, ← hlen]
    exact carries_pages fun i q hq => (getElem?_refPages hq).1
  refine ⟨put_legacy, hcarries, fun i q hq => ?_⟩
  rw [(getElem?_refPages hq).2, hcarries.content i q hq, ZeroPage, Nat.add_sub_cancel_left]
  simp only [hal, true_and]

theorem map_bytes_readInt {lba n : Nat} : (readInt s src lba n).map Pgdata.bytes =
    (List.range (readInt s src lba n).length).map fun i => (s.volume src).page ((disks src).lbaReal lba + i) := by
  simp only [readInt, map_map, length_map, length_range]
  apply map_congr_left
  intro i _
  exact bytes_rodPage

section Sectors

variable (hal : ¬ Aligned disks src seg) (hpos : 0 < seg.numBlocks)
include hal

theorem length_readInt (s : State disks) :
    seg.srcLba % 8 * 512 + seg.numBlocks * 512 ≤ (readInt s src seg.srcLba seg.numBlocks).length * 4096 := by
  have hl := legacy_of_not_aligned hal
  have hlt := seg.numBlocks_lt
  have hshift := two_pow_of_not_aligned hal
  have hdiff : (disks src).lbaDiff seg.srcLba = seg.srcLba % 8 := by rw [Geometry.lbaDiff, if_pos hl]
  have hcount := pglistCnt_eq (g := (disks src).toGeometry) (n := seg.numBlocks + seg.srcLba % 8) (by rw [hshift]; omega)
  rw [readInt, length_map, length_range, hdiff, hcount, hshift, ← Nat.add_mul, Nat.add_comm]
  exact size_le_count

theorem bytes_readInt (s : State disks) :
    ((((readInt s src seg.srcLba seg.numBlocks).map Pgdata.bytes).flatten.drop (seg.srcLba % 8 * 512)).take
      (seg.numBlocks * 512)) = (s.volume src).bytes (seg.srcLba * 512) (seg.numBlocks * 512) := by
  have hl := legacy_of_not_aligned hal
  have hreal : (disks src).lbaReal seg.srcLba = seg.srcLba / 8 := by rw [Geometry.lbaReal, if_pos hl]
  have hstart : seg.srcLba / 8 * 4096 + seg.srcLba % 8 * 512 = seg.srcLba * 512 := by omega
  rw [map_bytes_readInt, flatten_map_page, bytes_slice (length_readInt hal s), hreal, hstart]

include hpos

theorem bringsTo_sectors (hlegacy : (disks src).legacy = (disks dest).legacy)
    (hrun : (s.volume dest).checkUnalignedData io.write seg.destLba seg.numBlocks
      (movedPages io (disks dest).dedupe ((disks src).lbaDiff seg.srcLba * 2 ^ (disks src).lbaShift)
        (seg.numBlocks * 2 ^ (disks src).lbaShift) (readInt s src seg.srcLba seg.numBlocks)) = some (k, merged)) :
    k = (disks src).lbaReal seg.destLba ∧
      BringsTo (s.volume dest) (target s src dest seg) (ZeroPage io s src dest seg) k merged := by
  have hl := legacy_of_not_aligned hal
  have hshift := two_pow_of_not_aligned hal
  have hreal : (disks src).lbaReal seg.destLba = seg.destLba / 8 := by rw [Geometry.lbaReal, if_pos hl]
  have hdiff : (disks src).lbaDiff seg.srcLba = seg.srcLba % 8 := by rw [Geometry.lbaDiff, if_pos hl]
  rw [hdiff, hshift] at hrun
  -- whole pages at the destination have been moved, or the copy would be aligned
  obtain ⟨rfl, hcarries, hzeros⟩ := carries_moved (v := s.volume dest) (hlegacy.symm.trans hl)
    (Nat.lt_trans seg.numBlocks_lt (by decide)) hpos (Nat.mod_lt _ (by decide)) (length_readInt hal s)
    (fun hlba hblocks hzero => hal fun _ => ⟨hzero, hblocks, hlba⟩) hrun
  have htarget : target s src dest seg = (s.volume dest).put (seg.destLba * 512)
      ((s.volume src).bytes (seg.srcLba * 512) (seg.numBlocks * 512)) := by
    rw [target, hshift]
  rw [bytes_readInt hal s, ← htarget] at hcarries
  refine ⟨hreal.symm, put_legacy, hcarries, fun i q hq => ?_⟩
  rw [hzeros i q hq, ZeroPage, ← hcarries.content i q hq]
  simp [hal, State.volume]

end Sectors

theorem plan_cases (io : CopyIo) (s : State disks) (hlegacy : (disks src).legacy = (disks dest).legacy) (hpos : 0 < seg.numBlocks)
    (hplan : plan io s src dest seg ≠ .check) : plan io s src dest seg = .stop ∧ Unmoved disks io src seg ∨
      ∃ pages, plan io s src dest seg = .write pages ∧ ¬ Unmoved disks io src seg ∧
        ∀ k merged, (s.volume dest).checkUnalignedData io.write seg.destLba seg.numBlocks pages = some (k, merged) →
          k = (disks src).lbaReal seg.destLba ∧
            BringsTo (s.volume dest) (target s src dest seg) (ZeroPage io s src dest seg) k merged := by
  classical
  simp only [plan, u32_size, Bool.not_eq_true', not_isUnaligned_iff] at hplan ⊢
  split_ifs at hplan ⊢ with hmax heom hal hok hread hdiff hremap
  · exact absurd rfl hplan
  · exact absurd rfl hplan
  · refine .inr ⟨_, rfl, fun h => h.1 hal, fun k merged hrun => ?_⟩
    rw [checkUnalignedData_aligned fun hl => ⟨(hal (hlegacy.trans hl)).2.2, (hal (hlegacy.trans hl)).2.1⟩] at hrun
    cases hrun
    have hstart : (s.volume dest).lbaReal seg.destLba = (disks src).lbaReal seg.destLba :=
      Geometry.lbaReal_congr hlegacy.symm
    rw [hstart]
    exact ⟨rfl, bringsTo_whole hal⟩
  · exact absurd rfl hplan
  · exact absurd rfl hplan
  · refine .inr ⟨_, rfl, fun h => h.2.1 (by simpa using hdiff), fun k merged hrun =>
      bringsTo_sectors hal hpos hlegacy ?_⟩
    rwa [movedPages, if_pos hdiff]
  · refine .inr ⟨_, rfl, fun h => by simp [h.2.2] at hremap, fun k merged hrun => bringsTo_sectors hal hpos hlegacy ?_⟩
    rwa [movedPages, if_neg hdiff]
  · exact .inl ⟨rfl, hal, by simpa using hdiff, by simpa using hremap⟩

section Target

variable (hlegacy : (disks src).legacy = (disks dest).legacy)
include hlegacy

theorem lbaShift_dest (s : State disks) : (s.volume dest).lbaShift = (disks src).lbaShift :=
  Geometry.lbaShift_congr hlegacy.symm

theorem target_block_in (s : State disks) (hj : j < seg.numBlocks) :
    (target s src dest seg).block (seg.destLba + j) = (s.volume src).block (seg.srcLba + j) :=
  block_put_in (lbaShift_dest hlegacy s) rfl hj

theorem target_block_out (s : State disks) (hb : b < seg.destLba ∨ seg.destLba + seg.numBlocks ≤ b) :
    (target s src dest seg).block b = (s.volume dest).block b :=
  block_put_out (lbaShift_dest hlegacy s) hb

theorem exact_iff_of_written (hmoved : ¬ Unmoved disks io src seg)
    (hbrings : BringsTo (s.volume dest) (target s src dest seg) (ZeroPage io s src dest seg)
      ((disks src).lbaReal seg.destLba) merged) (hok : io.write.ok = true) (hpage : ∀ n, (s'.volume dest).page n =
      ((s.volume dest).writePages io.write ((disks src).lbaReal seg.destLba) merged).page n)
    (hothers : ∀ disk, disk ≠ dest → s'.volume disk = s.volume disk) :
    Exact s src dest seg s' ↔ Fits io s src dest seg := by
  have hreal : ∀ b, (s.volume dest).lbaReal b = (disks src).lbaReal b :=
    fun _ => Geometry.lbaReal_congr hlegacy.symm
  have hsame : (s'.volume dest).legacy = (s.volume dest).legacy := rfl
  have hblock := hbrings.block hok hsame hpage
  simp only [hreal] at hblock
  constructor
  · intro h j hj hor
    rw [← h.range j hj, (hblock (seg.destLba + j)).1 (hor.resolve_left hmoved)]
  · intro h
    constructor
    · intro j hj
      by_cases hskip : SkippedAt io.write (ZeroPage io s src dest seg) ((disks src).lbaReal seg.destLba)
          ((disks src).lbaReal (seg.destLba + j))
      · rw [(hblock _).1 hskip, h j hj (.inr hskip)]
      · rw [(hblock _).2 hskip, target_block_in hlegacy s hj]
    · intro disk b hb
      by_cases hdisk : disk = dest
      · subst hdisk
        have hout := hb.resolve_left fun hne => hne rfl
        by_cases hskip : SkippedAt io.write (ZeroPage io s src disk seg) ((disks src).lbaReal seg.destLba)
            ((disks src).lbaReal b)
        · exact (hblock b).1 hskip
        · rw [(hblock b).2 hskip, target_block_out hlegacy s hout]
      · rw [hothers disk hdisk]

end Target

theorem exact_iff_of_unmoved (hor : Unmoved disks io src seg ∨ seg.numBlocks = 0) :
    Exact s src dest seg s ↔ Fits io s src dest seg := by
  constructor
  · intro h j hj _
    exact h.range j hj
  · intro h
    refine ⟨fun j hj => h j hj (.inl (hor.resolve_right ?_)), fun _ _ _ => rfl⟩
    omega

theorem sound_segment (h : Sound s) (hrun : CopySegment io s targets seg s' outcome) : Sound s' := by
  cases hrun with
  | write _ _ _ _ hwritten => exact h.write hwritten
  | _ => exact h

theorem sound_run {segments : List (CopyIo × Segment)} {good : Bool} (hrun : ExtendedCopyRun targets s segments s' good)
    (h : Sound s) : Sound s' := by
  induction hrun with
  | nil => exact h
  | next hseg _ ih => exact ih (sound_segment h hseg)
  | good hseg | check hseg => exact sound_segment h hseg

theorem sound_invariant : (system disks).Invariant Sound where
  init := Token.sound_invariant.init
  step {s a s'} h hstep := by
    cases a with
    | token a => exact Token.sound_invariant.step h hstep
    | extendedCopy targets segments =>
      obtain ⟨good, hrun⟩ := hstep
      exact sound_run hrun h

/-- In every state that the disks can be in, a segment that does not end in CHECK CONDITION copies exactly if
and only if `Fits`. -/
theorem copies_exactly (hs : (system disks).Reachable s) (htype : seg.typeCode = 2)
    (htdisks : extendedCopyGetTdisks disks targets seg = some (src, dest))
    (hrun : CopySegment io s targets seg s' outcome) (houtcome : outcome ≠ .check) :
    Exact s src dest seg s' ↔ Fits io s src dest seg := by
  have hs := (sound_invariant.reachable hs).counted
  have hlegacy := legacy_of_tdisks htdisks
  cases hrun with
  | other h => exact absurd htype h
  | unreachable _ _ => exact absurd rfl houtcome
  | empty _ _ hzero => exact exact_iff_of_unmoved (.inr hzero)
  | check _ _ _ _ => exact absurd rfl houtcome
  | stop _ htdisks' hblocks hplan =>
    cases htdisks.symm.trans htdisks'
    obtain ⟨-, hunmoved⟩ | ⟨pages, hwrite, -⟩ := plan_cases io s hlegacy (Nat.pos_of_ne_zero hblocks) (by simp [hplan])
    · exact exact_iff_of_unmoved (.inl hunmoved)
    · simp [hplan] at hwrite
  | @write src' dest' pages _ ok _ htdisks' hblocks hplan hwritten =>
    cases htdisks.symm.trans htdisks'
    obtain ⟨hstop, -⟩ | ⟨pages', hwrite, hmoved, hbrings⟩ :=
      plan_cases io s hlegacy (Nat.pos_of_ne_zero hblocks) (by simp [hplan])
    · simp [hplan] at hstop
    obtain rfl := Plan.write.inj (hplan.symm.trans hwrite)
    obtain rfl : ok = true := by
      cases ok with
      | true => rfl
      | false => exact absurd rfl houtcome
    obtain ⟨k, merged, hdata, hok, hpage⟩ := writes_ok hwritten hs
    obtain ⟨rfl, hbrings⟩ := hbrings k merged hdata
    have hw := tdiskCmdWrite_writes hwritten hs
    exact exact_iff_of_written hlegacy hmoved hbrings hok hpage fun disk hne => volume_of_keeps hw.keeps hne

def ones : PageData := ⟨List.replicate 4096 1, length_ones⟩

def onesBlock : Block := ⟨1, 0, 0, 4096⟩

def equalDisks : Nat → Settings := fun _ => ⟨⟨8, false⟩, false⟩

def emptyPool : Pool := ⟨fun _ => none, fun _ => 0, fun _ => ones⟩

theorem emptyPool_counted : emptyPool.Counted := by
  intro b owners hall
  have : owners = ∅ := Finset.eq_empty_of_forall_notMem fun o ho => by simpa [emptyPool] using hall o ho
  simp [this]

def onesBefore : State equalDisks where
  pool := (emptyPool.move (.page 1 0) (some onesBlock)).move (.page 1 1) (some onesBlock)
  token _ := none

theorem onesBefore_reachable : (system equalDisks).Reachable onesBefore :=
  .init ⟨(emptyPool_counted.move _ _).move _ _, fun _ => rfl⟩

def segmentIo (skips : Bool) : CopyIo where
  mapRead := true
  reading _ := none
  ref := ⟨true, fun _ => true⟩
  alloc := true
  page _ := true
  read := true
  remap := true
  fresh _ := blank
  write := ⟨true, fun i => skips && i == 1, fun _ => zeroPage, fun _ => length_zeroPage⟩

def twoBlocks : Segment := ⟨2, 0, 1, 2, 0, 0, by decide⟩

def zeroCopied : State equalDisks := { onesBefore with pool := onesBefore.pool.move (.page 1 0) none }

theorem zeroCopied_next : CopySegment (segmentIo true) onesBefore [some 0, some 1] twoBlocks zeroCopied .next := by
  have hplan : plan (segmentIo true) onesBefore 0 1 twoBlocks = .write (List.replicate 2 Pgdata.unmapped) := rfl
  have heom : (onesBefore.volume 1).reachedEom 0 2 ≠ true := by decide
  have hwrite : onesBefore.TdiskCmdWrite (segmentIo true).write 1 0 2 (List.replicate 2 Pgdata.unmapped)
      zeroCopied true := by
    unfold State.TdiskCmdWrite
    split
    · exact absurd ‹_› heom
    · exact ⟨rfl, rfl, .put (.blank rfl) (.skip .nil)⟩
  have htdisks : extendedCopyGetTdisks equalDisks [some 0, some 1] twoBlocks = some (0, 1) := rfl
  have hsegment := CopySegment.write rfl htdisks (by decide) hplan hwrite
  exact hsegment

/-- The segment is done, and block 1 of the destination has kept its ones. -/
theorem zero_block_not_copied : (system equalDisks).Reachable onesBefore ∧
      CopySegment (segmentIo true) onesBefore [some 0, some 1] twoBlocks zeroCopied .next ∧
      (onesBefore.volume 0).block 1 = zeroPage ∧ (zeroCopied.volume 1).block 1 = ones.1 ∧
      ¬ Exact onesBefore 0 1 twoBlocks zeroCopied := by
  have hsrc : (onesBefore.volume 0).block 1 = zeroPage := by
    rw [block_page rfl]
    rfl
  have hdest : (zeroCopied.volume 1).block 1 = ones.1 := by
    rw [block_page rfl]
    rfl
  refine ⟨onesBefore_reachable, zeroCopied_next, hsrc, hdest, fun h => ?_⟩
  have hrange := h.range 1 (by decide)
  exact absurd (congrArg head? hrange) (by decide)

/-! ## A sector of ones

Neither the source nor the destination begins at a page. -/

def sectorDisks : Nat → Settings := fun _ => ⟨⟨64, true⟩, false⟩

def onesSource : State sectorDisks where
  pool := emptyPool.move (.page 0 0) (some onesBlock)
  token _ := none

theorem onesSource_reachable : (system sectorDisks).Reachable onesSource := .init ⟨emptyPool_counted.move _ _, fun _ => rfl⟩

def oneSector : Segment := ⟨2, 0, 1, 1, 1, 2, by decide⟩

def sectorPages : List Pgdata :=
  (remapPglistForWrite (segmentIo false) 512 512 (readInt onesSource 0 1 1)).map (pglistCalcHash false)

theorem sectorPages_written : ∃ s', onesSource.TdiskCmdWrite (segmentIo false).write 1 2 1 sectorPages s' true := by
  have heom : (onesSource.volume 1).reachedEom 2 1 ≠ true := by decide
  let merged := (merge 2 1).pages (segmentIo false).write (onesSource.volume 1) 2 sectorPages
  have hdata : (onesSource.volume 1).checkUnalignedData (segmentIo false).write 2 1 sectorPages = some (0, merged) := rfl
  obtain ⟨p, hp⟩ : ∃ p, merged = [p] := length_eq_one_iff.mp length_pages
  have hfree : onesSource.pool.refs ⟨2, 0, 0, 4096⟩ = 0 := rfl
  refine ⟨⟨(onesSource.pool.store ⟨2, 0, 0, 4096⟩ (pageData p)).move (.page 1 0) (some ⟨2, 0, 0, 4096⟩), fun _ => none⟩, ?_⟩
  rw [State.TdiskCmdWrite, if_neg heom, hdata, hp]
  exact ⟨rfl, rfl, .put (.fresh hfree) .nil⟩

theorem copies_exactly_sector : (system sectorDisks).Reachable onesSource ∧
    ∃ s', CopySegment (segmentIo false) onesSource [some 0, some 1] oneSector s' .next ∧
      Exact onesSource 0 1 oneSector s' ∧ (s'.volume 1).block 2 = replicate 512 1 := by
  obtain ⟨s', hwrite⟩ := sectorPages_written
  have htdisks : extendedCopyGetTdisks sectorDisks [some 0, some 1] oneSector = some (0, 1) := rfl
  have hsegment := CopySegment.write rfl htdisks (by decide) rfl hwrite
  have hexact : Exact onesSource 0 1 oneSector s' := by
    apply (copies_exactly onesSource_reachable rfl htdisks hsegment (by decide)).mpr
    rintro j hj (hunmoved | hskip)
    · exact absurd hunmoved.2.2 (by decide)
    · simp [SkippedAt, segmentIo] at hskip
  refine ⟨onesSource_reachable, s', hsegment, hexact, ?_⟩
  have hones : (onesSource.volume 0).block 1 = ((replicate 4096 1).drop 512).take 512 := rfl
  rw [drop_replicate, take_replicate] at hones
  exact (hexact.range 0 (by decide)).trans hones

end QuadStor.ExtendedCopy
