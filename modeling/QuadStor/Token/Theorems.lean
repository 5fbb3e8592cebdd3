import QuadStor.Token.Lemmas.Pages
import QuadStor.Token.Lemmas.Runs

/-!
# What a WRITE USING TOKEN leaves
-/

namespace QuadStor.Token

open Lib Command
open DDTable (Block)
open Read (zeroPage)

variable {disks : Nat → Settings} {io : CopyIo} {s s' : State disks} {t : RodToken disks} {r : Request}
  {d : Descriptor} {pages : List Pgdata} {status : Status} {k n j b written : Nat}

theorem numBlocks_le_copied (io : CopyIo) (s : State disks) (hlength : r.offset + d.numBlocks ≤ t.numBlocks) :
    d.numBlocks ≤ copied io s t r d := by
  rw [copied]
  split_ifs
  · have hend := end_le hlength
    rw [← (disks t.src).mul_perPage] at hend
    exact Nat.le_of_mul_le_mul_right (Nat.le_trans (Nat.le_add_left _ _) hend) (Nat.two_pow_pos _)
  · exact le_rfl

section Target

variable (hlegacy : (disks t.src).legacy = (disks r.dest).legacy)
include hlegacy

theorem lbaShift_dest (s : State disks) : (s.volume r.dest).lbaShift = (disks t.src).lbaShift :=
  Geometry.lbaShift_congr hlegacy.symm

theorem lbaReal_dest (s : State disks) : (s.volume r.dest).lbaReal b = (disks t.src).lbaReal b :=
  Geometry.lbaReal_congr hlegacy.symm

theorem target_block_in (hj : j < copied io s t r d) :
    (target io s t r d).block (d.lba + j) = (copySource io s t r d).block (t.lba + r.offset + j) :=
  block_put_in (lbaShift_dest hlegacy s) rfl hj

theorem target_block_out (hb : b < d.lba ∨ d.lba + copied io s t r d ≤ b) :
    (target io s t r d).block b = (s.volume r.dest).block b :=
  block_put_out (lbaShift_dest hlegacy s) hb

end Target

section Outcome

variable (hlegacy : (disks t.src).legacy = (disks r.dest).legacy) (hoffset : r.offset < t.numBlocks)
  (hlength : r.offset + d.numBlocks ≤ t.numBlocks)
include hoffset hlength

theorem faithful_iff_of_unread (ht : s.token r.rod = some t) (hunread : Unread io s t r d ∨ d.numBlocks = 0) :
    Faithful s t r d s 0 ↔ Fits io s t r d := by
  constructor
  · intro h
    refine ⟨hoffset, hlength, fun hpos => ?_, fun j hj hnot => ?_, fun j hj _ => (h.range j hj).2,
      fun j hpos _ _ _ hnot => ?_⟩
    · exact .inr (.inl (hunread.resolve_right hpos.ne'))
    · exact absurd (hunread.resolve_right (by omega)) hnot
    · exact absurd (hunread.resolve_right hpos.ne') hnot
  · intro h
    refine ⟨hoffset, fun j hj => ⟨by omega, ?_⟩, fun _ _ _ => rfl, fun _ _ _ => rfl, by simp [ht]⟩
    exact h.unwritten j hj (.inl (hunread.resolve_right (by omega)))

include hlegacy

theorem faithful_iff_of_written {s₁ : State disks} (hread : ¬ Unread io s t r d)
    (hbounds : ByReference io s t r d ∨ firstPage t r = 0) (hpos : 0 < d.numBlocks)
    (hbrings : BringsTo (s.volume r.dest) (target io s t r d) (ZeroPage io s t r d)
      ((disks t.src).lbaReal d.lba) pages) (hok : io.write.ok = true) (hpage : ∀ n, (s₁.volume r.dest).page n =
      ((s.volume r.dest).writePages io.write ((disks t.src).lbaReal d.lba) pages).page n)
    (hothers : ∀ disk, disk ≠ r.dest → s₁.volume disk = s.volume disk) (ht : s₁.token r.rod = some t) :
    Faithful s t r d (s₁.addTransferCount r.rod d.numBlocks) d.numBlocks ↔ Fits io s t r d := by
  have hsame : (s₁.volume r.dest).legacy = (s.volume r.dest).legacy := rfl
  have hblock := hbrings.block hok hsame hpage
  simp only [lbaReal_dest hlegacy s] at hblock
  have hvolume : ∀ disk, (s₁.addTransferCount r.rod d.numBlocks).volume disk = s₁.volume disk := fun _ => rfl
  have hcopied := numBlocks_le_copied io s hlength
  constructor
  · intro h
    refine ⟨hoffset, hlength, fun _ => hbounds.imp_right .inr, fun j hj _ hskip => ?_, fun j hj hor => ?_,
      fun j _ hle hlt hend _ hskip => ?_⟩
    · rw [← (h.range j hj).2, hvolume, (hblock (d.lba + j)).2 hskip, target_block_in hlegacy (by omega)]
    · rw [← (h.range j hj).2, hvolume, (hblock (d.lba + j)).1 (hor.resolve_left hread)]
    · rw [← h.others _ hend (.inr (by omega)), hvolume, (hblock (d.lba + j)).2 hskip, target_block_in hlegacy hlt]
  · intro h
    refine ⟨hoffset, fun j hj => ⟨by omega, ?_⟩, fun b hend hb => ?_, fun disk b hne => ?_, ?_⟩
    · rw [hvolume]
      by_cases hskip : Skipped io s t r d ((disks t.src).lbaReal (d.lba + j))
      · rw [(hblock _).1 hskip, h.unwritten j hj (.inr hskip)]
      · rw [(hblock _).2 hskip, target_block_in hlegacy (by omega), h.range j hj hread hskip]
    · rw [hvolume]
      by_cases hskip : Skipped io s t r d ((disks t.src).lbaReal b)
      · exact (hblock b).1 hskip
      · rw [(hblock b).2 hskip]
        by_cases hout : b < d.lba ∨ d.lba + copied io s t r d ≤ b
        · exact target_block_out hlegacy hout
        · obtain ⟨j, rfl⟩ := Nat.exists_eq_add_of_le (show d.lba ≤ b by omega)
          rw [target_block_in hlegacy (by omega)]
          exact (h.behind j hpos (by omega) (by omega) hend hread hskip).symm
    · rw [hvolume, hothers disk hne]
    · simp [State.addTransferCount, ht]

end Outcome

theorem plan_cases (ht : s.token r.rod = some t) (h : s.plan io r ≠ .check) :
    ∃ d, r.descriptors = [d] ∧ (d.numBlocks = 0 ∧ s.plan io r = .stop ∨
      0 < d.numBlocks ∧ (disks t.src).legacy = (disks r.dest).legacy ∧
        s.plan io r = s.rodTokenProcessDescriptor io r.dest r.offset d t) := by
  unfold State.plan at h ⊢
  split at h
  · rename_i d hd
    refine ⟨d, hd, ?_⟩
    split_ifs at h ⊢ with heom hzero hmax
    · exact absurd rfl h
    · exact .inl ⟨hzero, rfl⟩
    · exact absurd rfl h
    · simp only [ht] at h ⊢
      split_ifs at h ⊢ with hne
      · exact absurd rfl h
      · exact .inr ⟨Nat.pos_of_ne_zero hzero, by simpa using hne, rfl⟩
  · exact absurd rfl h

theorem copy_cases (io : CopyIo) (s : State disks) (hlegacy : (disks t.src).legacy = (disks r.dest).legacy)
    (hoffset : r.offset < t.numBlocks) (hlength : r.offset + d.numBlocks ≤ t.numBlocks) (hpos : 0 < d.numBlocks)
    {plan : Plan} (hplan : s.copyToDestRange io r.dest d t (t.lba + r.offset) d.numBlocks (firstPage t r)
      t.pglist.length = plan) : plan = .check ∨ plan = .stop ∧ Unread io s t r d ∨
      plan = .outOfBounds ∧ ¬ (ByReference io s t r d ∨ Unread io s t r d ∨ firstPage t r = 0) ∨
      ∃ pages, plan = .write d d.numBlocks pages ∧ ¬ Unread io s t r d ∧ (ByReference io s t r d ∨ firstPage t r = 0) ∧
        ∀ k merged, (s.volume r.dest).checkUnalignedData io.write d.lba d.numBlocks pages = some (k, merged) →
          k = (disks t.src).lbaReal d.lba ∧
            BringsTo (s.volume r.dest) (target io s t r d) (ZeroPage io s t r d) k merged := by
  have haligned : Aligned t r d → ∀ pages, (s.volume r.dest).checkUnalignedData io.write d.lba d.numBlocks pages =
      some ((disks t.src).lbaReal d.lba, pages) := by
    intro hal pages
    rw [checkUnalignedData_aligned fun hl => ⟨(hal (hlegacy.trans hl)).2.2.2, (hal (hlegacy.trans hl)).2.2.1⟩,
      lbaReal_dest hlegacy]
  by_cases href : ByReference io s t r d
  · rw [copy_byReference hlength href] at hplan
    split_ifs at hplan
    · refine .inr (.inr (.inr ⟨_, hplan.symm, fun h => h.1 href, .inl href, fun k merged hrun => ?_⟩))
      rw [haligned href.1] at hrun
      cases hrun
      exact ⟨rfl, brings_byReference href hlength⟩
    · exact .inl hplan.symm
  by_cases hread : Unread io s t r d
  · rw [copy_unread hlength hread] at hplan
    exact .inr (.inl ⟨hplan.symm, hread⟩)
  by_cases hfirst : firstPage t r = 0
  · rw [copy_pages hlength href hread hfirst] at hplan
    refine .inr (.inr (.inr ⟨_, hplan.symm, hread, .inr hfirst, fun k merged hrun => ?_⟩))
    by_cases hal : Aligned t r d
    · rw [haligned hal] at hrun
      cases hrun
      exact ⟨rfl, brings_pages hal href hfirst⟩
    · exact brings_sectors hal hfirst hlength hpos hlegacy hrun
  · rw [copy_outOfBounds hoffset hlength href hread hfirst] at hplan
    refine .inr (.inr (.inl ⟨hplan.symm, ?_⟩))
    simp [href, hread, hfirst]

theorem result_of_stop (hplan : s.plan io r = .stop) (hrun : s.WriteUsingToken io r s' status written) :
    s' = s ∧ status = .good ∧ written = 0 := by
  cases hrun <;> simp_all

theorem result_of_outOfBounds (hplan : s.plan io r = .outOfBounds) (hrun : s.WriteUsingToken io r s' status written) :
    status = .undefined := by
  cases hrun <;> simp_all

theorem result_of_write {blocks : Nat} (hplan : s.plan io r = .write d blocks pages) (hstatus : status ≠ .check)
    (hrun : s.WriteUsingToken io r s' status written) :
    status = .good ∧ written = blocks ∧ ∃ s₁, s.TdiskCmdWrite io.write r.dest d.lba blocks pages s₁ true ∧
      s' = s₁.addTransferCount r.rod d.numBlocks := by
  cases hrun with
  | check _ | failed _ _ => exact absurd rfl hstatus
  | stop h | outOfBounds h => simp [hplan] at h
  | written h hwrite =>
    obtain ⟨rfl, rfl, rfl⟩ := Plan.write.inj (hplan.symm.trans h)
    exact ⟨rfl, rfl, _, hwrite, rfl⟩

/-- In every run the blocks that a token refers to keep the data of its snapshot, and a WRITE USING TOKEN that does not
end in CHECK CONDITION is faithful to it if and only if `Fits`. -/
theorem token_is_snapshot (hs : (system disks).Reachable s) (ht : s.token r.rod = some t)
    (hrun : s.WriteUsingToken io r s' status written) (hstatus : status ≠ .check) : Kept s r.rod t ∧
      ∃ d, r.descriptors = [d] ∧ (status = .good ∧ Faithful s t r d s' written ↔ Fits io s t r d) := by
  have hs := sound_invariant.reachable hs
  refine ⟨hs.kept r.rod t ht, ?_⟩
  have hplan : s.plan io r ≠ .check := by
    intro hcheck
    cases hrun <;> simp_all
  obtain ⟨d, hd, hcases⟩ := plan_cases ht hplan
  refine ⟨d, hd, ?_⟩
  -- an offset or a length that the token does not have is neither faithful nor fitting
  by_cases hoffset : r.offset < t.numBlocks
  swap
  · exact iff_of_false (fun h => hoffset h.2.offset) fun h => hoffset h.offset
  by_cases hlength : r.offset + d.numBlocks ≤ t.numBlocks
  swap
  · refine iff_of_false (fun h => ?_) fun h => hlength h.length
    have := (h.2.range (t.numBlocks - r.offset) (by omega)).1
    omega
  obtain ⟨hzero, hstop⟩ | ⟨hpos, hlegacy, heq⟩ := hcases
  · obtain ⟨rfl, rfl, rfl⟩ := result_of_stop hstop hrun
    rw [← faithful_iff_of_unread hoffset hlength ht (.inr hzero)]
    simp
  rw [rodTokenProcessDescriptor_eq hoffset hlength hlegacy] at heq
  obtain hcheck | ⟨hstop, hunread⟩ | ⟨hbounds, hnot⟩ | ⟨pages, hwrite, hread, hbounds, hbrings⟩ :=
    copy_cases io s hlegacy hoffset hlength hpos heq.symm
  · exact absurd hcheck hplan
  · obtain ⟨rfl, rfl, rfl⟩ := result_of_stop hstop hrun
    rw [← faithful_iff_of_unread hoffset hlength ht (.inl hunread)]
    simp
  · obtain rfl := result_of_outOfBounds hbounds hrun
    exact iff_of_false (by simp) fun hfits => hnot (hfits.inBounds hpos)
  · obtain ⟨rfl, rfl, s₁, hwritten, rfl⟩ := result_of_write hwrite hstatus hrun
    obtain ⟨k, merged, hdata, hok, hpage⟩ := writes_ok hwritten hs.counted
    obtain ⟨rfl, hbrings⟩ := hbrings k merged hdata
    have hw := tdiskCmdWrite_writes hwritten hs.counted
    rw [← faithful_iff_of_written hlegacy hoffset hlength hread hbounds hpos hbrings hok hpage
      (fun disk hne => volume_of_keeps hw.keeps hne) (by rw [hw.token, ht])]
    simp

/-! ## A token of two blocks of ones -/

def onePage : PageData := ⟨List.replicate 4096 1, length_ones⟩

def theBlock : Block := ⟨1, 0, 0, 4096⟩

def twoDisks : Nat → Settings := fun _ => ⟨⟨8, false⟩, false⟩

def onesState : State twoDisks where
  pool := ((Shared.move ⟨fun _ => none, fun _ => 0, fun _ => onePage⟩ (.page 0 0) (some theBlock)).move (.page 0 1)
    (some theBlock))
  token _ := none

def onesToken : State twoDisks := onesState.populateToken ⟨true, fun _ => true⟩ 0 0 [⟨0, 2⟩]

def onesModified : State twoDisks := { onesToken with pool := onesToken.pool.move (.page 0 0) none }

theorem onesModified_reachable : (system twoDisks).Reachable onesModified := by
  have hempty : Shared.Counted (⟨fun _ => none, fun _ => 0, fun _ => onePage⟩ : Pool) := by
    intro b owners hall
    have : owners = ∅ := Finset.eq_empty_of_forall_notMem fun o ho => by simpa using hall o ho
    simp [this]
  have hinit : (system twoDisks).Reachable onesState := .init ⟨(hempty.move _ _).move _ _, fun _ => rfl⟩
  have htoken : (system twoDisks).Reachable onesToken :=
    hinit.step (a := .populateToken ⟨true, fun _ => true⟩ 0 0 [⟨0, 2⟩]) ⟨rfl, rfl⟩
  refine htoken.step (a := .write quickIo 0 0 1 [Pgdata.unmapped]) ⟨true, ?_⟩
  exact ⟨rfl, rfl, .put (.blank rfl) .nil⟩

def copyIo : CopyIo := ⟨true, fun _ => none, ⟨true, fun _ => true⟩, true, fun _ => true, true, true, fun _ => blank, quickIo⟩

def copyRequest (numBlocks : Nat) : Request := ⟨1, 0, 0, [⟨0, numBlocks⟩]⟩

def onesCopied (numBlocks : Nat) : State twoDisks :=
  { onesModified with
    pool := (onesModified.pool.move (.page 1 0) (some theBlock)).move (.page 1 1) (some theBlock) }.addTransferCount 0
      numBlocks

theorem onesCopied_written {numBlocks : Nat} (h : numBlocks = 1 ∨ numBlocks = 2) :
    onesModified.WriteUsingToken copyIo (copyRequest numBlocks) (onesCopied numBlocks) .good numBlocks := by
  have hplan : onesModified.plan copyIo (copyRequest numBlocks) =
      .write ⟨0, numBlocks⟩ numBlocks (List.replicate 2 ⟨false, onePage.1, onePage.2⟩) := by
    obtain rfl | rfl := h <;> rfl
  refine .written hplan ?_
  have heom : (onesModified.volume 1).reachedEom 0 numBlocks ≠ true := by
    obtain rfl | rfl := h <;> decide
  have hrefs : onesModified.pool.refs theBlock ≠ 0 ∧
      (onesModified.pool.move (.page 1 0) (some theBlock)).refs theBlock ≠ 0 := by decide
  unfold State.TdiskCmdWrite
  split
  · exact absurd ‹_› heom
  · exact ⟨rfl, rfl, .put (.share hrefs.1 rfl) (.put (.share hrefs.2 rfl) .nil)⟩

/-- Block 1 of the destination is overwritten by a copy to block 0. -/
theorem copy_overwrites_behind : (system twoDisks).Reachable onesModified ∧
      onesModified.WriteUsingToken copyIo (copyRequest 1) (onesCopied 1) .good 1 ∧
      (onesModified.volume 1).block 1 = zeroPage ∧ ((onesCopied 1).volume 1).block 1 = onePage.1 := by
  refine ⟨onesModified_reachable, onesCopied_written (.inl rfl), ?_, ?_⟩
  all_goals
    rw [block_page rfl]
    rfl

def onesRod : RodToken twoDisks where
  src := 0
  lba := 0
  numBlocks := 2
  pglist := [some theBlock, some theBlock]
  writeTransferCount := 0
  snapshot := onesState.volume 0
  numBlocks_pos := Nat.two_pos
  size_le := by decide
  length_pglist := rfl
  legacy_snapshot := rfl

theorem onesModified_token : onesModified.token 0 = some onesRod := rfl

theorem not_unread : ¬ Unread copyIo onesModified onesRod (copyRequest 2) ⟨0, 2⟩ := by simp [Unread, copyIo]

theorem not_byReference : ¬ ByReference copyIo onesModified onesRod (copyRequest 2) ⟨0, 2⟩ :=
  fun h => absurd (h.2.2 0 (Nat.zero_le 0) (by decide)) (by decide)

theorem not_skipped (n : Nat) : ¬ Skipped copyIo onesModified onesRod (copyRequest 2) ⟨0, 2⟩ n := by
  simp [Skipped, copyIo, quickIo]

theorem token_is_snapshot_whole : (system twoDisks).Reachable onesModified ∧
      onesModified.WriteUsingToken copyIo (copyRequest 2) (onesCopied 2) .good 2 ∧
      Faithful onesModified onesRod (copyRequest 2) ⟨0, 2⟩ (onesCopied 2) 2 := by
  refine ⟨onesModified_reachable, onesCopied_written (.inr rfl), ?_⟩
  obtain ⟨hkept, d, hd, hiff⟩ := token_is_snapshot (r := copyRequest 2) onesModified_reachable onesModified_token
    (onesCopied_written (.inr rfl)) (by decide)
  obtain rfl : d = ⟨0, 2⟩ := by simpa [copyRequest] using hd.symm
  refine (hiff.mpr ?_).2
  refine ⟨by decide, by decide, fun _ => .inr (.inr rfl), fun j hj _ _ => ?_, fun j _ hor => ?_, fun j _ hle hlt => ?_⟩
  · rw [block_page rfl, block_page rfl]
    simp only [copySource, copiedBlock_read not_byReference]
    -- the references were taken when there were ones in the source
    obtain rfl | rfl : j = 0 ∨ j = 1 := by
      have : j < 2 := hj
      omega
    · exact hkept 0 (some theBlock) rfl rfl
    · exact hkept 1 (some theBlock) rfl rfl
  · exact absurd hor (not_or.mpr ⟨not_unread, not_skipped _⟩)
  · have hcopied : copied copyIo onesModified onesRod (copyRequest 2) ⟨0, 2⟩ = 2 := by
      rw [copied]
      split_ifs <;> rfl
    rw [hcopied] at hlt
    exact absurd hle (Nat.not_le.mpr hlt)

end QuadStor.Token
