import QuadStor.RangeLock.Basic

/-!
# Exclusion and progress of the range lock
-/

namespace QuadStor.RangeLock

open Lib Lib.FifoQueue List

variable {lbaShift : LbaShift} {q q' : LbaList} {a : Action}

def lbaBlocks (lbaShift : LbaShift) (v w : Request) : Bool :=
  !scanLbaList (lbaWriteOf lbaShift w) [lbaWriteOf lbaShift v]

theorem scanLbaList_eq_all (lbaWrite : LbaWrite) (ahead : List LbaWrite) :
    scanLbaList lbaWrite ahead = ahead.all fun iter => scanLbaList lbaWrite [iter] := by
  induction ahead with
  | nil => rfl
  | cons iter rest ih =>
    rw [all_cons, ← ih]
    simp only [scanLbaList]
    split_ifs <;> simp

theorem scan_eq_verdict (ahead : LbaList) (r : Request) :
    scan lbaShift ahead r = verdict (lbaBlocks lbaShift) ahead r := by
  unfold scan verdict
  rw [scanLbaList_eq_all, all_map]
  simp only [lbaBlocks, Bool.not_not, Function.comp_def]

def Action.event : Action → Event Request
  | .add r => .arrive r
  | .signal _ => .signal
  | .again _ => .look
  | .remove _ => .leave

theorem step_sound (h : step lbaShift q a = some q') : FifoQueue.Step (lbaBlocks lbaShift) q a.event q' := by
  cases a with
  | add r =>
    cases h
    rw [scan_eq_verdict]
    exact .arrive q r
  | signal i =>
    simp only [step] at h
    split at h
    · rename_i w post hd
      cases h
      have hs : FifoQueue.Step (lbaBlocks lbaShift) _ _ _ := .signal (q.take i) post w
      rwa [← hd, take_append_drop] at hs
    · cases h
  | again i =>
    simp only [step] at h
    split at h
    · rename_i r post hd
      cases h
      have hs : FifoQueue.Step (lbaBlocks lbaShift) _ _ _ := .look (q.take i) post r
      rwa [← hd, take_append_drop, ← scan_eq_verdict] at hs
    · cases h
  | remove i =>
    simp only [step] at h
    split at h
    · rename_i r post hd
      cases h
      have hs : FifoQueue.Step (lbaBlocks lbaShift) _ _ _ := .leave (q.take i) post r
      rwa [← hd, take_append_drop] at hs
    · cases h

theorem reachable_queue (h : (system lbaShift).Reachable q) : (FifoQueue.system (lbaBlocks lbaShift)).Reachable q :=
  h.translate (f := id) (g := Action.event) id fun hst => step_sound hst

theorem reachable_fits (h : ((system lbaShift).restrict fun _ a => a.Fits lbaShift).Reachable q) :
    ∀ w ∈ q, w.req.Fits lbaShift := by
  have hq : ((FifoQueue.system (lbaBlocks lbaShift)).restrict
      fun _ e => e.Admits fun r => r.Fits lbaShift).Reachable q := by
    refine h.translate (f := id) (g := Action.event) id ?_
    rintro s a t ⟨hfit, hst⟩
    refine ⟨?_, step_sound hst⟩
    cases a <;> exact hfit
  exact forall_req_invariant.reachable hq

def coveredPages (lbaShift : LbaShift) (r : Request) : Nat :=
  match lbaShift with
  | .page => r.transferLength
  | .sector => (r.lba % 8 + r.transferLength + 7) / 8

variable {r : Request} {p : Nat}

theorem lbaWriteOf_eq (hr : r.Fits lbaShift) : (lbaWriteOf lbaShift r).lbaStart = pageOf lbaShift r.lba ∧
    (lbaWriteOf lbaShift r).lbaEnd = pageOf lbaShift r.lba + coveredPages lbaShift r := by
  have hlba := r.lba_lt
  cases lbaShift with
  | page =>
    obtain ⟨hlen, hend⟩ := hr
    have hcnt : s32 (transferLengthToPglistCnt LbaShift.page.bits (u32 (r.transferLength + 0))) = r.transferLength := by
      rw [u32_eq_of_lt (by omega)]
      exact s32_eq_of_lt hlen
    simp only [lbaWriteOf, hcnt]
    exact ⟨rfl, addInt64_natCast hend⟩
  | sector =>
    have hfit : r.lba % 8 + r.transferLength < 2 ^ 23 := hr
    have hdiff : r.lba - r.lba / 8 * 8 = r.lba % 8 := by omega
    have hcnt : transferLengthToPglistCnt LbaShift.sector.bits (u32 (r.transferLength + r.lba % 8)) =
        (r.lba % 8 + r.transferLength + 7) / 8 := by
      rw [u32_eq_of_lt (by omega), LbaShift.bits, pglistCnt_legacy]
      omega
    simp only [lbaWriteOf, hdiff, hcnt, pageOf, coveredPages]
    rw [s32_eq_of_lt (by omega), addInt64_natCast (by omega)]
    omega

theorem Covers.mem (h : Covers lbaShift r p) :
    pageOf lbaShift r.lba ≤ p ∧ p < pageOf lbaShift r.lba + coveredPages lbaShift r := by
  obtain ⟨b, hle, hlt, rfl⟩ := h
  cases lbaShift with
  | page => exact ⟨hle, hlt⟩
  | sector =>
    simp only [pageOf, coveredPages]
    omega

theorem covers_lbaWriteOf (hr : r.Fits lbaShift) (hp : Covers lbaShift r p) :
    (lbaWriteOf lbaShift r).lbaStart ≤ p ∧ p < (lbaWriteOf lbaShift r).lbaEnd := by
  obtain ⟨hstart, hend⟩ := lbaWriteOf_eq hr
  rw [hstart, hend]
  exact hp.mem

theorem lbaInRange_of_overlap {v w : Request} (hv : v.Fits lbaShift) (hw : w.Fits lbaShift) (h : Overlap lbaShift v w) :
    lbaInRange (lbaWriteOf lbaShift w) (lbaWriteOf lbaShift v) = true := by
  obtain ⟨p, hpv, hpw⟩ := h
  have hv' := covers_lbaWriteOf hv hpv
  have hw' := covers_lbaWriteOf hw hpw
  unfold lbaInRange
  rw [if_neg (by omega), if_neg (by omega)]

theorem syncWait_eq_of_not_blocks {v w : Request} (h : lbaBlocks lbaShift v w = false) : v.syncWait = w.syncWait := by
  cases hv : v.syncWait <;> cases hw : w.syncWait <;>
    simp_all [lbaBlocks, scanLbaList, lbaWriteOf]

theorem compatible_of_not_blocks {v w : Waiter Request} (hv : v.req.Fits lbaShift) (hw : w.req.Fits lbaShift)
    (h : w.status = .granted → lbaBlocks lbaShift v.req w.req = false) : Compatible lbaShift v w := by
  intro _ hg
  have hb := h hg
  have hsync := syncWait_eq_of_not_blocks hb
  refine ⟨hsync, ?_⟩
  intro hnot hover
  have hwf : w.req.syncWait = false := by
    cases hs : w.req.syncWait
    · rfl
    · exact absurd ⟨hsync.trans hs, hs⟩ hnot
  have hv' : (lbaWriteOf lbaShift v.req).syncWait = false := hsync.trans hwf
  have hw' : (lbaWriteOf lbaShift w.req).syncWait = false := hwf
  simp only [lbaBlocks, scanLbaList, hv', hw', lbaInRange_of_overlap hv hw hover, Bool.not_true, Bool.false_and,
    Bool.false_eq_true, if_false, and_true, Bool.not_eq_false'] at hb
  split at hb
  · rename_i hd
    exact ⟨hd.2, hd.1⟩
  · cases hb

theorem canProceed_of_headUp (h : HeadUp q) : CanProceed lbaShift q := by
  intro hne hno
  cases q with
  | nil => exact absurd rfl hne
  | cons w rest =>
    have hup := h w rfl
    have hng := hno w mem_cons_self
    obtain ⟨r, st⟩ := w
    cases st with
    | awake => exact ⟨0, ⟨r, .granted⟩ :: rest, r, rfl, rfl⟩
    | asleep => exact absurd rfl hup
    | granted => exact absurd rfl hng

theorem reachable_canProceed (h : (system lbaShift).Reachable q) : CanProceed lbaShift q :=
  canProceed_of_headUp (headUp_invariant.reachable (reachable_queue h))

/-- In every run whose requests all fit, every state keeps the contract of the range lock. -/
theorem range_lock_safe (h : ((system lbaShift).restrict fun _ a => a.Fits lbaShift).Reachable q) :
    Safe lbaShift q := by
  have hr := h.of_restrict
  have hfit := reachable_fits h
  refine ⟨?_, reachable_canProceed hr⟩
  have hclear := clear_invariant.reachable (reachable_queue hr)
  refine List.Pairwise.imp_of_mem ?_ hclear
  intro v w hv hw hvw
  exact compatible_of_not_blocks (hfit v hv) (hfit w hw) hvw

def firstRead : Request := ⟨0, 8, false, .read, false, by decide, by decide⟩

def shiftedRead : Request := ⟨4, 8, false, .read, false, by decide, by decide⟩

theorem range_lock_safe_reads : Safe .sector [⟨firstRead, .granted⟩, ⟨shiftedRead, .granted⟩] := by
  have hfirst : firstRead.Fits .sector := by decide
  have hshifted : shiftedRead.Fits .sector := by decide
  have h₁ : ((system .sector).restrict fun _ a => a.Fits .sector).Reachable
      [⟨firstRead, .granted⟩] := .step (a := .add firstRead) (.init rfl) ⟨hfirst, rfl⟩
  exact range_lock_safe (.step (a := .add shiftedRead) h₁ ⟨hshifted, rfl⟩)

/-- A `VERIFY` of 2^23 blocks of 512 bytes: its size in bytes is 2^32. -/
def verifyRange : Request := ⟨0, 2 ^ 23, false, .write, false, by decide, by decide⟩

def firstPageWrite : Request := ⟨0, 8, false, .write, false, by decide, by decide⟩

/-- The recorded range of `verifyRange` is empty, so a write into it is let through. -/
theorem range_lock_overlapping_writes : ∃ q, (system .sector).Reachable q ∧ ¬Safe .sector q := by
  refine ⟨[⟨verifyRange, .granted⟩, ⟨firstPageWrite, .granted⟩], ?_, ?_⟩
  · exact .step (a := .add firstPageWrite) (.step (a := .add verifyRange) (.init rfl) rfl) rfl
  · intro hsafe
    have hc : Compatible .sector ⟨verifyRange, .granted⟩ ⟨firstPageWrite, .granted⟩ :=
      (pairwise_cons.mp hsafe.compatible).1 _ mem_cons_self
    have hover : Overlap .sector verifyRange firstPageWrite :=
      ⟨0, ⟨0, by decide, by decide, rfl⟩, ⟨0, by decide, by decide, rfl⟩⟩
    have hread := ((hc rfl rfl).2 (by decide) hover).1
    cases hread

end QuadStor.RangeLock
