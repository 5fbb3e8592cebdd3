import QuadStor.Resize.Basic

/-!
# Table index pages over resizes and reloads
-/

namespace QuadStor.Resize

open Lib

variable {d d' : Tdisk} {io : Io} {page : Nat → PageIo} {p : Pages} {n i j size newSize : Nat} {updateSize : Bool}

theorem roundUp_mono {a b d : Nat} (h : a ≤ b) : roundUp a d ≤ roundUp b d := by
  have hdiv : a / d ≤ b / d := Nat.div_le_div_right h
  unfold roundUp
  split_ifs with ha hb
  · omega
  · -- a full multiple above an `a` that is not one
    obtain hlt | heq := Nat.lt_or_eq_of_le hdiv
    · exact hlt
    · have hdivmod := Nat.div_add_mod a d
      have hdivmod' := Nat.div_add_mod b d
      rw [heq] at hdivmod
      omega
  · omega
  · exact hdiv

theorem amapTableMaxOf_mono (h : size ≤ newSize) : amapTableMaxOf size ≤ amapTableMaxOf newSize :=
  roundUp_mono (Nat.div_le_div_right h)

theorem tableIndexMaxOf_mono (h : size ≤ newSize) : tableIndexMaxOf size ≤ tableIndexMaxOf newSize :=
  roundUp_mono (amapTableMaxOf_mono h)

def HasPage (pad : Nat → Nat) (index : Nat → Option Nat) (i : Nat) : Prop := pad i ≠ 0 ∧ index i = some (pad i)

theorem allocPages_below (hj : j < i) :
    (allocPages page n i p).tablePad j = p.tablePad j ∧ (allocPages page n i p).tableIndex j = p.tableIndex j := by
  induction n generalizing i p with
  | zero => exact ⟨rfl, rfl⟩
  | succ n ih =>
    have hne : j ≠ i := Nat.ne_of_lt hj
    have hadd : ∀ b, (p.add i b).tablePad j = p.tablePad j ∧ (p.add i b).tableIndex j = p.tableIndex j := fun b =>
      ⟨Function.update_of_ne hne _ _, Function.update_of_ne hne _ _⟩
    rw [allocPages]
    cases (page i).block with
    | none => exact ⟨rfl, rfl⟩
    | some b =>
      split_ifs
      · obtain ⟨hpad, hindex⟩ : (allocPages page n (i + 1) (p.add i b)).tablePad j = (p.add i b).tablePad j ∧
            (allocPages page n (i + 1) (p.add i b)).tableIndex j = (p.add i b).tableIndex j := ih (by omega)
        exact ⟨hpad.trans (hadd b).1, hindex.trans (hadd b).2⟩
      · exact hadd b

theorem allocPages_ok (h : (allocPages page n i p).ok = true) : (allocPages page n i p).count = p.count + n ∧
      ∀ j, i ≤ j → j < i + n → HasPage (allocPages page n i p).tablePad (allocPages page n i p).tableIndex j := by
  induction n generalizing i p with
  | zero => exact ⟨rfl, fun j hlow hhigh => by omega⟩
  | succ n ih =>
    rw [allocPages] at h ⊢
    cases hblock : (page i).block with
    | none => simp [hblock] at h
    | some b =>
      simp only [hblock] at h ⊢
      split_ifs at h ⊢ with hwritten
      obtain ⟨hcount, hpages⟩ := ih h
      refine ⟨hcount.trans (Nat.add_right_comm _ _ _), fun j hlow hhigh => ?_⟩
      by_cases hj : j = i
      · subst hj
        obtain ⟨hpad, hindex⟩ : (allocPages page n (j + 1) (p.add j b)).tablePad j = (p.add j b).tablePad j ∧
            (allocPages page n (j + 1) (p.add j b)).tableIndex j = (p.add j b).tableIndex j :=
          allocPages_below (Nat.lt_succ_self j)
        have hne : b ≠ 0 := by
          rintro rfl
          exact (page j).block_ne hblock
        rw [HasPage, hpad, hindex]
        simpa [Pages.add] using hne
      · exact hpages j (by omega) (by omega)

theorem allocPages_of_all (hok : p.ok = true)
    (h : ∀ j, i ≤ j → j < i + n → (page j).block ≠ none ∧ (page j).written = true) :
    (allocPages page n i p).ok = true := by
  induction n generalizing i p with
  | zero => exact hok
  | succ n ih =>
    obtain ⟨hblock, hwritten⟩ := h i (Nat.le_refl _) (by omega)
    obtain ⟨b, hb⟩ := Option.ne_none_iff_exists'.mp hblock
    rw [allocPages, hb]
    simp only [hwritten, if_true]
    exact ih hok fun j hlow hhigh => h j (by omega) (by omega)

theorem allocPages_none (h : (page i).block = none) : allocPages page (n + 1) i p = { p with ok := false } := by
  rw [allocPages, h]

structure Inv (d : Tdisk) : Prop where
  everSize : d.everSize ≤ d.raw.tdiskMaxSize
  pos : 0 < d.raw.tdiskMaxSize
  tables : d.amapTableMax = amapTableMaxOf d.raw.tdiskMaxSize
  index : d.tableIndexMax = tableIndexMaxOf d.raw.tdiskMaxSize
  allocated : d.allocated = d.tableIndexMax
  page : ∀ i < d.tableIndexMax, HasPage d.raw.tablePad d.tableIndex i

theorem Inv.tdiskLoadIndex (h : Inv d) : ∃ d', tdiskLoadIndex d = some d' ∧ Inv d' ∧ Kept d d' := by
  have hpad : ∀ i < tableIndexMaxOf d.raw.tdiskMaxSize, d.raw.tablePad i ≠ 0 := fun i hi =>
    (h.page i (h.index ▸ hi)).1
  refine ⟨_, if_pos hpad, ⟨h.everSize, h.pos, rfl, rfl, h.allocated.trans h.index, fun i hi => ?_⟩,
    (h.allocated.trans h.index).symm, fun i hi => ?_, Nat.le_of_eq h.tables⟩
  · exact ⟨hpad i hi, if_pos hi⟩
  · have hi' := h.index ▸ hi
    exact ⟨hi', (if_pos hi').trans (h.page i hi).2.symm⟩

theorem Inv.remembers (h : Inv d) : Remembers d := by
  obtain ⟨d', hload, -, hkept⟩ := h.tdiskLoadIndex
  exact ⟨h.everSize, d', hload, hkept⟩

theorem Inv.tdiskInitializeIndex {lbaShift : Nat} (hle : 2 ^ lbaShift ≤ size)
    (h : tdiskInitializeIndex io lbaShift size = some d) : Inv d := by
  simp only [Resize.tdiskInitializeIndex] at h
  split_ifs at h with hok
  cases h
  simp only [Bool.and_eq_true] at hok
  obtain ⟨hcount, hpages⟩ := allocPages_ok hok.1.2
  have hpos : 0 < size / 2 ^ lbaShift * 2 ^ lbaShift :=
    Nat.mul_pos (Nat.div_pos hle (Nat.two_pow_pos _)) (Nat.two_pow_pos _)
  refine ⟨Nat.le_refl _, hpos, rfl, rfl, hcount.trans (Nat.zero_add _), fun i hi => ?_⟩
  exact hpages i (Nat.zero_le _) (by rwa [Nat.zero_add])

theorem tdiskMaxSize_mk {pad : Nat → Nat} (h : 0 < newSize) : RawIndexData.tdiskMaxSize ⟨size, newSize, pad⟩ = newSize :=
  if_pos (Nat.ne_of_gt h)

theorem Inv.tdiskReinitializeIndexReduc (h : Inv d) : Inv (tdiskReinitializeIndexReduc io d newSize) := by
  unfold Resize.tdiskReinitializeIndexReduc
  split_ifs
  · have hmax : RawIndexData.tdiskMaxSize ⟨newSize, d.raw.tdiskMaxSize, d.raw.tablePad⟩ = d.raw.tdiskMaxSize :=
      tdiskMaxSize_mk h.pos
    constructor <;> simp only [hmax]
    exacts [h.everSize, h.pos, h.tables, h.index, h.allocated, h.page]
  · exact h

theorem NoLeak.count (h : NoLeak io d newSize) (hok : p.ok = true) :
    let p' := allocPages io.page (tableIndexMaxOf newSize - d.tableIndexMax) d.tableIndexMax p
    p'.count = p.count ∨ (p'.ok && io.groups && io.index) = true := by
  rcases h with hle | hnone | ⟨hall, hgroups, hindex⟩
  · rw [Nat.sub_eq_zero_of_le hle]
    exact .inl rfl
  · cases tableIndexMaxOf newSize - d.tableIndexMax with
    | zero => exact .inl rfl
    | succ n => exact .inl (by rw [allocPages_none hnone])
  · have hdone : (allocPages io.page (tableIndexMaxOf newSize - d.tableIndexMax) d.tableIndexMax p).ok = true :=
      allocPages_of_all hok fun j hlow hhigh => hall j hlow (by omega)
    exact .inr (by simp only [hdone, hgroups, hindex, Bool.and_self])

theorem Inv.tdiskReinitializeIndex (h : Inv d) (hgrows : Grows io d newSize) :
    Inv (tdiskReinitializeIndex io d newSize updateSize).2 := by
  obtain ⟨hmax, hleak⟩ := hgrows
  have hpos : 0 < newSize := Nat.lt_of_lt_of_le h.pos hmax
  have hindex := h.index ▸ tableIndexMaxOf_mono hmax
  have hcount := hleak.count (p := ⟨d.raw.tablePad, d.tableIndex, 0, true⟩) rfl
  simp only [Resize.tdiskReinitializeIndex]
  -- which of the two sizes is recorded does not matter
  generalize (if updateSize = true then newSize else d.raw.size) = size
  generalize (if updateSize = true then newSize / 2 ^ d.lbaShift else d.endLba) = endLba
  split_ifs with hskip hwritten hok
  · -- a size that is already covered can only be the recorded one
    have hsame : d.raw.tdiskMaxSize = newSize := by
      refine Nat.le_antisymm hmax ?_
      rw [RawIndexData.tdiskMaxSize, if_pos hskip.1]
      exact hskip.2
    constructor <;> simp only [tdiskMaxSize_mk hpos]
    exacts [hsame ▸ h.everSize, hpos, hsame ▸ h.tables, hsame ▸ h.index, h.allocated, h.page]
  · exact h
  · simp only [Bool.and_eq_true] at hok
    obtain ⟨hnew, hpages⟩ := allocPages_ok hok.1.1
    constructor <;> simp only [tdiskMaxSize_mk hpos]
    · exact Nat.max_le.mpr ⟨Nat.le_trans h.everSize hmax, Nat.le_refl _⟩
    · exact hpos
    · have hallocated := h.allocated
      simp only at hnew
      omega
    · intro i hi
      by_cases hold : i < d.tableIndexMax
      · rw [HasPage, (allocPages_below hold).1, (allocPages_below hold).2]
        exact h.page i hold
      · exact hpages i (by omega) (by omega)
  · have hnone := hcount.resolve_right hok
    refine ⟨h.everSize, h.pos, h.tables, h.index, ?_, fun i hi => ?_⟩
    · rw [hnone]
      exact h.allocated
    · exact ⟨(h.page i hi).1, (allocPages_below hi).2.trans (h.page i hi).2⟩

theorem Inv.resizeIndex (h : Inv d) (hgrows : d.endLba * 2 ^ d.lbaShift < size → Grows io d size) :
    Inv (resizeIndex io d size).2 := by
  unfold Resize.resizeIndex
  split_ifs with hgrow
  · exact h.tdiskReinitializeIndex (hgrows hgrow)
  · exact h.tdiskReinitializeIndexReduc

theorem Inv.endLba (h : Inv d) (endLba : Nat) : Inv { d with endLba } :=
  ⟨h.everSize, h.pos, h.tables, h.index, h.allocated, h.page⟩

theorem Inv.exec {a : Action} (h : Inv d) (ha : Allowed d a) (hexec : exec d a = some d') : Inv d' := by
  cases a with
  | resize io size =>
    simp only [Resize.exec] at hexec
    split_ifs at hexec
    cases hexec
    exact h.resizeIndex ha
  | mirror io maxSize =>
    simp only [Resize.exec] at hexec
    split_ifs at hexec with hlt
    cases hexec
    exact h.tdiskReinitializeIndex ⟨Nat.le_of_lt hlt.1, ha⟩
  | mirrorResize io endLba =>
    obtain ⟨-, rfl⟩ := System.of_guard hexec
    exact h.tdiskReinitializeIndex ha
  | mirrorUpdate io endLba =>
    obtain ⟨-, rfl⟩ := System.of_guard hexec
    have hinv := h.resizeIndex fun hgrow => ha (Nat.lt_of_mul_lt_mul_right hgrow)
    simp only [nodeMirrorUpdateVdiskProperties]
    split_ifs
    · exact h
    · exact hinv.endLba endLba
    · exact hinv
  | reload =>
    obtain ⟨d'', hload, hinv, -⟩ := h.tdiskLoadIndex
    cases hload.symm.trans hexec
    exact hinv

theorem inv_invariant : (system.restrict Allowed).Invariant Inv where
  init := fun ⟨_, _, _, hle, _, hinit⟩ => Inv.tdiskInitializeIndex hle hinit
  step := fun hinv hstep => hinv.exec hstep.1 hstep.2

/-- Grown only to sizes that are not below the recorded maximum, and without a failure after a page was allocated, a disk
forgets nothing. -/
theorem resize_forgets_nothing (hd : (system.restrict Allowed).Reachable d) : Remembers d :=
  (inv_invariant.reachable hd).remembers

def allWritten : Io := ⟨fun i => ⟨some (i + 1), by simp, true⟩, true, true⟩

theorem isSome_allWritten : (tdiskInitializeIndex allWritten 12 size).isSome := by
  have hok : ∀ n, (allocPages allWritten.page n 0 ⟨fun _ => 0, fun _ => none, 0, true⟩).ok = true := fun n =>
    allocPages_of_all rfl fun j _ _ => ⟨Option.some_ne_none _, rfl⟩
  have hgroups : allWritten.groups = true := rfl
  have hindex : allWritten.index = true := rfl
  simp [tdiskInitializeIndex, hok, hgroups, hindex]

def newDisk (size : Nat) : Tdisk := (tdiskInitializeIndex allWritten 12 size).get isSome_allWritten

theorem initial_newDisk (hle : 2 ^ 12 ≤ size) (hmax : size ≤ maxTargetSize) : Initial (newDisk size) :=
  ⟨allWritten, 12, size, hle, hmax, (Option.some_get _).symm⟩

def growShrink : List Action := [.resize allWritten (2 ^ 41), .resize allWritten (2 ^ 40), .reload]

theorem resize_forgets_nothing_growShrink : ∃ d : Tdisk, (system.restrict Allowed).Reachable d ∧
    d.endLba = 2 ^ 28 ∧ d.tableIndexMax = 3 ∧ Remembers d := by
  have hstep : ∀ {d : Tdisk} {a}, Allowed d a ∧ (exec d a).isSome →
      (system.restrict Allowed).step d a (System.runOf exec d a) := fun h => ⟨h.1, System.exec_runOf h.2⟩
  have hreach : (system.restrict Allowed).Reachable (growShrink.foldl (System.runOf exec) (newDisk (2 ^ 40))) := by
    refine .foldl hstep (.init (initial_newDisk (by decide) (by decide))) ⟨⟨fun _ => ⟨by decide +kernel, .inr (.inr ?_)⟩, rfl⟩,
      ⟨fun hgrow => absurd hgrow (by decide +kernel), rfl⟩, ⟨trivial, by decide +kernel⟩, trivial⟩
    exact ⟨fun i _ _ => ⟨Option.some_ne_none _, rfl⟩, rfl, rfl⟩
  exact ⟨_, hreach, by decide +kernel, by decide +kernel, resize_forgets_nothing hreach⟩

/-- From 2 TiB to 1 TiB and back to 1.5 TiB: the last step takes the size for one that is covered, and records it as
the greatest one. -/
def shrinkGrow : List Action := [.resize allWritten (2 ^ 40), .resize allWritten (2 ^ 40 + 2 ^ 39)]

theorem shrinkGrow_forgets : ∃ d d' : Tdisk, system.Reachable d ∧ d.raw.tdiskMaxSize < d.everSize ∧
    exec d .reload = some d' ∧ d'.tableIndexMax = 2 ∧ d.allocated = 3 ∧ ¬Remembers d := by
  have hstep : ∀ {d : Tdisk} {a}, (exec d a).isSome → system.step d a (System.runOf exec d a) :=
    fun h => System.exec_runOf h
  have hreach : system.Reachable (shrinkGrow.foldl (System.runOf exec) (newDisk (2 ^ 41))) :=
    .foldl hstep (.init (initial_newDisk (by decide) (by decide))) ⟨rfl, rfl, trivial⟩
  have hsmall : (shrinkGrow.foldl (System.runOf exec) (newDisk (2 ^ 41))).raw.tdiskMaxSize <
      (shrinkGrow.foldl (System.runOf exec) (newDisk (2 ^ 41))).everSize := by decide +kernel
  exact ⟨_, _, hreach, hsmall, System.exec_runOf (by decide +kernel), by decide +kernel, by decide +kernel,
    fun h => absurd h.maxSize (Nat.not_le_of_lt hsmall)⟩

theorem resizeIndex_unrecorded (io : Io) (hgrow : d.endLba * 2 ^ d.lbaShift < size) :
    let r := resizeIndex { io with index := false } d size
    r.1 = -1 ∧ r.2.raw = d.raw ∧ r.2.endLba = d.endLba := by
  simp only [resizeIndex, if_pos hgrow, tdiskReinitializeIndex, Bool.and_false, Bool.false_eq_true, if_false]
  split_ifs <;> exact ⟨rfl, rfl, rfl⟩

/-- Where the index page cannot be written, a request has no effect just if it is refused on a slave, or asks for more.
-/
theorem unrecorded_resize_iff (io : Io) (p : Peers) (d : Tdisk) (inResize : Bool) (size : Nat) :
    NoEffect d inResize (targetResizeDisk { io with index := false } p d inResize size) ↔
      p.slave = true ∨ d.endLba * 2 ^ d.lbaShift < size := by
  unfold targetResizeDisk
  split_ifs with hslave
  · exact iff_of_true (by constructor <;> simp) (.inl hslave)
  by_cases hgrow : d.endLba * 2 ^ d.lbaShift < size
  · refine iff_of_true ?_ (.inr hgrow)
    obtain ⟨hret, hraw, hend⟩ := resizeIndex_unrecorded io hgrow
    constructor <;> simp [hret, hraw, hend, hgrow]
  · refine iff_of_false (fun h => h.failed ?_) (by simp [hslave, hgrow])
    simp [resizeIndex, hgrow, tdiskUpdatePeers]

def eightBlocks : Tdisk := ⟨⟨8 * 4096, 0, fun _ => 0⟩, 12, 8, 1, 1, fun _ => none, 8 * 4096, 1⟩

theorem unrecorded_shrink_reported :
    let o := targetResizeDisk ⟨fun _ => ⟨none, by simp, true⟩, true, false⟩ ⟨true, true, false⟩ eightBlocks false (4 * 4096)
    o.retval = 0 ∧ o.disk.endLba = 8 ∧ o.inResize = true ∧ o.mirrorEndLba = some 4 ∧ ¬NoEffect eightBlocks false o :=
  ⟨rfl, rfl, rfl, rfl, fun h => h.failed rfl⟩

end QuadStor.Resize
