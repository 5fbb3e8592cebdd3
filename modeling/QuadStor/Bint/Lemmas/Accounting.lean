import Mathlib.Algebra.BigOperators.Intervals
import Mathlib.Algebra.BigOperators.Ring.Finset
import Mathlib.Algebra.Order.BigOperators.Group.Finset
import Mathlib.Tactic.Ring
import QuadStor.Bint.Disk
import QuadStor.Bint.Lemmas.Loops

/-!
# Counting referenced entries
-/

namespace QuadStor.Bint

open Lib Finset Function

theorem sum_range_update {f : Nat → Int} {n i : Nat} (hi : i < n) (v : Int) :
    ∑ j ∈ range n, update f i v j = ∑ j ∈ range n, f j + (v - f i) := by
  have hmem := mem_range.mpr hi
  rw [sum_update_of_mem hmem, ← add_sum_erase _ f hmem, sdiff_singleton_eq_erase]
  omega

def live (val : Nat) : Int := if refsOf val = 0 then 0 else 1

def referenced (bmap : Nat → Nat) : Int := ∑ i ∈ range bmapEntries, live (bmap i)

def zeroRefs (bmap : Nat → Nat) : Nat := #{i ∈ range bmapEntries | refsOf (bmap i) = 0}

def Clean (bmap : Nat → Nat) : Prop := ∀ i < bmapEntries, bmap i = 0 ↔ refsOf (bmap i) = 0

variable {bmap bmap' : Nat → Nat} {x x' : Index} {n i v count start metaShift nodeBlock entry : Nat} {d e : Int}
  {enableVerify : Bool}

theorem live_eq_zero (h : refsOf v = 0) : live v = 0 := if_pos h

theorem live_eq_one (h : refsOf v ≠ 0) : live v = 1 := if_neg h

theorem zeroRefs_add_referenced (bmap : Nat → Nat) : (zeroRefs bmap : Int) + referenced bmap = bmapEntries := by
  unfold zeroRefs referenced live
  rw [card_filter, Nat.cast_sum, ← sum_add_distrib]
  have hone : ∀ i ∈ range bmapEntries, ((if refsOf (bmap i) = 0 then 1 else 0 : Nat) : Int) +
        (if refsOf (bmap i) = 0 then 0 else 1) = 1 := by
    intro i _
    split_ifs <;> rfl
  rw [sum_congr rfl hone]
  simp

theorem referenced_congr (h : ∀ i < bmapEntries, refsOf (bmap' i) = 0 ↔ refsOf (bmap i) = 0) :
    referenced bmap' = referenced bmap := by
  refine sum_congr rfl fun i hi => ?_
  unfold live
  rw [if_congr (h i (mem_range.mp hi)) rfl rfl]

theorem referenced_update (hi : i < bmapEntries) (v : Nat) :
    referenced (update bmap i v) = referenced bmap + (live v - live (bmap i)) := by
  unfold referenced
  simp only [apply_update fun _ => live]
  exact sum_range_update hi _

theorem Clean.update (h : Clean bmap) (hv : v = 0 ↔ refsOf v = 0) : Clean (update bmap i v) := by
  exact (forall_update_iff bmap fun j v => j < bmapEntries → (v = 0 ↔ refsOf v = 0)).2 ⟨fun _ => hv, fun j _ => h j⟩

theorem referenced_markLoop (hn : i + n ≤ bmapEntries) (hz : ∀ j, i ≤ j → j < i + n → bmap j = 0) :
    referenced (markLoop bmap n i) = referenced bmap + n := by
  induction n generalizing bmap i with
  | zero => simp [markLoop]
  | succ n ih =>
    have hz' : ∀ j, i + 1 ≤ j → j < i + 1 + n → update bmap i 1 j = 0 := by
      intro j h₁ h₂
      rw [update_of_ne (by omega)]
      exact hz j (by omega) (by omega)
    rw [markLoop, ih (by omega) hz', referenced_update (by omega),
      hz i le_rfl (by omega), live_eq_one (by decide), live_eq_zero rfl]
    omega

theorem Clean.markLoop (h : Clean bmap) : Clean (markLoop bmap n i) := by
  intro j hj
  rw [markLoop_apply]
  split_ifs
  · decide
  · exact h j hj

structure Index.Exact (x : Index) : Prop where
  clean : Clean x.bmap
  freeBlocks : x.loadDone = true → x.freeBlocks = zeroRefs x.bmap

def Takes (x x' : Index) (d : Int) : Prop :=
  x.Exact → x'.Exact ∧ referenced x'.bmap = referenced x.bmap + d

theorem Takes.trans {x'' : Index} (h : Takes x x' d) (h' : Takes x' x'' e) : Takes x x'' (d + e) := by
  intro hx
  obtain ⟨hx', hd⟩ := h hx
  obtain ⟨hx'', he⟩ := h' hx'
  exact ⟨hx'', by rw [he, hd, add_assoc]⟩

theorem Takes.of_loadDone_false (hclean : Clean x.bmap → Clean x'.bmap) (hload : x'.loadDone = false)
    (hd : Clean x.bmap → referenced x'.bmap = referenced x.bmap + d) : Takes x x' d := by
  intro hx
  exact ⟨⟨hclean hx.clean, fun h => by simp [hload] at h⟩, hd hx.clean⟩

section

variable (hload : x'.loadDone = x.loadDone)
include hload

theorem Takes.of_freeBlocks (hclean : Clean x.bmap → Clean x'.bmap)
    (hd : referenced x'.bmap = referenced x.bmap + d) (hfree : (x.freeBlocks : Int) + referenced x.bmap = bmapEntries →
      (x'.freeBlocks : Int) = x.freeBlocks - d) : Takes x x' d := by
  intro hx
  refine ⟨⟨hclean hx.clean, ?_⟩, hd⟩
  intro hl
  rw [hload] at hl
  have hold := zeroRefs_add_referenced x.bmap
  have hnew := zeroRefs_add_referenced x'.bmap
  rw [← hx.freeBlocks hl] at hold
  omega

theorem Takes.same (hfree : x'.freeBlocks = x.freeBlocks)
    (hclean : Clean x.bmap → Clean x'.bmap) (hd : referenced x'.bmap = referenced x.bmap) : Takes x x' 0 :=
  .of_freeBlocks hload hclean (by rw [hd, add_zero]) fun _ => by rw [hfree, sub_zero]

theorem Takes.of_refs (hfree : x'.freeBlocks = x.freeBlocks)
    (h : ∀ j, x'.bmap j = x.bmap j ∨ refsOf (x'.bmap j) ≠ 0 ∧ refsOf (x.bmap j) ≠ 0) : Takes x x' 0 := by
  refine .same hload hfree ?_ (referenced_congr fun j _ => ?_)
  · intro hc j hj
    rcases h j with heq | ⟨hne, -⟩
    · rw [heq]
      exact hc j hj
    · refine iff_of_false ?_ hne
      intro hzero
      exact hne (by rw [hzero]; rfl)
  · rcases h j with heq | ⟨hne, hne'⟩
    · rw [heq]
    · exact iff_of_false hne hne'

end

theorem referenced_nonneg (bmap : Nat → Nat) : 0 ≤ referenced bmap := by
  refine sum_nonneg fun i _ => ?_
  unfold live
  split_ifs <;> decide

theorem Takes.refl : Takes x x 0 := .same rfl rfl id rfl

theorem takes_checkIdx (c : Nat) : Takes x { x with checkIdx := c } 0 :=
  .same rfl rfl id rfl

theorem takes_indexMarkBlocks (hend : start + count ≤ bmapEntries)
    (hz : ∀ j, start ≤ j → j < start + count → x.bmap j = 0) : Takes x (indexMarkBlocks x start count) count := by
  have hd : referenced (indexMarkBlocks x start count).bmap = referenced x.bmap + count :=
    referenced_markLoop hend hz
  refine .of_freeBlocks rfl Clean.markLoop hd ?_
  intro hold
  -- the counter is a `uint16_t`, and it is large enough: the run was free
  have hnew := zeroRefs_add_referenced (indexMarkBlocks x start count).bmap
  have hle : bmapEntries < 2 ^ 16 := by decide
  have hnonneg := referenced_nonneg x.bmap
  have hfree : u16 (x.freeBlocks + 2 ^ 16 - count) = x.freeBlocks - count := by
    unfold u16
    omega
  show ((u16 (x.freeBlocks + 2 ^ 16 - count) : Nat) : Int) = _
  omega

theorem takes_allocRun_some (h : allocRun x count = (x', some start)) : Takes x x' count := by
  obtain ⟨-, hend, hz, rfl⟩ := allocRun_spec h
  have htrans := (takes_indexMarkBlocks hend hz).trans (takes_checkIdx (start + count))
  rwa [add_zero] at htrans

theorem takes_withRun {w : Nat} (hv : refsOf v ≠ 0) (hw : refsOf w ≠ 0)
    (hrun : ∀ j, start ≤ j → j < start + count → x.bmap j = v) : Takes x (x.withRun start count w) 0 := by
  refine .of_refs rfl rfl fun j => ?_
  by_cases hj : start ≤ j ∧ j < start + count
  · right
    rw [hrun j hj.1 hj.2]
    exact ⟨by simpa [Index.withRun, hj] using hw, hv⟩
  · left
    simp [Index.withRun, hj]

def takenBy (metaShift : Nat) (placed : List Placed) : Nat :=
  ((placed.filter fun p => !p.duplicate).map fun p => p.size / 2 ^ metaShift).sum

theorem takenBy_append (metaShift : Nat) (p q : List Placed) :
    takenBy metaShift (p ++ q) = takenBy metaShift p + takenBy metaShift q := by
  simp [takenBy]

theorem takenBy_duplicates {p : List Placed} (h : ∀ q ∈ p, q.duplicate = true) : takenBy metaShift p = 0 := by
  have hnil : p.filter (fun q => !q.duplicate) = [] := by
    rw [List.filter_eq_nil_iff]
    intro q hq
    simp [h q hq]
  simp [takenBy, hnil]

theorem takes_round {y z : Index} {pgdata : Pgdata} {pages left : List Pgdata}
    {dups : List Placed} (halloc : allocRun x (writeSizeFor metaShift pgdata / 2 ^ metaShift) = (y, some start))
    (hdups : bintPgdataScanDuplicates enableVerify pgdata start (writeSizeFor metaShift pgdata / 2 ^ metaShift)
      (writeSizeFor metaShift pgdata) y pages = (z, dups, left)) :
    Takes x z (takenBy metaShift (⟨pgdata, start, writeSizeFor metaShift pgdata, false⟩ :: dups)) := by
  obtain ⟨hone, -, ⟨hle, rfl, hp, -⟩, -⟩ := allocRound_spec halloc hdups
  have hlen : refsOf (1 + dups.length) ≠ 0 := by
    rw [refsOf_of_le hle]
    omega
  have hround := (takes_allocRun_some halloc).trans (takes_withRun (w := 1 + dups.length) (by decide) hlen hone)
  have htaken := takenBy_append metaShift [⟨pgdata, start, writeSizeFor metaShift pgdata, false⟩] dups
  rw [takenBy_duplicates fun q hq => (hp q hq).2.2, List.singleton_append] at htaken
  rw [htaken]
  simpa [takenBy] using hround

theorem takes_allocForPgdataLoop {fuel : Nat} {pages left : List Pgdata} {placed : List Placed}
    (h : allocForPgdataLoop metaShift enableVerify fuel x pages = (x', placed, left)) :
    Takes x x' (takenBy metaShift placed) := by
  refine allocForPgdataLoop_rounds (P := fun x _ x' placed _ => Takes x x' (takenBy metaShift placed))
    (fun _ c _ => takes_checkIdx c) takes_round (fun h h' => ?_) h
  rw [takenBy_append, Nat.cast_add]
  exact h.trans h'

theorem takes_bintRefBlock {e : Option RefError}
    (h : bintRefBlock x entry count nodeBlock = (x', e)) : Takes x x' 0 := by
  cases e with
  | some e =>
    rw [bintRefBlock_error h]
    exact .refl
  | none =>
    obtain ⟨bmap, rfl, -, hrange, hval⟩ := bintRefBlock_ok h
    refine .of_refs rfl rfl fun j => ?_
    by_cases hj : entry ≤ j ∧ j < entry + count
    · right
      obtain ⟨hr, hne, hmax⟩ := hrange j hj.1 hj.2
      have hlt := refsOf_lt (x.bmap entry)
      unfold maxRefs at hmax
      refine ⟨?_, hr ▸ hne⟩
      show refsOf (bmap j) ≠ 0
      rw [hval j, if_pos hj, refsOf_bmapVal (by omega)]
      omega
    · left
      exact (hval j).trans (if_neg hj)

theorem takes_set (hold : refsOf (x.bmap i) ≠ 0) (hv : refsOf v ≠ 0) : Takes x (x.set i v) 0 := by
  refine .of_refs rfl rfl fun j => ?_
  by_cases hj : j = i
  · subst hj
    exact .inr ⟨by simpa [Index.set] using hv, hold⟩
  · exact .inl (update_of_ne hj _ _)

theorem takes_bdevSetNodeBlock (hx : x.Exact) (hentry : entry < bmapEntries)
    (h : bdevSetNodeBlock x entry nodeBlock = some x') : Takes x x' 0 := by
  unfold bdevSetNodeBlock at h
  split_ifs at h with hval hnode
  cases h
  have hrefs : refsOf (x.bmap entry) ≠ 0 := fun h => hval ((hx.clean entry hentry).mpr h)
  exact takes_set hrefs (by rwa [refsOf_bmapVal (refsOf_lt _)])

/-! ## Freeing, replaying and loading -/

theorem takes_freeLoop {oldRefs given given' : Nat} {finished : Bool} (hend : i + n ≤ bmapEntries)
    (h : freeLoop oldRefs n i x given = (x', given', finished)) : Takes x x' ((given : Int) - given') := by
  induction n generalizing i x given with
  | zero =>
    cases h
    rw [sub_self]
    exact .refl
  | succ n ih =>
    rw [freeLoop] at h
    split_ifs at h with hstop hone
    · cases h
      rw [sub_self]
      exact .refl
    · -- the last reference: the entry is cleared and given back
      have hrefs : refsOf (x.bmap i) ≠ 0 := by omega
      have hset : Takes x { x.set i 0 with freeBlocks := u16 (x.freeBlocks + 1) } (-1) := by
        refine .of_freeBlocks rfl (fun hc => hc.update (by decide)) ?_ ?_
        · show referenced (update x.bmap i 0) = _
          rw [referenced_update (by omega), live_eq_one hrefs, live_eq_zero rfl]
          rfl
        · intro hfree
          have hnonneg := referenced_nonneg x.bmap
          have hlt : bmapEntries + 1 < 2 ^ 16 := by decide
          have hu : u16 (x.freeBlocks + 1) = x.freeBlocks + 1 := by
            unfold u16
            omega
          show ((u16 (x.freeBlocks + 1) : Nat) : Int) = _
          omega
      have htrans := hset.trans (ih (by omega) h)
      have hsum : -1 + (((given + 1 : Nat) : Int) - given') = (given : Int) - given' := by omega
      rwa [hsum] at htrans
    · have hlt := refsOf_lt (x.bmap i)
      have hset : Takes x (x.set i (bmapVal (nodeOf (x.bmap i)) (refsOf (x.bmap i) - 1))) 0 :=
        takes_set (by omega) (by rw [refsOf_bmapVal (by omega)]; omega)
      have htrans := hset.trans (ih (by omega) h)
      rwa [zero_add] at htrans

theorem replayLoop_referenced {isMeta : Bool} {taken taken' : Nat} (hend : i + n ≤ bmapEntries)
    (h : replayLoop isMeta n i x taken = (x', taken')) (hc : Clean x.bmap) :
    Clean x'.bmap ∧ referenced x'.bmap + taken = referenced x.bmap + taken' := by
  induction n generalizing i x taken with
  | zero =>
    cases h
    exact ⟨hc, rfl⟩
  | succ n ih =>
    rw [replayLoop] at h
    split_ifs at h with hskip hzero
    · exact ih (by omega) h hc
    · have hval : x.bmap i = 0 := (hc i (by omega)).mpr hzero
      rw [hzero] at h
      obtain ⟨hc', hsum⟩ := ih (by omega) h (hc.update (by decide))
      simp only [Index.set] at hsum
      rw [referenced_update (by omega), hval, live_eq_one (by decide), live_eq_zero rfl] at hsum
      exact ⟨hc', by omega⟩
    · have hlt := refsOf_lt (x.bmap i)
      have hmax : refsOf (x.bmap i) ≠ maxRefs := fun h => hskip (.inl h)
      have hsucc : refsOf (refsOf (x.bmap i) + 1) = refsOf (x.bmap i) + 1 := by
        unfold maxRefs at hmax
        exact refsOf_of_le (by unfold maxRefs; omega)
      have hne : refsOf (refsOf (x.bmap i) + 1) ≠ 0 := by omega
      have hiff : refsOf (x.bmap i) + 1 = 0 ↔ refsOf (refsOf (x.bmap i) + 1) = 0 :=
        iff_of_false (by omega) hne
      obtain ⟨hc', hsum⟩ := ih (by omega) h (hc.update hiff)
      simp only [Index.set] at hsum
      rw [referenced_update (by omega), live_eq_one hne, live_eq_one hzero] at hsum
      exact ⟨hc', by omega⟩

theorem loadScan_referenced (free chk : Nat) (hc : ∀ j, i ≤ j → j < i + n → (bmap j = 0 ↔ refsOf (bmap j) = 0)) :
    ((loadScan bmap n i free chk).1 : Int) + ∑ j ∈ Ico i (i + n), live (bmap j) = free + n := by
  induction n generalizing i free chk with
  | zero => simp [loadScan]
  | succ n ih =>
    have hrest : ∀ j, i + 1 ≤ j → j < i + 1 + n → (bmap j = 0 ↔ refsOf (bmap j) = 0) :=
      fun j h₁ h₂ => hc j (by omega) (by omega)
    have hi := hc i le_rfl (by omega)
    have hsucc : i + (n + 1) = i + 1 + n := by omega
    rw [loadScan, sum_eq_sum_Ico_succ_bot (by omega), hsucc]
    split_ifs with hval hlt
    · rw [live_eq_one (fun h => hval (hi.mpr h))]
      have := ih free chk hrest
      omega
    all_goals
      rw [live_eq_zero (hi.mp (not_not.mp hval))]
    · have := ih (free + 1) i hrest
      omega
    · have := ih (free + 1) chk hrest
      omega

theorem takes_indexCheckLoad : Takes x (indexCheckLoad x) 0 := by
  unfold indexCheckLoad
  split_ifs
  · exact .refl
  · exact .refl
  · intro hx
    refine ⟨⟨hx.clean, fun _ => ?_⟩, by simp⟩
    have hclean : ∀ j, 0 ≤ j → j < 0 + bmapEntries → (x.bmap j = 0 ↔ refsOf (x.bmap j) = 0) :=
      fun j _ hj => hx.clean j (by omega)
    have hscan := loadScan_referenced 0 bmapEntries hclean
    have hsum := zeroRefs_add_referenced x.bmap
    unfold referenced at hsum
    rw [zero_add, ← range_eq_Ico] at hscan
    show (loadScan x.bmap bmapEntries 0 0 bmapEntries).1 = zeroRefs x.bmap
    omega

def referencedBytes (c : Config) (b : Bdevint) : Int :=
  (∑ id ∈ range c.maxIndexes, referenced (b.index id).bmap) * 2 ^ c.metaShift

structure Bdevint.Exact (c : Config) (b : Bdevint) : Prop where
  index : ∀ id < c.maxIndexes, (b.index id).Exact
  free : b.free + referencedBytes c b = c.usize

variable {c : Config} {b : Bdevint} {id : Nat}

theorem Bdevint.Exact.take (h : b.Exact c) (hid : id < c.maxIndexes) (hx : Takes (b.index id) x' d) :
    Bdevint.Exact c ⟨update b.index id x', b.free - d * 2 ^ c.metaShift⟩ := by
  obtain ⟨hexact, href⟩ := hx (h.index id hid)
  constructor
  · exact (forall_update_iff b.index fun j x => j < c.maxIndexes → x.Exact).2 ⟨fun _ => hexact, fun j _ => h.index j⟩
  · have hcomp := apply_update (fun _ x => referenced x.bmap) b.index id x'
    have hfree := h.free
    unfold referencedBytes at hfree ⊢
    simp only [hcomp]
    rw [sum_range_update hid, href, ← hfree]
    ring

theorem takes_run {a : Action} (hx : x.Exact) (ha : a.InBitmap c) : Takes x (a.run c x).1 (a.run c x).2 := by
  cases a with
  | allocBlock id size =>
    unfold Action.run bintAllocBlock
    dsimp only
    split
    · rename_i x₁ start halloc
      exact takes_allocRun_some halloc
    · rename_i x₁ halloc
      rw [allocRun_none halloc]
      exact takes_checkIdx _
  | allocForPgdata id enableVerify pages => exact takes_allocForPgdataLoop rfl
  | refBlock id entry size nodeBlock => exact takes_bintRefBlock rfl
  | setNodeBlock id entry nodeBlock =>
    unfold Action.run
    dsimp only
    cases hset : bdevSetNodeBlock x entry nodeBlock with
    | none => exact .refl
    | some x₁ => exact takes_bdevSetNodeBlock hx ha hset
  | freeBlock id entry size =>
    generalize hloop : freeLoop (refsOf (x.bmap entry)) (size / 2 ^ c.metaShift) entry x 0 = r
    simpa [Action.run, bintFreeBlock, hloop] using takes_freeLoop ha hloop
  | logReplay id entry size isMeta =>
    generalize hloop : replayLoop isMeta (size / 2 ^ c.metaShift) entry x 0 = r
    have hreplay := replayLoop_referenced ha hloop
    simp only [Action.run, bintLogReplay, hloop]
    refine .of_loadDone_false (fun hc => (hreplay hc).1) rfl fun hc => ?_
    simpa using (hreplay hc).2
  | checkLoad id => exact takes_indexCheckLoad
  | clearLoad id => exact .of_loadDone_false (fun hc => hc) rfl fun _ => (add_zero _).symm
  | unmapBlocks id unmapSupported =>
    unfold Action.run bintUnmapBlocks
    dsimp only
    split_ifs
    · exact .refl
    · exact takes_checkIdx 0
    · exact .refl

theorem Bdevint.Exact.step {a : Action} {b' : Bdevint} (h : b.Exact c)
    (hstep : (system c).step b a b') : b'.Exact c := by
  obtain ⟨hid, hin, rfl⟩ := hstep
  exact h.take hid (takes_run (h.index _ hid) hin)

theorem Bdevint.Exact.initializeLoop {reservedBlocks : Nat} (h : b.Exact c)
    (hnew : ∀ j, id ≤ j → b.index j = Index.new) (hn : id + n ≤ c.maxIndexes) :
    (initializeLoop c n id reservedBlocks b).Exact c := by
  induction n generalizing b id reservedBlocks with
  | zero => exact h
  | succ n ih =>
    have htodo : reservedBlocks - (reservedBlocks - min reservedBlocks bmapEntries) =
        min reservedBlocks bmapEntries := by omega
    have hmark : Takes (b.index id) (bintIndexMarkReserved Index.new reservedBlocks).1
        (min reservedBlocks bmapEntries : Nat) := by
      rw [hnew id le_rfl]
      exact takes_indexMarkBlocks (by omega) fun _ _ _ => rfl
    have htake := h.take (by omega) hmark
    refine ih ?_ ?_ (by omega)
    · simpa [bintIndexMarkReserved, htodo] using htake
    · intro j hj
      have hne : j ≠ id := by omega
      simpa [hne] using hnew j (by omega)

theorem Bdevint.Exact.new (c : Config) : (Bdevint.new c).Exact c := by
  have hzero : referenced Index.new.bmap = 0 := sum_eq_zero fun _ _ => live_eq_zero rfl
  have hcount := zeroRefs_add_referenced Index.new.bmap
  have hexact : Index.new.Exact := by
    refine ⟨fun i _ => Iff.rfl, fun _ => ?_⟩
    show bmapEntries = _
    omega
  refine .initializeLoop ⟨fun id _ => hexact, ?_⟩ (fun _ _ => rfl) (by omega)
  simp [referencedBytes, hzero]

end QuadStor.Bint
