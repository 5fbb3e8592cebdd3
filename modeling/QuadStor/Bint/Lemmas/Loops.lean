import QuadStor.Bint.Index

/-!
# What the loops over the bitmap compute
-/

namespace QuadStor.Bint

open Lib Function

variable {bmap : Nat → Nat} {x x' : Index} {n i j v count start entry nodeBlock size oldRefs refs node s e : Nat}
  {pages left : List Pgdata} {placed : List Placed} {enableVerify : Bool} {pgdata : Pgdata}

theorem maxRefs_lt : maxRefs < 2 ^ 13 := by decide

@[simp] theorem refsOf_bmapVal (h : refs < 2 ^ 13) : refsOf (bmapVal node refs) = refs := by
  unfold refsOf bmapVal
  omega

@[simp] theorem nodeOf_bmapVal (h : refs < 2 ^ 13) : nodeOf (bmapVal node refs) = node := by
  unfold nodeOf bmapVal
  omega

theorem bmapVal_nodeOf_refsOf (v : Nat) : bmapVal (nodeOf v) (refsOf v) = v := by
  unfold bmapVal nodeOf refsOf
  omega

theorem refsOf_lt (v : Nat) : refsOf v < 2 ^ 13 := Nat.mod_lt _ (by decide)

theorem refsOf_of_le (h : v ≤ maxRefs) : refsOf v = v :=
  Nat.mod_eq_of_lt (Nat.lt_of_le_of_lt h maxRefs_lt)

@[simp] theorem refsOf_zero : refsOf 0 = 0 := rfl

theorem nodeOf_of_le (h : v ≤ maxRefs) : nodeOf v = 0 :=
  Nat.div_eq_of_lt (Nat.lt_of_le_of_lt h maxRefs_lt)

theorem ite_update_run {f : Nat → Nat} {e' : Nat} (hi : i < e) (he : e' = e) :
    (if i + 1 ≤ j ∧ j < e' then f (update bmap i (f (bmap i)) j) else update bmap i (f (bmap i)) j) =
      if i ≤ j ∧ j < e then f (bmap j) else bmap j := by
  by_cases hj : j = i
  · subst hj
    rw [if_neg (by omega), if_pos (by omega), update_self]
  · rw [update_of_ne hj]
    split_ifs <;> first | rfl | omega

theorem markLoop_apply : markLoop bmap n i j = if i ≤ j ∧ j < i + n then 1 else bmap j := by
  induction n generalizing bmap i with
  | zero =>
    rw [if_neg (by omega)]
    rfl
  | succ n ih =>
    rw [markLoop, ih]
    exact ite_update_run (f := fun _ => 1) (by omega) (by omega)

theorem refLoop_const (h : ∀ j, i ≤ j → j < i + n → bmap j = v) (hv : v ≠ maxRefs) :
    refLoop bmap n i = (fun j => if i ≤ j ∧ j < i + n then v + 1 else bmap j, true) := by
  induction n generalizing bmap i with
  | zero =>
    simp only [refLoop, Prod.mk.injEq, and_true]
    funext j
    rw [if_neg (by omega)]
  | succ n ih =>
    have hi : bmap i = v := h i le_rfl (by omega)
    rw [refLoop, hi, if_neg hv, ih]
    · simp only [Prod.mk.injEq, and_true]
      funext j
      exact ite_update_run (f := fun _ => v + 1) (by omega) (by omega)
    · intro j hij hjn
      rw [update_of_ne (by omega)]
      exact h j (by omega) (by omega)

theorem refLoop_full (h : bmap i = maxRefs) : refLoop bmap (n + 1) i = (bmap, false) := by
  rw [refLoop, if_pos h]

theorem allocScan_spec {done : Nat} (hdone : done ≤ i) (hz : ∀ j, i - done ≤ j → j < i → bmap j = 0)
    (h : allocScan bmap count n i done = some s) : 0 < count ∧ i ≤ s + done ∧ s + count ≤ i + n ∧
      ∀ j, s ≤ j → j < s + count → bmap j = 0 := by
  induction n generalizing i done with
  | zero => cases h
  | succ n ih =>
    rw [allocScan] at h
    split at h
    · obtain ⟨hc, hs, hend, hzero⟩ := ih (Nat.zero_le _) (by intro j h₁ h₂; omega) h
      exact ⟨hc, by omega, by omega, hzero⟩
    · rename_i hval
      have hval : bmap i = 0 := not_not.mp hval
      split at h
      · cases h
        refine ⟨by omega, by omega, by omega, ?_⟩
        intro j hsj hj
        by_cases hji : j = i
        · rw [hji]; exact hval
        · exact hz j hsj (by omega)
      · have hz' : ∀ j, i + 1 - (done + 1) ≤ j → j < i + 1 → bmap j = 0 := by
          intro j h₁ h₂
          by_cases hji : j = i
          · rw [hji]; exact hval
          · exact hz j (by omega) (by omega)
        obtain ⟨hc, hs, hend, hzero⟩ := ih (by omega) hz' h
        exact ⟨hc, by omega, by omega, hzero⟩

theorem allocScan_le {done : Nat} (hdone : done < count) (hi : i ≤ s + done) (hend : s + count ≤ i + n)
    (hz : ∀ j, s ≤ j → j < s + count → bmap j = 0) : ∃ s' ≤ s, allocScan bmap count n i done = some s' := by
  induction n generalizing i done with
  | zero => omega
  | succ n ih =>
    rw [allocScan]
    split_ifs with hval hcount
    · -- the run is behind the entry that is in use
      have hout : ¬(s ≤ i ∧ i < s + count) := fun hin => hval (hz i hin.1 hin.2)
      exact ih (by omega) (by omega) (by omega)
    · exact ⟨i - done, by omega, rfl⟩
    · exact ih (by omega) (by omega) (by omega)

theorem allocRun_spec (h : allocRun x count = (x', some s)) : 0 < count ∧ s + count ≤ bmapEntries ∧
      (∀ j, s ≤ j → j < s + count → x.bmap j = 0) ∧
      x' = { indexMarkBlocks x s count with checkIdx := s + count } := by
  unfold allocRun at h
  split at h
  · cases h
  · rename_i start hscan
    cases h
    obtain ⟨hc, hs, hend, hz⟩ := allocScan_spec (Nat.zero_le _) (by intro j h₁ h₂; omega) hscan
    refine ⟨hc, ?_, hz, rfl⟩
    by_cases hchk : x.checkIdx ≤ bmapEntries
    · omega
    · have hn : bmapEntries - x.checkIdx = 0 := by omega
      rw [hn, allocScan] at hscan
      cases hscan

theorem allocRun_none (h : allocRun x count = (x', none)) : x' = { x with checkIdx := bmapEntries } := by
  unfold allocRun at h
  split at h
  · cases h; rfl
  · cases h

/-! ## Taking a reference -/

theorem refBlockLoop_spec {bmap' : Nat → Nat} {r : Option (RefError × Nat)}
    (h : refBlockLoop oldRefs bmap n i = (bmap', r)) (he : (r.map Prod.snd).getD (i + n) = e) :
    i ≤ e ∧ (∀ j, i ≤ j → j < e → refsOf (bmap j) = oldRefs ∧ oldRefs ≠ 0 ∧ oldRefs ≠ maxRefs) ∧
    ∀ j, bmap' j = if i ≤ j ∧ j < e then bmapVal (nodeOf (bmap j)) (oldRefs + 1) else bmap j := by
  induction n generalizing bmap i with
  | zero =>
    cases h
    obtain rfl : i = e := he
    exact ⟨le_rfl, fun j h₁ h₂ => by omega, fun j => (if_neg (by omega)).symm⟩
  | succ n ih =>
    rw [refBlockLoop] at h
    split_ifs at h with h₀ h₁ h₂
    iterate 3
      · cases h
        obtain rfl : i = e := he
        exact ⟨le_rfl, fun j h₁ h₂ => by omega, fun j => (if_neg (by omega)).symm⟩
    · obtain ⟨hie, hrange, hval⟩ := ih h (Nat.add_right_comm i 1 n ▸ he)
      have hold := not_not.mp h₁
      rw [hold] at hval
      refine ⟨by omega, fun j hij hje => ?_, fun j => ?_⟩
      · by_cases hj : j = i
        · subst hj
          exact ⟨hold, hold ▸ h₀, hold ▸ h₂⟩
        · have := hrange j (by omega) hje
          rwa [update_of_ne hj] at this
      · rw [hval j]
        exact ite_update_run (f := fun v => bmapVal (nodeOf v) (oldRefs + 1)) hie rfl

theorem unrefLoop_apply : unrefLoop bmap n i j =
      if i ≤ j ∧ j < i + n then bmapVal (nodeOf (bmap j)) (refsOf (bmap j) - 1) else bmap j := by
  induction n generalizing bmap i with
  | zero =>
    rw [if_neg (by omega)]
    rfl
  | succ n ih =>
    rw [unrefLoop, ih]
    exact ite_update_run (f := fun v => bmapVal (nodeOf v) (refsOf v - 1)) (by omega) (by omega)

theorem bintRefBlock_error {err : RefError} (h : bintRefBlock x entry count nodeBlock = (x', some err)) : x' = x := by
  unfold bintRefBlock at h
  split at h
  · cases h; rfl
  · split at h
    · cases h
    · rename_i bmap e i hloop
      cases h
      obtain ⟨hie, hrange, hval⟩ := refBlockLoop_spec (e := i) hloop rfl
      have hb : unrefLoop bmap (i - entry) entry = x.bmap := by
        funext j
        rw [unrefLoop_apply, hval j]
        by_cases hj : entry ≤ j ∧ j < i
        · obtain ⟨hr, -, hm⟩ := hrange j hj.1 hj.2
          have hlt := refsOf_lt (x.bmap j)
          have hsucc : refsOf (x.bmap entry) + 1 < 2 ^ 13 := by
            unfold maxRefs at hm
            omega
          rw [if_pos (by omega), if_pos hj, refsOf_bmapVal hsucc, nodeOf_bmapVal hsucc, Nat.add_sub_cancel, ← hr]
          exact bmapVal_nodeOf_refsOf _
        · rw [if_neg (by omega), if_neg hj]
      rw [hb]

theorem bintRefBlock_ok (h : bintRefBlock x entry count nodeBlock = (x', none)) : ∃ bmap, x' = { x with bmap } ∧
      (0 < count → nodeBlock ≠ 0 → nodeOf (x.bmap entry) = nodeBlock) ∧
      (∀ j, entry ≤ j → j < entry + count → refsOf (x.bmap j) = refsOf (x.bmap entry) ∧ refsOf (x.bmap entry) ≠ 0 ∧
          refsOf (x.bmap entry) ≠ maxRefs) ∧
      ∀ j, bmap j = if entry ≤ j ∧ j < entry + count
        then bmapVal (nodeOf (x.bmap j)) (refsOf (x.bmap entry) + 1) else x.bmap j := by
  unfold bintRefBlock at h
  split at h
  · cases h
  · rename_i hnode
    split at h
    · rename_i bmap hloop
      cases h
      obtain ⟨-, hrange, hval⟩ := refBlockLoop_spec hloop rfl
      refine ⟨bmap, rfl, ?_, hrange, hval⟩
      intro hc hn
      by_contra hne
      exact hnode ⟨hc, hn, hne⟩
    · cases h

theorem bdevSetNodeBlock_some (h : bdevSetNodeBlock x entry nodeBlock = some x') : nodeOf (x.bmap entry) = 0 ∧
      x' = x.set entry (bmapVal nodeBlock (refsOf (x.bmap entry))) := by
  unfold bdevSetNodeBlock at h
  split_ifs at h with hval hnode
  exact ⟨not_not.mp hnode, (Option.some.inj h).symm⟩

theorem refsOf_set_node (j : Nat) :
    refsOf ((x.set entry (bmapVal nodeBlock (refsOf (x.bmap entry)))).bmap j) = refsOf (x.bmap j) := by
  by_cases hj : j = entry
  · subst hj
    simp [Index.set, refsOf_bmapVal (refsOf_lt _)]
  · simp [Index.set, hj]

/-- What is left of an entry after a reference is given back; the last one takes the node block with it. -/
def releaseVal (val : Nat) : Nat :=
  if refsOf val = 1 then 0 else bmapVal (nodeOf val) (refsOf val - 1)

theorem refsOf_releaseVal (val : Nat) : refsOf (releaseVal val) = refsOf val - 1 := by
  have hlt := refsOf_lt val
  unfold releaseVal
  split_ifs with hone
  · rw [hone, refsOf_zero]
  · exact refsOf_bmapVal (by omega)

theorem indexCheckLoad_same : (indexCheckLoad x).bmap = x.bmap ∧ (indexCheckLoad x).writeId = x.writeId ∧
    (indexCheckLoad x).dataError = x.dataError := by
  unfold indexCheckLoad
  split_ifs <;> exact ⟨rfl, rfl, rfl⟩

theorem freeLoop_spec {g : Nat} : (freeLoop v n i x g).1.writeId = x.writeId ∧
    (freeLoop v n i x g).1.dataError = x.dataError ∧
    ∃ e, (i ≤ e ∧ e ≤ i + n) ∧ ((freeLoop v n i x g).2.2 = true ↔ e = i + n) ∧
      (∀ j, i ≤ j → j < e → refsOf (x.bmap j) = v) ∧
      (e < i + n → refsOf (x.bmap e) = 0 ∨ refsOf (x.bmap e) ≠ v) ∧
      ∀ j, (freeLoop v n i x g).1.bmap j = if i ≤ j ∧ j < e then releaseVal (x.bmap j) else x.bmap j := by
  induction n generalizing i x g with
  | zero =>
    exact ⟨rfl, rfl, i, ⟨le_rfl, le_rfl⟩, by simp [freeLoop], fun j h₁ h₂ => by omega, fun h => by omega,
      fun j => (if_neg (by omega)).symm⟩
  | succ n ih =>
    by_cases hstop : refsOf (x.bmap i) = 0 ∨ refsOf (x.bmap i) ≠ v
    · rw [freeLoop, if_pos hstop]
      exact ⟨rfl, rfl, i, ⟨le_rfl, by omega⟩, by simp, fun j h₁ h₂ => by omega, fun _ => hstop,
        fun j => (if_neg (by omega)).symm⟩
    · obtain ⟨y, g₁, heq, hid, herr, hbmap⟩ : ∃ y g₁,
          freeLoop v (n + 1) i x g = freeLoop v n (i + 1) y g₁ ∧
            y.writeId = x.writeId ∧ y.dataError = x.dataError ∧
            y.bmap = update x.bmap i (releaseVal (x.bmap i)) := by
        rw [freeLoop, if_neg hstop, releaseVal]
        split_ifs
        all_goals exact ⟨_, _, rfl, rfl, rfl, rfl⟩
      obtain ⟨hid', herr', e, he, hdone, hrange, hend, hval⟩ := ih (i := i + 1) (x := y) (g := g₁)
      rw [heq]
      refine ⟨hid'.trans hid, herr'.trans herr, e, by omega, by rw [hdone]; omega, fun j h₁ h₂ => ?_, fun h => ?_,
        fun j => ?_⟩
      · by_cases hj : j = i
        · rw [hj]
          exact not_not.mp (not_or.mp hstop).2
        · simpa [hbmap, update_of_ne hj] using hrange j (by omega) h₂
      · have hnext := hend (by omega)
        rwa [hbmap, update_of_ne (by omega)] at hnext
      · rw [hval j, hbmap]
        exact ite_update_run he.1 rfl

theorem freeLoop_const {g : Nat} (hv : v ≠ 0) (h : ∀ j, i ≤ j → j < i + n → refsOf (x.bmap j) = v) :
    (freeLoop v n i x g).2.2 = true ∧
      ∀ j, (freeLoop v n i x g).1.bmap j = if i ≤ j ∧ j < i + n then releaseVal (x.bmap j) else x.bmap j := by
  obtain ⟨-, -, e, he, hdone, -, hend, hval⟩ := freeLoop_spec (v := v) (n := n) (i := i) (x := x) (g := g)
  obtain rfl : e = i + n := by
    by_contra hne
    have hrefs := h e he.1 (by omega)
    have hstop := hend (by omega)
    omega
  exact ⟨hdone.mpr rfl, hval⟩

theorem bintFreeBlock_bmap (hcount : 0 < count) (hv : v ≠ 0)
    (h : ∀ j, entry ≤ j → j < entry + count → refsOf (x.bmap j) = v) (j : Nat) :
    (bintFreeBlock x entry count).index.bmap j =
      if entry ≤ j ∧ j < entry + count then releaseVal (x.bmap j) else x.bmap j := by
  obtain rfl := h entry le_rfl (by omega)
  exact (freeLoop_const hv h).2 j

theorem nodeOf_releaseVal (val : Nat) : nodeOf (releaseVal val) = if refsOf val = 1 then 0 else nodeOf val := by
  have hlt := refsOf_lt val
  unfold releaseVal
  split_ifs
  · rfl
  · exact nodeOf_bmapVal (by omega)

def replayVal (isMeta : Bool) (val : Nat) : Nat :=
  if refsOf val = maxRefs ∨ refsOf val ≠ 0 ∧ isMeta = true then val else refsOf val + 1

theorem replayLoop_spec {isMeta : Bool} {t : Nat} : (replayLoop isMeta n i x t).1.writeId = x.writeId ∧
    (replayLoop isMeta n i x t).1.dataError = x.dataError ∧
    ∀ j, (replayLoop isMeta n i x t).1.bmap j =
      if i ≤ j ∧ j < i + n then replayVal isMeta (x.bmap j) else x.bmap j := by
  induction n generalizing i x t with
  | zero => exact ⟨rfl, rfl, fun j => (if_neg (by omega)).symm⟩
  | succ n ih =>
    obtain ⟨y, t₁, heq, hid, herr, hbmap⟩ : ∃ y t₁,
        replayLoop isMeta (n + 1) i x t = replayLoop isMeta n (i + 1) y t₁ ∧
          y.writeId = x.writeId ∧ y.dataError = x.dataError ∧
          y.bmap = update x.bmap i (replayVal isMeta (x.bmap i)) := by
      rw [replayLoop, replayVal]
      split_ifs
      · exact ⟨x, _, rfl, rfl, rfl, (update_eq_self ..).symm⟩
      all_goals exact ⟨_, _, rfl, rfl, rfl, rfl⟩
    obtain ⟨hid', herr', hval⟩ := ih (i := i + 1) (x := y) (t := t₁)
    rw [heq]
    refine ⟨hid'.trans hid, herr'.trans herr, fun j => ?_⟩
    rw [hval j, hbmap]
    exact ite_update_run (by omega) (by omega)

/-! ## Sharing a fresh run within a batch -/

def Index.withRun (x : Index) (start count v : Nat) : Index :=
  { x with bmap := fun j => if start ≤ j ∧ j < start + count then v else x.bmap j }

theorem Index.withRun_self
    (hrun : ∀ j, start ≤ j → j < start + count → x.bmap j = v) : x.withRun start count v = x := by
  have hb : (fun j => if start ≤ j ∧ j < start + count then v else x.bmap j) = x.bmap := by
    funext j
    split_ifs with hj
    · exact (hrun j hj.1 hj.2).symm
    · rfl
  unfold Index.withRun
  rw [hb]

theorem Index.withRun_withRun {w : Nat} :
    (x.withRun start count v).withRun start count w = x.withRun start count w := by
  unfold Index.withRun
  congr 1
  funext j
  split_ifs with hj
  · rfl
  · exact if_neg hj

theorem indexRefBlocks_full (hcount : 0 < count)
    (hrun : ∀ j, start ≤ j → j < start + count → x.bmap j = maxRefs) : indexRefBlocks x start count = (x, false) := by
  obtain ⟨c, rfl⟩ := Nat.exists_eq_succ_of_ne_zero (Nat.ne_of_gt hcount)
  unfold indexRefBlocks
  rw [refLoop_full (hrun start le_rfl (by omega))]

theorem indexRefBlocks_const (hrun : ∀ j, start ≤ j → j < start + count → x.bmap j = v) (hv : v ≠ maxRefs) :
    indexRefBlocks x start count = (x.withRun start count (v + 1), true) := by
  unfold indexRefBlocks Index.withRun
  rw [refLoop_const hrun hv]

/-- The pages of `placed` were taken out of `pages` for a run whose entries had the value `v`. -/
structure Shared (pgdata : Pgdata) (start count size v : Nat) (x : Index) (pages : List Pgdata) (x' : Index)
    (placed : List Placed) (left : List Pgdata) : Prop where
  le : v + placed.length ≤ maxRefs
  index : x' = x.withRun start count (v + placed.length)
  same : ∀ p ∈ placed, p.start = start ∧ p.size = size ∧ p.duplicate = true
  hash : ∀ p ∈ placed, p.pgdata.hash = pgdata.hash ∧ p.pgdata.dedupeDisabled = false
  perm : (placed.map Placed.pgdata ++ left).Perm pages
  order : left.Sublist pages

theorem Shared.none (hv : v ≤ maxRefs) (hrun : ∀ j, start ≤ j → j < start + count → x.bmap j = v) :
    Shared pgdata start count size v x pages x [] pages :=
  ⟨hv, (Index.withRun_self hrun).symm, nofun, nofun, .refl _, .refl _⟩

theorem Shared.keep {iter : Pgdata} (h : Shared pgdata start count size v x pages x' placed left) :
    Shared pgdata start count size v x (iter :: pages) x' placed (iter :: left) :=
  { h with perm := List.perm_middle.trans (h.perm.cons iter), order := h.order.cons_cons iter }

theorem scanDuplicatesLoop_spec (hcount : 0 < count) (hv : v ≤ maxRefs)
    (hrun : ∀ j, start ≤ j → j < start + count → x.bmap j = v)
    (h : scanDuplicatesLoop pgdata start count size x pages = (x', placed, left)) :
    Shared pgdata start count size v x pages x' placed left := by
  induction pages generalizing x v x' placed left with
  | nil =>
    cases h
    exact .none hv hrun
  | cons iter rest ih =>
    rw [scanDuplicatesLoop] at h
    split at h
    · cases h
      exact (ih hv hrun rfl).keep
    · rename_i hsame
      simp only [Bool.or_eq_true, decide_eq_true_eq, not_or, not_not, Bool.not_eq_true] at hsame
      by_cases hfull : v = maxRefs
      -- a full run is left alone, and so is the page
      · rw [indexRefBlocks_full hcount (hfull ▸ hrun)] at h
        cases h
        exact (ih hv hrun rfl).keep
      · rw [indexRefBlocks_const hrun hfull] at h
        cases h
        have hrun' : ∀ j, start ≤ j → j < start + count → (x.withRun start count (v + 1)).bmap j = v + 1 :=
          fun j h₁ h₂ => if_pos ⟨h₁, h₂⟩
        have hv' : v + 1 ≤ maxRefs := by omega
        obtain ⟨hle, hx, hp, hhash, hperm, horder⟩ := ih hv' hrun' rfl
        rw [Index.withRun_withRun, Nat.add_assoc, Nat.add_comm 1] at hx
        exact ⟨by simp only [List.length_cons]; omega, hx, List.forall_mem_cons.2 ⟨⟨rfl, rfl, rfl⟩, hp⟩,
          List.forall_mem_cons.2 ⟨⟨hsame.2.symm, hsame.1⟩, hhash⟩, hperm.cons iter, horder.cons iter⟩

theorem bintPgdataScanDuplicates_spec
    (hcount : 0 < count) (hv : v ≤ maxRefs) (hrun : ∀ j, start ≤ j → j < start + count → x.bmap j = v)
    (h : bintPgdataScanDuplicates enableVerify pgdata start count size x pages = (x', placed, left)) :
    Shared pgdata start count size v x pages x' placed left ∧
      (placed ≠ [] → enableVerify = false ∧ pgdata.dedupeDisabled = false ∧ hashValid pgdata.hash = true) := by
  unfold bintPgdataScanDuplicates at h
  split_ifs at h with hdisabled hvalid
  · cases h
    exact ⟨.none hv hrun, fun hne => absurd rfl hne⟩
  · cases h
    exact ⟨.none hv hrun, fun hne => absurd rfl hne⟩
  · simp only [Bool.or_eq_true, not_or, Bool.not_eq_true, Bool.not_eq_true'] at hdisabled hvalid
    exact ⟨scanDuplicatesLoop_spec hcount hv hrun h, fun _ => ⟨hdisabled.2, hdisabled.1, by simpa using hvalid⟩⟩

theorem allocRound_spec {xd : Index} {dups : List Placed} (h : allocRun x count = (x', some start))
    (hdups : bintPgdataScanDuplicates enableVerify pgdata start count size x' pages = (xd, dups, left)) :
    (∀ j, start ≤ j → j < start + count → x'.bmap j = 1) ∧
      (∀ j, xd.bmap j = if start ≤ j ∧ j < start + count then 1 + dups.length else x.bmap j) ∧
      Shared pgdata start count size 1 x' pages xd dups left ∧
      (dups ≠ [] → enableVerify = false ∧ pgdata.dedupeDisabled = false ∧ hashValid pgdata.hash = true) := by
  obtain ⟨hcount, -, -, rfl⟩ := allocRun_spec h
  have hone : ∀ j, start ≤ j → j < start + count → (markLoop x.bmap count start) j = 1 := by
    intro j h₁ h₂
    rw [markLoop_apply, if_pos ⟨h₁, h₂⟩]
  obtain ⟨hshared, hwhy⟩ := bintPgdataScanDuplicates_spec hcount (by decide) hone hdups
  refine ⟨hone, fun j => ?_, hshared, hwhy⟩
  rw [hshared.index]
  simp only [Index.withRun, indexMarkBlocks, markLoop_apply]
  split_ifs <;> rfl

theorem allocForPgdataLoop_rounds {ms fuel : Nat} {P : Index → List Pgdata → Index → List Placed → List Pgdata → Prop}
    (stop : ∀ x c pages, P x pages { x with checkIdx := c } [] pages)
    (round : ∀ {x y z pgdata start pages dups left}, allocRun x (writeSizeFor ms pgdata / 2 ^ ms) = (y, some start) →
      bintPgdataScanDuplicates enableVerify pgdata start (writeSizeFor ms pgdata / 2 ^ ms) (writeSizeFor ms pgdata) y
        pages = (z, dups, left) →
      P x (pgdata :: pages) z (⟨pgdata, start, writeSizeFor ms pgdata, false⟩ :: dups) left)
    (append : ∀ {x y z pages left left' placed more}, P x pages y placed left → P y left z more left' →
      P x pages z (placed ++ more) left')
    (h : allocForPgdataLoop ms enableVerify fuel x pages = (x', placed, left)) : P x pages x' placed left := by
  induction fuel generalizing x pages x' placed left with
  | zero =>
    cases h
    exact stop x x.checkIdx pages
  | succ fuel ih =>
    cases pages with
    | nil =>
      cases h
      exact stop x x.checkIdx []
    | cons pgdata rest =>
      rw [allocForPgdataLoop] at h
      split at h
      · rename_i x₁ halloc
        cases h
        cases allocRun_none halloc
        exact stop x _ _
      · rename_i x₁ start halloc
        generalize hdups : bintPgdataScanDuplicates enableVerify pgdata start (writeSizeFor ms pgdata / 2 ^ ms)
          (writeSizeFor ms pgdata) x₁ rest = res at h
        dsimp only at h
        split at h <;> cases h
        · exact round halloc hdups
        · exact append (round halloc hdups) (ih rfl)

end QuadStor.Bint
