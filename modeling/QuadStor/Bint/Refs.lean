import QuadStor.Bint.Lemmas.Loops
import QuadStor.Lib.Packed

/-!
# What an update of references does to the bitmap
-/

namespace QuadStor.Bint

open Lib Function

variable {bmap bmap' : Nat → Nat} {x : Index} {n i j v entry count nodeBlock given : Nat}

/-- The entries of the page of an index: `BMAP_GET_BLOCK` with `BMAP_BLOCK_BITS_UNCOMP` -/
def entries (metadata : Packed.Words) (i : Nat) : Nat := (Packed.get 51 metadata i).toNat

theorem fits_ofNat (hv : v < 2 ^ 51) : Packed.Fits 51 (BitVec.ofNat 64 v) := by
  intro t ht
  have hlt : v < 2 ^ t := hv.trans_le (Nat.pow_le_pow_right (by decide) ht)
  rw [BitVec.getLsbD_ofNat, Nat.testBit_lt_two_pow hlt, Bool.and_false]

theorem entries_set {metadata : Packed.Words} (hv : v < 2 ^ 51) :
    entries (Packed.set 51 metadata i (BitVec.ofNat 64 v)) = update (entries metadata) i v := by
  funext j
  by_cases hj : j = i
  · subst hj
    rw [entries, Packed.get_set_self (by decide) (fits_ofNat hv), update_self, BitVec.toNat_ofNat]
    exact Nat.mod_eq_of_lt (by omega)
  · rw [entries, Packed.get_set_ne (by decide) (fits_ofNat hv) hj, update_of_ne hj, entries]

/-- The counts of the run have changed by `delta`. An entry keeps its node block as long as it has references. -/
structure Counted (bmap bmap' : Nat → Nat) (entry count : Nat) (delta : Int) : Prop where
  refs : ∀ i, entry ≤ i → i < entry + count → (refsOf (bmap' i) : Int) = refsOf (bmap i) + delta
  node : ∀ i, entry ≤ i → i < entry + count → 0 < refsOf (bmap' i) → nodeOf (bmap' i) = nodeOf (bmap i)
  clear : ∀ i, entry ≤ i → i < entry + count → refsOf (bmap' i) = 0 → bmap' i = 0
  other : ∀ i, ¬(entry ≤ i ∧ i < entry + count) → bmap' i = bmap i

def Exact (bmap bmap' : Nat → Nat) (ok : Bool) (entry count : Nat) (delta : Int) : Prop :=
  if ok then Counted bmap bmap' entry count delta else bmap' = bmap

/-- `bint_free_block` returns nothing; this is whether it came to the end of its loop. -/
def bintFreeBlockDone (x : Index) (entry count : Nat) : Bool := (freeLoop (refsOf (x.bmap entry)) count entry x 0).2.2

structure RefsExact (x : Index) (entry count nodeBlock : Nat) : Prop where
  take : Exact x.bmap (bintRefBlock x entry count nodeBlock).1.bmap
    (bintRefBlock x entry count nodeBlock).2.isNone entry count 1
  free : Exact x.bmap (bintFreeBlock x entry count).index.bmap (bintFreeBlockDone x entry count) entry count (-1)
  /-- `bint_log_replay` of a data block always returns 0. -/
  replay : Counted x.bmap (bintLogReplay x entry count false).1.bmap entry count 1
  restore : (bintRefBlock x entry count nodeBlock).2 = none →
    (bintFreeBlock (bintRefBlock x entry count nodeBlock).1 entry count).index.bmap = x.bmap

theorem exact_bintRefBlock : Exact x.bmap (bintRefBlock x entry count nodeBlock).1.bmap
    (bintRefBlock x entry count nodeBlock).2.isNone entry count 1 := by
  cases h : bintRefBlock x entry count nodeBlock with
  | mk x' result =>
    cases result with
    | some err => simp [Exact, bintRefBlock_error h]
    | none =>
      obtain ⟨bmap, rfl, -, hrun, hval⟩ := bintRefBlock_ok h
      simp only [Exact, Option.isNone_none, if_true]
      have hin : ∀ i, entry ≤ i → i < entry + count → refsOf (x.bmap i) + 1 < 2 ^ 13 ∧
          bmap i = bmapVal (nodeOf (x.bmap i)) (refsOf (x.bmap i) + 1) := by
        intro i hlow hhigh
        obtain ⟨hrefs, -, hmax⟩ := hrun i hlow hhigh
        have hlt := refsOf_lt (x.bmap i)
        refine ⟨?_, by rw [hval, if_pos ⟨hlow, hhigh⟩, hrefs]⟩
        unfold maxRefs at hmax
        omega
      refine ⟨fun i hlow hhigh => ?_, fun i hlow hhigh _ => ?_, fun i hlow hhigh hzero => ?_, fun i hout => ?_⟩
      · obtain ⟨hlt, hb⟩ := hin i hlow hhigh
        rw [hb, refsOf_bmapVal hlt]
        rfl
      · obtain ⟨hlt, hb⟩ := hin i hlow hhigh
        rw [hb, nodeOf_bmapVal hlt]
      · obtain ⟨hlt, hb⟩ := hin i hlow hhigh
        rw [hb, refsOf_bmapVal hlt] at hzero
        cases hzero
      · rw [hval, if_neg hout]

theorem restore_bintRefBlock (h : (bintRefBlock x entry count nodeBlock).2 = none) :
    (bintFreeBlock (bintRefBlock x entry count nodeBlock).1 entry count).index.bmap = x.bmap := by
  have hresult : bintRefBlock x entry count nodeBlock = ((bintRefBlock x entry count nodeBlock).1, none) :=
    Prod.ext rfl h
  obtain ⟨bmap, hx, -, hrun, hval⟩ := bintRefBlock_ok hresult
  simp only [hx]
  cases count with
  | zero =>
    funext i
    exact (hval i).trans (if_neg (by omega))
  | succ count =>
    have hlt : refsOf (x.bmap entry) + 1 < 2 ^ 13 := by
      obtain ⟨-, -, hmax⟩ := hrun entry le_rfl (by omega)
      have := refsOf_lt (x.bmap entry)
      unfold maxRefs at hmax
      omega
    have hrefs : ∀ i, entry ≤ i → i < entry + (count + 1) → refsOf (bmap i) = refsOf (x.bmap entry) + 1 := by
      intro i hlow hhigh
      rw [hval, if_pos ⟨hlow, hhigh⟩, refsOf_bmapVal hlt]
    funext i
    refine (bintFreeBlock_bmap (Nat.succ_pos count) (Nat.succ_ne_zero _) hrefs i).trans ?_
    by_cases hin : entry ≤ i ∧ i < entry + (count + 1)
    · obtain ⟨hsame, hne, -⟩ := hrun i hin.1 hin.2
      simp only [hval, if_pos hin]
      rw [releaseVal, refsOf_bmapVal hlt, nodeOf_bmapVal hlt, if_neg (by omega), Nat.add_sub_cancel, ← hsame,
        bmapVal_nodeOf_refsOf]
    · simp only [hval, if_neg hin]

/-- All entries of the run have the same count, or the first one has none. -/
def FreeFits (x : Index) (entry count : Nat) : Prop :=
  refsOf (x.bmap entry) = 0 ∨ ∀ i, entry ≤ i → i < entry + count → refsOf (x.bmap i) = refsOf (x.bmap entry)

theorem counted_releaseVal (hv : v ≠ 0) (hrefs : ∀ i, entry ≤ i → i < entry + count → refsOf (bmap i) = v)
    (hval : ∀ i, bmap' i = if entry ≤ i ∧ i < entry + count then releaseVal (bmap i) else bmap i) :
    Counted bmap bmap' entry count (-1) := by
  have hin : ∀ i, entry ≤ i → i < entry + count → bmap' i = releaseVal (bmap i) := fun i hlow hhigh => by
    rw [hval, if_pos ⟨hlow, hhigh⟩]
  refine ⟨fun i hlow hhigh => ?_, fun i hlow hhigh hpos => ?_, fun i hlow hhigh hzero => ?_, fun i hout => ?_⟩
  · rw [hin i hlow hhigh, refsOf_releaseVal, hrefs i hlow hhigh]
    omega
  · rw [hin i hlow hhigh, refsOf_releaseVal] at hpos
    rw [hin i hlow hhigh, nodeOf_releaseVal, if_neg (by omega)]
  · rw [hin i hlow hhigh, refsOf_releaseVal] at hzero
    have hone : refsOf (bmap i) = 1 := by
      have := hrefs i hlow hhigh
      omega
    rw [hin i hlow hhigh, releaseVal, if_pos hone]
  · rw [hval, if_neg hout]

theorem exact_bintFreeBlock_iff :
    Exact x.bmap (bintFreeBlock x entry count).index.bmap (bintFreeBlockDone x entry count) entry count (-1) ↔
      FreeFits x entry count := by
  constructor
  · intro h
    by_contra hnot
    obtain ⟨hpos, hdiff⟩ := not_or.mp hnot
    obtain ⟨-, -, e, he, hdone, hrange, hend, hval⟩ :=
      freeLoop_spec (v := refsOf (x.bmap entry)) (n := count) (i := entry) (x := x) (g := 0)
    have hshort : e ≠ entry + count := fun heq => hdiff (heq ▸ hrange)
    rw [Exact, bintFreeBlockDone, if_neg fun h => hshort (hdone.mp h)] at h
    -- the first entry was given back all the same
    have hlt : entry < e := by
      by_contra hle
      obtain rfl : e = entry := by omega
      exact (hend (by omega)).elim hpos (absurd rfl)
    have hfirst := congrArg refsOf ((hval entry).symm.trans (congrFun h entry))
    rw [if_pos ⟨le_rfl, hlt⟩, refsOf_releaseVal] at hfirst
    omega
  · intro h
    by_cases hzero : refsOf (x.bmap entry) = 0
    · cases count with
      | zero =>
        exact ⟨fun i hlow hhigh => by omega, fun i hlow hhigh => by omega, fun i hlow hhigh => by omega, fun i _ => rfl⟩
      | succ count => simp [Exact, bintFreeBlockDone, bintFreeBlock, freeLoop, hzero]
    · have huniform := h.resolve_left hzero
      obtain ⟨hdone, hval⟩ := freeLoop_const (g := 0) hzero huniform
      rw [Exact, bintFreeBlockDone, if_pos hdone]
      exact counted_releaseVal hzero huniform hval

def ReplayFits (x : Index) (entry count : Nat) : Prop :=
  ∀ i, entry ≤ i → i < entry + count → refsOf (x.bmap i) < maxRefs ∧ nodeOf (x.bmap i) = 0

theorem counted_bintLogReplay_iff :
    Counted x.bmap (bintLogReplay x entry count false).1.bmap entry count 1 ↔ ReplayFits x entry count := by
  have hval : ∀ i, (bintLogReplay x entry count false).1.bmap i =
      if entry ≤ i ∧ i < entry + count then replayVal false (x.bmap i) else x.bmap i := replayLoop_spec.2.2
  have hlt : ∀ i, refsOf (x.bmap i) ≠ maxRefs → refsOf (x.bmap i) + 1 ≤ maxRefs := fun i hne => by
    have := refsOf_lt (x.bmap i)
    unfold maxRefs at *
    omega
  constructor
  · intro h i hlow hhigh
    have hne : refsOf (x.bmap i) ≠ maxRefs := fun hmax => by
      have hrefs := h.refs i hlow hhigh
      rw [hval, if_pos ⟨hlow, hhigh⟩, replayVal, if_pos (.inl hmax)] at hrefs
      omega
    have hnode := h.node i hlow hhigh
    rw [hval, if_pos ⟨hlow, hhigh⟩, replayVal, if_neg (by simpa using hne), refsOf_of_le (hlt i hne),
      nodeOf_of_le (hlt i hne)] at hnode
    exact ⟨hlt i hne, (hnode (Nat.succ_pos _)).symm⟩
  · intro h
    have hin : ∀ i, entry ≤ i → i < entry + count → refsOf (x.bmap i) + 1 ≤ maxRefs ∧
        (bintLogReplay x entry count false).1.bmap i = refsOf (x.bmap i) + 1 := fun i hlow hhigh => by
      have hne := Nat.ne_of_lt (h i hlow hhigh).1
      exact ⟨hlt i hne, by rw [hval, if_pos ⟨hlow, hhigh⟩, replayVal, if_neg (by simpa using hne)]⟩
    refine ⟨fun i hlow hhigh => ?_, fun i hlow hhigh _ => ?_, fun i hlow hhigh hzero => ?_, fun i hout => ?_⟩
    · obtain ⟨hle, hb⟩ := hin i hlow hhigh
      rw [hb, refsOf_of_le hle]
      rfl
    · obtain ⟨hle, hb⟩ := hin i hlow hhigh
      rw [hb, nodeOf_of_le hle, (h i hlow hhigh).2]
    · obtain ⟨hle, hb⟩ := hin i hlow hhigh
      rw [hb, refsOf_of_le hle] at hzero
      cases hzero
    · rw [hval, if_neg hout]

/-- The three updates are exact if and only if the counts of the run are equal, or it is free, and the replay meets
neither a full entry nor a node block. -/
theorem refsExact_iff (x : Index) (entry count nodeBlock : Nat) :
    RefsExact x entry count nodeBlock ↔ FreeFits x entry count ∧ ReplayFits x entry count :=
  ⟨fun h => ⟨exact_bintFreeBlock_iff.1 h.free, counted_bintLogReplay_iff.1 h.replay⟩,
    fun h => ⟨exact_bintRefBlock, exact_bintFreeBlock_iff.2 h.1, counted_bintLogReplay_iff.2 h.2, restore_bintRefBlock⟩⟩

def nodeIndex : Index := { Index.new with bmap := update (fun _ => 0) 0 (bmapVal 5 1) }

theorem replay_drops_node : nodeOf (nodeIndex.bmap 0) = 5 ∧
    (bintLogReplay nodeIndex 0 1 false).1.bmap 0 = 2 ∧ ¬RefsExact nodeIndex 0 1 0 := by
  refine ⟨by decide, by decide, fun h => ?_⟩
  have hnode := h.replay.node 0 le_rfl (by decide) (by decide)
  revert hnode
  decide

end QuadStor.Bint
