import QuadStor.Bint.Lemmas.Layout

/-!
# Bitmaps and outstanding runs
-/

namespace QuadStor.Bint

open Lib List Function

section

variable {κ : Type} [DecidableEq κ] {f : κ → Index} {fixed : κ → Nat → Prop} {σ : Store κ} {x x' : Index} {row : κ}
  {ms start count n nodeBlock : Nat} {placed q p : List Placed} {r : Run κ} {enableVerify : Bool}

theorem counts_update_run (h : ∀ j, refsOf (x'.bmap j) =
      if start ≤ j ∧ j < start + count then n else refsOf ((f row).bmap j)) :
    counts (update f row x') = assign (counts f) ⟨row, start, count⟩ n := by
  funext k j
  by_cases hk : k = row
  · subst hk
    simp [counts, assign, Run.Has, h j]
  · simp [counts, assign, Run.Has, hk]

theorem counts_update_same (h : ∀ j, refsOf (x'.bmap j) = refsOf ((f row).bmap j)) :
    counts (update f row x') = counts f := by
  funext k j
  by_cases hk : k = row
  · subst hk
    simp [counts, h j]
  · simp [counts, hk]

theorem counts_allocRun (h : allocRun (f row) count = (x', some start)) :
    counts (update f row x') = assign (counts f) ⟨row, start, count⟩ 1 := by
  obtain ⟨-, -, -, rfl⟩ := allocRun_spec h
  refine counts_update_run fun j => ?_
  show refsOf (markLoop (f row).bmap count start j) = _
  rw [markLoop_apply]
  split_ifs <;> rfl

omit [DecidableEq κ] in
theorem counts_zero_allocRun (h : allocRun (f row) count = (x', some start)) (k : κ) (i : Nat)
    (hi : Run.Has ⟨row, start, count⟩ k i) : counts f k i = 0 := by
  obtain ⟨-, -, hz, -⟩ := allocRun_spec h
  obtain ⟨hk, h₁, h₂⟩ := hi
  rw [counts, hk, hz i h₁ h₂, refsOf_zero]

theorem represents_allocRun (hrep : Represents fixed (counts f) σ) (h : allocRun (f row) count = (x', some start)) :
    Represents fixed (counts (update f row x')) (update σ ⟨row, start, count⟩ 1) := by
  obtain ⟨hcount, -, -, -⟩ := allocRun_spec h
  rw [counts_allocRun h]
  exact hrep.alloc (n := 1) hcount (counts_zero_allocRun h)

section

variable (hrep : Represents fixed (counts f) σ) (hlive : σ.Live ⟨row, start, count⟩)
include hrep hlive

theorem counts_bintRefBlock (h : bintRefBlock (f row) start count nodeBlock = (x', none)) :
    counts (update f row x') = assign (counts f) ⟨row, start, count⟩ (σ ⟨row, start, count⟩ + 1) := by
  obtain ⟨bmap, rfl, -, hrange, hval⟩ := bintRefBlock_ok h
  have hcount := hrep.count hlive (Run.has_start (hrep.len_pos hlive))
  refine counts_update_run fun j => ?_
  show refsOf (bmap j) = _
  rw [hval j, ← hcount]
  split_ifs with hj
  · obtain ⟨-, -, hmax⟩ := hrange j hj.1 hj.2
    have hlt := refsOf_lt ((f row).bmap start)
    unfold maxRefs at hmax
    exact refsOf_bmapVal (by omega)
  · rfl

theorem represents_bintRefBlock (h : bintRefBlock (f row) start count nodeBlock = (x', none)) :
    Represents fixed (counts (update f row x'))
      (update σ ⟨row, start, count⟩ (σ ⟨row, start, count⟩ + 1)) := by
  rw [counts_bintRefBlock hrep hlive h]
  exact hrep.recount hlive

theorem counts_bintFreeBlock : counts (update f row (bintFreeBlock (f row) start count).index) =
      assign (counts f) ⟨row, start, count⟩ (σ ⟨row, start, count⟩ - 1) := by
  have hrefs : ∀ j, start ≤ j → j < start + count →
      refsOf ((f row).bmap j) = σ ⟨row, start, count⟩ := fun j h₁ h₂ => hrep.count hlive ⟨rfl, h₁, h₂⟩
  refine counts_update_run fun j => ?_
  rw [bintFreeBlock_bmap (hrep.len_pos hlive) (Nat.ne_of_gt hlive) hrefs]
  split_ifs with hj
  · rw [refsOf_releaseVal, hrefs j hj.1 hj.2]
  · rfl

theorem represents_bintFreeBlock :
    Represents fixed (counts (update f row (bintFreeBlock (f row) start count).index))
      (update σ ⟨row, start, count⟩ (σ ⟨row, start, count⟩ - 1)) := by
  rw [counts_bintFreeBlock hrep hlive]
  exact hrep.recount hlive

end

theorem counts_update_load : counts (update f row (indexCheckLoad (f row))) = counts f :=
  counts_update_same fun j => congrArg (fun m => refsOf (m j)) indexCheckLoad_same.1

theorem counts_load_free (hrep : Represents fixed (counts f) σ) (hlive : σ.Live ⟨row, start, count⟩) :
    counts (update f row (bintFreeBlock (indexCheckLoad (f row)) start count).index) =
      assign (counts f) ⟨row, start, count⟩ (σ ⟨row, start, count⟩ - 1) := by
  have hload : counts (update f row (indexCheckLoad (f row))) = counts f := counts_update_load
  rw [← hload] at hrep
  have := counts_bintFreeBlock hrep hlive
  rwa [update_self, update_idem, hload] at this

theorem represents_load_free (hrep : Represents fixed (counts f) σ) (hlive : σ.Live ⟨row, start, count⟩) :
    Represents fixed (counts (update f row (bintFreeBlock (indexCheckLoad (f row)) start count).index))
      (update σ ⟨row, start, count⟩ (σ ⟨row, start, count⟩ - 1)) := by
  rw [counts_load_free hrep hlive]
  exact hrep.recount hlive

theorem accountPlaced_append : accountPlaced ms row σ (p ++ q) = accountPlaced ms row (accountPlaced ms row σ p) q :=
  foldl_append

theorem accountPlaced_const (h : ∀ p ∈ placed, blockRun ms row p.start p.size = r) :
    accountPlaced ms row σ placed = update σ r (σ r + placed.length) := by
  induction placed generalizing σ with
  | nil => simp [accountPlaced]
  | cons p rest ih =>
    have hp := h p mem_cons_self
    have hrest := ih (σ := update σ r (σ r + 1)) fun q hq => h q (mem_cons_of_mem _ hq)
    unfold accountPlaced at hrest ⊢
    rw [foldl_cons, hp, hrest, update_self, update_idem, length_cons]
    congr 1
    omega

theorem le_accountPlaced : σ r ≤ accountPlaced ms row σ placed r := by
  induction placed generalizing σ with
  | nil => exact le_rfl
  | cons p rest ih =>
    refine Nat.le_trans ?_ ih
    by_cases hr : r = blockRun ms row p.start p.size
    · subst hr
      simp
    · simp [hr]

structure Handed (ms : Nat) (row : κ) (x : Index) (σ : Store κ) (p : Placed) : Prop where
  len_pos : 0 < (blockRun ms row p.start p.size).len
  end_le : p.start + (blockRun ms row p.start p.size).len ≤ bmapEntries
  zero : ∀ j, p.start ≤ j → j < p.start + (blockRun ms row p.start p.size).len → x.bmap j = 0
  live : σ.Live (blockRun ms row p.start p.size)

structure Batch (fixed : κ → Nat → Prop) (ms : Nat) (row : κ) (f : κ → Index) (σ : Store κ)
    (x' : Index) (placed : List Placed) : Prop where
  represents : Represents fixed (counts (Function.update f row x')) (accountPlaced ms row σ placed)
  handed : ∀ p ∈ placed, Handed ms row (f row) (accountPlaced ms row σ placed) p
  taken : ∀ p ∈ placed, x'.bmap p.start ≠ 0
  zero : ∀ j, x'.bmap j = 0 → (f row).bmap j = 0
  node : ∀ j, x'.bmap j = (f row).bmap j ∨ nodeOf (x'.bmap j) = 0
  refs : ∀ j, refsOf (x'.bmap j) = refsOf ((f row).bmap j) +
    placed.countP fun p => (blockRun ms row p.start p.size).Has row j
  hash_eq : ∀ p ∈ placed, ∀ q ∈ placed, p.start = q.start → p.pgdata.hash = q.pgdata.hash

theorem Batch.nil (hrep : Represents fixed (counts f) σ) (h : x'.bmap = (f row).bmap) :
    Batch fixed ms row f σ x' [] := by
  have hcounts := counts_update_same fun j => by rw [h]
  refine ⟨?_, by simp, by simp, ?_, ?_, by simp [h], by simp⟩
  · rw [hcounts]
    exact hrep
  · intro j hj
    rw [← h, hj]
  · intro j
    exact .inl (by rw [h])

theorem Batch.append {y : Index} (h : Batch fixed ms row f σ y p)
    (h' : Batch fixed ms row (update f row y) (accountPlaced ms row σ p) x' q) :
    Batch fixed ms row f σ x' (p ++ q) := by
  have hy : update f row y row = y := update_self _ _ _
  obtain ⟨hrep, hhanded, htaken, hzero, hnode, hrefs, hhash⟩ := h'
  rw [update_idem] at hrep
  rw [hy] at hhanded hzero hnode hrefs
  -- a page of the second part starts where the first part left a zero
  have hne : ∀ a ∈ p, ∀ b ∈ q, a.start ≠ b.start := by
    intro a ha b hb heq
    have hb' := hhanded b hb
    exact h.taken a ha (heq ▸ hb'.zero b.start le_rfl (Nat.lt_add_of_pos_right hb'.len_pos))
  refine ⟨?_, ?_, ?_, ?_, ?_, ?_, ?_⟩
  · rw [accountPlaced_append]
    exact hrep
  · intro a ha
    rw [accountPlaced_append]
    rcases mem_append.mp ha with ha | ha
    · have hp := h.handed a ha
      exact ⟨hp.len_pos, hp.end_le, hp.zero, Nat.lt_of_lt_of_le hp.live le_accountPlaced⟩
    · have hp := hhanded a ha
      exact ⟨hp.len_pos, hp.end_le, fun j h₁ h₂ => h.zero j (hp.zero j h₁ h₂), hp.live⟩
  · exact forall_mem_append.2 ⟨fun a ha hz => h.taken a ha (hzero _ hz), htaken⟩
  · exact fun j hj => h.zero j (hzero j hj)
  · intro j
    rcases hnode j with heq | hz
    · rw [heq]
      exact h.node j
    · exact .inr hz
  · intro j
    rw [hrefs j, h.refs j, countP_append, Nat.add_assoc]
  · intro a ha b hb heq
    rcases mem_append.mp ha with ha | ha <;> rcases mem_append.mp hb with hb | hb
    · exact h.hash_eq a ha b hb heq
    · exact absurd heq (hne a ha b hb)
    · exact absurd heq.symm (hne b hb a ha)
    · exact hhash a ha b hb heq

theorem Batch.round {pgdata : Pgdata} {size : Nat}
    {pages left : List Pgdata} {xd : Index} {dups : List Placed} (hrep : Represents fixed (counts f) σ)
    (halloc : allocRun (f row) (size / 2 ^ ms) = (x', some start))
    (hdups : bintPgdataScanDuplicates enableVerify pgdata start (size / 2 ^ ms) size x' pages =
      (xd, dups, left)) : Batch fixed ms row f σ xd (⟨pgdata, start, size, false⟩ :: dups) := by
  obtain ⟨hcount, hend, hz, -⟩ := allocRun_spec halloc
  obtain ⟨-, hbmap, hshared, -⟩ := allocRound_spec halloc hdups
  have hle := hshared.le
  have hrun : ∀ p ∈ (⟨pgdata, start, size, false⟩ :: dups : List Placed),
      p.start = start ∧ p.size = size ∧ p.pgdata.hash = pgdata.hash := by
    refine forall_mem_cons.2 ⟨⟨rfl, rfl, rfl⟩, fun p hmem => ?_⟩
    obtain ⟨hs, hsz, -⟩ := hshared.same p hmem
    exact ⟨hs, hsz, (hshared.hash p hmem).1⟩
  have hzero : ∀ k i, (blockRun ms row start size).Has k i → counts f k i = 0 :=
    counts_zero_allocRun halloc
  have hnone := hrep.not_live_of_zero hcount hzero
  have haccount : accountPlaced ms row σ (⟨pgdata, start, size, false⟩ :: dups) =
      update σ (blockRun ms row start size) (1 + dups.length) := by
    rw [accountPlaced_const (r := blockRun ms row start size)]
    · rw [hnone, Nat.zero_add, length_cons, Nat.add_comm]
    · intro p hmem
      rw [(hrun p hmem).1, (hrun p hmem).2.1]
  refine ⟨?_, ?_, ?_, ?_, ?_, ?_, ?_⟩
  · have hnew := hrep.alloc (n := 1 + dups.length) hcount hzero
    rw [blockRun, ← counts_update_run] at hnew
    · rw [haccount]
      exact hnew
    · intro j
      rw [hbmap j]
      split_ifs
      · exact refsOf_of_le hle
      · rfl
  · intro p hmem
    obtain ⟨hs, hsz, -⟩ := hrun p hmem
    rw [haccount]
    refine ⟨by rw [hs, hsz]; exact hcount, by rw [hs, hsz]; exact hend, ?_, ?_⟩
    · rw [hs, hsz]
      exact hz
    · rw [hs, hsz, Store.Live, update_self]
      omega
  · intro p hmem
    rw [(hrun p hmem).1, hbmap, if_pos ⟨le_rfl, by omega⟩]
    omega
  · intro j hj
    rw [hbmap j] at hj
    split_ifs at hj
    · omega
    · exact hj
  · intro j
    rw [hbmap j]
    split_ifs
    · exact .inr (nodeOf_of_le hle)
    · exact .inl rfl
  · intro j
    by_cases hj : start ≤ j ∧ j < start + size / 2 ^ ms
    · have hall : ∀ p ∈ (⟨pgdata, start, size, false⟩ :: dups : List Placed),
          decide ((blockRun ms row p.start p.size).Has row j) = true := by
        intro p hmem
        rw [(hrun p hmem).1, (hrun p hmem).2.1]
        exact decide_eq_true ⟨rfl, hj⟩
      rw [countP_eq_length.mpr hall, hbmap j, if_pos hj, refsOf_of_le hle, hz j hj.1 hj.2,
        refsOf_zero, length_cons]
      omega
    · have hnone : ∀ p ∈ (⟨pgdata, start, size, false⟩ :: dups : List Placed),
          ¬decide ((blockRun ms row p.start p.size).Has row j) = true := by
        intro p hmem
        rw [(hrun p hmem).1, (hrun p hmem).2.1, decide_eq_true_eq]
        exact fun hhas => hj hhas.2
      rw [countP_eq_zero.mpr hnone, hbmap j, if_neg hj, Nat.add_zero]
  · intro p hmem q hmem' _
    rw [(hrun p hmem).2.2, (hrun q hmem').2.2]

theorem Batch.allocForPgdataLoop {fuel : Nat} {pages left : List Pgdata} (hrep : Represents fixed (counts f) σ)
    (h : allocForPgdataLoop ms enableVerify fuel (f row) pages = (x', placed, left)) :
    Batch fixed ms row f σ x' placed := by
  refine allocForPgdataLoop_rounds (P := fun x _ x' placed _ => ∀ {f σ}, Represents fixed (counts f) σ → f row = x →
    Batch fixed ms row f σ x' placed) ?_ ?_ ?_ h hrep rfl
  · rintro _ c _ f σ hrep rfl
    exact .nil hrep rfl
  · rintro _ y z pgdata start pages dups left halloc hdups f σ hrep rfl
    exact .round hrep halloc hdups
  · rintro _ y z pages left left' placed more h h' f σ hrep rfl
    have hround := h hrep rfl
    exact hround.append (h' hround.represents (update_self ..))

theorem live_accountPlaced (h : Store.Live (accountPlaced ms row σ placed) r) :
    σ.Live r ∨ ∃ p ∈ placed, r = blockRun ms row p.start p.size := by
  induction placed generalizing σ with
  | nil => exact .inl h
  | cons p rest ih =>
    rcases ih h with hlive | ⟨q, hq, hr⟩
    · by_cases hr : r = blockRun ms row p.start p.size
      · exact .inr ⟨p, mem_cons_self, hr⟩
      · left
        simpa [Store.Live, hr] using hlive
    · exact .inr ⟨q, mem_cons_of_mem _ hq, hr⟩

end

variable {c : Config} {s : RunState} {x : Index} {id n j : Nat} {b : Bdevint}

theorem RunState.Consistent.update (h : s.Consistent c) {r : Run Nat} (hrow : r.row < c.maxIndexes)
    (hend : r.start + r.len ≤ bmapEntries)
    (hrep : Represents c.Reserved (counts b.index) (Function.update s.live r n)) :
    RunState.Consistent c ⟨b, Function.update s.live r n⟩ := by
  have old : ∀ {r'}, r' ≠ r → Store.Live (Function.update s.live r n) r' → s.live.Live r' := by
    intro r' hne hlive
    simpa [Store.Live, hne] using hlive
  refine ⟨hrep, ?_, ?_⟩
  · intro r' hlive
    by_cases hr : r' = r
    · exact hr ▸ hrow
    · exact h.row_lt (old hr hlive)
  · intro r' hlive
    by_cases hr : r' = r
    · exact hr ▸ hend
    · exact h.end_le (old hr hlive)

theorem RunState.Consistent.same (h : s.Consistent c)
    (hcounts : counts b.index = counts s.bint.index) : RunState.Consistent c ⟨b, s.live⟩ :=
  ⟨by rw [hcounts]; exact h.represents, h.row_lt, h.end_le⟩

theorem refsOf_bdevSetNodeBlock {entry nodeBlock : Nat} (j : Nat) :
    refsOf (((bdevSetNodeBlock x entry nodeBlock).getD x).bmap j) = refsOf (x.bmap j) := by
  cases hset : bdevSetNodeBlock x entry nodeBlock with
  | none => rfl
  | some x' =>
    obtain ⟨-, rfl⟩ := bdevSetNodeBlock_some hset
    exact refsOf_set_node j

theorem bintUnmapBlocks_bmap {unmapSupported : Bool} : (bintUnmapBlocks unmapSupported x).bmap = x.bmap := by
  unfold bintUnmapBlocks
  split_ifs <;> rfl

theorem RunState.Consistent.step (h : s.Consistent c) {a : Action} {s' : RunState}
    (hstep : (runSystem c).step s a s') : s'.Consistent c := by
  obtain ⟨hid, hgranted, rfl⟩ := hstep
  cases a with
  | allocBlock id size =>
    unfold RunState.step Bdevint.step Action.run Action.account bintAllocBlock
    dsimp only [Action.indexId]
    generalize halloc : allocRun (s.bint.index id) (size / 2 ^ c.metaShift) = res
    obtain ⟨x', _ | start⟩ := res
    · rw [allocRun_none halloc]
      exact h.same (counts_update_same fun _ => rfl)
    · exact h.update hid (allocRun_spec halloc).2.1 (represents_allocRun h.represents halloc)
  | allocForPgdata id enableVerify pages =>
    obtain ⟨hrep, hhanded, -⟩ := Batch.allocForPgdataLoop h.represents rfl
    refine ⟨hrep, ?_, ?_⟩
    · intro r hlive
      rcases live_accountPlaced hlive with hold | ⟨p, -, rfl⟩
      · exact h.row_lt hold
      · exact hid
    · intro r hlive
      rcases live_accountPlaced hlive with hold | ⟨p, hp, rfl⟩
      · exact h.end_le hold
      · exact (hhanded p hp).end_le
  | refBlock id entry size nodeBlock =>
    unfold RunState.step Bdevint.step Action.run Action.account
    dsimp only [Action.indexId]
    generalize href : bintRefBlock (s.bint.index id) entry (size / 2 ^ c.metaShift) nodeBlock = res
    obtain ⟨x', _ | e⟩ := res
    · exact h.update hid (h.end_le hgranted) (represents_bintRefBlock h.represents hgranted href)
    · rw [bintRefBlock_error href]
      exact h.same (counts_update_same fun _ => rfl)
  | setNodeBlock id entry nodeBlock => exact h.same (counts_update_same refsOf_bdevSetNodeBlock)
  | freeBlock id entry size =>
    exact h.update hid (h.end_le hgranted) (represents_bintFreeBlock h.represents hgranted)
  | logReplay id entry size isMeta => exact hgranted.elim
  | checkLoad id =>
    exact h.same counts_update_load
  | clearLoad id => exact h.same (counts_update_same fun _ => rfl)
  | unmapBlocks id unmapSupported =>
    exact h.same (counts_update_same fun j => congrArg (fun m => refsOf (m j)) bintUnmapBlocks_bmap)

theorem initializeLoop_index {reservedBlocks : Nat} : (initializeLoop c n id reservedBlocks b).index j =
      if id ≤ j ∧ j < id + n
      then (bintIndexMarkReserved Index.new (reservedBlocks - (j - id) * bmapEntries)).1
      else b.index j := by
  induction n generalizing id reservedBlocks b with
  | zero =>
    rw [if_neg (by omega)]
    rfl
  | succ n ih =>
    simp only [initializeLoop]
    rw [ih]
    by_cases hj : j = id
    · subst hj
      simp
    · dsimp only
      rw [update_of_ne hj]
      by_cases hlt : id ≤ j ∧ j < id + (n + 1)
      · rw [if_pos (by omega), if_pos hlt]
        have hsub : (j - id) * bmapEntries = bmapEntries + (j - (id + 1)) * bmapEntries := by
          obtain ⟨k, hk⟩ : ∃ k, j - id = k + 1 := ⟨j - id - 1, by omega⟩
          have hk' : j - (id + 1) = k := by omega
          rw [hk, hk', Nat.succ_mul, Nat.add_comm]
        have hleft : (bintIndexMarkReserved Index.new reservedBlocks).2 = reservedBlocks - bmapEntries := by
          simp only [bintIndexMarkReserved]
          omega
        rw [hleft, hsub, Nat.sub_sub]
      · rw [if_neg (by omega), if_neg hlt]

theorem counts_new (c : Config) {i : Nat} : counts (Bdevint.new c).index j i = if c.Reserved j i then 1 else 0 := by
  unfold counts Bdevint.new
  rw [initializeLoop_index, Nat.sub_zero, Nat.zero_add]
  by_cases hj : j < c.maxIndexes
  · rw [if_pos ⟨Nat.zero_le _, hj⟩]
    have hiff : c.Reserved j i ↔ i < min (c.reservedBlocks - j * bmapEntries) bmapEntries := by
      unfold Config.Reserved
      omega
    simp only [bintIndexMarkReserved, markLoop_apply, hiff, Nat.zero_add, Nat.zero_le, true_and]
    split_ifs <;> rfl
  · rw [if_neg (by omega), if_neg fun h => hj h.1]
    rfl

theorem RunState.Consistent.new (c : Config) : RunState.Consistent c ⟨Bdevint.new c, fun _ => 0⟩ := by
  have none := Nat.lt_irrefl 0
  refine ⟨⟨fun h => (none h).elim, fun h => (none h).elim, fun h => (none h).elim, ?_, ?_,
    fun h => (none h).elim⟩, fun h => (none h).elim, fun h => (none h).elim⟩
  · intro k i hne
    rw [counts_new] at hne
    split_ifs at hne with hres
    · exact .inl hres
    · exact absurd rfl hne
  · intro k i hres
    rw [counts_new, if_pos hres]
    decide

theorem runSystem_consistent (c : Config) : (runSystem c).Invariant (RunState.Consistent c) :=
  ⟨id, fun h hstep => h.step hstep⟩

end QuadStor.Bint
