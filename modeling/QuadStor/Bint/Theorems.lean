import QuadStor.Bint.Lemmas.Accounting
import QuadStor.Bint.Lemmas.Runs
import QuadStor.Bint.Regions

/-!
# Correctness of the block allocator
-/

namespace QuadStor.Bint

open Lib

variable {c : Config} {s : RunState} {id i : Nat} {r : Run Nat}

theorem freshRun_of_zero (h : s.Consistent c)
    (hrow : r.row < c.maxIndexes) (hlen : 0 < r.len) (hend : r.start + r.len ≤ bmapEntries)
    (hzero : ∀ i, r.start ≤ i → i < r.start + r.len → (s.bint.index r.row).bmap i = 0) : FreshRun c s r := by
  have hcounts : ∀ k i, r.Has k i → counts s.bint.index k i = 0 := by
    rintro k i ⟨rfl, h₁, h₂⟩
    rw [counts, hzero i h₁ h₂, refsOf_zero]
  have hres := h.represents.not_fixed_of_zero hcounts (Run.has_start hlen)
  exact ⟨hlen, hzero, hend, Config.reserved_le_block hrow (by omega) hres,
    Config.block_end_le hrow hend, fun r' hr' => h.represents.disjoint_of_zero hcounts hr'⟩

theorem freshRun_allocBlock (h : (runSystem c).Reachable s) {size start : Nat} {x' : Index}
    (hid : id < c.maxIndexes) (halloc : bintAllocBlock c.metaShift (s.bint.index id) size = (x', some start)) :
    FreshRun c s (c.run id start size) := by
  have hcons := (runSystem_consistent c).reachable h
  obtain ⟨hlen, hend, hzero, -⟩ := allocRun_spec halloc
  exact freshRun_of_zero hcons hid hlen hend hzero

theorem freshRun_allocForPgdata (h : (runSystem c).Reachable s) {enableVerify : Bool}
    {pages left : List Pgdata} {x' : Index} {placed : List Placed} (hid : id < c.maxIndexes)
    (halloc : bintAllocForPgdata c.metaShift enableVerify (s.bint.index id) pages = (x', placed, left)) :
    ∀ p ∈ placed, FreshRun c s (c.run id p.start p.size) := by
  have hcons := (runSystem_consistent c).reachable h
  obtain ⟨-, hhanded, -⟩ := Batch.allocForPgdataLoop hcons.represents halloc
  intro p hp
  have hp := hhanded p hp
  exact freshRun_of_zero hcons hid hp.len_pos hp.end_le hp.zero

/-- In every state reached by allocations, references and frees, a single-block allocation hands out a fresh run, and so
does a batch for each page. Two pages of a batch have the same run or disjoint ones. -/
theorem alloc_returns_unused {s : RunState} (h : (runSystem c).Reachable s) {id : Nat} (hid : id < c.maxIndexes) :
    (∀ {size start : Nat} {x' : Index}, bintAllocBlock c.metaShift (s.bint.index id) size = (x', some start) →
        FreshRun c s (c.run id start size)) ∧
    (∀ {enableVerify : Bool} {pages left : List Pgdata} {x' : Index} {placed : List Placed},
      bintAllocForPgdata c.metaShift enableVerify (s.bint.index id) pages = (x', placed, left) →
        (∀ p ∈ placed, FreshRun c s (c.run id p.start p.size)) ∧
        ∀ p ∈ placed, ∀ q ∈ placed, c.run id p.start p.size = c.run id q.start q.size ∨
          (c.run id p.start p.size).Disjoint (c.run id q.start q.size)) ∧
    ∀ {r r' : Run Nat}, s.live.Live r → s.live.Live r' → r ≠ r' → r.Disjoint r' := by
  have hcons := (runSystem_consistent c).reachable h
  refine ⟨freshRun_allocBlock h hid, ?_, hcons.represents.disjoint⟩
  intro enableVerify pages left x' placed halloc
  refine ⟨freshRun_allocForPgdata h hid halloc, ?_⟩
  obtain ⟨hrep, hhanded, -⟩ := Batch.allocForPgdataLoop hcons.represents halloc
  intro p hp q hq
  by_cases heq : c.run id p.start p.size = c.run id q.start q.size
  · exact .inl heq
  · exact .inr (hrep.disjoint (hhanded p hp).live (hhanded q hq).live heq)

def exampleDisk : Config where
  usize := 2 ^ 33
  sectorShift := 9
  enableComp := true
  ddmaster := true
  ddbits := 16
  sectorShift_ge := by decide
  sectorShift_le := by decide
  comp_sectorShift := by decide
  ddbits_ge := by decide
  ddbits_le := by decide
  usize_le := by decide

theorem alloc_returns_unused_new :
    ∃ x', bintAllocBlock exampleDisk.metaShift ((Bdevint.new exampleDisk).index 13106) 4096 = (x', some 0) ∧
      FreshRun exampleDisk ⟨Bdevint.new exampleDisk, fun _ => 0⟩ (exampleDisk.run 13106 0 4096) := by
  have hindex : (Bdevint.new exampleDisk).index 13106 = (bintIndexMarkReserved Index.new 0).1 := by
    unfold Bdevint.new
    rw [initializeLoop_index, if_pos (by decide)]
    rfl
  have halloc : bintAllocBlock exampleDisk.metaShift ((Bdevint.new exampleDisk).index 13106) 4096 =
      ({ indexMarkBlocks (bintIndexMarkReserved Index.new 0).1 0 4 with checkIdx := 4 }, some 0) := by
    rw [hindex]
    rfl
  have hreach : (runSystem exampleDisk).Reachable ⟨Bdevint.new exampleDisk, fun _ => 0⟩ :=
    .init (RunState.Consistent.new exampleDisk)
  have hid : 13106 < exampleDisk.maxIndexes := by decide
  generalize Bdevint.new exampleDisk = b at hreach halloc ⊢
  exact ⟨_, halloc, (alloc_returns_unused hreach hid).1 halloc⟩

def FreeRun (x : Index) (count s : Nat) : Prop :=
  x.checkIdx ≤ s ∧ s + count ≤ bmapEntries ∧ ∀ i, s ≤ i → i < s + count → x.bmap i = 0

/-- An allocation takes the first free run from `check_idx` on, and fails only when there is none. -/
theorem allocRun_first_fit (x : Index) (count start : Nat) :
    (allocRun x count).2 = some start ↔ 0 < count ∧ IsLeast {s | FreeRun x count s} start := by
  have hscan : (allocRun x count).2 = allocScan x.bmap count (bmapEntries - x.checkIdx) x.checkIdx 0 := by
    unfold allocRun
    split <;> simp [*]
  rw [hscan]
  have hfree : ∀ {s}, allocScan x.bmap count (bmapEntries - x.checkIdx) x.checkIdx 0 = some s →
      0 < count ∧ FreeRun x count s := fun h => by
    obtain ⟨hpos, hs, hend, hz⟩ := allocScan_spec (Nat.zero_le _) (by intro j h₁ h₂; omega) h
    exact ⟨hpos, hs, by omega, hz⟩
  have hfirst : ∀ {s}, 0 < count → FreeRun x count s →
      ∃ s' ≤ s, allocScan x.bmap count (bmapEntries - x.checkIdx) x.checkIdx 0 = some s' := fun hpos h =>
    allocScan_le hpos h.1 (by have := h.2.1; omega) h.2.2
  constructor
  · intro h
    obtain ⟨hpos, hstart⟩ := hfree h
    refine ⟨hpos, hstart, fun s hs => ?_⟩
    obtain ⟨s', hle, h'⟩ := hfirst hpos hs
    exact Option.some.inj (h'.symm.trans h) ▸ hle
  · rintro ⟨hpos, hstart, hleast⟩
    obtain ⟨s', hle, h'⟩ := hfirst hpos hstart
    rw [h', Nat.le_antisymm hle (hleast (hfree h').2)]

/-- In every reachable state of the allocator the counters agree with the bitmaps. -/
theorem free_space_exact {b : Bdevint} (h : (system c).Reachable b) :
    (∀ id < c.maxIndexes, (b.index id).loadDone = true →
      (b.index id).freeBlocks = zeroRefs (b.index id).bmap) ∧ (∀ id < c.maxIndexes, ∀ i < bmapEntries,
      (b.index id).bmap i = 0 ↔ refsOf ((b.index id).bmap i) = 0) ∧ b.free + referencedBytes c b = c.usize := by
  have hinv : (system c).Invariant (Bdevint.Exact c) :=
    ⟨fun hinit => hinit ▸ Bdevint.Exact.new c, fun hb hstep => hb.step hstep⟩
  have hexact := hinv.reachable h
  exact ⟨fun id hid => (hexact.index id hid).freeBlocks, fun id hid => (hexact.index id hid).clean, hexact.free⟩

theorem free_space_exact_alloc_free :
    let b := ((Bdevint.new exampleDisk).step exampleDisk (.allocBlock 13106 4096)).step exampleDisk
      (.freeBlock 13106 0 4096)
    b.free + referencedBytes exampleDisk b = exampleDisk.usize := by
  have h₁ := System.Reachable.step (M := system exampleDisk) (a := .allocBlock 13106 4096)
    (.init rfl) ⟨by decide, trivial, rfl⟩
  have h₂ := System.Reachable.step (a := .freeBlock 13106 0 4096) h₁ ⟨by decide, by unfold Action.InBitmap; decide, rfl⟩
  exact (free_space_exact h₂).2.2

theorem FreshRun.valid (h : FreshRun c s r) (hrow : r.row < c.maxIndexes)
    (hle : r.start ≤ i) (hlt : i < r.start + r.len) : (Region.data r.row i).Valid c := by
  refine ⟨hrow, hlt.trans_le h.end_le, fun hres => ?_⟩
  have hreserved := h.reserved_le
  rw [c.blockFromIndex_mul, ← c.reservedBlocks_mul] at hreserved
  have hblocks := Nat.le_of_mul_le_mul_right hreserved (Nat.two_pow_pos _)
  have hlt := hres.2.2
  omega

/-- On every disk that is accepted the regions are pairwise disjoint and within the usable size; and what an allocation
returns, from any state that is reached, consists of data blocks. -/
theorem regions_disjoint (c : Config) (hsize : 2 ^ 32 ≤ c.usize + bintTailReserved) :
    (∀ a b : Region, a.Valid c → b.Valid c → a ≠ b → a.stop c ≤ b.start c ∨ b.stop c ≤ a.start c) ∧
    (∀ a : Region, a.Valid c → a.stop c ≤ c.usize) ∧ ∀ s, (runSystem c).Reachable s → ∀ id < c.maxIndexes,
      (∀ size start x', bintAllocBlock c.metaShift (s.bint.index id) size = (x', some start) →
        ∀ i, start ≤ i → i < start + size / 2 ^ c.metaShift → (Region.data id i).Valid c) ∧
      ∀ enableVerify pages x' placed left,
        bintAllocForPgdata c.metaShift enableVerify (s.bint.index id) pages = (x', placed, left) →
          ∀ p ∈ placed, ∀ i, p.start ≤ i → i < p.start + p.size / 2 ^ c.metaShift → (Region.data id i).Valid c := by
  have hmono := Config.areaStart_mono hsize
  refine ⟨fun a b ha hb hne => ?_, fun a ha => ?_, fun s hs id hid => ⟨?_, ?_⟩⟩
  · obtain hlt | heq | hlt := lt_trichotomy a.rank b.rank
    · exact .inl ((Region.within ha).2.trans ((hmono hlt).trans (Region.within hb).1))
    · exact Region.disjoint_of_rank_eq ha hb heq hne
    · exact .inr ((Region.within hb).2.trans ((hmono hlt).trans (Region.within ha).1))
  · have hrank : a.rank + 1 ≤ 7 := by cases a <;> simp [Region.rank]
    exact (Region.within ha).2.trans (hmono hrank)
  · intro size start x' halloc i hle hlt
    exact (freshRun_allocBlock hs hid halloc).valid hid hle hlt
  · intro enableVerify pages x' placed left halloc p hp i hle hlt
    exact (freshRun_allocForPgdata hs hid halloc p hp).valid hid hle hlt

theorem regions_disjoint_example : (Region.index 13106).Valid exampleDisk ∧ (Region.data 13106 0).Valid exampleDisk ∧
      (Region.index 13106).stop exampleDisk ≤ (Region.data 13106 0).start exampleDisk ∧
      (Region.data 13106 0).stop exampleDisk ≤ exampleDisk.usize := by
  have hindex : (Region.index 13106).Valid exampleDisk := by
    unfold Region.Valid
    decide
  have hdata : (Region.data 13106 0).Valid exampleDisk := by
    unfold Region.Valid
    decide
  obtain ⟨hdisjoint, hend, -⟩ := regions_disjoint exampleDisk (by decide)
  refine ⟨hindex, hdata, ?_, hend _ hdata⟩
  exact (hdisjoint _ _ hindex hdata (by decide)).resolve_right (by decide)

theorem span_lt (c : Config) (hid : id < c.maxIndexes) (hi : i < bmapEntries) :
    (id * bmapEntries + i) * 2 ^ c.metaShift < 2 ^ 64 := by
  have hend : c.blockFromIndex id i * 2 ^ c.sectorShift + 1 * 2 ^ c.metaShift ≤ c.usize := Config.block_end_le hid hi
  have hpow : 2 ^ c.sectorShift ≤ 2 ^ 12 := Nat.pow_le_pow_right (by decide) c.sectorShift_le
  have husize := c.usize_lt.trans_le (Nat.mul_le_mul_left _ hpow)
  rw [c.blockFromIndex_mul] at hend
  omega

theorem indexIdFromBlock_blockFromIndex (c : Config) (hid : id < c.maxIndexes) (hi : i < bmapEntries) :
    c.indexIdFromBlock (c.blockFromIndex id i) = (id, i) := by
  have hdiv : (id * bmapEntries + i) / bmapEntries = id := by
    rw [Nat.mul_comm, Nat.mul_add_div (by decide), Nat.div_eq_of_lt hi, Nat.add_zero]
  unfold Config.indexIdFromBlock u64
  simp only [c.blockFromIndex_mul, Nat.mod_eq_of_lt (span_lt c hid hi), Nat.mul_div_cancel _ (Nat.two_pow_pos _), hdiv,
    Nat.add_sub_cancel_left]

/-- On every disk that is accepted, a position is found again from its block; no step of the conversion wraps. -/
theorem index_positions_inverse (b : BdevInfo) : ∀ c ∈ bdevAddNew b, ∀ id < c.maxIndexes, ∀ i < bmapEntries,
      (id * bmapEntries + i) * 2 ^ c.metaShift < 2 ^ 64 ∧
      c.indexIdFromBlock (c.blockFromIndex id i) = (id, i) ∧
      ∀ id' < c.maxIndexes, ∀ i' < bmapEntries,
        c.blockFromIndex id i = c.blockFromIndex id' i' → id = id' ∧ i = i' := by
  intro c _ id hid i hi
  have hback := indexIdFromBlock_blockFromIndex c hid hi
  refine ⟨span_lt c hid hi, hback, fun id' hid' i' hi' heq => ?_⟩
  rw [heq, indexIdFromBlock_blockFromIndex c hid' hi'] at hback
  exact ⟨(Prod.mk.inj hback).1.symm, (Prod.mk.inj hback).2.symm⟩

def exampleInfo : BdevInfo := ⟨2 ^ 33, 10, true, true, 16, by decide, by decide, by decide⟩

theorem index_positions_inverse_example :
    ∃ c, bdevAddNew exampleInfo = some c ∧ c.indexIdFromBlock (c.blockFromIndex 13000 639) = (13000, 639) :=
  ⟨_, rfl, (index_positions_inverse exampleInfo _ rfl 13000 (by decide) 639 (by decide)).2.1⟩

end QuadStor.Bint
