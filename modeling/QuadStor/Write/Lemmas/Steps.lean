import QuadStor.Write.Lemmas.Pages

/-!
# The references and map entries of a running write
-/

namespace QuadStor.Write

open Lib Bint DDTable List Function

variable {metaShift : Nat → Nat} {fixed : Row → Nat → Prop} {s s' : State} {p : Page} {b : Block}
  {f : Page → Page} {σ : Store Row} {r : Run Row} {cnt : Row → Nat → Nat} {row : Row}

def State.MapOk (s : State) (p : Page) : Prop :=
  if p.doneAmapUpdate then s.map p.lba = p.amapBlock ∧ p.oldAmapBlock = s.orig p.lba
  else s.map p.lba = s.orig p.lba

structure State.Ok (metaShift : Nat → Nat) (fixed : Row → Nat → Prop) (s : State) : Prop where
  nodup : (s.pages.map Page.lba).Nodup
  represents : Represents fixed (counts s.index) s.live
  live : ∀ r, heldRefs metaShift s.pages r ≤ s.live r
  counts : ∀ row i, counts s.index row i = s.others row i + heldCounts metaShift s.pages row i
  map : ∀ p ∈ s.pages, s.MapOk p

theorem State.Ok.start (h : s.Start fixed) : s.Ok metaShift fixed := by
  have hnone : ∀ g, heldSum g s.pages = 0 := by
    intro g
    refine List.sum_eq_zero_iff_forall_eq_nat.mpr fun n hn => ?_
    obtain ⟨p, hp, rfl⟩ := mem_map.mp hn
    rw [h.fresh p hp]
    rfl
  refine ⟨h.nodup, h.represents, fun r => ?_, fun row i => ?_, fun p hp => ?_⟩
  · simp [heldRefs, hnone]
  · simp [heldCounts, hnone, h.others]
  · rw [State.MapOk, h.fresh p hp, h.orig]
    rfl

theorem assign_succ (h : ∀ row i, r.Has row i → cnt row i = σ r) (row : Row) (i : Nat) :
    assign cnt r (σ r + 1) row i = cnt row i + if r.Has row i then 1 else 0 := by
  unfold assign
  split_ifs with hi
  · rw [h row i hi]
  · rfl

theorem assign_pred (hr : σ.Live r) (h : ∀ row i, r.Has row i → cnt row i = σ r) (row : Row) (i : Nat) :
    assign cnt r (σ r - 1) row i + (if r.Has row i then 1 else 0) = cnt row i := by
  unfold assign
  split_ifs with hi
  · rw [h row i hi]
    exact Nat.sub_add_cancel hr
  · rfl

structure Reheld (metaShift : Nat → Nat) (fixed : Row → Nat → Prop) (s s' : State) (p p' : Page) : Prop where
  represents : Represents fixed (counts s'.index) s'.live
  live : ∀ r, s'.live r + p.value (fun b => if b.run metaShift = r then 1 else 0) =
    s.live r + p'.value fun b => if b.run metaShift = r then 1 else 0
  counts : ∀ row i, counts s'.index row i + p.value (fun b => if (b.run metaShift).Has row i then 1 else 0) =
    counts s.index row i + p'.value fun b => if (b.run metaShift).Has row i then 1 else 0
  others : s'.others = s.others

theorem State.Ok.change (h : s.Ok metaShift fixed) (hp : p ∈ s.pages) (hf : ∀ q, (f q).lba = q.lba)
    (hpages : s'.pages = updatePage s.pages p.lba f) (hheld : Reheld metaShift fixed s s' p (f p))
    (hmap : ∀ q ∈ s.pages, q.lba ≠ p.lba → s'.MapOk q) (hmap' : s'.MapOk (f p)) : s'.Ok metaShift fixed := by
  have hsum (g : Block → Nat) : heldSum g s'.pages + p.value g = heldSum g s.pages + (f p).value g := by
    rw [hpages]
    exact heldSum_updatePage h.nodup hp
  refine ⟨?_, hheld.represents, fun r => ?_, fun row i => ?_, fun q hq => ?_⟩
  · rw [hpages, map_lba_updatePage hf]
    exact h.nodup
  · have hold := h.live r
    have hnew := hheld.live r
    have hrefs := hsum fun b => if b.run metaShift = r then 1 else 0
    unfold heldRefs at hold ⊢
    omega
  · have hold := h.counts row i
    have hnew := hheld.counts row i
    have hrefs := hsum fun b => if (b.run metaShift).Has row i then 1 else 0
    unfold heldCounts at hold ⊢
    rw [hheld.others]
    omega
  · rw [hpages] at hq
    rcases mem_updatePage hq with ⟨p', hp', hlba, rfl⟩ | ⟨hq, hne⟩
    · rw [eq_of_lba_eq h.nodup hp' hp hlba]
      exact hmap'
    · exact hmap q hq hne

theorem State.Ok.rehold (h : s.Ok metaShift fixed) (hp : p ∈ s.pages) (hmap : p.doneAmapUpdate = false)
    (hf : ∀ q, (f q).lba = q.lba) (hfmap : (f p).doneAmapUpdate = false)
    (hpages : s'.pages = updatePage s.pages p.lba f) (hsame : s'.map = s.map ∧ s'.orig = s.orig)
    (hheld : Reheld metaShift fixed s s' p (f p)) : s'.Ok metaShift fixed := by
  refine h.change hp hf hpages hheld (fun q hq _ => ?_) ?_
  · simpa [State.MapOk, hsame] using h.map q hq
  · simpa [State.MapOk, hmap, hfmap, hsame, hf] using h.map p hp

theorem reference_live (r' : Run Row) : update σ r (σ r + 1) r' = σ r' + if r = r' then 1 else 0 := by
  by_cases hr : r' = r
  · subst hr
    simp
  · simp [hr, Ne.symm hr]

theorem State.Ok.reference (h : s.Ok metaShift fixed) {x : Index} {nodeBlock : Nat} (hp : s.Waits p)
    (hf : ∀ q, (f q).lba = q.lba) (hb : (f p).holds = some b)
    (hfmap : (f p).doneAmapUpdate = p.doneAmapUpdate) (hlive : s.live.Live (b.run metaShift))
    (href : bintRefBlock (s.index b.row) b.entry (Block.count metaShift b) nodeBlock = (x, none)) :
    (s.reference metaShift p.lba b x f).Ok metaShift fixed := by
  refine h.rehold hp.1 hp.2.2.2 hf (hfmap.trans hp.2.2.2) rfl ⟨rfl, rfl⟩
    ⟨represents_bintRefBlock h.represents hlive href, fun r => ?_, fun row i => ?_, rfl⟩
  · rw [Page.value_none (holds_of_waits hp), Page.value_some hb]
    exact reference_live r
  · show Bint.counts (update s.index b.row x) row i + _ = _
    rw [counts_bintRefBlock h.represents hlive href, Page.value_none (holds_of_waits hp), Page.value_some hb]
    exact assign_succ (fun row i hi => h.represents.count hlive hi) row i

theorem live_of_holds (h : s.Ok metaShift fixed) (hp : p ∈ s.pages) (hb : p.holds = some b) :
    s.live.Live (b.run metaShift) := by
  have hone : p.value (fun b' => if b'.run metaShift = b.run metaShift then 1 else 0) = 1 := by
    rw [Page.value_some hb, if_pos rfl]
  have hle := value_le_heldSum (g := fun b' => if b'.run metaShift = b.run metaShift then 1 else 0) hp
  have := h.live (b.run metaShift)
  unfold heldRefs at this
  unfold Store.Live
  omega

theorem release_live (hr : σ.Live r) (r' : Run Row) :
    update σ r (σ r - 1) r' + (if r = r' then 1 else 0) = σ r' := by
  by_cases heq : r' = r
  · subst heq
    simp only [update_self, if_true]
    exact Nat.sub_add_cancel hr
  · simp [heq, Ne.symm heq]

section

variable (h : s.Ok metaShift fixed)
include h

theorem State.Ok.resetDdblock (hp : p ∈ s.pages)
    (hdup : p.foundDuplicate = true) (hmap : p.doneAmapUpdate = false)
    (hb : p.amapBlock = some b) : (s.resetDdblock metaShift p.lba b).Ok metaShift fixed := by
  have hholds : p.holds = some b := by simp [Page.holds, hdup, hb]
  have hlive := live_of_holds h hp hholds
  have hcounts := counts_load_free h.represents hlive
  refine h.rehold (f := fun p => Page.new p.lba) hp hmap (fun _ => rfl) rfl rfl ⟨rfl, rfl⟩
    ⟨represents_load_free h.represents hlive, fun r => ?_, fun row i => ?_, rfl⟩
  · rw [Page.value_some hholds]
    exact release_live hlive r
  · rw [Page.value_some hholds]
    refine Eq.trans ?_ (assign_pred hlive (fun row i hi => h.represents.count hlive hi) row i)
    exact congrArg (· + _) (congrFun (congrFun hcounts row) i)

theorem State.Ok.setIndex {index : Row → Index}
    (hcounts : Bint.counts index = Bint.counts s.index) : State.Ok metaShift fixed { s with index } :=
  ⟨h.nodup, by rw [hcounts]; exact h.represents, h.live, fun row i => by rw [hcounts]; exact h.counts row i, h.map⟩

theorem State.Ok.allocSingle (hp : s.Waits p) {size : Nat} :
    (s.allocSingle metaShift row p.lba size).Ok metaShift fixed := by
  unfold State.allocSingle
  split
  · rename_i x halloc
    have hx := allocRun_none halloc
    exact h.setIndex (counts_update_same fun j => by rw [hx])
  · rename_i x start halloc
    obtain ⟨hlen, -, -, -⟩ := allocRun_spec halloc
    have hzero : ∀ k i, (Block.run metaShift ⟨row.1, row.2, start, size⟩).Has k i →
        Bint.counts s.index k i = 0 := counts_zero_allocRun halloc
    have hfree := h.represents.not_live_of_zero hlen hzero
    let b : Block := ⟨row.1, row.2, start, size⟩
    let f (p : Page) : Page := { p with amapBlock := some b, doneAlloc := true }
    have hb : (f p).holds = some b := by simp [f, Page.holds]
    refine h.rehold (f := f) hp.1 hp.2.2.2 (fun _ => rfl) hp.2.2.2 rfl ⟨rfl, rfl⟩
      ⟨represents_allocRun h.represents halloc, fun r => ?_, fun k i => ?_, rfl⟩
    · have hone := reference_live (σ := s.live) (r := Block.run metaShift ⟨row.1, row.2, start, size⟩) r
      rw [hfree] at hone
      rw [Page.value_none (holds_of_waits hp), Page.value_some hb]
      exact hone
    · have hone := assign_succ (σ := s.live) (fun k i hi => (hzero k i hi).trans hfree.symm) k i
      rw [hfree] at hone
      rw [Page.value_none (holds_of_waits hp), Page.value_some hb]
      exact (congrFun (congrFun (counts_allocRun halloc) k) i).trans hone

end

theorem run_mk {start size : Nat} :
    Block.run metaShift ⟨row.1, row.2, start, size⟩ = blockRun (metaShift row.1) row start size := rfl

theorem sum_map_ite_eq_countP {α : Type} {P : α → Prop} [DecidablePred P] {l : List α} :
    (l.map fun a => if P a then 1 else 0).sum = l.countP fun a => P a := by
  induction l with
  | nil => rfl
  | cons a rest ih =>
    rw [map_cons, sum_cons, ih, countP_cons, Nat.add_comm]
    simp

section

variable (h : s.Ok metaShift fixed)
include h

theorem State.Ok.allocBatch {enableVerify : Bool} {batch : List Pgdata} (hdist : (batch.map Pgdata.lba).Nodup)
    (hwait : ∀ pg ∈ batch, ∃ p, s.Waits p ∧ p.lba = pg.lba) :
    (s.allocBatch metaShift row enableVerify batch).Ok metaShift fixed := by
  unfold State.allocBatch bintAllocForPgdata
  generalize hloop : allocForPgdataLoop (metaShift row.1) enableVerify batch.length (s.index row) batch = res
  obtain ⟨x, placed, left⟩ := res
  have hbatch := Batch.allocForPgdataLoop h.represents hloop
  have hperm := (accounts_allocForPgdataLoop hloop).perm
  have hmem : ∀ pl ∈ placed, pl.pgdata ∈ batch := fun pl hpl =>
    hperm.subset (mem_append_left _ (mem_map_of_mem hpl))
  have hplaced : (placed.map fun pl => pl.pgdata.lba).Nodup := by
    have hall := (hperm.map Pgdata.lba).nodup_iff.mpr hdist
    rw [map_append, map_map] at hall
    exact (nodup_append.mp hall).1
  have hsum : ∀ g, heldSum g (placePages row placed s.pages) = heldSum g s.pages +
      (placed.map fun pl => g ⟨row.1, row.2, pl.start, pl.size⟩).sum := by
    intro g
    refine heldSum_placePages h.nodup hplaced fun pl hpl => ?_
    obtain ⟨p, hp, hlba⟩ := hwait pl.pgdata (hmem pl hpl)
    exact ⟨p, hp.1, hlba, holds_of_waits hp⟩
  refine ⟨?_, hbatch.represents, fun r => ?_, fun k i => ?_, ?_⟩
  · rw [map_lba_placePages]
    exact h.nodup
  · have := h.live r
    rw [heldRefs, hsum, sum_map_ite_eq_countP]
    simp only [run_mk]
    rw [accountPlaced_apply]
    exact Nat.add_le_add_right this _
  · have := h.counts k i
    rw [heldCounts, hsum, sum_map_ite_eq_countP, ← Nat.add_assoc]
    unfold heldCounts at this
    rw [← this]
    by_cases hk : k = row
    · subst hk
      simp only [Bint.counts, run_mk, update_self]
      rw [hbatch.refs i]
      congr
    · have hnone : placed.countP (fun pl =>
          (Block.run metaShift ⟨row.1, row.2, pl.start, pl.size⟩).Has k i) = 0 := by
        rw [countP_eq_zero]
        intro pl _ hhas
        exact hk (of_decide_eq_true hhas).1
      rw [hnone]
      simp [Bint.counts, hk]
  · -- a page that is placed was not yet in the map
    suffices hP : ∀ q ∈ placePages row placed s.pages,
        s.MapOk q ∧ (q.lba ∈ batch.map Pgdata.lba → q.doneAmapUpdate = false) from
      fun q hq => (hP q hq).1
    refine forall_placePages ?_ ?_
    · rintro pl hpl p hlba ⟨hmap, hdone⟩
      have hfalse := hdone (hlba ▸ mem_map_of_mem (hmem pl hpl))
      refine ⟨?_, fun _ => hfalse⟩
      simpa [State.MapOk, Page.placed, hfalse] using hmap
    · intro p hp
      refine ⟨h.map p hp, fun hlba => ?_⟩
      obtain ⟨pg, hpg, heq⟩ := List.mem_map.mp hlba
      obtain ⟨q, hq, hqlba⟩ := hwait pg hpg
      rw [eq_of_lba_eq h.nodup hp hq.1 (heq.symm.trans hqlba.symm)]
      exact hq.2.2.2

theorem State.Ok.setPage (hp : p ∈ s.pages) (hf : ∀ q, (f q).lba = q.lba)
    (hholds : (f p).holds = p.holds) (hpages : s'.pages = updatePage s.pages p.lba f)
    (hsame : s'.index = s.index ∧ s'.live = s.live ∧ s'.others = s.others)
    (hmap : ∀ q ∈ s.pages, q.lba ≠ p.lba → s'.MapOk q) (hmap' : s'.MapOk (f p)) : s'.Ok metaShift fixed := by
  obtain ⟨hindex, hlive, hothers⟩ := hsame
  have hval (g : Block → Nat) : (f p).value g = p.value g := by rw [Page.value, hholds, Page.value]
  refine h.change hp hf hpages ⟨?_, fun r => ?_, fun row i => ?_, hothers⟩ hmap hmap'
  · rw [hindex, hlive]
    exact h.represents
  · rw [hlive, hval]
  · rw [hindex, hval]

theorem State.Ok.copyMiss (hp : s.Waits p) : State.Ok metaShift fixed
      { s with pages := updatePage s.pages p.lba fun p => { p with amapBlock := some b } } := by
  obtain ⟨hmem, hdup, halloc, hdone⟩ := hp
  refine h.setPage hmem ?_ ?_ rfl ⟨rfl, rfl, rfl⟩ (fun q hq _ => h.map q hq) ?_
  · exact fun _ => rfl
  · simp [Page.holds, hdup, halloc]
  · have hold := h.map p hmem
    simpa [State.MapOk, hdone] using hold

theorem State.Ok.amapIo (hp : p ∈ s.pages) (hdone : p.doneAmapUpdate = false) : (s.amapIo p).Ok metaShift fixed := by
  unfold State.amapIo
  split
  · exact h
  · refine h.setPage hp ?_ ?_ rfl ⟨rfl, rfl, rfl⟩ ?_ ?_
    · exact fun _ => rfl
    · rfl
    · intro q hq hne
      have hold := h.map q hq
      simpa [State.MapOk, hne] using hold
    · have hold := h.map p hp
      simpa [State.MapOk, hdone] using hold

theorem State.Ok.step {a : Action} (hstep : step metaShift fixed s a s') : s'.Ok metaShift fixed := by
  cases a with
  | dedupeHit p b nodeBlock x | copyRef p b x =>
    obtain ⟨hp, hlive, href, rfl⟩ := hstep
    exact h.reference hp (fun _ => rfl) rfl rfl hlive href
  | copyMiss p b =>
    obtain ⟨hp, rfl⟩ := hstep
    exact h.copyMiss hp
  | allocBatch row enableVerify batch =>
    obtain ⟨hdist, hwait, rfl⟩ := hstep
    exact h.allocBatch hdist hwait
  | allocSingle p row size =>
    obtain ⟨hp, rfl⟩ := hstep
    exact h.allocSingle hp
  | resetDdblock p b =>
    obtain ⟨hp, hdup, -, hdone, hb, rfl⟩ := hstep
    exact h.resetDdblock hp hdup hdone hb
  | amapIo p =>
    obtain ⟨hp, hdone, rfl⟩ := hstep
    exact h.amapIo hp hdone
  | other s₁ =>
    obtain ⟨rfl, hother⟩ := hstep
    refine ⟨?_, hother.represents, ?_, ?_, ?_⟩
    · rw [hother.pages]
      exact h.nodup
    · rw [hother.pages]
      exact hother.live
    · rw [hother.pages]
      exact hother.counts
    · intro p hp
      rw [hother.pages] at hp
      have hold := h.map p hp
      simpa [State.MapOk, hother.map p hp, hother.orig] using hold

end

theorem ok_of_reachable (h : (system metaShift fixed).Reachable s) : s.Ok metaShift fixed :=
  System.Invariant.reachable (I := State.Ok metaShift fixed)
    ⟨fun hinit => .start hinit, fun hok hstep => hok.step hstep⟩ h

end QuadStor.Write
