import QuadStor.Write.Lemmas.Steps

/-!
# A failed write
-/

namespace QuadStor.Write

open Lib Bint DDTable List Function

variable {metaShift : Nat → Nat} {fixed : Row → Nat → Prop} {s t : State} {p : Page} {b : Block}
  {pages rest : List Page} {g : Block → Nat} {err : Row → Bool} {others : Row → Nat → Nat}

/-- The block of a page whose reference `pgdata_cancel` does not give back; `err` are the indexes that
could not be read. -/
def Page.leaked (err : Row → Bool) (p : Page) : Option Block :=
  p.holds.filter fun b => !p.doneAlloc || err b.row

def leakedSum (err : Row → Bool) (g : Block → Nat) (pages : List Page) : Nat :=
  (pages.map fun p => ((p.leaked err).map g).getD 0).sum

@[simp] theorem leakedSum_cons :
    leakedSum err g (p :: pages) = ((p.leaked err).map g).getD 0 + leakedSum err g pages := rfl

theorem leaked_eq_some : p.leaked err = some b ↔ p.holds = some b ∧ (p.doneAlloc = true → err b.row = true) := by
  cases h : p.holds with
  | none => simp [Page.leaked, h]
  | some b' =>
    simp only [Page.leaked, h, Option.filter_some, Option.some.injEq]
    cases p.doneAlloc <;> cases herr : err b'.row <;> simp_all <;> rintro rfl <;> simp_all

theorem le_leakedSum (hp : p ∈ pages) (hb : p.leaked err = some b) : g b ≤ leakedSum err g pages := by
  induction pages with
  | nil => cases hp
  | cons q rest ih =>
    rw [leakedSum_cons]
    rcases mem_cons.mp hp with rfl | hp
    · simp [hb]
    · have := ih hp
      omega

theorem leakedSum_eq_zero (h : ∀ p ∈ pages, p.leaked err = none) : leakedSum err g pages = 0 := by
  induction pages with
  | nil => rfl
  | cons q rest ih =>
    rw [leakedSum_cons, h q mem_cons_self, ih fun p hp => h p (mem_cons_of_mem _ hp)]
    rfl

def State.releasePage (metaShift : Nat → Nat) (t : State) (p : Page) : State :=
  match p.amapBlock with
  | none => t
  | some b => if p.doneAlloc then t.deleteBlock metaShift b else t

theorem deleteBlock_setMap {map : Nat → Option Block} :
    State.deleteBlock metaShift { t with map } b = { t.deleteBlock metaShift b with map } := by
  unfold State.deleteBlock
  dsimp only
  split_ifs <;> rfl

theorem cancelPage_eq (h : t.MapOk p) : t.cancelPage metaShift p =
      { t.releasePage metaShift p with
        map := if p.doneAmapUpdate then update t.map p.lba p.oldAmapBlock else t.map } := by
  have hkeep : ∀ b, (t.deleteBlock metaShift b).map = t.map := by
    intro b
    unfold State.deleteBlock
    dsimp only
    split_ifs <;> rfl
  unfold State.MapOk at h
  unfold State.cancelPage State.releasePage
  cases hdone : p.doneAmapUpdate with
  | false =>
    cases p.amapBlock with
    | none => rfl
    | some b =>
      cases p.doneAlloc with
      | false => rfl
      | true => simp [← hkeep b]
  | true =>
    rw [hdone, if_pos rfl] at h
    rw [if_neg (by simp), if_neg (not_not.mpr h.1)]
    cases p.amapBlock with
    | none => rfl
    | some b =>
      cases p.doneAlloc with
      | false => rfl
      | true => simp [deleteBlock_setMap]

theorem dataError_releasePage {row : Row} :
    ((t.releasePage metaShift p).index row).dataError = (t.index row).dataError := by
  unfold State.releasePage State.deleteBlock bintFreeBlock
  dsimp only
  split
  · rfl
  · rename_i b _
    by_cases hrow : row = b.row
    · subst hrow
      split_ifs <;> simp [indexCheckLoad_same, freeLoop_spec.2.1]
    · split_ifs <;> simp [hrow]

theorem releasePage_frees (h : t.Ok metaShift fixed) (hp : p ∈ t.pages) (hb : p.holds = some b)
    (halloc : p.doneAlloc = true) (herr : (t.index b.row).dataError = false) :
    Represents fixed (counts (t.releasePage metaShift p).index) (t.releasePage metaShift p).live ∧
      (∀ r, (t.releasePage metaShift p).live r + (if b.run metaShift = r then 1 else 0) = t.live r) ∧
      ∀ row i, counts (t.releasePage metaShift p).index row i +
        (if (b.run metaShift).Has row i then 1 else 0) = counts t.index row i := by
  have hlive := live_of_holds h hp hb
  have hblock : p.amapBlock = some b := by simpa [Page.holds, halloc] using hb
  have heq : t.releasePage metaShift p = { t with
      index := update t.index b.row
        (bintFreeBlock (indexCheckLoad (t.index b.row)) b.entry (Block.count metaShift b)).index
      live := update t.live (b.run metaShift) (t.live (b.run metaShift) - 1) } := by
    simp [State.releasePage, hblock, halloc, State.deleteBlock, indexCheckLoad_same, herr]
  rw [heq]
  refine ⟨represents_load_free h.represents hlive, release_live hlive, fun row i => ?_⟩
  refine Eq.trans ?_ (assign_pred hlive (fun row i hi => h.represents.count hlive hi) row i)
  exact congrArg (· + _) (congrFun (congrFun (counts_load_free h.represents hlive) row) i)

theorem releasePage_keeps (h : ∀ b, p.amapBlock = some b → p.doneAlloc = true → (t.index b.row).dataError = true) :
    counts (t.releasePage metaShift p).index = counts t.index ∧ (t.releasePage metaShift p).live = t.live := by
  unfold State.releasePage
  split
  · exact ⟨rfl, rfl⟩
  · rename_i b hb
    split_ifs with halloc
    · unfold State.deleteBlock
      dsimp only
      rw [indexCheckLoad_same.2.2, h b hb halloc, if_pos rfl]
      exact ⟨counts_update_load, rfl⟩
    · exact ⟨rfl, rfl⟩

theorem releasePage_orig : (t.releasePage metaShift p).orig = t.orig := by
  unfold State.releasePage State.deleteBlock
  dsimp only
  split
  · rfl
  · split_ifs <;> rfl

def State.after (metaShift : Nat → Nat) (err : Row → Bool) (t : State) (p : Page) (rest : List Page) : State :=
  { t.cancelPage metaShift p with
    pages := rest
    others := fun row i => t.others row i +
      (((p.leaked err).map fun b => if (b.run metaShift).Has row i then 1 else 0).getD 0) }

theorem map_cancelPage (h : t.MapOk p) : (t.cancelPage metaShift p).map p.lba = t.orig p.lba ∧
      ∀ lba, lba ≠ p.lba → (t.cancelPage metaShift p).map lba = t.map lba := by
  rw [cancelPage_eq h]
  unfold State.MapOk at h
  cases hdone : p.doneAmapUpdate with
  | false =>
    rw [hdone] at h
    exact ⟨h, fun _ _ => rfl⟩
  | true =>
    rw [hdone, if_pos rfl] at h
    refine ⟨?_, fun lba hne => ?_⟩
    · simp [h.2]
    · simp [hne]

theorem State.Ok.after (h : t.Ok metaShift fixed) (hpages : t.pages = p :: rest)
    (herr : ∀ row, (t.index row).dataError = err row) : (t.after metaShift err p rest).Ok metaShift fixed := by
  have hp : p ∈ t.pages := by simp [hpages]
  have hnodup := h.nodup
  rw [hpages, map_cons, nodup_cons] at hnodup
  obtain ⟨hnot, hnodup⟩ := hnodup
  have horig : (t.cancelPage metaShift p).orig = t.orig := by
    rw [cancelPage_eq (h.map p hp)]
    exact releasePage_orig
  have hmap : ∀ q ∈ rest, (t.after metaShift err p rest).MapOk q := by
    intro q hq
    have hne : q.lba ≠ p.lba := fun heq => hnot (heq ▸ mem_map_of_mem hq)
    have hold := h.map q (by simp [hpages, hq])
    have hsame : (t.cancelPage metaShift p).map q.lba = t.map q.lba :=
      (map_cancelPage (h.map p hp)).2 q.lba hne
    simpa [State.MapOk, State.after, hsame, horig] using hold
  have hlive := h.live
  have hcounts := h.counts
  simp only [hpages, heldRefs, heldCounts, heldSum_cons] at hlive hcounts
  unfold State.after at hmap ⊢
  rw [cancelPage_eq (h.map p hp)] at hmap ⊢
  by_cases hback : ∃ b, p.holds = some b ∧ p.doneAlloc = true ∧ err b.row = false
  · obtain ⟨b, hb, halloc, hb'⟩ := hback
    obtain ⟨hrep, hlive', hcounts'⟩ := releasePage_frees h hp hb halloc ((herr b.row).trans hb')
    have hleak : p.leaked err = none := by simp [Page.leaked, hb, halloc, hb']
    refine ⟨hnodup, hrep, fun r => ?_, fun row i => ?_, hmap⟩
    · have h₁ := hlive r
      have h₂ := hlive' r
      rw [Page.value_some hb] at h₁
      show heldSum _ rest ≤ (t.releasePage metaShift p).live r
      omega
    · have h₁ := hcounts row i
      have h₂ := hcounts' row i
      rw [Page.value_some hb] at h₁
      simp only [hleak, heldCounts, Option.map_none, Option.getD_none]
      omega
  · have hkeep : ∀ b, p.amapBlock = some b → p.doneAlloc = true → (t.index b.row).dataError = true := by
      intro b hb halloc
      by_contra hne
      exact hback ⟨b, by simp [Page.holds, halloc, hb], halloc, by simpa [herr] using hne⟩
    obtain ⟨hcounts', hlive'⟩ : Bint.counts (t.releasePage metaShift p).index = Bint.counts t.index ∧
        (t.releasePage metaShift p).live = t.live := releasePage_keeps hkeep
    have hleak : p.leaked err = p.holds := by
      cases hb : p.holds with
      | none => simp [Page.leaked, hb]
      | some b =>
        refine leaked_eq_some.2 ⟨hb, fun halloc => ?_⟩
        by_contra hne
        exact hback ⟨b, hb, halloc, by simpa using hne⟩
    refine ⟨hnodup, ?_, fun r => ?_, fun row i => ?_, hmap⟩
    · rw [hcounts', hlive']
      exact h.represents
    · have h₁ := hlive r
      show heldSum _ rest ≤ (t.releasePage metaShift p).live r
      rw [hlive']
      omega
    · have h₁ := hcounts row i
      rw [hcounts', h₁, hleak]
      simp only [heldCounts, Page.value]
      omega

theorem foldl_cancelPage_ghost {pages : List Page} {l : List Page} :
    l.foldl (State.cancelPage metaShift) { t with pages, others } =
      { l.foldl (State.cancelPage metaShift) t with pages, others } := by
  induction l generalizing t with
  | nil => rfl
  | cons q rest ih =>
    rw [foldl_cons, foldl_cons, ← ih]
    congr 1
    unfold State.cancelPage State.deleteBlock
    dsimp only
    split_ifs <;> (try split) <;> (try split_ifs) <;> rfl

theorem foldl_cancelPage (h : t.Ok metaShift fixed) (hpages : t.pages = pages)
    (herr : ∀ row, (t.index row).dataError = err row) :
    (∀ row i, counts (pages.foldl (State.cancelPage metaShift) t).index row i = t.others row i +
        leakedSum err (fun b => if (b.run metaShift).Has row i then 1 else 0) pages) ∧
      (∀ p ∈ pages, (pages.foldl (State.cancelPage metaShift) t).map p.lba = t.orig p.lba) ∧
      ∀ lba, lba ∉ pages.map Page.lba → (pages.foldl (State.cancelPage metaShift) t).map lba = t.map lba := by
  induction pages generalizing t with
  | nil =>
    refine ⟨fun row i => ?_, by simp, fun _ _ => rfl⟩
    have := h.counts row i
    rw [hpages] at this
    exact this
  | cons p rest ih =>
    have hp : p ∈ t.pages := by simp [hpages]
    have hok := h.map p hp
    have hnodup := h.nodup
    rw [hpages, map_cons, nodup_cons] at hnodup
    have hat : (t.cancelPage metaShift p).map p.lba = t.orig p.lba := (map_cancelPage hok).1
    have hoff : ∀ lba, lba ≠ p.lba → (t.cancelPage metaShift p).map lba = t.map lba :=
      (map_cancelPage hok).2
    obtain ⟨hcounts, hback, hkeep⟩ := ih (h.after hpages herr) rfl fun row => by
      rw [State.after, cancelPage_eq hok]
      exact dataError_releasePage.trans (herr row)
    have horig : (t.cancelPage metaShift p).orig = t.orig := by
      rw [cancelPage_eq hok]
      exact releasePage_orig
    unfold State.after at hcounts hback hkeep
    rw [foldl_cancelPage_ghost] at hcounts hback hkeep
    refine ⟨fun row i => ?_, fun q hq => ?_, fun lba hlba => ?_⟩
    · rw [foldl_cons, hcounts row i, leakedSum_cons, Nat.add_assoc]
    · rw [foldl_cons]
      rcases mem_cons.mp hq with rfl | hq
      · rw [hkeep q.lba hnodup.1, hat]
      · exact (hback q hq).trans (congrFun horig _)
    · rw [map_cons, mem_cons, not_or] at hlba
      rw [foldl_cons, hkeep lba hlba.2, hoff lba hlba.1]

/-- A failed write leaves no trace exactly when every reference it has was taken with `DDBLOCK_ENTRY_DONE_ALLOC` (so not
by a dedupe hit), on an index that can be read. -/
theorem failed_write_leaves_no_trace (h : (system metaShift fixed).Reachable s) :
    ((∀ p ∈ s.pages, (pgdataCancel metaShift s).map p.lba = s.orig p.lba) ∧
        ∀ row i, counts (pgdataCancel metaShift s).index row i = s.others row i) ↔
      ∀ p ∈ s.pages, ∀ b, p.holds = some b → p.doneAlloc = true ∧ (s.index b.row).dataError = false := by
  unfold pgdataCancel
  obtain ⟨hcounts, hmap, -⟩ := foldl_cancelPage (ok_of_reachable h) rfl fun _ => rfl
  constructor
  · rintro ⟨-, hsame⟩ p hp b hb
    by_contra hnot
    have hleak : p.leaked (fun row => (s.index row).dataError) = some b := by
      refine leaked_eq_some.2 ⟨hb, fun halloc => ?_⟩
      by_contra hne
      exact hnot ⟨halloc, by simpa using hne⟩
    have hok := ok_of_reachable h
    have hfirst : (b.run metaShift).Has b.row b.entry :=
      Run.has_start (hok.represents.len_pos (live_of_holds hok hp hb))
    have hle := le_leakedSum (g := fun b' => if (b'.run metaShift).Has b.row b.entry then 1 else 0) hp hleak
    rw [if_pos hfirst] at hle
    have h₁ := hcounts b.row b.entry
    have h₂ := hsame b.row b.entry
    omega
  · intro hall
    refine ⟨hmap, fun row i => ?_⟩
    rw [hcounts row i, leakedSum_eq_zero, Nat.add_zero]
    intro p hp
    cases hb : p.leaked fun row => (s.index row).dataError with
    | none => rfl
    | some b =>
      obtain ⟨hholds, herr⟩ := leaked_eq_some.1 hb
      obtain ⟨halloc, hread⟩ := hall p hp b hholds
      exact absurd (herr halloc) (by simp [hread])

def oneBlock : State :=
  let index := update (fun _ => Index.new) (1, 0)
    { Index.new with bmap := update (fun _ => 0) 0 (bmapVal 5 1), freeBlocks := 639 }
  { index
    map := fun _ => none
    pages := [Page.new 7]
    live := update (fun _ => 0) ⟨(1, 0), 0, 1⟩ 1
    others := counts index
    orig := fun _ => none }

theorem oneBlock_start : oneBlock.Start fun _ _ => False := by
  have none := Nat.lt_irrefl 0
  have hempty : Represents (fun _ _ => False) (counts fun _ : Row => Index.new) fun _ => 0 :=
    ⟨fun h => (none h).elim, fun h => (none h).elim, fun h => (none h).elim,
      fun h => absurd rfl h, False.elim, fun h => (none h).elim⟩
  refine ⟨by decide, by decide, ?_, rfl, rfl⟩
  have hnew := hempty.alloc (r := ⟨(1, 0), 0, 1⟩) (n := 1) Nat.one_pos fun _ _ _ => rfl
  rw [← counts_update_run] at hnew
  · exact hnew
  · intro j
    by_cases hj : j = 0
    · subst hj
      decide
    · simp [hj, Index.new]

/-- Page 7 takes a reference on a block found in the table, and the write then fails: nobody will give it back. -/
theorem dedupe_hit_keeps_reference : ∃ s, (system (fun _ => 12) fun _ _ => False).Reachable s ∧ s.others (1, 0) 0 = 1 ∧
      counts (pgdataCancel (fun _ => 12) s).index (1, 0) 0 = 2 := by
  have hlive : oneBlock.live.Live (Block.run (fun _ => 12) ⟨1, 0, 0, 4096⟩) := by
    show 0 < _
    decide
  have href : (bintRefBlock (oneBlock.index (1, 0)) 0 1 5).2 = none := by decide
  have hstep : (system (fun _ => 12) fun _ _ => False).step oneBlock
      (.dedupeHit (Page.new 7) ⟨1, 0, 0, 4096⟩ 5 (bintRefBlock (oneBlock.index (1, 0)) 0 1 5).1) _ :=
    ⟨⟨mem_cons_self, rfl, rfl, rfl⟩, hlive, Prod.ext rfl href, rfl⟩
  exact ⟨_, .step (.init oneBlock_start) hstep, by decide +kernel, by decide +kernel⟩

theorem failed_write_leaves_no_trace_allocated :
    (∀ p ∈ (oneBlock.allocSingle (fun _ => 12) (1, 0) 7 4096).pages, p.holds = some ⟨1, 0, 1, 4096⟩) ∧
      ∀ row i, counts (pgdataCancel (fun _ => 12) (oneBlock.allocSingle (fun _ => 12) (1, 0) 7 4096)).index row i =
          counts oneBlock.index row i := by
  have hreach : (system (fun _ => 12) fun _ _ => False).Reachable (oneBlock.allocSingle (fun _ => 12) (1, 0) 7 4096) :=
    .step (a := .allocSingle (Page.new 7) (1, 0) 4096) (.init oneBlock_start) ⟨⟨mem_cons_self, rfl, rfl, rfl⟩, rfl⟩
  refine ⟨by decide +kernel, ?_⟩
  exact ((failed_write_leaves_no_trace hreach).mpr (by decide +kernel)).2

end QuadStor.Write
