import QuadStor.DDTable.Basic
import QuadStor.Bint.Lemmas.Runs

/-!
# Entries and the blocks they name
-/

namespace QuadStor.DDTable

open Lib Bint List Function

variable {metaShift : Nat → Nat} {fixed : Row → Nat → Prop} {s s' : State} {slots : Slots} {e : Entry}
  {b : Block} {n i hash : Nat} {data : Run Row → Nat} {placed : List Placed}

theorem mem_clearInvalidEntries : some e ∈ ddtableClearInvalidEntries metaShift b slots ↔
      some e ∈ slots ∧ keepEntry metaShift b e = true := by
  simp only [ddtableClearInvalidEntries, List.mem_map]
  constructor
  · rintro ⟨slot, hmem, hslot⟩
    obtain ⟨rfl, hkeep⟩ := Option.filter_eq_some_iff.mp hslot
    exact ⟨hmem, hkeep⟩
  · rintro ⟨hmem, hkeep⟩
    exact ⟨some e, hmem, Option.filter_eq_some_iff.mpr ⟨rfl, hkeep⟩⟩

theorem mem_setSlot {e' : Entry} (h : some e' ∈ setSlot slots i e) : e' = e ∨ some e' ∈ slots := by
  unfold setSlot at h
  split at h
  · rcases mem_or_eq_of_mem_set h with hmem | heq
    · exact .inr hmem
    · exact .inl (Option.some.inj heq)
  · simpa [or_comm] using h

theorem mem_set_none (h : some e ∈ slots.set i none) : some e ∈ slots := by
  rcases mem_or_eq_of_mem_set h with hmem | heq
  · exact hmem
  · cases heq

theorem mem_hashRemoveBlock (h : some e ∈ ddtableHashRemoveBlock b slots) : some e ∈ slots := by
  induction slots with
  | nil => cases h
  | cons slot rest ih =>
    cases slot with
    | none =>
      simp only [ddtableHashRemoveBlock, mem_cons, reduceCtorEq, false_or] at h
      exact mem_cons_of_mem _ (ih h)
    | some e' =>
      simp only [ddtableHashRemoveBlock] at h
      split at h
      · simp only [mem_cons, reduceCtorEq, false_or] at h
        exact mem_cons_of_mem _ h
      · rcases mem_cons.mp h with heq | hmem
        · exact heq ▸ mem_cons_self
        · exact mem_cons_of_mem _ (ih hmem)

theorem findEntry_spec {j : Nat} (h : findEntry hash slots j = some (i, e)) : some e ∈ slots ∧ e.hash = hash := by
  induction slots generalizing j with
  | nil => cases h
  | cons slot rest ih =>
    cases slot with
    | none =>
      obtain ⟨hmem, hhash⟩ := ih h
      exact ⟨mem_cons_of_mem _ hmem, hhash⟩
    | some e' =>
      simp only [findEntry] at h
      split at h
      · cases h
        exact ⟨mem_cons_self, by assumption⟩
      · obtain ⟨hmem, hhash⟩ := ih h
        exact ⟨mem_cons_of_mem _ hmem, hhash⟩

theorem keepEntry_eq_false (hrow : e.block.row = b.row) (hentry : e.block.entry = b.entry)
    (hpos : 0 < b.size / 2 ^ metaShift b.bid) : keepEntry metaShift b e = false := by
  obtain ⟨hbid, hid⟩ := Prod.mk.inj hrow
  simp only [keepEntry, hbid, hid, hentry, blockEntryValid]
  simp [hpos]

def State.nodeAt (s : State) (row : Row) (i : Nat) : Nat := nodeOf ((s.index row).bmap i)

def State.Holds (metaShift : Nat → Nat) (s : State) (b : Block) (hash : Nat) : Prop :=
  s.live.Live (b.run metaShift) ∧ s.data (b.run metaShift) = hash

structure State.Ok (metaShift : Nat → Nat) (fixed : Row → Nat → Prop) (s : State) : Prop where
  represents : Represents fixed (counts s.index) s.live
  size_pos : ∀ {n e}, some e ∈ s.node n → 0 < (e.block.run metaShift).len
  entries : ∀ {n e}, n ≠ 0 → some e ∈ s.node n → s.nodeAt e.block.row e.block.entry = n →
    s.Holds metaShift e.block e.hash
  pages : ∀ p ∈ s.pending, p.current = true → s.Holds metaShift p.block p.hash

section

variable (h : s.Ok metaShift fixed) (hrep : Represents fixed (counts s'.index) s'.live)
  (hslots : ∀ n e, some e ∈ s'.node n → some e ∈ s.node n)
  (hnode : ∀ row i, s'.nodeAt row i = s.nodeAt row i ∨ s'.nodeAt row i = 0)
include h hrep hslots hnode

theorem State.Ok.of_step
    (hkeep : ∀ r, s.live.Live r → s'.nodeAt r.row r.start ≠ 0 → s'.live.Live r ∧ s'.data r = s.data r)
    (hpages : ∀ p ∈ s'.pending, p.current = true → s'.Holds metaShift p.block p.hash) : s'.Ok metaShift fixed := by
  refine ⟨hrep, fun hmem => h.size_pos (hslots _ _ hmem), ?_, hpages⟩
  intro n e hn hmem hat
  have hold : s.nodeAt e.block.row e.block.entry = n := by
    rcases hnode e.block.row e.block.entry with heq | hz
    · rw [← heq, hat]
    · exact absurd (hz.symm.trans hat) hn.symm
  obtain ⟨hlive, hdata⟩ := h.entries hn (hslots _ _ hmem) hold
  have hne := hat.symm ▸ hn
  obtain ⟨hlive', hdata'⟩ := hkeep _ hlive hne
  exact ⟨hlive', hdata'.trans hdata⟩

theorem State.Ok.of_mono (hkeep : ∀ r, s.live.Live r → s'.live.Live r ∧ s'.data r = s.data r)
    (hpending : ∀ p ∈ s'.pending, p.current = true →
      p ∈ s.pending ∨ s'.Holds metaShift p.block p.hash) : s'.Ok metaShift fixed := by
  refine h.of_step hrep hslots hnode (fun r hlive _ => hkeep r hlive) ?_
  intro p hp hcur
  rcases hpending p hp hcur with hold | hholds
  · obtain ⟨hlive, hdata⟩ := h.pages p hold hcur
    obtain ⟨hlive', hdata'⟩ := hkeep _ hlive
    exact ⟨hlive', hdata'.trans hdata⟩
  · exact hholds

end

variable {x : Index} {row : Row}

theorem nodeAt_update (hindex : s'.index = update s.index row x)
    (h : ∀ i, nodeOf (x.bmap i) = nodeOf ((s.index row).bmap i) ∨ nodeOf (x.bmap i) = 0)
    (row' : Row) (i : Nat) : s'.nodeAt row' i = s.nodeAt row' i ∨ s'.nodeAt row' i = 0 := by
  unfold State.nodeAt
  rw [hindex]
  by_cases hrow : row' = row
  · subst hrow
    simpa using h i
  · simp [hrow]

theorem State.Ok.setIndex (h : s.Ok metaShift fixed) (hx : x.bmap = (s.index row).bmap) :
    State.Ok metaShift fixed { s with index := update s.index row x } := by
  have hcounts := counts_update_same fun j => by rw [hx]
  refine h.of_mono ?_ (fun _ _ hmem => hmem) (nodeAt_update rfl fun i => .inl (by rw [hx]))
    (fun r hlive => ⟨hlive, rfl⟩) (fun p hp _ => .inl hp)
  rw [hcounts]
  exact h.represents

theorem nodeOf_bintRefBlock {x' : Index} {entry count nodeBlock : Nat}
    (h : bintRefBlock x entry count nodeBlock = (x', none)) (j : Nat) : nodeOf (x'.bmap j) = nodeOf (x.bmap j) := by
  obtain ⟨bmap, rfl, -, hrange, hval⟩ := bintRefBlock_ok h
  show nodeOf (bmap j) = _
  rw [hval j]
  split_ifs with hj
  · obtain ⟨-, -, hmax⟩ := hrange j hj.1 hj.2
    have hlt := refsOf_lt (x.bmap entry)
    unfold maxRefs at hmax
    exact nodeOf_bmapVal (by omega)
  · rfl

section

variable (h : s.Ok metaShift fixed)
include h

theorem State.Ok.reference (hlive : s.live.Live (b.run metaShift))
    (href : bintRefBlock (s.index b.row) b.entry (b.size / 2 ^ metaShift b.bid) n = (x, none)) :
    State.Ok metaShift fixed
      { s with
        index := update s.index b.row x
        live := update s.live (b.run metaShift) (s.live (b.run metaShift) + 1) } := by
  refine h.of_mono (represents_bintRefBlock h.represents hlive href) (fun _ _ hmem => hmem)
    (nodeAt_update rfl fun i => .inl (nodeOf_bintRefBlock href i)) ?_ (fun p hp _ => .inl hp)
  intro r hr
  refine ⟨?_, rfl⟩
  by_cases heq : r = b.run metaShift
  · simp [heq, Store.Live]
  · simpa [heq, Store.Live] using hr

theorem State.Ok.lookup_holds (hn : n ≠ 0) (hl : lookup metaShift s n hash = (s', some b)) :
    s.Holds metaShift b hash ∧ s'.Holds metaShift b hash := by
  unfold lookup at hl
  split at hl
  · cases hl
  · rename_i i e hfind
    obtain ⟨hmem, rfl⟩ := findEntry_spec hfind
    unfold ddblockInfoGet at hl
    dsimp only at hl
    split at hl
    · rename_i x href
      cases hl
      obtain ⟨_, -, hnode, -⟩ := bintRefBlock_ok href
      have hholds := h.entries hn hmem (hnode (h.size_pos hmem) hn)
      refine ⟨hholds, ?_, hholds.2⟩
      simp [Store.Live]
    · cases hl

theorem State.Ok.lookup (hn : n ≠ 0) : (lookup metaShift s n hash).1.Ok metaShift fixed := by
  generalize hl : DDTable.lookup metaShift s n hash = res
  obtain ⟨s', _ | b⟩ := res
  · unfold DDTable.lookup at hl
    split at hl
    · cases hl
      exact h
    · unfold ddblockInfoGet at hl
      dsimp only at hl
      split at hl <;> cases hl
      refine h.of_mono h.represents ?_ (fun _ _ => .inl rfl) (fun r hlive => ⟨hlive, rfl⟩) (fun p hp _ => .inl hp)
      intro n' e hmem
      by_cases hn' : n' = n
      · subst hn'
        exact mem_set_none (by simpa using hmem)
      · simpa [hn'] using hmem
  · have hlive := (h.lookup_holds hn hl).1.1
    unfold DDTable.lookup at hl
    split at hl
    · cases hl
    · unfold ddblockInfoGet at hl
      dsimp only at hl
      split at hl
      · rename_i href
        cases hl
        exact h.reference hlive href
      · cases hl

theorem State.Ok.deleteBlock (hlive : s.live.Live (b.run metaShift))
    (ddlookup : Option Nat) : (processDeleteBlock metaShift s b ddlookup).Ok metaShift fixed := by
  have hrefs : ∀ j, b.entry ≤ j → j < b.entry + b.size / 2 ^ metaShift b.bid →
      refsOf ((s.index b.row).bmap j) = s.live (b.run metaShift) :=
    fun j h₁ h₂ => h.represents.count hlive ⟨rfl, h₁, h₂⟩
  have hlen : 0 < b.size / 2 ^ metaShift b.bid := h.represents.len_pos hlive
  have hbmap := bintFreeBlock_bmap hlen (Nat.ne_of_gt hlive) hrefs
  have hnode : ∀ i, nodeOf ((bintFreeBlock (s.index b.row) b.entry
      (b.size / 2 ^ metaShift b.bid)).index.bmap i) = nodeOf ((s.index b.row).bmap i) ∨
      nodeOf ((bintFreeBlock (s.index b.row) b.entry (b.size / 2 ^ metaShift b.bid)).index.bmap i) = 0 := by
    intro i
    rw [hbmap i]
    split_ifs
    · rw [nodeOf_releaseVal]
      split_ifs
      · exact .inr rfl
      · exact .inl rfl
    · exact .inl rfl
  refine h.of_step (represents_bintFreeBlock h.represents hlive) ?_ (nodeAt_update rfl hnode) ?_ ?_
  · intro n e hmem
    unfold processDeleteBlock at hmem
    dsimp only at hmem
    generalize (bintFreeBlock (s.index b.row) b.entry (b.size / 2 ^ metaShift b.bid)).freed = freed at hmem
    cases freed with
    | false => exact hmem
    | true =>
      cases ddlookup with
      | none => exact hmem
      | some bStart =>
        by_cases hn : n = bStart
        · subst hn
          exact mem_hashRemoveBlock (by simpa using hmem)
        · simpa [hn] using hmem
  · intro r hr hne
    refine ⟨?_, rfl⟩
    by_cases heq : r = b.run metaShift
    · subst heq
      -- the last reference takes the node block with it
      have hmore : s.live (b.run metaShift) ≠ 1 := by
        intro hone
        have hat : (processDeleteBlock metaShift s b ddlookup).nodeAt b.row b.entry =
            nodeOf ((bintFreeBlock (s.index b.row) b.entry (b.size / 2 ^ metaShift b.bid)).index.bmap b.entry) := by
          simp [State.nodeAt, processDeleteBlock]
        rw [hbmap, if_pos ⟨le_rfl, by omega⟩, nodeOf_releaseVal,
          hrefs _ le_rfl (by omega), if_pos hone] at hat
        exact hne hat
      simp only [processDeleteBlock, Store.Live, update_self]
      unfold Store.Live at hr
      omega
    · simpa [processDeleteBlock, heq, Store.Live] using hr
  · intro p hp hcur
    simp only [processDeleteBlock, List.mem_map] at hp
    obtain ⟨q, hq, rfl⟩ := hp
    split at hcur
    · cases hcur
    · rename_i hnot
      rw [if_neg hnot]
      obtain ⟨hlive', hdata⟩ := h.pages q hq hcur
      refine ⟨?_, hdata⟩
      by_cases heq : q.block.run metaShift = b.run metaShift
      · have hne : s.live (b.run metaShift) ≠ 1 := fun hone => hnot ⟨heq, hone⟩
        simp only [processDeleteBlock, Store.Live, heq, update_self]
        unfold Store.Live at hlive
        omega
      · simpa [processDeleteBlock, heq, Store.Live] using hlive'

end

theorem dataPlaced_of_not_mem {r : Run Row} (h : ∀ p ∈ placed, r ≠ blockRun (metaShift row.1) row p.start p.size) :
    dataPlaced metaShift row data placed r = data r := by
  induction placed generalizing data with
  | nil => rfl
  | cons p rest ih =>
    exact (ih fun q hq => h q (mem_cons_of_mem _ hq)).trans (update_of_ne (h p mem_cons_self) _ _)

theorem dataPlaced_of_mem {p : Placed}
    (h : ∀ p ∈ placed, ∀ q ∈ placed, p.start = q.start → p.pgdata.hash = q.pgdata.hash) (hp : p ∈ placed) :
    dataPlaced metaShift row data placed (blockRun (metaShift row.1) row p.start p.size) = p.pgdata.hash := by
  induction placed generalizing data p with
  | nil => cases hp
  | cons q rest ih =>
    have hrest : ∀ p ∈ rest, ∀ q ∈ rest, p.start = q.start → p.pgdata.hash = q.pgdata.hash :=
      fun p hp q hq => h p (mem_cons_of_mem _ hp) q (mem_cons_of_mem _ hq)
    by_cases hmem : ∃ a ∈ rest, blockRun (metaShift row.1) row p.start p.size =
        blockRun (metaShift row.1) row a.start a.size
    · obtain ⟨a, ha, heq⟩ := hmem
      have hstart := congrArg Run.start heq
      rw [heq, h p hp a (mem_cons_of_mem _ ha) hstart]
      exact ih hrest ha
    · have hnot : ∀ a ∈ rest, blockRun (metaShift row.1) row p.start p.size ≠
          blockRun (metaShift row.1) row a.start a.size := fun a ha heq => hmem ⟨a, ha, heq⟩
      rcases mem_cons.mp hp with rfl | hp
      · exact (dataPlaced_of_not_mem hnot).trans (update_self _ _ _)
      · exact absurd rfl (hnot p hp)

variable (h : s.Ok metaShift fixed)
include h

theorem State.Ok.allocForPgdata {enableVerify : Bool} {pages : List Pgdata}
    {mapped : Bool} : (allocForPgdata metaShift s row enableVerify pages mapped).Ok metaShift fixed := by
  unfold DDTable.allocForPgdata bintAllocForPgdata
  generalize hloop : allocForPgdataLoop (metaShift row.1) enableVerify pages.length (s.index row) pages = res
  have hbatch := Batch.allocForPgdataLoop h.represents hloop
  refine h.of_mono hbatch.represents (fun _ _ hmem => hmem) (nodeAt_update rfl ?_) ?_ ?_
  · intro i
    rcases hbatch.node i with heq | hz
    · exact .inl (by rw [heq])
    · exact .inr hz
  · intro r hlive
    refine ⟨Nat.lt_of_lt_of_le hlive le_accountPlaced, dataPlaced_of_not_mem ?_⟩
    -- the runs of the batch were free
    rintro p hp rfl
    have hhanded := hbatch.handed p hp
    have hcount := h.represents.count hlive (Run.has_start hhanded.len_pos)
    have hzero := hhanded.zero p.start le_rfl (Nat.lt_add_of_pos_right hhanded.len_pos)
    simp only [counts, blockRun, hzero, refsOf_zero] at hcount
    exact absurd hcount (Nat.ne_of_lt hlive)
  · intro p hp _
    rcases mem_append.mp hp with hp | hp
    · exact .inl hp
    · right
      simp only [pendingOf, List.mem_map, mem_filter] at hp
      obtain ⟨q, ⟨hq, -⟩, rfl⟩ := hp
      exact ⟨(hbatch.handed q hq).live, dataPlaced_of_mem hbatch.hash_eq hq⟩

theorem State.Ok.allocBlock {size : Nat} : (allocBlock metaShift s row size).Ok metaShift fixed := by
  unfold DDTable.allocBlock bintAllocBlock
  generalize halloc : allocRun (s.index row) (size / 2 ^ metaShift row.1) = res
  obtain ⟨x, _ | start⟩ := res
  · exact h.setIndex (by rw [allocRun_none halloc])
  · obtain ⟨hcount, -, hz, rfl⟩ := allocRun_spec halloc
    refine h.of_mono (represents_allocRun h.represents halloc) (fun _ _ hmem => hmem)
      (nodeAt_update rfl ?_) ?_ (fun p hp _ => .inl hp)
    · intro i
      show nodeOf (markLoop _ _ _ i) = _ ∨ nodeOf (markLoop _ _ _ i) = 0
      rw [markLoop_apply]
      split_ifs
      · exact .inr rfl
      · exact .inl rfl
    · intro r hlive
      have hne : r ≠ blockRun (metaShift row.1) row start size := by
        rintro rfl
        have hcnt := h.represents.count hlive (Run.has_start hcount)
        simp only [counts, blockRun, hz start le_rfl (Nat.lt_add_of_pos_right hcount), refsOf_zero] at hcnt
        exact absurd hcnt (Nat.ne_of_lt hlive)
      simpa [hne, Store.Live] using hlive

theorem State.Ok.enter (insertIdx : Nat) (hb : s.Holds metaShift b hash)
    (hset : bdevSetNodeBlock (s.index b.row) b.entry n = some x)
    (hclear : ∀ e, some e ∈ s.node n → ¬(e.block.row = b.row ∧ e.block.entry = b.entry)) : State.Ok metaShift fixed
      { s with
        index := update s.index b.row x
        node := update s.node n (setSlot (s.node n) insertIdx ⟨hash, b⟩) } := by
  obtain ⟨-, rfl⟩ := bdevSetNodeBlock_some hset
  have hother : ∀ row i, ¬(row = b.row ∧ i = b.entry) →
      nodeOf ((update s.index b.row ((s.index b.row).set b.entry
        (bmapVal n (refsOf ((s.index b.row).bmap b.entry)))) row).bmap i) = s.nodeAt row i := by
    intro row i hne
    by_cases hrow : row = b.row
    · subst hrow
      have hi : i ≠ b.entry := fun hi => hne ⟨rfl, hi⟩
      simp [Index.set, hi, State.nodeAt]
    · simp [hrow, State.nodeAt]
  have hown : nodeOf ((update s.index b.row ((s.index b.row).set b.entry
      (bmapVal n (refsOf ((s.index b.row).bmap b.entry)))) b.row).bmap b.entry) = n := by
    simp [Index.set, nodeOf_bmapVal (refsOf_lt _)]
  have hmem : ∀ n' e, some e ∈ update s.node n (setSlot (s.node n) insertIdx ⟨hash, b⟩) n' →
      (n' = n ∧ e = ⟨hash, b⟩) ∨ some e ∈ s.node n' := by
    intro n' e he
    by_cases hn' : n' = n
    · subst hn'
      rw [update_self] at he
      rcases mem_setSlot he with heq | hold
      · exact .inl ⟨rfl, heq⟩
      · exact .inr hold
    · exact .inr (by simpa [hn'] using he)
  refine ⟨?_, ?_, ?_, h.pages⟩
  · have hcounts : counts (update s.index b.row ((s.index b.row).set b.entry
        (bmapVal n (refsOf ((s.index b.row).bmap b.entry))))) = counts s.index :=
      counts_update_same refsOf_set_node
    simpa only [hcounts] using h.represents
  · intro n' e he
    rcases hmem n' e he with ⟨-, rfl⟩ | hold
    · exact h.represents.len_pos hb.1
    · exact h.size_pos hold
  · intro n' e hn' he hat
    rcases hmem n' e he with ⟨-, rfl⟩ | hold
    · exact hb
    · -- an older entry with the same first bitmap entry is in another node
      have hne : ¬(e.block.row = b.row ∧ e.block.entry = b.entry) := by
        rintro ⟨hrow, hentry⟩
        have hat' : nodeOf ((update s.index b.row _ e.block.row).bmap e.block.entry) = n' :=
          hat
        rw [hrow, hentry, hown] at hat'
        subst hat'
        exact hclear e hold ⟨hrow, hentry⟩
      exact h.entries hn' hold ((hother _ _ hne).symm.trans hat)

theorem State.Ok.hashInsert {page : Page} {insertIdx : Nat} (hpage : page ∈ s.pending) (hcur : page.current = true) :
    (hashInsert metaShift s page n insertIdx).Ok metaShift fixed := by
  have hholds := h.pages page hpage hcur
  have hcleared : State.Ok metaShift fixed
      { s with
        node := update s.node n (ddtableClearInvalidEntries metaShift page.block (s.node n))
        pending := s.pending.erase page } := by
    refine h.of_mono h.represents ?_ (fun _ _ => .inl rfl) (fun r hr => ⟨hr, rfl⟩)
      (fun p hp _ => .inl (mem_of_mem_erase hp))
    intro n' e hmem
    by_cases hn : n' = n
    · subst hn
      have hmem : some e ∈ update s.node n' _ n' := hmem
      rw [update_self] at hmem
      exact (mem_clearInvalidEntries.1 hmem).1
    · simpa [hn] using hmem
  unfold DDTable.hashInsert
  split
  · exact hcleared
  · split
    · exact hcleared
    · rename_i x hset
      have henter := hcleared.enter insertIdx hholds hset ?_
      · simpa using henter
      · intro e he
        have he : some e ∈ update s.node n _ n := he
        rw [update_self] at he
        rintro ⟨hrow, hentry⟩
        have hkeep := (mem_clearInvalidEntries.1 he).2
        rw [keepEntry_eq_false hrow hentry (h.represents.len_pos hholds.1)] at hkeep
        cases hkeep

end QuadStor.DDTable
