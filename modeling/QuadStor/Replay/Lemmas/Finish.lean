import QuadStor.Replay.Lemmas.Interrupted

/-!
# Every replay can be finished
-/

namespace QuadStor.Replay

open Lib Bint DDTable

variable {c : Config} {w : World} {e : LogEntry} {log : List LogEntry} {n m target : Nat} {r : Run}
  {o o' : Option Table} {key : Nat × Nat} {rows : List Row} {maps : List (Nat × Nat)} {row : Row}

def amapAt (o : Option Table) (n : Nat) : Option Amap := o.bind fun t => t.amap n

theorem SameShape.eq (h : SameShape o o') (hamap : ∀ n, amapAt o n = amapAt o' n) : o = o' := by
  rcases o with _ | t <;> rcases o' with _ | t'
  · rfl
  · cases h
  · cases h
  · obtain ⟨error, amap⟩ := t
    obtain ⟨error', amap'⟩ := t'
    obtain rfl : error = error' := h.1
    obtain rfl : amap = amap' := funext hamap
    rfl

theorem SameShape.amapAt_metaStep (h : SameShape o o') (hamap : amapAt o n = amapAt o' n) :
    amapAt (Replay.metaStep c e o) n = amapAt (Replay.metaStep c e o') n := by
  rcases o with _ | t <;> rcases o' with _ | t'
  · rfl
  · cases h
  · cases h
  · have hnone := h.amap_none (n := amapId e.lba)
    unfold Replay.metaStep
    dsimp only
    rw [h.1]
    cases ha : t.amap (amapId e.lba) with
    | none =>
      rw [hnone.mp ha]
      split_ifs
      · exact hamap
      · by_cases hn : n = amapId e.lba
        · simp [amapAt, Table.setAmap, hn]
        · simpa [amapAt, Table.setAmap, hn] using hamap
    | some a =>
      cases ha' : t'.amap (amapId e.lba) with
      | none => simp [hnone.mpr ha'] at ha
      | some a' => exact hamap

theorem amapAt_amapStep (h : n ≠ amapId e.lba) : amapAt (amapStep e o) n = amapAt o n := by
  cases o with
  | none => rfl
  | some t =>
    unfold amapStep
    dsimp only
    split
    · rfl
    · split_ifs
      · rfl
      · simp [amapAt, Table.setAmap, h]

/-! ## What is not on disk yet -/

structure Run.Dirty (rows : List Row) (maps : List (Nat × Nat)) (r : Run) : Prop where
  index : ∀ row, row ∉ rows → r.disk.index row = r.mem.index row
  amap : ∀ key n, ¬ (key.2 = tableId n ∧ (key.1, n) ∈ maps) → amapAt (r.disk.table key) n = amapAt (r.mem.table key) n

theorem dirty_of_eq (h : r.disk = r.mem) : r.Dirty rows maps :=
  ⟨fun _ _ => by rw [h], fun _ _ _ => by rw [h]⟩

theorem Run.Dirty.clean (hok : r.Ok c w log) (h : r.Dirty [] []) : r.disk = r.mem := by
  have hindex := funext fun row => h.index row (by simp)
  have htable := funext fun key => (hok.shape key).eq fun n => h.amap key n (by simp)
  cases hd : r.disk
  cases hm : r.mem
  simp_all

theorem Run.Dirty.entry {rest : List LogEntry} (hok : r.Ok c w log) (hrest : r.rest = e :: rest)
    (h : r.Dirty rows maps) : (r.run c .entry).Dirty ((e.newBlock.map Block.row).toList ++ rows)
      ((e.targetId, amapId e.lba) :: maps) := by
  simp only [Run.run, hrest]
  constructor
  · intro row hrow
    rw [index_recreateOnDisk, index_replayEntry_of_ne (by simp_all)]
    exact h.index row (by simp_all)
  · intro key n hkey
    rw [table_recreateOnDisk, replayEntry]
    have hold := h.amap key n fun hmem => hkey ⟨hmem.1, List.mem_cons_of_mem _ hmem.2⟩
    cases hin : e.inUse c with
    | false => simpa using hold
    | true =>
      rw [if_pos rfl, table_replayMap hin, table_replayRef]
      cases hmeta : e.isMeta with
      | true =>
        by_cases hk : key = (e.metaTarget, amapTableId e.lba)
        · simpa [hk] using (hok.shape (e.metaTarget, amapTableId e.lba)).amapAt_metaStep (by simpa [hk] using hold)
        · simpa [hk] using hold
      | false =>
        by_cases hk : key = (e.targetId, amapTableId e.lba)
        · subst hk
          have hn : n ≠ amapId e.lba := by
            rintro rfl
            exact hkey ⟨(tableId_amapId _).symm, List.mem_cons_self⟩
          simpa [amapAt_amapStep hn] using hold
        · simpa [hk] using hold

theorem Run.Dirty.flushIndex (h : r.Dirty (row :: rows) maps) : (r.run c (.flushIndex row)).Dirty rows maps := by
  refine ⟨fun row' hrow' => ?_, h.amap⟩
  by_cases heq : row' = row
  · subst heq
    simp [Run.run, World.setIndex]
  · simpa [Run.run, World.setIndex, heq] using h.index row' (by simp [heq, hrow'])

theorem amapAt_flushAmap {disk mem : World} (h : ∀ key, SameShape (disk.table key) (mem.table key)) :
    amapAt ((disk.flushAmap mem target m).table key) n =
      if key = (target, tableId m) ∧ n = m then amapAt (mem.table key) n
      else amapAt (disk.table key) n := by
  have hshape := h (target, tableId m)
  unfold World.flushAmap
  cases ht : disk.table (target, tableId m) with
  | none =>
    cases ht' : mem.table (target, tableId m) with
    | none =>
      split_ifs with hk
      · rw [hk.1, ht, ht']
      · rfl
    | some t' => simp [ht, ht', SameShape] at hshape
  | some t =>
    cases ht' : mem.table (target, tableId m) with
    | none => simp [ht, ht', SameShape] at hshape
    | some t' =>
      rw [ht, ht'] at hshape
      dsimp only
      cases ha : t'.amap m with
      | none =>
        have hnone := hshape.amap_none.mpr ha
        split_ifs with hk
        · obtain ⟨rfl, rfl⟩ := hk
          simp [amapAt, ht, ht', ha, hnone]
        · rfl
      | some a =>
        by_cases hkey : key = (target, tableId m)
        · subst hkey
          by_cases hn : n = m
          · subst hn
            simp [amapAt, World.setTable, Table.setAmap, ht', ha]
          · simp [amapAt, World.setTable, Table.setAmap, hn, ht]
        · simp [hkey, setTable_of_ne hkey]

theorem Run.Dirty.flushAmap (hok : r.Ok c w log) (h : r.Dirty rows ((target, m) :: maps)) :
    (r.run c (.flushAmap target m)).Dirty rows maps := by
  refine ⟨fun row hrow => ?_, fun key n hkey => ?_⟩
  · simp only [Run.run, index_flushAmap]
    exact h.index row hrow
  · simp only [Run.run]
    rw [amapAt_flushAmap hok.shape]
    split_ifs with hk
    · rfl
    · refine h.amap key n fun hmem => ?_
      obtain hhead | htail := List.mem_cons.mp hmem.2
      · obtain ⟨htarget, rfl⟩ := Prod.mk.inj hhead
        exact hk ⟨Prod.ext htarget hmem.1, rfl⟩
      · exact hkey ⟨hmem.1, htail⟩

theorem exists_flushed (hr : (system c w log).Reachable r) (hstop : r.count = 4096 ∨ r.rest = [])
    (h : r.Dirty rows maps) : ∃ r', (system c w log).Reachable r' ∧ r'.rest = r.rest ∧ r'.disk = r'.mem := by
  induction rows generalizing r with
  | cons row rows ih =>
    exact ih (r := r.run c (.flushIndex row)) (.step (a := .flushIndex row) hr ⟨hstop, rfl⟩) hstop h.flushIndex
  | nil =>
    induction maps generalizing r with
    | nil => exact ⟨r, hr, rfl, h.clean (ok_of_reachable hr)⟩
    | cons map maps ih =>
      obtain ⟨target, n⟩ := map
      exact ih (r := r.run c (.flushAmap target n))
        (.step (a := .flushAmap target n) hr ⟨hstop, rfl⟩) hstop (h.flushAmap (ok_of_reachable hr))

theorem exists_complete_of_dirty (hr : (system c w log).Reachable r) (h : r.Dirty rows maps) :
    ∃ r', (system c w log).Reachable r' ∧ r'.Complete := by
  generalize hrest : r.rest = rest
  induction rest generalizing r rows maps with
  | nil =>
    obtain ⟨r', hr', hrest', heq⟩ := exists_flushed hr (.inr hrest) h
    exact ⟨r', hr', hrest'.trans hrest, heq⟩
  | cons e rest ih =>
    -- after the flush that may be due, the next entry can be taken
    obtain ⟨r', rows', maps', hr', hrest', hcount, hdirty⟩ : ∃ r' rows' maps',
        (system c w log).Reachable r' ∧ r'.rest = e :: rest ∧
          (r'.count = 4096 → r'.disk = r'.mem) ∧ r'.Dirty rows' maps' := by
      by_cases hfull : r.count = 4096
      · obtain ⟨r', hr', hrest', heq⟩ := exists_flushed hr (.inl hfull) h
        exact ⟨r', [], [], hr', hrest'.trans hrest, fun _ => heq, dirty_of_eq heq⟩
      · exact ⟨r, rows, maps, hr, hrest, fun hcount => absurd hcount hfull, h⟩
    refine ih (r := r'.run c .entry) (.step (a := .entry) hr' ⟨⟨?_, hcount⟩, rfl⟩)
      (hdirty.entry (ok_of_reachable hr') hrest') ?_
    · simp [hrest']
    · simp [Run.run, hrest']

theorem exists_complete (c : Config) (w : World) (log : List LogEntry) :
    ∃ r, (system c w log).Reachable r ∧ r.Complete :=
  exists_complete_of_dirty (.init rfl) (dirty_of_eq rfl : (Run.start w log).Dirty [] [])

end QuadStor.Replay
