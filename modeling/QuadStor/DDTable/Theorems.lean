import QuadStor.DDTable.Lemmas

/-!
# Deduplication and the data it shares
-/

namespace QuadStor.DDTable

open Lib Bint

variable {metaShift : Nat → Nat} {fixed : Row → Nat → Prop} {s s' : State}

theorem State.Ok.of_empty (h : s.Empty fixed) : s.Ok metaShift fixed := by
  refine ⟨h.represents, ?_, ?_, ?_⟩
  · intro n e hmem
    simp [h.slots] at hmem
  · intro n e _ hmem
    simp [h.slots] at hmem
  · intro p hp
    simp [h.pending] at hp

theorem State.Ok.step (h : s.Ok metaShift fixed) {a : Action} (hcur : a.InsertsCurrent)
    (hstep : (system metaShift fixed).step s a s') : s'.Ok metaShift fixed := by
  obtain ⟨hallowed, rfl⟩ := hstep
  cases a with
  | allocForPgdata row enableVerify pages mapped => exact h.allocForPgdata
  | allocBlock row size => exact h.allocBlock
  | refBlock b =>
    simp only [State.step, DDTable.refBlock]
    split
    · rename_i x href
      exact h.reference hallowed href
    · exact h
  | setMap lba b =>
    exact h.of_mono h.represents (fun _ _ hmem => hmem) (fun _ _ => .inl rfl)
      (fun r hr => ⟨hr, rfl⟩) (fun p hp _ => .inl hp)
  | hashInsert page bStart insertIdx => exact h.hashInsert hallowed.1 hcur
  | lookup bStart hash => exact h.lookup hallowed
  | deleteBlock b ddlookup => exact h.deleteBlock hallowed ddlookup
  | checkLoad row => exact h.setIndex indexCheckLoad_same.1
  | clearLoad row => exact h.setIndex rfl
  | unmapBlocks row unmapSupported => exact h.setIndex bintUnmapBlocks_bmap

/-- In a run whose inserts all come before the page's block is freed, a lookup returns a block in use, whose data has
the hash that was looked up. -/
theorem lookup_returns_own_data (h : ((system metaShift fixed).restrict fun _ a => a.InsertsCurrent).Reachable s)
    {n hash : Nat} {b : Block} (hn : n ≠ 0) (hl : lookup metaShift s n hash = (s', some b)) :
    s'.live.Live (b.run metaShift) ∧ s'.data (b.run metaShift) = hash := by
  have hinv : ((system metaShift fixed).restrict fun _ a => a.InsertsCurrent).Invariant
      (State.Ok metaShift fixed) := ⟨State.Ok.of_empty, fun hok hstep => hok.step hstep.1 hstep.2⟩
  exact ((hinv.reachable h).lookup_holds hn hl).2

/-! ## A page whose block was freed and given out again -/

def nearlyFull : State where
  index row := if row = (1, 0) then
      { Index.new with bmap := fun i => if i < 639 then 1 else 0, freeBlocks := 1, checkIdx := 639 }
    else Index.new
  node _ := []
  map _ := none
  live _ := 0
  data _ := 0
  pending := []

def nearlyFullFixed (row : Row) (i : Nat) : Prop := row = (1, 0) ∧ i < 639

theorem nearlyFull_empty : nearlyFull.Empty nearlyFullFixed := by
  have none := Nat.lt_irrefl 0
  have hcounts : ∀ row i, counts nearlyFull.index row i =
      if row = (1, 0) ∧ i < 639 then 1 else 0 := by
    intro row i
    by_cases hrow : row = (1, 0) <;> by_cases hi : i < 639 <;>
      simp [counts, nearlyFull, hrow, hi, refsOf, Index.new]
  refine ⟨⟨fun h => (none h).elim, fun h => (none h).elim, fun h => (none h).elim, ?_, ?_,
    fun h => (none h).elim⟩, ?_, fun _ => rfl, rfl⟩
  · intro row i hne
    rw [hcounts] at hne
    split_ifs at hne with hfixed
    · exact .inl hfixed
    · exact absurd rfl hne
  · intro row i hfixed
    have hfixed : row = (1, 0) ∧ i < 639 := hfixed
    rw [hcounts, if_pos hfixed]
    decide
  · intro row i
    by_cases hrow : row = (1, 0) <;> by_cases hi : i < 639 <;>
      simp [nearlyFull, hrow, hi, nodeOf, Index.new]

def writePage (row : Row) (hash : Nat) (b : Block) : List Action :=
  [.allocForPgdata row false [⟨7, hash, false, 4096⟩] true, .setMap 7 (some b)]

/-- Three writes to page 7. The second goes to index 1, and its deferred work frees the first block. Index 0 is loaded
again, and the third gets the first one's block, before the first write's deferred work enters its hash. -/
def staleInsert : List Action :=
  writePage (1, 0) 11 ⟨1, 0, 639, 4096⟩ ++ [.clearLoad (1, 0)] ++
    writePage (1, 1) 22 ⟨1, 1, 0, 4096⟩ ++ [.deleteBlock ⟨1, 0, 639, 4096⟩ none, .checkLoad (1, 0)] ++
    writePage (1, 0) 33 ⟨1, 0, 639, 4096⟩ ++
    [.hashInsert ⟨11, ⟨1, 0, 639, 4096⟩, some 7, false⟩ 5 0]

theorem staleInsert_allowed :
    System.Along (fun s a => a.Allowed (fun _ => 12) s) (State.step fun _ => 12) nearlyFull staleInsert := by
  simp only [staleInsert, writePage, List.cons_append, List.nil_append, System.Along, Action.Allowed,
    true_and, and_true, Store.Live]
  decide +kernel

theorem lookup_returns_other_data : ∃ s, (system (fun _ => 12) nearlyFullFixed).Reachable s ∧
      (lookup (fun _ => 12) s 5 11).2 = some ⟨1, 0, 639, 4096⟩ ∧
      (lookup (fun _ => 12) s 5 11).1.data (Block.run (fun _ => 12) ⟨1, 0, 639, 4096⟩) = 33 :=
  ⟨_, .foldl (by exact fun h => ⟨h, rfl⟩) (.init nearlyFull_empty) staleInsert_allowed,
    by decide +kernel, by decide +kernel⟩

def promptInsert : List Action :=
  writePage (1, 1) 22 ⟨1, 1, 0, 4096⟩ ++ [.hashInsert ⟨22, ⟨1, 1, 0, 4096⟩, some 7, true⟩ 5 0]

theorem promptInsert_allowed : System.Along (fun s a => a.InsertsCurrent ∧ a.Allowed (fun _ => 12) s)
    (State.step fun _ => 12) nearlyFull promptInsert := by
  simp only [promptInsert, writePage, List.cons_append, List.nil_append, System.Along, Action.Allowed,
    Action.InsertsCurrent, true_and, and_true]
  decide +kernel

theorem lookup_returns_own_data_inserted :
    ∃ s' b, lookup (fun _ => 12) (promptInsert.foldl (State.step fun _ => 12) nearlyFull) 5 22 =
        (s', some b) ∧ s'.data (b.run fun _ => 12) = 22 := by
  have hfound : (lookup (fun _ => 12) (promptInsert.foldl (State.step fun _ => 12) nearlyFull)
      5 22).2 = some ⟨1, 1, 0, 4096⟩ := by decide +kernel
  have hl := Prod.ext rfl hfound
  have hreach : ((system (fun _ => 12) nearlyFullFixed).restrict fun _ a => a.InsertsCurrent).Reachable _ :=
    .foldl (by exact fun h => ⟨h.1, h.2, rfl⟩) (.init nearlyFull_empty) promptInsert_allowed
  exact ⟨_, _, hl, (lookup_returns_own_data hreach (by decide) hl).2⟩

end QuadStor.DDTable
