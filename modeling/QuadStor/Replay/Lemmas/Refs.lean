import QuadStor.Replay.Basic
import QuadStor.Bint.Lemmas.Loops

/-!
# Reference counts under replay
-/

namespace QuadStor.Replay

open Lib Bint DDTable Function
open Fastlog (replayAccepts)

variable {c : Config} {w w' : World} {e : LogEntry} {log p q : List LogEntry} {row : Row} {i n : Nat} {x : Index}
  {isMeta : Bool}

theorem refsOf_replayVal {val : Nat} :
    refsOf (replayVal isMeta val) = Counter.step maxRefs (refsOf val) (replayOp isMeta) := by
  have hlt := refsOf_lt val
  have hle : refsOf val ≠ maxRefs → refsOf val + 1 ≤ maxRefs := fun hne => by
    unfold maxRefs at *
    omega
  unfold replayVal
  split_ifs with h
  · cases isMeta with
    | false => simpa [replayOp, Counter.step] using h
    | true => exact (if_pos (h.imp_right And.left)).symm
  · rw [refsOf_of_le (hle fun hmax => h (.inl hmax))]
    cases isMeta with
    | false | true => simpa [replayOp, Counter.step] using h

theorem bintLogReplay_spec {i : Nat} : (bintLogReplay x i n isMeta).1.writeId = x.writeId ∧
      (bintLogReplay x i n isMeta).1.dataError = x.dataError ∧
      ∀ j, refsOf ((bintLogReplay x i n isMeta).1.bmap j) =
        if i ≤ j ∧ j < i + n then Counter.step maxRefs (refsOf (x.bmap j)) (replayOp isMeta)
        else refsOf (x.bmap j) := by
  obtain ⟨hid, herr, hval⟩ : (bintLogReplay x i n isMeta).1.writeId = x.writeId ∧ _ := replayLoop_spec
  refine ⟨hid, herr, fun j => ?_⟩
  rw [← refsOf_replayVal, ← apply_ite refsOf]
  exact congrArg refsOf (hval j)

@[simp] theorem setIndex_self : (w.setIndex row x).index row = x :=
  update_self _ _ _

theorem setIndex_of_ne {row' : Row} (h : row' ≠ row) : (w.setIndex row x).index row' = w.index row' :=
  update_of_ne h _ _

theorem index_replayMap : (replayMap c w e).index = w.index := by
  unfold replayMap tdiskReplayMetaBlock tdiskReplayAmapBlock
  repeat' split
  all_goals rfl

theorem index_replayEntry_of_ne (h : row ∉ (e.newBlock.map Block.row).toList) :
    (replayEntry c w e).index row = w.index row := by
  unfold replayEntry
  split_ifs
  · rw [index_replayMap]
    unfold replayRef
    cases hb : e.newBlock with
    | none => rfl
    | some b =>
      have hrow : row ≠ b.row := by simpa [hb] using h
      simp only [bdevLogReplay]
      split_ifs
      · rfl
      · rfl
      · exact setIndex_of_ne hrow
  · rfl

theorem index_replayEntry_static : ((replayEntry c w e).index row).writeId = (w.index row).writeId ∧
      ((replayEntry c w e).index row).dataError = (w.index row).dataError := by
  unfold replayEntry
  split
  · rw [index_replayMap]
    unfold replayRef
    split
    · exact ⟨rfl, rfl⟩
    · rename_i b _
      unfold bdevLogReplay
      dsimp only
      split_ifs
      · exact ⟨rfl, rfl⟩
      · exact ⟨rfl, rfl⟩
      · by_cases hrow : row = b.row
        · subst hrow
          rw [setIndex_self]
          exact ⟨bintLogReplay_spec.1, bintLogReplay_spec.2.1⟩
        · rw [setIndex_of_ne hrow]
          exact ⟨rfl, rfl⟩
  · exact ⟨rfl, rfl⟩

theorem refs_replayEntry : refsOf (((replayEntry c w e).index row).bmap i) =
      if e.takes c w row i then Counter.step maxRefs (refsOf ((w.index row).bmap i)) (replayOp e.isMeta)
      else refsOf ((w.index row).bmap i) := by
  unfold replayEntry LogEntry.takes
  cases hin : e.inUse c with
  | false => simp
  | true =>
    rw [if_pos rfl, index_replayMap]
    unfold replayRef
    cases hb : e.newBlock with
    | none => simp
    | some b =>
      simp only [bdevLogReplay, Bool.true_and]
      by_cases hrow : b.row = row
      · subst hrow
        cases herr : (w.index b.row).dataError with
        | true => simp
        | false =>
          cases hacc : replayAccepts (w.index b.row).writeId e.indexWriteId with
          | false => simp
          | true =>
            simp [bintLogReplay_spec.2.2]
      · have hother : ∀ x, (w.setIndex b.row x).index row = w.index row :=
          fun x => setIndex_of_ne (Ne.symm hrow)
        simp only [hrow, false_and, decide_false, Bool.false_and, Bool.false_eq_true, if_false]
        split_ifs
        · rfl
        · rfl
        · rw [hother]

theorem logEntriesReplay_append : logEntriesReplay c w (p ++ q) = logEntriesReplay c (logEntriesReplay c w p) q :=
  List.foldl_append

theorem index_replay_static : ((logEntriesReplay c w log).index row).writeId = (w.index row).writeId ∧
      ((logEntriesReplay c w log).index row).dataError = (w.index row).dataError := by
  induction log generalizing w with
  | nil => exact ⟨rfl, rfl⟩
  | cons e rest ih =>
    obtain ⟨hid, herr⟩ := ih (w := replayEntry c w e)
    exact ⟨hid.trans index_replayEntry_static.1, herr.trans index_replayEntry_static.2⟩

theorem takenOps_congr (hid : (w'.index row).writeId = (w.index row).writeId)
    (herr : (w'.index row).dataError = (w.index row).dataError) : takenOps c w' row i log = takenOps c w row i log := by
  have htakes : LogEntry.takes c w' row i = LogEntry.takes c w row i := by
    funext e
    simp only [LogEntry.takes, hid, herr]
  rw [takenOps, htakes, takenOps]

theorem refs_replay : refsOf (((logEntriesReplay c w log).index row).bmap i) =
      Counter.apply maxRefs (takenOps c w row i log) (refsOf ((w.index row).bmap i)) := by
  induction log generalizing w with
  | nil => rfl
  | cons e rest ih =>
    have hstep : logEntriesReplay c w (e :: rest) = logEntriesReplay c (replayEntry c w e) rest := rfl
    have hcongr : takenOps c (replayEntry c w e) row i rest = takenOps c w row i rest :=
      takenOps_congr index_replayEntry_static.1 index_replayEntry_static.2
    rw [hstep, ih, hcongr, refs_replayEntry]
    cases htakes : e.takes c w row i with
    | false | true => simp [takenOps, htakes]

end QuadStor.Replay
