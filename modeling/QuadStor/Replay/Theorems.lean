import QuadStor.Replay.Lemmas.Finish

/-!
# Replaying a log again
-/

namespace QuadStor.Replay

open Lib Bint DDTable List

variable {c : Config} {w : World} {log : List LogEntry} {r : Run} {target lba : Nat} {p q : Present} {e : LogEntry}

theorem refs_again (h : r.Ok c w log) : (∀ row i, refsOf (((logEntriesReplay c r.disk log).index row).bmap i) =
        refsOf (((logEntriesReplay c w log).index row).bmap i)) ↔
      CountsOnce c w log r.flushed := by
  refine forall_congr' fun row => forall_congr' fun i => ?_
  have hdisk := h.index_eq row
  have hops : takenOps c r.disk row i log = takenOps c w row i log := by
    refine takenOps_congr ?_ ?_ <;> rw [hdisk]
    · exact index_replay_static.1
    · exact index_replay_static.2
  have happend : takenOps c w row i log =
      takenOps c w row i (log.take (r.flushed row)) ++ takenOps c w row i (log.drop (r.flushed row)) := by
    rw [takenOps, takenOps, takenOps, ← map_append, ← filter_append, take_append_drop]
  have hincr : .incr ∈ takenOps c w row i (log.take (r.flushed row)) ↔
      ∃ e ∈ log.take (r.flushed row), e.takes c w row i = true ∧ e.isMeta = false := by
    simp only [takenOps, List.mem_map, List.mem_filter, and_assoc]
    refine exists_congr fun e => and_congr_right fun _ => and_congr_right fun _ => ?_
    cases e.isMeta <;> decide
  have hle : refsOf ((w.index row).bmap i) ≤ maxRefs := Nat.le_of_lt_succ (refsOf_lt _)
  rw [refs_replay, refs_replay, hops, hdisk, refs_replay, happend, ← hincr]
  exact Counter.apply_twice (by decide) hle

theorem mapThere_again (h : r.Ok c w log) (target lba : Nat) (pre : List LogEntry) :
    mapThere c r.disk target lba pre = mapThere c w target lba (log.take r.done ++ pre) := by
  rw [mapThere, mapThere, h.present, foldl_append]

theorem exists_last_sets (hex : ∃ e ∈ log, e.sets c w target lba = true) :
    ∃ pre e post, log = pre ++ e :: post ∧ e.sets c w target lba = true ∧
      ∀ e' ∈ post, e'.sets c w target lba = false := by
  induction log with
  | nil => simp at hex
  | cons e rest ih =>
    by_cases hrest : ∃ e ∈ rest, e.sets c w target lba = true
    · obtain ⟨pre, e', post, rfl, hsets, hpost⟩ := ih hrest
      exact ⟨e :: pre, e', post, rfl, hsets, hpost⟩
    · have hnone : ∀ e' ∈ rest, e'.sets c w target lba = false := by
        intro e' hmem
        by_contra hsets
        exact hrest ⟨e', hmem, Bool.eq_true_of_not_eq_false hsets⟩
      obtain ⟨e', hmem, hsets⟩ := hex
      obtain rfl | hmem := mem_cons.mp hmem
      · exact ⟨[], e', rest, rfl, hsets, hnone⟩
      · simp [hnone e' hmem] at hsets

theorem entries_again (h : r.Ok c w log) : (∀ target lba, (logEntriesReplay c r.disk log).entry target lba =
        (logEntriesReplay c w log).entry target lba) ↔
      MapsInTime c w log r.done := by
  refine forall_congr' fun target => forall_congr' fun lba => ?_
  -- at a split by the last entry for the page, both replays are known
  have hlast : ∀ pre e post, log = pre ++ e :: post → e.sets c w target lba = true →
      (∀ e' ∈ post, e'.sets c w target lba = false) →
      ((logEntriesReplay c r.disk log).entry target lba = (logEntriesReplay c w log).entry target lba ↔
        (e.newBlock ≠ none → mapThere c w target lba (log.take r.done ++ pre) = mapThere c w target lba pre)) := by
    intro pre e post hlog hsets hpost
    have hfirst := entry_replay_last (p := pre) hsets hpost
    have hagain : (logEntriesReplay c r.disk (pre ++ e :: post)).entry target lba =
        if mapThere c r.disk target lba pre then e.newBlock else none :=
      entry_replay_last (by rwa [h.sets]) (by rwa [h.sets])
    rw [← hlog] at hfirst hagain
    rw [hfirst, hagain, mapThere_again h]
    cases e.newBlock with
    | none => simp
    | some b =>
      cases mapThere c w target lba (log.take r.done ++ pre) <;>
        cases mapThere c w target lba pre <;> simp
  constructor
  · intro heq pre e post hlog hsets hpost
    exact (hlast pre e post hlog hsets hpost).mp heq
  · intro hmaps
    by_cases hex : ∃ e ∈ log, e.sets c w target lba = true
    · obtain ⟨pre, e, post, hlog, hsets, hpost⟩ := exists_last_sets hex
      exact (hlast pre e post hlog hsets hpost).mpr (hmaps pre e post hlog hsets hpost)
    · have hnone : ∀ e ∈ log, e.sets c w target lba = false := by
        intro e hmem
        by_contra hsets
        exact hex ⟨e, hmem, Bool.eq_true_of_not_eq_false hsets⟩
      obtain ⟨k, -, hk⟩ := h.entry_eq target lba
      have hprefix : (logEntriesReplay c w (log.take k)).entry target lba = w.entry target lba :=
        entry_replay_of_not_sets fun e hmem => hnone e (mem_of_mem_take hmem)
      have hagain := entry_replay_of_not_sets (by rwa [h.sets])
      rw [hagain, hk, hprefix, entry_replay_of_not_sets hnone]

structure Present.Upto (p q : Present) : Prop where
  isMap : p.isMap = true → q.isMap = true
  table : p = .table false → q = .table false ∨ q.isMap = true
  nothing : p = .nothing → q ≠ .table true

theorem Present.Upto.refl : p.Upto p :=
  ⟨id, fun h => .inl h, fun h => by simp [h]⟩

theorem Present.Upto.of_isMap (h : q.isMap = true) : p.Upto q :=
  ⟨fun _ => h, fun _ => .inr h, fun _ hq => by simp [hq, Present.isMap] at h⟩

theorem makesMap_of_makesTable (h : e.makesTable c target lba = true) : e.makesMap c target lba = false := by
  simp only [LogEntry.makesTable, Bool.and_eq_true, beq_iff_eq] at h
  simp [LogEntry.makesMap, h]

theorem Present.Upto.step_right (h : p.Upto q) : p.Upto (q.step c target lba e) := by
  refine ⟨fun hp => Present.isMap_step (h.isMap hp), fun hp => ?_, fun hp => ?_⟩
  · obtain rfl | hq := h.table hp
    · simp only [Present.step]
      split_ifs
      · exact .inr rfl
      · exact .inl rfl
    · exact .inr (Present.isMap_step hq)
  · have hq := h.nothing hp
    rcases q with _ | (_ | _) | _
    · simp only [Present.step]
      split_ifs <;> simp
    · simp only [Present.step]
      split_ifs <;> simp
    · exact absurd rfl hq
    · simp [Present.step]

theorem Present.Upto.step (h : p.Upto q) : (p.step c target lba e).Upto (q.step c target lba e) := by
  rcases p with _ | (_ | _) | _
  · cases htable : e.makesTable c target lba with
    | false => simpa [Present.step, htable] using h.step_right (e := e)
    | true =>
      have hmap := makesMap_of_makesTable htable
      have hq := h.nothing rfl
      rcases q with _ | (_ | _) | _
      · exact .refl
      · simpa [Present.step, htable, hmap] using Present.Upto.refl
      · exact absurd rfl hq
      · exact .of_isMap rfl
  · obtain rfl | hq := h.table rfl
    · exact .refl
    · exact .of_isMap (Present.isMap_step hq)
  all_goals exact h.step_right

theorem InOrder.mapsInTime (h : InOrder c w log) (done : Nat) : MapsInTime c w log done := by
  intro target lba pre e post hlog hsets _ _
  have hpre := h target lba pre e post hlog hsets
  have hright : ∀ (l : List LogEntry) (s t : Present), s.Upto t → s.Upto (l.foldl (Present.step c target lba) t) := by
    intro l
    induction l with
    | nil => exact fun _ _ hst => hst
    | cons e l ih => exact fun _ _ hst => ih _ _ hst.step_right
  have hboth : ∀ (l : List LogEntry) (s t : Present), s.Upto t →
      (l.foldl (Present.step c target lba) s).Upto (l.foldl (Present.step c target lba) t) := by
    intro l
    induction l with
    | nil => exact fun _ _ hst => hst
    | cons e l ih => exact fun _ _ hst => ih _ _ hst.step
  rw [hpre, mapThere, foldl_append]
  exact (hboth pre _ _ (hright _ _ _ .refl)).isMap hpre

/-- A replay interrupted at `r` and run again ends where one uninterrupted replay does, exactly if no counted data block
had reached the disk and every map was made in time. -/
theorem interrupted_replay_same_result {r₂ r₃ : Run} (hr : (system c w log).Reachable r)
    (hagain : (system c r.disk log).Reachable r₂) (hdone : r₂.Complete)
    (honce : (system c w log).Reachable r₃) (hdone' : r₃.Complete) :
    SameResult r₂.disk r₃.disk ↔ CountsOnce c w log r.flushed ∧ MapsInTime c w log r.done := by
  have hok := ok_of_reachable hr
  rw [(ok_of_reachable hagain).complete hdone, (ok_of_reachable honce).complete hdone',
    ← refs_again hok, ← entries_again hok]
  exact ⟨fun h => ⟨h.refs, h.entry⟩, fun h => ⟨h.1, h.2⟩⟩

def onePool : Config := ⟨fun _ => 12, fun target => target == 1, fun bid => bid == 1⟩

def oneMap : World where
  index _ := Index.new
  table key := if key = (1, 0) then some ⟨false, fun n => if n = 0 then some ⟨1, false, fun _ => none⟩
    else none⟩ else none

def oneWrite : LogEntry := ⟨some ⟨1, 0, 0, 4096⟩, 5, 1, 1, 1⟩

def interrupted (flush : Action) : Run :=
  ((Run.start oneMap [oneWrite]).run onePool .entry).run onePool flush

theorem reachable_interrupted {flush : Action} (h : flush ≠ .entry) :
    (system onePool oneMap [oneWrite]).Reachable (interrupted flush) := by
  have hentry : (system onePool oneMap [oneWrite]).Reachable ((Run.start oneMap [oneWrite]).run onePool .entry) :=
    .step (a := .entry) (.init rfl) ⟨⟨cons_ne_nil _ _, fun hcount => nomatch hcount⟩, rfl⟩
  cases flush with
  | entry => exact absurd rfl h
  | flushIndex row => exact .step (a := .flushIndex row) hentry ⟨.inr rfl, rfl⟩
  | flushAmap target n => exact .step (a := .flushAmap target n) hentry ⟨.inr rfl, rfl⟩

/-- The index was written, the log not yet cleared: the second replay counts the reference again. -/
theorem reference_counted_twice : ∃ r r₂ r₃, (system onePool oneMap [oneWrite]).Reachable r ∧
      (system onePool r.disk [oneWrite]).Reachable r₂ ∧ r₂.Complete ∧
      (system onePool oneMap [oneWrite]).Reachable r₃ ∧ r₃.Complete ∧
      refsOf ((r₃.disk.index (1, 0)).bmap 0) = 1 ∧ refsOf ((r₂.disk.index (1, 0)).bmap 0) = 2 := by
  obtain ⟨r₂, hr₂, hdone₂⟩ :=
    exists_complete onePool (interrupted (.flushIndex (1, 0))).disk [oneWrite]
  obtain ⟨r₃, hr₃, hdone₃⟩ := exists_complete onePool oneMap [oneWrite]
  refine ⟨_, r₂, r₃, reachable_interrupted (by simp), hr₂, hdone₂, hr₃, hdone₃, ?_, ?_⟩
  · rw [(ok_of_reachable hr₃).complete hdone₃]
    decide +kernel
  · rw [(ok_of_reachable hr₂).complete hdone₂]
    decide +kernel

theorem interrupted_replay_same_result_map : ∃ r r₂ r₃, (system onePool oneMap [oneWrite]).Reachable r ∧
      (system onePool r.disk [oneWrite]).Reachable r₂ ∧ r₂.Complete ∧
      (system onePool oneMap [oneWrite]).Reachable r₃ ∧ r₃.Complete ∧
      r.disk.entry 1 5 = some ⟨1, 0, 0, 4096⟩ ∧ SameResult r₂.disk r₃.disk := by
  obtain ⟨r₂, hr₂, hdone₂⟩ := exists_complete onePool (interrupted (.flushAmap 1 0)).disk [oneWrite]
  obtain ⟨r₃, hr₃, hdone₃⟩ := exists_complete onePool oneMap [oneWrite]
  have hr : (system onePool oneMap [oneWrite]).Reachable (interrupted (.flushAmap 1 0)) :=
    reachable_interrupted (by simp)
  have hcounts : CountsOnce onePool oneMap [oneWrite] (interrupted (.flushAmap 1 0)).flushed := by
    rintro row i ⟨e, hmem, -⟩
    exact absurd hmem not_mem_nil
  have horder : InOrder onePool oneMap [oneWrite] := by
    intro target lba pre e post hlog hsets
    obtain ⟨rfl, rfl, rfl⟩ : pre = [] ∧ e = oneWrite ∧ post = [] := by
      cases pre <;> simp_all
    have htarget : target = 1 ∧ lba = 5 := by
      simp only [LogEntry.sets, Bool.and_eq_true, beq_iff_eq] at hsets
      exact ⟨hsets.1.1.2.symm, hsets.1.2.symm⟩
    rw [htarget.1, htarget.2]
    decide +kernel
  refine ⟨_, r₂, r₃, hr, hr₂, hdone₂, hr₃, hdone₃, by decide +kernel, ?_⟩
  exact (interrupted_replay_same_result hr hr₂ hdone₂ hr₃ hdone₃).mpr ⟨hcounts, horder.mapsInTime _⟩

end QuadStor.Replay
