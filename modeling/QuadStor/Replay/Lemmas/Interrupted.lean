import QuadStor.Replay.Lemmas.Maps

/-!
# The disk an interrupted replay leaves
-/

namespace QuadStor.Replay

open Lib Bint DDTable

variable {c : Config} {w : World} {e : LogEntry} {log : List LogEntry} {target lba n : Nat}
  {o o' : Option Table} {key : Nat × Nat} {r : Run}

/-! ## Tables and maps on disk and in memory -/

def SameShape : Option Table → Option Table → Prop
  | none, none => True
  | some t, some t' =>
    t.error = t'.error ∧
      ∀ n, (t.amap n).map (fun a => (a.writeId, a.error)) = (t'.amap n).map fun a => (a.writeId, a.error)
  | _, _ => False

theorem SameShape.refl : SameShape o o := by
  cases o with
  | none => trivial
  | some t => exact ⟨rfl, fun _ => rfl⟩

theorem SameShape.amap_none {t t' : Table} (h : SameShape (some t) (some t')) : t.amap n = none ↔ t'.amap n = none := by
  have := h.2 n
  cases ha : t.amap n <;> cases ha' : t'.amap n <;> simp_all

theorem SameShape.present (h : SameShape o o') : presentOf o n = presentOf o' n := by
  rcases o with _ | t <;> rcases o' with _ | t'
  · rfl
  · cases h
  · cases h
  · obtain ⟨herr, hmaps⟩ := h
    have hn := hmaps n
    unfold presentOf
    dsimp only
    cases ha : t.amap n with
    | none =>
      rw [ha, Option.map_none] at hn
      cases ha' : t'.amap n with
      | none => simp [herr]
      | some a' => simp [ha'] at hn
    | some a =>
      cases ha' : t'.amap n with
      | none => simp [ha, ha'] at hn
      | some a' =>
        simp only [ha, ha', Option.map_some, Option.some.injEq, Prod.mk.injEq] at hn
        simp [herr, hn.1, hn.2]

theorem SameShape.setAmap {t t' : Table} {a a' : Amap} (h : SameShape (some t) (some t'))
    (hid : a.writeId = a'.writeId) (herr : a.error = a'.error) :
    SameShape (some (t.setAmap n a)) (some (t'.setAmap n a')) := by
  refine ⟨h.1, fun m => ?_⟩
  by_cases hm : m = n
  · subst hm
    simp [Table.setAmap, hid, herr]
  · simpa [Table.setAmap, hm] using h.2 m

theorem SameShape.metaStep (h : SameShape o o') : SameShape (metaStep c e o) (metaStep c e o') := by
  rcases o with _ | t <;> rcases o' with _ | t'
  · exact .refl
  · cases h
  · cases h
  · unfold Replay.metaStep
    dsimp only
    cases ha : t.amap (amapId e.lba) with
    | some a =>
      cases ha' : t'.amap (amapId e.lba) with
      | some a' => exact h
      | none => simp [h.amap_none.mpr ha'] at ha
    | none =>
      rw [h.amap_none.mp ha]
      rw [h.1]
      split_ifs
      · exact h
      · exact h.setAmap rfl rfl

theorem SameShape.amapStep (h : SameShape o o') : SameShape o (amapStep e o') := by
  rcases o' with _ | t'
  · exact h
  · unfold Replay.amapStep
    dsimp only
    cases ha' : t'.amap (amapId e.lba) with
    | none => exact h
    | some a' =>
      dsimp only
      split_ifs
      · exact h
      · rcases o with _ | t
        · cases h
        · refine ⟨h.1, fun m => ?_⟩
          by_cases hm : m = amapId e.lba
          · subst hm
            rw [h.2]
            simp [Table.setAmap, ha']
          · rw [h.2]
            simp [Table.setAmap, hm]

theorem index_recreateOnDisk : (recreateOnDisk c w e).index = w.index := by
  unfold recreateOnDisk
  split_ifs with h
  · have := index_replayMap (c := c) (w := w) (e := e)
    rwa [replayMap, if_pos (Bool.and_eq_true_iff.mp h).2] at this
  · rfl

theorem table_recreateOnDisk : (recreateOnDisk c w e).table key =
      if e.inUse c && e.isMeta && decide (key = (e.metaTarget, amapTableId e.lba))
      then metaStep c e (w.table key) else w.table key := by
  unfold recreateOnDisk
  cases hin : e.inUse c with
  | false => rfl
  | true =>
    cases hmeta : e.isMeta with
    | false => rfl
    | true =>
      obtain ⟨hid, htdisk⟩ := tdisk_of_inUse hin hmeta
      simpa using table_replayMetaBlock hid htdisk

theorem entry_recreateOnDisk : (recreateOnDisk c w e).entry target lba = w.entry target lba := by
  show entryOf ((recreateOnDisk c w e).table (target, amapTableId lba)) lba = _
  rw [table_recreateOnDisk]
  split_ifs
  · exact entryOf_metaStep
  · rfl

variable {disk mem : World}

theorem index_flushAmap {target n : Nat} : (disk.flushAmap mem target n).index = disk.index := by
  unfold World.flushAmap
  split
  · split <;> rfl
  · rfl

theorem flushAmap_cases (disk mem : World) (target n : Nat) : disk.flushAmap mem target n = disk ∨
      ∃ t t' a, disk.table (target, tableId n) = some t ∧ mem.table (target, tableId n) = some t' ∧ t'.amap n = some a ∧
        disk.flushAmap mem target n = disk.setTable (target, tableId n) (t.setAmap n a) := by
  unfold World.flushAmap
  split
  · rename_i t t' ht ht'
    split
    · rename_i a ha
      exact .inr ⟨t, t', a, ht, ht', ha, rfl⟩
    · exact .inl rfl
  · exact .inl rfl

theorem SameShape.flushAmap {target n : Nat} (h : ∀ key, SameShape (disk.table key) (mem.table key)) :
    SameShape ((disk.flushAmap mem target n).table key) (mem.table key) := by
  obtain heq | ⟨t, t', a, ht, ht', ha, heq⟩ := flushAmap_cases disk mem target n
  · rw [heq]
    exact h key
  · rw [heq]
    by_cases hkey : key = (target, tableId n)
    · subst hkey
      have hshape := h (target, tableId n)
      rw [ht, ht'] at hshape
      have hself : t'.setAmap n a = t' := by
        cases t'
        simpa [Table.setAmap] using ha.symm
      have hset : SameShape (some (t.setAmap n a)) (some t') := by
        simpa [hself] using (hshape.setAmap rfl rfl : SameShape (some (t.setAmap n a)) (some (t'.setAmap n a)))
      simpa [World.setTable, ht'] using hset
    · rw [setTable_of_ne hkey]
      exact h key

theorem entry_flushAmap (disk mem : World) (target n target' lba : Nat) :
    (disk.flushAmap mem target n).entry target' lba = disk.entry target' lba ∨
      (disk.flushAmap mem target n).entry target' lba = mem.entry target' lba := by
  obtain heq | ⟨t, t', a, ht, ht', ha, heq⟩ := flushAmap_cases disk mem target n
  · exact .inl (by rw [heq])
  · rw [heq]
    show entryOf ((disk.setTable (target, tableId n) (t.setAmap n a)).table (target', amapTableId lba)) lba
        = entryOf (disk.table (target', amapTableId lba)) lba ∨
      entryOf ((disk.setTable (target, tableId n) (t.setAmap n a)).table (target', amapTableId lba)) lba
        = entryOf (mem.table (target', amapTableId lba)) lba
    by_cases hkey : (target', amapTableId lba) = (target, tableId n)
    · rw [hkey]
      by_cases hn : amapId lba = n
      · right
        simp [World.setTable, entryOf, Table.setAmap, hn, ht', ha]
      · left
        simp [World.setTable, entryOf, Table.setAmap, hn, ht]
    · exact .inl (by rw [setTable_of_ne hkey])

structure Run.Ok (c : Config) (w : World) (log : List LogEntry) (r : Run) : Prop where
  log_eq : log = log.take r.done ++ r.rest
  mem_eq : r.mem = logEntriesReplay c w (log.take r.done)
  flushed_le : ∀ row, r.flushed row ≤ r.done
  index_eq : ∀ row, r.disk.index row = (logEntriesReplay c w (log.take (r.flushed row))).index row
  shape : ∀ key, SameShape (r.disk.table key) (r.mem.table key)
  entry_eq : ∀ target lba, ∃ k ≤ r.done, r.disk.entry target lba = (logEntriesReplay c w (log.take k)).entry target lba

theorem ok_start : (Run.start w log).Ok c w log where
  log_eq := rfl
  mem_eq := rfl
  flushed_le _ := le_rfl
  index_eq _ := rfl
  shape _ := .refl
  entry_eq _ _ := ⟨0, le_rfl, rfl⟩

theorem shape_entry (h : ∀ key, SameShape (disk.table key) (mem.table key)) :
    SameShape ((recreateOnDisk c disk e).table key) ((replayEntry c mem e).table key) := by
  rw [table_recreateOnDisk, replayEntry]
  cases hin : e.inUse c with
  | false => simpa using h key
  | true =>
    rw [if_pos rfl, table_replayMap hin, table_replayRef]
    cases hmeta : e.isMeta with
    | true =>
      by_cases hkey : key = (e.metaTarget, amapTableId e.lba)
      · simpa [hkey] using (h _).metaStep
      · simpa [hkey] using h key
    | false =>
      by_cases hkey : key = (e.targetId, amapTableId e.lba)
      · simpa [hkey] using (h _).amapStep
      · simpa [hkey] using h key

theorem ok_entry (h : r.Ok c w log) : (r.run c .entry).Ok c w log := by
  cases hrest : r.rest with
  | nil =>
    have hrun : r.run c .entry = r := by simp [Run.run, hrest]
    rwa [hrun]
  | cons e rest =>
    have htake : log.take (r.done + 1) = log.take r.done ++ [e] := by
      have hlog := h.log_eq
      rw [hrest] at hlog
      have hget : log[r.done]? = some e := by
        have hlen : r.done ≤ log.length := by
          by_contra hlt
          rw [List.take_of_length_le (by omega)] at hlog
          have := congrArg List.length hlog
          simp at this
        rw [hlog, List.getElem?_append_right (by simp)]
        simp [hlen]
      rw [List.take_add_one, hget]
      rfl
    simp only [Run.run, hrest]
    refine ⟨?_, ?_, fun row => Nat.le_succ_of_le (h.flushed_le row), ?_, ?_, ?_⟩
    · have hlog := h.log_eq
      rw [hrest] at hlog
      simpa [htake] using hlog
    · rw [htake, logEntriesReplay_append, ← h.mem_eq]
      rfl
    · intro row
      rw [index_recreateOnDisk]
      exact h.index_eq row
    · exact fun key => shape_entry h.shape
    · intro target lba
      obtain ⟨k, hk, heq⟩ := h.entry_eq target lba
      exact ⟨k, Nat.le_succ_of_le hk, entry_recreateOnDisk.trans heq⟩

theorem ok_flushIndex (row : Row) (h : r.Ok c w log) : (r.run c (.flushIndex row)).Ok c w log := by
  refine ⟨h.log_eq, h.mem_eq, fun row' => ?_, fun row' => ?_, h.shape, h.entry_eq⟩
  · by_cases hrow : row' = row
    · subst hrow
      simp [Run.run]
    · simpa [Run.run, hrow] using h.flushed_le row'
  · by_cases hrow : row' = row
    · subst hrow
      simp [Run.run, World.setIndex, h.mem_eq]
    · simpa [Run.run, World.setIndex, hrow] using h.index_eq row'

theorem ok_flushAmap (target n : Nat) (h : r.Ok c w log) : (r.run c (.flushAmap target n)).Ok c w log := by
  refine ⟨h.log_eq, h.mem_eq, h.flushed_le, fun row => ?_, fun _ => .flushAmap h.shape, ?_⟩
  · simp only [Run.run, index_flushAmap]
    exact h.index_eq row
  · intro target' lba
    obtain heq | heq := entry_flushAmap r.disk r.mem target n target' lba
    · obtain ⟨k, hk, hdisk⟩ := h.entry_eq target' lba
      exact ⟨k, hk, heq.trans hdisk⟩
    · exact ⟨r.done, le_rfl, heq.trans (by rw [h.mem_eq])⟩

theorem ok_of_reachable (h : (system c w log).Reachable r) : r.Ok c w log := by
  refine System.Invariant.reachable (I := Run.Ok c w log) ⟨?_, ?_⟩ h
  · rintro _ rfl
    exact ok_start
  · rintro r a _ hok ⟨-, rfl⟩
    cases a with
    | entry => exact ok_entry hok
    | flushIndex row => exact ok_flushIndex row hok
    | flushAmap target n => exact ok_flushAmap target n hok

variable (h : r.Ok c w log)
include h

theorem Run.Ok.complete (hdone : r.Complete) : r.disk = logEntriesReplay c w log := by
  have hlog := h.log_eq
  rw [hdone.1, List.append_nil] at hlog
  rw [hdone.2, h.mem_eq, ← hlog]

theorem Run.Ok.present (target lba : Nat) : r.disk.present target lba =
      (log.take r.done).foldl (Present.step c target lba) (w.present target lba) := by
  rw [← present_replay, ← h.mem_eq]
  exact (h.shape (target, amapTableId lba)).present

theorem Run.Ok.sets (target lba : Nat) :
    LogEntry.sets c r.disk target lba = LogEntry.sets c w target lba := by
  funext e
  have hmem : e.sets c (logEntriesReplay c w (log.take r.done)) target lba = e.sets c w target lba :=
    congrFun sets_replay e
  simp only [LogEntry.sets, present_replay] at hmem
  simp only [LogEntry.sets, h.present, hmem]

end QuadStor.Replay
