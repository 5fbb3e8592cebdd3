import QuadStor.Replay.Lemmas.Refs

/-!
# Map entries under replay
-/

namespace QuadStor.Replay

open Lib Bint DDTable Function
open Fastlog (replayAccepts)

variable {c : Config} {w : World} {e : LogEntry} {log p : List LogEntry} {target lba n : Nat}
  {o : Option Table} {key : Nat × Nat}

def amapStep (e : LogEntry) : Option Table → Option Table
  | none => none
  | some t =>
    match t.amap (amapId e.lba) with
    | none => some t
    | some a =>
      if t.error || a.error || !replayAccepts a.writeId e.amapWriteId then some t
      else some (t.setAmap (amapId e.lba)
        { a with entries := update a.entries e.lba e.newBlock })

def metaStep (c : Config) (e : LogEntry) : Option Table → Option Table
  | none =>
    if e.metaType = typeAmapTable ∧ e.blockFound c = true then some ⟨false, fun _ => none⟩ else none
  | some t =>
    match t.amap (amapId e.lba) with
    | some _ => some t
    | none =>
      if t.error || e.metaType = typeAmapTable || !e.blockFound c then some t
      else some (t.setAmap (amapId e.lba) .recreate)

@[simp] theorem setTable_self {t : Table} : (w.setTable key t).table key = some t :=
  Function.update_self _ _ _

theorem setTable_of_ne {t : Table} {key' : Nat × Nat} (h : key' ≠ key) : (w.setTable key t).table key' = w.table key' :=
  Function.update_of_ne h _ _

theorem table_replayRef : (replayRef c w e).table = w.table := by
  unfold replayRef bdevLogReplay
  dsimp only
  split
  · rfl
  · split_ifs <;> rfl

theorem table_replayAmapBlock : (tdiskReplayAmapBlock w e).table key =
      if key = (e.targetId, amapTableId e.lba) then amapStep e (w.table key) else w.table key := by
  by_cases hkey : key = (e.targetId, amapTableId e.lba)
  · subst hkey
    unfold tdiskReplayAmapBlock amapStep
    cases ht : w.table (e.targetId, amapTableId e.lba) with
    | none => simp [ht]
    | some t =>
      dsimp only
      cases ha : t.amap (amapId e.lba) with
      | none =>
        split_ifs <;> exact ht
      | some a =>
        dsimp only
        cases t.error <;> cases a.error <;> cases replayAccepts a.writeId e.amapWriteId <;> simp [ht]
  · rw [if_neg hkey]
    unfold tdiskReplayAmapBlock
    repeat' split
    all_goals first
      | rfl
      | exact setTable_of_ne hkey

theorem table_replayMetaBlock (hid : e.amapWriteId ≠ 0) (htdisk : c.tdisk e.metaTarget = true) :
    (tdiskReplayMetaBlock c w e).table key =
      if key = (e.metaTarget, amapTableId e.lba) then metaStep c e (w.table key) else w.table key := by
  by_cases hkey : key = (e.metaTarget, amapTableId e.lba)
  · subst hkey
    unfold tdiskReplayMetaBlock metaStep
    rw [if_neg hid, htdisk]
    cases ht : w.table (e.metaTarget, amapTableId e.lba) with
    | none =>
      by_cases htype : e.metaType = typeAmapTable <;> cases e.blockFound c <;> simp [ht, htype]
    | some t =>
      dsimp only
      cases ha : t.amap (amapId e.lba) with
      | none =>
        by_cases htype : e.metaType = typeAmapTable <;> cases t.error <;> cases e.blockFound c <;>
          simp [ht, htype]
      | some a =>
        split_ifs <;> exact ht
  · unfold tdiskReplayMetaBlock
    repeat' split
    all_goals first
      | rfl
      | exact setTable_of_ne hkey

def presentOf (o : Option Table) (n : Nat) : Present :=
  match o with
  | none => .nothing
  | some t =>
    match t.amap n with
    | none => .table t.error
    | some a => .map (t.error || a.error) a.writeId

def entryOf (o : Option Table) (lba : Nat) : Option Block :=
  match o with
  | none => none
  | some t =>
    match t.amap (amapId lba) with
    | none => none
    | some a => a.entries lba

theorem presentOf_amapStep : presentOf (amapStep e o) n = presentOf o n := by
  cases o with
  | none => rfl
  | some t =>
    unfold amapStep
    dsimp only
    cases ha : t.amap (amapId e.lba) with
    | none => rfl
    | some a =>
      dsimp only
      split_ifs
      · rfl
      · by_cases hn : n = amapId e.lba
        · subst hn
          simp [presentOf, Table.setAmap, ha]
        · simp [presentOf, Table.setAmap, hn]

theorem entryOf_amapStep : entryOf (amapStep e o) lba =
      if (presentOf o (amapId lba)).isMap && (e.lba == lba && (presentOf o (amapId lba)).accepts e)
      then e.newBlock else entryOf o lba := by
  cases o with
  | none => rfl
  | some t =>
    by_cases hlba : e.lba = lba
    · subst hlba
      unfold amapStep
      cases ha : t.amap (amapId e.lba) with
      | none => simp [presentOf, Present.isMap, ha]
      | some a =>
        cases ht : t.error <;> cases herr : a.error <;>
          cases hacc : replayAccepts a.writeId e.amapWriteId <;>
          simp [presentOf, entryOf, Present.isMap, Present.accepts, Table.setAmap, ha, ht, herr, hacc]
    · have hkeep : entryOf (amapStep e (some t)) lba = entryOf (some t) lba := by
        unfold amapStep
        dsimp only
        cases ha : t.amap (amapId e.lba) with
        | none => rfl
        | some a =>
          dsimp only
          split_ifs
          · rfl
          · by_cases hn : amapId lba = amapId e.lba
            · simp [entryOf, Table.setAmap, hn, ha, Ne.symm hlba]
            · simp [entryOf, Table.setAmap, hn]
      rw [hkeep]
      simp [hlba]

theorem entryOf_metaStep : entryOf (metaStep c e o) lba = entryOf o lba := by
  cases o with
  | none =>
    unfold metaStep
    split_ifs <;> rfl
  | some t =>
    unfold metaStep
    dsimp only
    cases ha : t.amap (amapId e.lba) with
    | some a => rfl
    | none =>
      split_ifs
      · rfl
      · by_cases hn : amapId lba = amapId e.lba
        · simp [entryOf, Table.setAmap, hn, ha, Amap.recreate]
        · simp [entryOf, Table.setAmap, hn]

theorem amapTableId_of_amapId (h : amapId e.lba = amapId lba) : amapTableId e.lba = amapTableId lba := by
  rw [← tableId_amapId, ← tableId_amapId, h]

theorem presentOf_metaStep (hin : e.inUse c = true) (hmeta : e.isMeta = true)
    (htarget : e.metaTarget = target) (htable : amapTableId e.lba = amapTableId lba) :
    presentOf (metaStep c e o) (amapId lba) = (presentOf o (amapId lba)).step c target lba e := by
  have hmakesTable : e.makesTable c target lba = (e.blockFound c && decide (e.metaType = typeAmapTable)) := by
    simp [LogEntry.makesTable, hin, hmeta, htarget, htable, beq_eq_decide]
  have hmakesMap : e.makesMap c target lba =
      (e.blockFound c && decide (e.metaType ≠ typeAmapTable) && decide (amapId e.lba = amapId lba)) := by
    simp [LogEntry.makesMap, hin, hmeta, htarget, bne, beq_eq_decide]
  cases o with
  | none =>
    by_cases htype : e.metaType = typeAmapTable <;> cases hfound : e.blockFound c <;>
      simp [metaStep, presentOf, Present.step, hmakesTable, htype, hfound]
  | some t =>
    unfold metaStep
    dsimp only
    by_cases hn : amapId e.lba = amapId lba
    · rw [hn]
      cases ha : t.amap (amapId lba) with
      | some a => simp [presentOf, ha, Present.step]
      | none =>
        cases herr : t.error <;> by_cases htype : e.metaType = typeAmapTable <;>
          cases hfound : e.blockFound c <;>
          simp [presentOf, ha, Present.step, hmakesMap, herr, htype, hfound, hn, Table.setAmap, Amap.recreate]
    · have hkeep : ∀ t' : Option Table, (t' = some t ∨ t' = some (t.setAmap (amapId e.lba) .recreate)) →
          presentOf t' (amapId lba) = presentOf (some t) (amapId lba) := by
        rintro t' (rfl | rfl)
        · rfl
        · simp [presentOf, Table.setAmap, Ne.symm hn]
      have hstep : (presentOf (some t) (amapId lba)).step c target lba e = presentOf (some t) (amapId lba) := by
        cases ha : t.amap (amapId lba) with
        | some a => simp [presentOf, ha, Present.step]
        | none => cases herr : t.error <;> simp [presentOf, ha, herr, Present.step, hmakesMap, hn]
      rw [hstep]
      refine hkeep _ ?_
      cases t.amap (amapId e.lba) with
      | some a => exact .inl rfl
      | none =>
        split_ifs
        · exact .inl rfl
        · exact .inr rfl

theorem tdisk_of_inUse (hin : e.inUse c = true) (hmeta : e.isMeta = true) :
    e.amapWriteId ≠ 0 ∧ c.tdisk e.metaTarget = true := by
  have hzero : e.targetId = 0 := by simpa [LogEntry.isMeta] using hmeta
  have hvalid : e.tdiskValid c = true := (Bool.and_eq_true_iff.mp hin).1
  by_cases hid : e.amapWriteId = 0
  · simp [LogEntry.tdiskValid, hzero, hid] at hvalid
  · exact ⟨hid, by simpa [LogEntry.tdiskValid, hzero, hid] using hvalid⟩

theorem table_replayMap (hin : e.inUse c = true) : (replayMap c w e).table key =
      if e.isMeta then
        if key = (e.metaTarget, amapTableId e.lba) then metaStep c e (w.table key) else w.table key
      else if key = (e.targetId, amapTableId e.lba) then amapStep e (w.table key)
      else w.table key := by
  unfold replayMap
  cases hmeta : e.isMeta with
  | true =>
    obtain ⟨hid, htdisk⟩ := tdisk_of_inUse hin hmeta
    exact table_replayMetaBlock hid htdisk
  | false => exact table_replayAmapBlock

theorem present_replayEntry : (replayEntry c w e).present target lba = (w.present target lba).step c target lba e := by
  have hidle : ∀ {p : Present}, e.makesTable c target lba = false → e.makesMap c target lba = false →
      p.step c target lba e = p := by
    intro p htable hmap
    rcases p with _ | (_ | _) | _ <;> simp [Present.step, htable, hmap]
  cases hin : e.inUse c with
  | false =>
    rw [hidle (by simp [LogEntry.makesTable, hin]) (by simp [LogEntry.makesMap, hin])]
    simp [replayEntry, hin]
  | true =>
    show presentOf ((replayEntry c w e).table (target, amapTableId lba)) (amapId lba) = _
    rw [replayEntry, if_pos hin, table_replayMap hin, table_replayRef]
    cases hmeta : e.isMeta with
    | false =>
      rw [hidle (by simp [LogEntry.makesTable, hmeta]) (by simp [LogEntry.makesMap, hmeta])]
      simp only [Bool.false_eq_true, if_false]
      split_ifs
      · exact presentOf_amapStep
      · rfl
    | true =>
      simp only [if_true]
      split_ifs with hkey
      · obtain ⟨htarget, htable⟩ := Prod.mk.inj hkey
        exact presentOf_metaStep hin hmeta htarget.symm htable.symm
      · have hne : e.metaTarget = target → amapTableId e.lba ≠ amapTableId lba := by
          rintro rfl htable
          exact hkey (by rw [htable])
        rw [hidle]
        · rfl
        · refine Bool.eq_false_iff.mpr fun hmakes => ?_
          simp only [LogEntry.makesTable, Bool.and_eq_true, beq_iff_eq] at hmakes
          obtain ⟨⟨⟨-, htarget⟩, -⟩, htable⟩ := hmakes
          exact hne htarget htable
        · refine Bool.eq_false_iff.mpr fun hmakes => ?_
          simp only [LogEntry.makesMap, Bool.and_eq_true, beq_iff_eq] at hmakes
          obtain ⟨⟨⟨-, htarget⟩, -⟩, hmap⟩ := hmakes
          exact hne htarget (amapTableId_of_amapId hmap)

theorem entry_replayEntry : (replayEntry c w e).entry target lba =
      if (w.present target lba).isMap && e.sets c w target lba then e.newBlock
      else w.entry target lba := by
  cases hin : e.inUse c with
  | false => simp [replayEntry, LogEntry.sets, hin]
  | true =>
    show entryOf ((replayEntry c w e).table (target, amapTableId lba)) lba = _
    rw [replayEntry, if_pos hin, table_replayMap hin, table_replayRef]
    cases hmeta : e.isMeta with
    | true =>
      simp only [LogEntry.sets, hmeta, if_true, Bool.not_true, Bool.and_false, Bool.false_and,
        Bool.false_eq_true, if_false]
      split_ifs
      · exact entryOf_metaStep
      · rfl
    | false =>
      simp only [Bool.false_eq_true, if_false]
      by_cases hkey : (target, amapTableId lba) = (e.targetId, amapTableId e.lba)
      · have hsets : e.sets c w target lba = (e.lba == lba && (w.present target lba).accepts e) := by
          simp [LogEntry.sets, hin, hmeta, (Prod.mk.inj hkey).1]
        rw [if_pos hkey, entryOf_amapStep, hsets]
        rfl
      · have hsets : e.sets c w target lba = false := by
          refine Bool.eq_false_iff.mpr fun hsets => ?_
          simp only [LogEntry.sets, Bool.and_eq_true, beq_iff_eq] at hsets
          obtain ⟨⟨⟨-, htarget⟩, hlba⟩, -⟩ := hsets
          exact hkey (by rw [htarget, hlba])
        rw [if_neg hkey, hsets, Bool.and_false]
        rfl

theorem present_replay : (logEntriesReplay c w log).present target lba =
      log.foldl (Present.step c target lba) (w.present target lba) := by
  induction log generalizing w with
  | nil => rfl
  | cons e rest ih =>
    rw [List.foldl_cons, ← present_replayEntry]
    exact ih

theorem Present.accepts_step {p : Present} {e e' : LogEntry} : (p.step c target lba e').accepts e = p.accepts e := by
  rcases p with _ | (_ | _) | _
  · simp only [Present.step]
    split_ifs <;> simp [Present.accepts]
  · simp only [Present.step]
    split_ifs <;> simp [Present.accepts]
  · rfl
  · rfl

theorem Present.isMap_step {p : Present} (h : p.isMap = true) : (p.step c target lba e).isMap = true := by
  rcases p with _ | (_ | _) | _
  · cases h
  · cases h
  · cases h
  · exact h

theorem sets_replayEntry : LogEntry.sets c (replayEntry c w e) target lba = LogEntry.sets c w target lba := by
  funext e'
  simp only [LogEntry.sets, present_replayEntry, Present.accepts_step]

theorem sets_replay : LogEntry.sets c (logEntriesReplay c w log) target lba = LogEntry.sets c w target lba := by
  induction log generalizing w with
  | nil => rfl
  | cons e rest ih => exact ih.trans sets_replayEntry

theorem entry_of_not_isMap (h : (w.present target lba).isMap = false) : w.entry target lba = none := by
  unfold World.present at h
  unfold World.entry
  cases ht : w.table (target, amapTableId lba) with
  | none => rfl
  | some t =>
    rw [ht] at h
    dsimp only at h ⊢
    cases ha : t.amap (amapId lba) with
    | none => rfl
    | some a => simp [ha, Present.isMap] at h

theorem entry_replay_of_not_sets (h : ∀ e ∈ log, e.sets c w target lba = false) :
    (logEntriesReplay c w log).entry target lba = w.entry target lba := by
  induction log generalizing w with
  | nil => rfl
  | cons e rest ih =>
    have hrest := ih (w := replayEntry c w e) fun e' he' => by
      rw [sets_replayEntry]
      exact h e' (List.mem_cons_of_mem _ he')
    refine hrest.trans ?_
    rw [entry_replayEntry, h e List.mem_cons_self]
    simp

theorem entry_replay_last {post : List LogEntry} (he : e.sets c w target lba = true)
    (hpost : ∀ e' ∈ post, e'.sets c w target lba = false) : (logEntriesReplay c w (p ++ e :: post)).entry target lba =
      if mapThere c w target lba p then e.newBlock else none := by
  have hsplit : logEntriesReplay c w (p ++ e :: post) =
      logEntriesReplay c (replayEntry c (logEntriesReplay c w p) e) post := by
    rw [logEntriesReplay_append]
    rfl
  have hsets : LogEntry.sets c (replayEntry c (logEntriesReplay c w p) e) target lba =
      LogEntry.sets c w target lba := sets_replayEntry.trans sets_replay
  rw [hsplit, entry_replay_of_not_sets (by rw [hsets]; exact hpost), entry_replayEntry, sets_replay, he,
    mapThere, ← present_replay, Bool.and_true]
  cases hmap : ((logEntriesReplay c w p).present target lba).isMap with
  | true => rfl
  | false => simp [entry_of_not_isMap hmap]

end QuadStor.Replay
