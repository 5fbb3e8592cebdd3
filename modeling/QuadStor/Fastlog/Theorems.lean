import QuadStor.Fastlog.Lemmas.Serials

/-!
# What replay applies after a crash
-/

namespace QuadStor.Fastlog

open Lib

variable {c : Config} {s : State}

/-- In a run whose pages are all logged with their ids and whose flushes stamp ids ahead, replay takes a logged
reference exactly when the index on disk does not have it, and sets a logged map entry exactly when the map on disk is
older. -/
theorem replay_accepts_missing (h : ((system c).restrict (Action.Sound c)).Reachable s)
    {e : LogEntry} (he : e ∈ s.log) : (∀ r, e.page.ref = some r →
      (replayAccepts (loadedId (c.v2Disk r.key.1) (s.index r.key).disk) e.indexWriteId = true ↔
        r.seq ∉ (s.index r.key).disk.updates)) ∧
      ∀ u, e.page.map = some u →
        (replayAccepts (loadedId (c.v2Tdisk u.key.1) (s.amap u.key).disk) e.amapWriteId = true ↔
          u.seq ∉ (s.amap u.key).disk.updates) := by
  have hinv : ((system c).restrict (Action.Sound c)).Invariant (State.Ok c) :=
    ⟨State.Ok.start, fun hok hstep => hstep.2.2 ▸ hok.run hstep.1 hstep.2.1⟩
  have hok := hinv.reachable h
  obtain ⟨hentry, href, hmap⟩ := hok.log e he
  have hknown : e.page ∈ s.known := List.mem_append_right _ (List.mem_map_of_mem he)
  rw [hentry]
  constructor
  · intro r hr
    have hr : e.page.ref = some r := hr
    obtain ⟨hinfo, hv2⟩ := href r hr
    have hid : (e.page.logEntry c).indexWriteId = storedId r.writeId := by
      simp [Page.logEntry, hr, hinfo, hv2]
    rw [hid, loadedId, if_pos hv2]
    exact hok.index.replayAccepts_iff ⟨e.page, hknown, hr⟩
  · intro u hu
    have hu : e.page.map = some u := hu
    have hv2 := hmap u hu
    have hid : (e.page.logEntry c).amapWriteId = storedId u.writeId := by
      simp [Page.logEntry, hu, hv2]
    rw [hid, loadedId, if_pos hv2]
    exact hok.amap.replayAccepts_iff ⟨e.page, hknown, hu⟩

def oneDisk : Config := ⟨fun _ => true, fun _ => true⟩

def written (n : Nat) : State where
  index _ := ⟨⟨n, []⟩, none, ⟨n, []⟩⟩
  amap _ := ⟨⟨n, []⟩, none, ⟨n, []⟩⟩
  pages := []
  log := []
  next := 0

theorem written_start {n : Nat} (hpos : 0 < n) (hlt : n < 2 ^ 48) : (written n).Start := by
  have hloaded : Loaded 0 ⟨⟨n, []⟩, none, ⟨n, []⟩⟩ :=
    ⟨.inl rfl, hpos, hlt, rfl, ⟨by simp, by simp, by simp⟩⟩
  exact ⟨fun _ => hloaded, fun _ => hloaded, rfl, rfl⟩

def onePage (indexInfo : Bool) (n : Nat) : Page := ⟨some ⟨(1, 0), 0, n⟩, indexInfo, none⟩

def onePageMapped (indexInfo : Bool) (n m : Nat) : Page :=
  { onePage indexInfo n with map := some ⟨(1, 0), 1, m⟩ }

def logOne (indexInfo : Bool) (n m : Nat) : List Action :=
  [.takeRef (1, 0) indexInfo, .setMap (onePage indexInfo n) (1, 0), .logPage (onePageMapped indexInfo n m)]

def logAndFlush (indexInfo : Bool) : List Action :=
  logOne indexInfo 1 1 ++ [.flushIndex (1, 0) true, .endIndex (1, 0) true]

/-- The flush of an index with the last write id is under way when the page takes its reference. -/
def flushAndLog : List Action := .flushIndex (1, 0) true :: logOne true 1 (2 ^ 48 - 2)

instance (s : State) (a : Action) : Decidable (a.Allowed s) := by
  cases a <;> unfold Action.Allowed <;> infer_instance

instance (o : Backed) (writeId : Nat) : Decidable (Ahead o writeId) :=
  inferInstanceAs (Decidable (_ ∧ _ ∧ _))

theorem reachable_run (ok : State → Action → Prop) {s : State} {actions : List Action}
    (h : s.Start) (hall : System.Along (fun s a => ok s a ∧ a.Allowed s) (State.run c) s actions) :
    ((system c).restrict ok).Reachable (actions.foldl (State.run c) s) := by
  refine System.Reachable.foldl ?_ (.init h) hall
  exact fun hallowed => ⟨hallowed.1, hallowed.2, rfl⟩

/-- A page copied by reference is logged without the id of its index, so replay takes its reference a second time. When
the ids start over, replay leaves out a reference that is on disk nowhere. -/
theorem replay_takes_twice_or_never : (∃ s, (system oneDisk).Reachable s ∧ ∃ e ∈ s.log, ∃ r, e.page.ref = some r ∧
      replayAccepts (loadedId true (s.index r.key).disk) e.indexWriteId = true ∧
      r.seq ∈ (s.index r.key).disk.updates) ∧
    ∃ s, (system oneDisk).Reachable s ∧ ∃ e ∈ s.log, ∃ r, e.page.ref = some r ∧
      replayAccepts (loadedId true (s.index r.key).disk) e.indexWriteId = false ∧
      r.seq ∉ (s.index r.key).disk.updates := by
  refine ⟨⟨(logAndFlush false).foldl (State.run oneDisk) (written 1), ?_,
      (onePageMapped false 1 1).logEntry oneDisk, ?_, ⟨(1, 0), 0, 1⟩, ?_⟩,
    ⟨flushAndLog.foldl (State.run oneDisk) (written (2 ^ 48 - 2)), ?_,
      (onePageMapped true 1 (2 ^ 48 - 2)).logEntry oneDisk, ?_, ⟨(1, 0), 0, 1⟩, ?_⟩⟩
  · refine (reachable_run (fun _ _ => True) (written_start ?_ ?_) ?_).of_restrict
    · decide
    · decide
    · decide +kernel
  · decide +kernel
  · decide +kernel
  · refine (reachable_run (fun _ _ => True) (written_start ?_ ?_) ?_).of_restrict
    · decide
    · decide
    · decide +kernel
  · decide +kernel
  · decide +kernel

/-- A page that keeps its index id is logged, its index flushed: replay leaves the reference alone. -/
theorem replay_accepts_missing_flushed : replayAccepts (loadedId true
      (((logAndFlush true).foldl (State.run oneDisk) (written 1)).index (1, 0)).disk) 1 = false := by
  have hreach : ((system oneDisk).restrict (Action.Sound oneDisk)).Reachable
      ((logAndFlush true).foldl (State.run oneDisk) (written 1)) := by
    refine reachable_run _ (written_start ?_ ?_) ?_
    · decide
    · decide
    · simp only [logAndFlush, logOne, List.cons_append, List.nil_append, System.Along, Action.Sound]
      decide +kernel
  have hmem : (onePageMapped true 1 1).logEntry oneDisk ∈
      ((logAndFlush true).foldl (State.run oneDisk) (written 1)).log := by decide +kernel
  have hiff := (replay_accepts_missing hreach hmem).1 ⟨(1, 0), 0, 1⟩ rfl
  refine Bool.eq_false_iff.mpr fun haccept => hiff.mp haccept ?_
  decide +kernel

structure OrderedIds (writeId next : Nat) : Prop where
  valid : 0 < next ∧ next < 2 ^ 48
  greater : writeIdGreater next writeId = true
  notGreater : writeIdGreater writeId next = false
  irrefl : ∀ id, writeIdGreater id id = false

theorem orderedIds_of_lt {w k : Nat} (hpos : 1 ≤ k) (hle : k ≤ 2 ^ 32) (h : w + k < writeIdMax) :
    OrderedIds w (w + k) := by
  unfold writeIdMax at h
  refine ⟨⟨?_, ?_⟩, writeIdGreater_of_lt ?_, writeIdGreater_of_le ?_ ?_ ?_, writeIdGreater_self⟩ <;> omega

theorem orderedIds_incr_iff {w k : Nat} (hw : w < 2 ^ 48) (hpos : 1 ≤ k) (hle : k ≤ 2 ^ 32) :
    OrderedIds w (writeIdIncr w (u32 k)) ↔ k < 2 ^ 32 ∧ w + k < writeIdMax := by
  constructor
  · intro h
    by_contra hnot
    have hgt : ∀ {next}, next < w → ¬OrderedIds w next := fun hlt hordered => by
      simpa [writeIdGreater_of_lt hlt] using hordered.notGreater
    have hself : ¬OrderedIds w w := fun hordered => by
      simpa [writeIdGreater_self] using hordered.greater
    by_cases hk : k = 2 ^ 32
    · -- the increment is gone
      have hzero : u32 k = 0 := by simp [hk, u32]
      rw [hzero] at h
      by_cases hmax : w + 0 < writeIdMax
      · rw [writeIdIncr_of_lt hmax] at h
        exact hself h
      · rw [writeIdIncr_of_ge (Nat.not_lt.mp hmax) hw (by decide)] at h
        refine hgt ?_ h
        unfold writeIdMax at *
        omega
    · have hlt : k < 2 ^ 32 := Nat.lt_of_le_of_ne hle hk
      rw [u32_eq_of_lt hlt, writeIdIncr_of_ge (by omega) hw hlt] at h
      refine hgt ?_ h
      unfold writeIdMax at *
      omega
  · rintro ⟨hk, h⟩
    rw [u32_eq_of_lt hk, writeIdIncr_of_lt h]
    exact orderedIds_of_lt hpos hle h

theorem orderedIds_incr_one : OrderedIds 41 (writeIdIncr 41 (u32 1)) :=
  (orderedIds_incr_iff (by decide) (by decide) (by decide)).mpr ⟨by decide, by decide⟩

theorem both_greater : writeIdGreater (writeIdIncr (2 ^ 48 - 2) (u32 1)) (2 ^ 48 - 2) = true ∧
    writeIdGreater (2 ^ 48 - 2) (writeIdIncr (2 ^ 48 - 2) (u32 1)) = true := by
  decide

end QuadStor.Fastlog
