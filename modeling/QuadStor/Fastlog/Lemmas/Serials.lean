import QuadStor.Fastlog.Basic

/-!
# Write ids along a run
-/

namespace QuadStor.Fastlog

open Lib List Function

variable {κ : Type} [DecidableEq κ] {c : Config} {s : State} {writeId current incr : Nat}

theorem writeIdGreater_of_lt (h : writeId < current) : writeIdGreater current writeId = true := by
  simp [writeIdGreater, h]

theorem writeIdGreater_self (id : Nat) : writeIdGreater id id = false := by
  simp [writeIdGreater, u64]

theorem writeIdGreater_of_le (h : current ≤ writeId)
    (hwindow : writeId ≤ current + 2 ^ 32) (hlt : writeId < 2 ^ 48) : writeIdGreater current writeId = false := by
  have hdiff : u64 (u64 (writeIdMax + 2 ^ 64 - current) + 2 ^ 64 -
      u64 (writeIdMax + 2 ^ 64 - writeId)) = writeId - current := by
    unfold u64 writeIdMax
    omega
  simp only [writeIdGreater, hdiff, if_neg (Nat.not_lt.mpr h)]
  exact decide_eq_false (by omega)

theorem writeIdIncr_of_lt (h : writeId + incr < writeIdMax) : writeIdIncr writeId incr = writeId + incr := by
  have hsum : u64 (writeId + incr) = writeId + incr := by
    unfold u64 writeIdMax at *
    omega
  rw [writeIdIncr, hsum, if_pos h]

theorem writeIdIncr_of_ge (h : writeIdMax ≤ writeId + incr) (hw : writeId < 2 ^ 48)
    (hincr : incr < 2 ^ 32) : writeIdIncr writeId incr = writeId + incr - (writeIdMax - 1) := by
  have hsum : u64 (writeId + incr) = writeId + incr := by
    unfold u64
    omega
  rw [writeIdIncr, hsum, if_neg (Nat.not_lt.mpr h)]
  unfold u64 writeIdMax at *
  omega

theorem storedId_of_lt (h : writeId < 2 ^ 48) : storedId writeId = writeId :=
  Nat.mod_eq_of_lt h

/-- The indexes, or the maps: `made k n w` says that update `n` of object `k` was recorded under
write id `w`. -/
structure Tracked (next : Nat) (made : κ → Nat → Nat → Prop) (f : κ → Backed) : Prop where
  tracks : ∀ k, (f k).Tracks (2 ^ 32) (made k)
  below : ∀ k, (f k).Below next
  pos : ∀ k, 0 < (f k).mem.serial
  lt : ∀ k, (f k).mem.serial < 2 ^ 48
  recorded : ∀ {k n w}, made k n w → 0 < w

section

variable {next : Nat} {made made' : κ → Nat → Nat → Prop} {f : κ → Backed} {k : κ}

omit [DecidableEq κ] in
theorem Tracked.mono {next' : Nat} (h : Tracked next made f) (hle : next ≤ next')
    (hsub : ∀ {k n w}, made' k n w → made k n w) : Tracked next' made' f :=
  ⟨fun k => (h.tracks k).mono hsub, fun k => (h.below k).mono hle, h.pos, h.lt, fun hm => h.recorded (hsub hm)⟩

section

variable (h : Tracked next made f)
include h

theorem Tracked.put {next' : Nat} {o : Backed} (hle : next ≤ next') (hrecorded : ∀ {k n w}, made' k n w → 0 < w)
    (htracks : o.Tracks (2 ^ 32) (made' k)) (hrest : ∀ k', k' ≠ k → (f k').Tracks (2 ^ 32) (made' k'))
    (hbelow : o.Below next') (hpos : 0 < o.mem.serial) (hlt : o.mem.serial < 2 ^ 48) :
    Tracked next' made' (Function.update f k o) where
  tracks := (forall_update_iff f fun k o => o.Tracks (2 ^ 32) (made' k)).2 ⟨htracks, hrest⟩
  below := (forall_update_iff f fun _ o => o.Below next').2 ⟨hbelow, fun k' _ => (h.below k').mono hle⟩
  pos := (forall_update_iff f fun _ o => 0 < o.mem.serial).2 ⟨hpos, fun k' _ => h.pos k'⟩
  lt := (forall_update_iff f fun _ o => o.mem.serial < 2 ^ 48).2 ⟨hlt, fun k' _ => h.lt k'⟩
  recorded := hrecorded

theorem Tracked.update (hmade : ∀ {k' n w}, made' k' n w →
      made k' n w ∨ (k' = k ∧ n = next ∧ w = (f k).mem.serial)) :
    Tracked (next + 1) made' (update f k ((f k).update next)) := by
  have hrecorded : ∀ {k' n w}, made' k' n w → 0 < w := by
    intro k' n w hm
    rcases hmade hm with hm | ⟨-, -, rfl⟩
    · exact h.recorded hm
    · exact h.pos k
  refine h.put (Nat.le_succ _) hrecorded ?_ (fun k' hk => ?_) (h.below k).update (h.pos k) (h.lt k)
  · refine (h.tracks k).update (h.below k) fun hm => ?_
    rcases hmade hm with hm | ⟨-, hn, hw⟩
    · exact .inl hm
    · exact .inr ⟨hn, hw⟩
  · refine (h.tracks k').mono fun hm => ?_
    rcases hmade hm with hm | ⟨heq, -, -⟩
    · exact hm
    · exact absurd heq hk

theorem Tracked.set {o : Backed} (htracks : o.Tracks (2 ^ 32) (made k))
    (hbelow : o.Below next) (hpos : 0 < o.mem.serial) (hlt : o.mem.serial < 2 ^ 48) :
    Tracked next made (Function.update f k o) :=
  h.put (Nat.le_refl _) h.recorded htracks (fun k' _ => h.tracks k') hbelow hpos hlt

theorem Tracked.flush (hahead : Ahead (f k) writeId) :
    Tracked next made (Function.update f k ((f k).writeBack writeId)) := by
  obtain ⟨hgt, hwindow, hlt⟩ := hahead
  exact h.set ((h.tracks k).writeBack hgt hwindow) (h.below k).writeBack (Nat.lt_of_le_of_lt (Nat.zero_le _) hgt) hlt

theorem Tracked.written {ok : Bool} : Tracked next made (Function.update f k ((f k).written ok)) :=
  h.set (h.tracks k).written (h.below k).written (h.pos k) (h.lt k)

end

omit [DecidableEq κ] in
theorem Tracked.loaded (h : ∀ k, Loaded next (f k)) : Tracked next (fun _ _ _ => False) f := by
  refine ⟨fun k => ⟨False.elim, fun hi => ?_, fun hi => ?_, False.elim, ?_, ?_⟩,
    fun k => (h k).below, fun k => (h k).pos, fun k => (h k).lt, False.elim⟩
  · rw [(h k).idle] at hi
    cases hi
  · rw [(h k).idle] at hi
    cases hi
  · rcases (h k).serial with heq | ⟨-, hz⟩
    · exact Nat.le_of_eq heq.symm
    · omega
  · rcases (h k).serial with heq | ⟨hone, -⟩ <;> omega

omit [DecidableEq κ] in
theorem Tracked.replayAccepts_iff (h : Tracked next made f) {n w : Nat} (hm : made k n w) :
    replayAccepts (storedId (f k).disk.serial) (storedId w) = true ↔ n ∉ (f k).disk.updates := by
  obtain ⟨-, hw⟩ := (h.tracks k).mem hm
  have hdisk := (h.tracks k).disk_le
  have hwindow := (h.tracks k).le_disk
  have hlt := h.lt k
  have hpos := h.recorded hm
  rw [storedId_of_lt (by omega), storedId_of_lt (by omega), (h.tracks k).disk_iff hm, Nat.not_lt]
  constructor
  · intro haccept
    by_contra hnot
    have hgreater := writeIdGreater_of_lt (Nat.not_le.mp hnot)
    simp [replayAccepts, hgreater, Nat.ne_of_gt hpos] at haccept
  · intro hle
    simp [replayAccepts, writeIdGreater_of_le hle (by omega) (by omega)]

end

def State.known (s : State) : List Page := s.pages ++ s.log.map LogEntry.page

def State.MadeRef (s : State) (row : Row) (n w : Nat) : Prop :=
  ∃ p ∈ s.known, p.ref = some ⟨row, n, w⟩

def State.MadeMap (s : State) (key : MapKey) (n w : Nat) : Prop :=
  ∃ p ∈ s.known, p.map = some ⟨key, n, w⟩

def Page.Identified (c : Config) (p : Page) : Prop :=
  (∀ r, p.ref = some r → p.indexInfo = true ∧ c.v2Disk r.key.1 = true) ∧ ∀ u, p.map = some u → c.v2Tdisk u.key.1 = true

structure State.Ok (c : Config) (s : State) : Prop where
  index : Tracked s.next s.MadeRef s.index
  amap : Tracked s.next s.MadeMap s.amap
  log : ∀ e ∈ s.log, e = e.page.logEntry c ∧ e.page.Identified c

theorem State.Ok.start (h : s.Start) : s.Ok c := by
  have hnone : s.known = [] := by simp [State.known, h.pages, h.log]
  refine ⟨(Tracked.loaded h.index).mono le_rfl ?_, (Tracked.loaded h.amap).mono le_rfl ?_, ?_⟩
  · rintro row n w ⟨p, hp, -⟩
    simp [hnone] at hp
  · rintro key n w ⟨p, hp, -⟩
    simp [hnone] at hp
  · simp [h.log]

variable (h : s.Ok c)
include h

theorem State.Ok.setKnown {pages : List Page} {log : List LogEntry}
    (hsub : ∀ p ∈ pages ++ log.map LogEntry.page, (∃ q ∈ s.known, p = q) ∨ (p.ref = none ∧ p.map = none))
    (hlog : ∀ e ∈ log, e = e.page.logEntry c ∧ e.page.Identified c) : State.Ok c { s with pages, log } := by
  refine ⟨h.index.mono le_rfl ?_, h.amap.mono le_rfl ?_, hlog⟩
  · rintro row n w ⟨p, hp, href⟩
    rcases hsub p hp with ⟨q, hq, rfl⟩ | ⟨hnone, -⟩
    · exact ⟨p, hq, href⟩
    · rw [hnone] at href
      cases href
  · rintro key n w ⟨p, hp, hmap⟩
    rcases hsub p hp with ⟨q, hq, rfl⟩ | ⟨-, hnone⟩
    · exact ⟨p, hq, hmap⟩
    · rw [hnone] at hmap
      cases hmap

theorem State.Ok.takeRef {row : Row} {indexInfo : Bool} : (s.takeRef row indexInfo).Ok c := by
  have hknown : ∀ p ∈ (s.takeRef row indexInfo).known,
      p = ⟨some ⟨row, s.next, (s.index row).mem.serial⟩, indexInfo, none⟩ ∨ p ∈ s.known :=
    fun p hp => mem_cons.mp hp
  refine ⟨h.index.update ?_, h.amap.mono (Nat.le_succ _) ?_, h.log⟩
  · rintro row' n w ⟨p, hp, href⟩
    rcases hknown p hp with rfl | hp
    · cases href
      exact .inr ⟨rfl, rfl, rfl⟩
    · exact .inl ⟨p, hp, href⟩
  · rintro key n w ⟨p, hp, hmap⟩
    rcases hknown p hp with rfl | hp
    · cases hmap
    · exact ⟨p, hp, hmap⟩

theorem State.Ok.setMap {p : Page} {key : MapKey} (hp : p ∈ s.pages) : (s.setMap p key).Ok c := by
  have hknown : ∀ q ∈ (s.setMap p key).known,
      q = { p with map := some ⟨key, s.next, (s.amap key).mem.serial⟩ } ∨ q ∈ s.known := by
    intro q hq
    rcases mem_append.mp hq with hq | hq
    · rcases mem_cons.mp hq with hq | hq
      · exact .inl hq
      · exact .inr (mem_append_left _ (mem_of_mem_erase hq))
    · exact .inr (mem_append_right _ hq)
  refine ⟨h.index.mono (Nat.le_succ _) ?_, h.amap.update ?_, h.log⟩
  · rintro row n w ⟨q, hq, href⟩
    rcases hknown q hq with rfl | hq
    · exact ⟨p, mem_append_left _ hp, href⟩
    · exact ⟨q, hq, href⟩
  · rintro key' n w ⟨q, hq, hmap⟩
    rcases hknown q hq with rfl | hq
    · cases hmap
      exact .inr ⟨rfl, rfl, rfl⟩
    · exact .inl ⟨q, hq, hmap⟩

theorem State.Ok.insertLog {p : Page} (hp : p ∈ s.pages) (hid : p.Identified c) : (s.insertLog c p).Ok c := by
  refine h.setKnown (fun q hq => .inl ⟨q, ?_, rfl⟩) fun e he => ?_
  · rw [map_append, ← append_assoc] at hq
    rcases mem_append.mp hq with hq | hq
    · rcases mem_append.mp hq with hq | hq
      · exact mem_append_left _ (mem_of_mem_erase hq)
      · exact mem_append_right _ hq
    · rw [map_singleton, mem_singleton] at hq
      subst hq
      exact mem_append_left _ hp
  · exact forall_mem_append.2 ⟨h.log, forall_mem_singleton.2 ⟨rfl, hid⟩⟩ e he

theorem State.Ok.run {a : Action} (hsound : a.Sound c s) (hallowed : a.Allowed s) : (s.run c a).Ok c := by
  cases a with
  | takeRef row indexInfo => exact h.takeRef
  | zeroPage =>
    exact h.setKnown (forall_mem_cons.2 ⟨.inr ⟨rfl, rfl⟩, fun q hq => .inl ⟨q, hq, rfl⟩⟩) h.log
  | setMap p key => exact h.setMap hallowed.1
  | logPage p => exact h.insertLog hallowed.1 hsound
  | logMeta p =>
    refine h.insertLog hallowed.1 ⟨hsound, fun u hu => ?_⟩
    rw [hallowed.2] at hu
    cases hu
  | cancel p =>
    refine h.setKnown (fun q hq => .inl ⟨q, ?_, rfl⟩) h.log
    rcases mem_append.mp hq with hq | hq
    · exact mem_append_left _ (mem_of_mem_erase hq)
    · exact mem_append_right _ hq
  | clear e =>
    refine h.setKnown (fun q hq => .inl ⟨q, ?_, rfl⟩) fun e' he' =>
      h.log e' (mem_of_mem_erase he')
    rcases mem_append.mp hq with hq | hq
    · exact mem_append_left _ hq
    · obtain ⟨e', he', rfl⟩ := List.mem_map.mp hq
      exact mem_append_right _ (mem_map_of_mem (mem_of_mem_erase he'))
  | flushIndex row incr => exact ⟨h.index.flush hsound, h.amap, h.log⟩
  | endIndex row ok => exact ⟨h.index.written, h.amap, h.log⟩
  | flushAmap key given skip => exact ⟨h.index, h.amap.flush hsound, h.log⟩
  | endAmap key ok => exact ⟨h.index, h.amap.written, h.log⟩

end QuadStor.Fastlog
