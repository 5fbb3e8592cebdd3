import QuadStor.Recovery.Lemmas.Steps
import QuadStor.Replay.Theorems

/-!
# Crashes while the log is reset
-/

namespace QuadStor.Recovery

open Lib List
open Replay (World LogEntry Config Run)

variable {disks : List Nat} {c : Config} {s : State} {d : Disks}

theorem ok_of_reachable (hs : ((system disks c).restrict State.Writes).Reachable s) : s.Ok disks c := by
  have hinv : ((system disks c).restrict State.Writes).Invariant (State.Ok disks c) := {
    init := fun {s} ⟨hdown, hvalid, hset⟩ => by
      refine ⟨?_, fun hp => absurd hdown hp, by simp only [State.PhaseOk, hdown]⟩
      cases hflag : s.disk.logWrite with
      | false => exact .inr (.inl ⟨rfl, hvalid.symm⟩)
      | true => exact .of_effects (.inr (by simp only [hset hflag]))
    step := fun {s a t} h ⟨hw, ha, ht⟩ => ht ▸ h.step hw ha }
  exact hinv.reachable hs

/-- In every run in which `log_write` gets to disk whenever the reset syncs it, a start finds the effects of all entries
that were valid before on disk, or the flag is clear and the log has all of them; a replay is one of all of them; and
pages are emptied only while their effects are on disk. -/
theorem log_reset_crash_safe (hs : ((system disks c).restrict State.Writes).Reachable s) :
    (s.phase = .loaded → s.EffectsOnDisk c ∨ s.logWrite = false ∧ s.disk.log disks = s.valid) ∧
    (∀ w log r, s.phase = .replaying w log r → log = s.valid ∧ (Replay.system c w log).Reachable r) ∧
    ∀ todo, s.phase = .resetting todo → s.EffectsOnDisk c := by
  have h := ok_of_reachable hs
  have hphase := h.phase
  refine ⟨fun hp => ?_, fun w log r hp => ?_, fun todo hp => ?_⟩
  · obtain ⟨-, heff⟩ | hlog | ⟨heff, -⟩ := h.mem (by simp [hp])
    · exact .inl heff
    · exact .inr hlog
    · exact .inl heff
  · simp only [State.PhaseOk, hp] at hphase
    exact ⟨hphase.2.2.2.2.1, hphase.2.2.2.2.2.1⟩
  · simp only [State.PhaseOk, hp] at hphase
    exact hphase.1

theorem mem_log {e : LogEntry} :
    e ∈ d.log disks ↔ ∃ bid ∈ disks, ∃ i < maxLogPages, (d.page bid i).start ≠ 0 ∧ e ∈ (d.page bid i).entries := by
  simp only [Disks.log, mem_flatMap, mem_checkWriteLogs, Disks.pages, List.mem_map, mem_range]
  constructor
  · rintro ⟨p, ⟨⟨bid, hbid, i, hi, rfl⟩, hstart⟩, he⟩
    exact ⟨bid, hbid, i, hi, hstart, he⟩
  · rintro ⟨bid, hbid, i, hi, hstart, he⟩
    exact ⟨_, ⟨⟨bid, hbid, i, hi, rfl⟩, hstart⟩, he⟩

section

variable {ok : State → Action → Prop}

theorem reachable_run (actions : List Action) (hs : ((system disks c).restrict ok).Reachable s)
    (hall : System.Along (fun s a => ok s a ∧ s.allowed a) (State.run disks c) s actions) :
    ((system disks c).restrict ok).Reachable (actions.foldl (State.run disks c) s) := by
  refine .foldl ?_ hs hall
  exact fun hallowed => ⟨hallowed.1, hallowed.2, rfl⟩

theorem reachable_resetting {bid : Nat} {left : List Nat} {rest : List (Nat × List Nat)}
    (hok : ∀ s i, ok s (.resetPage i)) (hnext : ∀ s, ok s .nextDisk)
    (hs : ((system disks c).restrict ok).Reachable s) (hp : s.phase = .resetting ((bid, left) :: rest)) :
    ∃ page, ((system disks c).restrict ok).Reachable
      { s with phase := .resetting rest, disk := { s.disk with page } } := by
  induction left generalizing s with
  | nil =>
    refine ⟨s.disk.page, .step (a := .nextDisk) hs ⟨hnext s, ?_, ?_⟩⟩
    · simp only [State.allowed, hp]
    · simp only [State.run, hp]
  | cons i left ih =>
    have hstep : ((system disks c).restrict ok).Reachable
        { s with phase := .resetting ((bid, left) :: rest), disk := s.disk.resetPage bid i } := by
      refine .step (a := .resetPage i) hs ⟨hok s i, ?_, ?_⟩
      · simp only [State.allowed, hp]
        exact mem_cons_self
      · simp only [State.run, hp, erase_cons_head]
    obtain ⟨page, hpage⟩ := ih hstep rfl
    exact ⟨page, hpage⟩

theorem reachable_replaying {w : World} {log : List LogEntry} {r : Run} (hok : ∀ s a, ok s (.replay a))
    (hs : ((system disks c).restrict ok).Reachable s) (hp : s.phase = .replaying w log (.start w log))
    (hw : s.disk.world = w) (hr : (Replay.system c w log).Reachable r) : ((system disks c).restrict ok).Reachable
      { s with phase := .replaying w log r, disk := { s.disk with world := r.disk } } := by
  induction hr with
  | init hinit =>
    cases hinit
    have hsame : ({ s with
        phase := .replaying w log (.start w log), disk := { s.disk with world := w } } : State) = s := by
      subst hw
      rw [← hp]
    exact hsame.symm ▸ hs
  | step _ hstep ih =>
    obtain ⟨ha, rfl⟩ := hstep
    exact .step (a := .replay _) ih ⟨hok _ _, ha, rfl⟩

theorem reachable_replayed (hcheck : ∀ s, ok s .check) (hreplay : ∀ s a, ok s (.replay a))
    (hdone : ∀ s, ok s .replayed) (hs : ((system disks c).restrict ok).Reachable s) (hp : s.phase = .loaded)
    (hflag : s.logWrite = false) (hpages : checkWriteLogs LogPage.start (s.disk.pages disks) ≠ []) :
    ∃ world, ((system disks c).restrict ok).Reachable
      { s with
        phase := .resetStart
        disk := { s.disk with world }
        progress := if s.disk.log disks = s.valid then .replayed s.disk.world else .pending } := by
  have hstart : ((system disks c).restrict ok).Reachable { s with
      phase := .replaying s.disk.world (s.disk.log disks) (.start s.disk.world (s.disk.log disks))
      progress := .pending } := by
    refine .step (a := .check) hs ⟨hcheck s, ?_, ?_⟩
    · simp only [State.allowed, hp]
    · simp [State.run, hflag, hpages]
  obtain ⟨r, hr, hcomplete⟩ := Replay.exists_complete c s.disk.world (s.disk.log disks)
  have hrun := reachable_replaying hreplay hstart rfl rfl hr
  exact ⟨r.disk, .step (a := .replayed) hrun ⟨hdone _, hcomplete, rfl⟩⟩

end

open Replay (onePool oneMap oneWrite)

def emptyPage (_ _ : Nat) : LogPage := ⟨0, []⟩

def onePage : Nat → Nat → LogPage := Function.update emptyPage 1 (Function.update (emptyPage 1) 0 ⟨1, [oneWrite]⟩)

theorem mem_log_onePage (h : d.page = onePage) : oneWrite ∈ d.log [1] :=
  mem_log.2 ⟨1, by simp, 0, by decide, by simp [h, onePage], by simp [h, onePage]⟩

theorem checkWriteLogs_onePage (h : d.page = onePage) : checkWriteLogs LogPage.start (d.pages [1]) ≠ [] := fun hnil =>
  ne_nil_of_mem (mem_log_onePage h) (State.log_eq_nil hnil)

theorem not_mem_log_reset (h : d.page = onePage) : oneWrite ∉ (d.resetPage 1 0).log [1] := by
  rw [mem_log]
  rintro ⟨bid, hbid, i, -, hstart, -⟩
  obtain rfl := mem_singleton.mp hbid
  by_cases hi : i = 0
  · subst hi
    simp [Disks.resetPage] at hstart
  · simp [Disks.resetPage, h, onePage, emptyPage, hi] at hstart

theorem reachable_down {ok : State → Action → Prop} {progress : Progress}
    (h : d.logWrite = true → progress = .finished) :
    ((system disks c).restrict ok).Reachable ⟨d, .down, false, false, false, d.log disks, progress⟩ :=
  .init ⟨rfl, rfl, h⟩

theorem reachable_up_set : ∃ s, ((system [1] onePool).restrict fun _ _ => True).Reachable s ∧ s.phase = .up ∧
    s.disk.logWrite = true := by
  have hdown : ((system [1] onePool).restrict fun _ _ => True).Reachable ⟨⟨true, emptyPage, oneMap⟩, .down, false,
      false, false, Disks.log [1] ⟨true, emptyPage, oneMap⟩, .finished⟩ := reachable_down fun _ => rfl
  have hsync := reachable_run [.load, .check, .setLogWrite, .syncSet] hdown
    ⟨⟨trivial, trivial⟩, ⟨trivial, trivial⟩, ⟨trivial, trivial⟩, ⟨trivial, trivial⟩, trivial⟩
  obtain ⟨page, hreset⟩ := @reachable_resetting _ _ _ _ 1 (List.range maxLogPages) []
    (fun _ _ => trivial) (fun _ => trivial) hsync rfl
  exact ⟨_, reachable_run [.clearLogWrite, .syncCleared] hreset ⟨⟨trivial, trivial⟩, ⟨trivial, trivial⟩, trivial⟩, rfl, rfl⟩

/-- A write is logged then, and after a crash its page of the log is emptied without a replay. -/
theorem flag_not_cleared_discards_entry :
    ∃ s todo, (system [1] onePool).Reachable s ∧ s.phase = .resetting todo ∧ oneWrite ∈ s.valid ∧
      oneWrite ∉ s.disk.log [1] ∧ s.disk.world.entry 1 5 = none ∧ ¬ s.EffectsOnDisk onePool := by
  obtain ⟨⟨⟨flag, page, world⟩, phase, mem, inReplay, pending, _, _⟩, hs, hp, hflag⟩ := reachable_up_set
  cases hp
  cases hflag
  have hwrite : ((system [1] onePool).restrict fun _ _ => True).Reachable
      ⟨⟨true, onePage, oneMap⟩, .up, mem, inReplay, pending, Disks.log [1] ⟨true, onePage, world⟩, .pending⟩ :=
    reachable_run [.write onePage oneMap false] hs ⟨⟨trivial, trivial⟩, trivial⟩
  have hvalid : oneWrite ∈ Disks.log [1] ⟨true, onePage, world⟩ := mem_log_onePage rfl
  generalize Disks.log [1] ⟨true, onePage, world⟩ = valid at hwrite hvalid
  have hpage := reachable_run [.crash, .load, .check, .setLogWrite, .syncSet, .resetPage 0] hwrite
    ⟨⟨trivial, trivial⟩, ⟨trivial, trivial⟩, ⟨trivial, trivial⟩, ⟨trivial, trivial⟩, ⟨trivial, trivial⟩,
      ⟨trivial, mem_range.mpr (by decide)⟩, trivial⟩
  refine ⟨_, [(1, (List.range maxLogPages).erase 0)], hpage.of_restrict, rfl, hvalid, not_mem_log_reset rfl, rfl, ?_⟩
  rintro (hnil | hpending)
  · exact ne_nil_of_mem hvalid hnil
  · exact hpending

/-- A crash after the first page of the log was emptied: the flag is set, and the entry was replayed. -/
theorem log_reset_crash_safe_interrupted :
    ∃ s, ((system [1] onePool).restrict State.Writes).Reachable s ∧ s.phase = .loaded ∧ oneWrite ∈ s.valid ∧
      oneWrite ∉ s.disk.log [1] ∧ s.EffectsOnDisk onePool := by
  have hdown : ((system [1] onePool).restrict State.Writes).Reachable ⟨⟨false, onePage, oneMap⟩, .down, false, false,
      false, Disks.log [1] ⟨false, onePage, oneMap⟩, .pending⟩ := reachable_down fun h => nomatch h
  have hvalid : oneWrite ∈ Disks.log [1] ⟨false, onePage, oneMap⟩ := mem_log_onePage rfl
  generalize Disks.log [1] ⟨false, onePage, oneMap⟩ = valid at hdown hvalid
  have hload := reachable_run [.load] hdown ⟨⟨trivial, trivial⟩, trivial⟩
  obtain ⟨world, hreplayed⟩ := reachable_replayed (fun _ => trivial) (fun _ _ => trivial) (fun _ => trivial) hload rfl rfl
    (checkWriteLogs_onePage rfl)
  have hagain := reachable_run [.touch, .setLogWrite, .syncSet, .resetPage 0, .crash, .load] hreplayed
    ⟨⟨trivial, trivial⟩, ⟨trivial, trivial⟩, ⟨.inl rfl, trivial⟩, ⟨trivial, mem_range.mpr (by decide)⟩,
      ⟨trivial, trivial⟩, ⟨trivial, trivial⟩, trivial⟩
  refine ⟨_, hagain, rfl, hvalid, not_mem_log_reset rfl, ?_⟩
  obtain heff | ⟨hclear, -⟩ := (log_reset_crash_safe hagain).1 rfl
  · exact heff
  · exact nomatch (hclear : true = false)

end QuadStor.Recovery
