import QuadStor.Recovery.Basic
import QuadStor.Replay.Lemmas.Interrupted

/-!
# What a crash can leave
-/

namespace QuadStor.Recovery

open Lib List
open Replay (World LogEntry Config Run)

variable {disks left : List Nat} {c : Config} {s : State} {rest : List (Nat × List Nat)} {d : Disks} {bid i : Nat}
  {log : List LogEntry} {flag : Bool}

namespace State

/-- A start that finds the flag to be `flag` loses nothing. -/
def FlagOk (disks : List Nat) (c : Config) (s : State) (flag : Bool) : Prop :=
  (flag = true ∧ s.EffectsOnDisk c) ∨ (flag = false ∧ s.disk.log disks = s.valid) ∨
    (s.EffectsOnDisk c ∧ checkWriteLogs LogPage.start (s.disk.pages disks) = [])

def EmptyBut (disks : List Nat) (d : Disks) (todo : List (Nat × List Nat)) : Prop :=
  ∀ bid ∈ disks, ∀ i < maxLogPages, (∀ left, (bid, left) ∈ todo → i ∉ left) → d.page bid i = ⟨0, []⟩

def PhaseOk (disks : List Nat) (c : Config) (s : State) : Prop :=
  match s.phase with
  | .down => True
  | .loaded => s.logWrite = s.disk.logWrite ∧ s.inLogReplay = !s.logWrite
  | .replaying w log r =>
    s.logWrite = false ∧ s.disk.logWrite = false ∧ s.inLogReplay = true ∧ s.disk.log disks = s.valid ∧
      log = s.valid ∧ (Replay.system c w log).Reachable r ∧ s.disk.world = r.disk
  | .resetStart => s.EffectsOnDisk c
  | .resetSync => s.EffectsOnDisk c ∧ s.logWrite = true
  | .resetting todo =>
    s.EffectsOnDisk c ∧ s.disk.logWrite = true ∧ s.logWrite = true ∧ EmptyBut disks s.disk todo
  | .resetEnd => s.EffectsOnDisk c ∧ s.logWrite = false ∧ checkWriteLogs LogPage.start (s.disk.pages disks) = []
  | .up => s.disk.logWrite = false ∧ s.logWrite = false ∧ s.disk.log disks = s.valid
  | .failed => s.inLogReplay = false → s.EffectsOnDisk c

structure Ok (disks : List Nat) (c : Config) (s : State) : Prop where
  disk : s.FlagOk disks c s.disk.logWrite
  mem : s.phase ≠ .down → s.FlagOk disks c s.logWrite
  phase : s.PhaseOk disks c

theorem FlagOk.of_effects (h : s.EffectsOnDisk c) : s.FlagOk disks c true := .inl ⟨rfl, h⟩

theorem FlagOk.effects (h : s.FlagOk disks c true) : s.EffectsOnDisk c := by
  obtain ⟨-, h⟩ | ⟨hf, -⟩ | ⟨h, -⟩ := h
  · exact h
  · cases hf
  · exact h

theorem log_eq_nil (h : checkWriteLogs LogPage.start (d.pages disks) = []) : d.log disks = [] := by
  rw [Disks.log, h]
  rfl

theorem FlagOk.effects_of_empty (h : s.FlagOk disks c flag)
    (hpages : checkWriteLogs LogPage.start (s.disk.pages disks) = []) : s.EffectsOnDisk c := by
  obtain ⟨-, h⟩ | ⟨-, h⟩ | ⟨h, -⟩ := h
  · exact h
  · exact .inl (h.symm.trans (log_eq_nil hpages))
  · exact h

theorem FlagOk.log_eq (h : s.FlagOk disks c flag) (hflag : flag = false)
    (hpages : checkWriteLogs LogPage.start (s.disk.pages disks) ≠ []) : s.disk.log disks = s.valid := by
  obtain ⟨hset, -⟩ | ⟨-, h⟩ | ⟨-, h⟩ := h
  · cases hset.symm.trans hflag
  · exact h
  · exact absurd h hpages

theorem EmptyBut.checkWriteLogs_eq (h : EmptyBut disks d []) : checkWriteLogs LogPage.start (d.pages disks) = [] := by
  refine eq_nil_iff_forall_not_mem.mpr fun p hp => ?_
  obtain ⟨hmem, hstart⟩ := mem_checkWriteLogs.mp hp
  simp only [Disks.pages, mem_flatMap, List.mem_map, mem_range] at hmem
  obtain ⟨bid, hbid, i, hi, rfl⟩ := hmem
  rw [h bid hbid i hi (by simp)] at hstart
  exact hstart rfl

theorem emptyBut_start (d : Disks) : EmptyBut disks d (disks.map fun bid => (bid, List.range maxLogPages)) := by
  intro bid hbid i hi hleft
  exact absurd (mem_range.mpr hi) (hleft _ (List.mem_map.mpr ⟨bid, hbid, rfl⟩))

theorem EmptyBut.resetPage
    (h : EmptyBut disks d ((bid, left) :: rest)) : EmptyBut disks (d.resetPage bid i) ((bid, left.erase i) :: rest) := by
  intro b hb j hj hleft
  by_cases hcell : b = bid ∧ j = i
  · obtain ⟨rfl, rfl⟩ := hcell
    simp [Disks.resetPage]
  · have hold : (d.resetPage bid i).page b j = d.page b j := by
      by_cases hbid : b = bid
      · subst hbid
        have hj : j ≠ i := fun hj => hcell ⟨rfl, hj⟩
        simp [Disks.resetPage, hj]
      · simp [Disks.resetPage, hbid]
    rw [hold]
    refine h b hb j hj fun l hl => ?_
    obtain heq | hl := mem_cons.mp hl
    · cases heq
      exact fun hmem => hleft _ mem_cons_self ((mem_erase_of_ne fun h => hcell ⟨rfl, h⟩).mpr hmem)
    · exact hleft l (mem_cons_of_mem _ hl)

theorem EmptyBut.nextDisk (h : EmptyBut disks d ((bid, []) :: rest)) : EmptyBut disks d rest := by
  intro b hb i hi hleft
  refine h b hb i hi fun l hl => ?_
  obtain heq | hl := mem_cons.mp hl
  · cases heq
    exact not_mem_nil
  · exact hleft l hl

theorem Ok.bintSync (h : s.Ok disks c) (hp : s.phase ≠ .down) : s.bintSync.Ok disks c := by
  rw [State.bintSync]
  split
  · refine ⟨h.mem hp, h.mem, ?_⟩
    have hphase := h.phase
    simp only [PhaseOk] at hphase ⊢
    cases hs : s.phase <;> simp only [hs] at hphase ⊢
    case loaded => exact ⟨trivial, hphase.2⟩
    case replaying w log r =>
      obtain ⟨hmem, -, hrest⟩ := hphase
      exact ⟨hmem, hmem, hrest⟩
    case resetting todo =>
      obtain ⟨heff, -, hmem, hempty⟩ := hphase
      exact ⟨heff, hmem, hmem, hempty⟩
    case up =>
      obtain ⟨-, hmem, hrest⟩ := hphase
      exact ⟨hmem, hmem, hrest⟩
    all_goals exact hphase
  · exact h

theorem bintSync_written (h : s.ioPending = true ∨ s.disk.logWrite = s.logWrite) :
    s.bintSync.disk.logWrite = s.logWrite := by
  rw [bintSync]
  split
  · rfl
  · simp_all

theorem bintSync_logWrite : s.bintSync.logWrite = s.logWrite := by
  rw [bintSync]
  split <;> rfl

section

variable (h : s.Ok disks c)
include h

theorem Ok.check (hp : s.phase = .loaded) : (s.run disks c .check).Ok disks c := by
  have hmem := h.mem (by simp [hp])
  obtain ⟨hflag, hreplay⟩ : s.logWrite = s.disk.logWrite ∧ s.inLogReplay = !s.logWrite := by
    simpa only [PhaseOk, hp] using h.phase
  simp only [run]
  split
  · rename_i hset
    exact ⟨h.disk, fun _ => hmem, (hset ▸ hmem).effects⟩
  · rename_i hset
    have hclear : s.logWrite = false := by simpa using hset
    split
    · rename_i hempty
      exact ⟨h.disk, fun _ => hmem, hmem.effects_of_empty (List.isEmpty_iff.1 hempty)⟩
    · rename_i hpages
      have hlog := hmem.log_eq hclear (by simpa using hpages)
      exact ⟨.inr (.inl ⟨hflag ▸ hclear, hlog⟩), fun _ => .inr (.inl ⟨hclear, hlog⟩), hclear, hflag ▸ hclear,
        by simp [hreplay, hclear], hlog, hlog, .init rfl, rfl⟩

theorem Ok.replay {a : Replay.Action} {w : World} {r : Run}
    (hp : s.phase = .replaying w log r) (ha : a.Allowed r) : (s.run disks c (.replay a)).Ok disks c := by
  obtain ⟨hmem, hdisk, hreplay, hlog, hvalid, hr, -⟩ : _ ∧ _ ∧ _ ∧ _ ∧ _ ∧ _ ∧ _ := by
    simpa only [PhaseOk, hp] using h.phase
  simp only [run, hp]
  exact ⟨.inr (.inl ⟨hdisk, hlog⟩), fun _ => .inr (.inl ⟨hmem, hlog⟩), hmem, hdisk, hreplay, hlog, hvalid,
    .step hr ⟨ha, rfl⟩, rfl⟩

theorem Ok.replayed {w : World} {r : Run}
    (hp : s.phase = .replaying w log r) (hr : r.Complete) : (s.run disks c .replayed).Ok disks c := by
  obtain ⟨hmem, hdisk, -, hlog, hvalid, hreach, hworld⟩ : _ ∧ _ ∧ _ ∧ _ ∧ _ ∧ _ ∧ _ := by
    simpa only [PhaseOk, hp] using h.phase
  subst hvalid
  have heff := hworld.trans ((Replay.ok_of_reachable hreach).complete hr)
  simp only [run, hp, if_true]
  exact ⟨.inr (.inl ⟨hdisk, hlog⟩), fun _ => .inr (.inl ⟨hmem, hlog⟩), .inr heff⟩

theorem Ok.fail (hp : s.phase ≠ .down) (hup : s.phase ≠ .up) : (s.run disks c .fail).Ok disks c := by
  refine ⟨h.disk, fun _ => h.mem hp, fun hreplay => ?_⟩
  have hphase := h.phase
  simp only [PhaseOk] at hphase
  cases hs : s.phase <;> simp only [hs] at hphase
  case down => exact absurd hs hp
  case loaded =>
    have hnot : s.inLogReplay = false := hreplay
    have hset : s.logWrite = true := by simpa [hnot] using hphase.2
    exact (hset ▸ h.mem hp).effects
  case replaying w log r =>
    cases hphase.2.2.1.symm.trans hreplay
  case resetStart => exact hphase
  case failed => exact hphase hreplay
  case up => exact absurd hs hup
  all_goals exact hphase.1

theorem Ok.syncSet (hp : s.phase = .resetSync)
    (hw : s.ioPending = true ∨ s.disk.logWrite = s.logWrite) : (s.run disks c .syncSet).Ok disks c := by
  obtain ⟨heff, hset⟩ : s.EffectsOnDisk c ∧ s.logWrite = true := by simpa only [PhaseOk, hp] using h.phase
  have hdisk : s.bintSync.disk.logWrite = true := (bintSync_written hw).trans hset
  have heff' : s.bintSync.EffectsOnDisk c := by
    rw [State.bintSync]
    split <;> exact heff
  refine ⟨.inl ⟨hdisk, heff'⟩, fun _ => .inl ⟨bintSync_logWrite.trans hset, heff'⟩, ?_⟩
  exact ⟨heff', hdisk, bintSync_logWrite.trans hset, emptyBut_start _⟩

theorem Ok.resetPage (hp : s.phase = .resetting ((bid, left) :: rest)) : (s.run disks c (.resetPage i)).Ok disks c := by
  obtain ⟨heff, hdisk, hmem, hempty⟩ : _ ∧ _ ∧ _ ∧ _ := by simpa only [PhaseOk, hp] using h.phase
  simp only [run, hp]
  exact ⟨.inl ⟨hdisk, heff⟩, fun _ => .inl ⟨hmem, heff⟩, heff, hdisk, hmem, hempty.resetPage⟩

theorem Ok.nextDisk (hp : s.phase = .resetting ((bid, []) :: rest)) : (s.run disks c .nextDisk).Ok disks c := by
  obtain ⟨heff, hdisk, hmem, hempty⟩ : _ ∧ _ ∧ _ ∧ _ := by simpa only [PhaseOk, hp] using h.phase
  simp only [run, hp]
  exact ⟨h.disk, fun _ => h.mem (by simp [hp]), heff, hdisk, hmem, hempty.nextDisk⟩

theorem Ok.clearLogWrite (hp : s.phase = .resetting []) : (s.run disks c .clearLogWrite).Ok disks c := by
  obtain ⟨heff, -, -, hempty⟩ : _ ∧ _ ∧ _ ∧ _ := by simpa only [PhaseOk, hp] using h.phase
  have hpages := hempty.checkWriteLogs_eq
  exact ⟨h.disk, fun _ => .inr (.inr ⟨heff, hpages⟩), heff, rfl, hpages⟩

theorem Ok.syncCleared (hp : s.phase = .resetEnd)
    (hw : s.ioPending = true ∨ s.disk.logWrite = s.logWrite) : (s.run disks c .syncCleared).Ok disks c := by
  obtain ⟨-, hclear, hpages⟩ : _ ∧ _ ∧ _ := by simpa only [PhaseOk, hp] using h.phase
  have hdisk : s.bintSync.disk.logWrite = false := (bintSync_written hw).trans hclear
  have hlog : s.bintSync.disk.log disks = s.disk.log disks := by
    rw [State.bintSync]
    split <;> rfl
  refine ⟨.inr (.inl ⟨hdisk, hlog⟩), fun _ => .inr (.inl ⟨bintSync_logWrite.trans hclear, hlog⟩), ?_⟩
  exact ⟨hdisk, bintSync_logWrite.trans hclear, hlog⟩

theorem Ok.shutdown (ha : s.allowed .shutdown) : (s.run disks c .shutdown).Ok disks c := by
  have hp : s.phase ≠ .down := by
    intro hd
    simp [allowed, hd] at ha
  simp only [run]
  split
  · have hsync := h.bintSync hp
    exact ⟨hsync.disk, fun hd => absurd rfl hd, trivial⟩
  · rename_i hreplay
    have heff : s.EffectsOnDisk c := by
      have hphase := h.phase
      simp only [PhaseOk] at hphase
      cases hs : s.phase <;> simp only [allowed, hs] at ha hphase
      case up =>
        cases hprog : s.progress <;> simp only [hprog] at ha
        exact .inr (by simp only [hprog])
      case failed => exact hphase (by simpa using hreplay)
    exact ⟨.inl ⟨rfl, heff⟩, fun hd => absurd rfl hd, trivial⟩

theorem Ok.step {a : Action} (hw : s.Writes a) (ha : s.allowed a) : (s.run disks c a).Ok disks c := by
  cases a with
  | load => exact ⟨h.disk, fun _ => h.disk, rfl, rfl⟩
  | touch => exact ⟨h.disk, h.mem, h.phase⟩
  | syncThread => exact h.bintSync fun hd => by simp [allowed, hd] at ha
  | check =>
    cases hs : s.phase <;> simp only [allowed, hs] at ha
    exact h.check hs
  | replay a =>
    cases hs : s.phase <;> simp only [allowed, hs] at ha
    exact h.replay hs ha
  | replayed =>
    cases hs : s.phase <;> simp only [allowed, hs] at ha
    exact h.replayed hs ha
  | fail => exact h.fail (fun hd => by simp [allowed, hd] at ha) fun hd => by simp [allowed, hd] at ha
  | setLogWrite =>
    cases hs : s.phase <;> simp only [allowed, hs] at ha
    have heff : s.EffectsOnDisk c := by simpa only [PhaseOk, hs] using h.phase
    exact ⟨h.disk, fun _ => .of_effects heff, heff, rfl⟩
  | syncSet =>
    cases hs : s.phase <;> simp only [allowed, hs] at ha
    exact h.syncSet hs hw
  | resetPage i =>
    rcases hs : s.phase with _ | _ | _ | _ | _ | ⟨_ | ⟨⟨bid, left⟩, rest⟩⟩ | _ | _ | _ <;>
      simp only [allowed, hs] at ha
    exact h.resetPage hs
  | nextDisk =>
    rcases hs : s.phase with _ | _ | _ | _ | _ | ⟨_ | ⟨⟨bid, _ | _⟩, rest⟩⟩ | _ | _ | _ <;>
      simp only [allowed, hs] at ha
    exact h.nextDisk hs
  | clearLogWrite =>
    rcases hs : s.phase with _ | _ | _ | _ | _ | ⟨_ | _⟩ | _ | _ | _ <;> simp only [allowed, hs] at ha
    exact h.clearLogWrite hs
  | syncCleared =>
    cases hs : s.phase <;> simp only [allowed, hs] at ha
    exact h.syncCleared hs hw
  | write page world finished =>
    cases hs : s.phase <;> simp only [allowed, hs] at ha
    obtain ⟨hdisk, hmem, -⟩ : _ ∧ _ ∧ _ := by simpa only [PhaseOk, hs] using h.phase
    refine ⟨.inr (.inl ⟨hdisk, rfl⟩), fun _ => .inr (.inl ⟨hmem, rfl⟩), ?_⟩
    simp only [PhaseOk, run, hs]
    exact ⟨hdisk, hmem, rfl⟩
  | shutdown => exact h.shutdown ha
  | crash => exact ⟨h.disk, fun hd => absurd rfl hd, trivial⟩

end

end State

end QuadStor.Recovery
