import QuadStor.MirrorResync.Lemmas.Invariant

/-!
# A resync loses no write
-/

namespace QuadStor.MirrorResync

open Lib Function

variable {cfg : Config} {s t : State cfg} {k : Fin cfg.threads} {w : Write} {m n j page done id : Nat} {pc pc' : Pc}
  {worker : Worker}

theorem tableId_lt (hn : n < cfg.amapMax) : tableId n < cfg.tableMax := by
  unfold tableId Config.tableMax amapsPerAmapTable
  omega

theorem past_nextTable (hn : n < cfg.amapMax) (h : (nextTable cfg j).Past n) : tableId n ≤ j := by
  have hlt := tableId_lt hn
  unfold nextTable at h
  split_ifs at h with hlast
  · omega
  · exact Nat.le_of_lt_succ h

theorem inRange_nextTable (hj : j < cfg.tableMax) : (nextTable cfg j).InRange cfg := by
  unfold nextTable
  split_ifs with hlast
  · trivial
  · exact Nat.lt_of_le_of_ne hj hlast

theorem past_nextAmap (hn : n < cfg.amapMax) (h : (nextAmap cfg m done).Past n) : n ≤ m := by
  unfold nextAmap at h
  split_ifs at h with hlast
  · have hle : n / amapsPerAmapTable ≤ m / amapsPerAmapTable := h
    unfold amapsPerAmapTable at hle hlast
    omega
  · exact Nat.le_of_lt_succ h

theorem inRange_nextAmap (hm : m < cfg.amapMax) : (nextAmap cfg m done).InRange cfg := by
  unfold nextAmap
  split_ifs with hlast
  · exact tableId_lt hm
  · exact Nat.lt_of_le_of_ne hm fun heq => hlast (.inr heq)

theorem quiet_nextAmap : ¬(nextAmap cfg m done).Quiet := by
  unfold nextAmap
  split_ifs <;> exact id

theorem Wf.waited (h : Wf s) (hwaited : s.Waited) (n : Nat) : s.worker n = .idle := by
  by_contra hne
  exact hne (hwaited n (h.workerLt n hne))

theorem Wf.goto (h : Wf s) (hneed : s.needResync = true) (hrange : pc.InRange cfg) : Wf (s.goto pc) :=
  { h with
    workers := nofun
    needResync := fun _ => hneed
    inRange := by
      rintro _ ⟨⟩
      exact hrange }

theorem Wf.setWorker (h : Wf s) (hsync : s.inSync = true) (hn : n < cfg.amapMax)
    (hlocked : worker = .locked → s.FreeMap n) : Wf (s.setWorker n worker) := by
  refine { h with locked := fun m hm => ?_, workerLt := fun m hm => ?_, workers := fun hnot => ?_ }
  · by_cases hmn : m = n
    · subst hmn
      exact hlocked (by simpa [State.setWorker] using hm)
    · exact h.locked m (by simpa [State.setWorker, update_of_ne hmn] using hm)
  · by_cases hmn : m = n
    · exact hmn ▸ hn
    · exact h.workerLt m (by simpa [State.setWorker, update_of_ne hmn] using hm)
  · have hnot' : s.inSync = false := hnot
    simp [hsync] at hnot'

structure Handled (s : State cfg) (n : Nat) : Prop where
  silent : ∀ w, s.Silent w → w.Covers n → s.worker n = .queued
  unsent : ∀ page, s.unsent page = true → amapId page = n → s.worker n ≠ .idle
  progress : s.worker n ≠ .queued → n ≤ s.cloneAmapId ∨ s.skipped (tableId n) = true

theorem Running.handled (h : Running s pc) (hn : n < cfg.amapMax) (hp : pc.Past n) : Handled s n where
  silent w hw hcovers := h.silent w hw n hcovers hp
  unsent := by
    rintro page hpage rfl
    exact h.unsent page hpage hp
  progress := h.progress n hn hp

theorem Wf.running (h : Wf s) (hmaps : ∀ n < cfg.amapMax, pc.Past n → Handled s n)
    (hquiet : pc.Quiet → ∀ n, s.worker n = .idle) : Running s pc where
  silent w hw n hn hp := by
    obtain ⟨k, hk⟩ := hw.2
    exact (hmaps n (Nat.lt_of_le_of_lt hn.2 (h.writeOk k w hk).lt) hp).silent w hw hn
  unsent page hpage hp := (hmaps _ (h.unsentLt page hpage) hp).unsent page hpage rfl
  progress n hn hp := (hmaps n hn hp).progress
  quiet := hquiet

theorem Handled.step (h : Handled s n) (hwriter : t.writer = s.writer) (hworker : t.worker n = s.worker n)
    (hunsent : ∀ page, t.unsent page = true → s.unsent page = true) (hid : s.cloneAmapId ≤ t.cloneAmapId)
    (hskipped : ∀ j, s.skipped j = true → t.skipped j = true) : Handled t n := by
  refine ⟨fun w hw => ?_, fun page hpage => ?_, fun hne => ?_⟩
  · rw [hworker]
    exact h.silent w (by simpa only [State.Silent, hwriter] using hw)
  · rw [hworker]
    exact h.unsent page (hunsent page hpage)
  · rw [hworker] at hne
    exact (h.progress hne).imp (Nat.le_trans · hid) (hskipped _)

section

variable (h : Inv s)
include h

theorem Inv.running (hphase : s.phase = .running pc) (herror : s.mirrorError = false) : Running s pc := by
  have hok := h.phaseOk
  simp only [PhaseOk, hphase] at hok
  exact hok herror

theorem Inv.needResync (hphase : s.phase = .running pc) : s.needResync = true :=
  h.wf.needResync (by simp [hphase])

theorem Inv.start (hphase : s.phase = .idle) :
    Inv { s with phase := .running (.table 0), cloneAmapId := 0, mirrorError := false, skipped := fun _ => false } := by
  have hidle := h.wf.workers (by simp [State.inSync, hphase])
  have hpos : 0 < cfg.tableMax := by
    have := cfg.pos
    unfold Config.tableMax amapsPerAmapTable
    omega
  have hwf : Wf (s.goto (.table 0)) := h.wf.goto (h.wf.needResync (by simp [hphase])) hpos
  refine ⟨{ hwf with }, fun _ => ?_⟩
  exact Wf.running { hwf with } (fun _ _ hp => absurd hp (Nat.not_lt_zero _)) fun _ => hidle

theorem Inv.fail (hphase : s.phase = .running pc) : Inv s.fail := by
  have hwf : Wf (s.goto .finish) := h.wf.goto (h.needResync hphase) trivial
  exact ⟨{ hwf with }, nofun⟩

theorem Inv.cancel : Inv { s with mirrorError := true } := by
  refine ⟨{ h.wf with }, ?_⟩
  have hok := h.phaseOk
  unfold PhaseOk at hok ⊢
  cases hphase : s.phase with
  | idle | running pc => simp
  | completed =>
    simp only [hphase] at hok ⊢
    exact { hok with }

theorem Inv.goto (hphase : s.phase = .running pc) (hpast : ∀ n < cfg.amapMax, pc'.Past n → pc.Past n)
    (hquiet : pc'.Quiet → ∀ n, s.worker n = .idle) (hrange : pc'.InRange cfg) : Inv (s.goto pc') := by
  have hwf := h.wf.goto (h.needResync hphase) hrange
  refine ⟨hwf, fun herror => hwf.running (fun n hn hp => ?_) hquiet⟩
  have hdone := (h.running hphase herror).handled hn (hpast n hn hp)
  exact { hdone with }

theorem Inv.skipTable (hphase : s.phase = .running (.table j)) (hskips : s.skipsTable j = true)
    (hsilent : ∀ w, s.Silent w → ∀ n, w.Covers n → tableId n ≠ j) :
    Inv ({ s with skipped := Function.update s.skipped j true }.goto (nextTable cfg j)) := by
  have hwf := h.wf.goto (h.needResync hphase) (inRange_nextTable (h.wf.inRange _ hphase))
  refine ⟨{ hwf with }, fun herror => ?_⟩
  have hrun := h.running hphase herror
  refine Wf.running { hwf with } (fun n hn hp => ?_) fun _ => hrun.quiet trivial
  by_cases heq : tableId n = j
  · refine ⟨fun w hw hcovers => absurd heq (hsilent w hw n hcovers), fun page hpage hid => ?_, fun _ => .inr ?_⟩
    · have hready := h.wf.ready n (.inl ⟨page, hpage, hid⟩)
      rw [← heq, hready.not_skipsTable] at hskips
      cases hskips
    · simp [State.goto, heq]
  · exact (hrun.handled hn (Nat.lt_of_le_of_ne (past_nextTable hn hp) heq)).step rfl rfl (fun _ => id) (Nat.le_refl _)
      fun _ => update_true

theorem Inv.skipAmap (hphase : s.phase = .running (.amap m done)) (hskips : s.skipsAmap m = true)
    (hsilent : ∀ w, s.Silent w → ¬w.Covers m) : Inv ((s.setCloneAmapId m).goto (nextAmap cfg m done)) := by
  have hwf : Wf (s.goto (nextAmap cfg m done)) :=
    h.wf.goto (h.needResync hphase) (inRange_nextAmap (h.wf.inRange _ hphase))
  refine ⟨{ hwf with }, fun herror => ?_⟩
  refine Wf.running { hwf with } (fun n hn hp => ?_) fun hq => absurd hq quiet_nextAmap
  by_cases heq : n = m
  · subst heq
    refine ⟨fun w hw hcovers => absurd hcovers (hsilent w hw), fun page hpage hid => ?_,
      fun _ => .inl (Nat.le_max_right _ _)⟩
    rw [(h.wf.ready n (.inl ⟨page, hpage, hid⟩)).not_skipsAmap] at hskips
    cases hskips
  · exact ((h.running hphase herror).handled hn (Nat.lt_of_le_of_ne (past_nextAmap hn hp) heq)).step rfl rfl
      (fun _ => id) (Nat.le_max_left _ _) fun _ => id

theorem Inv.queue (hphase : s.phase = .running (.amap m done))
    (hpast : ∀ n < cfg.amapMax, pc'.Past n → n ≤ m) (hquiet : ¬pc'.Quiet) (hrange : pc'.InRange cfg) :
    Inv ((s.setWorker m .queued).goto pc') := by
  have hwf : Wf (s.setWorker m .queued) :=
    h.wf.setWorker (by simp [State.inSync, hphase]) (h.wf.inRange _ hphase) nofun
  have hwf' := hwf.goto (h.needResync hphase) hrange
  refine ⟨hwf', fun herror => hwf'.running (fun n hn hp => ?_) fun hq => absurd hq hquiet⟩
  by_cases heq : n = m
  · have hqueued : ((s.setWorker m .queued).goto pc').worker n = .queued := heq ▸ update_self ..
    exact ⟨fun _ _ _ => hqueued, fun _ _ _ => by simp [hqueued], fun hne => absurd hqueued hne⟩
  · exact ((h.running hphase herror).handled hn (Nat.lt_of_le_of_ne (hpast n hn hp) heq)).step rfl
      (update_of_ne heq _ _) (fun _ => id) (Nat.le_refl _) fun _ => id

theorem Inv.complete (hphase : s.phase = .running .finish) (hwaited : s.Waited)
    (herror : s.mirrorError = false) : Inv s.complete := by
  have hidle := h.wf.waited hwaited
  have hrun := h.running hphase herror
  have hunsent : ∀ page, s.unsent page = false := fun page => by
    by_contra hpage
    exact hrun.unsent page (by simpa using hpage) trivial (hidle _)
  have hsilent : ∀ w, ¬s.Silent w := fun w hw => by
    obtain ⟨k, hk⟩ := hw.2
    have hqueued := hrun.silent w hw (amapId w.first) ⟨Nat.le_refl _, amapId_mono (h.wf.writeOk k w hk).le⟩ trivial
    simp [hidle] at hqueued
  refine ⟨{ h.wf with
    ready := fun n hn => ?_
    invalid := nofun
    workers := fun _ => hidle
    needResync := fun hne => absurd rfl hne
    inRange := nofun }, hunsent, hsilent, rfl⟩
  obtain ⟨page, hpage, -⟩ | ⟨w, hw, -⟩ := hn
  · have hpage' : s.unsent page = true := hpage
    simp [hunsent] at hpage'
  · exact absurd hw (hsilent w)

theorem Inv.stop (hphase : s.phase = .running pc) (hwaited : s.Waited) :
    Inv { s with phase := .idle, cloneAmapId := 0 } :=
  ⟨{ h.wf with
    workers := fun _ => h.wf.waited hwaited
    needResync := fun _ => h.needResync hphase
    inRange := nofun }, trivial⟩

theorem Inv.sweep {ok : Bool} (hallowed : Allowed s (.sweep ok)) (hstep : s.sweep ok = some t) : Inv t := by
  unfold State.sweep at hstep
  cases hphase : s.phase with
  | idle | completed => simp [hphase] at hstep
  | running pc =>
    have hrange := h.wf.inRange pc hphase
    simp only [Allowed, hphase] at hallowed
    cases pc with
    | table j =>
      simp only [hphase] at hstep
      split_ifs at hstep with hskips hok <;> cases hstep
      · exact h.skipTable hphase hskips (hallowed hskips)
      · refine h.goto hphase (fun n _ hp => ?_) nofun ?_
        · exact Nat.div_lt_of_lt_mul hp
        · have hj : j < (cfg.amapMax + amapsPerAmapTable - 1) / amapsPerAmapTable := hrange
          show amapsPerAmapTable * j < cfg.amapMax
          unfold amapsPerAmapTable at hj ⊢
          omega
      · exact h.fail hphase
    | amap m done =>
      simp only [hphase] at hstep
      split_ifs at hstep with hskips hok hfull <;> cases hstep
      · exact h.skipAmap hphase hskips (hallowed hskips)
      · exact h.queue hphase (fun n _ hp => hp) nofun hrange
      · exact h.queue hphase (fun n hn hp => past_nextAmap hn hp) quiet_nextAmap (inRange_nextAmap hrange)
      · exact h.fail hphase
    | batch m =>
      simp only [hphase] at hstep
      split_ifs at hstep with hwaited herror <;> cases hstep
      · exact h.fail hphase
      · exact h.goto hphase (fun n hn hp => past_nextAmap hn hp) (fun hq => absurd hq quiet_nextAmap)
          (inRange_nextAmap hrange)
    | endTable j =>
      simp only [hphase] at hstep
      split_ifs at hstep with hwaited herror <;> cases hstep
      · exact h.fail hphase
      · exact h.goto hphase (fun n hn hp => past_nextTable hn hp)
          (fun _ => h.wf.waited hwaited) (inRange_nextTable hrange)
    | finish =>
      simp only [hphase] at hstep
      split_ifs at hstep with hwaited herror <;> cases hstep
      · exact h.stop hphase hwaited
      · simp only [Bool.or_eq_true, not_or, Bool.not_eq_true] at herror
        exact h.complete hphase hwaited herror.1

end

/-! ## Steps of a map in the list -/

theorem Wf.running_of_worker (h : Wf s) (hworker : s.worker n ≠ .idle) : ∃ pc, s.phase = .running pc := by
  cases hphase : s.phase with
  | idle | completed => exact absurd (h.workers (by simp [State.inSync, hphase]) n) hworker
  | running pc => exact ⟨pc, rfl⟩

theorem Wf.inv (h : Wf s) (hphase : s.phase = .running pc) (hrun : s.mirrorError = false → Running s pc) : Inv s :=
  ⟨h, by simpa only [PhaseOk, hphase] using hrun⟩

theorem Inv.work {unsent : Nat → Bool} (h : Inv s) (hworker : s.worker n ≠ .idle)
    (hfree : s.FreeMap n) (hshrink : ∀ page, unsent page = true → s.unsent page = true)
    (hunsent : worker = .idle → ∀ page, amapId page = n → unsent page = false) (hid : s.cloneAmapId ≤ id)
    (hprogress : s.worker n = .locked ∨ n ≤ id) : Inv { s.setWorker n worker with unsent, cloneAmapId := id } := by
  obtain ⟨pc, hphase⟩ := h.wf.running_of_worker hworker
  have hwf : Wf (s.setWorker n worker) :=
    h.wf.setWorker (by simp [State.inSync, hphase]) (h.wf.workerLt n hworker) fun _ => hfree
  have hwf' : Wf { s.setWorker n worker with unsent, cloneAmapId := id } := { hwf with
    ready := fun m hm => h.wf.ready m (hm.imp_left (Exists.imp fun page hp => ⟨hshrink page hp.1, hp.2⟩))
    unsentLt := fun page hpage => h.wf.unsentLt page (hshrink page hpage) }
  refine hwf'.inv hphase fun herror => ?_
  have hrun := h.running hphase herror
  refine hwf'.running (fun m hm hp => ?_) fun hq => absurd (hrun.quiet hq n) hworker
  by_cases heq : m = n
  · subst heq
    have hself : Function.update s.worker m worker m = worker := Function.update_self ..
    refine ⟨fun w hw hcovers => ?_, fun page hpage hid hidle => ?_, fun _ => ?_⟩
    · obtain ⟨k, hk⟩ := hw.2
      exact absurd hcovers (hfree k w hk)
    · cases (hunsent (hself.symm.trans hidle) page hid).symm.trans hpage
    · obtain hlocked | hle := hprogress
      · exact (hrun.progress m hm hp (by simp [hlocked])).imp_left fun hle => Nat.le_trans hle hid
      · exact .inl hle
  · exact (hrun.handled hm hp).step rfl (Function.update_of_ne heq _ _) hshrink hid fun _ hj => hj

theorem Inv.work_failed (h : Inv s) (hworker : s.worker n ≠ .idle) :
    Inv { s.setWorker n .idle with cloneAmapId := id, mirrorError := true } := by
  obtain ⟨pc, hphase⟩ := h.wf.running_of_worker hworker
  have hwf : Wf (s.setWorker n .idle) :=
    h.wf.setWorker (by simp [State.inSync, hphase]) (h.wf.workerLt n hworker) (by simp)
  exact Wf.inv { hwf with } hphase (by simp)

theorem Inv.exec {a : Action cfg} (h : Inv s) (hallowed : Allowed s a) (hstep : exec s a = some t) : Inv t := by
  cases a with
  | start =>
    obtain ⟨hif, rfl⟩ := System.of_guard hstep
    exact h.start hif.1
  | begin k first last =>
    obtain ⟨⟨-, hle, hlt, hfree⟩, rfl⟩ := System.of_guard hstep
    exact h.begin hle hlt hfree
  | done k =>
    obtain ⟨-, rfl⟩ := System.of_guard hstep
    exact h.done
  | reload j =>
    obtain ⟨-, rfl⟩ := System.of_guard hstep
    exact h.reload
  | sweep ok => exact h.sweep hallowed hstep
  | cancel =>
    cases hstep
    exact h.cancel
  | decide k =>
    rcases hw : s.writer k with _ | w <;> simp only [MirrorResync.exec, hw, reduceCtorEq] at hstep
    obtain ⟨hsome, rfl⟩ := System.of_guard_not hstep
    exact h.decide hallowed hw (by simpa using hsome)
  | newTable k j =>
    rcases hw : s.writer k with _ | w <;> simp only [MirrorResync.exec, hw, reduceCtorEq] at hstep
    obtain ⟨⟨-, -, -, hnew⟩, rfl⟩ := System.of_guard hstep
    exact h.newTable hnew
  | create k n =>
    rcases hw : s.writer k with _ | w <;> simp only [MirrorResync.exec, hw, reduceCtorEq] at hstep
    obtain ⟨⟨-, -, htable, -⟩, rfl⟩ := System.of_guard hstep
    exact h.create htable
  | check k n =>
    rcases hw : s.writer k with _ | w <;> simp only [MirrorResync.exec, hw, reduceCtorEq] at hstep
    obtain ⟨⟨hsome, -, hamap⟩, rfl⟩ := System.of_guard hstep
    exact h.check hw hsome hamap
  | update k page =>
    rcases hw : s.writer k with _ | w <;> simp only [MirrorResync.exec, hw, reduceCtorEq] at hstep
    rcases hforward : w.forward with _ | forward <;> simp only [hforward, reduceCtorEq] at hstep
    obtain ⟨hif, rfl⟩ := System.of_guard hstep
    exact h.update hw hforward hif.1 hif.2
  | lock n ok =>
    simp only [MirrorResync.exec] at hstep
    split_ifs at hstep with hif hok <;> cases hstep
    · exact h.work (by simp [hif.1]) hif.2 (fun _ hp => hp) nofun (Nat.le_max_left _ _) (.inr (Nat.le_max_right _ _))
    · exact h.work_failed (by simp [hif.1])
  | send n reply =>
    simp only [MirrorResync.exec] at hstep
    split_ifs at hstep with hlocked
    have hne : s.worker n ≠ .idle := by simp [hlocked]
    have hfree := h.wf.locked n hlocked
    cases reply with
    | same =>
      cases hstep
      exact h.work hne hfree (fun _ hp => hp) (fun _ => hallowed) (Nat.le_refl _) (.inl hlocked)
    | sent =>
      cases hstep
      refine h.work hne hfree (fun page hp => ?_) (fun _ page hid => by simp [hid]) (Nat.le_refl _) (.inl hlocked)
      by_cases hid : amapId page = n
      · simp [hid] at hp
      · simpa [hid] using hp
    | failed =>
      cases hstep
      exact h.work_failed hne

theorem Initial.inv (h : Initial s) : Inv s := by
  have hsilent : ∀ w, ¬s.Silent w := by
    rintro w ⟨-, k, hk⟩
    simp [h.writer k] at hk
  refine ⟨{ ready := ?_
            unsentLt := fun page hpage => (h.unsent page hpage).1
            writeOk := fun k w hw => by simp [h.writer k] at hw
            table := h.table
            invalid := h.bmapInvalid
            locked := fun n hn => by simp [h.worker n] at hn
            workerLt := fun n hn => absurd (h.worker n) hn
            workers := fun _ => h.worker
            needResync := fun _ => h.needResync
            inRange := fun pc hpc => by simp [h.phase] at hpc }, by simp [PhaseOk, h.phase]⟩
  rintro n (⟨page, hpage, rfl⟩ | ⟨w, hw, -⟩)
  · exact (h.unsent page hpage).2
  · exact absurd hw (hsilent w)

theorem inv_invariant : ((system cfg).restrict Allowed).Invariant Inv where
  init := Initial.inv
  step h hstep := h.exec hstep.1 hstep.2

/-- In every run whose steps are all `Allowed`, a resync that is completed has sent everything. -/
theorem resync_loses_no_write (hs : ((system cfg).restrict Allowed).Reachable s) : AllSent s := by
  intro hphase
  have hok := (inv_invariant.reachable hs).phaseOk
  simp only [PhaseOk, hphase] at hok
  exact hok.unsent

def pair : Config := ⟨2, Nat.two_pos, 1⟩

def thread : Fin pair.threads := ⟨0, by decide⟩

def clean : State pair where
  table _ := true
  amap _ := true
  bitmapValid := true
  groupBit _ := false
  writeBit _ := false
  bmapInvalid _ := false
  needResync := true
  writer _ := none
  phase := .idle
  worker _ := .idle
  cloneAmapId := 0
  mirrorError := false
  unsent _ := false
  skipped _ := false

theorem initial_clean : Initial clean :=
  ⟨rfl, rfl, fun _ => rfl, fun _ => rfl, nofun, fun _ _ => rfl, nofun⟩

/-- The first map is written before the resync, and the second one when the thread is about to come to it. -/
def twoWrites : List (Action pair) :=
  [.begin thread 0 0, .decide thread, .check thread 0, .update thread 0, .done thread, .start, .sweep true, .sweep true,
    .begin thread 654 654, .decide thread, .check thread 1, .sweep true, .lock 0 true, .send 0 .sent, .update thread 654,
    .done thread, .lock 1 true, .send 1 .sent, .sweep true, .sweep true]

theorem resync_loses_no_write_pair : ∃ s : State pair, ((system pair).restrict Allowed).Reachable s ∧
    s.phase = .completed ∧ AllSent s := by
  have hstep : ∀ {s : State pair} {a}, Allowed s a ∧ (exec s a).isSome →
      ((system pair).restrict Allowed).step s a (System.runOf exec s a) := fun h => ⟨h.1, System.exec_runOf h.2⟩
  have hreach : ((system pair).restrict Allowed).Reachable (twoWrites.foldl (System.runOf exec) clean) := by
    refine .foldl hstep (.init initial_clean) ⟨⟨trivial, by decide⟩, ⟨?_, by decide⟩, ⟨trivial, by decide⟩, ⟨trivial, by decide⟩,
      ⟨trivial, by decide⟩, ⟨trivial, by decide⟩, ⟨?_, by decide⟩, ⟨?_, by decide⟩, ⟨trivial, by decide⟩,
      ⟨?_, by decide⟩, ⟨trivial, by decide⟩, ⟨?_, by decide⟩, ⟨trivial, by decide⟩, ⟨trivial, by decide⟩,
      ⟨trivial, by decide⟩, ⟨trivial, by decide⟩, ⟨trivial, by decide⟩, ⟨trivial, by decide⟩, ⟨trivial, by decide⟩,
      ⟨trivial, by decide⟩, trivial⟩
    · exact fun _ _ hsync => absurd hsync (by decide)
    · intro hskips
      exact absurd hskips (by decide)
    · intro hskips
      exact absurd hskips (by decide)
    · exact fun _ _ _ _ _ _ => rfl
    · intro hskips
      exact absurd hskips (by decide)
  exact ⟨_, hreach, by decide, resync_loses_no_write hreach⟩

/-- The thread leaves the table out after the write has decided to send nothing, and before it sets its bits. -/
def lateBits : List (Action pair) :=
  [.start, .begin thread 654 654, .decide thread, .sweep true, .check thread 1, .update thread 654, .done thread, .sweep true]

theorem late_bits_not_sent : ∃ s : State pair, (system pair).Reachable s ∧ ¬AllSent s := by
  have hstep : ∀ {s : State pair} {a}, (exec s a).isSome → (system pair).step s a (System.runOf exec s a) :=
    fun h => System.exec_runOf h
  have hreach : (system pair).Reachable (lateBits.foldl (System.runOf exec) clean) :=
    .foldl hstep (.init initial_clean) (by decide)
  refine ⟨_, hreach, fun hsent => ?_⟩
  have hunsent : (lateBits.foldl (System.runOf exec) clean).unsent 654 = true := by decide
  rw [hsent (by decide) 654] at hunsent
  cases hunsent

end QuadStor.MirrorResync
