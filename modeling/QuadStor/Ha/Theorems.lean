import QuadStor.Ha.Lemmas.Jobs

/-!
# Never two masters
-/

namespace QuadStor.Ha

open Lib Function

variable {c : Cluster} {n : NodeId} {s s' : State} {i : Input} {a : Action} {main : Main}

theorem Job.decided_of_not_taking {job : Job} (h : job.taking = false) : job.decided = false := by
  cases job <;> first | rfl | cases h

theorem Inv.leave {role : Role} {status : SyncStatus} {transition haTask : Bool} (h : Inv c s)
    (hidle : (s.node n).main = .idle) (hup : (s.node n).up = true) (htaking : ∀ t, ((s.node n).job t).taking = false)
    (hholds : Holds { s.node n with role, status, transition, haTask, main } →
      Holds (s.node n)) (hok : MainOk c s.record s.writes (s.node n.other) n main) (hleft : main.left = false)
    (hwaits : main.waits = none) :
    Inv c (s.set n { s.node n with
      role, status, transition, haTask, main }) := by
  have hn := h n
  refine h.set ⟨fun hh => ?_, hok, hn.job, hn.inbox, hn.reply, fun _ t => Job.decided_of_not_taking (htaking t), fun hl => ?_,
    fun _ => hup⟩ hholds fun hr => ?_
  · obtain ⟨hip, hmagic, hinit⟩ := hn.holds (hholds hh)
    refine ⟨hip, hmagic, fun hallowed => ?_⟩
    have hexited := hinit hallowed
    rw [hidle] at hexited
    cases hexited
  · rw [hleft] at hl
    cases hl
  · rw [Returnable, hwaits] at hr
    cases hr

theorem holds_main {d : Node} (hinit : main ≠ .initRole) (hquiet : main ≠ .exitQuiet)
    (h : Holds { d with main }) : Holds d := by
  rcases h with hrole | hmain | hmain | hjob
  · exact .inl hrole
  · exact absurd hmain hinit
  · exact absurd hmain hquiet
  · exact .inr (.inr (.inr hjob))

theorem Inv.exit (h : Inv c s) (ha : Allowed c s (.exit n i)) (hs : exec c s (.exit n i) = some s') : Inv c s' := by
  obtain ⟨htaking, hmaster⟩ := ha
  cases hmain : (s.node n).main with
  | idle =>
    simp only [exec, hmain] at hs
    split_ifs at hs with hready htask hbusy hstandby henabled henabled' hcontroller hprogress <;> cases hs
    all_goals
      have hup : (s.node n).up = true := by
        by_contra hdown
        exact hready (.inl (by simpa using hdown))
    -- a controller without HA thread is master until it has left
    rotate_left 4
    · have hrole := hmaster (by simpa using htask) hcontroller
      exact h.leave hmain hup htaking (fun _ => .inl hrole) trivial rfl rfl
    all_goals exact h.leave hmain hup htaking (holds_main (d := s.node n) nofun nofun) trivial rfl rfl
  | _ => simp [exec, hmain] at hs

theorem Inv.start (h : Inv c s) (hs : exec c s (.start n) = some s') : Inv c s' := by
  have hstart : ∀ role main, role ≠ Role.master → main = .initRead ∨ main = .sync (.peer 5) →
      Inv c (s.set n { Node.down with up := true, role, main }) := by
    intro role main hrole hmain
    have hnot : ¬Holds { Node.down with up := true, role, main } := by
      rintro (hm | hm | hm | ⟨t, source, mine, hjob⟩)
      · exact hrole hm
      · rcases hmain with rfl | rfl <;> cases hm
      · rcases hmain with rfl | rfl <;> cases hm
      · cases hjob
    refine h.set ⟨fun hh => absurd hh hnot, ?_, fun _ => trivial, nofun, nofun, ?_, ?_, fun _ => rfl⟩
      (fun hh => absurd hh hnot) ?_
    all_goals rcases hmain with rfl | rfl
    all_goals first | trivial | nofun
  simp only [exec] at hs
  split_ifs at hs
  cases n with
  | controller =>
    cases hs
    exact hstart .unknown .initRead nofun (.inl rfl)
  | peer =>
    cases hs
    exact hstart .standby (.sync (.peer 5)) nofun (.inr rfl)

theorem Inv.exec (h : Inv c s) (ha : Allowed c s a) (hs : exec c s a = some s') : Inv c s' := by
  cases a with
  | start n => exact h.start hs
  | crash n =>
    cases hs
    exact h.stop n
  | main n i => exact h.nextMain hs ha
  | job n t i => exact h.nextJob hs ha
  | deliver n j msg i => exact h.deliver hs
  | lose n msg =>
    cases hs
    exact h.erase n msg
  | exit n i => exact h.exit ha hs
  | pingFails n i =>
    cases hrole : (s.node n).role with
    | standby =>
      simp only [Ha.exec, hrole] at hs
      split_ifs at hs <;> cases hs
      · exact h.runPlain rfl .ha (.standbyCheck s.record) trivial rfl
      · exact h.receive n hrole.symm (h n).inbox (h n).reply
    | master =>
      simp only [Ha.exec, hrole] at hs
      split_ifs at hs
      cases hs
      exact h.runPlain rfl .ha .disableRead trivial rfl
    | unknown =>
      simp only [Ha.exec, hrole] at hs
      split_ifs at hs
  | pingResync n =>
    obtain ⟨-, rfl⟩ := System.of_guard hs
    exact h.receive n rfl (h n).inbox (h n).reply
  | resync n =>
    obtain ⟨-, rfl⟩ := System.of_guard hs
    exact (h.sendOther n .syncStart trivial).runPlain (send_other s n _) .ha .syncing trivial rfl
  | haDisable n i =>
    obtain ⟨-, rfl⟩ := System.of_guard hs
    exact h.runPlain rfl .ha .disableRead trivial rfl
  | syncDisable n j =>
    obtain ⟨-, rfl⟩ := System.of_guard hs
    exact h.runPlain rfl (.io j) .disableRead trivial rfl

theorem inv_invariant : ((system c).restrict (Allowed c)).Invariant (Inv c) where
  init := by
    intro s hinit n
    obtain ⟨hdown, -⟩ := hinit
    rw [hdown n, hdown n.other]
    exact ⟨fun hh => absurd hh not_holds_down, trivial, fun _ => trivial, nofun, nofun, nofun, nofun, fun hne => absurd rfl hne⟩
  step := fun hinv hstep => hinv.exec hstep.1 hstep.2

/-- In a run whose nodes write the record only on what they know of it, and take messages only as long as they are true,
there are never two masters. -/
theorem never_two_masters (hs : ((system c).restrict (Allowed c)).Reachable s) :
    ¬((s.node .controller).role = .master ∧ (s.node .peer).role = .master) := by
  rintro ⟨hcontroller, hpeer⟩
  have hinv := inv_invariant.reachable hs
  have hip : s.record.ipaddr = c.ip .controller := ((hinv .controller).holds (.inl hcontroller)).1
  exact hinv.not_holds hip (.inl hpeer)

def twoNodes : Cluster where
  ip := fun n => if n = .controller then 1 else 2
  ip_ne := by decide
  ip_pos := fun n => by cases n <;> decide
  fenceEnabled := fun _ => true

def stopped : State := ⟨fun _ => .down, .blank, 0, 0⟩

def smooth : Input where
  ok := true
  landed := false
  created := true
  fenced := true
  garbage := true
  pinged := false
  busy := false
  comm := true
  arrives := true
  ticks := 5

def syncing : List Action :=
  [.start .controller, .main .controller smooth, .main .controller smooth, .main .controller smooth, .start .peer,
    .main .peer smooth, .deliver .controller 0 .syncStart smooth, .job .controller (.recv 0) smooth,
    .job .controller (.recv 0) smooth, .main .peer smooth]

def synced : State where
  node
    | .controller => ⟨true, .master, .done, false, true, .idle, fun _ => .idle, [], none⟩
    | .peer => ⟨true, .standby, .done, false, true, .idle, fun _ => .idle, [], none⟩
  record := .enabled 1 5
  writes := 2
  transactionId := 1

theorem foldl_syncing : syncing.foldl (System.runOf (exec twoNodes)) stopped = synced := by
  have hidle : ∀ t, update (fun _ : Thread => Job.idle) t .idle = fun _ => Job.idle := fun t => update_eq_self t _
  have hnode : (syncing.foldl (System.runOf (exec twoNodes)) stopped).node = synced.node := by
    funext n
    cases n with
    | controller =>
      have hjob : update (update (update (update (fun _ : Thread => Job.idle) .main .idle) (.recv 0) .syncSetup)
          (.recv 0) .syncEnable) (.recv 0) .idle = fun _ => Job.idle := by
        rw [hidle, update_idem, update_idem, hidle]
      exact congrArg (fun job => (⟨true, .master, .done, false, true, .idle, job, [], none⟩ : Node)) hjob
    | peer => exact congrArg (fun job => (⟨true, .standby, .done, false, true, .idle, job, [], none⟩ : Node)) (hidle .main)
  exact congrArg (fun node => (⟨node, .enabled 1 5, 2, 1⟩ : State)) hnode

def takeover : List Action :=
  [.crash .controller, .pingFails .peer smooth, .job .peer .ha smooth, .job .peer .ha smooth, .job .peer .ha smooth,
    .job .peer .ha smooth, .job .peer .ha smooth, .job .peer .ha smooth]

theorem never_two_masters_takeover : ∃ s, ((system twoNodes).restrict (Allowed twoNodes)).Reachable s ∧
    (s.node .peer).role = .master ∧ ¬((s.node .controller).role = .master ∧ (s.node .peer).role = .master) := by
  have hstep : ∀ {s : State} {a}, Allowed twoNodes s a ∧ (exec twoNodes s a).isSome →
      ((system twoNodes).restrict (Allowed twoNodes)).step s a (System.runOf (exec twoNodes) s a) :=
    fun h => ⟨h.1, System.exec_runOf h.2⟩
  have hsynced : ((system twoNodes).restrict (Allowed twoNodes)).Reachable synced := by
    rw [← foldl_syncing]
    exact .foldl hstep (.init ⟨fun _ => rfl, rfl⟩) ⟨⟨trivial, rfl⟩, ⟨nofun, rfl⟩, ⟨fun _ => rfl, rfl⟩, ⟨trivial, rfl⟩,
      ⟨trivial, rfl⟩, ⟨trivial, rfl⟩, ⟨trivial, rfl⟩, ⟨trivial, rfl⟩, ⟨fun _ => rfl, rfl⟩, ⟨trivial, rfl⟩, trivial⟩
  have hreach : ((system twoNodes).restrict (Allowed twoNodes)).Reachable
      (takeover.foldl (System.runOf (exec twoNodes)) synced) :=
    .foldl hstep hsynced ⟨⟨trivial, rfl⟩, ⟨trivial, rfl⟩, ⟨trivial, rfl⟩, ⟨rfl, rfl⟩, ⟨trivial, rfl⟩, ⟨fun _ => rfl, rfl⟩,
      ⟨fun _ => ⟨rfl, .inr rfl⟩, rfl⟩, ⟨trivial, rfl⟩, trivial⟩
  exact ⟨_, hreach, rfl, never_two_masters hreach⟩

/-- The controller hands over, the peer's answer is lost, and the controller comes back. -/
def lostAnswer : List Action :=
  [.exit .controller smooth, .main .controller smooth, .job .controller .main smooth, .job .controller .main smooth,
    .main .controller smooth, .main .controller smooth, .main .controller smooth, .main .controller smooth,
    .deliver .peer 0 (.relinquish 1 4) smooth, .job .peer (.recv 0) smooth, .job .peer (.recv 0) smooth,
    .job .peer (.recv 0) smooth, .job .peer (.recv 0) { smooth with arrives := false }, .job .peer (.recv 0) smooth,
    .main .controller smooth, .main .controller smooth]

theorem lostAnswer_two_masters : ∃ s, (system twoNodes).Reachable s ∧
    (s.node .controller).role = .master ∧ (s.node .peer).role = .master := by
  have hstep : ∀ {s : State} {a}, (exec twoNodes s a).isSome →
      (system twoNodes).step s a (System.runOf (exec twoNodes) s a) := fun h => System.exec_runOf h
  have hreach : (system twoNodes).Reachable ((syncing ++ lostAnswer).foldl (System.runOf (exec twoNodes)) stopped) :=
    .foldl hstep (.init ⟨fun _ => rfl, rfl⟩) (by decide +kernel)
  exact ⟨_, hreach, by decide +kernel, by decide +kernel⟩

end QuadStor.Ha
