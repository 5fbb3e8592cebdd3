import QuadStor.Ha.Lemmas.Invariant

/-!
# Starting and leaving
-/

namespace QuadStor.Ha

variable {c : Cluster} {n : NodeId} {s s' : State} {i : Input} {w txn : Nat} {haConfig : HaConfig} {syncer : Syncer}

@[simp] theorem stop_other (s : State) (n : NodeId) : (s.stop n.other).node n = s.node n := by
  have h := set_other s n.other Node.down
  rwa [NodeId.other_other] at h

@[simp] theorem send_other (s : State) (n : NodeId) (msg : Msg) : (s.send n.other msg).node n = s.node n :=
  Function.update_of_ne n.other_ne.symm ..

theorem Quiet.not_holds {d : Node} (h : Quiet d) : ¬Holds d := by
  obtain ⟨hrole, hleaving, hinit, htaking⟩ := h
  rintro (hmaster | hmain | hmain | ⟨t, source, mine, hjob⟩)
  · rw [hrole] at hmaster
    cases hmaster
  · exact hinit hmain
  · rw [hmain] at hleaving
    cases hleaving
  · have htake := htaking t
    rw [hjob] at htake
    cases htake

theorem Main.leaving_of_waits {main : Main} (h : main.waits = some w) : main.leaving = true := by
  cases main <;> first | rfl | cases h

theorem Quiet.not_returnable {d : Node} (h : Quiet d) (k : Nat) : ¬Returnable k d := by
  intro hr
  have hleaving := Main.leaving_of_waits hr
  rw [h.2.1] at hleaving
  cases hleaving

variable (h : Inv c s)
include h

theorem Inv.own_of_returnable {m : NodeId} (hr : Returnable s.writes (s.node m)) :
    s.record.ipaddr = c.ip m ∧ s.record.magic = true ∧ s.record.haAllowedInit = false := by
  have hm := (h m).main
  revert hm hr
  unfold Returnable
  cases (s.node m).main <;> simp +contextual [Main.waits, MainOk]

theorem Inv.sendOther (n : NodeId) (msg : Msg) (hmsg : MsgOk s.writes (s.node n) msg) : Inv c (s.send n.other msg) :=
  h.send n.other (by rwa [NodeId.other_other])

theorem Inv.not_holds_left (hleft : (s.node n).main.left = true) : ¬Holds (s.node n) := by
  have hleaving : (s.node n).main.leaving = true := by
    revert hleft
    cases (s.node n).main <;> simp [Main.left, Main.leaving]
  rintro (hmaster | hmain | hmain | ⟨t, source, mine, hjob⟩)
  · rw [(h n).left hleft] at hmaster
    cases hmaster
  · rw [hmain] at hleft
    cases hleft
  · rw [hmain] at hleft
    cases hleft
  · have hdecided := (h n).leaving hleaving t
    rw [hjob] at hdecided
    cases hdecided

/-! ## `node_controller_ha_init` -/

variable (hs : nextMain c s n i = some s')
include hs

theorem Inv.initRead (hmain : (s.node n).main = .initRead) (ha : AllowedMain c s n i) : Inv c s' := by
  simp only [AllowedMain, nextMain, hmain] at ha hs
  split_ifs at hs with hio hfree <;> cases hs
  · exact h.gotoPlain rfl hmain trivial id rfl rfl
  · have hforeign : s.record.ipaddr = c.ip n.other → s.record.magic = true → s.record.haAllowedInit = true := by
      intro hip hmagic
      rcases hfree with hzero | hown | hnomagic | hallowed
      · exact absurd (hip.symm.trans hzero) (c.ip_pos n.other)
      · exact absurd (hip.symm.trans hown) (c.ip_other n)
      · rw [hmagic] at hnomagic
        cases hnomagic
      · exact hallowed
    refine h.gotoPlain rfl hmain ⟨Nat.le_refl _, fun _ => ⟨fun hholds => ?_, fun hr => ?_⟩⟩ id rfl rfl
    · obtain ⟨hip, hmagic, hinit⟩ := (h n.other).holds hholds
      have hallowed := hforeign hip hmagic
      have hup := (h n.other).up (by rw [hinit hallowed]; exact nofun)
      rw [ha hallowed] at hup
      cases hup
    · obtain ⟨hip, hmagic, hinit⟩ := h.own_of_returnable hr
      rw [hforeign hip hmagic] at hinit
      cases hinit
  · exact h.gotoPlain rfl hmain ⟨Nat.le_refl _, fun _ => rfl⟩ id rfl rfl

theorem Inv.initAsk (hmain : (s.node n).main = .initAsk haConfig w)
    (ha : AllowedMain c s n i) : Inv c s' := by
  have hok := (h n).main
  rw [hmain] at hok
  simp only [AllowedMain, nextMain, hmain] at ha hs
  generalize hrole : (if (i.ok && (s.node n.other).up) = true then (s.node n.other).role else Role.unknown) = role at hs
  cases role with
  | master =>
    cases hs
    exact h.gotoPlain rfl hmain trivial nofun rfl rfl
  | standby =>
    have hquiet : Quiet (s.node n.other) := by
      split_ifs at hrole
      exact ha hrole
    cases hs
    exact h.gotoPlain rfl hmain ⟨hok.1, fun _ => ⟨hquiet.not_holds, hquiet.not_returnable _⟩⟩ id rfl rfl
  | unknown =>
    cases hs
    exact h.gotoPlain rfl hmain hok id rfl rfl

theorem Inv.initActive {retries : Nat}
    (hmain : (s.node n).main = .initActive haConfig w retries) : Inv c s' := by
  have hok := (h n).main
  rw [hmain] at hok
  have hgive : Inv c (s.set n { s.node n with main := .idle }) :=
    h.gotoPlain rfl hmain trivial id rfl rfl
  simp only [nextMain, hmain] at hs
  generalize checkHaActive (i.read s) haConfig.timestamp true = active at hs
  rcases active with _ | _ | _
  · cases hs
    exact hgive
  · split_ifs at hs with hfence hip hretries <;> cases hs
    · exact hgive
    · exact h.gotoPlain rfl hmain hok.1 id rfl rfl
    · have hforeign : s.writes = w → s.record.ipaddr ≠ c.ip n.other := fun hw heq => hip (hok.2 hw ▸ heq)
      exact h.gotoPlain rfl hmain ⟨hok.1, fun hw =>
        ⟨fun hholds => hforeign hw ((h n.other).holds hholds).1, fun hr => hforeign hw (h.own_of_returnable hr).1⟩⟩ id rfl rfl
    · exact h.gotoPlain rfl hmain hok id rfl rfl
  · cases hs
    exact hgive

theorem Inv.initFence (hmain : (s.node n).main = .initFence w) : Inv c s' := by
  have hok := (h n).main
  rw [hmain] at hok
  simp only [nextMain, hmain] at hs
  split_ifs at hs <;> cases hs
  · refine (h.stop n.other).gotoPlain (stop_other s n) hmain ⟨hok, fun _ => ?_⟩ id rfl rfl
    have hdown : (s.stop n.other).node n.other = Node.down := set_node ..
    rw [hdown]
    exact ⟨not_holds_down, nofun⟩
  · exact h.gotoPlain rfl hmain trivial id rfl rfl

theorem Inv.initWrite (hmain : (s.node n).main = .initWrite w) (ha : AllowedMain c s n i) : Inv c s' := by
  have hok := (h n).main
  rw [hmain] at hok
  simp only [AllowedMain, nextMain, hmain] at ha hs
  cases hs
  have hfree : i.write.lands = true → ¬Holds (s.node n.other) := fun hlands => (hok.2 (ha hlands)).1
  by_cases hio : i.ok = true
  · have hlands := Input.lands_of_ok hio
    rw [setConfig_eq, if_pos hlands, if_pos hio]
    exact h.writeMain (hfree hlands) (by rw [hmain]; exact nofun) rfl rfl nofun trivial nofun nofun
  · rw [if_neg hio]
    exact (h.setConfig hfree rfl rfl rfl).gotoPlain (congrFun (setConfig_node ..) n) hmain trivial id rfl rfl

theorem Inv.initRole (hmain : (s.node n).main = .initRole) : Inv c s' := by
  have hn := h n
  have hholds : Holds (s.node n) := .inr (.inl hmain)
  obtain ⟨hip, hmagic, hinit⟩ := hn.holds hholds
  have hmaster : Inv c (s.set n { s.node n with role := .master, main := .idle }) := by
    refine h.set ⟨fun _ => ⟨hip, hmagic, fun hallowed => ?_⟩, trivial, hn.job, hn.inbox, hn.reply, nofun, nofun,
      fun hne => absurd rfl hne⟩ (fun _ => hholds) nofun
    rw [hmain] at hinit
    cases hinit hallowed
  simp only [nextMain, hmain] at hs
  cases hs
  rw [← set_set s n { s.node n with role := .master, main := .idle }]
  exact hmaster.haThrSetup (set_node ..) .main

theorem Inv.sync (hmain : (s.node n).main = .sync syncer) : Inv c s' := by
  simp only [nextMain, hmain] at hs
  cases hs
  exact (h.sendOther n .syncStart trivial).gotoPlain (send_other s n _) hmain trivial id rfl rfl

theorem Inv.syncing (hmain : (s.node n).main = .syncing syncer) : Inv c s' := by
  simp only [nextMain, hmain] at hs
  by_cases hdone : (i.ok && (s.node n.other).up && (s.node n.other).status == .done) = true
  · rw [if_pos hdone] at hs
    cases syncer with
    | controller =>
      cases hs
      exact h.gotoPlain rfl hmain trivial id rfl rfl
    | peer tries =>
      cases hs
      have hidle : Inv c (s.set n { s.node n with status := .done, main := .idle }) :=
        h.gotoPlain rfl hmain trivial id rfl rfl
      rw [← set_set s n { s.node n with status := .done, main := .idle }]
      exact hidle.haThrSetup (set_node ..) .main
  · rw [if_neg hdone] at hs
    cases syncer with
    | controller =>
      cases hs
      exact h.gotoPlain rfl hmain trivial id rfl rfl
    | peer tries =>
      cases hs
      split_ifs
      all_goals exact h.gotoPlain rfl hmain trivial id rfl rfl

theorem Inv.initSend (hmain : (s.node n).main = .initSend) : Inv c s' := by
  simp only [nextMain, hmain] at hs
  split_ifs at hs with henabled <;> cases hs
  · exact (h.sendOther n (.takeover _) trivial).gotoPlain (send_other s n _) hmain trivial id rfl rfl
  · exact h.gotoPlain rfl hmain trivial id rfl rfl

theorem Inv.initWait (hmain : (s.node n).main = .initWait txn) : Inv c s' := by
  have hn := h n
  have hfailed : Inv c (s.set n { s.node n with status := .error, main := .idle }) :=
    h.gotoPlain rfl hmain trivial id rfl rfl
  simp only [nextMain, hmain] at hs
  split at hs
  · rename_i txn' w hreply
    split_ifs at hs with hmine <;> cases hs
    · have hfree := hn.reply _ hreply
      have hidle : Inv c (s.set n { s.node n with main := .idle }) :=
        h.gotoPlain rfl hmain trivial id rfl rfl
      rw [← set_set s n { s.node n with main := .idle }]
      refine hidle.run (set_node ..) .main (.takeoverStart (.answer w)) ?_ (fun _ => rfl) nofun (.inl rfl) fun _ => id
      rw [set_other]
      exact ⟨hfree.1, fun hw => (hfree.2 hw).1⟩
    · exact hfailed
  · cases hs
    exact hfailed

theorem Inv.exitSync (hmain : (s.node n).main = .exitSync) : Inv c s' := by
  simp only [nextMain, hmain] at hs
  split_ifs at hs
  cases hs
  have hnext : Inv c (s.set n { s.node n with main := .exitDisabling }) :=
    h.goto rfl hmain trivial id rfl ⟨nofun, nofun⟩ (fun _ => rfl) nofun nofun
  rw [← set_set s n { s.node n with main := .exitDisabling }]
  exact hnext.run (set_node ..) .main .disableRead trivial (fun _ => rfl) nofun (.inl rfl) fun _ => id

theorem Inv.exitDisabling (hmain : (s.node n).main = .exitDisabling) : Inv c s' := by
  simp only [nextMain, hmain] at hs
  split_ifs at hs
  cases hs
  exact h.goto rfl hmain trivial nofun rfl ⟨nofun, nofun⟩ (fun _ => rfl) (fun _ => rfl) nofun

theorem Inv.exitEnable (hmain : (s.node n).main = .exitEnable) (ha : AllowedMain c s n i) : Inv c s' := by
  simp only [AllowedMain, hmain] at ha
  simp only [nextMain, hmain, setConfig_eq, ha.1, if_true] at hs
  cases hs
  refine h.writeMain (h.not_holds ha.2) ?_ rfl rfl nofun ⟨Nat.le_refl _, fun _ => ⟨rfl, rfl, rfl⟩⟩ (fun _ => ?_) (fun _ => ?_)
  all_goals rw [hmain]
  · exact nofun
  · rfl
  · rfl

theorem Inv.exitSend (hmain : (s.node n).main = .exitSend w) : Inv c s' := by
  have hok := (h n).main
  have hleft := (h n).left
  rw [hmain] at hok hleft
  simp only [nextMain, hmain] at hs
  split_ifs at hs <;> cases hs
  · exact h.goto rfl hmain hok id rfl ⟨nofun, nofun⟩ (fun _ => rfl) (fun _ => hleft rfl) id
  · exact h.gotoPlain rfl hmain trivial id rfl rfl

theorem Inv.exitComm (hmain : (s.node n).main = .exitComm w) : Inv c s' := by
  have hok := (h n).main
  have hleft := (h n).left
  rw [hmain] at hok hleft
  simp only [nextMain, hmain] at hs
  split_ifs at hs <;> cases hs
  · have hfree : Free s.writes (s.node n) w := ⟨hok.1, fun _ => h.not_holds_left (by rw [hmain]; rfl)⟩
    exact (h.sendOther n (.relinquish _ w) hfree).goto (send_other s n _) hmain hok id rfl ⟨nofun, nofun⟩ (fun _ => rfl)
      (fun _ => hleft rfl) id
  · exact h.goto rfl hmain hok id rfl ⟨nofun, nofun⟩ (fun _ => rfl) (fun _ => hleft rfl) id

theorem Inv.exitWait (hmain : (s.node n).main = .exitWait txn w) : Inv c s' := by
  have hok := (h n).main
  have hleft := (h n).left
  rw [hmain] at hok hleft
  simp only [nextMain, hmain] at hs
  split_ifs at hs
  all_goals cases hs
  all_goals exact h.goto rfl hmain hok id rfl ⟨nofun, nofun⟩ (fun _ => rfl) (fun _ => hleft rfl) id

theorem Inv.exitPoll (hmain : (s.node n).main = .exitPoll w) : Inv c s' := by
  have hok := (h n).main
  have hleft := (h n).left
  rw [hmain] at hok hleft
  have hfailed : Inv c (s.set n { s.node n with main := .exitFailed w }) :=
    h.goto rfl hmain hok id rfl ⟨nofun, nofun⟩ (fun _ => rfl) (fun _ => hleft rfl) id
  simp only [nextMain, hmain] at hs
  split_ifs at hs <;> cases hs
  · exact h
  · exact h.gotoPlain rfl hmain trivial id rfl rfl
  · exact hfailed
  · exact hfailed

theorem Inv.exitFailed (hmain : (s.node n).main = .exitFailed w) (ha : AllowedMain c s n i) : Inv c s' := by
  have hn := h n
  have hother := h n.other
  have hok := hn.main
  have hjobs := hn.leaving
  rw [hmain] at hok hjobs
  simp only [AllowedMain, hmain] at ha
  obtain ⟨hw, htaking, hinbox⟩ := ha
  obtain ⟨hip, hmagic, hinit⟩ := hok.2 hw
  have hr : Returnable s.writes (s.node n) := by
    rw [Returnable, hmain, hw]
    rfl
  have halone : ∀ {w e}, Alone s.writes (s.node n) w → Alone s.writes e w := fun hold =>
    ⟨hold.1, fun hk => absurd hr (hold.2 hk).2⟩
  simp only [nextMain, hmain] at hs
  cases hs
  rw [NodeId.other_other] at hother
  refine NodeId.cases_self n ?_ ?_
  · rw [set_node, set_other]
    refine ⟨fun _ => ⟨hip, hmagic, fun hallowed => ?_⟩, trivial, hn.job, hn.inbox, hn.reply, fun _ => hjobs rfl, nofun,
      fun _ => hn.up (by rw [hmain]; exact nofun)⟩
    have hnot : s.record.haAllowedInit = true := hallowed
    rw [hinit] at hnot
    cases hnot
  · rw [NodeId.other_other, set_node, set_other]
    refine ⟨hother.holds, ?_, fun t => ?_, fun msg hmsg => ?_, fun reply hreply => ?_, hother.leaving, hother.left, hother.up⟩
    · have hmainOk := hother.main
      revert hmainOk
      cases (s.node n.other).main with
      | initWrite w' => exact halone
      | _ => exact id
    · have htake := htaking t
      revert htake
      cases (s.node n.other).job t <;> simp [Job.taking, JobOk]
    · cases msg with
      | relinquish txn w' => exact absurd hmsg (hinbox txn w')
      | _ => trivial
    · have hreplyOk := hother.reply reply hreply
      revert hreplyOk
      cases reply with
      | takeover txn ok w' =>
        cases ok with
        | false => exact id
        | true => exact halone
      | relinquish txn ok => exact id

theorem Inv.exitInit (hmain : (s.node n).main = .exitInit) (ha : AllowedMain c s n i) : Inv c s' := by
  simp only [AllowedMain, nextMain, hmain, setConfig_eq] at ha hs
  cases hs
  split_ifs with hlands
  · exact h.writeMain (h.not_holds (ha hlands)) (by rw [hmain]; exact nofun) rfl rfl (fun _ => rfl) trivial nofun nofun
  · exact h.gotoPlain rfl hmain trivial id rfl rfl

theorem Inv.exitQuiet (hmain : (s.node n).main = .exitQuiet) : Inv c s' := by
  have hn := h n
  have hholds : Holds (s.node n) := .inr (.inr (.inl hmain))
  obtain ⟨hip, hmagic, -⟩ := hn.holds hholds
  have hmaster : Inv c (s.set n { s.node n with role := .master, transition := false, main := .exited }) :=
    h.set ⟨fun _ => ⟨hip, hmagic, fun _ => rfl⟩, trivial, hn.job, hn.inbox, hn.reply, nofun, nofun,
      fun _ => hn.up (by rw [hmain]; exact nofun)⟩ (fun _ => hholds) nofun
  simp only [nextMain, hmain] at hs
  split_ifs at hs <;> cases hs
  · rw [← set_set s n { s.node n with role := .master, transition := false, main := .exited }]
    exact hmaster.run (set_node ..) .main .disableRead trivial (fun _ => rfl) nofun (.inl rfl) fun _ => id
  · exact hmaster

theorem Inv.nextMain (ha : AllowedMain c s n i) : Inv c s' := by
  cases hmain : (s.node n).main with
  | idle => simp [Ha.nextMain, hmain] at hs
  | initRead => exact h.initRead hs hmain ha
  | initAsk haConfig w => exact h.initAsk hs hmain ha
  | initActive haConfig w retries => exact h.initActive hs hmain
  | initFence w => exact h.initFence hs hmain
  | initWrite w => exact h.initWrite hs hmain ha
  | initRole => exact h.initRole hs hmain
  | sync syncer => exact h.sync hs hmain
  | syncing syncer => exact h.syncing hs hmain
  | initSend => exact h.initSend hs hmain
  | initWait txn => exact h.initWait hs hmain
  | exitSync => exact h.exitSync hs hmain
  | exitDisabling => exact h.exitDisabling hs hmain
  | exitEnable => exact h.exitEnable hs hmain ha
  | exitSend w => exact h.exitSend hs hmain
  | exitComm w => exact h.exitComm hs hmain
  | exitWait txn w => exact h.exitWait hs hmain
  | exitPoll w => exact h.exitPoll hs hmain
  | exitFailed w => exact h.exitFailed hs hmain ha
  | exitInit => exact h.exitInit hs hmain ha
  | exitQuiet => exact h.exitQuiet hs hmain
  | exited => simp [Ha.nextMain, hmain] at hs

end QuadStor.Ha
