import QuadStor.Ha.Pair

/-!
# Who may become master
-/

namespace QuadStor.Ha

open Function

def Holds (d : Node) : Prop :=
  d.role = .master ∨ d.main = .initRole ∨ d.main = .exitQuiet ∨ ∃ t source mine, d.job t = .takeoverRole source mine

def Main.waits : Main → Option Nat
  | .exitSend w | .exitComm w | .exitWait _ w | .exitPoll w | .exitFailed w => some w
  | _ => none

/-- A node that leaves may come back as long as nobody has written the record after it. -/
def Returnable (writes : Nat) (d : Node) : Prop := d.main.waits = some writes

def Job.decided : Job → Bool
  | .takeoverFence _ _ _ | .takeoverCheck _ _ _ | .takeoverWrite _ _ | .takeoverRole _ _ => true
  | _ => false

def Main.left : Main → Bool
  | .exitEnable | .exitSend _ | .exitComm _ | .exitWait _ _ | .exitPoll _ | .exitFailed _ => true
  | _ => false

variable {c : Cluster} {r r' : HaConfig} {k k' w : Nat} {d d' e e' : Node} {n : NodeId} {s : State}
  {inbox : List Msg} {fence : Bool}

/-- `e` does not hold the role unless the record has been written since. -/
def Free (k : Nat) (e : Node) (w : Nat) : Prop := w ≤ k ∧ (k = w → ¬Holds e)

def Alone (k : Nat) (e : Node) (w : Nat) : Prop := w ≤ k ∧ (k = w → ¬Holds e ∧ ¬Returnable k e)

def MainOk (c : Cluster) (r : HaConfig) (k : Nat) (e : Node) (n : NodeId) : Main → Prop
  | .initAsk haConfig w | .initActive haConfig w _ => w ≤ k ∧ (k = w → r = haConfig)
  | .initFence w => w ≤ k
  | .initWrite w => Alone k e w
  | .exitSend w | .exitComm w | .exitWait _ w | .exitPoll w | .exitFailed w =>
    w ≤ k ∧ (k = w → r.ipaddr = c.ip n ∧ r.magic = true ∧ r.haAllowedInit = false)
  | _ => True

/-- `fence` says whether there is a fence command. -/
def JobOk (fence : Bool) (k : Nat) (e : Node) : Job → Prop
  | .takeoverStart (.answer w) | .takeoverStart (.request _ w) => Free k e w
  | .takeoverFence source _ w => w ≤ k ∧ (source.graceful = true → Free k e w)
  | .takeoverCheck source _ w | .takeoverWrite source w => w ≤ k ∧ (source.graceful = true ∨ fence = true → Free k e w)
  | _ => True

def MsgOk (k : Nat) (e : Node) : Msg → Prop
  | .relinquish _ w => Free k e w
  | _ => True

def ReplyOk (k : Nat) (e : Node) : Reply → Prop
  | .takeover _ true w => Alone k e w
  | _ => True

/-- Node `n` in state `d` after `k` writes, where the record is `r` and the other node is `e` -/
structure NodeOk (c : Cluster) (r : HaConfig) (k : Nat) (e : Node) (n : NodeId) (d : Node) : Prop where
  holds : Holds d → r.ipaddr = c.ip n ∧ r.magic = true ∧ (r.haAllowedInit = true → d.main = .exited)
  main : MainOk c r k e n d.main
  job : ∀ t, JobOk (c.fenceEnabled n) k e (d.job t)
  inbox : ∀ msg ∈ d.inbox, MsgOk k e msg
  reply : ∀ reply ∈ d.reply, ReplyOk k e reply
  leaving : d.main.leaving = true → ∀ t, (d.job t).decided = false
  left : d.main.left = true → d.role = .standby
  up : d.main ≠ .idle → d.up = true

def Inv (c : Cluster) (s : State) : Prop := ∀ n, NodeOk c s.record s.writes (s.node n.other) n (s.node n)

theorem Free.mono (h : Free k e w) (hh : Holds e' → Holds e) : Free k e' w := ⟨h.1, fun hk hholds => h.2 hk (hh hholds)⟩

theorem Alone.mono (h : Alone k e w) (hh : Holds e' → Holds e) (hr : Returnable k e' → Returnable k e) : Alone k e' w :=
  ⟨h.1, fun hk => ⟨fun h' => (h.2 hk).1 (hh h'), fun h' => (h.2 hk).2 (hr h')⟩⟩

theorem Free.written (h : Free k e w) : Free (k + 1) e' w := ⟨Nat.le_succ_of_le h.1, fun hk => absurd h.1 (by omega)⟩

theorem Alone.written (h : Alone k e w) : Alone (k + 1) e' w := ⟨Nat.le_succ_of_le h.1, fun hk => absurd h.1 (by omega)⟩

theorem MainOk.mono {main : Main} (h : MainOk c r k e n main) (hh : Holds e' → Holds e)
    (hr : Returnable k e' → Returnable k e) : MainOk c r k e' n main := by
  cases main with
  | initWrite w => exact Alone.mono h hh hr
  | _ => exact h

theorem MainOk.written {main : Main} (h : MainOk c r k e n main) : MainOk c r' (k + 1) e' n main := by
  have hstale : ∀ {w : Nat} {P : Prop}, w ≤ k → w ≤ k + 1 ∧ (k + 1 = w → P) := fun hw => ⟨by omega, fun hk => by omega⟩
  cases main with
  | initAsk haConfig w | initActive haConfig w retries => exact hstale h.1
  | initFence w => exact Nat.le_succ_of_le h
  | initWrite w => exact Alone.written h
  | exitSend w | exitComm w | exitWait id w | exitPoll w | exitFailed w => exact hstale h.1
  | _ => trivial

theorem JobOk.change {job : Job} (h : JobOk fence k e job) (hk : k ≤ k')
    (hfree : ∀ {w}, Free k e w → Free k' e' w) : JobOk fence k' e' job := by
  cases job with
  | takeoverStart source =>
    cases source with
    | ha => trivial
    | answer w | request id w => exact hfree h
  | takeoverFence source old w | takeoverCheck source old w | takeoverWrite source w =>
    exact ⟨Nat.le_trans h.1 hk, fun hsource => hfree (h.2 hsource)⟩
  | _ => trivial

theorem JobOk.written {job : Job} (h : JobOk fence k e job) : JobOk fence (k + 1) e' job :=
  h.change k.le_succ Free.written

theorem MsgOk.change {msg : Msg} (h : MsgOk k e msg) (hfree : ∀ {w}, Free k e w → Free k' e' w) : MsgOk k' e' msg := by
  cases msg with
  | relinquish id w => exact hfree h
  | _ => trivial

theorem ReplyOk.change {reply : Reply} (h : ReplyOk k e reply) (halone : ∀ {w}, Alone k e w → Alone k' e' w) :
    ReplyOk k' e' reply := by
  cases reply with
  | takeover id ok w =>
    cases ok with
    | false => trivial
    | true => exact halone h
  | _ => trivial

theorem NodeOk.change (h : NodeOk c r k e n d) (hk : k ≤ k') (hfree : ∀ {w}, Free k e w → Free k' e' w)
    (halone : ∀ {w}, Alone k e w → Alone k' e' w) (hmain : MainOk c r' k' e' n d.main)
    (hholds : Holds d → r'.ipaddr = c.ip n ∧ r'.magic = true ∧ (r'.haAllowedInit = true → d.main = .exited)) :
    NodeOk c r' k' e' n d where
  holds := hholds
  main := hmain
  job := fun t => (h.job t).change hk hfree
  inbox := fun msg hmsg => (h.inbox msg hmsg).change hfree
  reply := fun reply hreply => (h.reply reply hreply).change halone
  leaving := h.leaving
  left := h.left
  up := h.up

variable (e') in
theorem NodeOk.written (h : NodeOk c r k e n d)
    (hholds : Holds d → r'.ipaddr = c.ip n ∧ r'.magic = true ∧ (r'.haAllowedInit = true → d.main = .exited)) :
    NodeOk c r' (k + 1) e' n d :=
  h.change (Nat.le_succ _) Free.written Alone.written h.main.written hholds

theorem NodeId.other_ne (n : NodeId) : n.other ≠ n := by cases n <;> exact nofun

@[simp] theorem NodeId.other_other (n : NodeId) : n.other.other = n := by cases n <;> rfl

@[simp] theorem set_node (s : State) (n : NodeId) (d : Node) : (s.set n d).node n = d := update_self ..

@[simp] theorem set_other (s : State) (n : NodeId) (d : Node) : (s.set n d).node n.other = s.node n.other :=
  update_of_ne n.other_ne ..

@[simp] theorem set_set (s : State) (n : NodeId) (d d' : Node) : (s.set n d).set n d' = s.set n d' := by
  simp only [State.set, update_idem]

theorem setConfig_eq (s : State) (i : Input) (r : HaConfig) :
    s.setConfig i r = if i.write.lands then s.write r else s := by
  unfold State.setConfig
  cases i.write with
  | ok | noDisk | noPage => rfl
  | error landed => cases landed <;> rfl

@[simp] theorem setConfig_node (s : State) (i : Input) (r : HaConfig) : (s.setConfig i r).node = s.node := by
  rw [setConfig_eq]
  split_ifs <;> rfl

theorem Input.lands_of_ok {i : Input} (h : i.ok = true) : i.write.lands = true := by rw [Input.write, if_pos h, WriteIo.lands]

theorem NodeId.cases_self {P : NodeId → Prop} (n : NodeId) (hself : P n) (hother : P n.other) : ∀ m, P m := by
  intro m
  cases n <;> cases m <;> assumption

theorem Cluster.ip_other (c : Cluster) (n : NodeId) : c.ip n.other ≠ c.ip n := by
  cases n with
  | controller => exact c.ip_ne.symm
  | peer => exact c.ip_ne

theorem Inv.not_holds (h : Inv c s) (hip : s.record.ipaddr = c.ip n) : ¬Holds (s.node n.other) := fun hholds =>
  c.ip_other n (((h n.other).holds hholds).1.symm.trans hip)

theorem Inv.set (h : Inv c s) (hd : NodeOk c s.record s.writes (s.node n.other) n d) (hh : Holds d → Holds (s.node n))
    (hr : Returnable s.writes d → Returnable s.writes (s.node n)) : Inv c (s.set n d) := by
  refine NodeId.cases_self n ?_ ?_
  · rw [set_node, set_other]
    exact hd
  · have hother := h n.other
    rw [NodeId.other_other] at hother ⊢
    rw [set_node, set_other]
    exact hother.change (Nat.le_refl _) (Free.mono · hh) (Alone.mono · hh hr) (hother.main.mono hh hr) hother.holds

theorem Inv.write (h : Inv c s) (hfree : ¬Holds (s.node n.other))
    (hd : NodeOk c r (s.writes + 1) (s.node n.other) n d) : Inv c ((s.write r).set n d) := by
  refine NodeId.cases_self n ?_ ?_
  · rw [set_node, set_other]
    exact hd
  · have hother := h n.other
    rw [NodeId.other_other] at hother ⊢
    rw [set_node, set_other]
    exact hother.written _ fun hholds => absurd hholds hfree

theorem Inv.written (h : Inv c s) (hfree : ¬Holds (s.node n.other)) (hip : r.ipaddr = c.ip n) (hmagic : r.magic = true)
    (hinit : r.haAllowedInit = false) : Inv c (s.write r) := by
  have hsame : (s.write r).set n (s.node n) = s.write r := by rw [State.set, State.write, update_eq_self]
  rw [← hsame]
  exact h.write hfree ((h n).written _ fun _ => ⟨hip, hmagic, by simp [hinit]⟩)

theorem Inv.setConfig {i : Input} (h : Inv c s) (hfree : i.write.lands = true → ¬Holds (s.node n.other)) (hip : r.ipaddr = c.ip n)
    (hmagic : r.magic = true) (hinit : r.haAllowedInit = false) : Inv c (s.setConfig i r) := by
  rw [setConfig_eq]
  split_ifs with hlands
  · exact h.written (hfree hlands) hip hmagic hinit
  · exact h

def Main.active : Main → Bool
  | .idle | .exited => false
  | _ => true

def Main.plain : Main → Bool
  | .initRole => false
  | main => !main.leaving

section

variable {old main : Main} {role : Role} {status : SyncStatus} {transition haTask : Bool} {t : Thread} {j : Job}

theorem Inv.goto (h : Inv c s) (hd : s.node n = d) (hmain : d.main = old) (hok : MainOk c s.record s.writes (s.node n.other) n main)
    (hrole : role = .master → d.role = .master) (hold : old.active = true) (hnot : main ≠ .initRole ∧ main ≠ .exitQuiet)
    (hleaving : main.leaving = true → old.leaving = true) (hleft : main.left = true → role = .standby)
    (hwaits : main.waits = some s.writes → old.waits = some s.writes) :
    Inv c (s.set n { d with role, status, transition, haTask, main }) := by
  subst hmain hd
  have hn := h n
  have hh : Holds { s.node n with role, status, transition, haTask, main } →
      Holds (s.node n) := by
    rintro (hmaster | hmain | hmain | htaken)
    · exact .inl (hrole hmaster)
    · exact absurd hmain hnot.1
    · exact absurd hmain hnot.2
    · exact .inr (.inr (.inr htaken))
  refine h.set ⟨fun hholds => ?_, hok, hn.job, hn.inbox, hn.reply, fun hl => hn.leaving (hleaving hl), hleft, fun _ => hn.up ?_⟩
    hh hwaits
  · obtain ⟨hip, hmagic, hinit⟩ := hn.holds (hh hholds)
    refine ⟨hip, hmagic, fun hallowed => ?_⟩
    rw [hinit hallowed] at hold
    cases hold
  · intro hidle
    rw [hidle] at hold
    cases hold

theorem Inv.gotoPlain (h : Inv c s) (hd : s.node n = d) (hmain : d.main = old)
    (hok : MainOk c s.record s.writes (s.node n.other) n main) (hrole : role = .master → d.role = .master)
    (hold : old.active = true) (hplain : main.plain = true) :
    Inv c (s.set n { d with role, status, transition, haTask, main }) := by
  refine h.goto hd hmain hok hrole hold ?_ ?_ ?_ ?_
  all_goals revert hplain; cases main <;> simp [Main.plain, Main.leaving, Main.left, Main.waits]

theorem forall_update {P : Job → Prop} {job : Thread → Job} {t : Thread} {j : Job} (hjob : ∀ t, P (job t)) (hj : P j)
    (t' : Thread) : P (update job t j t') :=
  (forall_update_iff job fun _ => P).2 ⟨hj, fun t _ => hjob t⟩ t'

theorem Holds.of_run (hnot : ∀ source mine, j ≠ .takeoverRole source mine) (hrole : role = d.role ∨ role = .standby)
    (h : Holds { d with
      role, status, transition, haTask, job := update d.job t j
      inbox }) : Holds d := by
  rcases h with hmaster | hm | hm | ⟨t', source, mine, htaken⟩
  · rcases hrole with rfl | rfl
    · exact .inl hmaster
    · cases hmaster
  · exact .inr (.inl hm)
  · exact .inr (.inr (.inl hm))
  · by_cases ht : t' = t
    · rw [ht] at htaken
      exact absurd ((update_self ..).symm.trans htaken) (hnot source mine)
    · exact .inr (.inr (.inr ⟨t', source, mine, (update_of_ne ht ..).symm.trans htaken⟩))

theorem Inv.run (h : Inv c s) (hd : s.node n = d) (t : Thread) (j : Job)
    (hok : JobOk (c.fenceEnabled n) s.writes (s.node n.other) j) (hdecided : d.main.leaving = true → j.decided = false)
    (hnot : ∀ source mine, j ≠ .takeoverRole source mine) (hrole : role = d.role ∨ role = .standby)
    (hinbox : ∀ msg ∈ inbox, msg ∈ d.inbox) : Inv c (s.set n { d with
      role, status, transition, haTask, job := update d.job t j
      inbox }) := by
  subst hd
  have hn := h n
  refine h.set ⟨fun hholds => hn.holds ?_, hn.main, forall_update hn.job hok, fun msg hmsg => hn.inbox msg (hinbox msg hmsg),
    hn.reply, fun hl => forall_update (P := fun j => j.decided = false) (hn.leaving hl) (hdecided hl), fun hl => ?_, hn.up⟩ ?_ id
  · exact hholds.of_run hnot hrole
  · rcases hrole with hrole | hrole
    · exact hrole.trans (hn.left hl)
    · exact hrole
  · exact fun hholds => hholds.of_run hnot hrole

theorem Inv.runPlain (h : Inv c s) (hd : s.node n = d) (t : Thread) (j : Job)
    (hok : JobOk (c.fenceEnabled n) s.writes (s.node n.other) j) (hdecided : j.decided = false) :
    Inv c (s.set n { d with
      status, transition, haTask, job := update d.job t j }) := by
  refine h.run hd t j hok (fun _ => hdecided) (fun source mine heq => ?_) (.inl rfl) fun _ => id
  rw [heq] at hdecided
  cases hdecided

theorem Inv.haThrSetup {created : Bool} (h : Inv c s) (hd : s.node n = d) (t : Thread) :
    Inv c (s.set n ({ d with status, transition }.haThrSetup t created)) := by
  unfold Node.haThrSetup Node.syncDisable
  split_ifs
  · exact h.runPlain hd t .idle trivial rfl
  · exact h.runPlain hd t .idle trivial rfl
  · exact h.runPlain hd t .disableRead trivial rfl

theorem not_holds_down : ¬Holds Node.down := by
  rintro (hrole | hmain | hmain | ⟨t, source, mine, hjob⟩) <;> contradiction

theorem Inv.stop (h : Inv c s) (n : NodeId) : Inv c (s.stop n) :=
  h.set ⟨fun hholds => absurd hholds not_holds_down, trivial, fun _ => trivial, nofun, nofun, nofun, nofun,
    fun hne => absurd rfl hne⟩ (fun hholds => absurd hholds not_holds_down) nofun

theorem Inv.receive {reply : Option Reply} (h : Inv c s) (n : NodeId) (hrole : role = (s.node n).role)
    (hinbox : ∀ msg ∈ inbox, MsgOk s.writes (s.node n.other) msg)
    (hreply : ∀ reply' ∈ reply, ReplyOk s.writes (s.node n.other) reply') :
    Inv c (s.set n { s.node n with role, status, inbox, reply }) := by
  subst hrole
  exact h.set ⟨(h n).holds, (h n).main, (h n).job, hinbox, hreply, (h n).leaving, (h n).left, (h n).up⟩ id id

theorem Inv.send {msg : Msg} (h : Inv c s) (n : NodeId) (hmsg : MsgOk s.writes (s.node n.other) msg) :
    Inv c (s.send n msg) :=
  h.receive n rfl (List.forall_mem_cons.2 ⟨hmsg, (h n).inbox⟩) (h n).reply

theorem Inv.reply {reply : Reply} (h : Inv c s) (n : NodeId) (hreply : ReplyOk s.writes (s.node n.other) reply) :
    Inv c (s.set n { s.node n with reply := some reply }) := by
  refine h.receive n rfl (h n).inbox fun reply' hmem => ?_
  cases hmem
  exact hreply

theorem Inv.answer {source : Source} {arrives ok : Bool} (h : Inv c s) (n : NodeId) : Inv c (s.answer n source arrives ok) := by
  cases source with
  | request id w =>
    rw [State.answer]
    split_ifs
    · exact h.reply n.other trivial
    · exact h
  | _ => exact h

theorem Inv.writeRun (h : Inv c s) (hfree : ¬Holds (s.node n.other)) (t : Thread) (j : Job)
    (hok : JobOk (c.fenceEnabled n) (s.writes + 1) (s.node n.other) j)
    (hdecided : (s.node n).main.leaving = true → j.decided = false) (hip : r.ipaddr = c.ip n) (hmagic : r.magic = true)
    (hinit : r.haAllowedInit = false) : Inv c ((s.write r).set n { s.node n with
      status, transition, haTask, job := update (s.node n).job t j }) := by
  have hholds : r.ipaddr = c.ip n ∧ r.magic = true ∧ (r.haAllowedInit = true → (s.node n).main = .exited) :=
    ⟨hip, hmagic, by simp [hinit]⟩
  have hn := (h n).written (s.node n.other) fun _ => hholds
  exact h.write hfree { hn with
    holds := fun _ => hholds
    job := forall_update hn.job hok
    leaving := fun hl => forall_update (P := fun j => j.decided = false) (hn.leaving hl) (hdecided hl) }

theorem Inv.writeMain (h : Inv c s) (hfree : ¬Holds (s.node n.other)) (hidle : (s.node n).main ≠ .idle) (hip : r.ipaddr = c.ip n)
    (hmagic : r.magic = true) (hinit : r.haAllowedInit = true → main = .exited)
    (hok : MainOk c r (s.writes + 1) (s.node n.other) n main) (hleaving : main.leaving = true → (s.node n).main.leaving = true)
    (hleft : main.left = true → (s.node n).main.left = true) :
    Inv c ((s.write r).set n { s.node n with transition, main }) := by
  have hn := h n
  exact h.write hfree ⟨fun _ => ⟨hip, hmagic, hinit⟩, hok, fun t => (hn.job t).written,
    fun msg hmsg => (hn.inbox msg hmsg).change Free.written, fun reply hmem => (hn.reply reply hmem).change Alone.written,
    fun hl => hn.leaving (hleaving hl), fun hl => hn.left (hleft hl), fun _ => hn.up hidle⟩

end

end QuadStor.Ha
