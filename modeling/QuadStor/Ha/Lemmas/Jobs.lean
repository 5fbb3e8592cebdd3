import QuadStor.Ha.Lemmas.Main

/-!
# Takeovers and the other jobs
-/

namespace QuadStor.Ha

variable {c : Cluster} {n : NodeId} {s s' : State} {i : Input} {t : Thread} {source : Source} {old : HaConfig}
  {w mine : Nat} {transition : Bool}

theorem Main.leaving_of_left {main : Main} (h : main.left = true) : main.leaving = true := by
  cases main <;> first | rfl | cases h

theorem Quiet.run_idle {d : Node} (h : Quiet d) (t : Thread) : Quiet (d.run t .idle) := by
  obtain ⟨hrole, hleaving, hinit, htaking⟩ := h
  refine ⟨hrole, hleaving, hinit, fun t' => ?_⟩
  by_cases ht : t' = t
  · simp [Node.run, ht, Job.taking]
  · simpa [Node.run, ht] using htaking t'

section

variable (h : Inv c s)
include h

theorem Inv.not_leaving (hdecided : ((s.node n).job t).decided = true) : (s.node n).main.leaving ≠ true := by
  intro hleaving
  rw [(h n).leaving hleaving t] at hdecided
  cases hdecided

theorem Inv.finish {d : Node} {status : SyncStatus} {created : Bool} (hd : s.node n = d) (t : Thread) (source : Source) :
    Inv c (s.set n ({ d with status, transition }.finish t source created)) := by
  cases source with
  | answer w => exact h.haThrSetup hd t
  | ha | request id w => exact h.runPlain hd t .idle trivial rfl

theorem Inv.fail (n : NodeId) (t : Thread) (source : Source) : Inv c (s.fail n t source i transition) :=
  (h.finish rfl t source).answer n

theorem Inv.setOwn {r : HaConfig} (hown : i.write.lands = true → s.record.ipaddr = c.ip n) (hip : r.ipaddr = c.ip n)
    (hmagic : r.magic = true) (hinit : r.haAllowedInit = false) : Inv c (s.setConfig i r) :=
  h.setConfig (fun hlands => h.not_holds (hown hlands)) hip hmagic hinit

theorem Inv.haCrit (d' : Node) (hd : Inv c ((s.stop n.other).set n d')) : Inv c (haCrit c s n i d') := by
  unfold Ha.haCrit
  split_ifs
  · exact hd
  · exact h.stop n

theorem Inv.stopRun {j : Job} (t : Thread) (hok : ∀ e, JobOk (c.fenceEnabled n) s.writes e j)
    (hdecided : j.decided = false) : Inv c ((s.stop n.other).set n ((s.node n).run t j)) :=
  (h.stop n.other).runPlain (stop_other s n) t j (hok _) hdecided

variable (hs : nextJob c s n t i = some s')
include hs

theorem Inv.takeoverStart (hjob : (s.node n).job t = .takeoverStart source) (ha : AllowedJob c s n t i) : Inv c s' := by
  have hok := (h n).job t
  rw [hjob] at hok
  simp only [AllowedJob, nextJob, hjob] at ha hs
  cases hallowed : takeoverAllowed (s.node n).status (i.read s) with
  | none =>
    rw [hallowed] at hs
    cases hs
    exact h.fail n t source
  | some old =>
    rw [hallowed] at hs
    cases hs
    have hnext : JobOk (c.fenceEnabled n) s.writes (s.node n.other) (.takeoverFence source old s.writes) ∧
        (s.node n).main.leaving = false := by
      cases source with
      | ha => exact ⟨⟨Nat.le_refl _, nofun⟩, ha⟩
      | answer w | request txn w => exact ⟨⟨Nat.le_refl _, fun _ => ⟨Nat.le_refl _, fun _ => hok.2 ha.1⟩⟩, ha.2⟩
    refine h.run rfl t (.takeoverFence source old s.writes) hnext.1 (fun hleaving => ?_) nofun (.inl rfl) fun _ => id
    rw [hnext.2] at hleaving
    cases hleaving

theorem Inv.takeoverFence (hjob : (s.node n).job t = .takeoverFence source old w) : Inv c s' := by
  have hok := (h n).job t
  rw [hjob] at hok
  have hleaving := h.not_leaving (t := t) (by rw [hjob]; rfl)
  simp only [nextJob, hjob] at hs
  split_ifs at hs with hbusy hnot hfence <;> cases hs
  · exact h.fail n t source
  · have hdown : (s.stop n.other).node n.other = Node.down := set_node ..
    have hfree : Free s.writes ((s.stop n.other).node n.other) w := ⟨hok.1, fun _ => hdown ▸ not_holds_down⟩
    exact (h.stop n.other).run (stop_other s n) t (.takeoverCheck source old w) ⟨hok.1, fun _ => hfree⟩
      (fun hl => absurd hl hleaving) nofun (.inl rfl) fun _ => id
  · have hgraceful : source.graceful = true ∨ c.fenceEnabled n = true → source.graceful = true := by
      revert hfence
      cases source.graceful <;> simp
    exact h.run rfl t (.takeoverCheck source old w) ⟨hok.1, fun hsource => hok.2 (hgraceful hsource)⟩
      (fun hl => absurd hl hleaving) nofun (.inl rfl) fun _ => id

theorem Inv.takeoverCheck (hjob : (s.node n).job t = .takeoverCheck source old w) (ha : AllowedJob c s n t i) : Inv c s' := by
  have hok := (h n).job t
  rw [hjob] at hok
  have hleaving := h.not_leaving (t := t) (by rw [hjob]; rfl)
  simp only [AllowedJob, nextJob, hjob] at ha hs
  split_ifs at hs with htime <;> cases hs
  · have htime' : s.record.timestamp = old.timestamp := by
      revert htime
      cases hio : i.ok <;> simp [sameTimestamp, Input.read, hio]
    have hw := ha htime'
    rw [← hw] at hok
    exact h.run rfl t (.takeoverWrite source s.writes) hok (fun hl => absurd hl hleaving) (by simp) (.inl rfl) fun _ => id
  · exact h.fail n t source

theorem Inv.takeoverWrite (hjob : (s.node n).job t = .takeoverWrite source w) (ha : AllowedJob c s n t i) : Inv c s' := by
  have hok := (h n).job t
  rw [hjob] at hok
  have hleaving := h.not_leaving (t := t) (by rw [hjob]; rfl)
  simp only [AllowedJob, nextJob, hjob] at ha hs
  have hfree : i.write.lands = true → ¬Holds (s.node n.other) := fun hlands =>
    (hok.2 (ha hlands).2).2 (ha hlands).1
  by_cases hdone : (i.ok && (source.graceful || c.fenceEnabled n)) = true
  · have hlands := Input.lands_of_ok (Bool.and_eq_true_iff.1 hdone).1
    rw [if_pos hdone, setConfig_eq, if_pos hlands] at hs
    cases hs
    exact (h.writeRun (hfree hlands) t (.takeoverRole source i.ticks) trivial (fun hl => absurd hl hleaving) rfl rfl rfl).answer n
  · rw [if_neg hdone] at hs
    cases hs
    exact (h.setConfig hfree rfl rfl rfl).fail n t source

theorem Inv.takeoverRole (hjob : (s.node n).job t = .takeoverRole source mine) : Inv c s' := by
  have hholds : Holds (s.node n) := .inr (.inr (.inr ⟨t, source, mine, hjob⟩))
  have hn := h n
  have hleaving := h.not_leaving (t := t) (by rw [hjob]; rfl)
  simp only [nextJob, hjob] at hs
  cases hs
  refine h.set ⟨fun _ => hn.holds hholds, hn.main, fun t' => ?_, hn.inbox, hn.reply, fun hl => absurd hl hleaving,
    fun hl => absurd (Main.leaving_of_left hl) hleaving, hn.up⟩ (fun _ => hholds) id
  by_cases ht : t' = t
  · simp [Node.run, ht, JobOk]
  · simpa [Node.run, ht] using hn.job t'

theorem Inv.takeoverPost (hjob : (s.node n).job t = .takeoverPost source mine) (ha : AllowedJob c s n t i) : Inv c s' := by
  simp only [AllowedJob, nextJob, hjob] at ha hs
  split_ifs at hs with hcontroller htime <;> cases hs
  · exact (h.setOwn (fun _ => ha) rfl rfl rfl).finish (congrFun (setConfig_node ..) n) t source
  · exact h.runPlain rfl t (.takeoverPostWrite source) trivial rfl
  · exact h.finish rfl t source

theorem Inv.takeoverPostWrite (hjob : (s.node n).job t = .takeoverPostWrite source) (ha : AllowedJob c s n t i) : Inv c s' := by
  simp only [AllowedJob, nextJob, hjob] at ha hs
  cases hs
  exact (h.setOwn ha rfl rfl rfl).finish (congrFun (setConfig_node ..) n) t source

theorem Inv.disableRead (hjob : (s.node n).job t = .disableRead) : Inv c s' := by
  simp only [nextJob, hjob] at hs
  split_ifs at hs <;> cases hs
  · exact h.runPlain rfl t .idle trivial rfl
  · exact h.runPlain rfl t .disableWrite trivial rfl
  · exact h.stop n
  · exact h.haCrit _ (h.stopRun t (fun _ => trivial) rfl)
  · exact h.haCrit _ ((h.stop n.other).stop n)

theorem Inv.disableWrite (hjob : (s.node n).job t = .disableWrite) (ha : AllowedJob c s n t i) : Inv c s' := by
  simp only [AllowedJob, nextJob, hjob] at ha hs
  have hset : Inv c (s.setConfig i (.disabled (c.ip n) i.ticks)) := h.setOwn ha rfl rfl rfl
  have hnode := congrFun (setConfig_node s i (.disabled (c.ip n) i.ticks)) n
  split_ifs at hs <;> cases hs
  · exact hset.runPlain hnode t .idle trivial rfl
  · rw [← hnode]
    exact hset.haCrit _ (hset.stopRun t (fun _ => trivial) rfl)

theorem Inv.syncEnable (hjob : (s.node n).job t = .syncEnable) (ha : AllowedJob c s n t i) : Inv c s' := by
  simp only [AllowedJob, nextJob, hjob] at ha hs
  cases hs
  exact (h.setOwn ha rfl rfl rfl).runPlain (congrFun (setConfig_node ..) n) t .idle trivial rfl

theorem Inv.standbyCheck {haConfig : HaConfig} (hjob : (s.node n).job t = .standbyCheck haConfig) : Inv c s' := by
  simp only [nextJob, hjob] at hs
  generalize checkHaActive (i.read s) haConfig.timestamp false = active at hs
  rcases active with _ | _ | _
  · cases hs
    exact h.runPlain rfl t .idle trivial rfl
  · split_ifs at hs <;> cases hs
    · exact h.runPlain rfl t .idle trivial rfl
    · exact h.runPlain rfl t (.takeoverStart .ha) trivial rfl
  · cases hs
    exact h.runPlain rfl t .idle trivial rfl

theorem Inv.handOver {txn : Nat} (hjob : (s.node n).job t = .handOver txn) (ha : AllowedJob c s n t i) : Inv c s' := by
  simp only [AllowedJob, nextJob, hjob] at ha hs
  have hidle : Inv c (s.set n { (s.node n).run t .idle with transition := false }) :=
    h.runPlain rfl t .idle trivial rfl
  split_ifs at hs with hbusy harrives <;> cases hs
  · refine hidle.reply n.other ?_
    rw [NodeId.other_other, set_node]
    have hquiet : Quiet ((s.node n).run t .idle) := (ha harrives).run_idle t
    cases (s.node n).syncEnabled i.comm with
    | false => trivial
    | true => exact ⟨Nat.le_refl _, fun _ => ⟨hquiet.not_holds, hquiet.not_returnable _⟩⟩
  · exact hidle

theorem Inv.nextJob (ha : AllowedJob c s n t i) : Inv c s' := by
  cases hjob : (s.node n).job t with
  | idle => simp [Ha.nextJob, hjob] at hs
  | syncing =>
    simp only [Ha.nextJob, hjob] at hs
    split_ifs at hs
    all_goals cases hs
    all_goals exact h.runPlain rfl t .idle trivial rfl
  | standbyCheck haConfig => exact h.standbyCheck hs hjob
  | takeoverStart source => exact h.takeoverStart hs hjob ha
  | takeoverFence source old w => exact h.takeoverFence hs hjob
  | takeoverCheck source old w => exact h.takeoverCheck hs hjob ha
  | takeoverWrite source w => exact h.takeoverWrite hs hjob ha
  | takeoverRole source mine => exact h.takeoverRole hs hjob
  | takeoverPost source mine => exact h.takeoverPost hs hjob ha
  | takeoverPostWrite source => exact h.takeoverPostWrite hs hjob ha
  | disableRead => exact h.disableRead hs hjob
  | disableWrite => exact h.disableWrite hs hjob ha
  | syncSetup =>
    simp only [Ha.nextJob, hjob] at hs
    split_ifs at hs <;> cases hs
    · exact h.runPlain rfl t .syncEnable trivial rfl
    · exact h.runPlain rfl t .disableRead trivial rfl
  | syncEnable => exact h.syncEnable hs hjob ha
  | handOver txn => exact h.handOver hs hjob ha

end

theorem Inv.erase (h : Inv c s) (n : NodeId) (msg : Msg) :
    Inv c (s.set n { s.node n with inbox := (s.node n).inbox.erase msg }) :=
  h.receive n rfl (fun msg' hmem => (h n).inbox msg' (List.mem_of_mem_erase hmem)) (h n).reply

theorem Inv.deliver {j : Nat} {msg : Msg} (h : Inv c s) (hs : deliver s n j msg i = some s') : Inv c s' := by
  have herase := h.erase n msg
  cases msg with
  | relinquish txn w =>
    simp only [Ha.deliver] at hs
    split_ifs at hs with hready <;> cases hs
    · exact herase.reply n.other trivial
    · exact herase
    · have hmem := not_not.mp fun hnot => hready (.inr (.inl hnot))
      have hfree : Free s.writes (s.node n.other) w := (h n).inbox _ hmem
      exact h.run rfl (.recv j) (.takeoverStart (.request txn w)) hfree (fun _ => rfl) nofun (.inl rfl)
        fun _ => List.mem_of_mem_erase
  | takeover txn =>
    simp only [Ha.deliver] at hs
    split_ifs at hs <;> cases hs
    · exact herase.reply n.other trivial
    · exact herase
    · exact h.run rfl (.recv j) (.handOver txn) trivial (fun _ => rfl) nofun (.inr rfl) fun _ => List.mem_of_mem_erase
  | syncStart =>
    simp only [Ha.deliver] at hs
    split_ifs at hs <;> cases hs
    · exact herase
    · exact h.run rfl (.recv j) .syncSetup trivial (fun _ => rfl) nofun (.inl rfl) fun _ => List.mem_of_mem_erase

end QuadStor.Ha
