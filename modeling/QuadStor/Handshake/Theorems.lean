import Mathlib.Tactic.SplitIfs
import QuadStor.Handshake.Basic

/-!
# One master
-/

namespace QuadStor.Handshake

open Lib

variable {a a' b b' : MirrorState} {load resync : Bool} {stage : Stage}

theorem master_setMirrorRole {role : Role} : (a.setMirrorRole role).master = (role == .master) := rfl

def MirrorState.mark (state : MirrorState) (resync : Bool) : MirrorState :=
  { state with inResync := state.inResync || resync }

theorem validate_peer (ha : a.master = false) (hb : b.master = true) :
    mirrorStateValidate a b load = some (a.mark b.needResync) := by
  cases hn : b.needResync <;> simp [mirrorStateValidate, MirrorState.mark, ha, hb, hn]

theorem validate_master (ha : a.master = true) (hb : b.master = false) : mirrorStateValidate a b load = some a := by
  simp [mirrorStateValidate, ha, hb]

theorem validate_peers (ha : a.master = false) (hb : b.master = false) :
    mirrorStateValidate a b load = validatePeers a b := by
  simp [mirrorStateValidate, ha, hb]

theorem validate_masters (ha : a.master = true) (hb : b.master = true) :
    mirrorStateValidate a b load = validateMasters a b load := by
  unfold mirrorStateValidate validateMasters
  cases hn : b.needResync <;> cases hm : a.needResync <;> cases load <;>
    simp [ha, hb, master_setMirrorRole]

def Finishing (a b : MirrorState) : Prop :=
  ∀ a', mirrorStateValidate a b true = some a' → Upright a' b ∨ Upright b a'

theorem Finishing.of_master (ha : a.master = true) (hb : b.master = false)
    (hmarked : a.needResync = true → b.inResync = true) : Finishing a b := by
  intro a' h
  rw [validate_master ha hb] at h
  cases h
  exact .inl ⟨ha, hb, hmarked⟩

theorem Finishing.of_peer (ha : a.master = false) (hb : b.master = true) : Finishing a b := by
  intro a' h
  rw [validate_peer ha hb] at h
  cases h
  exact .inr ⟨hb, ha, fun hn => by simp [MirrorState.mark, hn]⟩

theorem Finishing.of_masters (ha : a.master = true) (hb : b.master = true) (hn : a.needResync = false) :
    Finishing a b := by
  intro a' h
  rw [validate_masters ha hb] at h
  cases hr : b.needResync <;> simp [validateMasters, hn, hr] at h <;> subst h
  · exact .inr ⟨hb, rfl, by simp [hr]⟩
  · exact .inr ⟨hb, rfl, fun _ => rfl⟩

theorem Finishing.of_peers (ha : a.master = false) (hb : b.master = false)
    (hmarked : a.needResync = true → b.inResync = true)
    (hwins : a.needResync = true ∧ b.needResync = false ∨ a.needResync = b.needResync ∧ a.prevRole = .master) :
    Finishing a b := by
  intro a' h
  rw [validate_peers ha hb] at h
  suffices hrole : a'.mirrorRole = .master ∧ a'.needResync = a.needResync from
    .inl ⟨by simp [MirrorState.master, hrole.1], hb, hrole.2 ▸ hmarked⟩
  obtain ⟨hr, hs⟩ | ⟨hr, hprev⟩ := hwins
  · simp [validatePeers, hr, hs] at h
    subst h
    exact ⟨rfl, rfl⟩
  · cases hs : b.needResync <;> simp [validatePeers, hr, hs, hprev] at h
    · subst h
      exact ⟨rfl, rfl⟩
    · obtain ⟨-, rfl⟩ := h
      exact ⟨rfl, rfl⟩

theorem Fits.marked (hfits : Fits a b) (ha : a.master = false) (hb : b.master = false) (hr : a.needResync = true)
    (hprev : b.needResync = true → b.prevRole ≠ .master) : b.inResync = true := by
  obtain h | h | h | h | h := hfits
  · simp [ha] at h
  · simp [hb] at h
  · simp [hr] at h
  · exact h
  · exact absurd h.2 (hprev h.1)

theorem Fits.receive_peers (hfits : Fits a b) (ha : a.master = false) (hb : b.master = false)
    (h : validatePeers b a = some b') : Finishing a b' := by
  cases hs : b.needResync with
  | true =>
    cases hr : a.needResync with
    | true =>
      simp only [validatePeers, hr, hs, Bool.and_self, if_true] at h
      split_ifs at h with h1 h2 h3 <;> cases h
      · exact .of_peer ha rfl
      · have hprev : a.prevRole = .master := by
          by_contra hne
          exact h2 ⟨h3, hne⟩
        exact .of_peers ha hb (fun _ => hfits.marked ha hb hr fun _ => h3) (.inr ⟨hr.trans hs.symm, hprev⟩)
    | false =>
      simp [validatePeers, hr, hs] at h
      subst h
      exact .of_peer ha rfl
  | false =>
    cases hr : a.needResync with
    | true =>
      simp [validatePeers, hr, hs] at h
      subst h
      exact .of_peers ha hb (fun _ => hfits.marked ha hb hr (by simp [hs])) (.inl ⟨hr, hs⟩)
    | false =>
      simp only [validatePeers, hr, hs, Bool.and_self, Bool.not_false, Bool.true_and, decide_eq_true_eq,
        Bool.false_eq_true, if_false] at h
      split_ifs at h with h1 <;> cases h
      · exact .of_peer ha rfl
      · have hprev : a.prevRole = .master := by
          by_contra hne
          exact h1 (.inr hne)
        exact .of_peers ha hb (by simp [hr]) (.inr ⟨hr.trans hs.symm, hprev⟩)

theorem Fits.receive (hfits : Fits a b) (h : mirrorStateValidate b a false = some b') : Finishing a b' := by
  cases ha : a.master with
  | true =>
    cases hb : b.master with
    | true =>
      rw [validate_masters hb ha] at h
      cases hr : a.needResync <;> cases hs : b.needResync <;> simp [validateMasters, hr, hs] at h <;> subst h
      · exact .of_masters ha hb hr
      · exact .of_masters ha hb hr
      · exact .of_master ha rfl fun _ => rfl
    | false =>
      rw [validate_peer hb ha] at h
      cases h
      exact .of_master ha hb fun hr => by simp [MirrorState.mark, hr]
  | false =>
    cases hb : b.master with
    | true =>
      rw [validate_master hb ha] at h
      cases h
      exact .of_peer ha hb
    | false =>
      rw [validate_peers hb ha] at h
      exact hfits.receive_peers ha hb h

variable {s t : State} {k j : Key} {m n : Node}

@[simp] theorem other_other : n.other.other = n := by cases n <;> rfl

theorem other_ne : n.other ≠ n := by cases n <;> simp [Node.other]

theorem eq_or_eq_other : n = m ∨ n = m.other := by cases n <;> cases m <;> simp [Node.other]

@[simp] theorem setStage_node : (s.setStage k stage).node = s.node := rfl

@[simp] theorem setStage_self : (s.setStage k stage).stage k = stage := by
  simp [State.setStage]

theorem setStage_ne (h : j ≠ k) : (s.setStage k stage).stage j = s.stage j :=
  Function.update_of_ne h _ _

@[simp] theorem setNode_self : (s.setNode n a).node n = a := by
  simp [State.setNode]

@[simp] theorem setNode_node : s.setNode n (s.node n) = s := by
  simp [State.setNode]

theorem setNode_ne (h : m ≠ n) : (s.setNode n a).node m = s.node m := Function.update_of_ne h _ _

def Agrees (node : Node → MirrorState) (n : Node) (sent : MirrorState) : Prop :=
  sent.master = (node n).master ∧ sent.needResync = (node n).needResync

def StageOk (node : Node → MirrorState) (k : Key) : Stage → Prop
  | .requested sent => Agrees node k.1 sent
  | .replied answer => Agrees node k.1.other answer
  | _ => True

def Marks (m : Node) (k : Key) : Stage → Prop
  | .idle => False
  | .requested _ => True
  | .received | .replied _ => k.1 = m.other

structure Settled (s : State) (m : Node) : Prop where
  master : (s.node m).master = true
  peer : (s.node m.other).master = false
  stages : ∀ k, StageOk s.node k (s.stage k)
  marked : (s.node m).needResync = true → (s.node m.other).inResync = true ∨ ∃ k, Marks m k (s.stage k)

def Alone (s : State) (k : Key) : Prop := ∀ j, j ≠ k → s.stage j = .idle

def Waiting (a b : MirrorState) : Stage → Prop
  | .idle => False
  | .requested sent => sent = a ∧ Fits a b
  | .received => Finishing a b
  | .replied answer => answer = b ∧ Finishing a b

inductive Inv (s : State) : Prop where
  | fresh (idle : ∀ k, s.stage k = .idle) (completed : s.completed = false)
  | waiting (k : Key) (alone : Alone s k) (waiting : Waiting (s.node k.1) (s.node k.1.other) (s.stage k))
  | settled (m : Node) (settled : Settled s m)

theorem Settled.setStage (h : Settled s m) (hstage : StageOk s.node k stage) (hmarks : (s.node m).needResync = true →
      (s.node m.other).inResync = true ∨ (Marks m k (s.stage k) → Marks m k stage)) :
    Settled (s.setStage k stage) m := by
  refine ⟨h.master, h.peer, fun j => ?_, fun hn => ?_⟩
  · by_cases hj : j = k
    · subst hj
      simpa using hstage
    · rw [setStage_ne hj]
      exact h.stages j
  · obtain hmark | hmarks := hmarks hn
    · exact .inl hmark
    · obtain hmark | ⟨j, hj⟩ := h.marked hn
      · exact .inl hmark
      · refine .inr ⟨j, ?_⟩
        by_cases hjk : j = k
        · subst hjk
          simpa using hmarks hj
        · rwa [setStage_ne hjk]

theorem agrees_mark : Agrees (s.setNode n ((s.node n).mark resync)).node m a ↔ Agrees s.node m a := by
  by_cases hm : m = n
  · subst hm
    rw [Agrees, setNode_self]
    rfl
  · rw [Agrees, setNode_ne hm]
    rfl

theorem StageOk.mark (h : StageOk s.node k stage) : StageOk (s.setNode n ((s.node n).mark resync)).node k stage := by
  cases stage with
  | idle | received => trivial
  | requested sent | replied answer => exact agrees_mark.2 h

section

variable (h : Settled s m)
include h

theorem Settled.mark (hb : Agrees s.node m b) (hstage : StageOk s.node k stage) :
    Settled ((s.setNode m.other ((s.node m.other).mark b.needResync)).setStage k stage) m := by
  have hm : (s.setNode m.other ((s.node m.other).mark b.needResync)).node m = s.node m := setNode_ne other_ne.symm
  have hmarked : ((s.setNode m.other ((s.node m.other).mark b.needResync)).node m).needResync = true →
      ((s.setNode m.other ((s.node m.other).mark b.needResync)).node m.other).inResync = true := by
    intro hn
    rw [hm] at hn
    simp [MirrorState.mark, hb.2, hn]
  have hset : Settled (s.setNode m.other ((s.node m.other).mark b.needResync)) m := by
    refine ⟨hm ▸ h.master, ?_, fun k => (h.stages k).mark, fun hn => .inl (hmarked hn)⟩
    rw [setNode_self]
    exact h.peer
  exact hset.setStage hstage.mark fun hn => .inl (hmarked hn)

theorem Settled.start : Settled (s.setStage k (.requested (s.node k.1))) m :=
  h.setStage ⟨rfl, rfl⟩ fun _ => .inr fun _ => trivial

end

theorem Alone.setStage (h : Alone s k) : Alone (s.setStage k stage) k := fun j hj => by
  rw [setStage_ne hj]
  exact h j hj

theorem Alone.stages (h : Alone s k) (hstage : StageOk s.node k (s.stage k)) (j : Key) :
    StageOk s.node j (s.stage j) := by
  by_cases hj : j = k
  · exact hj ▸ hstage
  · rw [h j hj]
    trivial

theorem Waiting.settled (halone : Alone s k) (h : Waiting (s.node k.1) (s.node k.1.other) (s.stage k))
    (hm : (s.node m).master = true) (hp : (s.node m.other).master = false) : Settled s m := by
  -- the peer of `m` gets its mark at the end of the handshake, or has it
  have hfinish : k.1 = m → Finishing (s.node k.1) (s.node k.1.other) → (s.node m).needResync = true →
      (s.node m.other).inResync = true := by
    intro hk hfinishing hn
    rw [hk] at hfinishing
    obtain hup | hup := hfinishing _ (validate_master hm hp)
    · exact hup.2.2 hn
    · exact absurd hup.1 (by simp [hp])
  refine ⟨hm, hp, halone.stages ?_, fun hn => ?_⟩
  · generalize s.stage k = stage at h ⊢
    cases stage with
    | idle | received => trivial
    | requested sent | replied answer => exact h.1 ▸ ⟨rfl, rfl⟩
  · suffices hmarks : _ ∨ Marks m k (s.stage k) from hmarks.imp_right fun hmarks => ⟨k, hmarks⟩
    generalize s.stage k = stage at h ⊢
    cases stage with
    | idle => cases h
    | requested sent => exact .inr trivial
    | received =>
      obtain hk | hk := eq_or_eq_other (n := k.1) (m := m)
      · exact .inl (hfinish hk h hn)
      · exact .inr hk
    | replied answer =>
      obtain hk | hk := eq_or_eq_other (n := k.1) (m := m)
      · exact .inl (hfinish hk h.2 hn)
      · exact .inr hk

theorem Upright.settled (h : Upright (s.node m) (s.node m.other)) (hidle : ∀ k, s.stage k = .idle) : Settled s m := by
  refine ⟨h.1, h.2.1, fun k => ?_, fun hn => .inl (h.2.2 hn)⟩
  rw [hidle k]
  trivial

theorem exists_master (h : (s.node .left).master ≠ (s.node .right).master) :
    ∃ m, (s.node m).master = true ∧ (s.node m.other).master = false := by
  cases hl : (s.node .left).master with
  | true => exact ⟨.left, hl, by simpa [hl, Node.other] using h⟩
  | false => exact ⟨.right, by simpa [hl] using h, hl⟩

theorem fits_of_master (hm : (s.node m).master = true) : Fits (s.node n) (s.node n.other) := by
  obtain rfl | rfl := eq_or_eq_other (n := m) (m := n)
  · exact .inl hm
  · exact .inr (.inl hm)

theorem Inv.start (h : Inv s) (hallowed : Allowed s (.start k)) : Inv (s.setStage k (.requested (s.node k.1))) := by
  cases h with
  | fresh idle completed =>
    have hfits : Fits (s.node k.1) (s.node k.1.other) := by
      obtain hne | hfits := hallowed
      · obtain ⟨m, hm, -⟩ := exists_master hne
        exact fits_of_master hm
      · exact hfits.2
    exact .waiting k (Alone.setStage fun j _ => idle j) (by simpa using ⟨rfl, hfits⟩)
  | waiting j alone waiting =>
    obtain hne | ⟨hidle, -⟩ := hallowed
    · obtain ⟨m, hm, hp⟩ := exists_master hne
      exact .settled m (waiting.settled alone hm hp).start
    · rw [hidle j] at waiting
      cases waiting
  | settled m settled => exact .settled m settled.start

theorem Inv.of_stage (h : Inv s) (hstage : s.stage k = stage) (hne : stage ≠ .idle) :
    Alone s k ∧ Waiting (s.node k.1) (s.node k.1.other) stage ∨ ∃ m, Settled s m := by
  subst hstage
  cases h with
  | fresh idle => exact absurd (idle k) hne
  | waiting j alone waiting =>
    obtain rfl : k = j := by
      by_contra hkj
      exact hne (alone k hkj)
    exact .inl ⟨alone, waiting⟩
  | settled m settled => exact .inr ⟨m, settled⟩

theorem Inv.receive (h : Inv s) (hstage : s.stage k = .requested b)
    (hvalid : mirrorStateValidate (s.node k.1.other) b false = some a) :
    Inv ((s.setNode k.1.other a).setStage k .received) := by
  obtain ⟨alone, rfl, hfits⟩ | ⟨m, settled⟩ := h.of_stage hstage nofun
  · refine .waiting k (Alone.setStage alone) ?_
    rw [setStage_self, setStage_node, setNode_self, setNode_ne other_ne.symm]
    exact hfits.receive hvalid
  · have hok : Agrees s.node k.1 b := by
      have hok := settled.stages k
      rwa [hstage] at hok
    obtain hk | hk := eq_or_eq_other (n := k.1) (m := m)
    · -- the master asks, and its peer gets the mark
      rw [hk] at hok hvalid ⊢
      cases (validate_peer settled.peer (hok.1.trans settled.master)).symm.trans hvalid
      exact .settled m (settled.mark hok trivial)
    · rw [hk, other_other] at hvalid ⊢
      rw [hk] at hok
      cases (validate_master settled.master (hok.1.trans settled.peer)).symm.trans hvalid
      rw [setNode_node]
      exact .settled m (settled.setStage trivial fun _ => .inr fun _ => hk)

theorem Inv.reply (h : Inv s) (hstage : s.stage k = .received) : Inv (s.setStage k (.replied (s.node k.1.other))) := by
  obtain ⟨alone, waiting⟩ | ⟨m, settled⟩ := h.of_stage hstage nofun
  · exact .waiting k alone.setStage (by simpa using ⟨rfl, waiting⟩)
  · exact .settled m (settled.setStage ⟨rfl, rfl⟩ fun _ => .inr fun hmarks => by rwa [hstage] at hmarks)

theorem Inv.finish (h : Inv s) (hstage : s.stage k = .replied b)
    (hvalid : mirrorStateValidate (s.node k.1) b true = some a) :
    Inv { (s.setNode k.1 a).setStage k .idle with completed := true } := by
  obtain ⟨alone, rfl, hfinishing⟩ | ⟨m, settled⟩ := h.of_stage hstage nofun
  · have hidle : ∀ j, ((s.setNode k.1 a).setStage k .idle).stage j = .idle := fun j => by
      by_cases hj : j = k
      · simp [hj]
      · rw [setStage_ne hj]
        exact alone j hj
    obtain hup | hup := hfinishing a hvalid
    · refine .settled k.1 (Upright.settled ?_ hidle)
      simpa [setNode_ne other_ne] using hup
    · refine .settled k.1.other (Upright.settled ?_ hidle)
      simpa [setNode_ne other_ne] using hup
  · have hok : Agrees s.node k.1.other b := by
      have hok := settled.stages k
      rwa [hstage] at hok
    have hset : Settled ((s.setNode k.1 a).setStage k .idle) m := by
      obtain hk | hk := eq_or_eq_other (n := k.1) (m := m)
      · rw [hk] at hok hvalid ⊢
        cases (validate_master settled.master (hok.1.trans settled.peer)).symm.trans hvalid
        rw [setNode_node]
        refine settled.setStage trivial fun _ => .inr fun hmarks => ?_
        rw [hstage] at hmarks
        exact other_ne (hmarks.symm.trans hk)
      · rw [hk] at hok hvalid ⊢
        rw [other_other] at hok
        cases (validate_peer settled.peer (hok.1.trans settled.master)).symm.trans hvalid
        exact settled.mark hok trivial
    exact .settled m ⟨hset.master, hset.peer, hset.stages, hset.marked⟩

theorem inv_invariant : (system.restrict Allowed).Invariant fun s => s.failed = false → Inv s where
  init h _ := .fresh h.1 h.2.2
  step := by
    rintro s a t h ⟨hallowed, hstep⟩ hfailed
    cases a with
    | start k =>
      simp only [system, exec] at hstep
      split at hstep <;> cases hstep
      exact (h hfailed).start hallowed
    | receive k =>
      simp only [system, exec] at hstep
      split at hstep
      · split at hstep <;> cases hstep
        · exact (h hfailed).receive ‹_› ‹_›
        · cases hfailed
      · cases hstep
    | reply k =>
      simp only [system, exec] at hstep
      split at hstep <;> cases hstep
      exact (h hfailed).reply ‹_›
    | finish k =>
      simp only [system, exec] at hstep
      split at hstep
      · split at hstep <;> cases hstep
        · exact (h hfailed).finish ‹_› ‹_›
        · cases hfailed
      · cases hstep

theorem Inv.agreed (h : Inv s) (hcompleted : s.completed = true) (hidle : ∀ k, s.stage k = .idle) :
    ∃ n, Upright (s.node n) (s.node n.other) := by
  cases h with
  | fresh idle completed =>
    rw [hcompleted] at completed
    cases completed
  | waiting k alone waiting =>
    rw [hidle k] at waiting
    cases waiting
  | settled m settled =>
    refine ⟨m, settled.master, settled.peer, fun hn => ?_⟩
    obtain hmark | ⟨k, hk⟩ := settled.marked hn
    · exact hmark
    · rw [hidle k] at hk
      cases hk

/-- In every run whose handshakes are all `Allowed`, whenever all are completed and none has failed, one node is master
and its peer is marked if there is a resync to be done. -/
theorem handshakes_agree (hs : (system.restrict Allowed).Reachable s) : Agreed s := fun hfailed =>
  (inv_invariant.reachable hs hfailed).agreed

def before (left right : MirrorState) : State where
  node
    | .left => left
    | .right => right
  stage _ := .idle
  failed := false
  completed := false

def crossing : List Action :=
  [.start (.left, 0), .start (.right, 0), .receive (.left, 0), .receive (.right, 0), .reply (.left, 0),
    .reply (.right, 0), .finish (.left, 0), .finish (.right, 0)]

theorem handshakes_agree_crossing : ∃ s, (system.restrict Allowed).Reachable s ∧ s.failed = false ∧
    s.completed = true ∧ (∀ k, s.stage k = .idle) ∧ Agreed s := by
  have hstep : ∀ {s : State} {a}, Allowed s a ∧ (exec s a).isSome → (system.restrict Allowed).step s a (System.runOf exec s a) :=
    fun h => ⟨h.1, System.exec_runOf h.2⟩
  have hreach : (system.restrict Allowed).Reachable
      (crossing.foldl (System.runOf exec) (before ⟨.master, .peer, true, false⟩ ⟨.peer, .unknown, false, false⟩)) :=
    .foldl hstep (.init ⟨fun _ => rfl, rfl, rfl⟩)
      ⟨⟨.inl (by decide), rfl⟩, ⟨.inl (by decide), rfl⟩, ⟨trivial, rfl⟩, ⟨trivial, rfl⟩, ⟨trivial, rfl⟩, ⟨trivial, rfl⟩,
        ⟨trivial, rfl⟩, ⟨trivial, rfl⟩, trivial⟩
  refine ⟨_, hreach, rfl, rfl, ?_, handshakes_agree hreach⟩
  rintro ⟨n, i⟩
  cases n <;> cases i <;> rfl

/-! ## When it does not hold

A node that was master, has changes to send and could not fence its peer starts the handshake in the peer's role:
it becomes master with the answer, and its peer is never marked. Two masters that start at once both give way. -/

def single : List Action := [.start (.left, 0), .receive (.left, 0), .reply (.left, 0), .finish (.left, 0)]

theorem peer_not_marked_and_no_master : (∃ s, system.Reachable s ∧ s.node .left = ⟨.master, .peer, true, false⟩ ∧
      s.node .right = ⟨.peer, .peer, false, false⟩ ∧ ¬Agreed s) ∧
    ∃ s, system.Reachable s ∧ s.node .left = ⟨.peer, .master, false, false⟩ ∧
      s.node .right = ⟨.peer, .master, false, false⟩ ∧ ¬Agreed s := by
  have hstep : ∀ {s : State} {a}, (exec s a).isSome → system.step s a (System.runOf exec s a) := fun h => System.exec_runOf h
  have hsingle : system.Reachable
      (single.foldl (System.runOf exec) (before ⟨.peer, .master, true, false⟩ ⟨.peer, .peer, false, false⟩)) :=
    .foldl hstep (.init ⟨fun _ => rfl, rfl, rfl⟩) (by decide)
  have hcrossing : system.Reachable
      (crossing.foldl (System.runOf exec) (before ⟨.master, .peer, false, false⟩ ⟨.master, .peer, false, false⟩)) :=
    .foldl hstep (.init ⟨fun _ => rfl, rfl, rfl⟩) (by decide)
  refine ⟨⟨_, hsingle, rfl, rfl, fun h => ?_⟩, _, hcrossing, rfl, rfl, fun h => ?_⟩
  · obtain ⟨n, hmaster, -, hmarked⟩ := h rfl rfl (by rintro ⟨n, i⟩; cases n <;> cases i <;> rfl)
    cases n with
    | left => cases hmarked rfl
    | right => cases hmaster
  · obtain ⟨n, hmaster, -⟩ := h rfl rfl (by rintro ⟨n, i⟩; cases n <;> cases i <;> rfl)
    cases n <;> cases hmaster

end QuadStor.Handshake
