import QuadStor.MirrorCount.Basic

/-!
# Which writes leave the counts as they were
-/

namespace QuadStor.MirrorCount

variable {p : Peer} {site : Site} {s : State} {w : Write} {xchgId : Nat} {rest : State → State × Int}

/-! ## The count goes with the message -/

def State.Ok (s : State) : Prop := s.cmds = if s.msg.isSome then 1 else 0

/-- Function `f` leaves a message just if `P` holds. -/
structure Keeps (f : State → State × Int) (async async' : Bool) (P : Prop) : Prop where
  keeps : P → ∀ s, s.msg = some async → f s = ({ s with msg := some async' }, 0)
  loses : ¬P → ∀ s, s.msg = some async → ∃ retval, f s = (s.release, retval)
  idle : ∀ s, s.msg = none → f s = (s, 0)

def Stop.Ok : Stop → Prop
  | .ended s => s.cmds = 0
  | .post s => s.Ok

def Stop.holds : Stop → Bool
  | .ended _ => false
  | .post s => s.msg.isSome

/-- A write with a message, which it has only under `R`, comes to its end with one just if `P` holds. -/
def Opens (R : Prop) (next : State → Stop) (async : Bool) (P : Prop) : Prop :=
  ∀ s : State, s.Ok → (∀ a, s.msg = some a → a = async ∧ R) →
    (next s).Ok ∧ ((next s).holds = true ↔ s.msg.isSome = true ∧ P)

section

variable {f : State → State × Int} {next : State → Stop} {g : State → State} {async async' b : Bool} {P Q R : Prop}

theorem State.Ok.release (h : s.Ok) (hs : s.msg = some b) : s.release.cmds = 0 := by
  rw [State.Ok, hs] at h
  simp [State.release, State.decr, h]

theorem keeps_waited (h : ∀ s : State, s.msg = some false →
      (P → rest s = ({ s with msg := some async' }, 0)) ∧ (¬P → ∃ retval, rest s = (s.release, retval))) :
    Keeps (waited p site · rest) async async' ((async = true → p.prev site = 0) ∧ P) := by
  -- after the wait the answer is there, or the message is gone
  have hwait : ∀ s : State, s.msg = some async → (async = true → p.prev site = 0) →
      waited p site s rest = rest { s with msg := some false } := by
    intro s hs hprev
    have hwaited : nodeMirrorWaitForPrevResp p site s = ({ s with msg := some false }, 0) := by
      cases async with
      | true => simp [nodeMirrorWaitForPrevResp, hs, hprev rfl]
      | false => rw [nodeMirrorWaitForPrevResp, if_neg (by simp [hs]), ← hs]
    simp [waited, hs, hwaited]
  refine ⟨fun hP s hs => ?_, fun hnot s hs => ?_, fun s hs => by simp [waited, hs]⟩
  · rw [hwait s hs hP.1, (h { s with msg := some false } rfl).1 hP.2]
  · by_cases hprev : async = true → p.prev site = 0
    · obtain ⟨retval, hrest⟩ := (h { s with msg := some false } rfl).2 fun hP => hnot ⟨hprev, hP⟩
      exact ⟨retval, (hwait s hs hprev).trans hrest⟩
    · obtain ⟨rfl, hne⟩ := Classical.not_imp.1 hprev
      have hlost : ∃ retval, nodeMirrorWaitForPrevResp p site s = (s.release, retval) := by
        rw [nodeMirrorWaitForPrevResp, if_pos hs]
        split_ifs
        · exact ⟨_, rfl⟩
        · exact ⟨_, rfl⟩
        · omega
      obtain ⟨retval, hlost⟩ := hlost
      exact ⟨retval, by simp [waited, hs, hlost, State.release]⟩

theorem Keeps.congr (h : Keeps f async async' P) (hPQ : P ↔ Q) : Keeps f async async' Q := propext hPQ ▸ h

end

theorem keeps_setup (p : Peer) :
    Keeps (waited p .setup · fun s => if p.skipLocal .setup then tdiskMirrorSkipLocalWrite p s else (s, 0)) true false
      (p.prev .setup = 0 ∧ p.skipLocal .setup = false) := by
  refine (keeps_waited (P := p.skipLocal .setup = false) fun s hs => ⟨fun hskip => ?_, fun hskip => ?_⟩).congr (by simp)
  · rw [hskip, ← hs]
    rfl
  · rw [Bool.not_eq_false] at hskip
    exact ⟨_, if_pos hskip⟩

theorem lbaWriteSetup_sends (h : w.Sends xchgId) : tdiskLbaWriteSetup w xchgId {} =
    ({ cmds := 1, msg := some (decide (xchgId ≠ 0) || w.master .setupEnd) }, 0) := by
  obtain ⟨hconfigured, hsync, hdisabled, hneeds, hcomm, hsend, hlast⟩ := h
  have hgo : ¬(!w.configured || !w.inMirror && w.inSync) = true := by
    simpa [hconfigured] using fun hmirror => Bool.eq_false_iff.2 fun h => by simp [hsync h] at hmirror
  have hnot : ¬(w.master .setup && !w.needsSync) = true := by simpa using hneeds
  have hsent : (w.comm && decide (w.send .setup = 0)) = true := by simp [hcomm, hsend]
  rw [tdiskLbaWriteSetup, if_neg hgo, tdiskMirrorWriteSetup, if_neg (by simp [hconfigured]), if_neg (by simp [hdisabled]),
    if_neg hnot]
  by_cases hxchg : xchgId = 0
  · obtain ⟨hcw, hend⟩ := hlast hxchg
    simp only [hxchg, hcw, hsent, ne_eq, not_true_eq_false, if_false, if_true, Bool.false_eq_true]
    cases hmaster : w.master .setupEnd with
    | true => rfl
    | false => exact (keeps_setup w.toPeer).keeps (hend hmaster) { cmds := 1, msg := some true } rfl
  · simp [hxchg, tdiskMirrorXcopyWrite, hsent, State.incr]

theorem lbaWriteSetup_not_sends (h : ¬w.Sends xchgId) : ∃ retval, tdiskLbaWriteSetup w xchgId {} = ({}, retval) := by
  have hkeeps := keeps_setup w.toPeer
  simp only [tdiskLbaWriteSetup, tdiskMirrorWriteSetup, tdiskMirrorXcopyWrite]
  generalize (fun s : State => if w.skipLocal .setup then tdiskMirrorSkipLocalWrite w.toPeer s else (s, 0)) = rest at hkeeps ⊢
  split_ifs with hgo hconfigured hdisabled hflag hneeds hxchg hsend hcw hsend hend
  all_goals try exact ⟨_, rfl⟩
  all_goals
    have hsync : w.inSync = true → w.inMirror = true := by
      revert hgo
      cases w.inSync <;> cases w.inMirror <;> simp
    have hnot : ¬(xchgId = 0 → w.cwAllocFails = false ∧
        (w.master .setupEnd = false → w.prev .setup = 0 ∧ w.skipLocal .setup = false)) := fun hlast =>
      h ⟨by simpa using hconfigured, hsync, by simpa using hdisabled, by simpa using hneeds,
        (Bool.and_eq_true_iff.1 hsend).1, of_decide_eq_true (Bool.and_eq_true_iff.1 hsend).2, hlast⟩
  · exact absurd (fun hzero => absurd hzero hxchg) hnot
  · exact absurd (fun _ => ⟨by simpa using hcw, fun hno => absurd hend (Bool.eq_false_iff.1 hno)⟩) hnot
  · exact hkeeps.loses (fun hlast => hnot fun _ => ⟨by simpa using hcw, fun _ => hlast⟩) _ rfl

theorem Opens.setup {next : State → Stop} {P : Prop}
    (h : Opens (w.inSync = true → w.inMirror = true) next (decide (xchgId ≠ 0) || w.master .setupEnd) P) :
    (orEnd (tdiskLbaWriteSetup w xchgId {}) next).Ok ∧
      ((orEnd (tdiskLbaWriteSetup w xchgId {}) next).holds = true ↔ w.Sends xchgId ∧ P) := by
  by_cases hsends : w.Sends xchgId
  · simpa only [orEnd, lbaWriteSetup_sends hsends, hsends, ne_eq, not_true_eq_false, if_false, Option.isSome_some, true_and]
      using h { cmds := 1, msg := some (decide (xchgId ≠ 0) || w.master .setupEnd) } rfl
        fun _ ha => ⟨(Option.some.inj ha).symm, hsends.2.1⟩
  · obtain ⟨retval, hsetup⟩ := lbaWriteSetup_not_sends hsends
    have hgone := h {} rfl nofun
    simp only [orEnd, hsetup, hsends, false_and]
    split_ifs
    · simp [Stop.Ok, Stop.holds]
    · simpa using hgone

/-! ## Writes that come to their end with a message -/

def smooth : Write where
  master _ := true
  comm := true
  send _ := 0
  resp _ := 0
  prev _ := 0
  failure _ := 0
  status _ := .done
  skipLocal _ := false
  skipDone := true
  configured := true
  disabled := false
  needsSync := true
  flagWrite := 0
  inSync := false
  inMirror := false
  cwAllocFails := false
  refused := false
  checkFails := false
  scanFails := false
  ioFails := false
  amapFails := false
  norefs := false

end QuadStor.MirrorCount
