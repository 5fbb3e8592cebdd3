import QuadStor.PgdataSync.Lemmas.Invariant

/-!
# The steps keep the invariant
-/

namespace QuadStor.PgdataSync

open Lib DDTable HaCleanup List Function

variable {c : Config} {s t : State} {k n cmd target lba i : Nat} {call call' : Call} {r : Record} {net : Net}
  {blocks : List (Option Block)}

theorem onCall_eq_some {guard : Call → Bool} {f : Call → State} (h : s.onCall k guard f = some t) :
    ∃ call, s.calls k = some call ∧ guard call = true ∧ t = f call := by
  unfold State.onCall at h
  split at h
  · cases h
  · rename_i call hcall
    split at h
    · rename_i hguard
      cases h
      exact ⟨call, hcall, (Bool.and_eq_true_iff.mp hguard).1, rfl⟩
    · cases h

theorem Core.allCalls_iff (h : Core c s) {f : Call → Bool} :
    s.allCalls f = true ↔ ∀ n call, s.calls n = some call → f call = true := by
  unfold State.allCalls
  simp only [all_eq_true, mem_range, Option.all_eq_true]
  constructor
  · intro hall n call hn
    exact hall n (h.calls n call hn).bound call hn
  · intro hall n _ call hn
    exact hall n call hn

theorem overlaps_of_has (hhas : call.Has target (lba + i)) (hi : i < n) :
    overlaps target lba n call.targetId call.lba call.blocks.length = true := by
  obtain ⟨htarget, hle, hlt⟩ := hhas
  simp only [overlaps, decide_eq_true_eq]
  exact ⟨htarget, by omega, by omega⟩

theorem mem_keys (hi : i < call.blocks.length) : (call.targetId, amapId (call.lba + i)) ∈ call.keys :=
  List.mem_map.mpr ⟨i, mem_range.mpr hi, rfl⟩

theorem Core.scan {origin : Nat → Origin} (h : Core c s) (hmay : s.mayScan c cmd target lba blocks = true)
    (hallowed : Allowed c s (.scan cmd target lba blocks origin)) : Core c (s.scan c cmd target lba blocks origin) := by
  simp only [State.mayScan, Bool.and_eq_true, Bool.not_eq_true', h.allCalls_iff] at hmay
  obtain ⟨⟨hgood, hown⟩, hlock⟩ := hmay
  have hcalls : ∀ n, n ≠ s.next → (s.scan c cmd target lba blocks origin).calls n = s.calls n :=
    fun n hn => update_of_ne hn _ _
  have hnew : (s.scan c cmd target lba blocks origin).calls s.next = some _ := update_self _ _ _
  have henv : Env c s (s.scan c cmd target lba blocks origin) := { Env.refl with next := Nat.le_succ _ }
  have hlt : ∀ {n call}, s.calls n = some call → n < s.next := fun hn => (h.calls _ _ hn).bound
  refine ⟨?_, ?_, ?_, ?_, h.nodup, h.images⟩
  · intro n call hn
    by_cases hnk : n = s.next
    · subst hnk
      rw [hnew] at hn
      cases hn
      refine ⟨Nat.lt_succ_self _, nofun, ?_, fun _ _ => ⟨rfl, rfl⟩, nofun, nofun, nofun, ?_, fun _ _ _ _ => nofun, ?_, ?_,
        nofun, fun _ _ => rfl⟩
      · rintro key w ⟨i, spec, ⟨⟩, -⟩
      · exact fun hg => nomatch hgood.symm.trans hg.2
      · intro hcond r hr _ i spec hspec hne hhas
        -- the page of an older message is unlocked, so its map has been sent
        have herror := hcond.resolve_right fun hg => nomatch hgood.symm.trans hg.2
        obtain ⟨old, hold, hsent, htarget, hlba, hspecs, -⟩ := h.records r hr
        have hok := h.calls _ _ hold
        have hphase : old.phase ≠ .scanned := by
          intro hp
          rw [hp] at hsent
          cases hsent
        have hi : i < r.msg.specs.length := (List.getElem?_eq_some_iff.mp hspec).1
        have hlen : r.msg.specs.length = old.blocks.length := by rw [hspecs, hok.length hphase]
        have hover := overlaps_of_has hhas hi
        constructor
        · cases hcmd : r.msg.msgCmd with
          | pgdataSyncClientDone => rfl
          | pgdataSyncStart => cases (hallowed r hr hcmd).symm.trans hover
        · have hunlocked := hlock _ _ hold
          rw [← hlen, ← htarget, ← hlba] at hunlocked
          rw [hover, Bool.not_true, Bool.or_false] at hunlocked
          rw [htarget, hlba]
          rw [hspecs] at hspec
          exact hok.seen herror _ _ ⟨i, spec, hspec, hne, rfl, rfl⟩ (hok.doneIo hunlocked _ (mem_keys (hlen ▸ hi)))
      · intro i b hb
        simp [State.writesOf, List.getD_eq_getElem?_getD, show blocks[i]? = some (some b) from hb, State.scan]
    · rw [hcalls n hnk] at hn
      exact (h.calls n call hn).env h henv
  · intro a b ca cb hab ha hb hlocked
    have hale : a ≠ s.next := by
      rintro rfl
      by_cases hbk : b = s.next
      · exact Nat.lt_irrefl _ (hbk ▸ hab)
      · rw [hcalls b hbk] at hb
        exact Nat.lt_asymm hab (hlt hb)
    rw [hcalls a hale] at ha
    by_cases hbk : b = s.next
    · subst hbk
      rw [hnew] at hb
      cases hb
      have hor := hlock a ca ha
      rw [hlocked, Bool.false_or, Bool.not_eq_true'] at hor
      exact hor
    · rw [hcalls b hbk] at hb
      exact h.lock a b ca cb hab ha hb hlocked
  · intro a b ca cb ha hb hcmd hstatus
    -- a command with `sendstatus` has no call yet
    have hnone : ∀ {n call}, s.calls n = some call → call.cmd = cmd → (c.kind cmd).sendstatus = true → False := by
      intro n call hn hc hst
      have hor := hown n call hn
      simp [hc, hst] at hor
    by_cases hak : a = s.next
    · by_cases hbk : b = s.next
      · rw [hak, hbk]
      · rw [hak, hnew] at ha
        rw [hcalls b hbk] at hb
        cases ha
        exact (hnone hb hcmd.symm hstatus).elim
    · rw [hcalls a hak] at ha
      by_cases hbk : b = s.next
      · rw [hbk, hnew] at hb
        cases hb
        rw [hcmd] at hstatus
        exact (hnone ha hcmd hstatus).elim
      · rw [hcalls b hbk] at hb
        exact h.single a b ca cb ha hb hcmd hstatus
  · intro r hr
    obtain ⟨old, hold, hrest⟩ := h.records r hr
    exact ⟨old, (hcalls _ (Nat.ne_of_lt (hlt hold))).trans hold, hrest⟩

theorem specOf_le {block : Option Block} {indexWriteId : Nat} :
    (s.specOf target lba block indexWriteId).amapWriteId ≤ s.writeId (target, amapId lba) := by
  unfold State.specOf
  split
  · exact Nat.zero_le _
  · exact le_rfl

theorem specOf_blocks {block : Option Block} {indexWriteId : Nat} :
    (s.specOf target lba block indexWriteId).indexWriteId = indexWriteId ∧
      ∀ b, (s.specOf target lba block indexWriteId).amapBlock = some b → block = some b := by
  unfold State.specOf
  split
  · exact ⟨rfl, nofun⟩
  · exact ⟨rfl, fun _ => id⟩

theorem CallOk.not_good (h : CallOk c s n call) (hphase : call.phase.finished = false) : ¬s.Good call.cmd :=
  fun hgood => nomatch hphase.symm.trans (h.good hgood).1

/-- The steps of a call after its start message -/
def Phase.leadsTo (old new : Phase) : Bool :=
  old.sent && new.sent && (new.unlocked || !old.unlocked) && (new.finished || !old.finished) &&
    (new.failing || !old.failing)

section

variable (h : Core c s) (hk : s.calls k = some call)
include h hk

theorem Core.pgdataAmapIo (hphase : call.phase = .scanned)
    {metaNew : Nat × Nat → Bool} : Core c (s.pgdataAmapIo k call metaNew) := by
  have hcall := h.calls k call hk
  have hfresh := hcall.fresh (by rw [hphase]; rfl)
  have hset : Core c (s.setCall k { call with
      phase := .updated
      metaNew
      specs := call.blocks.mapIdx fun i block =>
        s.specOf call.targetId (call.lba + i) block (call.indexWriteId i) }) := by
    refine h.setCall hk ⟨rfl, rfl, rfl, rfl, rfl, rfl, fun _ => by rw [hphase]; rfl, fun hsent => ?_⟩ ?_
    · rw [hphase] at hsent
      cases hsent
    · have hspec : ∀ i spec, (call.blocks.mapIdx fun i block =>
          s.specOf call.targetId (call.lba + i) block (call.indexWriteId i))[i]? = some spec → ∃ block,
          call.blocks[i]? = some block ∧ s.specOf call.targetId (call.lba + i) block (call.indexWriteId i) = spec := by
        intro i spec hspec
        rw [getElem?_mapIdx] at hspec
        exact Option.map_eq_some_iff.mp hspec
      refine ⟨hcall.bound, fun _ => length_mapIdx, ?_, fun _ => hfresh, nofun, nofun, nofun, ?_, ?_, hcall.older,
        hcall.taken, ?_, fun _ => hcall.released (by rw [hphase]; rfl)⟩
      · rintro key w ⟨i, spec, hi, -, rfl, rfl⟩
        obtain ⟨block, -, rfl⟩ := hspec i spec hi
        exact specOf_le
      · exact fun hgood => (hcall.not_good (by rw [hphase]; rfl) hgood).elim
      · intro _ key w _ hdone
        cases (hfresh key).2.symm.trans hdone
      · intro i spec hi
        obtain ⟨block, hblock, rfl⟩ := hspec i spec hi
        exact specOf_blocks.imp_right fun hb b hspec => hblock.trans (congrArg some (hb b hspec))
  exact hset.env { Env.refl with } rfl

theorem Core.startRecv (hphase : call.phase = .started)
    (hspecs : call'.specs = call.specs) (htarget : call'.targetId = call.targetId) (hlba : call'.lba = call.lba)
    (hnone : ∀ r ∈ s.hash, r.txn ≠ k) (hseen : Seen c s call) : Core c (s.startRecv k call') := by
  have hcall := h.calls k call hk
  have hlen := hcall.length (by rw [hphase]; nofun)
  -- a record of another call is an old one
  have hother : ∀ {n}, n ≠ k → ∀ r ∈ (s.startRecv k call').hash, r.txn = n → r ∈ s.hash := by
    intro n hn
    exact forall_mem_cons.2 ⟨fun htxn => absurd htxn.symm hn, fun r hr _ => hr⟩
  refine ⟨?_, h.lock, h.single, ?_, ?_, h.images⟩
  · intro n other hn
    have hok := h.calls n other hn
    have hne : other.phase.finished = true → n ≠ k := by
      rintro hfinished rfl
      cases hk.symm.trans hn
      rw [hphase] at hfinished
      cases hfinished
    refine { hok with done := ?_, good := ?_, older := ?_ }
    · intro herror hstatus hfinished r hr htxn
      exact hok.done herror hstatus hfinished r (hother (hne hfinished) r hr htxn) htxn
    · intro hgood
      obtain ⟨hfinished, hdone⟩ := hok.good hgood
      exact ⟨hfinished, fun r hr htxn => hdone r (hother (hne hfinished) r hr htxn) htxn⟩
    · intro hcond r hr hlt i spec hspec hne hhas
      rcases mem_cons.mp hr with rfl | hr
      · have hdisjoint := h.lock k n call other hlt hk hn (by rw [hphase]; rfl)
        have hi := hspecs ▸ (List.getElem?_eq_some_iff.mp hspec).1
        rw [htarget, hlba] at hhas
        cases hdisjoint.symm.trans (overlaps_of_has hhas (hlen ▸ hi))
      · exact hok.older hcond r hr hlt i spec hspec hne hhas
  · exact forall_mem_cons.2 ⟨⟨call, hk, by rw [hphase]; rfl, htarget, hlba, hspecs, fun _ => hseen⟩, h.records⟩
  · refine nodup_cons.mpr ⟨fun hmem => ?_, h.nodup⟩
    obtain ⟨r, hr, htxn⟩ := List.mem_map.mp hmem
    exact hnone r hr htxn

theorem Core.started (hphase : call.phase = .updated) {ok : Bool} (hok : ok = false → s.syncError = true) :
    Core c (s.setCall k { call with phase := .started, transaction := ok }) := by
  have hcall := h.calls k call hk
  refine h.setCall hk ⟨rfl, rfl, rfl, rfl, rfl, rfl, fun _ => by rw [hphase]; rfl, fun hsent => ?_⟩ ?_
  · rw [hphase] at hsent
    cases hsent
  · exact { hcall with
      length := fun _ => hcall.length (by rw [hphase]; nofun)
      fresh := fun _ => hcall.fresh (by rw [hphase]; rfl)
      doneIo := nofun
      transaction := fun _ => hok
      done := nofun
      good := fun hgood => (hcall.not_good (by rw [hphase]; rfl) hgood).elim
      released := fun _ => hcall.released (by rw [hphase]; rfl) }

theorem Core.nodePgdataSyncStart (hphase : call.phase = .updated) (hallowed : Allowed c s (.syncStart k net)) :
    Core c (s.nodePgdataSyncStart k call net) := by
  have hnone : ∀ r ∈ s.hash, r.txn ≠ k := by
    rintro r hr rfl
    obtain ⟨old, hold, hsent, -⟩ := h.records r hr
    cases hk.symm.trans hold
    rw [hphase] at hsent
    cases hsent
  have hself : ∀ {u : State} {a : Call}, (u.setCall k a).calls k = some a := update_self _ _ _
  unfold State.nodePgdataSyncStart
  split
  · rename_i herror
    exact h.started hk hphase fun _ => herror
  · rename_i herror
    have herror := Bool.eq_false_iff.mpr herror
    have hseen : net.delivered = true → Seen c s call := by
      intro hdelivered i b hb
      obtain ⟨hindex, hbyRef⟩ := hallowed herror hdelivered call hk i b hb
      exact ⟨hindex, (h.images b.row).2.1 herror ▸ (h.calls k call hk).taken i b hb, hbyRef⟩
    cases net with
    | ok =>
      have hstarted : Core c (s.setCall k { call with phase := .started, transaction := true }) :=
        h.started hk hphase nofun
      exact hstarted.startRecv hself rfl rfl rfl rfl hnone (hseen rfl)
    | lost => exact (h.error.started hk hphase fun _ => rfl).disable
    | noReply =>
      exact ((h.error.started hk hphase fun _ => rfl).startRecv hself rfl rfl rfl rfl hnone (hseen rfl)).disable

theorem Core.setPhase {phase : Phase} (hleads : call.phase.leadsTo phase = true)
    (hdoneIo : phase.unlocked = true → ∀ key ∈ call.keys, call.doneIo key = true)
    (hdone : s.syncError = false → (c.kind call.cmd).sendstatus = true → phase.finished = true →
      ∀ r ∈ s.hash, r.txn = k → r.msg.msgCmd = .pgdataSyncClientDone) :
    Core c (s.setCall k { call with phase }) := by
  have hcall := h.calls k call hk
  simp only [Phase.leadsTo, Bool.and_eq_true, Bool.or_eq_true, Bool.not_eq_true'] at hleads
  obtain ⟨⟨⟨⟨hold, hnew⟩, hlocked⟩, hfinished⟩, hfailing⟩ := hleads
  have hlength : call.specs.length = call.blocks.length := by
    apply hcall.length
    intro hphase
    rw [hphase] at hold
    cases hold
  refine h.setCall hk ⟨rfl, rfl, rfl, rfl, rfl, rfl, fun hu => ?_, fun _ => ⟨hnew, rfl⟩⟩ { hcall with
    length := fun _ => hlength
    fresh := fun hsent => nomatch hnew.symm.trans hsent
    doneIo := hdoneIo
    transaction := fun _ => hcall.transaction hold
    done := hdone
    good := fun hgood => (hcall.good hgood).imp_left fun hf => ?_
    released := fun hf => hcall.released ?_ }
  · exact hlocked.resolve_left fun hlocked => nomatch hu.symm.trans hlocked
  · exact hfinished.resolve_right fun hfinished => nomatch hfinished.symm.trans hf
  · exact hfailing.resolve_left fun hfailing => nomatch hf.symm.trans hfailing

end

variable (h : Core c s)
include h

theorem Core.perm_hash (hfind : (s.hash.find? fun r => r.txn == k) = some r) :
    s.hash.Perm (r :: s.hash.eraseP fun r => r.txn == k) ∧ ∀ r' ∈ s.hash.eraseP fun r => r.txn == k, r'.txn ≠ k := by
  obtain ⟨htxn, as, bs, hhash, hbefore⟩ := find?_eq_some_iff_append.mp hfind
  have herase : (s.hash.eraseP fun r => r.txn == k) = as ++ bs := by
    rw [hhash, eraseP_append_right _ fun a ha => by simpa using hbefore a ha]
    exact congrArg (as ++ ·) (eraseP_cons_of_pos htxn)
  have hperm := hhash ▸ perm_middle
  rw [herase]
  refine ⟨hperm, fun r' hr' heq => ?_⟩
  have hnodup := (hperm.map Record.txn).nodup_iff.mp h.nodup
  exact (nodup_cons.mp hnodup).1 (List.mem_map.mpr ⟨r', hr', heq.trans (beq_iff_eq.mp htxn).symm⟩)

theorem Core.clientDoneRecv (hfind : (s.hash.find? fun r => r.txn == k) = some r) : Core c (s.clientDoneRecv k r) ∧
      ∀ r' ∈ (s.clientDoneRecv k r).hash, r'.txn = k → r'.msg.msgCmd = .pgdataSyncClientDone := by
  obtain ⟨hperm, hrest⟩ := h.perm_hash hfind
  constructor
  · refine h.env { Env.refl with hash := ⟨?_, ?_⟩ } rfl
    · exact forall_mem_cons.2
        ⟨⟨r, hperm.mem_iff.mpr mem_cons_self, .inr rfl⟩, fun r' hr' =>
          ⟨r', hperm.mem_iff.mpr (mem_cons_of_mem _ hr'), .inl rfl⟩⟩
    · exact (hperm.map Record.txn).nodup_iff.mp
  · exact forall_mem_cons.2 ⟨fun _ => rfl, fun r' hr' htxn => absurd htxn (hrest r' hr')⟩

section

variable (hk : s.calls k = some call)
include hk

theorem Core.nodePgdataSyncClientDone (hphase : call.phase = .started) :
    Core c (s.nodePgdataSyncClientDone k call net) := by
  have hset : ∀ {u : State}, Core c u → u.calls k = some call → (u.syncError = false →
      ∀ r ∈ u.hash, r.txn = k → r.msg.msgCmd = .pgdataSyncClientDone) →
      Core c (u.setCall k { call with phase := .clientDone }) :=
    fun hu huk hdone => hu.setPhase huk (by rw [hphase]; rfl) nofun fun herror _ _ => hdone herror
  unfold State.nodePgdataSyncClientDone
  split
  · rename_i hskip
    apply hset h hk
    intro herror
    have hnone : call.transaction = false := by simpa [herror] using hskip
    cases herror.symm.trans ((h.calls k call hk).transaction (by rw [hphase]; rfl) hnone)
  · split
    · exact (hset h.error hk nofun).disable
    · rename_i r hfind
      obtain ⟨hrecv, hdone⟩ := h.clientDoneRecv hfind
      exact .send (fun _ => hset hrecv hk fun _ => hdone) (hset h.error hk nofun)

theorem Core.postWrite (hall : call.allDoneIo = true)
    (hphase : call.phase = .clientDone ∨ call.phase = .started ∧ (c.kind call.cmd).sendstatus = false) :
    Core c (s.setCall k { call with phase := .posted }) := by
  apply h.setPhase hk
  · rcases hphase with hp | ⟨hp, -⟩ <;> rw [hp] <;> rfl
  · exact fun _ => all_eq_true.mp hall
  · intro herror hstatus _
    rcases hphase with hp | ⟨-, hnone⟩
    · exact (h.calls k call hk).done herror hstatus (by rw [hp]; rfl)
    · cases hnone.symm.trans hstatus

theorem Core.deleteOld (hphase : call.phase = .posted) : Core c (s.deleteOld c k call) := by
  have hcall := h.calls k call hk
  have hset : Core c (s.setCall k { call with phase := .deleted }) := by
    apply h.setPhase hk (by rw [hphase]; rfl)
    · exact fun _ => hcall.doneIo (by rw [hphase]; rfl)
    · exact fun herror hstatus _ => hcall.done herror hstatus (by rw [hphase]; rfl)
  exact hset.env { Env.refl with } rfl

theorem Core.pgdataCancel (hphase : call.phase = .started) : Core c (s.pgdataCancel c k call) := by
  have hcall := h.calls k call hk
  have hset : Core c (s.setCall k (s.cancelled call)) := by
    refine h.setCall hk ⟨rfl, rfl, rfl, rfl, rfl, rfl, fun _ => by rw [hphase]; rfl, fun _ => ⟨rfl, rfl⟩⟩ { hcall with
      length := fun _ => hcall.length (by rw [hphase]; nofun)
      fresh := nofun
      doneIo := nofun
      transaction := fun _ => hcall.transaction (by rw [hphase]; rfl)
      done := nofun
      good := fun hgood => (hcall.not_good (by rw [hphase]; rfl) hgood).elim
      seen := fun herror key w hupdate hdone => ?_
      released := nofun }
    exact hcall.seen herror key w hupdate (Bool.and_eq_true_iff.mp hdone).1
  exact hset.env { Env.refl with } rfl

theorem Core.nodePgdataSyncComplete
    (hphase : call.phase = .deleted ∨ call.phase = .cancelled ∧ call.allDoneIo = true) :
    Core c (s.nodePgdataSyncComplete k call net) := by
  have hset : ∀ {u : State}, Core c u → u.calls k = some call →
      Core c (u.setCall k { call with phase := call.phase.complete }) := by
    intro u hu huk
    have hcall := hu.calls k call huk
    rcases hphase with hp | ⟨hp, hall⟩ <;> apply hu.setPhase huk <;> rw [hp]
    · rfl
    · exact fun _ => hcall.doneIo (by rw [hp]; rfl)
    · exact fun herror hstatus _ => hcall.done herror hstatus (by rw [hp]; rfl)
    · rfl
    · exact fun _ => all_eq_true.mp hall
    · nofun
  have herase : Core c { s with hash := s.hash.eraseP fun r => r.txn == k } :=
    h.env { Env.refl with hash := .of_sublist eraseP_sublist } rfl
  unfold State.nodePgdataSyncComplete
  split
  · exact hset h hk
  · split
    · exact (hset h.error hk).disable
    · exact .send (fun _ => hset herase hk) (hset h.error hk)

end

theorem Core.answer (hready : s.syncError = true → s.haDisabled = true)
    (hall : s.syncError = false → ∀ n call, s.calls n = some call → call.cmd = cmd → call.phase.finished = true ∧
      ∀ r ∈ s.hash, r.txn = n → r.msg.msgCmd = .pgdataSyncClientDone) : Core c (s.answer cmd) := by
  have herror : s.haDisabled = false → s.syncError = false :=
    fun hha => Bool.eq_false_iff.mpr fun herror => nomatch hha.symm.trans (hready herror)
  refine ⟨fun n call hn => ?_, h.lock, h.single, h.records, h.nodup, h.images⟩
  have hcall := h.calls n call hn
  refine { hcall with
    good := fun hgood => ?_
    older := fun hcond => hcall.older (.inl (hcond.elim id fun hgood => herror hgood.1)) }
  by_cases hcmd : call.cmd = cmd
  · exact hall (herror hgood.1) n call hn hcmd
  · exact hcall.good ⟨hgood.1, by simpa [State.answer, update_of_ne hcmd] using hgood.2⟩

end QuadStor.PgdataSync
