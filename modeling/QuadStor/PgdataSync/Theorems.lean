import QuadStor.PgdataSync.Lemmas.Images

/-!
# Answered commands and the takeover
-/

namespace QuadStor.PgdataSync

open Lib DDTable HaCleanup List Function
open Bint (Index)
open Fastlog (writeIdGreater)

variable {c : Config} {s t : State} {n i cmd : Nat} {a : Action} {u : Update} {key : Nat × Nat} {hash : List Record}

theorem Core.init (h : s.Init) : Core c s where
  calls n call hn := nomatch (h.calls n).symm.trans hn
  lock k _ _ _ _ hk := nomatch (h.calls k).symm.trans hk
  single k _ _ _ hk := nomatch (h.calls k).symm.trans hk
  records r hr := by
    rw [h.hash] at hr
    cases hr
  nodup := by
    rw [h.hash]
    exact nodup_nil
  images row := by
    refine ⟨fun x hx => (h.image row x hx).imp_right Eq.le, fun _ => ?_, h.disk row⟩
    unfold State.imageAt
    split
    · rename_i hsome
      obtain ⟨x, hx⟩ := Option.isSome_iff_exists.mp hsome
      exact (h.image row x hx).2
    · rfl

theorem Core.exec (h : Core c s) (hallowed : Allowed c s a) (hexec : exec c s a = some t) : Core c t := by
  cases a with
  | scan cmd target lba blocks origin =>
    obtain ⟨hmay, rfl⟩ := System.of_guard hexec
    exact h.scan hmay hallowed
  | pgdataAmapIo k metaNew =>
    obtain ⟨call, hk, hguard, rfl⟩ := onCall_eq_some hexec
    exact h.pgdataAmapIo hk (beq_iff_eq.mp hguard)
  | syncStart k net =>
    obtain ⟨call, hk, hguard, rfl⟩ := onCall_eq_some hexec
    exact h.nodePgdataSyncStart hk (beq_iff_eq.mp hguard) hallowed
  | amapEndWrites k key skip net =>
    obtain ⟨call, hk, hguard, rfl⟩ := onCall_eq_some hexec
    simp only [Bool.and_eq_true, Bool.or_eq_true, beq_iff_eq] at hguard
    refine h.amapEndWrites hk ?_ hallowed
    rcases hguard.1.1.1 with ⟨hp, -⟩ | hp <;> rw [hp] <;> rfl
  | amapEndWritesNoio k key skip net =>
    obtain ⟨call, hk, hguard, rfl⟩ := onCall_eq_some hexec
    simp only [Bool.and_eq_true, beq_iff_eq] at hguard
    exact h.amapEndWritesNoio hk hguard.1.1.1.1 hguard.1.1.1.2 hallowed
  | clientDone k net =>
    obtain ⟨call, hk, hguard, rfl⟩ := onCall_eq_some hexec
    simp only [Bool.and_eq_true, beq_iff_eq] at hguard
    exact h.nodePgdataSyncClientDone hk hguard.1.1
  | sendStatus k =>
    obtain ⟨call, hk, hguard, rfl⟩ := onCall_eq_some hexec
    simp only [Bool.and_eq_true, Bool.or_eq_true, beq_iff_eq] at hguard
    obtain ⟨hphase, hstatus⟩ := hguard
    have hfinished : call.phase.finished = true := by
      cases hp : call.phase <;> simp_all [Phase.finished, Phase.succeeded]
    -- the command has no other call
    refine h.answer hallowed fun herror n other hn hcmd => ?_
    obtain rfl : k = n := h.single k n call other hk hn hcmd.symm hstatus
    cases hk.symm.trans hn
    exact ⟨hfinished, (h.calls k call hk).done herror hstatus hfinished⟩
  | postWrite k =>
    obtain ⟨call, hk, hguard, rfl⟩ := onCall_eq_some hexec
    simp only [Bool.and_eq_true, Bool.or_eq_true, beq_iff_eq, Bool.not_eq_true'] at hguard
    exact h.postWrite hk hguard.2 (hguard.1.imp_right And.left)
  | deleteOld k =>
    obtain ⟨call, hk, hguard, rfl⟩ := onCall_eq_some hexec
    exact h.deleteOld hk (beq_iff_eq.mp hguard)
  | pgdataCancel k =>
    obtain ⟨call, hk, hguard, rfl⟩ := onCall_eq_some hexec
    exact h.pgdataCancel hk (beq_iff_eq.mp (Bool.and_eq_true_iff.mp hguard).1)
  | syncComplete k net =>
    obtain ⟨call, hk, hguard, rfl⟩ := onCall_eq_some hexec
    simp only [Bool.and_eq_true, Bool.or_eq_true, beq_iff_eq] at hguard
    exact h.nodePgdataSyncComplete hk hguard
  | answer cmd =>
    obtain ⟨hguard, rfl⟩ := System.of_guard hexec
    obtain ⟨hready, hdone⟩ := hallowed
    have hall := h.allCalls_iff.mp (Bool.and_eq_true_iff.mp hguard).2
    refine h.answer hready fun _ n call hn hcmd => ⟨?_, fun r hr htxn => hdone r hr call (htxn ▸ hn) hcmd⟩
    have hover : call.phase.succeeded = true := by simpa [hcmd] using hall n call hn
    cases hp : call.phase <;> simp_all [Phase.finished, Phase.succeeded]
  | haDisable =>
    obtain ⟨-, rfl⟩ := System.of_guard hexec
    exact h.env { Env.refl with good := nofun } rfl
  | dropAmap key =>
    simp only [PgdataSync.exec] at hexec
    split at hexec
    · cases hexec
    · rename_i a hmem
      cases hexec
      exact h.dropAmap hmem hallowed
  | subgroupWriteIo k row net =>
    obtain ⟨call, -, -, rfl⟩ := onCall_eq_some hexec
    exact h.subgroupWriteIo hallowed
  | dropIndex row =>
    cases hexec
    exact h.dropIndex hallowed

theorem core_of_reachable (hs : ((system c).restrict (Allowed c)).Reachable s) : Core c s := by
  refine System.Invariant.reachable ⟨.init, fun h hstep => ?_⟩ hs
  exact h.exec hstep.1 hstep.2

theorem mem_updatesFrom {msgCmd : MsgCmd} {target lba : Nat} {specs : List WriteSpec}
    (h : u ∈ updatesFrom msgCmd target lba specs) :
    u.msgCmd = msgCmd ∧ u.targetId = target ∧ ∃ i, specs[i]? = some u.spec ∧ u.lba = lba + i := by
  induction specs generalizing lba with
  | nil => cases h
  | cons spec rest ih =>
    rcases mem_cons.mp h with rfl | h
    · exact ⟨rfl, rfl, 0, rfl, rfl⟩
    · obtain ⟨hcmd, htarget, i, hspec, hlba⟩ := ih h
      exact ⟨hcmd, htarget, i + 1, hspec, by omega⟩

theorem mem_pagesOf (h : (pagesOf hash)[i]? = some (n, u)) : ∃ r ∈ hash, r.txn = n ∧ u ∈ r.msg.updates := by
  obtain ⟨r, hr, hmem⟩ := mem_flatMap.mp (mem_of_getElem? h)
  obtain ⟨u', hu', heq⟩ := List.mem_map.mp hmem
  cases heq
  exact ⟨r, hr, rfl, hu'⟩

theorem amapTag_before {standby : HaCleanup.State} {pages : List (Nat × Update)} :
    (Sweep.before (handlePage c) standby pages i).amapTag c.cleanup key = standby.amapTag c.cleanup key :=
  Sweep.before_invariant (I := fun (t : HaCleanup.State) => t.amapTag c.cleanup key = standby.amapTag c.cleanup key) rfl
    fun _ _ _ h => amapTag_handle.trans h

theorem not_sets {standby : HaCleanup.State} {id : Nat} {error : Bool}
    (htag : standby.amapTag c.cleanup (u.targetId, amapId u.lba) = some (id, error))
    (hgreater : writeIdGreater id u.spec.amapWriteId = true) (hcmd : u.msgCmd = .pgdataSyncClientDone) :
    ¬Sets c standby u := by
  rintro ⟨-, a, hlocate, hverdict⟩
  rw [locate_spec.2.1] at hlocate
  obtain ⟨a', hview, hif⟩ := Option.bind_eq_some_iff.mp hlocate
  obtain ⟨-, rfl⟩ : a'.error = false ∧ a' = a := by simpa using hif
  have hid : a'.writeId = id := by
    rw [HaCleanup.State.amapTag, hview, Option.map_some, Option.some.injEq] at htag
    exact congrArg Prod.fst htag
  rw [hcmd, hid] at hverdict
  simp [MsgCmd.amapVerdict, amapValidated, hgreater] at hverdict

theorem writeId_before {standby : HaCleanup.State} (pages : List (Nat × Update)) (i : Nat) {row : Row} :
    ((Sweep.before (handlePage c) standby pages i).index c.cleanup row).writeId =
      (standby.index c.cleanup row).writeId :=
  Sweep.before_invariant
    (I := fun (t : HaCleanup.State) => (t.index c.cleanup row).writeId = (standby.index c.cleanup row).writeId) rfl
    fun _ _ _ h => writeId_handle.trans h

theorem counted_of_drops {r : Record} {call : Call} (hcore : Core c s) (hr : r ∈ s.hash)
    (hu : u ∈ r.msg.updates) {pages : List (Nat × Update)}
    (hdrops : Drops (Sweep.before (handlePage c) s.standby pages i) u) (hcall : s.calls r.txn = some call)
    (hfailing : call.phase.failing = false) : s.Counted r.txn u := by
  obtain ⟨hstart, b, x, hblock, hx, hgreater⟩ := hdrops
  obtain ⟨hcmd, -, j, hspec, hlba⟩ := mem_updatesFrom hu
  obtain ⟨old, hold, -, -, hlba', hspecs, hseen⟩ := hcore.records r hr
  cases hcall.symm.trans hold
  have hok := hcore.calls _ _ hcall
  obtain ⟨hid, hblocks⟩ := hok.specs j u.spec (hspecs ▸ hspec)
  have hb := hblocks b hblock
  obtain ⟨hindex, htaken, hbyRef⟩ := hseen (hcmd ▸ hstart) j b hb
  have hj : u.lba - call.lba = j := by rw [hlba, hlba', Nat.add_sub_cancel_left]
  have hxid : x.writeId = serialId (s.imageAt b.row) := by
    rw [← hcore.writeId_index hindex, ← writeId_before pages i]
    rw [HaCleanup.State.index, hx]
    rfl
  refine ⟨call, b, hcall, hblock, ?_, ?_⟩
  · rw [hj]
    by_cases href : call.origin j = .byRef
    · exact hbyRef href
    · -- the id in the message is the one of the index without the reference
      refine Nat.lt_of_le_of_ne htaken fun heq => ?_
      have hsame : u.spec.indexWriteId = x.writeId := by
        simp [hid, hxid, Call.indexWriteId, getD_eq_getElem?_getD, hb, href, heq]
      rw [hsame, Fastlog.writeIdGreater_self] at hgreater
      cases hgreater
  · rw [hok.released hfailing]
    simp

/-- In every run whose steps are all `Allowed`, a takeover undoes no answered command that shares no block with a
failing call. -/
theorem acknowledged_not_undone (hs : ((system c).restrict (Allowed c)).Reachable s) (hha : s.haDisabled = false)
    (hgood : s.good cmd = true) (hunshared : s.Unshared cmd) : ¬s.Undone c cmd := by
  have hcore := core_of_reachable hs
  have hgood : s.Good cmd := ⟨hha, hgood⟩
  rintro ⟨hash, hperm, i, n, u, m, call, hpage, hm, rfl, hundone⟩
  obtain ⟨r, hr, rfl, hu⟩ := mem_pagesOf hpage
  obtain ⟨hcmd, htarget, j, hspec, hlba⟩ := mem_updatesFrom hu
  have hr := hperm.mem_iff.mp hr
  have hcall := hcore.calls m call hm
  -- the call's own messages are answered ones
  have hown : r.txn = m → u.msgCmd ≠ .pgdataSyncStart := by
    intro htxn hstart
    cases (hcmd.trans ((hcall.good hgood).2 r hr htxn)).symm.trans hstart
  rcases hundone with ⟨hhas, hsets, hlt | ⟨htxn, hstart⟩⟩ | ⟨hdrops, htxn | ⟨hblock, hcounted⟩⟩
  · rw [htarget, hlba] at hhas
    obtain ⟨hdone, -, id, error, htag, hgreater⟩ := hcall.older (.inr hgood) r hr hlt j u.spec hspec hsets.1 hhas
    rw [← htarget, ← hlba] at htag
    exact not_sets (amapTag_before.trans htag) hgreater (hcmd.trans hdone) hsets
  · exact hown htxn hstart
  · exact hown htxn hdrops.1
  · obtain ⟨old, hold, -, -, -, hspecs, -⟩ := hcore.records r hr
    obtain ⟨-, b, x, hb, -⟩ := id hdrops
    have hshared := mem_of_getElem? (((hcore.calls _ _ hold).specs j u.spec (hspecs ▸ hspec)).2 b hb)
    refine hcounted (counted_of_drops hcore hr hu hdrops hold (Bool.eq_false_iff.mpr fun hfailing => ?_))
    exact hunshared r hr old hold hfailing m call hm rfl b hshared (hb ▸ hblock)

def commands : Config where
  cleanup := ⟨fun _ => 12, fun _ => true, fun _ => true, fun _ => true⟩
  kind cmd := if cmd = 0 then .write else if cmd = 1 then .writeSame else .extendedCopy

def emptyPair : State where
  calls _ := none
  next := 0
  good _ := false
  entry _ _ := none
  writeId _ := 3
  refs _ _ := 0
  indexAt _ := 3
  memAt _ := 3
  syncError := false
  haDisabled := false
  hash := []
  standby := ⟨fun _ => none, fun _ => none, fun _ => none, fun _ => { Index.new with writeId := serialId 3 }⟩

theorem emptyPair_init : emptyPair.Init := ⟨fun _ => rfl, fun _ => rfl, rfl, rfl, rfl, nofun, fun _ => rfl⟩

def block : Block := ⟨0, 0, 5, 4096⟩

/-- A WRITE and a copy of its page by reference are answered; another copy has sent its start message. -/
def twoAnswered : List Action :=
  [.scan 0 1 0 [some block] fun _ => .allocated, .pgdataAmapIo 0 fun _ => true, .syncStart 0 .ok,
    .amapEndWrites 0 (1, 0) 1 .ok, .clientDone 0 .ok, .sendStatus 0,
    .scan 2 1 1 [some block] fun _ => .byRef, .subgroupWriteIo 1 (0, 0) .ok, .pgdataAmapIo 1 fun _ => false,
    .syncStart 1 .ok, .amapEndWrites 1 (1, 0) 1 .ok, .postWrite 1, .deleteOld 1, .syncComplete 1 .ok, .answer 2,
    .scan 3 1 2 [some block] fun _ => .byRef, .subgroupWriteIo 2 (0, 0) .ok, .pgdataAmapIo 2 fun _ => false,
    .syncStart 2 .ok]

theorem acknowledged_not_undone_twoAnswered : ∃ s : State, s.good 0 = true ∧ s.good 2 = true ∧ s.hash.length = 2 ∧
    ¬s.Undone commands 0 ∧ ¬s.Undone commands 2 := by
  have hstep : ∀ {s : State} {a}, Allowed commands s a ∧ (exec commands s a).isSome →
      ((system commands).restrict (Allowed commands)).step s a (System.runOf (exec commands) s a) :=
    fun h => ⟨h.1, System.exec_runOf h.2⟩
  have hpage : ∀ {i : Nat} {b}, [some block][i]? = some (some b) → i = 0 ∧ b = block := by
    intro i b hb
    simpa [List.getElem?_singleton, eq_comm] using hb
  have hreach : ((system commands).restrict (Allowed commands)).Reachable
      (twoAnswered.foldl (System.runOf (exec commands)) emptyPair) := by
    refine .foldl hstep (.init emptyPair_init) ⟨⟨nofun, rfl⟩, ⟨trivial, rfl⟩, ⟨?_, rfl⟩, ⟨?_, rfl⟩, ⟨trivial, rfl⟩,
      ⟨nofun, rfl⟩, ⟨?_, rfl⟩, ⟨fun _ _ => by decide, rfl⟩, ⟨trivial, rfl⟩, ⟨?_, rfl⟩, ⟨?_, rfl⟩, ⟨trivial, rfl⟩,
      ⟨trivial, rfl⟩, ⟨trivial, rfl⟩, ⟨⟨nofun, fun r hr _ _ _ => ?_⟩, rfl⟩, ⟨?_, rfl⟩, ⟨fun _ _ => by decide, rfl⟩,
      ⟨trivial, rfl⟩, ⟨?_, rfl⟩, trivial⟩
    · rintro - - _ ⟨⟩ i b -
      exact ⟨.inr rfl, nofun⟩
    · rintro _ ⟨⟩ -
      exact ⟨by decide, fun _ _ => by decide, fun h => absurd h (by decide)⟩
    · intro r hr hstart
      rw [mem_singleton.mp hr] at hstart
      cases hstart
    · rintro - - _ ⟨⟩ i b hb
      obtain ⟨rfl, rfl⟩ := hpage hb
      exact ⟨.inl rfl, fun _ => by decide⟩
    · rintro _ ⟨⟩ -
      exact ⟨by decide, fun _ _ => by decide, fun h => absurd h (by decide)⟩
    · rw [mem_singleton.mp hr]
    · intro r hr hstart
      rw [mem_singleton.mp hr] at hstart
      cases hstart
    · rintro - - _ ⟨⟩ i b hb
      obtain ⟨rfl, rfl⟩ := hpage hb
      exact ⟨.inl rfl, fun _ => by decide⟩
  have hunshared : ∀ cmd, State.Unshared (twoAnswered.foldl (System.runOf (exec commands)) emptyPair) cmd := by
    intro cmd r hr call hcall hfailing
    rcases mem_cons.mp hr with rfl | hr
    · cases hcall
      cases hfailing
    · rw [mem_singleton.mp hr] at hcall
      cases hcall
      cases hfailing
  exact ⟨_, rfl, rfl, rfl, acknowledged_not_undone hreach rfl rfl (hunshared 0),
    acknowledged_not_undone hreach rfl rfl (hunshared 2)⟩

/-- A WRITE SAME of one page, answered after its call; the standby has got the map and the index. -/
def writeSameAnswered : List Action :=
  [.scan 1 1 0 [some block] fun _ => .allocated, .pgdataAmapIo 0 fun _ => true, .syncStart 0 .ok,
    .amapEndWrites 0 (1, 0) 1 .ok, .postWrite 0, .subgroupWriteIo 0 (0, 0) .ok, .answer 1]

/-- A takeover before the message is complete sets the page back and drops the reference. -/
theorem writeSame_undone : ∃ s : State, (system commands).Reachable s ∧ s.syncError = false ∧ s.haDisabled = false ∧
    s.good 1 = true ∧ s.entry 1 0 = some block ∧ s.standby.refs (0, 0) 5 = 1 ∧ s.Undone commands 1 ∧
    (nodeHaHashCleanup commands.cleanup s.standby (s.hash.map Record.msg)).entry 1 0 = none ∧
    (nodeHaHashCleanup commands.cleanup s.standby (s.hash.map Record.msg)).refs (0, 0) 5 = 0 := by
  have hreach : (system commands).Reachable (writeSameAnswered.foldl (System.runOf (exec commands)) emptyPair) :=
    .foldl System.exec_runOf (.init emptyPair_init) ⟨rfl, rfl, rfl, rfl, rfl, rfl, rfl, trivial⟩
  refine ⟨_, hreach, rfl, rfl, rfl, rfl, by decide, ?_, by decide, ?_⟩
  · exact ⟨_, .refl _, 0, 0, _, 0, _, rfl, rfl, rfl, .inr ⟨⟨rfl, _, _, rfl, rfl, by decide⟩, .inl rfl⟩⟩
  · have hcleanup : ∀ standby, nodeHaHashCleanup commands.cleanup standby
        [⟨.pgdataSyncStart, 1, 0, [⟨some block, none, 3, serialId 3⟩]⟩] =
        handle commands.cleanup standby ⟨.pgdataSyncStart, 1, 0, ⟨some block, none, 3, serialId 3⟩⟩ := fun _ => rfl
    refine Eq.trans (congrArg (HaCleanup.State.refs · block.row 5) (hcleanup _)) ?_
    rw [refs_eq_index (c := commands.cleanup), index_handle rfl rfl, update_self, refsOf_apply rfl]
    · decide
    · decide

end QuadStor.PgdataSync
