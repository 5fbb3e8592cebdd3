import QuadStor.Fastlog.Lemmas.Serials
import QuadStor.HaCleanup.Lemmas.Handle
import QuadStor.PgdataSync.Basic

/-!
# What holds as long as the standby may take over
-/

namespace QuadStor.PgdataSync

open Lib DDTable HaCleanup
open Fastlog (writeIdGreater)

variable {c : Config} {s t : State} {k n : Nat} {call call' : Call} {r : Record} {l : List Record}

def Phase.sent : Phase → Bool
  | .scanned | .updated => false
  | _ => true

def Phase.finished : Phase → Bool
  | .clientDone => true
  | phase => phase.succeeded

def State.Newer (c : Config) (s : State) (key : Nat × Nat) (w : Nat) : Prop :=
  w < s.writeId key ∧ ∃ id error, s.standby.amapTag c.cleanup key = some (id, error) ∧ writeIdGreater id w = true

/-- After `node_ha_disable` there is no takeover. -/
def State.Good (s : State) (cmd : Nat) : Prop := s.haDisabled = false ∧ s.good cmd = true

structure CallOk (c : Config) (s : State) (n : Nat) (call : Call) : Prop where
  bound : n < s.next
  length : call.phase ≠ .scanned → call.specs.length = call.blocks.length
  ids : ∀ key w, call.HasUpdate key w → w ≤ s.writeId key
  fresh : call.phase.sent = false → ∀ key, call.ended key = false ∧ call.doneIo key = false
  doneIo : call.phase.unlocked = true → ∀ key ∈ call.keys, call.doneIo key = true
  transaction : call.phase.sent = true → call.transaction = false → s.syncError = true
  done : s.syncError = false → (c.kind call.cmd).sendstatus = true → call.phase.finished = true →
    ∀ r ∈ s.hash, r.txn = n → r.msg.msgCmd = .pgdataSyncClientDone
  good : s.Good call.cmd → call.phase.finished = true ∧
    ∀ r ∈ s.hash, r.txn = n → r.msg.msgCmd = .pgdataSyncClientDone
  seen : s.syncError = false → ∀ key w, call.HasUpdate key w → call.doneIo key = true → s.Newer c key w
  older : s.syncError = false ∨ s.Good call.cmd → ∀ r ∈ s.hash, r.txn < n → ∀ i spec,
    r.msg.specs[i]? = some spec → spec.amapBlock ≠ spec.oldAmapBlock → call.Has r.msg.targetId (r.msg.lba + i) →
    r.msg.msgCmd = .pgdataSyncClientDone ∧ s.Newer c (r.msg.targetId, amapId (r.msg.lba + i)) spec.amapWriteId
  taken : ∀ (i : Nat) (b : Block), call.blocks[i]? = some (some b) → call.taken i ≤ s.indexAt b.row
  specs : ∀ i spec, call.specs[i]? = some spec → spec.indexWriteId = call.indexWriteId i ∧
    ∀ b, spec.amapBlock = some b → call.blocks[i]? = some (some b)
  released : call.phase.failing = false → ∀ i, call.released i = none

/-- The clean-up finds the index of each page with the reference, or goes by the index write id. -/
def Seen (c : Config) (s : State) (call : Call) : Prop :=
  ∀ (i : Nat) (b : Block), call.blocks[i]? = some (some b) →
    ((s.standby.indexes b.row).isSome = true ∨ c.cleanup.v2Disk b.row.1 = true) ∧ call.taken i ≤ s.imageAt b.row ∧
    (call.origin i = .byRef → call.taken i < s.imageAt b.row)

def RecordOk (c : Config) (s : State) (r : Record) : Prop :=
  ∃ call, s.calls r.txn = some call ∧ call.phase.sent = true ∧ r.msg.targetId = call.targetId ∧
    r.msg.lba = call.lba ∧ r.msg.specs = call.specs ∧ (r.msg.msgCmd = .pgdataSyncStart → Seen c s call)

def Call.overlaps (call call' : Call) : Bool :=
  PgdataSync.overlaps call.targetId call.lba call.blocks.length call'.targetId call'.lba call'.blocks.length

def State.ImageOk (s : State) (row : Row) : Prop :=
  (∀ x, s.standby.indexes row = some x → x.writeId = serialId (s.memAt row) ∧ s.memAt row ≤ s.indexAt row) ∧
  (s.syncError = false → s.imageAt row = s.indexAt row) ∧
  (s.standby.indexDisk row).writeId = serialId (s.indexAt row)

structure Core (c : Config) (s : State) : Prop where
  calls : ∀ n call, s.calls n = some call → CallOk c s n call
  lock : ∀ k m call call', k < m → s.calls k = some call → s.calls m = some call' → call.phase.unlocked = false →
    call.overlaps call' = false
  single : ∀ k m call call', s.calls k = some call → s.calls m = some call' → call.cmd = call'.cmd →
    (c.kind call.cmd).sendstatus = true → k = m
  records : ∀ r ∈ s.hash, RecordOk c s r
  nodup : (s.hash.map Record.txn).Nodup
  images : ∀ row, s.ImageOk row

structure HashEnv (l l' : List Record) : Prop where
  mem : ∀ r' ∈ l', ∃ r ∈ l, r' = r ∨ r' = { r with msg := { r.msg with msgCmd := .pgdataSyncClientDone } }
  nodup : (l.map Record.txn).Nodup → (l'.map Record.txn).Nodup

theorem HashEnv.of_sublist {l' : List Record} (h : l'.Sublist l) : HashEnv l l' :=
  ⟨fun r hr => ⟨r, h.subset hr, .inl rfl⟩, (h.map _).nodup⟩

theorem HashEnv.refl : HashEnv l l := .of_sublist (List.Sublist.refl l)

theorem HashEnv.done {l' : List Record} (h : HashEnv l l')
    (hdone : ∀ r ∈ l, r.txn = n → r.msg.msgCmd = .pgdataSyncClientDone) :
    ∀ r ∈ l', r.txn = n → r.msg.msgCmd = .pgdataSyncClientDone := by
  intro r' hr' htxn
  obtain ⟨r, hr, rfl | rfl⟩ := h.mem r' hr'
  · exact hdone r' hr htxn
  · rfl

/-- The standby's image of the index only gets newer, and an index that it drops is on a disk it can read. -/
def Advances (c : Config) (s t : State) (row : Row) : Prop :=
  s.ImageOk row → s.indexAt row ≤ t.indexAt row ∧ s.imageAt row ≤ t.imageAt row ∧
    ((s.standby.indexes row).isSome = true →
      (t.standby.indexes row).isSome = true ∨ c.cleanup.v2Disk row.1 = true) ∧ t.ImageOk row

structure Env (c : Config) (s t : State) : Prop where
  next : s.next ≤ t.next
  writeId : ∀ key, s.writeId key ≤ t.writeId key
  error : t.syncError = false → s.syncError = false
  good : ∀ cmd, t.Good cmd → s.Good cmd
  hash : HashEnv s.hash t.hash
  newer : ∀ {key w}, s.Newer c key w → t.Newer c key w
  rows : ∀ row, Advances c s t row

theorem Env.refl : Env c s s :=
  ⟨le_rfl, fun _ => le_rfl, id, fun _ => id, .refl, id, fun _ h => ⟨le_rfl, le_rfl, .inl, h⟩⟩

theorem CallOk.env (h : CallOk c s n call) (hcore : Core c s) (henv : Env c s t) : CallOk c t n call where
  bound := h.bound.trans_le henv.next
  length := h.length
  ids key w hupdate := (h.ids key w hupdate).trans (henv.writeId key)
  fresh := h.fresh
  doneIo := h.doneIo
  transaction hsent hnone := by
    cases herror : t.syncError with
    | true => rfl
    | false => rw [← henv.error herror, h.transaction hsent hnone]
  done herror hstatus hfinished := henv.hash.done (h.done (henv.error herror) hstatus hfinished)
  good hgood := (h.good (henv.good _ hgood)).imp_right henv.hash.done
  seen herror key w hupdate hdone := henv.newer (h.seen (henv.error herror) key w hupdate hdone)
  older hcond r' hr' hlt i spec hspec hne hhas := by
    have hold := h.older (hcond.imp henv.error (henv.good _))
    obtain ⟨r, hr, rfl | rfl⟩ := henv.hash.mem r' hr'
    · exact (hold r' hr hlt i spec hspec hne hhas).imp_right henv.newer
    · exact ⟨rfl, henv.newer (hold r hr hlt i spec hspec hne hhas).2⟩
  taken i b hb := (h.taken i b hb).trans (henv.rows _ (hcore.images _)).1
  specs := h.specs
  released := h.released

structure Same (call call' : Call) : Prop where
  cmd : call'.cmd = call.cmd
  targetId : call'.targetId = call.targetId
  lba : call'.lba = call.lba
  blocks : call'.blocks = call.blocks
  origin : call'.origin = call.origin
  taken : call'.taken = call.taken
  locked : call'.phase.unlocked = false → call.phase.unlocked = false
  sent : call.phase.sent = true → call'.phase.sent = true ∧ call'.specs = call.specs

theorem Same.refl : Same call call := ⟨rfl, rfl, rfl, rfl, rfl, rfl, id, fun h => ⟨h, rfl⟩⟩

theorem Seen.env (h : Seen c s call) (hcore : Core c s) (henv : Env c s t) (hsame : Same call call') :
    Seen c t call' := by
  intro i b hb
  rw [hsame.blocks] at hb
  rw [hsame.taken, hsame.origin]
  obtain ⟨hindex, htaken, hbyRef⟩ := h i b hb
  obtain ⟨-, himage, hkept, -⟩ := henv.rows b.row (hcore.images _)
  exact ⟨hindex.elim hkept .inr, htaken.trans himage, fun href => (hbyRef href).trans_le himage⟩

theorem Core.step (h : Core c s) (f : Nat → Call → Call) (hcalls : ∀ n, t.calls n = (s.calls n).map (f n))
    (hsame : ∀ n call, s.calls n = some call → Same call (f n call)) (henv : Env c s t)
    (hcall : ∀ n call, s.calls n = some call → CallOk c t n (f n call)) : Core c t where
  calls n call' hn := by
    rw [hcalls] at hn
    obtain ⟨call, hcalln, rfl⟩ := Option.map_eq_some_iff.mp hn
    exact hcall n call hcalln
  lock k m call₁ call₂ hlt hk hm hlocked := by
    rw [hcalls] at hk hm
    obtain ⟨a, ha, rfl⟩ := Option.map_eq_some_iff.mp hk
    obtain ⟨b, hb, rfl⟩ := Option.map_eq_some_iff.mp hm
    have hsa := hsame k a ha
    have hsb := hsame m b hb
    rw [Call.overlaps, hsa.targetId, hsa.lba, hsa.blocks, hsb.targetId, hsb.lba, hsb.blocks]
    exact h.lock k m a b hlt ha hb (hsa.locked hlocked)
  single k m call₁ call₂ hk hm hcmd hstatus := by
    rw [hcalls] at hk hm
    obtain ⟨a, ha, rfl⟩ := Option.map_eq_some_iff.mp hk
    obtain ⟨b, hb, rfl⟩ := Option.map_eq_some_iff.mp hm
    rw [(hsame k a ha).cmd] at hcmd hstatus
    rw [(hsame m b hb).cmd] at hcmd
    exact h.single k m a b ha hb hcmd hstatus
  records r' hr' := by
    have hold : ∀ r ∈ s.hash, RecordOk c t r := by
      intro r hr
      obtain ⟨call, hcalln, hsent, htarget, hlba, hspecs, hseen⟩ := h.records r hr
      have hs := hsame r.txn call hcalln
      refine ⟨f r.txn call, by rw [hcalls, hcalln]; rfl, (hs.sent hsent).1, ?_, ?_, ?_, ?_⟩
      · rw [htarget, hs.targetId]
      · rw [hlba, hs.lba]
      · rw [hspecs, (hs.sent hsent).2]
      · exact fun hstart => (hseen hstart).env h henv hs
    obtain ⟨r, hr, rfl | rfl⟩ := henv.hash.mem r' hr'
    · exact hold r' hr
    · obtain ⟨call, hcalln, hsent, htarget, hlba, hspecs, -⟩ := hold r hr
      exact ⟨call, hcalln, hsent, htarget, hlba, hspecs, nofun⟩
  nodup := henv.hash.nodup h.nodup
  images row := (henv.rows row (h.images row)).2.2.2

theorem Core.env (h : Core c s) (henv : Env c s t) (hcalls : t.calls = s.calls) : Core c t :=
  h.step (fun _ call => call) (fun n => by rw [hcalls, Option.map_id']) (fun _ _ _ => Same.refl) henv
    fun n call hn => (h.calls n call hn).env h henv

theorem Core.setCall (h : Core c s) (hk : s.calls k = some call) (hsame : Same call call')
    (hself : CallOk c (s.setCall k call') k call') : Core c (s.setCall k call') := by
  have henv : Env c s (s.setCall k call') := { Env.refl with }
  apply h.step fun n other => if n = k then call' else other
  · intro n
    by_cases hnk : n = k
    · subst hnk
      simp [State.setCall, hk]
    · simp [State.setCall, hnk]
  · intro n other hn
    by_cases hnk : n = k
    · subst hnk
      cases hk.symm.trans hn
      simpa using hsame
    · simpa [hnk] using Same.refl
  · exact henv
  · intro n other hn
    by_cases hnk : n = k
    · simpa [hnk] using hself
    · simpa [hnk] using (h.calls n other hn).env h henv

theorem Core.error (h : Core c s) : Core c { s with syncError := true } :=
  h.env { Env.refl with error := nofun, rows := fun _ h => ⟨le_rfl, le_rfl, .inl, h.1, nofun, h.2.2⟩ } rfl

theorem Core.disable (h : Core c { s with syncError := true }) : Core c (s.disable k) := by
  cases hk : s.calls k with
  | none =>
    have heq : s.disable k = { s with syncError := true } := by simp [State.disable, hk]
    rw [heq]
    exact h
  | some call =>
    have heq : s.disable k = State.setCall { s with syncError := true } k { call with disabling := true } := by
      simp [State.disable, State.setCall, hk]
    rw [heq]
    exact h.setCall hk { Same.refl with } { h.calls k call hk with }

theorem Core.send {net : Net} {receive : State → State} (hrecv : net.delivered = true → Core c (receive s))
    (hlost : Core c { s with syncError := true }) : Core c (s.send k net receive) := by
  cases net with
  | ok => exact hrecv rfl
  | lost => exact hlost.disable
  | noReply => exact (hrecv rfl).error.disable

end QuadStor.PgdataSync
