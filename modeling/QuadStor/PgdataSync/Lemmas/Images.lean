import QuadStor.PgdataSync.Lemmas.Steps

/-!
# Images of maps and indexes
-/

namespace QuadStor.PgdataSync

open Lib DDTable HaCleanup List Function
open Bint (Index)
open Fastlog (writeIdGreater writeIdGreater_of_lt)
open Replay (Amap)

variable {c : Config} {s : State} {k skip w : Nat} {call : Call} {key key' : Nat × Nat} {net : Net} {row : Row}
  {image a : Amap} {standby : HaCleanup.State}

theorem nodeAmapSyncRecv_of_taken
    (h : writeIdGreater ((standby.amaps key).map Amap.writeId |>.getD 0) image.writeId = false) :
    nodeAmapSyncRecv standby key image = standby.setAmap key image := by
  cases hmem : standby.amaps key with
  | none | some a => simp_all [nodeAmapSyncRecv]

theorem Core.recv (h : Core c s) (image : Amap) (hle : s.writeId key ≤ image.writeId)
    (htaken : writeIdGreater ((s.standby.amaps key).map Amap.writeId |>.getD 0) image.writeId = false) : Core c { s with
      writeId := update s.writeId key image.writeId
      standby := nodeAmapSyncRecv s.standby key image } := by
  rw [nodeAmapSyncRecv_of_taken htaken]
  have hids : s.writeId ≤ update s.writeId key image.writeId := le_update_self_iff.2 hle
  refine h.env { Env.refl (c := c) with writeId := hids, newer := ?_ } rfl
  rintro key' w ⟨hw, id, error, htag, hgreater⟩
  refine ⟨hw.trans_le (hids key'), ?_⟩
  rw [HaCleanup.State.amapTag, amapView_setAmap]
  by_cases hkey : key' = key
  · subst hkey
    rw [update_self]
    exact ⟨image.writeId, image.error, rfl, writeIdGreater_of_lt (hw.trans_le hle)⟩
  · rw [update_of_ne hkey]
    exact ⟨id, error, htag, hgreater⟩

theorem Core.dropAmap (h : Core c s) (hmem : s.standby.amaps key = some a) (hv2 : c.cleanup.v2Tdisk key.1 = true) :
    Core c { s with standby := { s.standby with
      amaps := update s.standby.amaps key none
      amapDisk := update s.standby.amapDisk key (some a) } } := by
  refine h.env { Env.refl (c := c) with newer := ?_ } rfl
  rintro key' w ⟨hw, id, error, htag, hgreater⟩
  refine ⟨hw, id, error, ?_, hgreater⟩
  by_cases hkey : key' = key
  · subst hkey
    simpa [HaCleanup.State.amapTag, HaCleanup.State.amapView, HaCleanup.Config.amapLoad, hv2, hmem] using htag
  · simpa [HaCleanup.State.amapTag, HaCleanup.State.amapView, update_of_ne hkey] using htag

theorem Core.endWrites (h : Core c s) (hk : s.calls k = some call) (hsent : call.phase.sent = true) :
    Core c (s.endWrites k call key) := by
  refine h.setCall hk { Same.refl with } { h.calls k call hk with fresh := fun hnone => ?_ }
  cases hsent.symm.trans hnone

theorem doneIo_mark : (call.mark key).doneIo key' = true ↔ call.doneIo key' = true ∨ key' = key ∧ call.ended key = true := by
  unfold Call.mark
  split
  · rename_i hended
    by_cases hkey : key' = key
    · simp [hkey, hended]
    · simp [hkey]
  · rename_i hended
    simp [hended]

theorem mark_eq : call.mark key = { call with doneIo := (call.mark key).doneIo } := by
  unfold Call.mark
  split <;> rfl

theorem CallOk.mark {n : Nat} (h : CallOk c s n call)
    (hnew : s.syncError = false → ∀ w, call.HasUpdate key w → s.Newer c key w) : CallOk c s n (call.mark key) := by
  rw [mark_eq]
  refine { h with fresh := ?_, doneIo := ?_, seen := ?_ }
  · intro hsent key'
    obtain ⟨hended, hdone⟩ := h.fresh hsent key'
    refine ⟨hended, Bool.eq_false_iff.mpr fun hmark => ?_⟩
    rcases doneIo_mark.1 hmark with hold | ⟨-, hended'⟩
    · cases hdone.symm.trans hold
    · cases (h.fresh hsent key).1.symm.trans hended'
  · intro hunlocked key' hkey'
    exact doneIo_mark.2 (.inl (h.doneIo hunlocked key' hkey'))
  · intro herror key' w hupdate hmark
    rcases doneIo_mark.1 hmark with hold | ⟨rfl, -⟩
    · exact h.seen herror key' w hupdate hold
    · exact hnew herror w hupdate

theorem same_mark : Same call (call.mark key) := by
  rw [mark_eq]
  exact { Same.refl with }

theorem Core.mark (h : Core c s) (hnew : s.syncError = false → ∀ n call, s.calls n = some call →
      ∀ w, call.HasUpdate key w → s.Newer c key w) :
    Core c { s with calls := fun j => (s.calls j).map (Call.mark key) } := by
  refine h.step (fun _ => Call.mark key) (fun _ => rfl) (fun _ _ _ => same_mark) { Env.refl with } ?_
  intro n call hn
  exact { (h.calls n call hn).mark fun herror => hnew herror n call hn with }

theorem Core.id_lt {id n : Nat} (h : Core c s) (htaken : s.Taken key id net) (hn : s.calls n = some call)
    (hupdate : call.HasUpdate key w) : w < id := by
  rcases htaken.le.lt_or_eq with hlt | heq
  · exact ((h.calls n call hn).ids key w hupdate).trans_lt hlt
  · exact htaken.again heq.symm n call w hn hupdate

theorem Core.amapIo {id : Nat} (h : Core c s) (htaken : s.Taken key id net) : Core c (s.amapIo k key id net) := by
  have hwritten : ∀ {s : State}, Core c s → s.writeId key ≤ id → s.syncError = true → Core c { s with
      writeId := update s.writeId key id
      calls := fun j => (s.calls j).map (Call.mark key) } := by
    intro s h hle herror
    have hids : s.writeId ≤ update s.writeId key id := le_update_self_iff.2 hle
    have hcore : Core c { s with writeId := update s.writeId key id } :=
      h.env { Env.refl with writeId := hids, newer := And.imp_left fun hw => hw.trans_le (hids _) } rfl
    exact hcore.mark fun hnone => nomatch hnone.symm.trans herror
  unfold State.amapIo
  split
  · rename_i herror
    exact hwritten h htaken.le herror
  · rename_i herror
    refine Core.send (fun hdelivered => ?_) (hwritten h.error htaken.le rfl)
    have hrecv := htaken.taken (Bool.eq_false_iff.mpr herror) hdelivered
    refine (h.recv ⟨id, false, fun lba => s.entry key.1 lba⟩ htaken.le hrecv).mark fun _ n call hn w hupdate => ?_
    have hlt := h.id_lt htaken hn hupdate
    refine ⟨by simpa using hlt, id, false, ?_, writeIdGreater_of_lt hlt⟩
    rw [nodeAmapSyncRecv_of_taken hrecv, HaCleanup.State.amapTag, amapView_setAmap, update_self]
    rfl

theorem State.Taken.setCall {id : Nat} {ended doneIo : Nat × Nat → Bool} (h : s.Taken key id net)
    (hk : s.calls k = some call) : (s.setCall k { call with ended, doneIo }).Taken key id net := by
  refine ⟨h.le, h.taken, fun heq n other w hn => ?_⟩
  by_cases hnk : n = k
  · subst hnk
    cases (update_self _ _ _).symm.trans hn
    exact h.again heq n call w hk
  · exact h.again heq n other w ((update_of_ne hnk _ _).symm.trans hn)

theorem Core.amapEndWrites (h : Core c s) (hk : s.calls k = some call) (hsent : call.phase.sent = true)
    (hallowed : Allowed c s (.amapEndWrites k key skip net)) : Core c (s.amapEndWrites c k call key skip net) := by
  have hended : Core c (s.endWrites k call key) := h.endWrites hk hsent
  unfold State.amapEndWrites
  dsimp only
  split
  · exact hended
  · rename_i hlast
    exact hended.amapIo ((hallowed call hk (Bool.eq_false_iff.mpr hlast)).setCall hk)

theorem block_eq_of_nowrites {i : Nat} {spec : WriteSpec} (hnone : call.nowrites key = true)
    (hspec : call.specs[i]? = some spec) (hkey : (call.targetId, amapId (call.lba + i)) = key) :
    spec.amapBlock = spec.oldAmapBlock := by
  have hmem := mk_mem_zipIdx_iff_getElem?.mpr hspec
  simp only [Call.nowrites, Call.updates, Bool.and_eq_true, List.isEmpty_iff, filter_eq_nil_iff] at hnone
  have hout := hnone.2 _ hmem
  simp only [hkey, beq_self_eq_true, Bool.or_eq_true, true_and, not_or, Option.not_isSome_iff_eq_none] at hout
  rw [hout.1, hout.2]

theorem Core.amapEndWritesNoio (h : Core c s) (hk : s.calls k = some call) (hphase : call.phase = .started)
    (hnone : call.nowrites key = true) (hallowed : Allowed c s (.amapEndWritesNoio k key skip net)) :
    Core c (s.amapEndWritesNoio c k call key skip net) := by
  have hcall := h.calls k call hk
  have hended : Core c (s.setCall k { call with
      ended := update call.ended key true, doneIo := update call.doneIo key true }) := by
    refine h.setCall hk { Same.refl with } { hcall with fresh := ?_, doneIo := ?_, seen := ?_ }
    · rw [hphase]
      nofun
    · rw [hphase]
      nofun
    · intro herror key' w hupdate hdone
      by_cases hkey : key' = key
      · obtain ⟨i, spec, hspec, hne, hkey', -⟩ := hupdate
        exact absurd (block_eq_of_nowrites hnone hspec (hkey'.symm.trans hkey)) hne
      · exact hcall.seen herror key' w hupdate (by simpa [update_of_ne hkey] using hdone)
  unfold State.amapEndWritesNoio
  dsimp only
  split
  · exact hended
  · exact hended.amapIo ((hallowed call hk).setCall hk)

theorem imageAt_le (h : s.ImageOk row) : s.imageAt row ≤ s.indexAt row := by
  unfold State.imageAt
  split
  · rename_i hsome
    obtain ⟨x, hx⟩ := Option.isSome_iff_exists.mp hsome
    exact (h.1 x hx).2
  · exact le_rfl

theorem Core.dropIndex (h : Core c s) (hv2 : c.cleanup.v2Disk row.1 = true) :
    Core c { s with standby := { s.standby with indexes := update s.standby.indexes row none } } := by
  refine h.env { Env.refl with rows := fun row' => ?_ } rfl
  by_cases hrow : row' = row
  · subst hrow
    intro hok
    have hle := imageAt_le hok
    simpa [State.ImageOk, State.imageAt, hv2] using ⟨hle, hok.2.2⟩
  · simpa [Advances, State.ImageOk, State.imageAt, update_of_ne hrow] using (Env.refl.rows row' : Advances c s s row')

theorem Core.written (h : Core c s) {image : Index} (hid : image.writeId = serialId (s.indexAt row + 1))
    (herror : s.syncError = true) : Core c { s with
      indexAt := update s.indexAt row (s.indexAt row + 1)
      standby := { s.standby with indexDisk := update s.standby.indexDisk row image } } := by
  refine h.env { Env.refl with rows := fun row' => ?_ } rfl
  by_cases hrow : row' = row
  · subst hrow
    rintro ⟨hmemory, -, -⟩
    have hat : s.indexAt row' ≤ s.indexAt row' + 1 := Nat.le_succ _
    refine ⟨?_, ?_, .inl, ⟨fun x hx => ?_, fun hnone => ?_, ?_⟩⟩
    · simp
    · unfold State.imageAt
      split <;> simp
    · obtain ⟨hx, hle⟩ := hmemory x hx
      exact ⟨hx, by simpa using hle.trans hat⟩
    · cases hnone.symm.trans herror
    · simp [hid]
  · simpa [Advances, State.ImageOk, State.imageAt, update_of_ne hrow] using (Env.refl.rows row' : Advances c s s row')

theorem Core.received (h : Core c s) {image : Index} (hid : image.writeId = serialId (s.indexAt row + 1)) :
    Core c { s with
      indexAt := update s.indexAt row (s.indexAt row + 1)
      memAt := update s.memAt row (s.indexAt row + 1)
      standby := { s.standby with
        indexes := update s.standby.indexes row (some image)
        indexDisk := update s.standby.indexDisk row image } } := by
  refine h.env { Env.refl with rows := fun row' => ?_ } rfl
  by_cases hrow : row' = row
  · subst hrow
    intro hok
    have hle := (imageAt_le hok).trans (Nat.le_succ _)
    simp only [State.imageAt] at hle
    simp [State.ImageOk, State.imageAt, hid, hle]
  · simpa [Advances, State.ImageOk, State.imageAt, update_of_ne hrow] using (Env.refl.rows row' : Advances c s s row')

theorem Core.subgroupWriteIo (h : Core c s) (hallowed : Allowed c s (.subgroupWriteIo k row net)) :
    Core c (s.subgroupWriteIo k row net) := by
  unfold State.subgroupWriteIo
  split
  · rename_i herror
    exact h.written rfl herror
  · rename_i herror
    refine Core.send (fun hdelivered => ?_) (h.error.written rfl rfl)
    have htaken := hallowed (Bool.eq_false_iff.mpr herror) hdelivered
    simp only [State.nodeBintindexSyncRecv, htaken, Bool.false_eq_true, if_false]
    exact h.received rfl

theorem Core.writeId_index (h : Core c s)
    (hindex : (s.standby.indexes row).isSome = true ∨ c.cleanup.v2Disk row.1 = true) :
    (s.standby.index c.cleanup row).writeId = serialId (s.imageAt row) := by
  unfold State.imageAt HaCleanup.State.index
  cases hmem : s.standby.indexes row with
  | some x => exact ((h.images row).1 x hmem).1
  | none =>
    have hv2 : c.cleanup.v2Disk row.1 = true := by simpa [hmem] using hindex
    simpa [HaCleanup.Config.indexLoad, hv2] using (h.images row).2.2

end QuadStor.PgdataSync
