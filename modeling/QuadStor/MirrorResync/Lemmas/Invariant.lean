import Mathlib.Tactic.SplitIfs
import QuadStor.MirrorResync.Basic

/-!
# What the thread has left to do
-/

namespace QuadStor.MirrorResync

open Lib Function

variable {cfg : Config} {s t : State cfg} {k : Fin cfg.threads} {w v : Write} {n page j : Nat} {pc : Pc}
  {o : Option Write}

def Pc.Past (n : Nat) : Pc → Prop
  | .table t => tableId n < t
  | .amap m _ => n < m
  | .batch m => n ≤ m
  | .endTable t => tableId n ≤ t
  | .finish => True

def Pc.InRange (cfg : Config) : Pc → Prop
  | .table t => t < cfg.tableMax
  | .amap m _ | .batch m => m < cfg.amapMax
  | .endTable t => t < cfg.tableMax
  | .finish => True

def Pc.Quiet : Pc → Prop
  | .table _ | .finish => True
  | _ => False

def State.Touched (s : State cfg) (n : Nat) : Prop :=
  (∃ page, s.unsent page = true ∧ amapId page = n) ∨ ∃ w, s.Silent w ∧ w.checked n = true

structure WriteOk (cfg : Config) (w : Write) : Prop where
  le : w.first ≤ w.last
  lt : amapId w.last < cfg.amapMax
  undecided : w.forward = none → ∀ n, w.checked n = false

structure Wf (s : State cfg) : Prop where
  ready : ∀ n, s.Touched n → s.Ready n
  unsentLt : ∀ page, s.unsent page = true → amapId page < cfg.amapMax
  writeOk : ∀ k w, s.writer k = some w → WriteOk cfg w
  table : ∀ n, s.amap n = true → s.table (tableId n) = true
  invalid : ∀ t, s.bmapInvalid t = true → s.groupBit t = true
  locked : ∀ n, s.worker n = .locked → s.FreeMap n
  workerLt : ∀ n, s.worker n ≠ .idle → n < cfg.amapMax
  workers : s.inSync = false → ∀ n, s.worker n = .idle
  needResync : s.phase ≠ .completed → s.needResync = true
  inRange : ∀ pc, s.phase = .running pc → pc.InRange cfg

structure Running (s : State cfg) (pc : Pc) : Prop where
  silent : ∀ w, s.Silent w → ∀ n, w.Covers n → pc.Past n → s.worker n = .queued
  unsent : ∀ page, s.unsent page = true → pc.Past (amapId page) → s.worker (amapId page) ≠ .idle
  progress : ∀ n < cfg.amapMax, pc.Past n → s.worker n ≠ .queued → n ≤ s.cloneAmapId ∨ s.skipped (tableId n) = true
  quiet : pc.Quiet → ∀ n, s.worker n = .idle

structure Completed (s : State cfg) : Prop where
  unsent : ∀ page, s.unsent page = false
  silent : ∀ w, ¬s.Silent w
  needResync : s.needResync = false

def PhaseOk (s : State cfg) : Prop :=
  match s.phase with
  | .idle => True
  | .running pc => s.mirrorError = false → Running s pc
  | .completed => Completed s

structure Inv (s : State cfg) : Prop where
  wf : Wf s
  phaseOk : PhaseOk s

theorem State.Ready.not_skipsTable (h : s.Ready n) : s.skipsTable (tableId n) = false := by
  obtain ⟨-, htable, hbits⟩ := h
  cases hvalid : s.bitmapValid with
  | false => simp [State.skipsTable, hvalid, htable]
  | true => simp [State.skipsTable, htable, (hbits hvalid).1]

theorem State.Ready.not_skipsAmap (h : s.Ready n) : s.skipsAmap n = false := by
  obtain ⟨hamap, -, hbits⟩ := h
  cases hvalid : s.bitmapValid with
  | false => simp [State.skipsAmap, hvalid, hamap]
  | true =>
    obtain ⟨-, hinvalid | hbit⟩ := hbits hvalid
    · simp [State.skipsAmap, hinvalid, hamap]
    · simp [State.skipsAmap, hbit, hamap]

structure Grows (s t : State cfg) : Prop where
  amap : ∀ n, s.amap n = true → t.amap n = true
  table : ∀ k, s.table k = true → t.table k = true
  valid : t.bitmapValid = s.bitmapValid
  groupBit : ∀ k, s.groupBit k = true → t.groupBit k = true
  writeBit : ∀ n, s.writeBit n = true → t.writeBit n = true
  invalid : ∀ k, s.table k = true → t.bmapInvalid k = s.bmapInvalid k

theorem State.Ready.grows (h : s.Ready n) (hg : Grows s t) : t.Ready n := by
  refine ⟨hg.amap n h.1, hg.table _ h.2.1, fun hvalid => ?_⟩
  obtain ⟨hgroup, hbit⟩ := h.2.2 (hg.valid ▸ hvalid)
  refine ⟨hg.groupBit _ hgroup, ?_⟩
  rw [hg.invalid _ h.2.1]
  exact hbit.imp_right (hg.writeBit n)

theorem update_true {f : Nat → Bool} {i : Nat} (h : f i = true) : update f j true i = true := by
  by_cases hij : i = j
  · simp [hij]
  · simpa [update_of_ne hij] using h

theorem ready_amapWriteBmapCheck (h : Wf s) (hneed : s.needResync = true) (hamap : s.amap n = true) :
    (s.amapWriteBmapCheck n).Ready n := by
  unfold State.amapWriteBmapCheck State.needsWriteBmap
  split_ifs with hif
  · exact ⟨hamap, h.table n hamap, fun _ => ⟨by simp, .inr (by simp)⟩⟩
  · refine ⟨hamap, h.table n hamap, fun hvalid => ?_⟩
    have hinvalid : s.bmapInvalid (tableId n) = true := by simpa [hneed, hvalid] using hif
    exact ⟨h.invalid _ hinvalid, .inl hinvalid⟩

structure Frame (s t : State cfg) : Prop where
  worker : t.worker = s.worker
  phase : t.phase = s.phase
  cloneAmapId : t.cloneAmapId = s.cloneAmapId
  skipped : t.skipped = s.skipped
  needResync : t.needResync = s.needResync
  mirrorError : t.mirrorError = s.mirrorError

theorem needResync_amapWriteBmapCheck : (s.amapWriteBmapCheck n).needResync = s.needResync := by
  unfold State.amapWriteBmapCheck
  split_ifs <;> rfl

theorem writer_amapWriteBmapCheck : (s.amapWriteBmapCheck n).writer = s.writer := by
  unfold State.amapWriteBmapCheck
  split_ifs <;> rfl

structure Fits (s : State cfg) : Prop where
  table : ∀ n, s.amap n = true → s.table (tableId n) = true
  invalid : ∀ t, s.bmapInvalid t = true → s.groupBit t = true

theorem Inv.write (h : Inv s) (hf : Frame s t) (hfits : Fits t) (hready : ∀ n, t.Touched n → t.Ready n)
    (hunsentLt : ∀ page, t.unsent page = true → amapId page < cfg.amapMax)
    (hwriteOk : ∀ k w, t.writer k = some w → WriteOk cfg w) (hlocked : ∀ n, s.worker n = .locked → t.FreeMap n)
    (hsilent : ∀ pc, s.phase = .running pc → Running s pc → ∀ w, t.Silent w → ∀ n, w.Covers n → pc.Past n →
      s.worker n = .queued) (hunsent : ∀ pc, Running s pc → ∀ page, t.unsent page = true → pc.Past (amapId page) →
      s.worker (amapId page) ≠ .idle)
    (hcompleted : Completed s → (∀ page, t.unsent page = false) ∧ ∀ w, ¬t.Silent w) : Inv t := by
  refine ⟨⟨hready, hunsentLt, hwriteOk, hfits.table, hfits.invalid, ?_, ?_, ?_, ?_, ?_⟩, ?_⟩
  · rw [hf.worker]
    exact hlocked
  · rw [hf.worker]
    exact h.wf.workerLt
  · intro hsync
    rw [hf.worker]
    exact h.wf.workers (by simpa only [State.inSync, hf.phase] using hsync)
  · rw [hf.phase, hf.needResync]
    exact h.wf.needResync
  · rw [hf.phase]
    exact h.wf.inRange
  · have hok := h.phaseOk
    unfold PhaseOk at hok ⊢
    rw [hf.phase, hf.mirrorError]
    cases hphase : s.phase with
    | idle => trivial
    | running pc =>
      simp only [hphase] at hok ⊢
      intro herror
      have hrun := hok herror
      refine ⟨?_, ?_, ?_, ?_⟩
      · rw [hf.worker]
        exact hsilent pc hphase hrun
      · rw [hf.worker]
        exact hunsent pc hrun
      · rw [hf.worker, hf.cloneAmapId, hf.skipped]
        exact hrun.progress
      · rw [hf.worker]
        exact hrun.quiet
    | completed =>
      simp only [hphase] at hok ⊢
      exact ⟨(hcompleted hok).1, (hcompleted hok).2, hf.needResync.trans hok.needResync⟩

theorem Inv.grow (h : Inv s) (hf : Frame s t) (hg : Grows s t) (hfits : Fits t) (hwriter : t.writer = s.writer)
    (hunsent : t.unsent = s.unsent) : Inv t := by
  have hsilent : ∀ w, t.Silent w ↔ s.Silent w := fun w => by simp only [State.Silent, hwriter]
  refine h.write hf hfits (fun n hn => ?_) (hunsent ▸ h.wf.unsentLt) (hwriter ▸ h.wf.writeOk) (fun n hn => ?_)
    (fun pc _ hrun w hw => hrun.silent w ((hsilent w).mp hw)) (fun pc hrun => hunsent ▸ hrun.unsent)
    fun hc => ⟨hunsent ▸ hc.unsent, fun w hw => hc.silent w ((hsilent w).mp hw)⟩
  · refine (h.wf.ready n ?_).grows hg
    simpa only [State.Touched, hunsent, hsilent] using hn
  · simpa only [State.FreeMap, hwriter] using h.wf.locked n hn

theorem Inv.amapWriteBmapCheck (h : Inv s) : Inv (s.amapWriteBmapCheck n) := by
  unfold State.amapWriteBmapCheck
  split_ifs
  · exact h.grow ⟨rfl, rfl, rfl, rfl, rfl, rfl⟩
      ⟨fun _ hn => hn, fun _ hk => hk, rfl, fun _ => update_true, fun _ => update_true, fun _ _ => rfl⟩
      ⟨h.wf.table, fun k hk => update_true (h.wf.invalid k hk)⟩ rfl rfl
  · exact h

theorem Inv.newTable (h : Inv s) (hnew : s.table j = false) : Inv ({ s with
      table := update s.table j true
      bmapInvalid := update s.bmapInvalid j false }.amapTableWriteBmapCheck j) := by
  have hinvalid : ∀ k, s.table k = true → update s.bmapInvalid j false k = s.bmapInvalid k := fun k hk =>
    update_of_ne (by rintro rfl; simp [hnew] at hk) _ _
  have hbit : ∀ k, update s.bmapInvalid j false k = true → s.groupBit k = true := fun k hk => by
    by_cases hkj : k = j
    · simp [hkj] at hk
    · exact h.wf.invalid k (by simpa [update_of_ne hkj] using hk)
  have htable : ∀ n, s.amap n = true → update s.table j true (tableId n) = true := fun n hn =>
    update_true (h.wf.table n hn)
  unfold State.amapTableWriteBmapCheck
  split_ifs
  · exact h.grow ⟨rfl, rfl, rfl, rfl, rfl, rfl⟩
      ⟨fun _ hn => hn, fun _ => update_true, rfl, fun _ => update_true, fun _ hn => hn, hinvalid⟩
      ⟨htable, fun k hk => update_true (hbit k hk)⟩ rfl rfl
  · exact h.grow ⟨rfl, rfl, rfl, rfl, rfl, rfl⟩
      ⟨fun _ hn => hn, fun _ => update_true, rfl, fun _ hk => hk, fun _ hn => hn, hinvalid⟩
      ⟨htable, hbit⟩ rfl rfl

theorem Inv.create (h : Inv s) (htable : s.table (tableId n) = true) :
    Inv ({ s with amap := update s.amap n true }.amapWriteBmapCheck n) := by
  have hnew : Inv { s with amap := update s.amap n true } := by
    refine h.grow ⟨rfl, rfl, rfl, rfl, rfl, rfl⟩
      ⟨fun _ => update_true, fun _ hk => hk, rfl, fun _ hk => hk, fun _ hn => hn, fun _ _ => rfl⟩
      ⟨fun m hm => ?_, h.wf.invalid⟩ rfl rfl
    by_cases hmn : m = n
    · exact hmn ▸ htable
    · exact h.wf.table m (by simpa [update_of_ne hmn] using hm)
  exact hnew.amapWriteBmapCheck

theorem Inv.reload (h : Inv s) : Inv { s with
      writeBit := fun n => if tableId n = j then false else s.writeBit n
      bmapInvalid := update s.bmapInvalid j (s.groupBit j) } := by
  refine h.write ⟨rfl, rfl, rfl, rfl, rfl, rfl⟩ ⟨h.wf.table, fun k hk => ?_⟩ (fun n hn => ?_) h.wf.unsentLt
    h.wf.writeOk h.wf.locked (fun pc _ hrun => hrun.silent) (fun pc hrun => hrun.unsent)
    fun hc => ⟨hc.unsent, hc.silent⟩
  · by_cases hkj : k = j
    · simpa [hkj] using hk
    · exact h.wf.invalid k (by simpa [update_of_ne hkj] using hk)
  · obtain ⟨hamap, htable, hbits⟩ := h.wf.ready n hn
    refine ⟨hamap, htable, fun hvalid => ?_⟩
    obtain ⟨hgroup, hbit⟩ := hbits hvalid
    refine ⟨hgroup, ?_⟩
    by_cases hj : tableId n = j
    · exact .inl (by simpa [hj] using hj ▸ hgroup)
    · simpa [hj, update_of_ne hj] using hbit

theorem writer_setWriter {j : Fin cfg.threads} (h : (s.setWriter k o).writer j = some v) :
    o = some v ∨ s.writer j = some v := by
  by_cases hj : j = k
  · exact .inl (by simpa [State.setWriter, hj] using h)
  · exact .inr (by simpa [State.setWriter, update_of_ne hj] using h)

theorem silent_setWriter (h : (s.setWriter k o).Silent v) : (o = some v ∧ v.forward = some false) ∨ s.Silent v := by
  obtain ⟨hforward, j, hj⟩ := h
  exact (writer_setWriter hj).imp (fun ho => ⟨ho, hforward⟩) fun hold => ⟨hforward, j, hold⟩

theorem frame_setWriter : Frame s (s.setWriter k o) := ⟨rfl, rfl, rfl, rfl, rfl, rfl⟩

theorem Inv.setWriter (h : Inv s) (hforward : ∀ v, o = some v → v.forward ≠ some false)
    (hok : ∀ v, o = some v → WriteOk cfg v)
    (hfree : ∀ v, o = some v → ∀ n, s.worker n = .locked → ¬v.Covers n) : Inv (s.setWriter k o) := by
  have hsilent : ∀ v, (s.setWriter k o).Silent v → s.Silent v := fun v hv =>
    (silent_setWriter hv).resolve_left fun hnew => hforward v hnew.1 hnew.2
  refine h.write frame_setWriter ⟨h.wf.table, h.wf.invalid⟩ (fun n hn => ?_) h.wf.unsentLt (fun j v hv => ?_)
    (fun n hn j v hv => ?_) (fun pc _ hrun v hv => hrun.silent v (hsilent v hv)) (fun pc hrun => hrun.unsent)
    fun hc => ⟨hc.unsent, fun v hv => hc.silent v (hsilent v hv)⟩
  · refine h.wf.ready n (hn.imp_right ?_)
    rintro ⟨v, hv, hchecked⟩
    exact ⟨v, hsilent v hv, hchecked⟩
  · obtain ho | hold := writer_setWriter hv
    · exact hok v ho
    · exact h.wf.writeOk j v hold
  · obtain ho | hold := writer_setWriter hv
    · exact hfree v ho n hn
    · exact h.wf.locked n hn j v hold

theorem Inv.begin {first last : Nat} (h : Inv s) (hle : first ≤ last) (hlt : amapId last < cfg.amapMax) (hfree : s.Free first last) :
    Inv (s.setWriter k (some ⟨first, last, none, fun _ => false⟩)) := by
  refine h.setWriter ?_ ?_ ?_
  · rintro v ⟨⟩
    simp
  · rintro v ⟨⟩
    exact ⟨hle, hlt, fun _ _ => rfl⟩
  · rintro v ⟨⟩ n hn hcovers
    have hout := hfree.2 n (h.wf.workerLt n (by simp [hn])) hn
    have hin : amapId first ≤ n ∧ n ≤ amapId last := hcovers
    omega

theorem Inv.done (h : Inv s) : Inv (s.setWriter k none) := h.setWriter nofun nofun nofun

theorem Inv.decide_forward (h : Inv s) (hw : s.writer k = some w) :
    Inv (s.setWriter k (some { w with forward := some true })) := by
  refine h.setWriter ?_ ?_ ?_
  · rintro v ⟨⟩
    simp
  · rintro v ⟨⟩
    exact ⟨(h.wf.writeOk k w hw).le, (h.wf.writeOk k w hw).lt, nofun⟩
  · rintro v ⟨⟩ n hn
    exact h.wf.locked n hn k w hw

theorem Inv.setWriter_silent (h : Inv s) (hw : s.writer k = some w) (hfirst : v.first = w.first)
    (hlast : v.last = w.last) (hforward : v.forward = some false) (hneed : s.needResync = true)
    (hready : ∀ n, v.checked n = true → s.Ready n)
    (hsilent : ∀ pc, s.phase = .running pc → Running s pc → ∀ n, w.Covers n → pc.Past n → s.worker n = .queued) :
    Inv (s.setWriter k (some v)) := by
  have hcovers : ∀ n, v.Covers n ↔ w.Covers n := fun n => by simp only [Write.Covers, hfirst, hlast]
  refine h.write frame_setWriter ⟨h.wf.table, h.wf.invalid⟩ (fun n hn => ?_) h.wf.unsentLt (fun j u hu => ?_)
    (fun n hn j u hu => ?_) (fun pc hphase hrun u hu n hn hpast => ?_) (fun pc hrun => hrun.unsent) fun hc => ?_
  · obtain hunsent | ⟨u, hu, hchecked⟩ := hn
    · exact h.wf.ready n (.inl hunsent)
    · obtain ⟨ho, -⟩ | hold := silent_setWriter hu
      · cases ho
        exact hready n hchecked
      · exact h.wf.ready n (.inr ⟨u, hold, hchecked⟩)
  · obtain ho | hold := writer_setWriter hu
    · cases ho
      obtain ⟨hle, hlt, -⟩ := h.wf.writeOk k w hw
      exact ⟨by rw [hfirst, hlast]; exact hle, hlast ▸ hlt, by simp [hforward]⟩
    · exact h.wf.writeOk j u hold
  · obtain ho | hold := writer_setWriter hu
    · cases ho
      exact fun hn' => h.wf.locked n hn k w hw ((hcovers n).mp hn')
    · exact h.wf.locked n hn j u hold
  · obtain ⟨ho, -⟩ | hold := silent_setWriter hu
    · cases ho
      exact hsilent pc hphase hrun n ((hcovers n).mp hn) hpast
    · exact hrun.silent u hold n hn hpast
  · rw [hc.needResync] at hneed
    cases hneed

theorem Running.ahead (h : Running s pc) (hwf : Wf s) (hw : s.writer k = some w)
    (hlow : s.cloneAmapId < amapId w.first) (hskipped : ∀ n, w.Covers n → s.skipped (tableId n) = false) (hn : w.Covers n)
    (hpast : pc.Past n) : s.worker n = .queued := by
  by_contra hne
  have hlt := Nat.lt_of_le_of_lt hn.2 (hwf.writeOk k w hw).lt
  obtain hle | hskip := h.progress n hlt hpast hne
  · exact Nat.not_le.mpr hlow (Nat.le_trans hn.1 hle)
  · simp [hskipped n hn] at hskip

theorem Inv.decide (h : Inv s) (hallowed : Allowed s (.decide k)) (hw : s.writer k = some w) (hnone : w.forward = none) :
    Inv (s.setWriter k (some { w with forward := some (s.lbaNeedsMirrorSync w.first) })) := by
  cases hsync : s.lbaNeedsMirrorSync w.first with
  | true => exact h.decide_forward hw
  | false =>
    have hneed : s.needResync = true := by
      by_contra hn
      simp [State.lbaNeedsMirrorSync, hn] at hsync
    refine h.setWriter_silent hw rfl rfl rfl hneed (fun n hn => ?_) fun pc hphase hrun n hn hpast => ?_
    · simp [(h.wf.writeOk k w hw).undecided hnone n] at hn
    · have hin : s.inSync = true := by simp [State.inSync, hphase]
      have hlow : s.cloneAmapId < amapId w.first := by simpa [State.lbaNeedsMirrorSync, hneed, hin] using hsync
      exact hrun.ahead h.wf hw hlow (hallowed w hw hin hlow) hn hpast

theorem Inv.check (h : Inv s) (hw : s.writer k = some w) (hdecided : w.forward.isSome) (hamap : s.amap n = true) :
    Inv ((s.amapWriteBmapCheck n).setWriter k (some { w with checked := update w.checked n true })) := by
  have hgrow : Inv (s.amapWriteBmapCheck n) := h.amapWriteBmapCheck
  have hw' : (s.amapWriteBmapCheck n).writer k = some w := by rw [writer_amapWriteBmapCheck, hw]
  obtain ⟨forward, hforward⟩ := Option.isSome_iff_exists.mp hdecided
  cases forward with
  | true =>
    refine hgrow.setWriter ?_ ?_ ?_
    · rintro v ⟨⟩
      simp [hforward]
    · rintro v ⟨⟩
      exact ⟨(h.wf.writeOk k w hw).le, (h.wf.writeOk k w hw).lt, by simp [hforward]⟩
    · rintro v ⟨⟩ m hm
      exact hgrow.wf.locked m hm k w hw'
  | false =>
    have hsilent : (s.amapWriteBmapCheck n).Silent w := ⟨hforward, k, hw'⟩
    have hneed : s.needResync = true := by
      refine h.wf.needResync fun hphase => ?_
      have hok := h.phaseOk
      simp only [PhaseOk, hphase] at hok
      exact hok.silent w ⟨hforward, k, hw⟩
    refine hgrow.setWriter_silent hw' rfl rfl hforward (needResync_amapWriteBmapCheck.trans hneed)
      (fun m hm => ?_) fun pc _ hrun => hrun.silent w hsilent
    by_cases hmn : m = n
    · subst hmn
      exact ready_amapWriteBmapCheck h.wf hneed hamap
    · exact hgrow.wf.ready m (.inr ⟨w, hsilent, by simpa [update_of_ne hmn] using hm⟩)

theorem amapId_mono {p q : Nat} (h : p ≤ q) : amapId p ≤ amapId q := Nat.div_le_div_right h

theorem Write.CoversPage.covers (h : w.CoversPage page) : w.Covers (amapId page) := ⟨amapId_mono h.1, amapId_mono h.2⟩

theorem Inv.update {forward : Bool} (h : Inv s) (hw : s.writer k = some w) (hforward : w.forward = some forward)
    (hcovers : w.CoversPage page) (hchecked : w.checked (amapId page) = true) :
    Inv { s with unsent := Function.update s.unsent page !forward } := by
  -- a page that gets unsent is one of a silent write
  have hnew : ∀ q, Function.update s.unsent page (!forward) q = true →
      s.unsent q = true ∨ q = page ∧ s.Silent w := fun q hq => by
    by_cases heq : q = page
    · refine .inr ⟨heq, ?_, k, hw⟩
      rw [hforward]
      simpa [heq] using hq
    · exact .inl (by simpa [Function.update_of_ne heq] using hq)
  refine h.write ⟨rfl, rfl, rfl, rfl, rfl, rfl⟩ ⟨h.wf.table, h.wf.invalid⟩ (fun n hn => ?_) (fun q hq => ?_)
    h.wf.writeOk h.wf.locked (fun pc _ hrun => hrun.silent) (fun pc hrun q hq hpast => ?_)
    fun hc => ⟨fun q => ?_, hc.silent⟩
  · refine h.wf.ready n ?_
    obtain ⟨q, hq, hqn⟩ | hsilent := hn
    · obtain hold | ⟨rfl, hsilent⟩ := hnew q hq
      · exact .inl ⟨q, hold, hqn⟩
      · exact .inr ⟨w, hsilent, hqn ▸ hchecked⟩
    · exact .inr hsilent
  · obtain hold | ⟨rfl, -⟩ := hnew q hq
    · exact h.wf.unsentLt q hold
    · exact Nat.lt_of_le_of_lt hcovers.covers.2 (h.wf.writeOk k w hw).lt
  · obtain hold | ⟨rfl, hsilent⟩ := hnew q hq
    · exact hrun.unsent q hold hpast
    · simp [hrun.silent w hsilent _ hcovers.covers hpast]
  · by_contra hq
    obtain hold | ⟨-, hsilent⟩ := hnew q (by simpa using hq)
    · simp [hc.unsent q] at hold
    · exact hc.silent w hsilent

end QuadStor.MirrorResync
