import QuadStor.LogRing.Lemmas.Accounting

/-!
# The log
-/

namespace QuadStor.LogRing

open Lib List

variable {N size q p : Nat} {s : State N}

theorem ok_of_reachable (hs : (system N size).Reachable s) : s.Ok := by
  have hinv : (system N size).Invariant State.Ok := {
    init := fun {s} ⟨_, hring, _, _, hwriter, _⟩ => {
      ring := hring ▸ Ring.ok_start size
      writer := fun w => hwriter w ▸ writerOk_idle _
      apart := fun w _ o ho => by simp [hwriter w, Writer.idle] at ho
      relied := fun a ha => by simp [hring, Ring.start, Ring.setup] at ha
      order := by
        rw [hring]
        exact List.Pairwise.nil }
    step := fun {s a t} h ⟨ha, ht⟩ => ht ▸ h.step ha }
  exact hinv.reachable hs

theorem ledger_of_reachable (hs : (system N size).Reachable s) : Ledger s := by
  have hinv : (system N size).Invariant fun s => s.Ok ∧ Ledger s := {
    init := fun {s} hinit => ⟨ok_of_reachable (.init hinit), by
      obtain ⟨_, hring, hres, -, hwriter, -⟩ := hinit
      refine ⟨fun w => hwriter w ▸ budget_idle, ?_, ?_, ?_, ?_, ?_, ?_⟩ <;>
        simp [hwriter, hring, hres, Writer.idle, Writer.onPage, Ring.start, Ring.setup]⟩
    step := fun {s a t} ⟨h, hl⟩ ⟨ha, ht⟩ => ht ▸ ⟨h.step ha, hl.step h ha⟩ }
  exact (hinv.reachable hs).2

theorem State.Ok.before_of_relies (h : s.Ok) {a b : Logged} (ha : a ∈ s.ring.history) (hb : b ∈ s.ring.history)
    (hr : Relies a.entry b.entry) : b.Before a := by
  have hpair := h.ring.sorted.and h.order
  have hne : a ≠ b := by
    rintro rfl
    cases he : a.entry <;> simp [he, Relies] at hr
  have hboth : s.ring.history.Pairwise fun x y => (x.Before y ∧ ¬ Relies x.entry y.entry) ∨
      (y.Before x ∧ ¬ Relies y.entry x.entry) := hpair.imp .inl
  have : Std.Symm fun x y : Logged => (x.Before y ∧ ¬ Relies x.entry y.entry) ∨
      (y.Before x ∧ ¬ Relies y.entry x.entry) := ⟨fun _ _ => Or.symm⟩
  obtain ⟨-, hn⟩ | ⟨hlt, -⟩ := hboth.forall ha hb hne
  · exact absurd hr hn
  · exact hlt

theorem State.Ok.pairwise_disk (h : s.Ok) {ps : List Nat} (hps : ps.Nodup) :
    (ps.map s.ring.disk).Pairwise fun a b => b.start ≠ 0 → a.start ≠ b.start := by
  refine pairwise_map.mpr (hps.imp fun {p q} hne h0 hs => hne ?_)
  exact h.ring.unique p q _ _ Ring.hasImage_disk Ring.hasImage_disk hs (hs ▸ h0)

theorem State.Ok.not_relies (h : s.Ok) {i j : Nat} {e e' : Entry} (he : (s.ring.disk p).entries i = some e)
    (he' : (s.ring.disk q).entries j = some e')
    (hlt : Logged.Before ⟨(s.ring.disk p).start, i, e⟩ ⟨(s.ring.disk q).start, j, e'⟩) : ¬ Relies e e' := fun hr =>
  hlt.asymm (h.before_of_relies (h.ring.image p _ i e Ring.hasImage_disk he)
    (h.ring.image q _ j e' Ring.hasImage_disk he') hr)

theorem State.Ok.pairwise_load (h : s.Ok) (p : Nat) : (s.ring.disk p).load.Pairwise fun a b => ¬ Relies a b := by
  refine pairwise_filterMap.mpr (pairwise_lt_range.imp fun hij e he e' he' => ?_)
  exact h.not_relies he he' (.inr ⟨rfl, hij⟩)

theorem State.Ok.not_relies_load (h : s.Ok) {e e' : Entry}
    (hlt : (s.ring.disk p).start < (s.ring.disk q).start) (he : e ∈ (s.ring.disk p).load)
    (he' : e' ∈ (s.ring.disk q).load) : ¬ Relies e e' := by
  obtain ⟨i, -, he⟩ := mem_filterMap.mp he
  obtain ⟨j, -, he'⟩ := mem_filterMap.mp he'
  exact h.not_relies he he' (.inl hlt)

/-- A page's entry comes after the entries of the table and the map it relies on. The list of pages for replay, read
from any of the log pages on disk in any order, has increasing ids, and no entry is replayed before one that it relies
on. -/
theorem log_order_respects_dependency (hs : (system N size).Reachable s) :
    (∀ p q x y i j e e', s.ring.HasImage p x → s.ring.HasImage q y → x.entries i = some e →
      y.entries j = some e' → Relies e e' → y.start < x.start ∨ y.start = x.start ∧ j < i) ∧ ∀ ps : List Nat, ps.Nodup →
      (checkWriteLogs LogPage.start (ps.map s.ring.disk)).Pairwise (fun a b => a.start < b.start) ∧
      (replayEntries (ps.map s.ring.disk)).Pairwise fun a b => ¬ Relies a b := by
  have h := ok_of_reachable hs
  refine ⟨fun p q x y i j e e' hx hy he he' hr => ?_, fun ps hps => ?_⟩
  · exact h.before_of_relies (h.ring.image p x i e hx he) (h.ring.image q y j e' hy he') hr
  · have hsorted := foldl_logPageInsert _ .nil nofun (h.pairwise_disk hps)
    have hpage : ∀ x ∈ checkWriteLogs LogPage.start (ps.map s.ring.disk), ∃ p, x = s.ring.disk p := fun x hx => by
      obtain ⟨p, -, rfl⟩ := List.mem_map.mp (mem_checkWriteLogs.mp hx).1
      exact ⟨p, rfl⟩
    refine ⟨hsorted, pairwise_flatMap.mpr ⟨fun x hx => ?_, ?_⟩⟩
    · obtain ⟨p, rfl⟩ := hpage x hx
      exact h.pairwise_load p
    · refine hsorted.imp_of_mem fun {x y} hx hy hlt e he e' he' => ?_
      obtain ⟨p, rfl⟩ := hpage x hx
      obtain ⟨q, rfl⟩ := hpage y hy
      exact h.not_relies_load hlt he he'

/-- A write inserts at most as many entries as it has reserved, the reservations together are at most the entries of the
group, the counter of a page is the number of pending entries on it, each still in its place, and a page is only emptied
when no pending entry is on it. -/
theorem log_ring_keeps_pending (hs : (system N size).Reachable s) :
    (∀ w, (s.writer w).inserted ≤ (s.writer w).logReserved) ∧ ∑ w, (s.writer w).logReserved ≤ s.ring.freeLogEntries ∧
    (∀ p, s.ring.pending p = ∑ w, (s.writer w).placed.countP fun y => y.page == p) ∧
    (∀ w, ∀ y ∈ (s.writer w).placed, (s.ring.mem y.page).entries y.idx = some y.entry) ∧
    ∀ w, s.allowed (.rotate w) → ∀ w', ∀ y ∈ (s.writer w').placed, y.page ≠ s.ring.next := by
  have h := ledger_of_reachable hs
  refine ⟨fun w => (h.budget w).inserted_le, ?_, h.pending, fun w y hy => (h.holds w y hy).1, fun w hw => ?_⟩
  · rw [← h.reserved]
    exact h.le
  · exact h.not_placed hw.2.2

def firstState : State 1 := ⟨.start 2, 0, none, fun _ => none, fun _ => .idle⟩

def firstWrite : List (Action 1) :=
  [.reserve 0 (.scan 7 0 1), .makeTable 0 0, .makeAmap 0 0, .useAmap 0 0, .endScan 0 [0] false,
   .lock 0, .insert 0, .unlock 0, .check 0, .check 0, .lock 0, .insert 0, .unlock 0, .check 0, .check 0,
   .lock 0, .insert 0, .unlock 0, .flush 0]

def writtenState : State 1 := firstWrite.foldl State.run firstState

theorem writtenState_reachable : (system 1 2).Reachable writtenState := by
  have hstep : ∀ {s : State 1} {a : Action 1}, s.allowed a → (system 1 2).step s a (s.run a) := fun ha => ⟨ha, rfl⟩
  refine System.Reachable.foldl hstep (.init ⟨by decide, rfl, rfl, rfl, fun _ => rfl, fun _ _ h => nomatch h⟩) ?_
  have has : ∀ lba, lba = 0 → (Request.scan 7 0 1).Has lba := by rintro _ rfl; exact ⟨by decide, by decide⟩
  exact ⟨⟨rfl, by decide⟩, ⟨rfl, has 0 rfl, rfl⟩, ⟨rfl, has 0 rfl, by decide, rfl⟩, ⟨rfl, has 0 rfl, by decide⟩,
    ⟨rfl, by decide, by decide, fun lba hl => ⟨has lba (by simpa using hl), 0, by decide, by simp_all⟩⟩,
    ⟨.tables, rfl, rfl, by decide⟩, ⟨.tables, rfl, by decide, by decide⟩, ⟨.tables, rfl, rfl⟩,
    ⟨.tables, .inr ⟨0, [], rfl, ⟨true, true⟩, rfl, .inr (.inr rfl)⟩⟩, ⟨.tables, .inl rfl⟩,
    ⟨.amaps, rfl, rfl, by decide⟩, ⟨.amaps, rfl, by decide, by decide⟩, ⟨.amaps, rfl, rfl⟩,
    ⟨.amaps, .inr ⟨0, [], rfl, ⟨true, true⟩, rfl, .inr (.inr rfl)⟩⟩, ⟨.amaps, .inl rfl⟩,
    ⟨.pages, rfl, rfl, by decide⟩, ⟨.pages, rfl, by decide, by decide⟩, ⟨.pages, rfl, rfl⟩, (by decide : 0 < 2), trivial⟩

theorem log_order_respects_dependency_written : replayEntries [writtenState.ring.disk 1, writtenState.ring.disk 0] =
      [.made (.table (7, 0)), .made (.amap (7, 0)), .data 7 0] ∧
    (replayEntries [writtenState.ring.disk 1, writtenState.ring.disk 0]).Pairwise fun a b => ¬ Relies a b :=
  ⟨by decide, ((log_order_respects_dependency writtenState_reachable).2 [1, 0] (by decide)).2⟩

theorem log_ring_keeps_pending_written :
    (writtenState.writer 0).placed.length = 3 ∧ (writtenState.writer 0).logReserved = 6 ∧
    (writtenState.writer 0).inserted ≤ (writtenState.writer 0).logReserved ∧
    ∀ y ∈ (writtenState.writer 0).placed, (writtenState.ring.mem y.page).entries y.idx = some y.entry :=
  have h := log_ring_keeps_pending writtenState_reachable
  ⟨by decide, by decide, h.1 0, h.2.2.2.1 0⟩

end QuadStor.LogRing
