import QuadStor.Cloning.Lemmas.Writers

/-!
# The steps of the clone thread
-/

namespace QuadStor.Cloning

open Lib

variable {α : Type} {geo : Geometry} {s t : State α} {n m : Nat} {pc pc' : Pc α} {bmap bmap' : Option (Nat × Nat)}
  {metadata : Option α} {b : Bitmaps}

theorem tableId_lt_tableMax (h : n < geo.amapMax) : tableId n < geo.tableMax := by
  unfold Geometry.tableMax tableId amapsPerAmapTable
  omega

theorem lt_amapMax (h : m < geo.tableMax) : amapsPerAmapTable * m < geo.amapMax := by
  unfold Geometry.tableMax amapsPerAmapTable at *
  omega

theorem place_nextTable (ht : m < geo.tableMax) (hn : n < geo.amapMax) :
    (nextTable geo m : Pc α).place n = if tableId n = m then .settled else (Pc.table m).place n := by
  have hlt := tableId_lt_tableMax hn
  unfold nextTable
  split_ifs with hlast heq heq
  all_goals simp only [Pc.place] at *
  all_goals split_ifs
  all_goals first | rfl | (simp only [groupId, amapTablePerGroup] at *; omega)

theorem place_table_amap : (Pc.amap (amapsPerAmapTable * m) : Pc α).place n = (Pc.table m).place n := by
  simp only [Pc.place]
  split_ifs
  all_goals first | rfl | (simp only [groupId, tableId, amapsPerAmapTable, amapTablePerGroup] at *; omega)

theorem place_nextAmap (hm : m < geo.amapMax) (hn : n < geo.amapMax) :
    (nextAmap geo m : Pc α).place n = (Pc.advance m).place n := by
  unfold nextAmap
  split_ifs with hlast
  all_goals simp only [Pc.place]
  all_goals split_ifs
  all_goals first | rfl | (simp only [groupId, tableId, amapsPerAmapTable, amapTablePerGroup] at *; omega)

theorem place_advance : (Pc.advance m : Pc α).place n = if n = m then .behind else (Pc.amap m).place n := by
  simp only [Pc.place]
  split_ifs
  all_goals first | rfl | (simp only [groupId, tableId, amapsPerAmapTable, amapTablePerGroup] at *; omega)

theorem place_store : (Pc.store m metadata).place n = if n = m then .storing metadata else (Pc.amap m).place n := by
  simp only [Pc.place]
  split_ifs
  all_goals first | rfl | (simp only [groupId, tableId, amapsPerAmapTable, amapTablePerGroup] at *; omega)

theorem place_amap_self : (Pc.amap n : Pc α).place n = .ahead := by
  simp [Pc.place]

theorem place_nextGroup (hn : n < geo.amapMax) :
    (nextGroup geo m : Pc α).place n = if groupId n = m then .freed else (Pc.free m).place n := by
  have hlt := tableId_lt_tableMax hn
  unfold nextGroup
  split_ifs with hlast heq heq
  all_goals simp only [Pc.place] at *
  all_goals split_ifs
  all_goals first | rfl | (simp only [groupId, amapTablePerGroup] at *; omega)

theorem Wf.thread {bmaps : Bitmaps} (h : Wf geo s) (hbmaps : bmaps.Ok) (pc : Pc α) (bmap : Option (Nat × Nat))
    (cloneAmapId : Nat) (cloneError : Bool) (tableBmap : Nat → Bool) (clone : Nat → List α) : Wf geo { s with
      phase := .running pc bmap, bmaps, cloneAmapId, cloneError
      tableBmap, clone } :=
  ⟨fun n => { h.wfAt n with }, hbmaps, nofun⟩

theorem Running.goto (h : Running geo s pc bmap) (hpc : PcOk geo s pc')
    (hmaps : ∀ n < geo.amapMax, s.MapAt n (pc.place n) → s.MapAt n (pc'.place n))
    (hpassed : ∀ n < geo.amapMax, (pc.place n).Passed → (pc'.place n).Passed)
    (hbmap : BmapOk s bmap' pc') : Running geo (s.goto pc' bmap') pc' bmap' :=
  ⟨hpc, fun n hn => hmaps n hn (h.maps n hn), fun n hn h0 hlow => hpassed n hn (h.low n hn h0 hlow), h.start,
    h.beyond, hbmap⟩

theorem Inv.fail (h : Inv geo s) : Inv geo s.fail :=
  ⟨h.wf.thread h.wf.bmaps .., fun herror => by simp [State.fail] at herror⟩

theorem Inv.goto (h : Inv geo s) (hphase : s.phase = .running pc bmap)
    (hrun : Running geo s pc bmap → Running geo (s.goto pc' bmap') pc' bmap') : Inv geo (s.goto pc' bmap') := by
  refine ⟨h.wf.thread h.wf.bmaps .., fun herror => ?_⟩
  have hok := h.phaseOk herror
  simp only [PhaseOk, hphase] at hok
  exact hrun hok

theorem pcOk_nextTable (hm : m < geo.tableMax) : PcOk geo s (nextTable geo m) := by
  unfold nextTable
  split_ifs
  all_goals
    simp only [PcOk, amapTablePerGroup] at *
    omega

theorem bmapOk_nextTable : BmapOk s bmap (nextTable geo m) := by
  unfold nextTable
  split_ifs <;> trivial

theorem Running.skipTable (hwf : Wf geo s) (h : Running geo s (.table m) bmap)
    (hskip : s.table m = false ∨ s.tableBmap m = true) :
    Running geo (s.goto (nextTable geo m) none) (nextTable geo m) none := by
  refine h.goto (pcOk_nextTable h.pcOk) (fun n hn hold => ?_) (fun n hn hpassed => ?_) bmapOk_nextTable
  · rw [place_nextTable h.pcOk hn]
    split_ifs with heq
    · have hstart : s.start n = none := by
        by_contra hne
        obtain ⟨-, hentered, hbit⟩ := h.start n hne
        have htable := ((hwf.wfAt n).amap ((hwf.wfAt n).entered hentered).1).2
        rw [heq] at htable hbit
        simp [htable, hbit] at hskip
      have hahead : (Pc.table m : Pc α).place n = .ahead := by
        simp [Pc.place, groupId, heq]
      unfold State.MapAt at hold ⊢
      rw [hahead, hstart] at hold
      rw [hstart]
      exact hold.skip
    · exact hold
  · rw [place_nextTable h.pcOk hn]
    split_ifs
    · trivial
    · exact hpassed

theorem Running.enterTable (h : Running geo s (.table m) bmap) :
    Running geo (s.goto (.amap (amapsPerAmapTable * m)) none) (.amap (amapsPerAmapTable * m)) none :=
  h.goto (lt_amapMax h.pcOk) (fun n _ hold => place_table_amap ▸ hold)
    (fun n _ hpassed => place_table_amap ▸ hpassed) (by simp [BmapOk])

theorem passed_advance (h : ((Pc.amap m : Pc α).place n).Passed) : ((Pc.advance m : Pc α).place n).Passed := by
  rw [place_advance]
  split_ifs
  · trivial
  · exact h

theorem Running.skipAmap (h : Running geo s (.amap m) bmap) (hentered : s.entered m = false) :
    Running geo (s.goto (.advance m) bmap) (.advance m) bmap := by
  refine h.goto h.pcOk (fun n hn hold => ?_) (fun n _ => passed_advance) h.bmapOk
  rw [place_advance]
  split_ifs with heq
  · subst heq
    rw [place_amap_self] at hold
    refine hold.pass fun hstart => ?_
    simp [(h.start n hstart).2.1] at hentered
  · exact hold

theorem Running.toClaim (h : Running geo s (.amap m) bmap) (hentered : s.entered m = true) :
    Running geo (s.goto (.claim m) bmap) (.claim m) bmap :=
  h.goto ⟨h.pcOk, hentered⟩ (fun _ _ hold => hold) (fun _ _ hpassed => hpassed) h.bmapOk

theorem Running.store (h : Running geo s (.store m metadata) bmap) :
    Running geo ({ s with clone := Function.update s.clone m (s.clone m ++ metadata.toList) }.goto (.advance m) bmap)
      (.advance m) bmap := by
  refine ⟨h.pcOk.1, fun n hn => ?_, fun n hn h0 hlow => ?_, h.start, fun n hn => ?_, h.bmapOk⟩
  · have hold := h.maps n hn
    rw [place_store] at hold
    rw [place_advance]
    unfold State.MapAt at hold ⊢
    by_cases heq : n = m
    · subst heq
      rw [if_pos rfl] at hold ⊢
      simpa [State.goto] using hold.store
    · simpa [State.goto, heq] using hold
  · have hpassed := h.low n hn h0 hlow
    rw [place_store] at hpassed
    rw [place_advance]
    split_ifs at hpassed ⊢
    · trivial
    · exact hpassed
  · have hne : n ≠ m := by
      have := h.pcOk.1
      omega
    simpa [State.goto, hne] using h.beyond n hn

theorem Running.advance (h : Running geo s (.advance m) bmap) :
    Running geo ((s.setCloneAmapId m).goto (nextAmap geo m) bmap) (nextAmap geo m) bmap := by
  have hm : m < geo.amapMax := h.pcOk
  refine ⟨?_, fun n hn => ?_, fun n hn h0 hlow => ?_, h.start, h.beyond, ?_⟩
  · unfold nextAmap
    split_ifs with hlast
    · exact tableId_lt_tableMax hm
    · simp only [PcOk]
      omega
  · have hold := h.maps n hn
    rw [place_nextAmap hm hn]
    exact hold.mono_low fun hle => hle.trans (Nat.le_max_left _ _)
  · rw [place_nextAmap hm hn]
    have hcases : n ≤ m ∨ n ≤ s.cloneAmapId := by
      simp only [State.goto, State.setCloneAmapId] at hlow
      omega
    obtain hnm | hle := hcases
    · simp only [Pc.place]
      split_ifs <;> trivial
    · exact h.low n hn h0 hle
  · unfold nextAmap
    split_ifs with hlast
    · trivial
    · have hgroup : groupId (m + 1) = groupId m := by
        simp only [groupId, tableId, amapsPerAmapTable, amapTablePerGroup] at *
        omega
      simpa [BmapOk, hgroup, State.goto, State.setCloneAmapId] using h.bmapOk

theorem sweepLocate_ok (hwf : Wf geo s) (hordered : s.bmaps.Ordered m) : (s.sweepLocate m bmap).1.Ok := by
  unfold State.sweepLocate
  split
  · split_ifs
    · exact hwf.bmaps
    · exact (hwf.bmaps.locate hordered).1
  · exact (hwf.bmaps.locate hordered).1

theorem sweepLocate_has (hwf : Wf geo s) (h : Running geo s (.claim m) bmap) (hordered : s.bmaps.Ordered m) :
    (s.sweepLocate m bmap).1.Has m (s.sweepLocate m bmap).2 ∧
      (∀ n, (s.sweepLocate m bmap).1.IsSet n ↔ s.bmaps.IsSet n) ∧
      ∀ g, ∀ x ∈ s.bmaps.list g, x ∈ (s.sweepLocate m bmap).1.list g := by
  unfold State.sweepLocate
  split
  · split_ifs with ho
    · subst ho
      exact ⟨h.bmapOk _ rfl, fun _ => Iff.rfl, fun _ _ hx => hx⟩
    · exact (hwf.bmaps.locate hordered).2
  · exact (hwf.bmaps.locate hordered).2

theorem Running.passAmap (h : Running geo s (.claim m) bmap) (hset : ∀ n, b.IsSet n ↔ s.bmaps.IsSet n)
    (hbit : s.bmaps.IsSet m) (hbmap : ∀ x, bmap' = some x → x ∈ b.list (groupId m)) :
    Running geo ({ s with bmaps := b }.goto (.advance m) bmap') (.advance m) bmap' := by
  refine ⟨h.pcOk.1, fun n hn => ?_, fun n hn h0 hlow => passed_advance (h.low n hn h0 hlow), h.start, h.beyond, hbmap⟩
  have hold : s.MapAt n ((Pc.amap m : Pc α).place n) := h.maps n hn
  rw [place_advance]
  unfold State.MapAt at hold ⊢
  simp only [State.goto, hset]
  split_ifs with heq
  · subst heq
    rw [place_amap_self] at hold
    exact hold.pass fun _ => hbit
  · exact hold

theorem Running.readAmap (hwf : Wf geo s) (h : Running geo s (.claim m) bmap)
    (hset : ∀ n < 2 ^ 32, (b.IsSet n ↔ n = m ∨ s.bmaps.IsSet n)) (hbit : ¬s.bmaps.IsSet m)
    (hbmap : ∀ x, bmap' = some x → x ∈ b.list (groupId m)) :
    Running geo ({ s with bmaps := b }.goto (.store m (s.amap m)) bmap') (.store m (s.amap m)) bmap' := by
  obtain ⟨hm, hentered⟩ := h.pcOk
  refine ⟨⟨hm, hentered⟩, fun n hn => ?_, fun n hn h0 hlow => ?_, h.start, h.beyond, hbmap⟩
  · have hold : s.MapAt n ((Pc.amap m : Pc α).place n) := h.maps n hn
    rw [place_store]
    unfold State.MapAt at hold ⊢
    simp only [State.goto, hset n (Nat.lt_of_lt_of_le hn geo.le)]
    by_cases heq : n = m
    · subst heq
      rw [place_amap_self] at hold
      cases hstart : s.start n with
      | none =>
        rw [hstart] at hold
        obtain ⟨hamap, hw⟩ := (hwf.wfAt n).entered hentered
        simpa [hw, hbit] using hold.present hamap
      | some a =>
        rw [hstart] at hold
        obtain ⟨hamap, hread⟩ := hold.read hbit
        simpa [hamap] using hread
    · simpa [heq] using hold
  · have hpassed : ((Pc.amap m : Pc α).place n).Passed := h.low n hn h0 hlow
    rw [place_store]
    split_ifs with heq
    · subst heq
      rw [place_amap_self] at hpassed
      exact hpassed
    · exact hpassed

theorem Running.endTable (hwf : Wf geo s) (h : Running geo s (.endTable m) bmap) (hbusy : s.cloneBusy = 0) :
    Running geo (s.goto (nextTable geo m) none) (nextTable geo m) none := by
  have hm := h.pcOk
  have hplace : ∀ n, tableId n ≠ m → (Pc.endTable m : Pc α).place n = (Pc.table m).place n := by
    intro n hne
    simp only [Pc.place]
    rw [if_neg hne]
  have hbehind : ∀ n, tableId n = m → (Pc.endTable m : Pc α).place n = .behind := by
    intro n heq
    simp [Pc.place, groupId, heq]
  refine h.goto (pcOk_nextTable hm) (fun n hn hold => ?_) (fun n hn hpassed => ?_) bmapOk_nextTable
  · rw [place_nextTable hm hn]
    split_ifs with heq
    · rw [hbehind n heq] at hold
      exact hold.settle fun hw => (hwf.wfAt n).busy hw hbusy
    · rwa [← hplace n heq]
  · rw [place_nextTable hm hn]
    split_ifs with heq
    · trivial
    · rwa [← hplace n heq]

theorem Running.freeGroup (h : Running geo s (.free m) bmap) : Running geo ({ s with
      bmaps := s.bmaps.free m
      tableBmap := fun t => if t / amapTablePerGroup = m then false else s.tableBmap t }.goto (nextGroup geo m) none)
      (nextGroup geo m) none := by
  refine ⟨?_, fun n hn => ?_, fun n hn h0 hlow => ?_, fun n hn => ?_, h.beyond, ?_⟩
  · unfold nextGroup
    split_ifs with hlast
    · exact hlast
    · trivial
  · have hold := h.maps n hn
    rw [place_nextGroup hn]
    unfold State.MapAt at hold ⊢
    simp only [State.goto, Bitmaps.isSet_free]
    by_cases heq : groupId n = m
    · rw [if_pos heq]
      have hsettled : (Pc.free m : Pc α).place n = .settled := by simp [Pc.place, heq]
      rw [hsettled] at hold
      exact hold.free
    · simpa [heq] using hold
  · rw [place_nextGroup hn]
    split_ifs
    · trivial
    · exact h.low n hn h0 hlow
  · obtain ⟨hlt, hentered, hbit⟩ := h.start n hn
    refine ⟨hlt, hentered, ?_⟩
    simp only [State.goto]
    split_ifs
    · rfl
    · exact hbit
  · unfold nextGroup
    split_ifs <;> trivial

theorem Running.finish (h : Running geo s .done bmap) (n : Nat) : s.clone n = (s.start n).toList := by
  by_cases hn : n < geo.amapMax
  · have hold := h.maps n hn
    unfold State.MapAt at hold
    cases hstart : s.start n with
    | none =>
      rw [hstart] at hold
      exact hold.clone
    | some a =>
      rw [hstart] at hold
      exact hold.2.2
  · have hstart : s.start n = none := by
      by_contra hne
      exact hn (h.start n hne).1
    rw [hstart, h.beyond n (Nat.le_of_not_lt hn)]
    rfl

theorem Inv.running (h : Inv geo s) (hphase : s.phase = .running pc bmap) (herror : s.cloneError = false) :
    Running geo s pc bmap := by
  have hok := h.phaseOk herror
  simpa only [PhaseOk, hphase] using hok

theorem Inv.claim (h : Inv geo s) (hphase : s.phase = .running (.claim m) bmap) (hordered : s.bmaps.Ordered m) :
    Inv geo (s.claim geo m bmap) := by
  have hlocated : (s.sweepLocate m bmap).1.Ok := sweepLocate_ok h.wf hordered
  simp only [State.claim]
  split_ifs with hbit
  · refine ⟨h.wf.thread hlocated .., fun herror => ?_⟩
    have hrun := h.running hphase herror
    obtain ⟨hhas, hset, hlist⟩ := sweepLocate_has h.wf hrun hordered
    refine (hrun.passAmap hset ((hset m).mp ((hlocated.bitIsSet_iff hhas).mp hbit)) ?_).advance
    rintro x ⟨⟩
    exact hhas
  · refine ⟨h.wf.thread hlocated.setBit .., fun herror => ?_⟩
    have hrun := h.running hphase herror
    obtain ⟨hhas, hset, hlist⟩ := sweepLocate_has h.wf hrun hordered
    have hm := Nat.lt_of_lt_of_le hrun.pcOk.1 geo.le
    refine hrun.readAmap h.wf (fun n hn => ?_) (fun hs => hbit ((hlocated.bitIsSet_iff hhas).mpr ((hset m).mpr hs))) ?_
    · rw [Bitmaps.isSet_setBit hlocated hhas hm hn, hset]
    · rintro x ⟨⟩
      exact hhas

theorem Inv.sweep {ok : Bool} (h : Inv geo s) (hallowed : Allowed s (.sweep ok)) (hstep : s.sweep geo ok = some t) :
    Inv geo t := by
  unfold State.sweep at hstep
  split at hstep
  · rename_i t' bmap hphase
    split_ifs at hstep with hskip <;> cases hstep
    · exact h.goto hphase fun hrun => hrun.skipTable h.wf (by simpa using hskip)
    · exact h.goto hphase fun hrun => hrun.enterTable
    · exact h.fail
  · rename_i n bmap hphase
    split_ifs at hstep with hentered <;> cases hstep
    · exact h.goto hphase fun hrun => hrun.skipAmap (by simpa using hentered)
    · exact h.goto hphase fun hrun => hrun.toClaim (by simpa using hentered)
    · exact h.fail
  · rename_i n bmap hphase
    split_ifs at hstep <;> cases hstep
    · exact h.claim hphase (hallowed n bmap hphase)
    · exact h.fail
  · rename_i n metadata bmap hphase
    split_ifs at hstep <;> cases hstep
    · exact ⟨h.wf.thread h.wf.bmaps .., fun herror => (h.running hphase herror).store⟩
    · exact h.fail
  · rename_i n bmap hphase
    cases hstep
    exact ⟨h.wf.thread h.wf.bmaps .., fun herror => (h.running hphase herror).advance⟩
  · rename_i t' bmap hphase
    split_ifs at hstep with hbusy <;> cases hstep
    · exact h.fail
    · exact h.goto hphase fun hrun => hrun.endTable h.wf (by simpa using hbusy)
  · rename_i g bmap hphase
    cases hstep
    exact ⟨h.wf.thread h.wf.bmaps.free .., fun herror => (h.running hphase herror).freeGroup⟩
  · rename_i bmap hphase
    split_ifs at hstep with hlock
    cases hstep
    exact ⟨⟨fun n => { h.wf.wfAt n with }, h.wf.bmaps, fun _ => by simpa using hlock⟩,
      fun herror => (h.running hphase herror).finish⟩
  · cases hstep

end QuadStor.Cloning
