import QuadStor.Cloning.Lemmas.Invariant

/-!
# The steps of writers
-/

namespace QuadStor.Cloning

open Lib Function

variable {α : Type} {geo : Geometry} {s t : State α} {n : Nat} {pc : Pc α} {bmap : Option (Nat × Nat)}

structure Frame (s t : State α) (n : Nat) : Prop where
  amap : ∀ m, m ≠ n → t.amap m = s.amap m
  writer : ∀ m, m ≠ n → t.writer m = s.writer m
  lock : ∀ m, m ≠ n → (t.cloneLock = some m ↔ s.cloneLock = some m)
  busy : t.cloneBusy = s.cloneBusy ∨ ∀ m, m ≠ n → s.cloneLock ≠ some m
  clone : ∀ m, m ≠ n → t.clone m = s.clone m
  changed : ∀ m, m ≠ n → t.changed m = s.changed m
  table : t.table = s.table
  tableBmap : t.tableBmap = s.tableBmap
  entered : t.entered = s.entered
  phase : t.phase = s.phase
  cloneAmapId : t.cloneAmapId = s.cloneAmapId
  start : t.start = s.start

theorem Frame.inCloning (hf : Frame s t n) : t.inCloning = s.inCloning := by
  simp only [State.inCloning, hf.phase]

theorem Wf.frame (h : Wf geo s) (hf : Frame s t n) (hbmaps : t.bmaps.Ok) (hn : WfAt geo t n)
    (hunlocked : s.inCloning = false → t.cloneLock = none) : Wf geo t := by
  refine ⟨fun m => ?_, hbmaps, fun h => hunlocked (hf.inCloning ▸ h)⟩
  by_cases hm : m = n
  · exact hm ▸ hn
  · have hat := h.wfAt m
    refine ⟨?_, ?_, ?_, ?_, ?_⟩
    · rw [hf.amap m hm, hf.table]
      exact hat.amap
    · rw [hf.entered, hf.amap m hm, hf.writer m hm]
      exact hat.entered
    · rw [hf.writer m hm, hf.amap m hm]
      exact hat.writer
    · rw [hf.lock m hm, hf.writer m hm]
      exact hat.lock
    · rw [hf.writer m hm]
      intro hw
      obtain hbusy | hfree := hf.busy
      · exact hbusy ▸ hat.busy hw
      · exact absurd (hat.lock.mpr (.inl hw)) (hfree m hm)

theorem WfAt.release (h : WfAt geo s n) (hmap : s.amap n ≠ none) (hamap : t.amap = s.amap)
    (htable : t.table = s.table) (hw : t.writer n = .idle ∨ t.writer n = .ready) (hlock : t.cloneLock = none) :
    WfAt geo t n := by
  refine ⟨?_, fun _ => ⟨hamap ▸ hmap, ?_⟩, fun _ => hamap ▸ hmap, ?_, ?_⟩
  · rw [hamap, htable]
    exact h.amap
  all_goals obtain hw | hw := hw <;> simp [hw, hlock]

structure BitsKept (s t : State α) (n : Nat) : Prop where
  isSet : ∀ m < 2 ^ 32, m ≠ n → (t.bmaps.IsSet m ↔ s.bmaps.IsSet m)
  list : ∀ g, ∀ x ∈ s.bmaps.list g, x ∈ t.bmaps.list g

theorem BmapOk.mono (h : BmapOk s bmap pc) (hlist : ∀ g, ∀ x ∈ s.bmaps.list g, x ∈ t.bmaps.list g) :
    BmapOk t bmap pc := by
  cases pc <;> simp only [BmapOk] at h ⊢
  all_goals exact fun x hx => hlist _ x (h x hx)

theorem PcOk.mono (h : PcOk geo s pc) (hentered : ∀ m, s.entered m = true → t.entered m = true) : PcOk geo t pc := by
  cases pc <;> simp only [PcOk] at h ⊢
  case claim n => exact ⟨h.1, hentered n h.2⟩
  case store n m => exact ⟨h.1, hentered n h.2⟩
  all_goals exact h

theorem Running.frame (h : Running geo s pc bmap) (hf : Frame s t n) (hlt : n < geo.amapMax)
    (hbits : BitsKept s t n) (hn : t.MapAt n (pc.place n)) : Running geo t pc bmap := by
  refine ⟨h.pcOk.mono (by simp [hf.entered]), fun m hm => ?_, ?_, ?_, fun m hm => ?_, h.bmapOk.mono hbits.list⟩
  · by_cases heq : m = n
    · exact heq ▸ hn
    · have hmap := h.maps m hm
      unfold State.MapAt at hmap ⊢
      rwa [hf.amap m heq, hf.writer m heq, hf.clone m heq, hf.changed m heq, hf.cloneAmapId, hf.start,
        hbits.isSet m (Nat.lt_of_lt_of_le hm geo.le) heq]
  · rw [hf.cloneAmapId]
    exact h.low
  · rw [hf.start, hf.entered, hf.tableBmap]
    exact h.start
  · rw [hf.clone m (by omega)]
    exact h.beyond m hm

theorem BitsKept.refl (h : t.bmaps = s.bmaps) : BitsKept s t n :=
  ⟨fun m _ _ => by rw [h], fun g x hx => by rwa [h]⟩

theorem PhaseOk.quiet (h : PhaseOk geo s) (hquiet : s.inCloning = false) (hf : Frame s t n)
    (hbmaps : t.bmaps = s.bmaps) (hclone : t.clone = s.clone) : PhaseOk geo t := by
  unfold PhaseOk State.inCloning at *
  rw [hf.phase]
  cases hphase : s.phase with
  | running pc bmap => simp [hphase] at hquiet
  | idle =>
    simp only [hphase] at h ⊢
    exact ⟨hf.cloneAmapId.trans h.cloneAmapId, hbmaps.trans h.bmaps, by simpa [hf.tableBmap] using h.tableBmap,
      by simpa [hclone] using h.clone⟩
  | finished =>
    simp only [hphase] at h ⊢
    simpa [hclone, hf.start] using h

theorem exists_running (h : s.inCloning = true) : ∃ pc bmap, s.phase = .running pc bmap := by
  unfold State.inCloning at h
  split at h
  · rename_i pc bmap hphase
    exact ⟨pc, bmap, hphase⟩
  · cases h

variable {isnew ok : Bool}

theorem place_zero (h : pc.place 0 = .ahead) : pc.BeforeFirst := by
  have hgroup : groupId 0 = 0 := rfl
  have htable : tableId 0 = 0 := rfl
  cases pc with
  | table t =>
    cases t with
    | zero => trivial
    | succ t =>
      simp only [Pc.place] at h
      split_ifs at h
      omega
  | amap m | claim m =>
    cases m with
    | zero => trivial
    | succ m =>
      simp only [Pc.place] at h
      split_ifs at h
      omega
  | done => cases h
  | _ =>
    simp only [Pc.place] at h
    split_ifs at h
    omega

theorem State.NotFirst.place (hnot : s.NotFirst n) (h : Running geo s pc bmap)
    (hphase : s.phase = .running pc bmap) (hlt : n < geo.amapMax) (hlow : n ≤ s.cloneAmapId) : pc.place n ≠ .ahead := by
  intro hahead
  by_cases hn : n = 0
  · subst hn
    exact hnot pc bmap hphase (place_zero hahead) rfl
  · have hpassed := h.low n hlt hn hlow
    rw [hahead] at hpassed
    exact hpassed

theorem frame_amapCloneCheck (hlock : s.cloneLock = none) : Frame s (s.amapCloneCheck n isnew ok) n := by
  have hwriter : ∀ w m, m ≠ n → update s.writer n w m = s.writer m := fun w m hm =>
    update_of_ne hm _ _
  unfold State.amapCloneCheck
  split_ifs
  all_goals exact ⟨fun _ _ => rfl, hwriter _, by simp +contextual [State.setWriter, hlock, eq_comm], .inl rfl,
    fun _ _ => rfl, fun _ _ => rfl, rfl, rfl, rfl, rfl, rfl, rfl⟩

theorem wfAt_amapCloneCheck (hlock : s.cloneLock = none) (hmap : s.amap n ≠ none)
    (htable : n < geo.amapMax ∧ s.table (tableId n) = true) (hnew : isnew = true → s.entered n = false) :
    WfAt geo (s.amapCloneCheck n isnew ok) n := by
  unfold State.amapCloneCheck
  split_ifs
  · refine ⟨fun _ => htable, fun he => ⟨hmap, ?_⟩, fun _ => hmap, ?_, ?_⟩
    · cases isnew with
      | true => simp [State.setWriter, hnew] at he
      | false => simp [State.setWriter]
    all_goals simp [State.setWriter]
  all_goals
    refine ⟨fun _ => htable, fun he => ⟨hmap, ?_⟩, fun _ => hmap, ?_, ?_⟩
    all_goals cases isnew <;> simp [State.setWriter, checked, hlock]

theorem cloneError_amapCloneCheck (h : (s.amapCloneCheck n isnew ok).cloneError = false) : s.cloneError = false := by
  unfold State.amapCloneCheck at h
  split_ifs at h
  all_goals exact h

theorem amapCloneCheck_eq : (s.amapCloneCheck n isnew ok).bmaps = s.bmaps ∧
    (s.amapCloneCheck n isnew ok).clone = s.clone ∧ (s.amapCloneCheck n isnew ok).amap = s.amap ∧
    (s.amapCloneCheck n isnew ok).changed = s.changed := by
  unfold State.amapCloneCheck
  split_ifs <;> exact ⟨rfl, rfl, rfl, rfl⟩

theorem unlocked_amapCloneCheck (hlock : s.cloneLock = none) (hquiet : s.inCloning = false) :
    (s.amapCloneCheck n isnew ok).cloneLock = none := by
  unfold State.amapCloneCheck
  simp [hquiet, State.setWriter, hlock]

theorem writer_amapCloneCheck (hcloning : s.inCloning = true)
    (herror : (s.amapCloneCheck n isnew ok).cloneError = false) :
    (s.amapCloneCheck n isnew ok).writer n = if s.cloneAmapId < n then .checking isnew else checked isnew := by
  have hs := cloneError_amapCloneCheck herror
  unfold State.amapCloneCheck at herror ⊢
  simp only [hcloning, hs, Bool.not_false, Bool.and_self, Bool.true_and, decide_eq_true_eq] at herror ⊢
  split_ifs at herror ⊢
  all_goals simp [State.setWriter]

theorem Inv.frame {w : Writer} (h : Inv geo s) (hf : Frame s t n) (hw : s.writer n = w) (hlt : n < geo.amapMax)
    (hat : WfAt geo t n) (hbmaps : t.bmaps.Ok) (herror : t.cloneError = false → s.cloneError = false)
    (hquiet : s.inCloning = false → t.cloneLock = none ∧ t.bmaps = s.bmaps ∧ t.clone = s.clone)
    (hrun : ∀ pc bmap, s.phase = .running pc bmap → t.cloneError = false → Running geo s pc bmap →
      MapOk (s.amap n) w (s.bmaps.IsSet n) (n ≤ s.cloneAmapId) (s.changed n) (s.clone n) (s.start n) (pc.place n) →
        BitsKept s t n ∧ MapOk (t.amap n) (t.writer n) (t.bmaps.IsSet n) (n ≤ s.cloneAmapId) (t.changed n) (t.clone n)
          (s.start n) (pc.place n)) :
    Inv geo t := by
  refine ⟨h.wf.frame hf hbmaps hat fun hc => (hquiet hc).1, fun he => ?_⟩
  have hok := h.phaseOk (herror he)
  cases hcloning : s.inCloning with
  | false =>
    obtain ⟨-, hb, hc⟩ := hquiet hcloning
    exact hok.quiet hcloning hf hb hc
  | true =>
    obtain ⟨pc, bmap, hphase⟩ := exists_running hcloning
    unfold PhaseOk at hok ⊢
    rw [hf.phase]
    simp only [hphase] at hok ⊢
    obtain ⟨hbits, hn⟩ := hrun pc bmap hphase he hok (hw ▸ hok.maps n hlt)
    rw [← hf.cloneAmapId, ← hf.start] at hn
    exact hok.frame hf hlt hbits hn

theorem Inv.look (h : Inv geo s) (hnot : s.NotFirst n) (hmap : s.amap n ≠ none) (hidle : s.writer n = .idle)
    (hlock : s.cloneLock = none) : Inv geo (s.amapCloneCheck n false ok) := by
  have hf : Frame s (s.amapCloneCheck n false ok) n := frame_amapCloneCheck hlock
  have hbmaps : (s.amapCloneCheck n false ok).bmaps = s.bmaps := amapCloneCheck_eq.1
  have htable := (h.wf.wfAt n).amap hmap
  refine h.frame hf hidle htable.1 (wfAt_amapCloneCheck hlock hmap htable (by simp)) (hbmaps ▸ h.wf.bmaps)
    cloneError_amapCloneCheck (fun hc => ⟨unlocked_amapCloneCheck hlock hc, hbmaps, amapCloneCheck_eq.2.1⟩)
    fun pc bmap hphase herror hok hold => ⟨.refl hbmaps, ?_⟩
  have hcloning : s.inCloning = true := by simp [State.inCloning, hphase]
  rw [writer_amapCloneCheck hcloning herror, hbmaps, amapCloneCheck_eq.2.1, amapCloneCheck_eq.2.2.1,
    amapCloneCheck_eq.2.2.2]
  split_ifs with hlow
  · exact hold.look hmap (Nat.not_le.mpr hlow)
  · exact hold.look_low hmap (hnot.place hok hphase htable.1 (Nat.le_of_not_lt hlow))

def State.withNew [Inhabited α] (s : State α) (n : Nat) : State α :=
  { s with amap := update s.amap n (some default) }

theorem Inv.create [Inhabited α] (h : Inv geo s) (hnot : s.NotFirst n) (hmap : s.amap n = none)
    (htable : n < geo.amapMax ∧ s.table (tableId n) = true) (hlock : s.cloneLock = none) :
    Inv geo ((s.withNew n).amapCloneCheck n true ok) := by
  have hg : Frame (s.withNew n) ((s.withNew n).amapCloneCheck n true ok) n := frame_amapCloneCheck hlock
  have hf : Frame s ((s.withNew n).amapCloneCheck n true ok) n :=
    { hg with amap := fun m hm => (hg.amap m hm).trans (update_of_ne hm _ _) }
  have hentered : s.entered n = false := by
    by_contra he
    exact ((h.wf.wfAt n).entered (by simpa using he)).1 hmap
  have hbmaps : ((s.withNew n).amapCloneCheck n true ok).bmaps = s.bmaps := amapCloneCheck_eq.1
  refine h.frame hf rfl htable.1 (wfAt_amapCloneCheck hlock (by simp [State.withNew]) htable fun _ => hentered)
    (hbmaps ▸ h.wf.bmaps) (fun he => cloneError_amapCloneCheck (s := s.withNew n) he)
    (fun hc => ⟨unlocked_amapCloneCheck (s := s.withNew n) hlock hc, hbmaps, amapCloneCheck_eq.2.1⟩)
    fun pc bmap hphase herror hok hold => ⟨.refl hbmaps, ?_⟩
  have hcloning : (s.withNew n).inCloning = true := by simp [State.inCloning, State.withNew, hphase]
  rw [hmap] at hold
  obtain ⟨-, hlow, hnew⟩ := hold.create (hnot.place hok hphase htable.1) default
  rw [writer_amapCloneCheck hcloning herror, hbmaps, amapCloneCheck_eq.2.1, amapCloneCheck_eq.2.2.1,
    amapCloneCheck_eq.2.2.2]
  split_ifs with hlt
  · simpa [State.withNew] using hnew
  · simpa [State.withNew, checked] using hlow (Nat.le_of_not_lt hlt)

theorem Inv.copy (h : Inv geo s) (hlock : s.cloneLock = some n) (hw : s.writer n = .copying) :
    Inv geo (s.copy n ok) := by
  have hat := h.wf.wfAt n
  have hmap := hat.writer (by simp [hw])
  have hwriter : ∀ m, m ≠ n → update s.writer n .ready m = s.writer m := fun m hm =>
    update_of_ne hm _ _
  have hclone : ∀ m c, m ≠ n → update s.clone n c m = s.clone m := fun m c hm =>
    update_of_ne hm _ _
  have hfree : ∀ m, m ≠ n → s.cloneLock ≠ some m := by simp +contextual [hlock, eq_comm]
  have hothers : ∀ m, m ≠ n → ((none : Option Nat) = some m ↔ s.cloneLock = some m) := by simpa using hfree
  have hf : Frame s (s.copy n ok) n := by
    cases ok
    · exact ⟨fun _ _ => rfl, hwriter, hothers, .inr hfree, fun _ _ => rfl, fun _ _ => rfl, rfl, rfl, rfl, rfl, rfl, rfl⟩
    · exact ⟨fun _ _ => rfl, hwriter, hothers, .inr hfree, fun m => hclone m _, fun _ _ => rfl, rfl, rfl, rfl, rfl, rfl, rfl⟩
  have hready : (s.copy n ok).writer n = .ready := by cases ok <;> simp [State.copy, State.setWriter]
  have hbmaps : (s.copy n ok).bmaps = s.bmaps := by cases ok <;> rfl
  have hamap : (s.copy n ok).amap = s.amap := by cases ok <;> rfl
  have hnone : (s.copy n ok).cloneLock = none := by cases ok <;> rfl
  refine h.frame hf hw (hat.amap hmap).1 (hat.release hmap hamap hf.table (.inr hready) hnone) (hbmaps ▸ h.wf.bmaps) ?_
    (fun hc => ?_) fun pc bmap hphase herror hok hold => ⟨.refl hbmaps, ?_⟩
  · cases ok with
    | false => simp [State.copy]
    | true => exact fun he => he
  · rw [h.wf.unlocked hc] at hlock
    cases hlock
  · cases ok with
    | false => cases herror
    | true =>
      simpa [State.copy, State.setWriter] using hold.copy

theorem Inv.change (h : Inv geo s) (hw : s.writer n = .ready) (m : α) :
    Inv geo { s.setWriter n .idle with
      amap := update s.amap n (some m), changed := update s.changed n true } := by
  have hat := h.wf.wfAt n
  have htable := hat.amap (hat.writer (by simp [hw]))
  have hlocked : s.cloneLock ≠ some n := fun hl => by simpa [hw] using hat.lock.mp hl
  refine h.frame (n := n) ⟨fun k hk => update_of_ne hk _ _, fun k hk => update_of_ne hk _ _,
    fun _ _ => Iff.rfl, .inl rfl, fun _ _ => rfl, fun k hk => update_of_ne hk _ _, rfl, rfl, rfl, rfl, rfl, rfl⟩
    hw htable.1 ⟨fun _ => htable, ?_, ?_, ?_, ?_⟩
    h.wf.bmaps id (fun hc => ⟨h.wf.unlocked hc, rfl, rfl⟩)
    fun pc bmap hphase herror hok hold => ⟨.refl rfl, ?_⟩
  · simp [State.setWriter]
  · simp [State.setWriter]
  · simpa [State.setWriter] using hlocked
  · simp [State.setWriter]
  · simpa [State.setWriter] using hold.change m

theorem Inv.undo (h : Inv geo s) (hchanged : s.inCloning = true → s.changed n = true) (hmap : s.amap n ≠ none)
    (hidle : s.writer n = .idle) (m : α) : Inv geo { s with amap := update s.amap n (some m) } := by
  have hat := h.wf.wfAt n
  have htable := hat.amap hmap
  refine h.frame (n := n) ⟨fun k hk => update_of_ne hk _ _, fun _ _ => rfl, fun _ _ => Iff.rfl, .inl rfl,
    fun _ _ => rfl, fun _ _ => rfl, rfl, rfl, rfl, rfl, rfl, rfl⟩ hidle htable.1
    { hat with amap := fun _ => htable, entered := fun he => ⟨by simp, (hat.entered he).2⟩, writer := fun _ => by simp }
    h.wf.bmaps id (fun hc => ⟨h.wf.unlocked hc, rfl, rfl⟩) fun pc bmap hphase _ _ hold => ⟨.refl rfl, ?_⟩
  simpa [hidle] using hold.undo hmap (hchanged (by simp [State.inCloning, hphase])) m

theorem place_freed (h : pc.place n = .freed) : pc.Freed (groupId n) := by
  cases pc with
  | done => trivial
  | _ =>
    simp only [Pc.place] at h
    split_ifs at h
    assumption

theorem frame_mark {isnew : Bool} (hlock : s.cloneLock = some n) : Frame s (s.mark n isnew ok) n := by
  have hwriter : ∀ w m, m ≠ n → update s.writer n w m = s.writer m := fun w m hm =>
    update_of_ne hm _ _
  have hfree : ∀ m, m ≠ n → s.cloneLock ≠ some m := by simp +contextual [hlock, eq_comm]
  simp only [State.mark]
  split_ifs
  all_goals exact ⟨fun _ _ => rfl, hwriter _, fun m hm => by simp [State.setWriter, hfree m hm], .inr hfree,
    fun _ _ => rfl, fun _ _ => rfl, rfl, rfl, rfl, rfl, rfl, rfl⟩

theorem Inv.mark {isnew : Bool} (h : Inv geo s) (hallowed : Allowed s (.mark ok)) (hlock : s.cloneLock = some n)
    (hw : s.writer n = .checking isnew) : Inv geo (s.mark n isnew ok) := by
  have hat := h.wf.wfAt n
  have hmap := hat.writer (by simp [hw])
  have hlt := (hat.amap hmap).1
  obtain ⟨hordered, hfreed⟩ := hallowed n hlock
  obtain ⟨hlocated, hhas, hset, hlist⟩ := h.wf.bmaps.locate hordered
  have hf : Frame s (s.mark n isnew ok) n := frame_mark hlock
  have hquiet : s.inCloning = false → False := fun hc => by simp [h.wf.unlocked hc] at hlock
  have hchecked : ∀ isnew, checked isnew = .idle ∨ checked isnew = .ready := by decide
  have hbits : ∀ m < 2 ^ 32, m ≠ n → (((s.bmaps.locate n).1.setBit (s.bmaps.locate n).2 n).IsSet m ↔ s.bmaps.IsSet m) := by
    intro m hm hne
    rw [Bitmaps.isSet_setBit hlocated hhas (Nat.lt_of_lt_of_le hlt geo.le) hm, hset]
    simp [hne]
  have hself : ((s.bmaps.locate n).1.setBit (s.bmaps.locate n).2 n).IsSet n := by
    rw [Bitmaps.isSet_setBit hlocated hhas (Nat.lt_of_lt_of_le hlt geo.le) (Nat.lt_of_lt_of_le hlt geo.le)]
    exact .inl rfl
  simp only [State.mark] at hf ⊢
  cases ok with
  | false =>
    refine h.frame hf hw hlt (hat.release hmap rfl rfl ?_ rfl) h.wf.bmaps (by simp) (fun hc => (hquiet hc).elim)
      fun pc bmap hphase herror hok hold => by simp at herror
    simpa [State.setWriter] using hchecked isnew
  | true =>
    by_cases hbit : (s.bmaps.locate n).1.bitIsSet (s.bmaps.locate n).2 n = true
    · rw [if_pos hbit] at hf ⊢
      refine h.frame hf hw hlt (hat.release hmap rfl rfl ?_ rfl) hlocated id (fun hc => (hquiet hc).elim)
        fun pc bmap hphase herror hok hold => ⟨⟨fun m _ _ => hset m, hlist⟩, ?_⟩
      · simpa [State.setWriter] using hchecked isnew
      · simpa [State.setWriter, hset] using hold.found ((hset n).mp ((hlocated.bitIsSet_iff hhas).mp hbit))
    · rw [if_neg hbit] at hf ⊢
      have hunset : ¬s.bmaps.IsSet n := fun hs => hbit ((hlocated.bitIsSet_iff hhas).mpr ((hset n).mpr hs))
      cases isnew with
      | true =>
        refine h.frame hf hw hlt (hat.release hmap rfl rfl (.inl ?_) rfl) hlocated.setBit id
          (fun hc => (hquiet hc).elim) fun pc bmap hphase herror hok hold => ⟨⟨hbits, hlist⟩, ?_⟩
        · simp [State.setWriter]
        · simpa [State.setWriter, hself] using hold.markNew
      | false =>
        refine h.frame hf hw hlt ⟨hat.amap, fun _ => ⟨hmap, ?_⟩, fun _ => hmap, ?_, ?_⟩ hlocated.setBit id
          (fun hc => (hquiet hc).elim) fun pc bmap hphase herror hok hold => ⟨⟨hbits, hlist⟩, ?_⟩
        · simp [State.setWriter]
        · simp [State.setWriter, hlock]
        · simp
        · have hplace : pc.place n ≠ .freed := fun hp => hunset (hfreed pc bmap hphase (place_freed hp) hw)
          simpa [State.setWriter, hself] using hold.claim hunset hplace

end QuadStor.Cloning
