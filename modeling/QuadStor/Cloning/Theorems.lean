import QuadStor.Cloning.Lemmas.Thread

/-!
# A clone has the maps of one moment
-/

namespace QuadStor.Cloning

open Lib Function

variable {α : Type} {geo : Geometry} {s t : State α} {n : Nat} {a : Action α}

theorem Initial.inv (h : Initial geo s) : Inv geo s := by
  have hwriter : ∀ n, s.writer n ≠ .copying ∧ ∀ isnew, s.writer n ≠ .checking isnew := by
    intro n
    obtain hw | hw := h.writer n
    · simp [hw]
    · simp [hw.1]
  refine ⟨⟨fun n => ?_, h.bmaps ▸ Bitmaps.ok_empty, fun _ => h.cloneLock⟩, fun _ => ?_⟩
  · refine ⟨h.amap n, fun he => ⟨h.entered n he, (hwriter n).2 true⟩, fun hw => ?_, ?_, fun hw => ?_⟩
    · obtain hidle | hready := h.writer n
      · exact absurd hidle hw
      · exact hready.2
    · simp [h.cloneLock, hwriter n]
    · exact absurd hw (hwriter n).1
  · simp only [PhaseOk, h.phase]
    exact ⟨h.cloneAmapId, h.bmaps, h.tableBmap, h.clone⟩

theorem geo_tableMax_pos : 0 < geo.tableMax := by
  have := geo.pos
  unfold Geometry.tableMax amapsPerAmapTable
  omega

section

variable (h : Inv geo s)
include h

theorem Inv.start (hphase : s.phase = .idle) (hallowed : Allowed s .start) :
    Inv geo { s with phase := .running (.table 0) none, start := s.amap, changed := fun _ => false } := by
  obtain ⟨hwriter, hentered⟩ := hallowed
  have hlock := h.wf.unlocked (by simp [State.inCloning, hphase])
  refine ⟨⟨fun n => { h.wf.wfAt n with }, h.wf.bmaps, fun _ => hlock⟩, fun herror => ?_⟩
  have hidle : Idle s := by
    have hok := h.phaseOk herror
    simpa only [PhaseOk, hphase] using hok
  refine ⟨geo_tableMax_pos, fun n hn => ?_, fun n hn h0 hlow => ?_, fun n hne => ?_, fun n _ => hidle.clone n, trivial⟩
  · show MapOk (s.amap n) (s.writer n) (s.bmaps.IsSet n) (n ≤ s.cloneAmapId) (false = true) (s.clone n) (s.amap n) .ahead
    rw [hwriter n, hidle.bmaps, hidle.clone n]
    cases hmap : s.amap n with
    | none => exact ⟨rfl, by simp, by simp, by simp, by simp, by simp⟩
    | some a => exact ⟨by simp, .inl ⟨.inl rfl, Bitmaps.not_isSet_empty, Bool.false_ne_true, rfl, rfl⟩⟩
  · rw [hidle.cloneAmapId] at hlow
    omega
  · exact ⟨((h.wf.wfAt n).amap hne).1, hentered n hne, hidle.tableBmap _⟩

theorem Inv.grow {table tableBmap entered : Nat → Bool} {error : Bool}
    (herror : error = false → s.cloneError = false) (htable : ∀ k, s.table k = true → table k = true)
    (hentered : ∀ m, s.entered m = true → entered m = true)
    (hnew : ∀ m, entered m = true → s.entered m = true ∨ s.amap m ≠ none ∧ s.writer m ≠ .checking true)
    (htableBmap : s.inCloning = false → tableBmap = s.tableBmap)
    (hold : ∀ k, s.table k = true → tableBmap k = s.tableBmap k) :
    Inv geo { s with table, entered, tableBmap, cloneError := error } := by
  refine ⟨⟨fun m => ?_, h.wf.bmaps, h.wf.unlocked⟩, fun he => ?_⟩
  · have hat := h.wf.wfAt m
    refine { hat with amap := fun hm => ⟨(hat.amap hm).1, htable _ (hat.amap hm).2⟩, entered := fun he => ?_ }
    obtain hs | hs := hnew m he
    · exact hat.entered hs
    · exact hs
  · have hok := h.phaseOk (herror he)
    unfold PhaseOk at hok ⊢
    cases hp : s.phase with
    | idle =>
      simp only [hp] at hok ⊢
      have hquiet : s.inCloning = false := by simp [State.inCloning, hp]
      exact { hok with tableBmap := htableBmap hquiet ▸ hok.tableBmap }
    | running pc bmap =>
      simp only [hp] at hok ⊢
      refine { hok with pcOk := hok.pcOk.mono hentered, start := fun m hm => ?_, bmapOk := hok.bmapOk.mono fun _ _ => id }
      obtain ⟨hlt, hent, hbmap⟩ := hok.start m hm
      have htab := ((h.wf.wfAt m).amap ((h.wf.wfAt m).entered hent).1).2
      exact ⟨hlt, hentered m hent, (hold _ htab).trans hbmap⟩
    | finished => simpa only [hp] using hok

theorem Inv.enter (hmap : s.amap n ≠ none) (hw : s.writer n ≠ .checking true) :
    Inv geo { s with entered := update s.entered n true } := by
  refine h.grow id (fun _ => id) (fun m hm => ?_) (fun m hm => ?_) (fun _ => rfl) fun _ _ => rfl
  · by_cases heq : m = n
    · simp [heq]
    · simpa [update_of_ne heq] using hm
  · by_cases heq : m = n
    · exact .inr (heq ▸ ⟨hmap, hw⟩)
    · exact .inl (by simpa [update_of_ne heq] using hm)

theorem Inv.newTable {k : Nat} {ok : Bool} (hnew : s.table k = false) :
    Inv geo ({ s with table := update s.table k true }.tableCheck k ok) := by
  have htable : ∀ j, s.table j = true → update s.table k true j = true := by
    intro j hj
    by_cases heq : j = k
    · simp [heq]
    · rwa [update_of_ne heq]
  unfold State.tableCheck
  split_ifs with hcloning hok
  · refine h.grow id htable (fun _ => id) (fun _ hm => .inl hm) (fun hquiet => ?_) fun j hj => ?_
    · have : s.inCloning = true := by
        simp only [Bool.and_eq_true] at hcloning
        exact hcloning.1.1
      simp [this] at hquiet
    · refine update_of_ne ?_ _ _
      rintro rfl
      simp [hnew] at hj
  · exact h.grow (by simp) htable (fun _ => id) (fun _ hm => .inl hm) (fun _ => rfl) fun _ _ => rfl
  · exact h.grow id htable (fun _ => id) (fun _ hm => .inl hm) (fun _ => rfl) fun _ _ => rfl

theorem Inv.cancel : Inv geo { s with cloneError := true } :=
  h.grow (by simp) (fun _ => id) (fun _ => id) (fun _ hm => .inl hm) (fun _ => rfl) fun _ _ => rfl

end

theorem MapOk.length_clone {amap start : Option α} {w : Writer} {set low changed : Prop} {clone : List α} {p : Place α}
    (h : MapOk amap w set low changed clone start p) : clone.length ≤ 1 := by
  cases start with
  | none => simp [h.clone]
  | some a =>
    have hclone : clone = [] ∨ clone = [a] := by
      obtain ⟨-, hkept⟩ := h
      cases p with
      | ahead =>
        obtain hu | hc | hd := hkept
        · exact .inl hu.2.2.2.1
        · exact .inl hc.2.2.1
        · exact .inr hd.2.2
      | storing m => exact .inl hkept.2.2.2
      | behind =>
        obtain hc | hd := hkept
        · exact .inl hc.2.2.1
        · exact .inr hd.2.2
      | settled => exact .inr hkept.2.2
      | freed => exact .inr hkept.2
    obtain rfl | rfl := hclone <;> simp

theorem Inv.exact (h : Inv geo s) : Exact s := by
  refine ⟨fun herror n => ?_, fun hphase herror => ?_⟩
  · have hok := h.phaseOk herror
    unfold PhaseOk at hok
    cases hp : s.phase with
    | idle =>
      simp only [hp] at hok
      simp [hok.clone n]
    | running pc bmap =>
      simp only [hp] at hok
      by_cases hn : n < geo.amapMax
      · exact (hok.maps n hn).length_clone
      · simp [hok.beyond n (Nat.le_of_not_lt hn)]
    | finished =>
      simp only [hp] at hok
      rw [hok n]
      cases s.start n <;> simp
  · have hok := h.phaseOk herror
    simpa only [PhaseOk, hphase] using hok

variable [Inhabited α]

theorem Inv.exec (h : Inv geo s) (hallowed : Allowed s a) (hstep : exec geo s a = some t) : Inv geo t := by
  cases a with
  | start =>
    simp only [Cloning.exec] at hstep
    split at hstep <;> cases hstep
    exact h.start ‹_› hallowed
  | newTable k ok =>
    obtain ⟨hguard, rfl⟩ := System.of_guard_not hstep
    simp only [Bool.or_eq_true, not_or, Bool.not_eq_true] at hguard
    exact h.newTable hguard.1.1
  | create n ok =>
    obtain ⟨hguard, rfl⟩ := System.of_guard_not hstep
    simp only [Bool.or_eq_true, not_or, Bool.not_eq_true, Option.isSome_eq_false_iff, Option.isNone_iff_eq_none,
      Bool.not_eq_false', decide_eq_false_iff_not, Nat.not_le] at hguard
    exact h.create hallowed hguard.1.1.1 ⟨hguard.1.2, hguard.1.1.2⟩ hguard.2
  | enter n =>
    obtain ⟨hguard, rfl⟩ := System.of_guard_not hstep
    simp only [Bool.or_eq_true, not_or, Option.isNone_iff_eq_none, beq_iff_eq] at hguard
    exact h.enter hguard.1 hguard.2
  | look n ok =>
    obtain ⟨hguard, rfl⟩ := System.of_guard_not hstep
    simp only [Bool.or_eq_true, not_or, Option.isNone_iff_eq_none, bne_iff_ne, ne_eq, Decidable.not_not] at hguard
    exact h.look hallowed hguard.1.1 hguard.1.2 (by simpa using hguard.2)
  | mark ok =>
    simp only [Cloning.exec] at hstep
    split at hstep
    · cases hstep
    · rename_i n hlock
      split at hstep
      · rename_i isnew hw
        cases hstep
        exact h.mark hallowed hlock hw
      · cases hstep
  | copy ok =>
    simp only [Cloning.exec] at hstep
    split at hstep
    · cases hstep
    · rename_i n hlock
      split_ifs at hstep with hw
      cases hstep
      exact h.copy hlock hw
  | change n m =>
    obtain ⟨hw, rfl⟩ := System.of_guard hstep
    exact h.change hw m
  | undo n m =>
    obtain ⟨hguard, rfl⟩ := System.of_guard_not hstep
    simp only [Bool.or_eq_true, not_or, Option.isNone_iff_eq_none, bne_iff_ne, ne_eq, Decidable.not_not] at hguard
    exact h.undo hallowed hguard.1 hguard.2 m
  | cancel =>
    cases hstep
    exact h.cancel
  | sweep ok => exact h.sweep hallowed hstep

theorem inv_invariant : ((system (α := α) geo).restrict Allowed).Invariant (Inv geo) where
  init := Initial.inv
  step h hstep := h.exec hstep.1 hstep.2

/-- In every run whose steps are all `Allowed` the clone gets the maps of its start, each of them once. -/
theorem clone_point_in_time (hs : ((system geo).restrict Allowed).Reachable s) : Exact s :=
  (inv_invariant.reachable hs).exact

def pairGeo : Geometry := ⟨2, by decide, by decide⟩

def pairDisk : State Nat where
  amap n := if n < 2 then some n else none
  entered n := decide (n < 2)
  table t := decide (t = 0)
  writer _ := .idle
  cloneLock := none
  phase := .idle
  cloneAmapId := 0
  cloneError := false
  cloneBusy := 0
  bmaps := .empty
  tableBmap _ := false
  clone _ := []
  start _ := none
  changed _ := false

theorem pairDisk_present (h : pairDisk.amap n ≠ none) : n < 2 := by
  by_contra hn
  exact h (if_neg hn)

theorem pairDisk_initial : Initial pairGeo pairDisk where
  phase := rfl
  cloneLock := rfl
  cloneError := rfl
  cloneAmapId := rfl
  cloneBusy := rfl
  bmaps := rfl
  tableBmap _ := rfl
  clone _ := rfl
  writer _ := .inl rfl
  amap n h := by
    have hn := pairDisk_present h
    exact ⟨hn, decide_eq_true (Nat.div_eq_of_lt (hn.trans (by decide)))⟩
  entered n h hnone := by
    have hmap : pairDisk.amap n = some n := if_pos (of_decide_eq_true h)
    cases hmap.symm.trans hnone

def pairActions : List (Action Nat) :=
  [.start, .look 1 true, .mark true, .copy true, .change 1 5, .look 1 true, .mark true, .change 1 7, .undo 1 6] ++
    List.replicate 10 (.sweep true)

def State.claimOrdered (s : State Nat) : Bool :=
  match s.phase with
  | .running (.claim n) _ => decide (s.bmaps.Ordered n)
  | _ => true

theorem pair_allowed : System.Along (fun s a => Allowed s a ∧ (exec pairGeo s a).isSome) (System.runOf (exec pairGeo))
    pairDisk pairActions := by
  have hsweep : ∀ {s : State Nat}, s.claimOrdered ∧ (exec pairGeo s (.sweep true)).isSome →
      Allowed s (.sweep true) ∧ (exec pairGeo s (.sweep true)).isSome := fun h =>
    ⟨fun n bmap hphase => by simpa [State.claimOrdered, hphase] using h.1, h.2⟩
  refine ⟨⟨⟨fun _ => rfl, fun n h => ?_⟩, rfl⟩, ⟨fun _ _ _ _ => by decide, rfl⟩, ⟨fun n h => ?_, by decide +kernel⟩,
    ⟨trivial, by decide +kernel⟩, ⟨trivial, by decide +kernel⟩, ⟨fun _ _ _ _ => by decide, by decide +kernel⟩,
    ⟨fun n h => ?_, by decide +kernel⟩, ⟨trivial, by decide +kernel⟩, ⟨fun _ => by decide +kernel, by decide +kernel⟩, ?_⟩
  · exact decide_eq_true (pairDisk_present h)
  · cases h
    exact ⟨nofun, fun pc bmap hphase hfreed => by cases hphase; cases hfreed⟩
  · cases h
    exact ⟨by decide +kernel, fun pc bmap hphase hfreed => by cases hphase; cases hfreed⟩
  · exact ⟨hsweep (by decide +kernel), hsweep (by decide +kernel), hsweep (by decide +kernel), hsweep (by decide +kernel),
      hsweep (by decide +kernel), hsweep (by decide +kernel), hsweep (by decide +kernel), hsweep (by decide +kernel),
      hsweep (by decide +kernel), hsweep (by decide +kernel), trivial⟩

theorem clone_point_in_time_pair : ∃ s : State Nat, ((system pairGeo).restrict Allowed).Reachable s ∧
    s.phase = .finished ∧ s.cloneError = false ∧ s.amap 1 = some 6 ∧ Exact s := by
  have hstep : ∀ {s : State Nat} {a}, Allowed s a ∧ (exec pairGeo s a).isSome →
      ((system pairGeo).restrict Allowed).step s a (System.runOf (exec pairGeo) s a) := fun h => ⟨h.1, System.exec_runOf h.2⟩
  have hreach : ((system pairGeo).restrict Allowed).Reachable (pairActions.foldl (System.runOf (exec pairGeo)) pairDisk) :=
    .foldl hstep (.init pairDisk_initial) pair_allowed
  exact ⟨_, hreach, by decide +kernel, by decide +kernel, by decide +kernel, clone_point_in_time hreach⟩

/-! ## The first map

`amap_clone_check` takes a map whose id is at most `clone_amap_id` for one the thread has passed, and
`clone_amap_id` is zero to begin with. -/

def firstActions : List (Action Nat) := [.start, .look 0 true, .change 0 9] ++ List.replicate 12 (.sweep true)

theorem first_map_not_copied : ∃ s : State Nat, (system pairGeo).Reachable s ∧ s.phase = .finished ∧
    s.cloneError = false ∧ s.start 0 = some 0 ∧ s.clone 0 = [9] ∧ ¬Exact s := by
  have hreach : (system pairGeo).Reachable (firstActions.foldl (System.runOf (exec pairGeo)) pairDisk) := by
    refine .foldl (fun h => System.exec_runOf h) (.init pairDisk_initial) ?_
    decide +kernel
  refine ⟨_, hreach, by decide +kernel, by decide +kernel, by decide +kernel, by decide +kernel, fun h => ?_⟩
  exact absurd (h.same (by decide +kernel) (by decide +kernel) 0) (by decide +kernel)

end QuadStor.Cloning
