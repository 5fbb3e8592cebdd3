import QuadStor.Fastlog.Lemmas.Serials
import QuadStor.StandbySync.Basic

/-!
# The standby keeps the newest metadata
-/

namespace QuadStor.StandbySync

open Lib Fastlog List Function

variable {α : Type} {s t : State α} {h : History α} {m : Meta α} {image : Image α} {o o' : Obj} {n writeId : Nat}

structure Tracked (h : History α) (m : Meta α) : Prop where
  kept : Kept h m
  zero : h.images = [] → m.writeId = 0
  posts : ∀ writeId ∈ h.posts, writeId ≤ m.writeId

def PostsBehind (h : History α) : Prop := ∀ writeId ∈ h.posts, writeId = 0 ∨ ∃ image ∈ h.images, writeId ≤ image.writeId

def ObjOk (h : History α) : Option (Meta α) → Prop
  | none => PostsBehind h
  | some m => Tracked h m

theorem Kept.le (hk : Kept h m) {other : Image α} (hother : other ∈ h.images) : other.writeId ≤ m.writeId := by
  obtain ⟨newest, -, -, hid, hle⟩ := hk.newest (ne_nil_of_mem hother)
  exact hid ▸ hle other hother

theorem Tracked.accept (himages : ∀ other ∈ h.images, other.writeId ≤ image.writeId)
    (hposts : ∀ writeId ∈ h.posts, writeId < image.writeId) {isNew : Bool} :
    Tracked ⟨image :: h.images, h.posts⟩ ⟨some image.metadata, image.writeId, false, true, isNew⟩ := by
  refine ⟨⟨fun _ => ⟨image, mem_cons_self, rfl, rfl, forall_mem_cons.2 ⟨le_rfl, himages⟩⟩, nofun, ?_⟩, nofun,
    fun w hw => Nat.le_of_lt (hposts w hw)⟩
  exact ⟨fun _ => ⟨cons_ne_nil _ _, fun hpost => Nat.lt_irrefl _ (hposts _ hpost)⟩, fun _ => rfl⟩

theorem Tracked.receive_new {invalid : Bool} (hbehind : PostsBehind h) (htimely : Timely h none image) :
    Tracked ⟨image :: h.images, h.posts⟩ (Meta.receive { Meta.zeroed with invalid } image) := by
  obtain ⟨himages, hagain⟩ := htimely.freed rfl
  have hgreater := writeIdGreater_of_le (Nat.zero_le _) htimely.window htimely.lt
  simp only [Meta.receive, Meta.zeroed, hgreater, Bool.false_eq_true, if_false]
  refine .accept himages fun w hw => Nat.lt_of_le_of_ne ?_ fun heq => hagain (heq ▸ hw)
  obtain rfl | ⟨other, hother, hle⟩ := hbehind w hw
  · exact Nat.zero_le _
  · exact Nat.le_trans hle (himages other hother)

section

variable (ht : Tracked h m)
include ht

theorem Tracked.behind : PostsBehind h := by
  intro w hw
  have hle := ht.posts w hw
  by_cases hnil : h.images = []
  · rw [ht.zero hnil] at hle
    exact .inl (Nat.le_zero.mp hle)
  · obtain ⟨newest, hmem, -, hid, -⟩ := ht.kept.newest hnil
    exact .inr ⟨newest, hmem, hid ▸ hle⟩

theorem Tracked.late (hlt : image.writeId < m.writeId) : Tracked ⟨image :: h.images, h.posts⟩ m := by
  have himages : h.images ≠ [] := fun hnil => by
    rw [ht.zero hnil] at hlt
    exact Nat.not_lt_zero _ hlt
  obtain ⟨newest, hmem, hdata, hid, hle⟩ := ht.kept.newest himages
  refine ⟨⟨fun _ => ⟨newest, mem_cons_of_mem _ hmem, hdata, hid, forall_mem_cons.2
    ⟨hid ▸ Nat.le_of_lt hlt, hle⟩⟩, fun hinvalid => absurd (ht.kept.invalid hinvalid) himages, ?_⟩, nofun, ht.posts⟩
  · rw [ht.kept.ioPending]
    simp [himages]

theorem Tracked.receive (hwindow : image.writeId ≤ m.writeId + 2 ^ 32)
    (hlt : image.writeId < 2 ^ 48) (hagain : m.writeId = image.writeId → m.writeId ∉ h.posts) :
    Tracked ⟨image :: h.images, h.posts⟩ (m.receive image) := by
  by_cases hle : m.writeId ≤ image.writeId
  · simp only [Meta.receive, writeIdGreater_of_le hle hwindow hlt, Bool.false_eq_true, if_false]
    refine .accept (fun other hother => Nat.le_trans (ht.kept.le hother) hle) fun w hw => ?_
    have hwle := ht.posts w hw
    by_contra hnot
    have heq : m.writeId = image.writeId := by omega
    exact hagain heq ((show w = m.writeId by omega) ▸ hw)
  · simp only [Meta.receive, writeIdGreater_of_lt (Nat.lt_of_not_le hle), if_true]
    exact ht.late (Nat.lt_of_not_le hle)

theorem Tracked.post (hle : writeId ≤ m.writeId) : Tracked ⟨h.images, writeId :: h.posts⟩ (m.post writeId) := by
  have hposts : ∀ w ∈ writeId :: h.posts, w ≤ m.writeId := forall_mem_cons.2 ⟨hle, ht.posts⟩
  unfold Meta.post
  split_ifs with heq
  · refine ⟨⟨ht.kept.newest, ht.kept.invalid, ?_⟩, ht.zero, hposts⟩
    simp [heq]
  · refine ⟨⟨ht.kept.newest, ht.kept.invalid, ?_⟩, ht.zero, hposts⟩
    rw [ht.kept.ioPending]
    simp [heq]

theorem Tracked.clearNew : Tracked h m.clearNew :=
  ⟨⟨ht.kept.newest, ht.kept.invalid, ht.kept.ioPending⟩, ht.zero, ht.posts⟩

end

theorem PostsBehind.zeroed (hbehind : PostsBehind h) (himages : h.images = []) {invalid : Bool} :
    Tracked h { Meta.zeroed with invalid } := by
  refine ⟨⟨fun hne => absurd himages hne, fun _ => himages, by simp [Meta.zeroed, himages]⟩, fun _ => rfl, fun w hw => ?_⟩
  obtain rfl | ⟨other, hother, -⟩ := hbehind w hw
  · exact Nat.le_refl _
  · simp [himages] at hother

structure Ok (s : State α) : Prop where
  obj : ∀ o, ObjOk (s.history o) (s.obj o)

section

variable (hok : Ok s)
include hok

theorem Ok.tracked (ho : s.obj o = some m) : Tracked (s.history o) m := by
  have h := hok.obj o
  rwa [ho] at h

theorem Ok.absent (ho : s.obj o = none) : PostsBehind (s.history o) := by
  have h := hok.obj o
  rwa [ho] at h

theorem Ok.record (hm : Tracked h m) : Ok ((s.set o m).setHistory o h) := by
  refine ⟨fun o' => ?_⟩
  by_cases heq : o' = o
  · subst heq
    simpa [State.set, State.setHistory, ObjOk] using hm
  · simpa [State.set, State.setHistory, update_of_ne heq] using hok.obj o'

theorem Ok.set (hm : Tracked (s.history o) m) : Ok (s.set o m) := by
  simpa [State.set, State.setHistory] using Ok.record (o := o) hok hm

theorem Ok.remove : Ok (s.remove o) := by
  refine ⟨fun o' => ?_⟩
  by_cases heq : o' = o
  · subst heq
    have hbehind : PostsBehind (s.history o') := by
      cases ho : s.obj o' with
      | none => exact hok.absent ho
      | some m => exact (hok.tracked ho).behind
    simpa [State.remove, ObjOk] using hbehind
  · simpa [State.remove, update_of_ne heq] using hok.obj o'

theorem Ok.receive_present (ho : s.obj o = some m) (htimely : Timely (s.history o) (s.obj o) image) :
    Ok (s.receive o image) := by
  have ht := hok.tracked ho
  have hagain : m.writeId = image.writeId → m.writeId ∉ (s.history o).posts := fun heq =>
    (ht.kept.ioPending.mp (htimely.again m ho heq)).2
  simp only [State.receive, ho]
  exact hok.record (ht.receive (by simpa [ho] using htimely.window) htimely.lt hagain)

theorem Ok.receive_new (invalid : Bool) (ho : s.obj o = none) (htimely : Timely (s.history o) (s.obj o) image) :
    Ok ((s.set o { Meta.zeroed with invalid }).receive o image) := by
  have hset : (s.set o { Meta.zeroed with invalid }).receive o image =
      (s.set o (Meta.receive { Meta.zeroed with invalid } image)).setHistory o
        ⟨image :: (s.history o).images, (s.history o).posts⟩ := by
    simp [State.receive, State.set, State.setHistory]
  rw [hset]
  exact hok.record (.receive_new (hok.absent ho) (ho ▸ htimely))

theorem Ok.post (hle : ∀ m, s.obj o = some m → writeId ≤ m.writeId) (hpost : s.post o writeId = some t) : Ok t := by
  unfold State.post at hpost
  split at hpost
  · rename_i m ho
    cases hpost
    exact hok.record ((hok.tracked ho).post (hle m ho))
  · cases hpost

theorem Ok.clearNew : Ok (s.clearNew o) := by
  unfold State.clearNew
  split
  · exact hok.set (hok.tracked ‹_›).clearNew
  · exact hok

theorem Ok.amapTableCreate (himages : s.obj o = none → (s.history o).images = []) : Ok (s.amapTableCreate o) := by
  unfold State.amapTableCreate
  split_ifs with hsome
  · exact hok
  · have ho : s.obj o = none := by simpa using hsome
    exact hok.set ((hok.absent ho).zeroed (himages ho))

end

theorem amapTableCreate_ne (hne : o' ≠ o) : (s.amapTableCreate o).obj o' = s.obj o' := by
  unfold State.amapTableCreate
  split_ifs
  · rfl
  · exact update_of_ne hne _ _

theorem history_amapTableCreate : (s.amapTableCreate o).history = s.history := by
  unfold State.amapTableCreate
  split_ifs <;> rfl

theorem exists_amapTableCreate : ∃ m, (s.amapTableCreate o).obj o = some m ∧ (s.obj o = some m ∨ m.invalid = true) := by
  unfold State.amapTableCreate
  split_ifs with hsome
  · obtain ⟨m, hm⟩ := Option.isSome_iff_exists.mp hsome
    exact ⟨m, hm, .inl hm⟩
  · exact ⟨_, update_self _ _ _, .inr rfl⟩

theorem Ok.nodeAmapTableSyncRecv {k : Nat} {page table : Bool} (hok : Ok s)
    (htimely : Timely (s.history (.table k)) (s.obj (.table k)) image) :
    Ok (nodeAmapTableSyncRecv s k image page table) := by
  unfold StandbySync.nodeAmapTableSyncRecv State.amapTableCreate
  split_ifs with hfault hsome
  · exact hok
  · obtain ⟨m, hm⟩ := Option.isSome_iff_exists.mp hsome
    exact hok.receive_present hm htimely
  · exact hok.receive_new _ (by simpa using hsome) htimely

theorem Ok.nodeAmapSyncRecv {page table amap : Bool} (hok : Ok s)
    (hnew : s.obj (.amap n) = none → ∀ m, s.obj (tableOf n) = some m → m.invalid = true)
    (hcreated : s.obj (tableOf n) = none → (s.history (tableOf n)).images = [])
    (htimely : Timely (s.history (.amap n)) (s.obj (.amap n)) image) :
    Ok (nodeAmapSyncRecv s n image page table amap) := by
  have hok' := hok.amapTableCreate hcreated
  have hamap : (s.amapTableCreate (tableOf n)).obj (.amap n) = s.obj (.amap n) := amapTableCreate_ne (by simp [tableOf])
  rw [← hamap, ← history_amapTableCreate (s := s) (o := tableOf n)] at htimely
  unfold StandbySync.nodeAmapSyncRecv
  split_ifs with hfault
  · exact hok
  simp only
  split_ifs
  · exact hok'
  · unfold State.amapCreate
    split_ifs with hsome
    · obtain ⟨m, hm⟩ := Option.isSome_iff_exists.mp hsome
      exact hok'.receive_present hm htimely
    · have hnone : (s.amapTableCreate (tableOf n)).obj (.amap n) = none := by simpa using hsome
      obtain ⟨m, hm, hold⟩ := exists_amapTableCreate (s := s) (o := tableOf n)
      have hsame : { m with invalid := true } = m := by rw [← hold.elim (hnew (hamap ▸ hnone) m) id]
      have hne : Obj.amap n ≠ tableOf n := by simp [tableOf]
      simp only [hm, hsame]
      refine (hok'.set (hok'.tracked hm)).receive_new false ?_ ?_
      · simpa [State.set, update_of_ne hne] using hnone
      · simpa [State.set, update_of_ne hne] using htimely

theorem Ok.amapTableFreeUnused (hok : Ok s) : Ok (amapTableFreeUnused s n) := by
  unfold StandbySync.amapTableFreeUnused
  split
  · split_ifs
    · exact hok
    · exact hok.remove
  · exact hok

theorem Ok.tdiskFreeThread (hok : Ok s) (n : Nat) : Ok (tdiskFreeThread s n) := by
  unfold StandbySync.tdiskFreeThread
  cases s.isEmpty n with
  | true => exact hok.remove
  | false => exact hok

theorem ok_invariant : ((system (α := α)).restrict Allowed).Invariant Ok where
  init := by
    rintro s rfl
    refine ⟨fun o => ?_⟩
    simp [ObjOk, PostsBehind, State.empty]
  step := by
    rintro s a t hok ⟨hallowed, hstep⟩
    cases a with
    | amap n image page table amap =>
      cases hstep
      exact hok.nodeAmapSyncRecv hallowed.1 hallowed.2.1 hallowed.2.2
    | amapMeta n =>
      cases hstep
      unfold nodeAmapMetaSyncRecv
      split_ifs
      · exact hok
      · exact hok.clearNew
    | amapPost n writeId =>
      simp only [system, exec, nodeAmapSyncPostRecv] at hstep
      split_ifs at hstep
      exact hok.post hallowed hstep
    | table k image page table =>
      cases hstep
      exact hok.nodeAmapTableSyncRecv hallowed
    | tableMeta k =>
      cases hstep
      exact hok.clearNew
    | tablePost k writeId => exact hok.post hallowed hstep
    | freeAmap n =>
      cases hstep
      exact hok.amapTableFreeUnused
    | freeTable k =>
      simp only [system, exec, Option.some.injEq] at hstep
      exact hstep ▸ hok.tdiskFreeThread k

/-- In every run whose steps are all `Allowed`, each map and each table in memory is `Kept`. -/
theorem standby_keeps_newest (hs : (system.restrict Allowed).Reachable s) (ho : s.obj o = some m) : Kept (s.history o) m :=
  ((ok_invariant.reachable hs).tracked ho).kept

/-- The last image comes after the map was taken out of memory. -/
def lateImage : List (Action Nat) :=
  [.amap 0 ⟨2, 20, true⟩ true true true, .amap 0 ⟨4, 40, false⟩ true true true, .amap 0 ⟨3, 30, false⟩ true true true,
    .amapPost 0 2, .amapMeta 0, .amapPost 0 4, .freeAmap 0, .amap 0 ⟨5, 50, false⟩ true true true]

theorem standby_keeps_newest_late : ∃ (s : State Nat) (m : Meta Nat), (system.restrict Allowed).Reachable s ∧
    s.obj (.amap 0) = some m ∧ m = ⟨some 50, 5, false, true, false⟩ ∧ Kept (s.history (.amap 0)) m := by
  have hstep : ∀ {s : State Nat} {a}, Allowed s a ∧ (exec s a).isSome →
      (system.restrict Allowed).step s a (System.runOf exec s a) := fun h => ⟨h.1, System.exec_runOf h.2⟩
  have hreach : (system.restrict Allowed).Reachable (lateImage.foldl (System.runOf exec) .empty) := by
    refine .foldl hstep (.init rfl) ⟨⟨⟨fun _ => nofun, fun _ => rfl, by decide, by decide, nofun, fun _ => by decide⟩, rfl⟩,
      ⟨⟨nofun, nofun, by decide, by decide, ?_, nofun⟩, rfl⟩, ⟨⟨nofun, nofun, by decide, by decide, ?_, nofun⟩, rfl⟩,
      ⟨?_, rfl⟩, ⟨trivial, rfl⟩, ⟨?_, rfl⟩, ⟨trivial, rfl⟩,
      ⟨⟨fun _ => ?_, nofun, by decide, by decide, nofun, fun _ => by decide⟩, rfl⟩, trivial⟩
    · rintro m ⟨⟩ heq
      cases heq
    · rintro m ⟨⟩ heq
      cases heq
    all_goals
      rintro m ⟨⟩
      decide
  exact ⟨_, _, hreach, rfl, rfl, standby_keeps_newest hreach rfl⟩

/-! ## The mark of a table

`amap_create` sets `ATABLE_META_DATA_INVALID` in the flags of the table, where the new map is meant. -/

def newMap : List (Action Nat) := [.table 0 ⟨1, 10, true⟩ true true, .amap 0 ⟨1, 20, true⟩ true true true]

theorem table_marked_invalid : ∃ (s : State Nat) (m : Meta Nat), system.Reachable s ∧ s.obj (.table 0) = some m ∧
    m = ⟨some 10, 1, true, true, true⟩ ∧ ¬Kept (s.history (.table 0)) m := by
  have hstep : ∀ {s : State Nat} {a}, (exec s a).isSome → system.step s a (System.runOf exec s a) :=
    fun h => System.exec_runOf h
  have hreach : system.Reachable (newMap.foldl (System.runOf exec) .empty) := .foldl hstep (.init rfl) (by decide)
  refine ⟨_, _, hreach, rfl, rfl, fun hkept => ?_⟩
  cases hkept.invalid rfl

end QuadStor.StandbySync
