import QuadStor.Delete.Lemmas.Tables

/-!
# The walk through a disk
-/

namespace QuadStor.Delete

open Lib List Function

variable {env : Env} {start t g i : Nat} {x y : Table} {d : Tdisk} {w w' : Walk}

def Tdisk.tableFreed (d : Tdisk) (start t : Nat) (x : Table) : List Freed :=
  if t * 695 + d.todo t ≤ startAmapId start then []
  else (range (d.todo t)).flatMap (x.freedData t) ++ if start = 0 then x.freedAmaps t (d.todo t) else []

def Tdisk.TableReady (d : Tdisk) (start t : Nat) (x : Table) : Prop :=
  startAmapId start < t * 695 + d.todo t →
    ∀ i, i < d.todo t → t * 695 + i < startAmapId start → (x.amap i).state ≠ .onDisk

theorem Table.freedAmaps_congr (n : Nat)
    (h : ∀ j, (y.amap j).content.map Amap.block = (x.amap j).content.map Amap.block) :
    y.freedAmaps t n = x.freedAmaps t n := by
  refine filterMap_congr fun i _ => ?_
  have hi := congrArg (Option.map fun b => Freed.amap (t * 695 + i) b) (h i)
  simpa only [Option.map_map, comp_def] using hi

theorem Table.freedData_congr (h : ∀ j, (y.amap j).content = (x.amap j).content) : y.freedData t = x.freedData t := by
  funext i
  rw [freedData, freedData, h]

theorem clear_ok {α : Type} {clear : Bool} {a b r : α}
    (h : (if start ≠ 0 then .ok a else if !clear then .error .failed else .ok b : Except Stop α) = .ok r) :
    start ≠ 0 ∧ r = a ∨ start = 0 ∧ r = b := by
  split_ifs at h with h0 <;> cases h
  · exact .inl ⟨h0, rfl⟩
  · exact .inr ⟨not_not.mp h0, rfl⟩

theorem clear_total {α : Type} {clear : Bool} {a b : α} (hclear : clear = true) :
    ∃ r, (if start ≠ 0 then .ok a else if !clear then .error .failed else .ok b : Except Stop α) = .ok r := by
  by_cases h0 : start = 0
  · exact ⟨b, by simp [h0, hclear]⟩
  · exact ⟨a, if_pos h0⟩

theorem amapTableDelete_ok {r : Table × List Freed} (h : amapTableDelete env start d t x = .ok r) :
    r.1.block = x.block ∧ r.2 = d.tableFreed start t x ∧ d.TableReady start t x := by
  simp only [amapTableDelete] at h
  by_cases hle : t * 695 + d.todo t ≤ startAmapId start
  · rw [if_pos hle] at h
    cases h
    exact ⟨rfl, by rw [Tdisk.tableFreed, if_pos hle], fun hlt => absurd hle (by omega)⟩
  · rw [if_neg hle, bind_ok] at h
    obtain ⟨y, hy, h⟩ := h
    obtain ⟨s, hs, h⟩ := bind_ok.1 h
    have hl := loop_ok hy Loaded.refl fun _ _ _ _ h hz => loadStep_loaded h hz
    have hd := loop_ok hs ⟨rfl, fun _ _ => rfl, fun _ => rfl, fun _ => rfl, by simp⟩
        fun _ _ _ _ h hz => deleteStep_deleted (by omega) h hz
    have hfreed : s.error = false → s.freed = (range (d.todo t)).flatMap (x.freedData t) := fun he => by
      rw [hd.freed he, Table.freedData_congr hl.content]
    have hamaps : s.table.freedAmaps t (d.todo t) = x.freedAmaps t (d.todo t) :=
      Table.freedAmaps_congr _ fun j => by rw [hd.blocks, hl.content]
    have hready : d.TableReady start t x := fun _ i hi hlt => by
      rw [← hl.below i hlt]
      exact hd.inMemory i hi
    have hblock := hd.block.trans hl.block
    rw [Tdisk.tableFreed, if_neg hle]
    cases he : s.error with
    | true => simp [he] at h
    | false =>
      rw [he, if_neg Bool.false_ne_true] at h
      obtain ⟨h0, rfl⟩ | ⟨rfl, rfl⟩ := clear_ok h
      · exact ⟨hblock, by rw [hfreed he, if_neg h0, append_nil], hready⟩
      · exact ⟨hblock, by rw [hfreed he, hamaps, if_pos rfl], hready⟩

theorem amapTableDelete_total (henv : env.Undisturbed) (hr : d.TableReady start t x) :
    ∃ r, amapTableDelete env start d t x = .ok r := by
  simp only [amapTableDelete]
  by_cases hle : t * 695 + d.todo t ≤ startAmapId start
  · exact ⟨(x, []), by rw [if_pos hle]⟩
  · rw [if_neg hle]
    obtain ⟨y, hy, hl⟩ := loop_total (f := loadStep env start t) (n := d.todo t) (Loaded.refl (x := x))
      (fun _ _ _ _ h hz => loadStep_loaded h hz) fun i _ _ _ => loadStep_total henv i
    -- every map that the second loop meets is in memory by now
    have hmem : ∀ i, i < d.todo t → (y.amap i).state ≠ .onDisk := by
      intro i hi
      by_cases hlt : t * 695 + i < startAmapId start
      · rw [hl.below i hlt]
        exact hr (by omega) i hi hlt
      · exact hl.inMemory i hi (by omega)
    obtain ⟨s, hs, -, he⟩ := loop_total (f := deleteStep env start t (d.todo t)) (s := ⟨y, [], 0, false⟩)
      (I := fun i s => Deleted y t i s ∧ s.error = false)
      ⟨⟨rfl, fun _ _ => rfl, fun _ => rfl, fun _ => rfl, by simp⟩, rfl⟩
      (fun i u v _ h hv => ⟨deleteStep_deleted (by omega) h.1 hv, (deleteStep_error henv hv).trans h.2⟩)
      fun i u hi h => deleteStep_total henv (by rw [h.1.later i le_rfl]; exact hmem i hi) h.2
    exact (clear_total (henv.tableClear t)).imp fun _ hr => bind_ok.2 ⟨y, hy, bind_ok.2 ⟨s, hs, by rw [he]; exact hr⟩⟩

def Tdisk.withTables (d : Tdisk) (f : Nat → Cached Table) : Tdisk := { d with table := f }

@[simp] theorem table_withTables (f : Nat → Cached Table) : (d.withTables f).table = f := rfl

@[simp] theorem groupTables_withTables (f : Nat → Cached Table) :
    (d.withTables f).groupTables g = d.groupTables g := rfl

def Tdisk.stepFreed (d : Tdisk) (start t : Nat) : List Freed :=
  if t < u32 (amapTableId start) then [] else ((d.table t).content.map (d.tableFreed start t)).getD []

def Tdisk.StepReady (d : Tdisk) (start t : Nat) : Prop :=
  u32 (amapTableId start) ≤ t → ∀ x, (d.table t).content = some x → d.TableReady start t x

def Stepped (d : Tdisk) (start t : Nat) (f : Nat → Cached Table) (w w' : Walk) : Prop :=
  ∃ c, c.content.map Table.block = (d.table t).content.map Table.block ∧
    w'.tdisk = d.withTables (update f t c) ∧
    w'.freed = w.freed ++ d.stepFreed start t ∧ d.StepReady start t

variable {f : Nat → Cached Table}

section

variable (hw : w.tdisk = d.withTables f)
include hw

theorem Stepped.same (hf : f t = d.table t) (hfreed : d.stepFreed start t = [])
    (hready : d.StepReady start t) : Stepped d start t f w w :=
  ⟨d.table t, rfl, by rw [hw, ← hf, update_eq_self], by rw [hfreed, append_nil], hready⟩

theorem Stepped.body (hx : (d.table t).content = some x)
    (hlt : ¬ t < u32 (amapTableId start)) (h : tableStep.body env start t x w = .ok w') : Stepped d start t f w w' := by
  simp only [tableStep.body] at h
  split at h
  · cases h
  · obtain ⟨r, hr, h⟩ := bind_ok.1 h
    cases h
    rw [hw] at hr
    obtain ⟨hb, hf, hready⟩ := amapTableDelete_ok hr
    refine ⟨.onDisk r.1, by rw [hx]; exact congrArg some hb, by rw [hw]; rfl, ?_, fun _ z hz => ?_⟩
    · rw [hf, Tdisk.stepFreed, if_neg hlt, hx]
      rfl
    · cases hx.symm.trans hz
      exact hready

theorem tableStep_ok (hf : f t = d.table t)
    (h : tableStep env start t w = .ok w') : Stepped d start t f w w' := by
  have htable : w.tdisk.table t = d.table t := by rw [hw]; exact hf
  simp only [tableStep, htable] at h
  by_cases hlt : t < u32 (amapTableId start)
  · rw [if_pos hlt] at h
    cases h
    exact .same hw hf (by rw [Tdisk.stepFreed, if_pos hlt]) fun hle => absurd hlt (by omega)
  · rw [if_neg hlt] at h
    split at h
    · cases h
    · cases hc : d.table t with
      | missing =>
        simp only [hc] at h
        cases h
        exact .same hw hf (by simp [Tdisk.stepFreed, hlt, hc, Cached.content])
          fun _ x hx => by simp [hc, Cached.content] at hx
      | onDisk x =>
        simp only [hc] at h
        split at h
        · cases h
        · exact .body hw (by rw [hc]; rfl) hlt h
      | reading x | loaded x => exact .body hw (by rw [hc]; rfl) hlt (by simpa only [hc] using h)

end

theorem tableStep_total (henv : env.Undisturbed) (hw : w.tdisk = d.withTables f) (hf : f t = d.table t)
    (hready : d.StepReady start t) : ∃ w', tableStep env start t w = .ok w' := by
  have htable : w.tdisk.table t = d.table t := by rw [hw]; exact hf
  simp only [tableStep, htable, henv.exitTable, henv.tableLoad]
  by_cases hlt : t < u32 (amapTableId start)
  · exact ⟨w, by rw [if_pos hlt]⟩
  · have hbody : ∀ x, (d.table t).content = some x → ∃ w', tableStep.body env start t x w = .ok w' := by
      intro x hx
      obtain ⟨r, hr⟩ := amapTableDelete_total henv (hready (by omega) x hx)
      refine ⟨⟨w.tdisk.setTable t (.onDisk r.1), w.freed ++ r.2⟩, ?_⟩
      simp only [tableStep.body, henv.tableError, Bool.false_eq_true, if_false]
      exact bind_ok.2 ⟨r, by rw [hw]; exact hr, rfl⟩
    rw [if_neg hlt]
    cases hc : d.table t with
    | missing => exact ⟨w, rfl⟩
    | onDisk x | reading x | loaded x => simpa using hbody x (by rw [hc]; rfl)

structure GroupWalked (d : Tdisk) (start g : Nat) (before : List Freed) (i : Nat) (w : Walk) : Prop where
  tables : ∃ f, w.tdisk = d.withTables f ∧ (∀ t, (f t).content.map Table.block = (d.table t).content.map Table.block) ∧
    (∀ t, g * 512 + i ≤ t ∨ t / 512 ≠ g → f t = d.table t)
  freed : w.freed = before ++ (range i).flatMap fun i => d.stepFreed start (g * 512 + i)
  ready : ∀ j, j < i → d.StepReady start (g * 512 + j)

theorem GroupWalked.init (start g : Nat) (w : Walk) : GroupWalked w.tdisk start g w.freed 0 w where
  tables := ⟨w.tdisk.table, rfl, fun _ => rfl, fun _ _ => rfl⟩
  freed := (append_nil _).symm
  ready := by simp

theorem GroupWalked.step {before : List Freed} (hi : i < 512) (h : GroupWalked d start g before i w)
    (hw : tableStep env start (g * 512 + i) w = .ok w') : GroupWalked d start g before (i + 1) w' := by
  obtain ⟨f, hd, hblocks, hsame⟩ := h.tables
  obtain ⟨c, hc, hd', hfreed, hready⟩ := tableStep_ok hd (hsame _ (.inl le_rfl)) hw
  refine ⟨⟨_, hd', fun t => ?_, fun t ht => ?_⟩, ?_, fun j hj => ?_⟩
  · by_cases ht : t = g * 512 + i
    · subst ht
      rw [update_self, hc]
    · rw [update_of_ne ht, hblocks]
  · rw [update_of_ne (by omega), hsame t (by omega)]
  · rw [hfreed, h.freed, flatMap_range_succ, append_assoc]
  · obtain hj | rfl := Nat.lt_succ_iff_lt_or_eq.mp hj
    · exact h.ready j hj
    · exact hready

def Tdisk.groupFreed (d : Tdisk) (start g : Nat) : List Freed :=
  if g * 512 + d.groupTables g ≤ u32 (amapTableId start) then []
  else ((range (d.groupTables g)).flatMap fun i => d.stepFreed start (g * 512 + i)) ++
    if start = 0 then d.freedTables g else []

theorem groupTables_le : d.groupTables g ≤ 512 := Nat.min_le_left _ _

structure GroupDone (d : Tdisk) (start g : Nat) (before : List Freed) (w : Walk) : Prop where
  tables : ∃ f, w.tdisk = d.withTables f ∧ ∀ t, t / 512 ≠ g → f t = d.table t
  freed : w.freed = before ++ d.groupFreed start g
  ready : ∀ j, j < d.groupTables g → d.StepReady start (g * 512 + j)

theorem freedTables_withTables (h : ∀ t, (f t).content.map Table.block = (d.table t).content.map Table.block) :
    (d.withTables f).freedTables g = d.freedTables g := by
  refine filterMap_congr fun i _ => ?_
  have hi := congrArg (Option.map fun b => Freed.table (g * 512 + i) b) (h (g * 512 + i))
  simpa only [Option.map_map, comp_def, table_withTables] using hi

theorem amapTableGroupDelete_ok (h : amapTableGroupDelete env start g w = .ok w') :
    GroupDone w.tdisk start g w.freed w' := by
  simp only [amapTableGroupDelete] at h
  by_cases hle : g * 512 + w.tdisk.groupTables g ≤ u32 (amapTableId start)
  · rw [if_pos hle] at h
    cases h
    exact ⟨⟨w.tdisk.table, rfl, fun _ _ => rfl⟩, by rw [Tdisk.groupFreed, if_pos hle, append_nil],
      fun j hj hts => absurd hts (by omega)⟩
  · rw [if_neg hle, bind_ok] at h
    obtain ⟨u, hu, h⟩ := h
    have hw : GroupWalked w.tdisk start g w.freed (w.tdisk.groupTables g) u :=
      loop_ok hu (.init start g w) fun i u v hi hI hv => hI.step (hi.trans_le groupTables_le) hv
    obtain ⟨f, hd, hblocks, hsame⟩ := hw.tables
    obtain ⟨h0, rfl⟩ | ⟨rfl, rfl⟩ := clear_ok h
    · exact ⟨⟨f, hd, fun t ht => hsame t (.inr ht)⟩,
        by rw [hw.freed, Tdisk.groupFreed, if_neg hle, if_neg h0, append_nil], hw.ready⟩
    · refine ⟨⟨fun t => if t / 512 = g then .missing else f t, by rw [hd]; rfl, fun t ht => ?_⟩, ?_, hw.ready⟩
      · simp only [if_neg ht, hsame t (.inr ht)]
      · rw [hw.freed, Tdisk.groupFreed, if_neg hle, if_pos rfl, hd, freedTables_withTables hblocks, append_assoc]

theorem amapTableGroupDelete_total (henv : env.Undisturbed)
    (hready : ∀ j, j < w.tdisk.groupTables g → w.tdisk.StepReady start (g * 512 + j)) :
    ∃ w', amapTableGroupDelete env start g w = .ok w' := by
  simp only [amapTableGroupDelete]
  by_cases hle : g * 512 + w.tdisk.groupTables g ≤ u32 (amapTableId start)
  · exact ⟨w, by rw [if_pos hle]⟩
  · rw [if_neg hle]
    obtain ⟨u, hu, -⟩ := loop_total (f := fun w i => tableStep env start (g * 512 + i) w)
      (n := w.tdisk.groupTables g) (GroupWalked.init start g w)
      (fun i u v hi hI hv => hI.step (hi.trans_le groupTables_le) hv)
      fun i u hi hI => by
        obtain ⟨f, hd, -, hsame⟩ := hI.tables
        exact tableStep_total henv hd (hsame _ (.inl le_rfl)) (hready i hi)
    exact (clear_total (henv.indexClear g)).imp fun _ hr => bind_ok.2 ⟨u, hu, hr⟩

def Tdisk.walkFreed (d : Tdisk) (start : Nat) : List Freed :=
  ((range (d.groupMax - u32 (amapTableId start) / 512)).flatMap fun k =>
    d.groupFreed start (u32 (amapTableId start) / 512 + k)) ++ if start = 0 then d.freedIndexes else []

theorem stepFreed_withTables (h : f t = d.table t) : (d.withTables f).stepFreed start t = d.stepFreed start t := by
  show (if _ then [] else ((f t).content.map _).getD []) = _
  rw [h]
  rfl

theorem stepReady_withTables (h : f t = d.table t) : (d.withTables f).StepReady start t ↔ d.StepReady start t := by
  show (_ → ∀ x, (f t).content = some x → _) ↔ _
  rw [h]
  rfl

theorem groupFreed_withTables (h : ∀ t, t / 512 = g → f t = d.table t) :
    (d.withTables f).groupFreed start g = d.groupFreed start g := by
  have hstep : ((range (d.groupTables g)).flatMap fun i => (d.withTables f).stepFreed start (g * 512 + i)) =
      (range (d.groupTables g)).flatMap fun i => d.stepFreed start (g * 512 + i) := by
    refine flatMap_congr fun i hi => stepFreed_withTables (h _ ?_)
    have := (mem_range.mp hi).trans_le groupTables_le
    omega
  have htables : (d.withTables f).freedTables g = d.freedTables g := by
    refine filterMap_congr fun i hi => ?_
    have := (mem_range.mp hi).trans_le (groupTables_le (d := d))
    rw [table_withTables, h _ (by omega)]
  simp only [Tdisk.groupFreed, groupTables_withTables, htables, hstep]

structure DiskWalked (d : Tdisk) (start first k : Nat) (w : Walk) : Prop where
  tables : ∃ f, w.tdisk = d.withTables f ∧ ∀ t, first + k ≤ t / 512 → f t = d.table t
  freed : w.freed = (range k).flatMap fun k => d.groupFreed start (first + k)
  ready : ∀ g, first ≤ g → g < first + k → ∀ j, j < d.groupTables g → d.StepReady start (g * 512 + j)

theorem DiskWalked.init (d : Tdisk) (start first : Nat) : DiskWalked d start first 0 ⟨d, []⟩ where
  tables := ⟨d.table, rfl, fun _ _ => rfl⟩
  freed := rfl
  ready g hle hlt := absurd hlt (by omega)

theorem groupStep_ok (h : groupStep env start g w = .ok w') : amapTableGroupDelete env start g w = .ok w' := by
  obtain ⟨u, hu, h⟩ := bind_ok.1 h
  split at h
  · cases h
  · exact hu.trans h

theorem DiskWalked.step {first k : Nat} (h : DiskWalked d start first k w)
    (hw : groupStep env start (first + k) w = .ok w') : DiskWalked d start first (k + 1) w' := by
  obtain ⟨f, hd, hsame⟩ := h.tables
  have hdone := amapTableGroupDelete_ok (groupStep_ok hw)
  rw [hd] at hdone
  obtain ⟨f', hd', hsame'⟩ := hdone.tables
  have hgroup : ∀ t, t / 512 = first + k → f t = d.table t := fun t ht => hsame t ht.ge
  refine ⟨⟨f', hd', fun t ht => ?_⟩, ?_, fun g hle hlt j hj => ?_⟩
  · rw [hsame' t (by omega), table_withTables, hsame t (by omega)]
  · rw [hdone.freed, h.freed, groupFreed_withTables hgroup, flatMap_range_succ]
  · by_cases hg : g < first + k
    · exact h.ready g hle hg j hj
    · obtain rfl : g = first + k := by omega
      have := hj.trans_le groupTables_le
      exact (stepReady_withTables (hgroup _ (by omega))).mp (hdone.ready j hj)

def Tdisk.Ready (d : Tdisk) (start : Nat) : Prop :=
  ∀ g, u32 (amapTableId start) / 512 ≤ g → g < d.groupMax → ∀ j, j < d.groupTables g → d.StepReady start (g * 512 + j)

theorem tdiskDeleteThread_ok (h : tdiskDeleteThread env start d = .ok w) :
    w.freed = d.walkFreed start ∧ d.Ready start := by
  obtain ⟨u, hu, h⟩ := bind_ok.1 h
  have hw := loop_ok hu (DiskWalked.init d start _) fun _ _ _ _ hI hv => hI.step hv
  have hready : d.Ready start := fun g hle hlt => hw.ready g hle (by omega)
  obtain ⟨f, hd, -⟩ := hw.tables
  obtain ⟨h0, rfl⟩ | ⟨rfl, rfl⟩ := clear_ok h
  · exact ⟨by rw [Tdisk.walkFreed, if_neg h0, hw.freed, append_nil], hready⟩
  · refine ⟨?_, hready⟩
    rw [Tdisk.walkFreed, if_pos rfl, hw.freed, hd]
    rfl

theorem tdiskDeleteThread_total (henv : env.Undisturbed) (hready : d.Ready start) :
    ∃ w, tdiskDeleteThread env start d = .ok w := by
  obtain ⟨u, hu, -⟩ := loop_total (n := d.groupMax - u32 (amapTableId start) / 512)
    (f := fun w k => groupStep env start (u32 (amapTableId start) / 512 + k) w)
    (DiskWalked.init d start (u32 (amapTableId start) / 512)) (fun _ _ _ _ hI hv => hI.step hv) fun k u hk hI => by
      obtain ⟨f, hd, hsame⟩ := hI.tables
      obtain ⟨v, hv⟩ := amapTableGroupDelete_total (g := u32 (amapTableId start) / 512 + k) (w := u) henv fun j hj => by
          rw [hd] at hj ⊢
          exact (stepReady_withTables (hsame _ (by omega))).mpr (hready _ (by omega) (by omega) j hj)
      exact ⟨v, bind_ok.2 ⟨v, hv, by simp [henv.exitGroup]⟩⟩
  exact (clear_total henv.diskClear).imp fun _ hr => bind_ok.2 ⟨u, hu, hr⟩

end QuadStor.Delete
