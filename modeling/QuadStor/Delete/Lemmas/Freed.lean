import QuadStor.Delete.Lemmas.Walk

/-!
# What a walk frees
-/

namespace QuadStor.Delete

open Lib List

variable {start t g i m e b : Nat} {x : Table} {d : Tdisk} {y : Freed}

def Freed.tableOf : Freed → Nat
  | .data m _ _ | .amap m _ => m / 695
  | .table t _ => t
  | .index _ _ => 0

def Freed.amapOf : Freed → Nat
  | .data m _ _ => m
  | .amap m _ => m
  | .table _ _ => 0
  | .index _ _ => 0

theorem todo_le : d.todo t ≤ 695 := Nat.min_le_left _ _

theorem mem_freedData : y ∈ x.freedData t i ↔
    ∃ a e, (x.amap i).content = some a ∧ e < 654 ∧ a.entries e ≠ 0 ∧ y = .data (t * 695 + i) e (a.entries e) := by
  cases hc : (x.amap i).content with
  | none => simp [Table.freedData, hc]
  | some a =>
    simp only [Table.freedData, hc, Option.map_some, Option.getD_some, Amap.freed, mem_filterMap,
      mem_range, Option.some.injEq, exists_and_left, exists_eq_left']
    constructor
    · rintro ⟨e, he, h⟩
      split at h
      · cases h
      · rename_i hne
        exact ⟨e, he, hne, (Option.some.inj h).symm⟩
    · rintro ⟨e, he, hne, rfl⟩
      exact ⟨e, he, if_neg hne⟩

theorem mem_freedAmaps {n : Nat} : y ∈ x.freedAmaps t n ↔
    ∃ i a, i < n ∧ (x.amap i).content = some a ∧ y = .amap (t * 695 + i) a.block := by
  simp only [Table.freedAmaps, mem_filterMap, mem_range, Option.map_eq_some_iff]
  constructor
  · rintro ⟨i, hi, a, ha, rfl⟩
    exact ⟨i, a, hi, ha, rfl⟩
  · rintro ⟨i, a, hi, ha, rfl⟩
    exact ⟨i, hi, a, ha, rfl⟩

theorem Amap.nodup_freed (m : Nat) (a : Amap) : (a.freed m).Nodup := by
  refine nodup_filterMap_range (b := 0) (k := fun | .data _ e _ => e | _ => 0) fun e y h => ?_
  split at h <;> cases h
  exact (Nat.zero_add e).symm

theorem nodup_tableFreed : (d.tableFreed start t x).Nodup := by
  rw [Tdisk.tableFreed]
  split
  · exact nodup_nil
  · have hdata : ((List.range (d.todo t)).flatMap (x.freedData t)).Nodup := by
      refine nodup_flatMap_range (k := Freed.amapOf) (b := t * 695) (fun i _ => ?_) fun i y _ hy => ?_
      · cases hc : (x.amap i).content with
        | none => simp [Table.freedData, hc]
        | some a => simpa [Table.freedData, hc] using a.nodup_freed (t * 695 + i)
      · obtain ⟨a, e, -, -, -, rfl⟩ := mem_freedData.1 hy
        rfl
    have hamaps : (x.freedAmaps t (d.todo t)).Nodup := by
      refine nodup_filterMap_range (k := Freed.amapOf) (b := t * 695) fun i y h => ?_
      obtain ⟨a, -, rfl⟩ := Option.map_eq_some_iff.mp h
      rfl
    split
    · refine hdata.append hamaps fun y hy hy' => ?_
      obtain ⟨i, -, hy⟩ := mem_flatMap.mp hy
      obtain ⟨a, e, -, -, -, rfl⟩ := mem_freedData.1 hy
      obtain ⟨i, a, -, -, h⟩ := mem_freedAmaps.1 hy'
      cases h
    · rwa [append_nil]

theorem mem_tableFreed : y ∈ d.tableFreed start t x ↔ startAmapId start < t * 695 + d.todo t ∧
    ((∃ i, i < d.todo t ∧ y ∈ x.freedData t i) ∨ start = 0 ∧ y ∈ x.freedAmaps t (d.todo t)) := by
  rw [Tdisk.tableFreed]
  split
  · rename_i hle
    simp [Nat.not_lt.mpr hle]
  · rename_i hlt
    rw [mem_append, mem_flatMap]
    simp only [mem_range, Nat.lt_of_not_le hlt, true_and]
    refine or_congr_right ?_
    by_cases h0 : start = 0 <;> simp [h0]

theorem tableOf_tableFreed (h : y ∈ d.tableFreed start t x) : y.tableOf = t := by
  have hlt : ∀ i, i < d.todo t → (t * 695 + i) / 695 = t := fun i hi => by
    have := todo_le (d := d) (t := t)
    omega
  obtain ⟨-, ⟨i, hi, hy⟩ | ⟨-, hy⟩⟩ := mem_tableFreed.1 h
  · obtain ⟨a, e, -, -, -, rfl⟩ := mem_freedData.1 hy
    exact hlt i hi
  · obtain ⟨i, a, hi, -, rfl⟩ := mem_freedAmaps.1 hy
    exact hlt i hi

theorem mem_stepFreed : y ∈ d.stepFreed start t ↔
    u32 (amapTableId start) ≤ t ∧ ∃ x, (d.table t).content = some x ∧ y ∈ d.tableFreed start t x := by
  by_cases hlt : t < u32 (amapTableId start)
  · simp [Tdisk.stepFreed, hlt]
  · cases hc : (d.table t).content with
    | none => simp [Tdisk.stepFreed, hc]
    | some x => simp [Tdisk.stepFreed, hlt, hc, Nat.le_of_not_lt hlt]

theorem nodup_stepFreed : (d.stepFreed start t).Nodup := by
  rw [Tdisk.stepFreed]
  split
  · exact nodup_nil
  · cases hc : (d.table t).content with
    | none => simp
    | some x => simpa using nodup_tableFreed

theorem tableOf_stepFreed (h : y ∈ d.stepFreed start t) : y.tableOf = t := by
  obtain ⟨-, x, -, h⟩ := mem_stepFreed.1 h
  exact tableOf_tableFreed h

theorem mem_freedTables : y ∈ d.freedTables g ↔
    ∃ i x, i < d.groupTables g ∧ (d.table (g * 512 + i)).content = some x ∧ y = .table (g * 512 + i) x.block := by
  simp only [Tdisk.freedTables, mem_filterMap, mem_range, Option.map_eq_some_iff]
  constructor
  · rintro ⟨i, hi, x, hx, rfl⟩
    exact ⟨i, x, hi, hx, rfl⟩
  · rintro ⟨i, x, hi, hx, rfl⟩
    exact ⟨i, hi, x, hx, rfl⟩

theorem cases_tableFreed (h : y ∈ d.tableFreed start t x) : (∃ m e b, y = .data m e b) ∨ ∃ m b, y = .amap m b := by
  obtain ⟨-, ⟨i, hi, hy⟩ | ⟨-, hy⟩⟩ := mem_tableFreed.1 h
  · obtain ⟨a, e, -, -, -, rfl⟩ := mem_freedData.1 hy
    exact .inl ⟨_, _, _, rfl⟩
  · obtain ⟨i, a, hi, -, rfl⟩ := mem_freedAmaps.1 hy
    exact .inr ⟨_, _, rfl⟩

theorem table_not_mem_tableFreed {t' : Nat} : Freed.table t' b ∉ d.tableFreed start t x := fun h => by
  simpa using cases_tableFreed h

theorem mem_groupFreed : y ∈ d.groupFreed start g ↔
    (∃ i, i < d.groupTables g ∧ y ∈ d.stepFreed start (g * 512 + i)) ∨ start = 0 ∧ y ∈ d.freedTables g := by
  rw [Tdisk.groupFreed]
  split
  · rename_i hle
    refine iff_of_false not_mem_nil ?_
    rintro (⟨i, hi, hy⟩ | ⟨rfl, hy⟩)
    · have := (mem_stepFreed.1 hy).1
      omega
    · obtain ⟨i, x, hi, -, -⟩ := mem_freedTables.1 hy
      simp [amapTableId, u32] at hle
      omega
  · rw [mem_append, mem_flatMap]
    simp only [mem_range]
    refine or_congr_right ?_
    by_cases h0 : start = 0 <;> simp [h0]

theorem tableOf_groupFreed (h : y ∈ d.groupFreed start g) : y.tableOf / 512 = g := by
  have hlt : ∀ i, i < d.groupTables g → (g * 512 + i) / 512 = g := fun i hi => by
    have := hi.trans_le groupTables_le
    omega
  obtain ⟨i, hi, h⟩ | ⟨-, h⟩ := mem_groupFreed.1 h
  · rw [tableOf_stepFreed h, hlt i hi]
  · obtain ⟨i, x, hi, -, rfl⟩ := mem_freedTables.1 h
    exact hlt i hi

theorem nodup_groupFreed : (d.groupFreed start g).Nodup := by
  rw [Tdisk.groupFreed]
  split
  · exact nodup_nil
  · have hstep : ((List.range (d.groupTables g)).flatMap fun i => d.stepFreed start (g * 512 + i)).Nodup :=
      nodup_flatMap_range (k := Freed.tableOf) (b := g * 512) (fun _ _ => nodup_stepFreed)
        fun i y _ hy => tableOf_stepFreed hy
    split
    · refine hstep.append (nodup_filterMap_range (k := Freed.tableOf) (b := g * 512) fun i y h => ?_) fun y hy hy' => ?_
      · obtain ⟨x, -, rfl⟩ := Option.map_eq_some_iff.mp h
        rfl
      · obtain ⟨i, -, hy⟩ := mem_flatMap.mp hy
        obtain ⟨-, x, -, hy⟩ := mem_stepFreed.1 hy
        obtain ⟨i, x, -, -, rfl⟩ := mem_freedTables.1 hy'
        exact table_not_mem_tableFreed hy
    · rwa [append_nil]

theorem mem_freedIndexes : y ∈ d.freedIndexes ↔ ∃ g, g < d.groupMax ∧ y = .index g (d.index g) := by
  simp only [Tdisk.freedIndexes, List.mem_map, mem_range, eq_comm]

theorem index_not_mem_groupFreed {g' : Nat} : Freed.index g' b ∉ d.groupFreed start g := by
  intro h
  obtain ⟨i, -, h⟩ | ⟨-, h⟩ := mem_groupFreed.1 h
  · obtain ⟨-, x, -, h⟩ := mem_stepFreed.1 h
    simpa using cases_tableFreed h
  · obtain ⟨i, x, -, -, h⟩ := mem_freedTables.1 h
    cases h

theorem nodup_walkFreed : (d.walkFreed start).Nodup := by
  have hgroups : ((List.range (d.groupMax - u32 (amapTableId start) / 512)).flatMap fun k =>
      d.groupFreed start (u32 (amapTableId start) / 512 + k)).Nodup :=
    nodup_flatMap_range (k := fun y => y.tableOf / 512) (fun _ _ => nodup_groupFreed)
      fun i y _ hy => tableOf_groupFreed hy
  rw [Tdisk.walkFreed]
  split
  · refine hgroups.append (nodup_range.map fun g g' h => (Freed.index.inj h).1) fun y hy hy' => ?_
    obtain ⟨k, -, hy⟩ := mem_flatMap.mp hy
    obtain ⟨g, -, rfl⟩ := mem_freedIndexes.1 hy'
    exact index_not_mem_groupFreed hy
  · rwa [append_nil]

/-! ## Where the walk gets to -/

theorem exists_group (h : t < d.amapTableMax) : ∃ g i, g < d.groupMax ∧ i < d.groupTables g ∧ t = g * 512 + i := by
  refine ⟨t / 512, t % 512, ?_, ?_, by omega⟩
  · simp only [Tdisk.groupMax]
    split <;> omega
  · simp only [Tdisk.groupTables]
    omega

theorem lt_amapTableMax (h : i < d.groupTables g) : g * 512 + i < d.amapTableMax := by
  simp only [Tdisk.groupTables] at h
  omega

def Tdisk.WalksAmap (d : Tdisk) (start m : Nat) : Prop :=
  u32 (amapTableId start) ≤ m / 695 ∧ startAmapId start < m / 695 * 695 + d.todo (m / 695) ∧ m % 695 < d.todo (m / 695)

def Tdisk.Walks (d : Tdisk) (start : Nat) : Freed → Prop
  | .data m _ _ => d.WalksAmap start m
  | .amap m _ => d.WalksAmap start m ∧ start = 0
  | .table _ _ | .index _ _ => start = 0

theorem mem_walkFreed_iff : y ∈ d.walkFreed start ↔ (∃ t, t < d.amapTableMax ∧ y ∈ d.stepFreed start t) ∨
    (start = 0 ∧ ∃ t x, d.tableAt t = some x ∧ y = .table t x.block) ∨ (start = 0 ∧ y ∈ d.freedIndexes) := by
  simp only [Tdisk.walkFreed, mem_append, mem_flatMap, mem_range, mem_groupFreed]
  constructor
  · rintro (⟨k, hk, ⟨i, hi, hy⟩ | ⟨h0, hy⟩⟩ | hy)
    · exact .inl ⟨_, lt_amapTableMax hi, hy⟩
    · obtain ⟨i, x, hi, hx, rfl⟩ := mem_freedTables.1 hy
      exact .inr (.inl ⟨h0, _, x, by rw [Tdisk.tableAt, if_pos (lt_amapTableMax hi), hx], rfl⟩)
    · split at hy
      · exact .inr (.inr ⟨‹_›, hy⟩)
      · simp at hy
  · rintro (⟨t, ht, hy⟩ | ⟨rfl, t, x, hx, rfl⟩ | ⟨h0, hy⟩)
    · obtain ⟨g, i, hg, hi, rfl⟩ := exists_group ht
      have hle := (mem_stepFreed.1 hy).1
      have := hi.trans_le groupTables_le
      refine .inl ⟨g - u32 (amapTableId start) / 512, by omega, .inl ⟨i, ?_⟩⟩
      rw [show u32 (amapTableId start) / 512 + (g - u32 (amapTableId start) / 512) = g by omega]
      exact ⟨hi, hy⟩
    · simp only [Tdisk.tableAt] at hx
      split at hx
      · obtain ⟨g, i, hg, hi, rfl⟩ := exists_group ‹_›
        refine .inl ⟨g, by simpa [amapTableId, u32] using hg, .inr ⟨rfl, ?_⟩⟩
        exact mem_freedTables.2 ⟨i, x, by simpa [amapTableId, u32] using hi,
          by simpa [amapTableId, u32] using hx, by simp [amapTableId, u32]⟩
      · cases hx
    · exact .inr (by rwa [if_pos h0])

theorem amapAt_eq_some {a : Amap} : d.amapAt m = some a ↔
    ∃ x, m / 695 < d.amapTableMax ∧ (d.table (m / 695)).content = some x ∧ (x.amap (m % 695)).content = some a := by
  simp only [Tdisk.amapAt, Tdisk.tableAt, Option.bind_eq_some_iff]
  split <;> simp_all

theorem walksAmap_iff {P : Amap → Prop} :
    (∃ t x i, m = t * 695 + i ∧ t < d.amapTableMax ∧ (d.table t).content = some x ∧
      u32 (amapTableId start) ≤ t ∧ startAmapId start < t * 695 + d.todo t ∧ i < d.todo t ∧
      ∃ a, (x.amap i).content = some a ∧ P a) ↔ (∃ a, d.amapAt m = some a ∧ P a) ∧ d.WalksAmap start m := by
  constructor
  · rintro ⟨t, x, i, rfl, ht, hx, hle, hlt, hi, a, ha, hP⟩
    have := hi.trans_le todo_le
    have hdiv : (t * 695 + i) / 695 = t := by omega
    have hmod : (t * 695 + i) % 695 = i := by omega
    refine ⟨⟨a, amapAt_eq_some.2 ⟨x, ?_⟩, hP⟩, ?_⟩
    · rw [hdiv, hmod]
      exact ⟨ht, hx, ha⟩
    · rw [Tdisk.WalksAmap, hdiv, hmod]
      exact ⟨hle, hlt, hi⟩
  · rintro ⟨⟨a, ha, hP⟩, hle, hlt, hi⟩
    obtain ⟨x, ht, hx, ha⟩ := amapAt_eq_some.1 ha
    exact ⟨m / 695, x, m % 695, by omega, ht, hx, hle, hlt, hi, a, ha, hP⟩

theorem mem_walkFreed : y ∈ d.walkFreed start ↔ d.Names y ∧ d.Walks start y := by
  rw [mem_walkFreed_iff]
  cases y with
  | data m e b =>
    simp only [Tdisk.Names, Tdisk.Walks, ← walksAmap_iff, mem_stepFreed, mem_tableFreed, mem_freedData,
      mem_freedAmaps, mem_freedIndexes]
    constructor
    · rintro (⟨t, ht, hle, x, hx, hlt, ⟨i, hi, a, e', ha, he, hne, h⟩ | ⟨-, i, a, -, -, h⟩⟩ |
        ⟨-, t, x, -, h⟩ | ⟨-, g, -, h⟩)
      · cases h
        exact ⟨t, x, i, rfl, ht, hx, hle, hlt, hi, a, ha, he, rfl, hne⟩
      all_goals cases h
    · rintro ⟨t, x, i, rfl, ht, hx, hle, hlt, hi, a, ha, he, rfl, hne⟩
      exact .inl ⟨t, ht, hle, x, hx, hlt, .inl ⟨i, hi, a, e, ha, he, hne, rfl⟩⟩
  | amap m b =>
    rw [Tdisk.Names, Tdisk.Walks, ← and_assoc, ← walksAmap_iff]
    simp only [mem_stepFreed, mem_tableFreed, mem_freedData, mem_freedAmaps, mem_freedIndexes]
    constructor
    · rintro (⟨t, ht, hle, x, hx, hlt, ⟨i, hi, a, e', ha, he, hne, h⟩ | ⟨h0, i, a, hi, ha, h⟩⟩ |
        ⟨-, t, x, -, h⟩ | ⟨-, g, -, h⟩)
      · cases h
      · cases h
        exact ⟨⟨t, x, i, rfl, ht, hx, hle, hlt, hi, a, ha, rfl⟩, h0⟩
      all_goals cases h
    · rintro ⟨⟨t, x, i, rfl, ht, hx, hle, hlt, hi, a, ha, rfl⟩, h0⟩
      exact .inl ⟨t, ht, hle, x, hx, hlt, .inr ⟨h0, i, a, hi, ha, rfl⟩⟩
  | table t b =>
    simp only [Tdisk.Names, Tdisk.Walks, mem_stepFreed, mem_freedIndexes, table_not_mem_tableFreed]
    constructor
    · rintro (⟨t, -, -, x, -, h⟩ | ⟨h0, t, x, hx, h⟩ | ⟨-, g, -, h⟩)
      · exact h.elim
      · cases h
        exact ⟨⟨x, hx, rfl⟩, h0⟩
      · cases h
    · rintro ⟨⟨x, hx, rfl⟩, h0⟩
      exact .inr (.inl ⟨h0, t, x, hx, rfl⟩)
  | index g b =>
    simp only [Tdisk.Names, Tdisk.Walks, mem_freedIndexes]
    constructor
    · rintro (⟨t, ht, h⟩ | ⟨-, t, x, -, h⟩ | ⟨h0, g, hg, h⟩)
      · obtain ⟨g, i, -, hi, rfl⟩ := exists_group ht
        exact absurd (mem_groupFreed.2 (.inl ⟨i, hi, h⟩)) index_not_mem_groupFreed
      · cases h
      · cases h
        exact ⟨⟨hg, rfl⟩, h0⟩
    · rintro ⟨⟨hg, rfl⟩, h0⟩
      exact .inr (.inr ⟨h0, g, hg, rfl⟩)

end QuadStor.Delete
