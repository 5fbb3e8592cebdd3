import QuadStor.Delete.Lemmas.Freed

/-!
# Deleting frees exactly what it should
-/

namespace QuadStor.Delete

open Lib

variable {env : Env} {start t i m : Nat} {x : Table} {a : Amap} {d : Tdisk} {y : Freed} {w : Walk}

def Tdisk.amapState (d : Tdisk) (m : Nat) : Cached.State :=
  ((d.tableAt (m / 695)).map fun x => (x.amap (m % 695)).state).getD .missing

/-- From page 0, every map lies in the part of its table that the size leaves to walk. From another page, nothing is
there to free at or after it, and the maps that are walked all the same are in memory and empty. -/
def Tdisk.WalkFits (d : Tdisk) (start : Nat) : Prop :=
  if start = 0 then ∀ m, (d.amapAt m).isSome → m % 695 < d.todo (m / 695)
  else
    (∀ m, (d.amapAt m).isSome → m < firstRemoved start) ∧
    (∀ t, (d.tableAt t).isSome → ¬ d.Emptied start t) ∧
    ∀ m a, d.amapAt m = some a → d.WalksAmap start m → d.amapState m ≠ .onDisk ∧ a.isEmpty = true

open Tdisk (firstRemoved)

theorem startAmapId_eq (h : start ≤ d.amapTableMax * (695 * 654)) : startAmapId start = firstRemoved start := by
  have hmax := d.amapTableMax_le
  have hid : u32 (amapId start) = start / 654 := u32_eq_of_lt (by simp only [amapId, lbasPerAmap]; omega)
  have hsucc : u32 (start / 654 + 1) = start / 654 + 1 := u32_eq_of_lt (by omega)
  rw [startAmapId, hid, hsucc, firstRemoved]
  split <;> omega

theorem startAmapId_zero : startAmapId 0 = 0 := by decide

theorem tableAt_eq_some : d.tableAt t = some x ↔ t < d.amapTableMax ∧ (d.table t).content = some x := by
  simp only [Tdisk.tableAt]
  split <;> simp_all

theorem ready_iff : d.Ready start ↔ ∀ m, d.WalksAmap start m → m < startAmapId start → d.amapState m ≠ .onDisk := by
  constructor
  · rintro h m ⟨hle, hlt, hi⟩ hm
    cases hx : d.tableAt (m / 695) with
    | none => simp [Tdisk.amapState, hx]
    | some x =>
      obtain ⟨ht, hx'⟩ := tableAt_eq_some.1 hx
      obtain ⟨g, j, hg, hj, hgj⟩ := exists_group ht
      have := hj.trans_le groupTables_le
      have hready := h g (by omega) hg j hj (by omega) x (by rwa [← hgj])
      rw [← hgj] at hready
      simpa [Tdisk.amapState, hx] using hready hlt _ hi (by omega)
  · intro h g hg hgm j hj hle x hx hlt i hi hm
    have := hi.trans_le todo_le
    have hdiv : ((g * 512 + j) * 695 + i) / 695 = g * 512 + j := by omega
    have hmod : ((g * 512 + j) * 695 + i) % 695 = i := by omega
    have hw : d.WalksAmap start ((g * 512 + j) * 695 + i) := by
      rw [Tdisk.WalksAmap, hdiv, hmod]
      exact ⟨hle, hlt, hi⟩
    have htable := tableAt_eq_some.2 ⟨lt_amapTableMax hj, hx⟩
    simpa [Tdisk.amapState, hdiv, hmod, htable] using h _ hw hm

theorem freesExactly_iff : d.FreesExactly start (d.walkFreed start) ↔
    ∀ y, d.Names y → (d.Walks start y ↔ d.Removed start y) := by
  simp only [Tdisk.FreesExactly, nodup_walkFreed, true_and, mem_walkFreed, and_congr_right_iff]

theorem Amap.isEmpty_iff : a.isEmpty = true ↔ ∀ e, e < 654 → a.entries e = 0 := by
  simp [isEmpty]

theorem walks_iff_of_zero (hfits : d.WalkFits 0) (hy : d.Names y) : d.Walks 0 y ↔ d.Removed 0 y := by
  have hall : ∀ {m a}, d.amapAt m = some a → d.WalksAmap 0 m := fun {m a} ha => by
    have hi : m % 695 < d.todo (m / 695) := by
      exact hfits m (by simp [ha])
    refine ⟨?_, ?_, hi⟩
    · simp [amapTableId, u32]
    · rw [startAmapId_zero]
      omega
  cases y with
  | data m e b =>
    obtain ⟨a, ha, -⟩ := hy
    exact iff_of_true (hall ha) (Nat.zero_le m)
  | amap m b =>
    obtain ⟨a, ha, -⟩ := hy
    exact iff_of_true ⟨hall ha, rfl⟩ (Nat.zero_le m)
  | table t b => exact iff_of_true rfl ⟨by simp only [firstRemoved]; omega, fun m _ _ => Nat.zero_le m⟩
  | index g b => exact Iff.rfl

theorem walks_iff_of_pos (h0 : start ≠ 0) (hfits : d.WalkFits start) (hy : d.Names y) :
    d.Walks start y ↔ d.Removed start y := by
  simp only [Tdisk.WalkFits, if_neg h0] at hfits
  obtain ⟨hbelow, hkept, hempty⟩ := hfits
  cases y with
  | data m e b =>
    obtain ⟨a, ha, he, hb, hne⟩ := hy
    refine iff_of_false (fun hw => hne ?_) (Nat.not_le_of_lt (hbelow m (by simp [ha])))
    rw [← hb]
    exact Amap.isEmpty_iff.1 (hempty m a ha hw).2 e he
  | amap m b =>
    obtain ⟨a, ha, -⟩ := hy
    exact iff_of_false (fun hw => h0 hw.2) (Nat.not_le_of_lt (hbelow m (by simp [ha])))
  | table t b =>
    obtain ⟨x, hx, -⟩ := hy
    exact iff_of_false h0 (hkept t (by simp [hx]))
  | index g b => exact Iff.rfl

theorem ready_of_walkFits (hstart : start ≤ d.amapTableMax * (695 * 654)) (hfits : d.WalkFits start) :
    d.Ready start := by
  refine ready_iff.2 fun m hw hm => ?_
  rw [startAmapId_eq hstart] at hm
  by_cases h0 : start = 0
  · subst h0
    simp [firstRemoved] at hm
  · simp only [Tdisk.WalkFits, if_neg h0] at hfits
    cases ha : d.amapAt m with
    | some a => exact (hfits.2.2 m a ha hw).1
    | none =>
      cases hx : d.tableAt (m / 695) with
      | none => simp [Tdisk.amapState, hx]
      | some x =>
        cases hc : x.amap (m % 695) with
        | missing => simp [Tdisk.amapState, hx, hc, Cached.state]
        | _ => simp [Tdisk.amapAt, hx, hc, Cached.content] at ha

theorem walkFits_of_walks (hstart : start ≤ d.amapTableMax * (695 * 654)) (hready : d.Ready start)
    (h : ∀ y, d.Names y → (d.Walks start y ↔ d.Removed start y)) : d.WalkFits start := by
  simp only [Tdisk.WalkFits]
  by_cases h0 : start = 0
  · subst h0
    intro m hm
    obtain ⟨a, ha⟩ := Option.isSome_iff_exists.mp hm
    exact ((h (.amap m a.block) ⟨a, ha, rfl⟩).mpr (Nat.zero_le m)).1.2.2
  · rw [if_neg h0]
    have hbelow : ∀ m, (d.amapAt m).isSome → m < firstRemoved start := fun m hm => by
      obtain ⟨a, ha⟩ := Option.isSome_iff_exists.mp hm
      by_contra hle
      exact h0 ((h (.amap m a.block) ⟨a, ha, rfl⟩).mpr (Nat.le_of_not_lt hle)).2
    refine ⟨hbelow, fun t ht he => ?_, fun m a ha hw => ⟨?_, ?_⟩⟩
    · obtain ⟨x, hx⟩ := Option.isSome_iff_exists.mp ht
      exact h0 ((h (.table t x.block) ⟨x, hx, rfl⟩).mpr he)
    · refine ready_iff.1 hready m hw ?_
      rw [startAmapId_eq hstart]
      exact hbelow m (by simp [ha])
    · refine Amap.isEmpty_iff.2 fun e he => ?_
      by_contra hne
      have hle : firstRemoved start ≤ m := (h (.data m e (a.entries e)) ⟨a, ha, he, rfl, hne⟩).mp hw
      exact absurd (hbelow m (by simp [ha])) (Nat.not_lt_of_le hle)

/-- An undisturbed walk frees what it should, and each block once, just if the maps fit the walk. -/
theorem delete_frees_exactly (henv : env.Undisturbed) (hstart : start ≤ d.amapTableMax * (695 * 654)) :
    (∃ w, tdiskDeleteThread env start d = .ok w ∧ d.FreesExactly start w.freed) ↔ d.WalkFits start := by
  constructor
  · rintro ⟨w, hw, hfreed⟩
    obtain ⟨heq, hready⟩ := tdiskDeleteThread_ok hw
    rw [heq, freesExactly_iff] at hfreed
    exact walkFits_of_walks hstart hready hfreed
  · intro hfits
    obtain ⟨w, hw⟩ := tdiskDeleteThread_total henv (ready_of_walkFits hstart hfits)
    refine ⟨w, hw, ?_⟩
    rw [(tdiskDeleteThread_ok hw).1, freesExactly_iff]
    intro y hy
    by_cases h0 : start = 0
    · subst h0
      exact walks_iff_of_zero hfits hy
    · exact walks_iff_of_pos h0 hfits hy

def quiet : Env where
  amapLoad _ := true
  tableLoad _ := true
  amapError _ := false
  tableError _ := false
  amapClear _ := true
  tableClear _ := true
  indexClear _ := true
  diskClear := true
  exitAmap _ := false
  exitTable _ := false
  exitGroup _ := false

theorem quiet_undisturbed : quiet.Undisturbed := by constructor <;> simp [quiet]

/-- A disk with the pages of maps 0 and 1, and one block mapped in each, cut down to the pages of map 0 -/
def shrunkDisk : Tdisk where
  legacy := false
  endLba := 654
  amapTableMax := 1
  table t := if t = 0 then .loaded
    { block := 100, amap := fun i => if i < 2 then .loaded ⟨101 + i, fun e => if e = 0 then 201 + i else 0⟩ else .missing }
    else .missing
  index _ := 300
  amapTableMax_le := by decide
  endLba_le := by decide

/-- The walk of the shrink frees nothing, and the walk of a later delete never gets to map 1. -/
theorem shrunk_disk_leaks : (tdiskDeleteThread quiet 654 shrunkDisk).toOption.map Walk.freed = some [] ∧
    (tdiskDeleteThread quiet 0 shrunkDisk).toOption.map Walk.freed =
      some [.data 0 0 201, .amap 0 101, .table 0 100, .index 0 300] ∧
    shrunkDisk.Names (.data 1 0 202) ∧ shrunkDisk.Removed 654 (.data 1 0 202) ∧
    shrunkDisk.Removed 0 (.data 1 0 202) := by
  refine ⟨by decide +kernel, by decide +kernel, ?_, ?_, ?_⟩
  · exact ⟨_, rfl, by decide, rfl, by decide⟩
  · exact Nat.le_refl 1
  · exact Nat.zero_le 1

def fullDisk : Tdisk := { shrunkDisk with endLba := 2 * 654, endLba_le := by decide }

theorem fullDisk_walkFits : fullDisk.WalkFits 0 := by
  intro m hm
  obtain ⟨a, ha⟩ := Option.isSome_iff_exists.mp hm
  obtain ⟨x, ht, hx, ha⟩ := amapAt_eq_some.1 ha
  obtain ht : m / 695 = 0 := Nat.lt_one_iff.mp ht
  rw [ht] at hx ⊢
  cases hx
  by_contra hle
  have hi : ¬ m % 695 < 2 := by rwa [show fullDisk.todo 0 = 2 by decide] at hle
  simp [hi, Cached.content] at ha

theorem delete_frees_exactly_full : ∃ w, tdiskDeleteThread quiet 0 fullDisk = .ok w ∧ fullDisk.FreesExactly 0 w.freed :=
  (delete_frees_exactly quiet_undisturbed (Nat.zero_le _)).mpr fullDisk_walkFits

end QuadStor.Delete
