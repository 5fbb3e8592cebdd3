import QuadStor.HaCleanup.Basic
import QuadStor.Replay.Lemmas.Refs

/-!
# What the clean-up does for one page
-/

namespace QuadStor.HaCleanup

open Lib Bint DDTable Function
open Fastlog (writeIdGreater)
open Replay (Amap bintLogReplay_spec)

variable {c : Config} {s : State} {u : Update} {spec : WriteSpec} {key : Nat × Nat} {row : Row} {x : Index} {b : Block}
  {target lba w n : Nat} {verdict : Nat → WriteSpec → Option (Option Block)}

def State.amapView (c : Config) (s : State) (key : Nat × Nat) : Option Amap :=
  (s.amaps key).or ((s.amapDisk key).map (c.amapLoad key.1))

def State.amapTag (c : Config) (s : State) (key : Nat × Nat) : Option (Nat × Bool) :=
  (s.amapView c key).map fun a => (a.writeId, a.error)

theorem entry_eq_view : s.entry target lba = (s.amapView c (target, amapId lba)).bind fun a => a.entries lba := by
  unfold State.entry State.amapImage State.amapView
  cases s.amaps (target, amapId lba) with
  | some a => rfl
  | none =>
    cases s.amapDisk (target, amapId lba) with
    | none | some a => rfl

theorem amapView_setAmap {a : Amap} : (s.setAmap key a).amapView c = update (s.amapView c) key (some a) := by
  funext key'
  by_cases hkey : key' = key
  · subst hkey
    simp [State.amapView, State.setAmap]
  · simp [State.amapView, State.setAmap, update_of_ne hkey]

theorem locate_spec : (nodeHaAmapLocate c s target lba).1.amapView c = s.amapView c ∧
    ((nodeHaAmapLocate c s target lba).2 =
      (s.amapView c (target, amapId lba)).bind fun a => if a.error then none else some a) ∧
    (nodeHaAmapLocate c s target lba).1.indexes = s.indexes ∧
    (nodeHaAmapLocate c s target lba).1.indexDisk = s.indexDisk := by
  unfold nodeHaAmapLocate
  dsimp only
  split
  · rename_i a hmem
    exact ⟨rfl, by simp [State.amapView, hmem], rfl, rfl⟩
  · rename_i hnone
    split
    · rename_i hdisk
      exact ⟨rfl, by simp [State.amapView, hnone, hdisk], rfl, rfl⟩
    · rename_i a hdisk
      refine ⟨?_, by simp [State.amapView, hnone, hdisk, Config.amapLoad], rfl, rfl⟩
      rw [amapView_setAmap]
      exact update_eq_self_iff.mpr (by simp [State.amapView, hnone, hdisk])

theorem amapUpdate_spec : ((nodeHaAmapUpdate c verdict s target lba spec).indexes = s.indexes ∧
      (nodeHaAmapUpdate c verdict s target lba spec).indexDisk = s.indexDisk) ∧
    ((nodeHaAmapUpdate c verdict s target lba spec).amapView c = s.amapView c ∨
      ∃ a block, s.amapView c (target, amapId lba) = some a ∧
        (nodeHaAmapUpdate c verdict s target lba spec).amapView c = update (s.amapView c) (target, amapId lba)
          (some { a with entries := update a.entries lba block })) := by
  obtain ⟨hview, hlocate, hindexes⟩ : (nodeHaAmapLocate c s target lba).1.amapView c = s.amapView c ∧ _ :=
    locate_spec
  unfold nodeHaAmapUpdate
  split
  · exact ⟨⟨rfl, rfl⟩, .inl rfl⟩
  · split
    · rename_i heq
      rw [heq] at hview hindexes
      exact ⟨hindexes, .inl hview⟩
    · rename_i s' a heq
      rw [heq] at hview hlocate hindexes
      split
      · exact ⟨hindexes, .inl hview⟩
      · rename_i block hblock
        refine ⟨hindexes, .inr ⟨a, block, ?_, by rw [amapView_setAmap, hview]⟩⟩
        obtain ⟨a', ha', hif⟩ := Option.bind_eq_some_iff.mp hlocate.symm
        split_ifs at hif
        cases hif
        exact ha'

theorem amapTag_amapUpdate : (nodeHaAmapUpdate c verdict s target lba spec).amapTag c key = s.amapTag c key := by
  unfold State.amapTag
  rcases (amapUpdate_spec (c := c) (s := s)).2 with h | ⟨a, block, ha, h⟩
  · rw [h]
  · rw [h]
    by_cases hkey : key = (target, amapId lba)
    · rw [hkey, update_self, ha]
      rfl
    · rw [update_of_ne hkey]

theorem entry_amapUpdate_of_ne {target' lba' : Nat} (hne : (target', lba') ≠ (target, lba)) :
    (nodeHaAmapUpdate c verdict s target lba spec).entry target' lba' = s.entry target' lba' := by
  rw [entry_eq_view (c := c), entry_eq_view (c := c)]
  rcases (amapUpdate_spec (c := c) (s := s)).2 with h | ⟨a, block, ha, h⟩
  · rw [h]
  · rw [h]
    by_cases hkey : (target', amapId lba') = (target, amapId lba)
    · have htarget : target' = target := congrArg Prod.fst hkey
      have hlba : lba' ≠ lba := fun hl => hne (by rw [htarget, hl])
      rw [hkey, update_self, ha]
      exact update_of_ne hlba _ _
    · rw [update_of_ne hkey]

theorem entry_amapUpdate (htag : s.amapTag c (target, amapId lba) = some (w, false)) :
    (nodeHaAmapUpdate c verdict s target lba spec).entry target lba =
      if spec.amapBlock = spec.oldAmapBlock then s.entry target lba
      else (verdict w spec).getD (s.entry target lba) := by
  obtain ⟨a, hview, htag⟩ := Option.map_eq_some_iff.mp htag
  obtain ⟨hw, herror⟩ := Prod.mk.inj htag
  have hlocate : nodeHaAmapLocate c s target lba = ((nodeHaAmapLocate c s target lba).1, some a) :=
    Prod.ext rfl (by rw [locate_spec.2.1, hview]; simp [herror])
  have hkeep : (nodeHaAmapLocate c s target lba).1.entry target lba = s.entry target lba := by
    rw [entry_eq_view (c := c), entry_eq_view (c := c), locate_spec.1]
  unfold nodeHaAmapUpdate
  split_ifs with hsame
  · rfl
  · rw [hlocate]
    dsimp only
    rw [hw]
    cases hverdict : verdict w spec with
    | none => exact hkeep
    | some block => simp [State.entry, State.amapImage, State.setAmap]

def State.index (c : Config) (s : State) (row : Row) : Index :=
  (s.indexes row).getD (c.indexLoad row (s.indexDisk row))

theorem refs_eq_index {e : Nat} : s.refs row e = refsOf ((s.index c row).bmap e) := by
  unfold State.refs State.indexImage State.index
  cases s.indexes row with
  | none | some x => rfl

theorem processDeleteBlock_tag : (processDeleteBlock c x b).writeId = x.writeId ∧
    (processDeleteBlock c x b).dataError = x.dataError := by
  unfold processDeleteBlock
  split_ifs with herror
  · exact indexCheckLoad_same.2
  · exact ⟨freeLoop_spec.1.trans indexCheckLoad_same.2.1, freeLoop_spec.2.1.trans indexCheckLoad_same.2.2⟩

theorem refsOf_processDeleteBlock (herror : x.dataError = false)
    (h : ∀ j, b.entry ≤ j → j < b.entry + c.count b → refsOf (x.bmap j) = refsOf (x.bmap b.entry)) (j : Nat) :
    refsOf ((processDeleteBlock c x b).bmap j) =
      if b.entry ≤ j ∧ j < b.entry + c.count b then refsOf (x.bmap j) - 1 else refsOf (x.bmap j) := by
  unfold processDeleteBlock
  rw [indexCheckLoad_same.2.2, herror, if_neg Bool.false_ne_true]
  rw [← (indexCheckLoad_same (x := x)).1] at h ⊢
  generalize indexCheckLoad x = y at h ⊢
  by_cases hzero : refsOf (y.bmap b.entry) = 0
  · -- the loop stops at its first entry
    have hkeep : (bintFreeBlock y b.entry (c.count b)).index = y := by
      cases c.count b with
      | zero => rfl
      | succ n => simp [bintFreeBlock, freeLoop, hzero]
    rw [hkeep]
    split_ifs with hin
    · rw [h j hin.1 hin.2, hzero]
    · rfl
  · refine (congrArg refsOf ((freeLoop_const hzero h).2 j)).trans ?_
    split_ifs with hin
    · exact refsOf_releaseVal _
    · rfl

def State.tells (c : Config) (s : State) (b : Block) (spec : WriteSpec) : Bool :=
  (s.indexes b.row).isSome && writeIdGreater (s.index c b.row).writeId spec.indexWriteId

theorem index_setIndex : (s.setIndex row x).index c = update (s.index c) row x := by
  funext row'
  by_cases hrow : row' = row
  · subst hrow
    simp [State.index, State.setIndex]
  · simp [State.index, State.setIndex, update_of_ne hrow]

section

variable (hblock : spec.amapBlock = some b)
include hblock

theorem index_validate : (nodeHaIndexValidate c s spec).index c = update (s.index c) b.row
    (if s.tells c b spec || (s.index c b.row).dataError then s.index c b.row
      else (bintLogReplay (s.index c b.row) b.entry (c.count b) false).1) := by
  unfold nodeHaIndexValidate State.tells
  rw [hblock]
  cases hmem : s.indexes b.row with
  | none =>
    have hindex : s.index c b.row = c.indexLoad b.row (s.indexDisk b.row) := by simp [State.index, hmem]
    cases herror : (c.indexLoad b.row (s.indexDisk b.row)).dataError with
    | true | false => simp [hmem, herror, index_setIndex, hindex]
  | some x =>
    have hindex : s.index c b.row = x := by simp [State.index, hmem]
    cases herror : x.dataError with
    | true => simp [hmem, herror, index_setIndex, hindex]
    | false =>
      cases hgreater : writeIdGreater x.writeId spec.indexWriteId with
      | true | false => simp [hmem, herror, index_setIndex, hindex, hgreater]

theorem isSome_validate :
    ((nodeHaIndexValidate c s spec).indexes row).isSome = ((s.indexes row).isSome || decide (b.row = row)) := by
  have hset : ∀ y : Index, ((s.setIndex b.row y).indexes row).isSome = ((s.indexes row).isSome || decide (b.row = row)) := by
    intro y
    by_cases hrow : row = b.row
    · subst hrow
      simp [State.setIndex]
    · simp [State.setIndex, update_of_ne hrow, Ne.symm hrow]
  unfold nodeHaIndexValidate
  rw [hblock]
  dsimp only
  split <;> split_ifs <;> exact hset _

theorem index_cancel :
    (nodeHaIndexCancel c s spec).index c = update (s.index c) b.row
      (if s.tells c b spec then processDeleteBlock c (s.index c b.row) b else s.index c b.row) := by
  unfold nodeHaIndexCancel State.tells
  rw [hblock]
  cases hmem : s.indexes b.row with
  | none => simp [hmem]
  | some x =>
    obtain rfl : s.index c b.row = x := by simp [State.index, hmem]
    cases hgreater : writeIdGreater (s.index c b.row).writeId spec.indexWriteId with
    | true => simp [hmem, hgreater, index_setIndex]
    | false => simp [hmem, hgreater]

end

theorem isSome_cancel : ((nodeHaIndexCancel c s spec).indexes row).isSome = (s.indexes row).isSome := by
  unfold nodeHaIndexCancel
  split
  · rfl
  · rename_i b hblock
    split
    · rfl
    · rename_i x hmem
      split_ifs
      · rfl
      · by_cases hrow : row = b.row
        · subst hrow
          simp [State.setIndex, hmem]
        · simp [State.setIndex, update_of_ne hrow]

theorem index_amapUpdate : (nodeHaAmapUpdate c verdict s target lba spec).index c = s.index c := by
  funext row
  simp only [State.index, amapUpdate_spec.1]

theorem tells_amapUpdate {spec' : WriteSpec} :
    (nodeHaAmapUpdate c verdict s target lba spec).tells c b spec' = s.tells c b spec' := by
  simp only [State.tells, index_amapUpdate, amapUpdate_spec.1]

theorem amapView_handle : (handle c s u).amapView c =
    (nodeHaAmapUpdate c u.msgCmd.amapVerdict s u.targetId u.lba u.spec).amapView c := by
  unfold handle MsgCmd.amapVerdict nodeHaIndexCancel nodeHaIndexValidate
  cases u.msgCmd with
  | pgdataSyncStart =>
    dsimp only
    split
    · rfl
    · split
      · rfl
      · split_ifs <;> rfl
  | pgdataSyncClientDone =>
    dsimp only
    split
    · rfl
    · split_ifs <;> rfl

theorem amapTag_handle : (handle c s u).amapTag c key = s.amapTag c key := by
  have hview : (handle c s u).amapTag c key =
      (nodeHaAmapUpdate c u.msgCmd.amapVerdict s u.targetId u.lba u.spec).amapTag c key := by
    simp only [State.amapTag, amapView_handle]
  exact hview.trans amapTag_amapUpdate

theorem entry_handle_eq : (handle c s u).entry target lba =
    (nodeHaAmapUpdate c u.msgCmd.amapVerdict s u.targetId u.lba u.spec).entry target lba := by
  rw [entry_eq_view (c := c), amapView_handle, ← entry_eq_view]

theorem index_handle_none (hblock : u.spec.amapBlock = none) :
    (handle c s u).indexes = s.indexes ∧ (handle c s u).index c = s.index c := by
  unfold handle nodeHaIndexCancel nodeHaIndexValidate
  rw [hblock]
  cases u.msgCmd with
  | pgdataSyncStart | pgdataSyncClientDone => exact ⟨amapUpdate_spec.1.1, index_amapUpdate⟩

theorem isSome_handle (hblock : u.spec.amapBlock = some b) : ((handle c s u).indexes row).isSome =
    ((s.indexes row).isSome || u.msgCmd == .pgdataSyncClientDone && decide (b.row = row)) := by
  unfold handle
  cases u.msgCmd with
  | pgdataSyncStart =>
    simp only [isSome_cancel]
    simp [nodeHaAmapCancel, amapUpdate_spec.1]
  | pgdataSyncClientDone =>
    simp only [isSome_validate hblock]
    simp [nodeHaAmapValidate, amapUpdate_spec.1]

def Update.apply (c : Config) (u : Update) (b : Block) (tells : Bool) (x : Index) : Index :=
  match u.msgCmd with
  | .pgdataSyncStart => if tells then processDeleteBlock c x b else x
  | .pgdataSyncClientDone => if tells then x else (bintLogReplay x b.entry (c.count b) false).1

theorem index_handle (hblock : u.spec.amapBlock = some b) (herror : (s.index c b.row).dataError = false) :
    (handle c s u).index c =
      update (s.index c) b.row (u.apply c b (s.tells c b u.spec) (s.index c b.row)) := by
  unfold handle Update.apply
  cases u.msgCmd with
  | pgdataSyncStart =>
    simp only [index_cancel hblock]
    simp only [nodeHaAmapCancel, index_amapUpdate, tells_amapUpdate]
  | pgdataSyncClientDone =>
    simp only [index_validate hblock]
    simp only [nodeHaAmapValidate, index_amapUpdate, tells_amapUpdate, herror, Bool.or_false]

theorem apply_tag {tells : Bool} : (u.apply c b tells x).writeId = x.writeId ∧
    (u.apply c b tells x).dataError = x.dataError := by
  unfold Update.apply
  cases u.msgCmd with
  | pgdataSyncStart =>
    cases tells with
    | true => exact processDeleteBlock_tag
    | false => exact ⟨rfl, rfl⟩
  | pgdataSyncClientDone =>
    cases tells with
    | true => exact ⟨rfl, rfl⟩
    | false => exact ⟨bintLogReplay_spec.1, bintLogReplay_spec.2.1⟩

theorem writeId_handle : ((handle c s u).index c row).writeId = (s.index c row).writeId := by
  cases hblock : u.spec.amapBlock with
  | none => rw [(index_handle_none hblock).2]
  | some b =>
    have hset : ∀ y : Index, y.writeId = (s.index c b.row).writeId →
        (update (s.index c) b.row y row).writeId = (s.index c row).writeId := fun y hy => by
      by_cases hrow : row = b.row
      · rw [hrow, update_self, hy]
      · rw [update_of_ne hrow]
    unfold handle
    cases u.msgCmd with
    | pgdataSyncStart =>
      simp only [index_cancel hblock, nodeHaAmapCancel, index_amapUpdate]
      refine hset _ ?_
      split_ifs
      · exact processDeleteBlock_tag.1
      · rfl
    | pgdataSyncClientDone =>
      simp only [index_validate hblock, nodeHaAmapValidate, index_amapUpdate]
      refine hset _ ?_
      split_ifs
      · rfl
      · exact bintLogReplay_spec.1

def Update.count (u : Update) (tells : Bool) (n : Nat) : Nat :=
  match u.msgCmd with
  | .pgdataSyncStart => if tells then n - 1 else n
  | .pgdataSyncClientDone => if tells then n else if n = maxRefs then n else n + 1

theorem refsOf_apply {tells : Bool} (herror : x.dataError = false)
    (h : ∀ j, b.entry ≤ j → j < b.entry + c.count b → refsOf (x.bmap j) = refsOf (x.bmap b.entry)) (j : Nat) :
    refsOf ((u.apply c b tells x).bmap j) =
      if b.entry ≤ j ∧ j < b.entry + c.count b then u.count tells (refsOf (x.bmap j)) else refsOf (x.bmap j) := by
  unfold Update.apply Update.count
  cases u.msgCmd with
  | pgdataSyncStart =>
    cases tells with
    | true => exact refsOf_processDeleteBlock herror h j
    | false => simp
  | pgdataSyncClientDone =>
    cases tells with
    | true => simp
    | false => exact bintLogReplay_spec.2.2 j

end QuadStor.HaCleanup
