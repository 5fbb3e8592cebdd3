import QuadStor.Lib.Ordered

/-!
# The cached indexes of a subgroup

A subgroup keeps its cached indexes on eight lists, by the low bits of their ids.
-/

namespace QuadStor.Bint

open Lib Function List

/-- The ids on `subgroup->index_list` -/
abbrev IndexLists := Nat → List Nat

structure SubgroupIds where
  start : Nat
  maxIndexes : Nat

def subgroupLocateIndex (lists : IndexLists) (id : Nat) : Bool := seek (· < ·) id (lists (id % 8))

/-- Behind the `prev` that `subgroup_locate_index` gives, or at the head of the list -/
def insertIndex (lists : IndexLists) (id : Nat) : IndexLists :=
  update lists (id % 8) ((lists (id % 8)).orderedInsert (· < ·) id)

def loadAsyncLoop : (n id : Nat) → IndexLists → IndexLists
  | 0, _, lists => lists
  | n + 1, id, lists =>
    loadAsyncLoop n (id + 1) (if subgroupLocateIndex lists id then lists else insertIndex lists id)

/-- A lookup. With `load` it reads ahead, as far as indexes can be allocated. -/
structure Lookup where
  indexId : Nat
  load : Bool
  allocated : Nat

def subgroupGetIndex (g : SubgroupIds) (lists : IndexLists) (l : Lookup) : IndexLists :=
  if subgroupLocateIndex lists l.indexId then lists
  else if l.load then
    loadAsyncLoop (min l.allocated (min (g.maxIndexes - (l.indexId - g.start)) 4)) l.indexId lists
  else insertIndex lists l.indexId

/-- `LIST_INSERT_AFTER`, on whatever list `prev` is -/
def listInsertAfter (prev id : Nat) (lists : IndexLists) : IndexLists := fun i =>
  (lists i).flatMap fun x => if x = prev then [x, id] else [x]

/-- The lists and `prev` after the first `n` rounds of the loop of `bint_subgroup_new` -/
def bintSubgroupNew (g : SubgroupIds) : (n : Nat) → IndexLists × Option Nat
  | 0 => (fun _ => [], none)
  | n + 1 =>
    let id := g.start + n
    match bintSubgroupNew g n with
    | (lists, none) => (update lists (id % 8) (id :: lists (id % 8)), some id)
    | (lists, some prev) => (listInsertAfter prev id lists, some id)

/-- With `force` -/
def subgroupFreeUnused (busy : Nat → Bool) (lists : IndexLists) : IndexLists := fun i => (lists i).filter busy

inductive CacheOp where
  | get (lookup : Lookup)
  | freeUnused (busy : Nat → Bool)

def execCache (g : SubgroupIds) (lists : IndexLists) : CacheOp → IndexLists
  | .get lookup => subgroupGetIndex g lists lookup
  | .freeUnused busy => subgroupFreeUnused busy lists

/-- A moment in the life of a subgroup. `bint_initialize_subgroups` creates the indexes of a new disk, waits for their
writes, after which none is busy, and frees them; lookups come after it. -/
inductive Moment where
  | creating (rounds : Nat)
  | inUse (created : Nat) (ops : List CacheOp)

def listsAt (g : SubgroupIds) : Moment → IndexLists
  | .creating rounds => (bintSubgroupNew g rounds).1
  | .inUse created ops => ops.foldl (execCache g) (subgroupFreeUnused (fun _ => false) (bintSubgroupNew g created).1)

def Moment.Fits : Moment → Prop
  | .creating rounds => rounds ≤ 1
  | .inUse _ _ => True

structure FoundAndUnique (lists : IndexLists) : Prop where
  bucket : ∀ i, ∀ id ∈ lists i, id % 8 = i
  sorted : ∀ i, (lists i).Pairwise (· < ·)
  found : ∀ id, subgroupLocateIndex lists id = true ↔ ∃ i, id ∈ lists i
  unique : ∀ i j id, id ∈ lists i → id ∈ lists j → i = j ∧ (lists i).count id = 1

variable {lists : IndexLists} {g : SubgroupIds} {i id n : Nat}

theorem FoundAndUnique.of_sorted (hbucket : ∀ i, ∀ id ∈ lists i, id % 8 = i)
    (hsorted : ∀ i, (lists i).Pairwise (· < ·)) : FoundAndUnique lists where
  bucket := hbucket
  sorted := hsorted
  found id := by
    rw [subgroupLocateIndex, seek_iff (hsorted _)]
    refine ⟨fun h => ⟨_, h⟩, ?_⟩
    rintro ⟨i, hi⟩
    exact hbucket i id hi ▸ hi
  unique i j id hi hj :=
    ⟨(hbucket i id hi).symm.trans (hbucket j id hj), count_eq_one_of_mem (hsorted i).nodup hi⟩

theorem FoundAndUnique.insertIndex (h : FoundAndUnique lists) (hid : subgroupLocateIndex lists id = false) :
    FoundAndUnique (insertIndex lists id) := by
  have hnew : id ∉ lists (id % 8) := by
    rw [subgroupLocateIndex] at hid
    rw [← seek_iff (h.sorted _), hid]
    simp
  refine .of_sorted (fun i x hx => ?_) fun i => ?_ <;> by_cases hi : i = id % 8
  · subst hi
    obtain rfl | hx : x = id ∨ x ∈ lists (id % 8) := by simpa [Bint.insertIndex] using hx
    · rfl
    · exact h.bucket _ x hx
  · exact h.bucket i x (by simpa [Bint.insertIndex, hi] using hx)
  · subst hi
    simp only [Bint.insertIndex, Function.update_self]
    refine pairwise_orderedInsert (h.sorted _) fun b hb hlt => ?_
    have hne : b ≠ id := by
      rintro rfl
      exact hnew hb
    omega
  · simpa [Bint.insertIndex, hi] using h.sorted i

theorem FoundAndUnique.loadAsyncLoop (h : FoundAndUnique lists) : FoundAndUnique (loadAsyncLoop n id lists) := by
  induction n generalizing id lists with
  | zero => exact h
  | succ n ih =>
    unfold Bint.loadAsyncLoop
    split_ifs with hfound
    · exact ih h
    · exact ih (h.insertIndex (Bool.eq_false_iff.mpr hfound))

theorem FoundAndUnique.freeUnused (h : FoundAndUnique lists) (busy : Nat → Bool) :
    FoundAndUnique (subgroupFreeUnused busy lists) :=
  .of_sorted (fun i id hid => h.bucket i id (mem_of_mem_filter hid)) fun i => (h.sorted i).filter busy

theorem FoundAndUnique.exec (h : FoundAndUnique lists) (op : CacheOp) : FoundAndUnique (execCache g lists op) := by
  cases op with
  | freeUnused busy => exact h.freeUnused busy
  | get lookup =>
    show FoundAndUnique (subgroupGetIndex g lists lookup)
    unfold subgroupGetIndex
    split_ifs with hfound
    · exact h
    · exact h.loadAsyncLoop
    · exact h.insertIndex (Bool.eq_false_iff.mpr hfound)

theorem FoundAndUnique.run (h : FoundAndUnique lists) (ops : List CacheOp) :
    FoundAndUnique (ops.foldl (execCache g) lists) := by
  induction ops generalizing lists with
  | nil => exact h
  | cons op rest ih => exact ih (h.exec op)

/-- `prev` is kept over the loop, so all indexes come to be on the list of the first one. -/
theorem bintSubgroupNew_succ (g : SubgroupIds) (n : Nat) : bintSubgroupNew g (n + 1) =
    (fun i => if i = g.start % 8 then range' g.start (n + 1) else [], some (g.start + n)) := by
  induction n with
  | zero =>
    simp only [bintSubgroupNew, Prod.mk.injEq, Nat.add_zero, and_true]
    funext i
    by_cases hi : i = g.start % 8 <;> simp [hi]
  | succ n ih =>
    rw [bintSubgroupNew, ih]
    simp only [Prod.mk.injEq, and_true]
    funext i
    unfold listInsertAfter
    dsimp only
    split_ifs with hi
    · have hbefore : (range' g.start n).flatMap (fun x => if x = g.start + n then [x, g.start + (n + 1)] else [x]) =
          range' g.start n := by
        rw [flatMap_congr (g := fun x => [x]) fun x hx => if_neg (by have := mem_range'_1.mp hx; omega)]
        exact flatMap_singleton' _
      rw [range'_1_concat, flatMap_append, hbefore, range'_1_concat, range'_1_concat]
      simp
    · rfl

/-- The cached indexes of a subgroup are found, and unique, but for the time in which several are being created. -/
theorem cached_index_found_iff (g : SubgroupIds) (m : Moment) : FoundAndUnique (listsAt g m) ↔ m.Fits := by
  have hempty : FoundAndUnique fun _ => [] := .of_sorted (fun _ _ h => nomatch h) fun _ => .nil
  cases m with
  | inUse created ops =>
    simp only [listsAt, Moment.Fits, iff_true]
    refine FoundAndUnique.run ?_ ops
    have hfreed : subgroupFreeUnused (fun _ => false) (bintSubgroupNew g created).1 = fun _ => [] :=
      funext fun i => filter_false _
    rwa [hfreed]
  | creating rounds =>
    rcases rounds with _ | _ | n
    · exact iff_of_true hempty (Nat.zero_le 1)
    · refine iff_of_true ?_ le_rfl
      rw [listsAt, bintSubgroupNew_succ]
      refine .of_sorted (fun i id hid => ?_) fun i => ?_ <;> dsimp only at * <;> split_ifs at * with hi
      · rw [hi, mem_singleton.mp hid]
      · cases hid
      · exact pairwise_singleton _ _
      · exact .nil
    · refine iff_of_false (fun h => ?_) (by simp [Moment.Fits])
      -- the second index is on the list of the first
      rw [listsAt, bintSubgroupNew_succ] at h
      have hbucket := h.bucket (g.start % 8) (g.start + 1) (by simp)
      omega

/-- After two rounds index 1 is on list 0, and a lookup would cache it once more. -/
theorem created_index_cached_twice : let lists := listsAt ⟨0, 512⟩ (.creating 2)
    lists 0 = [0, 1] ∧ subgroupLocateIndex lists 1 = false ∧ subgroupGetIndex ⟨0, 512⟩ lists ⟨1, false, 1⟩ 1 = [1] ∧
      ¬FoundAndUnique lists :=
  ⟨rfl, rfl, rfl, fun h => absurd (h.bucket 0 1 (by decide)) (by decide)⟩

end QuadStor.Bint
