import QuadStor.Geometry
import QuadStor.Lib.MachineInt
import QuadStor.Lib.Ordered

/-!
# Bitmaps of the maps that are done

A bitmap has 32768 bits. The bitmaps of a group are in a list that is meant to be sorted, and are made when they are
first looked for.
-/

namespace QuadStor.Cloning

open Lib List Function

def amapsPerGroup : Nat := amapsPerAmapTable * amapTablePerGroup

/-- `amap_table_group_id`, from a map -/
def groupId (n : Nat) : Nat := tableId n / amapTablePerGroup

def amapBitmapGroupOffset (n : Nat) : Nat := u32 (n + 2 ^ 32 - amapsPerGroup) / 32768

def amapToBitmapOffset (n : Nat) : Nat := n % 32768

def findBmap (offset : Nat) : List (Nat × Nat) → Option Nat
  | [] => none
  | (o, bmap) :: rest =>
    if o = offset then some bmap
    else if offset < o then none
    else findBmap offset rest

/-- `STAILQ_INSERT_AFTER` the last one with a smaller offset -/
def insertAfter (offset bmap : Nat) : List (Nat × Nat) → List (Nat × Nat)
  | [] => [(offset, bmap)]
  | (o, b) :: rest => if offset < o then (offset, bmap) :: (o, b) :: rest else (o, b) :: insertAfter offset bmap rest

/-- Where `amap_group_bmap_locate` puts a new bitmap; without one with a smaller offset it goes to the end. -/
def insertBmap (offset bmap : Nat) : List (Nat × Nat) → List (Nat × Nat)
  | [] => [(offset, bmap)]
  | (o, b) :: rest =>
    if offset < o then (o, b) :: rest ++ [(offset, bmap)] else (o, b) :: insertAfter offset bmap rest

structure Bitmaps where
  list : Nat → List (Nat × Nat)
  bits : Nat → Nat → Bool
  /-- not in the source: the next bitmap that is allocated -/
  next : Nat

def Bitmaps.empty : Bitmaps := ⟨fun _ => [], fun _ _ => false, 0⟩

def Bitmaps.locate (b : Bitmaps) (n : Nat) : Bitmaps × Nat :=
  match findBmap (amapBitmapGroupOffset n) (b.list (groupId n)) with
  | some bmap => (b, bmap)
  | none =>
    ({ list := update b.list (groupId n) (insertBmap (amapBitmapGroupOffset n) b.next (b.list (groupId n)))
       bits := update b.bits b.next fun _ => false
       next := b.next + 1 }, b.next)

def Bitmaps.setBit (b : Bitmaps) (bmap n : Nat) : Bitmaps :=
  { b with bits := update b.bits bmap (update (b.bits bmap) (amapToBitmapOffset n) true) }

def Bitmaps.bitIsSet (b : Bitmaps) (bmap n : Nat) : Bool := b.bits bmap (amapToBitmapOffset n)

def Bitmaps.free (b : Bitmaps) (g : Nat) : Bitmaps := { b with list := update b.list g [] }

/-- The bitmap for map `n` is not before the first one of the list. -/
def Bitmaps.Ordered (b : Bitmaps) (n : Nat) : Prop :=
  ∀ x ∈ (b.list (groupId n)).head?, x.1 ≤ amapBitmapGroupOffset n

instance {b : Bitmaps} {n : Nat} : Decidable (b.Ordered n) :=
  inferInstanceAs (Decidable (∀ x ∈ (b.list (groupId n)).head?, x.1 ≤ amapBitmapGroupOffset n))

abbrev Sorted (l : List (Nat × Nat)) : Prop := l.Pairwise fun x y => x.1 < y.1

variable {l : List (Nat × Nat)} {o r : Nat} {x : Nat × Nat}

theorem findBmap_mem : findBmap o l = some r → (o, r) ∈ l := by
  fun_induction findBmap o l with
  | case1 => simp
  | case2 b rest => simp_all
  | case3 => simp
  | case4 o' b rest hne hlt ih => exact fun h => mem_cons_of_mem _ (ih h)

theorem findBmap_of_mem (hsorted : Sorted l) (h : (o, r) ∈ l) : findBmap o l = some r := by
  induction l with
  | nil => cases h
  | cons y rest ih =>
    obtain ⟨hy, hrest⟩ := pairwise_cons.mp hsorted
    obtain ⟨o', b⟩ := y
    obtain h | h := mem_cons.mp h
    · cases h
      simp [findBmap]
    · have hlt : o' < o := hy _ h
      rw [findBmap, if_neg (by omega), if_neg (by omega), ih hrest h]

theorem insertAfter_eq : insertAfter o r l = l.orderedInsert (fun x y => x.1 < y.1) (o, r) := by
  fun_induction insertAfter o r l with
  | case1 => rfl
  | case2 o' b rest hlt => simp [hlt]
  | case3 o' b rest hlt ih => simp [hlt, ih]

theorem mem_insertAfter : x ∈ insertAfter o r l ↔ x = (o, r) ∨ x ∈ l := by
  rw [insertAfter_eq, mem_orderedInsert]

theorem mem_insertBmap : x ∈ insertBmap o r l ↔ x = (o, r) ∨ x ∈ l := by
  unfold insertBmap
  split
  · simp
  · split_ifs
    · simp only [cons_append, mem_cons, mem_append, not_mem_nil, or_false]
      tauto
    · simp [mem_insertAfter, or_left_comm]

theorem sorted_insertAfter (hsorted : Sorted l) (hnew : ∀ r, (o, r) ∉ l) : Sorted (insertAfter o r l) := by
  rw [insertAfter_eq]
  refine Lib.pairwise_orderedInsert hsorted fun y hy hlt => Nat.lt_of_le_of_ne (Nat.le_of_not_lt hlt) ?_
  rintro rfl
  exact hnew y.2 hy

theorem sorted_insertBmap (hsorted : Sorted l) (hnew : ∀ r, (o, r) ∉ l) (hfirst : ∀ y ∈ l.head?, y.1 ≤ o) :
    Sorted (insertBmap o r l) := by
  cases l with
  | nil => simp [insertBmap]
  | cons y rest =>
    obtain ⟨o', b⟩ := y
    have hle : o' ≤ o := hfirst (o', b) rfl
    have hafter := sorted_insertAfter (r := r) hsorted hnew
    rw [insertBmap, if_neg (by omega)]
    rwa [insertAfter, if_neg (by omega)] at hafter

structure Bitmaps.Ok (b : Bitmaps) : Prop where
  sorted : ∀ g, Sorted (b.list g)
  lt : ∀ g, ∀ x ∈ b.list g, x.2 < b.next
  once : ∀ g h x y, x ∈ b.list g → y ∈ b.list h → x.2 = y.2 → g = h ∧ x = y

def Bitmaps.Has (b : Bitmaps) (n bmap : Nat) : Prop := (amapBitmapGroupOffset n, bmap) ∈ b.list (groupId n)

def Bitmaps.IsSet (b : Bitmaps) (n : Nat) : Prop := ∃ bmap, b.Has n bmap ∧ b.bitIsSet bmap n = true

variable {b : Bitmaps} {n m bmap g : Nat}

theorem Bitmaps.ok_empty : Bitmaps.empty.Ok :=
  ⟨fun _ => List.Pairwise.nil, by simp [Bitmaps.empty], by simp [Bitmaps.empty]⟩

theorem Bitmaps.not_isSet_empty : ¬Bitmaps.empty.IsSet n := by
  rintro ⟨r, h, -⟩
  cases h

theorem Bitmaps.Ok.bitIsSet_iff (h : b.Ok) (hhas : b.Has n bmap) : b.bitIsSet bmap n = true ↔ b.IsSet n := by
  refine ⟨fun hset => ⟨bmap, hhas, hset⟩, ?_⟩
  rintro ⟨r, hr, hset⟩
  have hfind := findBmap_of_mem (h.sorted _) hr
  rw [findBmap_of_mem (h.sorted _) hhas] at hfind
  cases hfind
  exact hset

theorem eq_of_offsets (hn : n < 2 ^ 32) (hm : m < 2 ^ 32) (hgroup : amapBitmapGroupOffset n = amapBitmapGroupOffset m)
    (hbit : amapToBitmapOffset n = amapToBitmapOffset m) : n = m := by
  simp only [amapBitmapGroupOffset, amapToBitmapOffset, amapsPerGroup, amapsPerAmapTable, amapTablePerGroup, u32]
    at hgroup hbit
  omega

theorem Bitmaps.Ok.setBit (h : b.Ok) : (b.setBit bmap n).Ok := ⟨h.sorted, h.lt, h.once⟩

theorem Bitmaps.isSet_setBit (h : b.Ok) (hhas : b.Has n bmap) (hn : n < 2 ^ 32) (hm : m < 2 ^ 32) :
    (b.setBit bmap n).IsSet m ↔ m = n ∨ b.IsSet m := by
  constructor
  · rintro ⟨r, hr, hset⟩
    by_cases hrb : r = bmap
    · have hsame := (h.once _ _ _ _ hr hhas hrb).2
      subst hrb
      by_cases hbit : amapToBitmapOffset m = amapToBitmapOffset n
      · exact .inl (eq_of_offsets hm hn (congrArg Prod.fst hsame) hbit)
      · right
        exact ⟨r, hr, by simpa [Bitmaps.bitIsSet, Bitmaps.setBit, update_of_ne hbit] using hset⟩
    · exact .inr ⟨r, hr, by simpa [Bitmaps.bitIsSet, Bitmaps.setBit, update_of_ne hrb] using hset⟩
  · rintro (rfl | ⟨r, hr, hset⟩)
    · exact ⟨bmap, hhas, by simp [Bitmaps.bitIsSet, Bitmaps.setBit]⟩
    · refine ⟨r, hr, ?_⟩
      simp only [Bitmaps.bitIsSet, Bitmaps.setBit, update_apply] at hset ⊢
      split_ifs with hrb
      · rw [update_apply, ← hrb, hset, ite_self]
      · exact hset

theorem Bitmaps.Ok.free (h : b.Ok) : (b.free g).Ok := by
  have hsub : ∀ g' x, x ∈ (b.free g).list g' → x ∈ b.list g' := by
    intro g' x hx
    simp only [Bitmaps.free, update_apply] at hx
    split_ifs at hx
    · cases hx
    · exact hx
  refine ⟨fun g' => ?_, fun g' x hx => h.lt g' x (hsub g' x hx),
    fun g' h' x y hx hy => h.once g' h' x y (hsub g' x hx) (hsub h' y hy)⟩
  simp only [Bitmaps.free, update_apply]
  split_ifs
  · exact List.Pairwise.nil
  · exact h.sorted g'

theorem Bitmaps.isSet_free : (b.free g).IsSet m ↔ groupId m ≠ g ∧ b.IsSet m := by
  unfold Bitmaps.IsSet Bitmaps.Has Bitmaps.free
  by_cases hm : groupId m = g
  · simp [hm]
  · simp [hm, Bitmaps.bitIsSet]

theorem mem_update_insertBmap : x ∈ update b.list (groupId n)
    (insertBmap (amapBitmapGroupOffset n) r (b.list (groupId n))) g ↔
      g = groupId n ∧ x = (amapBitmapGroupOffset n, r) ∨ x ∈ b.list g := by
  by_cases hg : g = groupId n
  · simp [hg, mem_insertBmap]
  · simp [hg]

theorem Bitmaps.Ok.locate (h : b.Ok) (hordered : b.Ordered n) : (b.locate n).1.Ok ∧
    (b.locate n).1.Has n (b.locate n).2 ∧ (∀ m, (b.locate n).1.IsSet m ↔ b.IsSet m) ∧
    ∀ g, ∀ x ∈ b.list g, x ∈ (b.locate n).1.list g := by
  unfold Bitmaps.locate
  split
  · rename_i r hfind
    exact ⟨h, findBmap_mem hfind, fun _ => Iff.rfl, fun _ _ hx => hx⟩
  · rename_i hfind
    have hnew : ∀ r, (amapBitmapGroupOffset n, r) ∉ b.list (groupId n) := by
      intro r hr
      rw [findBmap_of_mem (h.sorted _) hr] at hfind
      cases hfind
    refine ⟨⟨fun g => ?_, fun g x hx => ?_, fun g g' x y hx hy hxy => ?_⟩, ?_, fun m => ?_, fun g x hx => ?_⟩
    · by_cases hg : g = groupId n
      · simp only [hg, update_self]
        exact sorted_insertBmap (h.sorted _) hnew hordered
      · simp only [update_of_ne hg]
        exact h.sorted g
    · obtain ⟨-, rfl⟩ | hx := mem_update_insertBmap.1 hx
      · exact Nat.lt_succ_self _
      · exact Nat.lt_succ_of_lt (h.lt g x hx)
    · obtain ⟨rfl, rfl⟩ | hx := mem_update_insertBmap.1 hx
      · obtain ⟨rfl, rfl⟩ | hy := mem_update_insertBmap.1 hy
        · exact ⟨rfl, rfl⟩
        · exact absurd hxy (Nat.ne_of_gt (h.lt g' y hy))
      · obtain ⟨rfl, rfl⟩ | hy := mem_update_insertBmap.1 hy
        · exact absurd hxy (Nat.ne_of_lt (h.lt g x hx))
        · exact h.once g g' x y hx hy hxy
    · exact mem_update_insertBmap.2 (.inl ⟨rfl, rfl⟩)
    · constructor
      · rintro ⟨r, hr, hset⟩
        obtain ⟨-, heq⟩ | hr := mem_update_insertBmap.1 hr
        · obtain rfl : r = b.next := congrArg Prod.snd heq
          simp [Bitmaps.bitIsSet] at hset
        · refine ⟨r, hr, ?_⟩
          simpa [Bitmaps.bitIsSet, update_of_ne (Nat.ne_of_lt (h.lt _ _ hr))] using hset
      · rintro ⟨r, hr, hset⟩
        refine ⟨r, mem_update_insertBmap.2 (.inr hr), ?_⟩
        simpa [Bitmaps.bitIsSet, update_of_ne (Nat.ne_of_lt (h.lt _ _ hr))] using hset
    · exact mem_update_insertBmap.2 (.inr hx)

end QuadStor.Cloning
