import Mathlib.Algebra.Order.Ring.Nat
import Mathlib.Algebra.BigOperators.Group.List.Basic

/-!
# Stores into memory

A piece of code that fills a buffer is a list of stores, each a run of bytes at an offset from the start of the
buffer.
-/

namespace QuadStor.Lib

open List

abbrev Memory := Nat → UInt8

structure ByteStore where
  offset : Nat
  bytes : List UInt8
  deriving DecidableEq, Repr

def ByteStore.apply (m : Memory) (s : ByteStore) : Memory := fun i =>
  if s.offset ≤ i then s.bytes[i - s.offset]?.getD (m i) else m i

def applyStores (m : Memory) (stores : List ByteStore) : Memory := stores.foldl ByteStore.apply m

def fetch (m : Memory) (offset n : Nat) : List UInt8 := (List.range n).map fun i => m (offset + i)

def ByteStore.Within (size : Nat) (s : ByteStore) : Prop := ∀ i, i < s.bytes.length → s.offset + i < size

section

variable {m : Memory} {s : ByteStore} {size o n i : Nat} {stores : List ByteStore}

theorem ByteStore.within_of_le (h : s.offset + s.bytes.length ≤ size) : s.Within size := by
  intro i hi
  omega

theorem ByteStore.within_iff (h : s.bytes ≠ []) : s.Within size ↔ s.offset + s.bytes.length ≤ size := by
  have hpos := length_pos_iff.2 h
  constructor
  · intro hw
    have hlast := hw (s.bytes.length - 1) (by omega)
    omega
  · exact within_of_le

instance (size : Nat) (s : ByteStore) : Decidable (s.Within size) :=
  decidable_of_iff (∀ i : Fin s.bytes.length, s.offset + i.1 < size) ⟨fun h i hi => h ⟨i, hi⟩, fun h i => h i.1 i.2⟩

theorem applyStores_cons : applyStores m (s :: stores) = applyStores (s.apply m) stores := rfl

theorem applyStores_append (first second : List ByteStore) :
    applyStores m (first ++ second) = applyStores (applyStores m first) second := foldl_append

@[simp] theorem length_fetch : (fetch m o n).length = n := by simp [fetch]

theorem fetch_add (k : Nat) : fetch m o (n + k) = fetch m o n ++ fetch m (o + n) k := by
  simp [fetch, range_add, Nat.add_assoc]

theorem fetch_congr {m' : Memory} (h : ∀ i, o ≤ i → i < o + n → m i = m' i) : fetch m o n = fetch m' o n := by
  apply map_congr_left
  intro i hi
  rw [mem_range] at hi
  exact h (o + i) (by omega) (by omega)

theorem fetch_apply_same (h : s.bytes.length = n) : fetch (s.apply m) s.offset n = s.bytes := by
  subst h
  apply ext_getElem
  · simp
  · intro i hi hi'
    simp [fetch, ByteStore.apply, hi']

theorem ByteStore.apply_below (h : i < s.offset) : s.apply m i = m i := by
  simp [ByteStore.apply, Nat.not_le.2 h]

theorem ByteStore.apply_above (h : s.offset + s.bytes.length ≤ i) : s.apply m i = m i := by
  have hnone : s.bytes[i - s.offset]? = none := getElem?_eq_none (by omega)
  simp [ByteStore.apply, hnone]

theorem fetch_apply_below (h : o + n ≤ s.offset) : fetch (s.apply m) o n = fetch m o n := by
  apply fetch_congr
  intro i _ hi
  exact ByteStore.apply_below (by omega)

theorem fetch_apply_above (h : s.offset + s.bytes.length ≤ o) : fetch (s.apply m) o n = fetch m o n := by
  apply fetch_congr
  intro i hi _
  exact ByteStore.apply_above (by omega)

theorem fetch_applyStores_below (h : ∀ s ∈ stores, o + n ≤ s.offset) :
    fetch (applyStores m stores) o n = fetch m o n := by
  induction stores generalizing m with
  | nil => rfl
  | cons s stores ih =>
    have hs := h s (by simp)
    rw [applyStores_cons, ih fun t ht => h t (by simp [ht]), fetch_apply_below hs]

end

variable {α : Type*}

/-- One item after the other; an item that ends beyond `limit` is left out, and the bytes of all are counted. -/
def fillLoop (limit : Nat) (size : α → Nat) (fill : α → Nat → List ByteStore) : List α → Nat → List ByteStore × Nat
  | [], done => ([], done)
  | a :: rest, done =>
    let tail := fillLoop limit size fill rest ((done + size a) % 2 ^ 16)
    (if done + size a > limit then tail.1 else fill a done ++ tail.1, tail.2)

def totalSize (size : α → Nat) (l : List α) : Nat := (l.map size).sum

variable {limit done bound : Nat} {size : α → Nat} {fill : α → Nat → List ByteStore} {a : α} {l rest : List α}

@[simp] theorem totalSize_nil : totalSize size [] = 0 := rfl

@[simp] theorem totalSize_cons : totalSize size (a :: rest) = size a + totalSize size rest := sum_cons

theorem fillLoop_cons (h : done + size a ≤ limit) (hlimit : limit < 2 ^ 16) :
    fillLoop limit size fill (a :: rest) done = (fill a done ++ (fillLoop limit size fill rest (done + size a)).1,
        (fillLoop limit size fill rest (done + size a)).2) := by
  have hmod : (done + size a) % 2 ^ 16 = done + size a := Nat.mod_eq_of_lt (by omega)
  rw [fillLoop, hmod, if_neg (by omega)]

theorem fillLoop_count (h : done + totalSize size l ≤ limit) (hlimit : limit < 2 ^ 16) :
    (fillLoop limit size fill l done).2 = done + totalSize size l := by
  induction l generalizing done with
  | nil => rfl
  | cons a rest ih =>
    rw [totalSize_cons] at h ⊢
    rw [fillLoop_cons (by omega) hlimit, ih (by omega), Nat.add_assoc]

theorem fillLoop_offset (hfill : ∀ a done, ∀ s ∈ fill a done, done ≤ s.offset)
    (h : done + totalSize size l ≤ limit) (hlimit : limit < 2 ^ 16) :
    ∀ s ∈ (fillLoop limit size fill l done).1, done ≤ s.offset := by
  induction l generalizing done with
  | nil => simp [fillLoop]
  | cons a rest ih =>
    rw [totalSize_cons] at h
    intro s hs
    rw [fillLoop_cons (by omega) hlimit] at hs
    rcases mem_append.1 hs with hs | hs
    · exact hfill a done s hs
    · have := ih (by omega) s hs
      omega

theorem fetch_fillLoop_cons {m : Memory} {head : List UInt8} {others : List ByteStore}
    (hfill : ∀ a done, ∀ s ∈ fill a done, done ≤ s.offset) (ha : fill a done = ⟨done, head⟩ :: others)
    (hothers : ∀ s ∈ others, done + head.length ≤ s.offset) (hhead : head.length ≤ size a)
    (h : done + totalSize size (a :: rest) ≤ limit) (hlimit : limit < 2 ^ 16) :
    fetch (applyStores m (fillLoop limit size fill (a :: rest) done).1) done (totalSize size (a :: rest)) =
      head ++ (fetch (applyStores m (fillLoop limit size fill (a :: rest) done).1) (done + head.length)
        (size a - head.length) ++
        fetch (applyStores (applyStores m (fill a done)) (fillLoop limit size fill rest (done + size a)).1)
          (done + size a) (totalSize size rest)) := by
  rw [totalSize_cons] at h ⊢
  have hrest : ∀ s ∈ (fillLoop limit size fill rest (done + size a)).1, done + size a ≤ s.offset :=
    fillLoop_offset hfill (by omega) hlimit
  have hsplit : size a + totalSize size rest = head.length + (size a - head.length + totalSize size rest) := by omega
  rw [fillLoop_cons (by omega) hlimit, hsplit, fetch_add, fetch_add]
  congr 1
  · rw [ha, cons_append, applyStores_cons, applyStores_append, fetch_applyStores_below, fetch_applyStores_below]
    · exact fetch_apply_same rfl
    · exact hothers
    · intro s hs
      have := hrest s hs
      omega
  · have hnext : done + head.length + (size a - head.length) = done + size a := by omega
    rw [hnext, ← applyStores_append]

theorem within_fillLoop_iff (hdone : done < 2 ^ 16) : (∀ s ∈ (fillLoop limit size fill l done).1, s.Within bound) ↔
      ∀ before a after, l = before ++ a :: after → (done + totalSize size before) % 2 ^ 16 + size a ≤ limit →
          ∀ s ∈ fill a ((done + totalSize size before) % 2 ^ 16), s.Within bound := by
  induction l generalizing done with
  | nil => simp [fillLoop]
  | cons b rest ih =>
    have hshift : ∀ n, ((done + size b) % 2 ^ 16 + n) % 2 ^ 16 = (done + (size b + n)) % 2 ^ 16 := by omega
    have hrest := @ih ((done + size b) % 2 ^ 16) (Nat.mod_lt _ (by decide))
    constructor
    · intro h before a after hl hfit
      have htail : ∀ s ∈ (fillLoop limit size fill rest ((done + size b) % 2 ^ 16)).1, s.Within bound := by
        intro s hs
        apply h
        rw [fillLoop]
        split
        · exact hs
        · exact mem_append_right _ hs
      cases before with
      | nil =>
        obtain ⟨rfl, rfl⟩ := cons_eq_cons.1 hl
        rw [totalSize_nil, Nat.add_zero, Nat.mod_eq_of_lt hdone] at hfit ⊢
        intro s hs
        apply h
        rw [fillLoop, if_neg (by omega)]
        exact mem_append_left _ hs
      | cons c before =>
        obtain ⟨rfl, rfl⟩ := cons_eq_cons.1 hl
        rw [totalSize_cons, ← hshift] at hfit ⊢
        exact hrest.1 htail before a after rfl hfit
    · intro h s hs
      have htail : ∀ s ∈ (fillLoop limit size fill rest ((done + size b) % 2 ^ 16)).1, s.Within bound := by
        apply hrest.2
        intro before a after hl hfit
        have hcons := h (b :: before) a after (by rw [hl, cons_append])
        rw [totalSize_cons, ← hshift] at hcons
        exact hcons hfit
      rw [fillLoop] at hs
      split at hs
      · exact htail s hs
      · rcases mem_append.1 hs with hs | hs
        · have hfirst := h [] b rest rfl
          rw [totalSize_nil, Nat.add_zero, Nat.mod_eq_of_lt hdone] at hfirst
          exact hfirst (by omega) s hs
        · exact htail s hs

end QuadStor.Lib
