import QuadStor.Lib.MachineInt

/-!
# The disk to allocate from

A pool has a list of disks with free space, and remembers the disk on it at which the next search begins.
-/

namespace QuadStor.Bint

open Lib List

structure PoolDisk where
  bid : Nat
  initialized : Int
  ddmaster : Bool
  free : Int
deriving DecidableEq, Repr

structure Bdevgroup where
  allocList : List PoolDisk
  eligible : Option PoolDisk
  nodup : allocList.Nodup
  eligible_mem : ∀ d ∈ eligible, d ∈ allocList

def slistNext (d : PoolDisk) : List PoolDisk → Option PoolDisk
  | [] => none
  | x :: rest => if x = d then rest.head? else slistNext d rest

def bdevAllocListNextRotate (l : List PoolDisk) (d : PoolDisk) : Option PoolDisk := (slistNext d l).or l.head?

/-- The test of the search, with `max_t(int, size, BINT_ALLOC_RESERVED)`; `free` is read as an unsigned number. -/
def PoolDisk.passes (size reservedSize : Nat) (d : PoolDisk) : Bool :=
  let limit := if d.ddmaster then reservedSize else (max (s32 size) (2 ^ 26)).toNat
  d.initialized == 1 && limit < (d.free % 2 ^ 64).toNat

structure Choice where
  found : Option PoolDisk
  allocList : List PoolDisk
  eligible : Option PoolDisk

/-- The loop of `bint_get_eligible`; it has no result if the fuel does not last. -/
def eligibleLoop (passes : PoolDisk → Bool) : (fuel : Nat) → List PoolDisk → Option PoolDisk → Option Choice
  | _, l, none => some ⟨none, l, none⟩
  | 0, _, some _ => none
  | fuel + 1, l, some d =>
    if passes d then some ⟨some d, l, bdevAllocListNextRotate l d⟩
    else if bdevAllocListNextRotate l d = some d then some ⟨none, l.erase d, none⟩
    else eligibleLoop passes fuel (l.erase d) (bdevAllocListNextRotate l d)

def bintGetEligible (size reservedSize : Nat) (g : Bdevgroup) : Option Choice :=
  eligibleLoop (PoolDisk.passes size reservedSize) g.allocList.length g.allocList (g.eligible.or g.allocList.head?)

structure Choice.Exact (passes : PoolDisk → Bool) (l : List PoolDisk) (c : Choice) : Prop where
  found : ∀ d ∈ c.found, d ∈ l ∧ passes d = true
  complete : (∃ d ∈ l, passes d = true) → c.found ≠ none
  sublist : c.allocList.Sublist l
  removed : ∀ d ∈ l, d ∉ c.allocList → passes d = false
  eligible : ∀ d ∈ c.eligible, d ∈ c.allocList

variable {passes : PoolDisk → Bool} {l : List PoolDisk} {d e : PoolDisk}

theorem slistNext_mem (h : slistNext d l = some e) : e ∈ l := by
  induction l with
  | nil => cases h
  | cons x rest ih =>
    unfold slistNext at h
    split_ifs at h
    · exact mem_cons_of_mem _ (mem_of_mem_head? h)
    · exact mem_cons_of_mem _ (ih h)

theorem nextRotate_mem (h : bdevAllocListNextRotate l d = some e) : e ∈ l := by
  obtain h | ⟨-, h⟩ := Option.or_eq_some_iff.mp h
  · exact slistNext_mem h
  · exact mem_of_mem_head? h

theorem slistNext_ne_self (hnodup : l.Nodup) : slistNext d l ≠ some d := by
  induction l with
  | nil => exact nofun
  | cons x rest ih =>
    obtain ⟨hx, hrest⟩ := nodup_cons.mp hnodup
    unfold slistNext
    split_ifs with hxd
    · exact fun h => hx (hxd ▸ mem_of_mem_head? h)
    · exact ih hrest

theorem eq_singleton_of_nextRotate (hnodup : l.Nodup) (h : bdevAllocListNextRotate l d = some d) : l = [d] := by
  obtain h | ⟨hnext, hhead⟩ := Option.or_eq_some_iff.mp h
  · exact absurd h (slistNext_ne_self hnodup)
  · obtain ⟨rest, rfl⟩ := head?_eq_some_iff.mp hhead
    simpa [slistNext] using hnext

theorem Choice.Exact.of_erase {c : Choice} (h : c.Exact passes (l.erase d)) (hd : passes d = false) :
    c.Exact passes l where
  found x hx := ⟨mem_of_mem_erase (h.found x hx).1, (h.found x hx).2⟩
  complete := by
    rintro ⟨x, hx, hp⟩
    have hne : x ≠ d := by
      rintro rfl
      simp [hd] at hp
    exact h.complete ⟨x, (mem_erase_of_ne hne).mpr hx, hp⟩
  sublist := h.sublist.trans erase_sublist
  removed x hx hn := by
    by_cases hne : x = d
    · rwa [hne]
    · exact h.removed x ((mem_erase_of_ne hne).mpr hx) hn
  eligible := h.eligible

theorem exact_empty : (⟨none, [], none⟩ : Choice).Exact passes [] := by
  constructor <;> simp

theorem eligibleLoop_exact {fuel : Nat} (hfuel : l.length ≤ fuel) (hnodup : l.Nodup) (hd : d ∈ l) :
    ∃ c, eligibleLoop passes fuel l (some d) = some c ∧ c.Exact passes l := by
  induction fuel generalizing l d with
  | zero => simp [eq_nil_of_length_eq_zero (Nat.le_zero.mp hfuel)] at hd
  | succ fuel ih =>
    unfold eligibleLoop
    split_ifs with hpass hself
    · exact ⟨_, rfl, by simpa using ⟨hd, hpass⟩, by simp, .refl _, fun x hx hn => absurd hx hn,
        fun x hx => nextRotate_mem hx⟩
    · obtain rfl := eq_singleton_of_nextRotate hnodup hself
      refine ⟨_, rfl, .of_erase ?_ (Bool.eq_false_iff.mpr hpass)⟩
      simpa using exact_empty
    · cases hnext : bdevAllocListNextRotate l d with
      | none => simp [head?_eq_none_iff.mp (Option.or_eq_none_iff.mp hnext).2] at hd
      | some e =>
        have hne : e ≠ d := fun h => hself (h ▸ hnext)
        have hlength : (l.erase d).length ≤ fuel := by
          rw [length_erase_of_mem hd]
          omega
        obtain ⟨c, hc, hexact⟩ := ih hlength (hnodup.erase d) ((mem_erase_of_ne hne).mpr (nextRotate_mem hnext))
        exact ⟨c, hc, hexact.of_erase (Bool.eq_false_iff.mpr hpass)⟩

/-- The search ends, after at most as many rounds as there are disks on the list, and its choice is exact. -/
theorem eligible_disk_exact (g : Bdevgroup) (size reservedSize : Nat) :
    ∃ c, bintGetEligible size reservedSize g = some c ∧ c.Exact (PoolDisk.passes size reservedSize) g.allocList := by
  unfold bintGetEligible
  cases hstart : g.eligible.or g.allocList.head? with
  | none =>
    rw [head?_eq_none_iff.mp (Option.or_eq_none_iff.mp hstart).2]
    exact ⟨_, rfl, exact_empty⟩
  | some d =>
    refine eligibleLoop_exact le_rfl g.nodup ?_
    obtain h | ⟨-, h⟩ := Option.or_eq_some_iff.mp hstart
    · exact g.eligible_mem d h
    · exact mem_of_mem_head? h

end QuadStor.Bint
