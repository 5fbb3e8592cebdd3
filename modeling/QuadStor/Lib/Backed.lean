import Mathlib.Data.List.Basic

/-!
# Objects written back under a serial number

An object lives in memory and is written to its place on disk as a whole, one write at a time.
-/

namespace QuadStor.Lib

structure Image where
  serial : Nat
  updates : List Nat
  deriving DecidableEq, Repr

structure Backed where
  mem : Image
  inFlight : Option Image
  disk : Image
  deriving DecidableEq, Repr

namespace Backed

variable {o : Backed} {made made' : Nat → Nat → Prop} {gap n w next serial : Nat}

def update (o : Backed) (n : Nat) : Backed :=
  { o with mem := { o.mem with updates := n :: o.mem.updates } }

def writeBack (o : Backed) (serial : Nat) : Backed :=
  { o with mem := { o.mem with serial }, inFlight := some { o.mem with serial } }

def written (o : Backed) (ok : Bool) : Backed :=
  { o with inFlight := none, disk := if ok then o.inFlight.getD o.disk else o.disk }

/-- `made n w`: update `n` was recorded under serial number `w`. The images in flight and on disk have exactly the
updates recorded under a smaller number. -/
structure Tracks (gap : Nat) (made : Nat → Nat → Prop) (o : Backed) : Prop where
  mem : ∀ {n w}, made n w → n ∈ o.mem.updates ∧ w ≤ o.mem.serial
  flight : ∀ {i}, o.inFlight = some i → i.serial = o.mem.serial
  flight_iff : ∀ {i n w}, o.inFlight = some i → made n w → (n ∈ i.updates ↔ w < i.serial)
  disk_iff : ∀ {n w}, made n w → (n ∈ o.disk.updates ↔ w < o.disk.serial)
  disk_le : o.disk.serial ≤ o.mem.serial
  le_disk : o.mem.serial ≤ o.disk.serial + gap

structure Below (next : Nat) (o : Backed) : Prop where
  mem : ∀ n ∈ o.mem.updates, n < next
  flight : ∀ i, o.inFlight = some i → ∀ n ∈ i.updates, n < next
  disk : ∀ n ∈ o.disk.updates, n < next

section

variable (h : o.Tracks gap made)
include h

theorem Tracks.mono (hsub : ∀ {n w}, made' n w → made n w) : o.Tracks gap made' :=
  ⟨fun hm => h.mem (hsub hm), h.flight, fun hi hm => h.flight_iff hi (hsub hm),
    fun hm => h.disk_iff (hsub hm), h.disk_le, h.le_disk⟩

theorem Tracks.update (hbelow : o.Below next)
    (hmade : ∀ {n w}, made' n w → made n w ∨ (n = next ∧ w = o.mem.serial)) : (o.update next).Tracks gap made' := by
  refine ⟨fun hm => ?_, h.flight, fun hi hm => ?_, fun hm => ?_, h.disk_le, h.le_disk⟩
  · rcases hmade hm with hm | ⟨rfl, rfl⟩
    · exact ⟨List.mem_cons_of_mem _ (h.mem hm).1, (h.mem hm).2⟩
    · exact ⟨List.mem_cons_self, Nat.le_refl _⟩
  · rcases hmade hm with hm | ⟨rfl, rfl⟩
    · exact h.flight_iff hi hm
    · -- the image in flight was taken before
      have hserial := h.flight hi
      refine ⟨fun hmem => absurd (hbelow.flight _ hi _ hmem) (Nat.lt_irrefl _), fun hlt => ?_⟩
      omega
  · rcases hmade hm with hm | ⟨rfl, rfl⟩
    · exact h.disk_iff hm
    · have hle := h.disk_le
      refine ⟨fun hmem => absurd (hbelow.disk _ hmem) (Nat.lt_irrefl _), fun hlt => ?_⟩
      exact absurd hlt (Nat.not_lt.mpr hle)

theorem Tracks.writeBack (hgt : o.mem.serial < serial)
    (hle : serial ≤ o.disk.serial + gap) : (o.writeBack serial).Tracks gap made := by
  refine ⟨fun hm => ?_, fun hi => ?_, fun hi hm => ?_, h.disk_iff, ?_, hle⟩
  · have := (h.mem hm).2
    exact ⟨(h.mem hm).1, Nat.le_of_lt (Nat.lt_of_le_of_lt this hgt)⟩
  · cases hi
    rfl
  · cases hi
    exact ⟨fun _ => Nat.lt_of_le_of_lt (h.mem hm).2 hgt, fun _ => (h.mem hm).1⟩
  · exact Nat.le_trans h.disk_le (Nat.le_of_lt hgt)

theorem Tracks.written {ok : Bool} : (o.written ok).Tracks gap made := by
  cases hi : o.inFlight with
  | none =>
    have heq : o.written ok = o := by
      cases o
      cases hi
      simp [Backed.written]
    rw [heq]
    exact h
  | some i =>
    have hserial := h.flight hi
    cases ok with
    | false =>
      exact ⟨h.mem, (fun hj => nomatch hj), (fun hj => nomatch hj), h.disk_iff, h.disk_le, h.le_disk⟩
    | true =>
      have hdisk : (o.written true).disk = i := by simp [Backed.written, hi]
      refine ⟨h.mem, (fun hj => nomatch hj), (fun hj => nomatch hj), fun hm => ?_, ?_, ?_⟩
      · rw [hdisk]
        exact h.flight_iff hi hm
      · rw [hdisk, hserial]
        exact Nat.le_refl _
      · rw [hdisk, hserial]
        exact Nat.le_add_right _ _

end

section

variable (h : o.Below next)
include h

theorem Below.mono {next' : Nat} (hle : next ≤ next') : o.Below next' :=
  ⟨fun n hn => Nat.lt_of_lt_of_le (h.mem n hn) hle, fun i hi n hn => Nat.lt_of_lt_of_le (h.flight i hi n hn) hle,
    fun n hn => Nat.lt_of_lt_of_le (h.disk n hn) hle⟩

theorem Below.update : (o.update next).Below (next + 1) := by
  have h' := h.mono (Nat.le_succ next)
  exact ⟨List.forall_mem_cons.2 ⟨Nat.lt_succ_self next, h'.mem⟩, h'.flight, h'.disk⟩

theorem Below.writeBack : (o.writeBack serial).Below next :=
  ⟨h.mem, fun i hi => by cases hi; exact h.mem, h.disk⟩

theorem Below.written {ok : Bool} : (o.written ok).Below next := by
  refine ⟨h.mem, (fun i hi => nomatch hi), ?_⟩
  cases ok with
  | false => exact h.disk
  | true =>
    cases hi : o.inFlight with
    | none => simpa [Backed.written, hi] using h.disk
    | some i => simpa [Backed.written, hi] using h.flight i hi

end

end Backed

end QuadStor.Lib
