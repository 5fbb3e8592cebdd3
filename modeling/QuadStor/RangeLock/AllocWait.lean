import QuadStor.Lib.Ordered
import QuadStor.Lib.System

/-!
# Waiting for earlier allocations

A list of `struct lba_write`, such as `tdisk->lba_write_list`, and its wait channel. A write waits until the writes
in front of it that begin close enough have allocated their blocks, or have started their I/O.
-/

namespace QuadStor.RangeLock.AllocWait

open Lib List Function

inductive Flag where
  | doneAlloc
  | doneIo
deriving DecidableEq

structure LbaWrite where
  /-- not in the source: which one it is -/
  id : Nat
  lbaStart : UInt64
  doneAlloc : Bool
  doneIo : Bool
deriving DecidableEq

def LbaWrite.flag (w : LbaWrite) : Flag → Bool
  | .doneAlloc => w.doneAlloc
  | .doneIo => w.doneIo

def LbaWrite.set (w : LbaWrite) : Flag → LbaWrite
  | .doneAlloc => { w with doneAlloc := true }
  | .doneIo => { w with doneIo := true }

def tdiskAddAllocLbaWrite (w : LbaWrite) : List LbaWrite → List LbaWrite
  | [] => [w]
  | iter :: rest =>
    if iter.lbaStart < w.lbaStart then iter :: tdiskAddAllocLbaWrite w rest else w :: iter :: rest

/-- The entry at which a pass of `tdisk_check_alloc_lba_write` goes to sleep; the sum may wrap. -/
def blocker (flag : Flag) (w : LbaWrite) : List LbaWrite → Option LbaWrite
  | [] => none
  | iter :: rest =>
    if iter.id = w.id then none
    else if iter.lbaStart + 256 < w.lbaStart then blocker flag w rest
    else if !iter.flag flag then some iter
    else blocker flag w rest

inductive Phase where
  | running
  | waiting (flag : Flag)
  | woken (flag : Flag)
deriving DecidableEq

def Phase.wake : Phase → Phase
  | .waiting flag => .woken flag
  | phase => phase

structure State where
  list : List LbaWrite
  phase : Nat → Phase

def State.initial : State := ⟨[], fun _ => .running⟩

/-- The list is changed under the lock of the channel, and all that wait are woken. -/
def State.change (s : State) (list : List LbaWrite) : State := ⟨list, fun id => (s.phase id).wake⟩

def State.pass (s : State) (w : LbaWrite) (flag : Flag) : State :=
  let phase : Phase := if (blocker flag w s.list).isSome then .waiting flag else .running
  { s with phase := update s.phase w.id phase }

inductive Action where
  | add (w : LbaWrite)
  | update (id : Nat) (flag : Flag)
  | remove (id : Nat)
  | check (w : LbaWrite) (flag : Flag)
  | again (w : LbaWrite) (flag : Flag)
  /-- `wait_on_chan_uncond` returns early, on a signal -/
  | signal (id : Nat)

def exec (s : State) : Action → Option State
  | .add w =>
    if w.id ∈ s.list.map LbaWrite.id then none else some { s with list := tdiskAddAllocLbaWrite w s.list }
  | .update id flag =>
    if s.phase id = .running then
      some (s.change (s.list.map fun iter => if iter.id = id then iter.set flag else iter))
    else none
  | .remove id => if s.phase id = .running then some (s.change (s.list.filter (·.id ≠ id))) else none
  | .check w flag => if w ∈ s.list ∧ s.phase w.id = .running then some (s.pass w flag) else none
  | .again w flag => if w ∈ s.list ∧ s.phase w.id = .woken flag then some (s.pass w flag) else none
  | .signal id => some { s with phase := update s.phase id (s.phase id).wake }

def system : System State Action where
  init s := s = .initial
  step s a s' := exec s a = some s'

def State.Waiting (s : State) (w : LbaWrite) : Prop := ∃ flag, s.phase w.id = .waiting flag

/-- The wait of one listed write for another, as the next pass over the list finds it -/
def State.WaitsFor (s : State) (w v : LbaWrite) : Prop :=
  w ∈ s.list ∧ ∃ flag, s.phase w.id = .waiting flag ∧ blocker flag w s.list = some v

structure DeadlockFree (s : State) : Prop where
  sorted : s.list.Pairwise fun v w => v.lbaStart ≤ w.lbaStart
  acyclic : ∀ w, ¬Relation.TransGen s.WaitsFor w w
  progress : (∃ id flag, s.phase id = .waiting flag) → ∃ w ∈ s.list, ¬s.Waiting w ∧ ∀ flag, blocker flag w s.list = none

variable {s s' : State} {l : List LbaWrite} {v w : LbaWrite} {flag : Flag} {a : Action}

theorem tdiskAddAllocLbaWrite_eq :
    tdiskAddAllocLbaWrite w l = l.orderedInsert (fun v w => v.lbaStart ≤ w.lbaStart) w := by
  induction l with
  | nil => rfl
  | cons iter rest ih =>
    simp only [tdiskAddAllocLbaWrite, orderedInsert_cons, ih, ← UInt64.not_le, ite_not]

theorem sorted_tdiskAddAllocLbaWrite (hl : l.Pairwise fun v w => v.lbaStart ≤ w.lbaStart) :
    (tdiskAddAllocLbaWrite w l).Pairwise fun v w => v.lbaStart ≤ w.lbaStart := by
  rw [tdiskAddAllocLbaWrite_eq]
  exact pairwise_orderedInsert hl fun v _ hle => UInt64.le_of_lt (UInt64.not_le.1 hle)

theorem blocker_head {rest : List LbaWrite} (h : v.id = w.id) : blocker flag w (v :: rest) = none := by
  rw [blocker, if_pos h]

theorem idxOf_blocker_lt (hw : w ∈ l) (h : blocker flag w l = some v) : l.idxOf v < l.idxOf w := by
  induction l with
  | nil => cases hw
  | cons iter rest ih =>
    by_cases hid : iter.id = w.id
    · rw [blocker_head hid] at h
      cases h
    have hne : iter ≠ w := fun heq => hid (congrArg LbaWrite.id heq)
    rw [idxOf_cons_ne _ hne]
    by_cases hv : iter = v
    · rw [hv, idxOf_cons_self]
      exact Nat.succ_pos _
    · rw [idxOf_cons_ne _ hv]
      rw [blocker, if_neg hid] at h
      refine Nat.succ_lt_succ (ih ((mem_cons.mp hw).resolve_left (Ne.symm hne)) ?_)
      split_ifs at h with hfar hset
      · exact h
      · exact absurd (Option.some.inj h) hv
      · exact h

theorem acyclic_waitsFor (s : State) (w : LbaWrite) : ¬Relation.TransGen s.WaitsFor w w := by
  intro hcycle
  have hlt := Relation.TransGen.lift (p := (· > ·)) s.list.idxOf
    (fun _ _ ⟨hw, _, _, hv⟩ => idxOf_blocker_lt hw hv) _ _ hcycle
  rw [Relation.transGen_eq_self] at hlt
  exact Nat.lt_irrefl _ hlt

theorem Phase.wake_ne_waiting (phase : Phase) : phase.wake ≠ .waiting flag := by cases phase <;> nofun

structure Inv (s : State) : Prop where
  sorted : s.list.Pairwise fun v w => v.lbaStart ≤ w.lbaStart
  listed : ∀ id, s.phase id ≠ .running → id ∈ s.list.map LbaWrite.id
  head : ∀ w ∈ s.list.head?, ¬s.Waiting w

theorem Inv.change (hl : l.Pairwise fun v w => v.lbaStart ≤ w.lbaStart)
    (hlisted : ∀ id, s.phase id ≠ .running → id ∈ l.map LbaWrite.id) : Inv (s.change l) where
  sorted := hl
  listed id hid := by
    refine hlisted id fun hrun => hid ?_
    simp [State.change, hrun, Phase.wake]
  head w _ := by
    rintro ⟨flag, hflag⟩
    exact (s.phase w.id).wake_ne_waiting hflag

theorem Inv.pass (h : Inv s) (hw : w ∈ s.list) : Inv (s.pass w flag) where
  sorted := h.sorted
  listed id hid := by
    by_cases heq : id = w.id
    · exact heq ▸ mem_map_of_mem hw
    · exact h.listed id (by simpa [State.pass, heq] using hid)
  head v hv := by
    obtain ⟨rest, hl⟩ := head?_eq_some_iff.1 hv
    rintro ⟨flag', hflag⟩
    by_cases heq : v.id = w.id
    · simp [State.pass, heq, show s.list = _ from hl, blocker_head heq] at hflag
    · exact h.head v hv ⟨flag', by simpa [State.pass, heq] using hflag⟩

theorem Inv.signal (h : Inv s) (id : Nat) :
    Inv { s with phase := update s.phase id (s.phase id).wake } where
  sorted := h.sorted
  listed i hi := by
    refine h.listed i fun hrun => hi ?_
    by_cases heq : i = id
    · subst heq
      simp [hrun, Phase.wake]
    · simpa [heq] using hrun
  head v hv := by
    rintro ⟨flag, hflag⟩
    by_cases heq : v.id = id
    · subst heq
      exact (s.phase v.id).wake_ne_waiting (by simpa using hflag)
    · exact h.head v hv ⟨flag, by simpa [heq] using hflag⟩

theorem Inv.add (h : Inv s) (hw : w.id ∉ s.list.map LbaWrite.id) :
    Inv { s with list := tdiskAddAllocLbaWrite w s.list } where
  sorted := sorted_tdiskAddAllocLbaWrite h.sorted
  listed id hid := by
    obtain ⟨v, hv, heq⟩ := List.mem_map.mp (h.listed id hid)
    rw [tdiskAddAllocLbaWrite_eq]
    exact List.mem_map.mpr ⟨v, (mem_orderedInsert _).2 (.inr hv), heq⟩
  head v hv := by
    rintro ⟨flag, hflag⟩
    have hnew : v ≠ w := by
      rintro rfl
      exact hw (h.listed v.id (by rw [show s.phase v.id = _ from hflag]; nofun))
    refine h.head v ?_ ⟨flag, hflag⟩
    cases hl : s.list with
    | nil => simp [hl, tdiskAddAllocLbaWrite, Ne.symm hnew] at hv
    | cons iter rest =>
      simp only [hl, tdiskAddAllocLbaWrite] at hv
      split_ifs at hv
      · exact hv
      · simp [Ne.symm hnew] at hv

theorem Inv.step (h : Inv s) (hstep : exec s a = some s') : Inv s' := by
  cases a with
  | add w =>
    obtain ⟨hw, rfl⟩ := System.of_guard_not hstep
    exact h.add hw
  | update id flag =>
    obtain ⟨-, rfl⟩ := System.of_guard hstep
    refine Inv.change (pairwise_map.2 (h.sorted.imp fun {v w} hle => ?_)) fun i hi => ?_
    · split_ifs <;> cases flag <;> exact hle
    · have hsame : ∀ iter : LbaWrite, (if iter.id = id then iter.set flag else iter).id = iter.id := fun iter => by
        split_ifs <;> cases flag <;> rfl
      simpa [Function.comp_def, hsame] using h.listed i hi
  | remove id =>
    obtain ⟨hrun, rfl⟩ := System.of_guard hstep
    refine Inv.change (h.sorted.filter _) fun i hi => ?_
    obtain ⟨w, hw, rfl⟩ := List.mem_map.mp (h.listed i hi)
    refine mem_map_of_mem (mem_filter.2 ⟨hw, ?_⟩)
    simp only [ne_eq, decide_eq_true_eq]
    rintro rfl
    exact hi hrun
  | check w flag | again w flag =>
    obtain ⟨⟨hw, -⟩, rfl⟩ := System.of_guard hstep
    exact h.pass hw
  | signal id =>
    cases hstep
    exact h.signal id

theorem inv_invariant : system.Invariant Inv where
  init h := h ▸ ⟨List.Pairwise.nil, fun _ h => absurd rfl h, nofun⟩
  step h hstep := h.step hstep

/-- The list is sorted, no writes wait for each other, and if any wait, the first of the list does not. -/
theorem alloc_waits_deadlock_free (hs : system.Reachable s) : DeadlockFree s where
  sorted := (System.Invariant.reachable inv_invariant hs).sorted
  acyclic := acyclic_waitsFor s
  progress := by
    rintro ⟨id, flag, hwait⟩
    have h := System.Invariant.reachable inv_invariant hs
    have hlisted := h.listed id (by rw [hwait]; nofun)
    cases hl : s.list with
    | nil => simp [hl] at hlisted
    | cons w rest => exact ⟨w, mem_cons_self, h.head w (by rw [hl]; rfl), fun flag => blocker_head rfl⟩

/-- The second write is put in front of the first, which then waits for it. -/
theorem alloc_waits_deadlock_free_pair :
    let s := System.runOf exec (System.runOf exec (System.runOf exec .initial (.add ⟨0, 100, false, false⟩))
      (.add ⟨1, 100, false, false⟩)) (.check ⟨0, 100, false, false⟩ .doneAlloc)
    s.phase 0 = .waiting .doneAlloc ∧ DeadlockFree s := by
  have step {s s' : State} {a : Action} (hs : system.Reachable s) (h : exec s a = some s') : system.Reachable s' :=
    .step hs h
  have h₁ := step (a := .add ⟨0, 100, false, false⟩) (.init rfl) rfl
  have h₂ := step (a := .add ⟨1, 100, false, false⟩) h₁ rfl
  exact ⟨rfl, alloc_waits_deadlock_free (step (a := .check ⟨0, 100, false, false⟩ .doneAlloc) h₂ rfl)⟩

end QuadStor.RangeLock.AllocWait
