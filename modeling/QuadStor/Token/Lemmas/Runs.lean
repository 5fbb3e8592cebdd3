import QuadStor.Token.Basic

/-!
# What a token keeps
-/

namespace QuadStor.Token

open Lib Command Function List
open DDTable (Block)

variable {disks : Nat → Settings} {s s' : State disks} {io : WriteIo} {disk lba n k i rod src : Nat} {ok : Bool}
  {pages : List Pgdata} {served : Owner → Prop} {t : RodToken disks} {rio : RefIo}

/-! ## A write to the pool is a write to the volume -/

def onDisk (disk : Nat) : Owner → Prop
  | .page d _ => d = disk
  | .token _ _ => False

theorem injective_page (disk k : Nat) : Function.Injective fun i => Owner.page disk (k + i) := by
  intro i j h
  simpa using h

theorem getElem?_placed : (placed io k pages)[i]? =
    pages[i]?.map fun p => if io.skipped k i p then none else some (pageData p) := by
  simp [placed, List.getElem?_mapIdx]

theorem page_putsAll {q : Pool} (h : Shared.PutsAll blank (fun i => Owner.page disk (k + i)) s.pool 0 (placed io k pages) q)
    (hcounted : s.pool.Counted) (n : Nat) :
    (q.read blank (.page disk n)).1 = ((s.volume disk).writePages io k pages).page n := by
  obtain hlt | hle := Nat.lt_or_ge n k
  · have hnot : ¬ ∃ j, 0 ≤ j ∧ Owner.page disk n = Owner.page disk (k + j) := by
      rintro ⟨j, -, heq⟩
      simp only [Owner.page.injEq, true_and] at heq
      omega
    rw [page_writePages_of_not (.inl hlt), (h.keeps hcounted).read hnot]
    rfl
  · obtain ⟨i, rfl⟩ := Nat.exists_eq_add_of_le hle
    rw [h.read hcounted (injective_page disk k) (Nat.zero_le i), Nat.sub_zero, getD_eq_getElem?_getD, getElem?_placed]
    cases hp : pages[i]? with
    | none =>
      rw [page_writePages_of_not (.inr (by have := List.getElem?_eq_none_iff.mp hp; omega))]
      rfl
    | some p =>
      rw [page_writePages_of_some hp, Option.map_some]
      cases io.skipped k i p <;> rfl

structure Writes (io : WriteIo) (s : State disks) (disk lba n : Nat) (pages : List Pgdata) (s' : State disks)
    (ok : Bool) : Prop where
  token : s'.token = s.token
  keeps : s.pool.Keeps blank (onDisk disk) s'.pool
  ok : ok = ((s.volume disk).tdiskCmdWrite io lba n pages).2
  page : ∀ i, (s'.volume disk).page i = ((s.volume disk).tdiskCmdWrite io lba n pages).1.page i

theorem tdiskCmdWrite_writes (h : s.TdiskCmdWrite io disk lba n pages s' ok) (hcounted : s.pool.Counted) :
    Writes io s disk lba n pages s' ok := by
  simp only [State.TdiskCmdWrite] at h
  cases heom : (s.volume disk).reachedEom lba n with
  | true =>
    rw [heom, if_pos rfl] at h
    obtain ⟨rfl, rfl⟩ := h
    exact ⟨rfl, .refl hcounted, by simp [Volume.tdiskCmdWrite, heom], fun i => by simp [Volume.tdiskCmdWrite, heom]⟩
  | false =>
    rw [heom, if_neg Bool.false_ne_true] at h
    cases hdata : (s.volume disk).checkUnalignedData io lba n pages with
    | none =>
      rw [hdata] at h
      obtain ⟨rfl, rfl⟩ := h
      exact ⟨rfl, .refl hcounted, by simp [Volume.tdiskCmdWrite, heom, hdata],
        fun i => by simp [Volume.tdiskCmdWrite, heom, hdata]⟩
    | some result =>
      rw [hdata] at h
      obtain ⟨rfl, htoken, hputs⟩ := h
      refine ⟨htoken, (hputs.keeps hcounted).mono ?_, by simp [Volume.tdiskCmdWrite, heom, hdata], fun i => ?_⟩
      · rintro o ⟨j, -, rfl⟩
        rfl
      · simp only [Volume.tdiskCmdWrite, heom, hdata, Bool.false_eq_true, if_false]
        exact page_putsAll hputs hcounted i

theorem writes_ok (h : s.TdiskCmdWrite io disk lba n pages s' true) (hcounted : s.pool.Counted) :
    ∃ k merged, (s.volume disk).checkUnalignedData io lba n pages = some (k, merged) ∧ io.ok = true ∧
      ∀ i, (s'.volume disk).page i = ((s.volume disk).writePages io k merged).page i := by
  have hw := tdiskCmdWrite_writes h hcounted
  have hok := hw.ok
  have hpage := hw.page
  rw [Volume.tdiskCmdWrite] at hok hpage
  split_ifs at hok hpage
  cases hdata : (s.volume disk).checkUnalignedData io lba n pages with
  | none => simp [hdata] at hok
  | some result =>
    obtain ⟨k, merged⟩ := result
    simp only [hdata] at hok hpage
    exact ⟨k, merged, rfl, hok.symm, hpage⟩

theorem volume_of_not_served (h : s.pool.Keeps blank served s'.pool)
    (hnot : ∀ i, ¬ served (.page disk i)) : s'.volume disk = s.volume disk := by
  have hpage : ∀ i, s'.pool.read blank (.page disk i) = s.pool.read blank (.page disk i) := fun i => h.read (hnot i)
  simp only [State.volume, hpage]

theorem volume_of_keeps (h : s.pool.Keeps blank (onDisk disk) s'.pool) {other : Nat} (hne : other ≠ disk) :
    s'.volume other = s.volume other :=
  volume_of_not_served h fun _ => hne

def Kept (s : State disks) (rod : Nat) (t : RodToken disks) : Prop :=
  ∀ i e, t.pglist[i]? = some e → s.pool.name (.token rod i) = e →
    (s.pool.get blank e).1 = t.snapshot.page ((disks t.src).lbaReal t.lba + i)

structure Sound (s : State disks) : Prop where
  counted : s.pool.Counted
  kept : ∀ rod t, s.token rod = some t → Kept s rod t

theorem Kept.mono (h : Kept s rod t)
    (hkeeps : s.pool.Keeps blank served s'.pool) (hnot : ∀ i, ¬ served (.token rod i)) : Kept s' rod t := by
  intro i e he hname
  rw [hkeeps.name _ (hnot i)] at hname
  have hget := hkeeps.get _ (hnot i)
  rw [hname] at hget
  rw [hget, h i e he hname]

theorem Sound.write (h : Sound s) (hrun : s.TdiskCmdWrite io disk lba n pages s' ok) : Sound s' := by
  have hw := tdiskCmdWrite_writes hrun h.counted
  refine ⟨hw.keeps.counted, fun rod t ht => ?_⟩
  rw [hw.token] at ht
  exact (h.kept rod t ht).mono hw.keeps fun _ => id

theorem Kept.moves {rod' : Nat} {cells : Nat → Option Block} {token : Nat → Option (RodToken disks)}
    (h : Kept s rod' t) (hcounted : s.pool.Counted) (hne : rod' ≠ rod) :
    Kept ⟨s.pool.moves (.token rod) cells n, token⟩ rod' t := by
  refine h.mono (Shared.keeps_moves hcounted) fun i => ?_
  rintro ⟨j, heq⟩
  simp only [Owner.token.injEq] at heq
  exact hne heq.1

theorem Sound.addDescriptor {d : Descriptor} {hpos : 0 < d.numBlocks}
    {hsize : d.numBlocks * 2 ^ (disks src).lbaShift ≤ maximumBytesInBlockRod} (h : Sound s) :
    Sound (s.rodTokenAddDescriptor rio src rod d hpos hsize) := by
  refine ⟨h.counted.moves, fun rod' t ht => ?_⟩
  by_cases hrod : rod' = rod
  · subst hrod
    simp only [State.rodTokenAddDescriptor, update_self, Option.some.injEq] at ht
    subst ht
    intro i e he hname
    simp only [List.getElem?_map, Option.map_eq_some_iff] at he
    obtain ⟨j, hj, rfl⟩ := he
    obtain ⟨hi, rfl⟩ := List.getElem?_eq_some_iff.mp hj
    simp only [State.rodTokenAddDescriptor, Shared.get_moves, getElem_range]
    rfl
  · simp only [State.rodTokenAddDescriptor, update_of_ne hrod] at ht
    exact (h.kept rod' t ht).moves h.counted hrod

theorem Sound.populate {descriptors : List Descriptor} (h : Sound s) :
    Sound (s.populateToken rio src rod descriptors) := by
  unfold State.populateToken
  split
  · split_ifs
    · exact h
    · exact h.addDescriptor
    · exact h
    · exact h
  · exact h

theorem Sound.free (h : Sound s) : Sound (s.rodTokenErrorFree rod) := by
  unfold State.rodTokenErrorFree
  cases s.token rod with
  | none => exact h
  | some t =>
    refine ⟨h.counted.moves, fun rod' t' ht => ?_⟩
    by_cases hrod : rod' = rod
    · simp [hrod] at ht
    · simp only [update_of_ne hrod] at ht
      exact (h.kept rod' t' ht).moves h.counted hrod

theorem Sound.addTransferCount (h : Sound s) : Sound (s.addTransferCount rod n) := by
  refine ⟨h.counted, fun rod' t ht => ?_⟩
  by_cases hrod : rod' = rod
  · subst hrod
    simp only [State.addTransferCount, update_self, Option.map_eq_some_iff] at ht
    obtain ⟨t', ht', rfl⟩ := ht
    exact h.kept rod' t' ht'
  · simp only [State.addTransferCount, update_of_ne hrod] at ht
    exact h.kept rod' t ht

theorem sound_invariant : (system disks).Invariant Sound where
  init h := ⟨h.1, fun rod t ht => by simp [h.2 rod] at ht⟩
  step {s a s'} h hstep := by
    cases a with
    | write io disk lba n pages =>
      obtain ⟨ok, hrun⟩ := hstep
      exact h.write hrun
    | populateToken io src rod descriptors =>
      obtain ⟨-, rfl⟩ := hstep
      exact h.populate
    | rodTokenErrorFree rod =>
      obtain rfl : s' = s.rodTokenErrorFree rod := hstep
      exact h.free
    | writeUsingToken io r =>
      obtain ⟨status, written, -, hrun⟩ := hstep
      cases hrun with
      | check _ | stop _ | outOfBounds _ => exact h
      | failed _ hrun => exact h.write hrun
      | written _ hrun => exact (h.write hrun).addTransferCount

end QuadStor.Token
