import QuadStor.Bint.Lemmas.Loops

/-!
# A batch of pages
-/

namespace QuadStor.Bint

open List

variable {ms i start size fuel : Nat} {enableVerify : Bool} {x y z : Index} {pgdata : Pgdata}
  {pages left left' : List Pgdata} {placed more : List Placed} {p q : Placed}

def Placed.Has (ms : Nat) (p : Placed) (i : Nat) : Prop := p.start ≤ i ∧ i < p.start + p.size / 2 ^ ms

def Placed.SameBlock (p q : Placed) : Prop := p.start = q.start ∧ p.size = q.size

instance : Decidable (p.SameBlock q) := inferInstanceAs (Decidable (_ ∧ _))

structure MayShare (enableVerify : Bool) (p q : Pgdata) : Prop where
  hash : p.hash = q.hash
  valid : hashValid p.hash = true
  first : p.dedupeDisabled = false
  second : q.dedupeDisabled = false
  verify : enableVerify = false

structure Accounts (ms : Nat) (enableVerify : Bool) (x : Index) (pages : List Pgdata) (y : Index)
    (placed : List Placed) (left : List Pgdata) : Prop where
  perm : (placed.map Placed.pgdata ++ left).Perm pages
  order : left.Sublist pages
  block : ∀ p ∈ placed, 0 < p.size / 2 ^ ms ∧ p.start + p.size / 2 ^ ms ≤ bmapEntries
  free : ∀ p ∈ placed, ∀ i, p.Has ms i → x.bmap i = 0
  share : placed.Pairwise fun p q => p.SameBlock q → MayShare enableVerify p.pgdata q.pgdata
  refs : ∀ p ∈ placed, ∀ i, p.Has ms i → y.bmap i = placed.countP fun q => p.SameBlock q
  other : ∀ i, (∀ p ∈ placed, ¬p.Has ms i) → y.bmap i = x.bmap i

theorem Placed.has_start (h : 0 < p.size / 2 ^ ms) : p.Has ms p.start := ⟨le_rfl, Nat.lt_add_of_pos_right h⟩

theorem Accounts.refs_pos (h : Accounts ms enableVerify x pages y placed left) (hp : p ∈ placed) (hi : p.Has ms i) :
    y.bmap i ≠ 0 := by
  rw [h.refs p hp i hi]
  have hpos : 0 < placed.countP fun q => p.SameBlock q :=
    countP_pos_iff.mpr ⟨p, hp, by simp [Placed.SameBlock]⟩
  omega

theorem Accounts.none (h : y.bmap = x.bmap) : Accounts ms enableVerify x pages y [] pages :=
  ⟨.refl _, .refl _, nofun, nofun, .nil, nofun, fun i _ => congrFun h i⟩

theorem Accounts.append (h : Accounts ms enableVerify x pages y placed left)
    (h' : Accounts ms enableVerify y left z more left') : Accounts ms enableVerify x pages z (placed ++ more) left' := by
  have hapart : ∀ p ∈ placed, ∀ q ∈ more, ∀ i, p.Has ms i → ¬q.Has ms i := fun p hp q hq i hi hi' =>
    h.refs_pos hp hi (h'.free q hq i hi')
  have hne : ∀ p ∈ placed, ∀ q ∈ more, p.start ≠ q.start := fun p hp q hq heq =>
    hapart p hp q hq p.start (Placed.has_start (h.block p hp).1) (heq ▸ Placed.has_start (h'.block q hq).1)
  refine ⟨?_, h'.order.trans h.order, ?_, ?_, ?_, ?_, ?_⟩
  · rw [map_append, append_assoc]
    exact (h'.perm.append_left _).trans h.perm
  · exact forall_mem_append.2 ⟨h.block, h'.block⟩
  · intro p hp i hi
    obtain hp | hp := mem_append.mp hp
    · exact h.free p hp i hi
    · rw [← h.other i fun q hq hi' => hapart q hq p hp i hi' hi]
      exact h'.free p hp i hi
  · refine pairwise_append.mpr ⟨h.share, h'.share, fun p hp q hq hsame => ?_⟩
    exact absurd hsame.1 (hne p hp q hq)
  · intro p hp i hi
    rw [countP_append]
    obtain hp | hp := mem_append.mp hp
    · have hnone : more.countP (fun q => p.SameBlock q) = 0 :=
        countP_eq_zero.mpr fun q hq => by simp [Placed.SameBlock, hne p hp q hq]
      rw [hnone, h'.other i fun q hq hi' => hapart p hp q hq i hi hi', h.refs p hp i hi, Nat.add_zero]
    · have hnone : placed.countP (fun q => p.SameBlock q) = 0 :=
        countP_eq_zero.mpr fun q hq => by simp [Placed.SameBlock, (hne q hq p hp).symm]
      rw [hnone, h'.refs p hp i hi, Nat.zero_add]
  · intro i hi
    rw [h'.other i fun q hq => hi q (mem_append_right _ hq), h.other i fun p hp => hi p (mem_append_left _ hp)]

theorem accounts_round {dups : List Placed} (halloc : allocRun x (size / 2 ^ ms) = (y, some start))
    (hdups : bintPgdataScanDuplicates enableVerify pgdata start (size / 2 ^ ms) size y pages = (z, dups, left)) :
    Accounts ms enableVerify x (pgdata :: pages) z (⟨pgdata, start, size, false⟩ :: dups) left := by
  obtain ⟨hcount, hend, hzero, -⟩ := allocRun_spec halloc
  obtain ⟨-, hbmap, hshared, hwhy⟩ := allocRound_spec halloc hdups
  -- all of them have the same run
  have hrun : ∀ p ∈ (⟨pgdata, start, size, false⟩ : Placed) :: dups, p.start = start ∧ p.size = size :=
    forall_mem_cons.2 ⟨⟨rfl, rfl⟩, fun p hp => ⟨(hshared.same p hp).1, (hshared.same p hp).2.1⟩⟩
  have hhas : ∀ p ∈ (⟨pgdata, start, size, false⟩ : Placed) :: dups, ∀ i, p.Has ms i ↔
      start ≤ i ∧ i < start + size / 2 ^ ms := fun p hp i => by
    rw [Placed.Has, (hrun p hp).1, (hrun p hp).2]
  refine ⟨hshared.perm.cons pgdata, hshared.order.cons pgdata, fun p hp => ?_, fun p hp i hi => ?_, ?_,
    fun p hp i hi => ?_, fun i hi => ?_⟩
  · rw [(hrun p hp).1, (hrun p hp).2]
    exact ⟨hcount, hend⟩
  · obtain ⟨hlow, hhigh⟩ := (hhas p hp i).mp hi
    exact hzero i hlow hhigh
  · cases dups with
    | nil => exact pairwise_singleton _ _
    | cons q rest =>
      obtain ⟨hverify, hfirst, hvalid⟩ := hwhy (cons_ne_nil _ _)
      have hpage : ∀ p ∈ (⟨pgdata, start, size, false⟩ : Placed) :: q :: rest,
          p.pgdata.hash = pgdata.hash ∧ p.pgdata.dedupeDisabled = false :=
        forall_mem_cons.2 ⟨⟨rfl, hfirst⟩, hshared.hash⟩
      refine pairwise_of_forall_mem_list fun p hp r hr _ => ?_
      obtain ⟨hhash, hdedupe⟩ := hpage p hp
      obtain ⟨hhash', hdedupe'⟩ := hpage r hr
      exact ⟨hhash.trans hhash'.symm, hhash ▸ hvalid, hdedupe, hdedupe', hverify⟩
  · have hall : ((⟨pgdata, start, size, false⟩ : Placed) :: dups).countP (fun q => p.SameBlock q) = 1 + dups.length := by
      rw [Nat.add_comm, ← length_cons, countP_eq_length]
      intro q hq
      simp [Placed.SameBlock, hrun p hp, hrun q hq]
    rw [hall, hbmap, if_pos ((hhas p hp i).mp hi)]
  · have hout : ¬(start ≤ i ∧ i < start + size / 2 ^ ms) := fun hin =>
      hi _ mem_cons_self ((hhas _ mem_cons_self i).mpr hin)
    rw [hbmap, if_neg hout]

theorem accounts_allocForPgdataLoop (h : allocForPgdataLoop ms enableVerify fuel x pages = (y, placed, left)) :
    Accounts ms enableVerify x pages y placed left :=
  allocForPgdataLoop_rounds (fun _ _ _ => .none rfl) accounts_round .append h

theorem allocForPgdataLoop_fuel {fuel' : Nat} (h : pages.length ≤ fuel) (h' : pages.length ≤ fuel') :
    allocForPgdataLoop ms enableVerify fuel x pages = allocForPgdataLoop ms enableVerify fuel' x pages := by
  induction fuel generalizing fuel' x pages with
  | zero =>
    cases eq_nil_of_length_eq_zero (Nat.le_zero.mp h)
    cases fuel' <;> rfl
  | succ fuel ih =>
    cases pages with
    | nil => cases fuel' <;> rfl
    | cons pgdata rest =>
      cases fuel' with
      | zero => cases h'
      | succ fuel' =>
        rw [allocForPgdataLoop, allocForPgdataLoop]
        cases halloc : allocRun x (writeSizeFor ms pgdata / 2 ^ ms) with
        | mk y result =>
          cases result with
          | none => rfl
          | some start =>
            cases hdups : bintPgdataScanDuplicates enableVerify pgdata start
              (writeSizeFor ms pgdata / 2 ^ ms) (writeSizeFor ms pgdata) y rest with
            | mk xd lists =>
              have hle : lists.2.length ≤ rest.length :=
                (allocRound_spec halloc hdups).2.2.1.order.length_le
              rw [length_cons] at h h'
              have hrest : allocForPgdataLoop ms enableVerify fuel xd lists.2 =
                  allocForPgdataLoop ms enableVerify fuel' xd lists.2 := ih (by omega) (by omega)
              simp only [hdups, hrest]

/-- A pass of `bint_alloc_for_pgdata` accounts for every page, whatever the index and the list are. -/
theorem accounts_bintAllocForPgdata (ms : Nat) (enableVerify : Bool) (x : Index) (pages : List Pgdata) :
    Accounts ms enableVerify x pages (bintAllocForPgdata ms enableVerify x pages).1
      (bintAllocForPgdata ms enableVerify x pages).2.1 (bintAllocForPgdata ms enableVerify x pages).2.2 :=
  accounts_allocForPgdataLoop rfl

end QuadStor.Bint
