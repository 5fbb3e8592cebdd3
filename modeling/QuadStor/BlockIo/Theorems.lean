import QuadStor.BlockIo.Basic
import Mathlib.Data.List.Induction
import Mathlib.Data.List.Perm.Basic
import Mathlib.Algebra.Order.Ring.Nat

/-!
# The pages that a batch moves
-/

namespace QuadStor.BlockIo

open Lib List

variable {kern : Kernel} {n : Nat} {s : Tcache} {a : Add} {adds : List Add} {b b' : Biot} {used : List Biot}

theorem store_eq {K V : Type} [DecidableEq K] {key : Move → K} {val : Move → V} {f : K → V} {m : Move}
    {order : List Move} (hm : m ∈ order) (hagree : ∀ m' ∈ order, key m' = key m → val m' = val m) :
    store key val f order (key m) = val m := by
  induction order using reverseRecOn with
  | nil => simp at hm
  | append_singleton order last ih =>
    simp only [forall_mem_append, forall_mem_singleton] at hagree
    rw [store, foldl_append, foldl_cons, foldl_nil, Function.update_apply]
    split_ifs with hkey
    · exact hagree.2 hkey.symm
    · exact ih (by grind) hagree.1

theorem stores_of_perm {K V : Type} [DecidableEq K] {key : Move → K} {val : Move → V} {moved wanted : List Move}
    (h : moved.Perm wanted) : Stores key val moved wanted := by
  intro f order m horder hm hagree
  have hperm := horder.trans h
  exact store_eq (hperm.mem_iff.mpr hm) fun m' hm' => hagree m' (hperm.mem_iff.mp hm')

theorem moves_append {bint : Bint} {bStart next : UInt64} {l r : List (Option Nat × Nat)}
    (hdvd : 2 ^ bint.sectorShift ∣ l.length) (hnext : bStart + UInt64.ofNat (l.length >>> bint.sectorShift) = next) :
    moves bint bStart (l ++ r) = moves bint bStart l ++ moves bint next r := by
  obtain ⟨q, hq⟩ := hdvd
  subst hnext
  rw [moves, mapIdx_append]
  congr 2
  funext k byte
  rw [hq, Nat.shiftRight_eq_div_pow, Nat.mul_div_cancel_left q (Nat.two_pow_pos _), UInt64.ofNat_add,
    UInt64.ofNat_mul]
  congr 2
  grind

structure Biot.Ok (b : Biot) : Prop where
  dvd : 2 ^ b.bint.sectorShift ∣ b.dxferLen
  last : 4096 * b.pages.length < b.dxferLen + 4096
  le : b.dxferLen ≤ 4096 * b.pages.length

def Biot.moves (b : Biot) : List Move := (sendBiot b).moves

theorem not_needNewBio : tcacheNeedNewBio b a.bStart a.bint = false ↔
    b.bint = a.bint ∧ b.bStart + UInt64.ofNat (b.dxferLen >>> a.bint.sectorShift) = a.bStart ∧ b.dxferLen % 4096 = 0 := by
  simp [tcacheNeedNewBio, and_assoc]

theorem mem_add (hb : b.dxferLen = 4096 * b.pages.length) (ha : a.Ok) :
    (sendBiot (b.add a.page a.size)).mem = (sendBiot b).mem ++ (range a.size).map (some a.page, ·) := by
  simp only [sendBiot, Biot.add, range_add, map_append, map_map]
  congr 1 <;> refine map_congr_left fun k hk => ?_
  · rw [getElem?_append_left (by have := mem_range.mp hk; omega)]
  · have hk : k < 4096 := Nat.lt_of_lt_of_le (mem_range.mp hk) ha.le
    have hdiv : (b.dxferLen + k) / 4096 = b.pages.length := by omega
    have hmod : (b.dxferLen + k) % 4096 = k := by omega
    simp [hdiv, hmod]

theorem Biot.Ok.add (hb : b.Ok) (ha : a.Ok) (hjoin : tcacheNeedNewBio b a.bStart a.bint = false) :
    (b.add a.page a.size).Ok ∧ (b.add a.page a.size).moves = b.moves ++ a.moves := by
  obtain ⟨hbint, hnext, hfull⟩ := not_needNewBio.1 hjoin
  obtain ⟨hdvd, hlast, hle⟩ := hb
  have hpos := ha.pos
  have hsize := ha.le
  refine ⟨⟨Nat.dvd_add hdvd (by simpa [Biot.add, hbint] using ha.dvd), ?_, ?_⟩, ?_⟩
  · simp only [Biot.add, length_append, length_singleton]
    omega
  · simp only [Biot.add, length_append, length_singleton]
    omega
  · have hlen : (sendBiot b).mem.length = b.dxferLen := by simp [sendBiot]
    rw [Biot.moves, Transfer.moves, mem_add (by omega) ha, Add.moves, ← hbint]
    refine moves_append (hlen ▸ hdvd) ?_
    rw [hlen, ← hnext, ← hbint]
    rfl

theorem compMem_eq (h : b.dxferLen < 4096) : compMem b = (sendBiot b).mem := by
  refine map_congr_left fun k hk => ?_
  have hk : k < 4096 := Nat.lt_trans (mem_range.mp hk) h
  rw [Nat.div_eq_of_lt hk, Nat.mod_eq_of_lt hk]

/-- `used` are the transfers that the additions have made so far. -/
structure Inv (n : Nat) (adds : List Add) (s : Tcache) (used : List Biot) : Prop where
  bioList : s.bioList = used.map some ++ replicate (n - used.length) none
  bioCount : s.bioCount = n % 65536
  lastIdx : s.lastIdx = used.length - 1
  bioRemain : s.bioRemain = used.length
  length : used.length ≤ adds.length
  ok : ∀ b ∈ used, b.Ok
  moved : (used.flatMap Biot.moves).Perm (adds.flatMap Add.moves)

theorem inv_alloc : Inv n [] (tcacheAlloc n) [] := by
  constructor <;> simp [tcacheAlloc]

theorem Inv.slot (h : Inv n adds s used) (i : Nat) : s.slot i = used[i]?.map (i, ·) := by
  rw [Tcache.slot, h.bioList, getElem?_append]
  split_ifs with hi
  · rw [getElem?_map]
    cases used[i]? <;> rfl
  · simp only [length_map] at hi
    simp [getElem?_replicate, getElem?_eq_none (Nat.le_of_not_lt hi), apply_ite]

theorem Inv.newBio (kern : Kernel) (h : Inv n adds s used) (ha : a.Ok) (hn : adds.length < n % 65536) :
    ∃ s', BlockIo.newBio kern s a used.length = some s' ∧
      Inv n (adds ++ [a]) s' (used ++ [(biotAlloc a.bint a.bStart).add a.page a.size]) := by
  have hlen := h.length
  have hfits : biotAddPage kern (biotAlloc a.bint a.bStart) a.page a.size =
      some ((biotAlloc a.bint a.bStart).add a.page a.size) := by
    have := ha.le
    have := kern.page_le
    rw [biotAddPage, if_neg (by simp [biotAlloc]; omega)]
  have hempty : (biotAlloc a.bint a.bStart).Ok := ⟨Nat.dvd_zero _, by simp [biotAlloc], by simp [biotAlloc]⟩
  obtain ⟨hok, hmoves⟩ := hempty.add ha (by simp [tcacheNeedNewBio, biotAlloc])
  rw [BlockIo.newBio, if_pos (by simp [h.bioList]; omega), hfits]
  refine ⟨_, rfl, ?_, h.bioCount, by simp, by simp [h.bioRemain], by simpa using hlen, ?_, ?_⟩
  · have hn : n - used.length = n - (used.length + 1) + 1 := by omega
    simp [h.bioList, hn, replicate_succ]
  · simp only [forall_mem_append, forall_mem_singleton]
    exact ⟨h.ok, hok⟩
  · rw [flatMap_append, flatMap_append, flatMap_singleton, flatMap_singleton, hmoves]
    exact h.moved.append_right _

/-- What is added to the counter by the operations that are left, and taken off by the transfers they send -/
def owed : List Op → Nat
  | [] => 0
  | .inc :: rest => owed rest - 1
  | .dec :: rest | .send _ :: rest => owed rest + 1

def Ready : List Op → Prop
  | [] => True
  | .inc :: rest => 2 ≤ owed rest ∧ Ready rest
  | .dec :: rest | .send _ :: rest => Ready rest

theorem owed_eq_zero {ops : List Op} (h : Ready ops) : owed ops = 0 ↔ ops = [] := by
  match ops, h with
  | [], _ => simp [owed]
  | .inc :: rest, h =>
    have := h.1
    simp only [owed, reduceCtorEq, iff_false]
    omega
  | .dec :: rest, _ | .send _ :: rest, _ => simp [owed]

theorem owed_replicate_dec {k : Nat} {ops : List Op} :
    owed (replicate k .dec ++ ops) = k + owed ops ∧ (Ready (replicate k .dec ++ ops) ↔ Ready ops) := by
  induction k with
  | zero => simp
  | succ k ih =>
    rw [replicate_succ, cons_append, owed, Ready, ih.1, ih.2]
    exact ⟨by omega, Iff.rfl⟩

namespace Inv

theorem bio (h : Inv n adds s used) :
    let bio := if a.write then s.slot s.lastIdx else tcacheBioLocate s a.bStart a.bint
    (bio = none → used = []) ∧ ∀ {i b}, bio = some (i, b) → used[i]? = some b := by
  have hused : ∀ {i j b}, s.slot i = some (j, b) → used[j]? = some b := by
    intro i j b hslot
    rw [h.slot, Option.map_eq_some_iff] at hslot
    obtain ⟨b', hb', heq⟩ := hslot
    cases heq
    exact hb'
  cases a.write with
  | true =>
    refine ⟨fun hnone => ?_, hused⟩
    simp only [if_true, h.slot, h.lastIdx, Option.map_eq_none_iff, List.getElem?_eq_none_iff] at hnone
    exact length_eq_zero_iff.mp (by omega)
  | false =>
    have hslots : ∀ bio ∈ (range s.bioRemain).filterMap s.slot, used[bio.1]? = some bio.2 := by
      intro bio hmem
      obtain ⟨i, -, hi⟩ := mem_filterMap.mp hmem
      exact hused hi
    simp only [tcacheBioLocate, Bool.false_eq_true, if_false, Option.or_eq_none_iff, Option.or_eq_some_iff,
      getLast?_eq_none_iff, filterMap_eq_nil_iff, mem_range, h.bioRemain]
    refine ⟨fun ⟨_, hnone⟩ => ?_, fun hsome => ?_⟩
    · by_contra hne
      simpa [h.slot, hne] using hnone 0 (length_pos_iff.mpr hne)
    · rw [h.bioRemain] at hslots
      obtain hfind | ⟨-, hlast⟩ := hsome
      · exact hslots _ (mem_of_find?_eq_some hfind)
      · exact hslots _ (mem_of_getLast? hlast)

theorem join {i : Nat} (h : Inv n adds s used) (ha : a.Ok) (hi : used[i]? = some b)
    (hjoin : tcacheNeedNewBio b a.bStart a.bint = false) (hadd : biotAddPage kern b a.page a.size = some b') :
    Inv n (adds ++ [a]) { s with bioList := s.bioList.set i (some b') } (used.set i b') := by
  obtain ⟨hlt, rfl⟩ := List.getElem?_eq_some_iff.mp hi
  obtain ⟨hok, hmoves⟩ := (h.ok _ (getElem_mem hlt)).add ha hjoin
  obtain ⟨-, rfl⟩ := System.of_guard_not hadd
  have hlen := h.length
  refine ⟨?_, h.bioCount, by simp [h.lastIdx], by simp [h.bioRemain], by simp; omega, ?_, ?_⟩
  · simp [h.bioList, set_append_left, hlt, map_set]
  · exact fun b hb => (mem_or_eq_of_mem_set hb).elim (h.ok b) (· ▸ hok)
  · have hset := (set_perm_cons_eraseIdx hlt (used[i].add a.page a.size)).flatMap_right Biot.moves
    have hused := (getElem_cons_eraseIdx_perm hlt).flatMap_right Biot.moves
    rw [flatMap_cons, hmoves, append_assoc] at hset
    rw [flatMap_append, flatMap_singleton]
    refine hset.trans (((perm_append_comm).append_left _).trans ?_)
    rw [← append_assoc]
    exact (hused.trans h.moved).append_right _

theorem addPage (kern : Kernel) (h : Inv n adds s used) (ha : a.Ok) (hn : adds.length < n % 65536) :
    ∃ s' used', tcacheAddPage kern s a = some s' ∧ Inv n (adds ++ [a]) s' used' := by
  have hlen := h.length
  have hnew : ∃ s' used', BlockIo.newBio kern s a used.length = some s' ∧ Inv n (adds ++ [a]) s' used' :=
    (h.newBio kern ha hn).imp fun _ h' => ⟨_, h'⟩
  obtain ⟨hnone, hsome⟩ := h.bio (a := a)
  rw [tcacheAddPage]
  cases hbio : if a.write then s.slot s.lastIdx else tcacheBioLocate s a.bStart a.bint with
  | none =>
    have hidx : s.lastIdx = used.length := by simp [h.lastIdx, hnone hbio]
    simpa [h.bioCount, hidx, show ¬n % 65536 ≤ used.length by omega] using hnew
  | some bio =>
    obtain ⟨i, b⟩ := bio
    have hi := hsome hbio
    obtain ⟨hlt, -⟩ := List.getElem?_eq_some_iff.mp hi
    have hidx : (s.lastIdx + 1) % 65536 = used.length := by
      rw [h.lastIdx]
      omega
    cases hneed : tcacheNeedNewBio b a.bStart a.bint with
    | true => simpa [h.bioCount, hneed, hidx, show ¬n % 65536 ≤ used.length by omega] using hnew
    | false =>
      have hroom : ¬s.bioCount ≤ s.lastIdx := by
        rw [h.lastIdx, h.bioCount]
        omega
      simp only [Option.any_some, hneed, hroom, Bool.false_eq_true, if_false, hidx]
      cases hadd : biotAddPage kern b a.page a.size with
      | none => exact hnew
      | some b' => exact ⟨_, _, rfl, h.join ha hi hneed hadd⟩

theorem run (kern : Kernel) {done : List Add} (h : Inv n done s used) (hn : (done ++ adds).length ≤ n % 65536)
    (hok : ∀ a ∈ adds, a.Ok) :
    ∃ s' used', adds.foldlM (tcacheAddPage kern) s = some s' ∧ Inv n (done ++ adds) s' used' := by
  induction adds generalizing s used done with
  | nil => exact ⟨s, used, rfl, by simpa using h⟩
  | cons a rest ih =>
    simp only [forall_mem_cons] at hok
    obtain ⟨s', used', hadd, h'⟩ := h.addPage kern hok.1 (by simp at hn; omega)
    obtain ⟨s'', used'', hrun, h''⟩ := ih h' (by simpa using hn) hok.2
    exact ⟨s'', used'', by rw [foldlM_cons, hadd]; exact hrun, by simpa using h''⟩

end Inv

section Group

variable {start prev : Biot} {rest : List Biot} {dxferLen : Nat}

theorem compGroup_prefix : compGroup kern start prev dxferLen rest <+: rest := by
  induction rest generalizing prev dxferLen with
  | nil => exact prefix_rfl
  | cons biot rest ih =>
    rw [compGroup]
    split_ifs
    · exact nil_prefix
    · exact prefix_cons_inj biot |>.mpr ih

theorem moves_compGroup (hprev : prev.Ok) (hlt : prev.dxferLen < 4096) (hrest : ∀ b ∈ rest, b.Ok) :
    moves prev.bint prev.bStart ((prev :: compGroup kern start prev dxferLen rest).flatMap compMem) =
      (prev :: compGroup kern start prev dxferLen rest).flatMap Biot.moves := by
  have hone : moves prev.bint prev.bStart (compMem prev) = prev.moves := by
    rw [compMem_eq hlt]
    rfl
  induction rest generalizing prev dxferLen with
  | nil => simpa [compGroup] using hone
  | cons biot rest ih =>
    rw [compGroup]
    split_ifs with hstop
    · simpa using hone
    · simp only [not_or, not_not, Nat.not_le] at hstop
      obtain ⟨hbint, hshort, -, hnext, -⟩ := hstop
      simp only [forall_mem_cons] at hrest
      have hlen : (compMem prev).length = prev.dxferLen := by simp [compMem]
      rw [flatMap_cons, moves_append (hlen ▸ hprev.dvd) (hlen ▸ hnext), hone, ← hbint,
        ih hrest.1 hshort hrest.2 (by rw [compMem_eq hshort]; rfl)]
      rfl

theorem moved_tcacheEntryRw (hok : ∀ b ∈ used, b.Ok) :
    ((tcacheEntryRw kern used).flatMap Op.transfer).flatMap Transfer.moves = used.flatMap Biot.moves := by
  fun_induction tcacheEntryRw kern used with
  | case1 => rfl
  | case2 bio rest group hsum ih =>
    simp only [forall_mem_cons] at hok
    simp only [flatMap_cons, Op.transfer, flatMap_append, ih hok.2]
    simp [Biot.moves]
  | case3 bio rest group hsum ih =>
    simp only [forall_mem_cons] at hok
    have hshort : bio.dxferLen < 4096 := by
      by_contra hlong
      simp [group, hlong] at hsum
    have hgroup : group = compGroup kern bio bio 0 rest := if_pos hshort
    have hsplit : group ++ rest.drop group.length = rest := by
      rw [hgroup]
      exact (prefix_iff_eq_append.mp compGroup_prefix)
    have hmoves := hgroup ▸ moves_compGroup hok.1 hshort hok.2
    calc
      _ = moves bio.bint bio.bStart ((bio :: group).flatMap compMem) ++
          ((tcacheEntryRw kern (rest.drop group.length)).flatMap Op.transfer).flatMap Transfer.moves := by
        simp [Op.transfer, Transfer.moves]
      _ = (bio :: group).flatMap Biot.moves ++ (rest.drop group.length).flatMap Biot.moves := by
        rw [hmoves, ih fun b hb => hok.2 b (mem_of_mem_drop hb)]
      _ = _ := by rw [← flatMap_append, cons_append, hsplit]

end Group

theorem owed_tcacheEntryRw : owed (tcacheEntryRw kern used) = used.length ∧ Ready (tcacheEntryRw kern used) := by
  fun_induction tcacheEntryRw kern used with
  | case1 => exact ⟨rfl, trivial⟩
  | case2 bio rest group hsum ih => simpa [owed, Ready] using ih
  | case3 bio rest group hsum ih =>
    have hle : group.length ≤ rest.length := by
      unfold group
      split_ifs
      · exact compGroup_prefix.length_le
      · simp
    rw [owed, Ready, owed_replicate_dec.1, owed_replicate_dec.2, owed, Ready, ih.1, length_drop, length_cons]
    exact ⟨by omega, by omega, ih.2⟩

theorem ended_invariant (hremain : s.bioRemain = s.biots.length) :
    (s.issued kern).Invariant fun x => Ready x.rest ∧ x.remain = x.flying.length + owed x.rest where
  init := by
    rintro x rfl
    exact ⟨owed_tcacheEntryRw.2, by simp [owed_tcacheEntryRw.1, hremain]⟩
  step := by
    rintro ⟨rest, remain, flying⟩ action y ⟨hready, hremain⟩ hstep
    dsimp only at hready hremain
    cases action with
    | next =>
      cases rest with
      | nil => cases hstep
      | cons op rest => cases op <;> cases hstep <;> grind [owed, Ready]
    | endBio i =>
      obtain ⟨hi, rfl⟩ := System.of_guard hstep
      refine ⟨hready, ?_⟩
      dsimp only at hi ⊢
      rw [length_eraseIdx_of_lt hi]
      omega

/-- A batch made for at most 65535 pages takes as many, and issues every one of them once. -/
theorem batch_moves_added_pages (kern : Kernel) (hn : n < 65536) (hlen : adds.length ≤ n) (hok : ∀ a ∈ adds, a.Ok) :
    ∃ s, adds.foldlM (tcacheAddPage kern) (tcacheAlloc n) = some s ∧ Exact kern n s adds := by
  obtain ⟨s, used, hrun, h⟩ := (inv_alloc (n := n)).run kern (by simpa [Nat.mod_eq_of_lt hn] using hlen) hok
  rw [nil_append] at h
  have hbiots : s.biots = used := by
    simp [Tcache.biots, h.bioList, h.bioRemain]
  have honce : (s.moved kern).Perm (adds.flatMap Add.moves) := by
    rw [Tcache.moved, hbiots, moved_tcacheEntryRw h.ok]
    exact h.moved
  have hremain := h.bioRemain
  have hadds := h.length
  refine ⟨s, hrun, fun i => ?_, ⟨by omega, ?_⟩, honce, fun _ => stores_of_perm honce,
    fun _ => stores_of_perm honce, fun hx => ?_⟩
  · simp [h.slot, hremain]
  · simp [h.bioList]
    omega
  · obtain ⟨hready, hx⟩ := System.Invariant.reachable (ended_invariant (by rw [hbiots, hremain])) hx
    rw [hx, Nat.add_eq_zero_iff, owed_eq_zero hready, length_eq_zero_iff, and_comm]

/-- A page that is written to one place over and over again; no two of the requests can be joined. -/
def samePlace : Add := ⟨0, 0, ⟨0, 12⟩, 4096, true⟩

def samePlaceBiot : Biot := (biotAlloc samePlace.bint samePlace.bStart).add samePlace.page samePlace.size

theorem samePlace_ok : samePlace.Ok := ⟨by decide, by decide, by decide⟩

theorem addPage_samePlace {j : Nat} (kern : Kernel) (h : Inv n adds s (replicate j samePlaceBiot)) (hj : j ≤ n % 65536) :
    tcacheAddPage kern s samePlace = if n % 65536 ≤ j then none else newBio kern s samePlace j := by
  have hneed : tcacheNeedNewBio samePlaceBiot samePlace.bStart samePlace.bint = true := by decide
  rw [tcacheAddPage, h.lastIdx, h.slot, h.bioCount]
  rcases j with _ | j
  · simp [samePlace]
  · have hmod : (j + 1) % 65536 = j + 1 := Nat.mod_eq_of_lt (by omega)
    simp [samePlace, hmod, show tcacheNeedNewBio samePlaceBiot 0 ⟨0, 12⟩ = true from hneed]

theorem run_samePlace (kern : Kernel) (n : Nat) {j : Nat} (hj : j ≤ n % 65536) :
    ∃ s, (replicate j samePlace).foldlM (tcacheAddPage kern) (tcacheAlloc n) = some s ∧
      Inv n (replicate j samePlace) s (replicate j samePlaceBiot) := by
  induction j with
  | zero => exact ⟨_, rfl, inv_alloc⟩
  | succ j ih =>
    obtain ⟨s, hrun, h⟩ := ih (by omega)
    obtain ⟨s', hnew, h'⟩ := h.newBio kern samePlace_ok (by rwa [length_replicate])
    rw [length_replicate] at hnew
    rw [replicate_succ', replicate_succ', foldlM_append, hrun]
    refine ⟨s', ?_, h'⟩
    simp [addPage_samePlace kern h (by omega), hnew, Nat.not_le.mpr hj]

/-- A batch moves exactly the pages added to it, for every list of as many additions as it was made for, just if that
number has 16 bits. -/
theorem batch_exact_iff (kern : Kernel) (n : Nat) :
    (∀ adds : List Add, adds.length ≤ n → (∀ a ∈ adds, a.Ok) →
      ∃ s, adds.foldlM (tcacheAddPage kern) (tcacheAlloc n) = some s ∧ Exact kern n s adds) ↔ n < 65536 := by
  refine ⟨fun h => ?_, fun hn adds => batch_moves_added_pages kern hn⟩
  by_contra hn
  obtain ⟨s, hrun, hs⟩ := run_samePlace kern n le_rfl
  have hlen : (replicate (n % 65536 + 1) samePlace).length ≤ n := by
    rw [length_replicate]
    omega
  obtain ⟨s', hmore, -⟩ := h _ hlen fun a ha => eq_of_mem_replicate ha ▸ samePlace_ok
  rw [replicate_succ', foldlM_append, hrun] at hmore
  simp [addPage_samePlace kern hs] at hmore

/-- The count of a batch for 65536 pages wraps to zero, and its first page is refused. -/
theorem batch_of_65536_refuses_page :
    samePlace.Ok ∧ [samePlace].length ≤ 65536 ∧
      ∀ kern, [samePlace].foldlM (tcacheAddPage kern) (tcacheAlloc 65536) = none := by
  refine ⟨samePlace_ok, by decide, fun kern => ?_⟩
  rfl

end QuadStor.BlockIo
