import QuadStor.NodeWrite.Basic

/-!
# What the receiver makes of a message
-/

namespace QuadStor.NodeWrite

open List Function

variable {sender : Sender} {pgdataCsum : Page → BitVec 16} {alloc : Nat → Bool} {msg : NodeMsg} {f g : Fill}
  {unaligned : Bool} {n i : Nat}

theorem zero_markComplete (pgdata : Pgdata) : (pgdata.setBit ddblockZeroBlock).markComplete.zero = true := by
  simp [Pgdata.zero, Pgdata.markComplete, Pgdata.setBit, ddblockZeroBlock]

structure Advance (csum : Nat) (spec : PgdataSpec) (f g : Fill) : Prop where
  i : g.i = csum + 1
  todo : g.todo = f.todo - 36
  srcIdx : g.srcIdx = f.srcIdx + 1
  touched : ∀ k, k ∈ g.touched ↔ k ∈ f.touched ∨ k = f.i ∨ k = csum ∨ f.i ≤ k ∧ k < csum
  before : ∀ k < f.i, k ≠ csum → g.pglist k = f.pglist k
  marked : ∀ k, f.i ≤ k → k < csum → (g.pglist k).zero = true
  flags : (g.pglist csum).flags = spec.flags.signExtend 32
  hash : (g.pglist csum).hash = spec.hash

theorem update_i (f : Fill) (change : Pgdata → Pgdata) : (f.update change).i = f.i := rfl

theorem advance_put (spec : PgdataSpec) (hi : g.i = f.i) (htodo : g.todo = f.todo) (hsrc : g.srcIdx = f.srcIdx)
    (htouched : ∀ k, k ∈ g.touched ↔ k ∈ f.touched ∨ k = f.i) (hpglist : ∀ k ≠ f.i, g.pglist k = f.pglist k) :
    Advance f.i spec f (g.put spec) where
  i := by rw [← hi]; rfl
  todo := by rw [← htodo]; rfl
  srcIdx := by rw [← hsrc]; rfl
  touched k := by
    simp only [Fill.put, Fill.update, mem_cons, htouched, hi]
    grind
  before k _ hne := by
    simp only [Fill.put, Fill.update, hi, update_of_ne hne]
    exact hpglist k hne
  marked k hle hlt := by omega
  flags := by simp [Fill.put, Fill.update, hi]
  hash := by simp [Fill.put, Fill.update, hi]

theorem fillStep_aligned (pgdataCsum : Page → BitVec 16) (alloc : Nat → Bool)
    (h : (msg.spec f.srcIdx).csum ≤ msg.pglistCnt) : ∃ g, fillStep pgdataCsum false alloc msg f = some g ∧
      Advance (msg.spec f.srcIdx).csum.toNat (msg.spec f.srcIdx) f g := by
  have hnot : ¬(msg.spec f.srcIdx).csum > msg.pglistCnt := by simpa using h
  simp only [fillStep, Bool.false_eq_true, if_false, hnot, update_i]
  generalize (msg.spec f.srcIdx).csum.toNat = csum
  split_ifs with hi
  · refine ⟨_, rfl, rfl, rfl, rfl, ?_, ?_, ?_, ?_, ?_⟩
    · intro k
      simp only [Fill.put, Fill.update, Fill.markPgdataZeroBlock, mem_cons, mem_append, mem_range'_1]
      grind
    · intro k hk hne
      simp [Fill.put, Fill.update, Fill.markPgdataZeroBlock, update_of_ne hne, Nat.not_le.2 hk, Nat.ne_of_lt hk]
    · intro k hle hlt
      simp [Fill.put, Fill.update, Fill.markPgdataZeroBlock, update_of_ne (Nat.ne_of_lt hlt), hle, hlt,
        zero_markComplete]
    all_goals simp [Fill.put, Fill.update, Fill.markPgdataZeroBlock]
  · obtain rfl : csum = f.i := not_not.1 hi
    refine ⟨_, rfl, advance_put _ rfl rfl rfl ?_ ?_⟩
    · simp [Fill.update, or_comm]
    · intro k hne
      exact update_of_ne hne ..

theorem fillStep_overlong (h : msg.pglistCnt < (msg.spec f.srcIdx).csum) (hi : f.i < msg.pglistCnt.toNat) :
    fillStep pgdataCsum false alloc msg f = none := by
  have hne : (msg.spec f.srcIdx).csum.toNat ≠ f.i := by
    have hlt := BitVec.lt_def.1 h
    omega
  simp [fillStep, update_i, hne, h]

theorem fillStep_unaligned (h : fillStep pgdataCsum true alloc msg f = some g) :
    Advance f.i (msg.spec f.srcIdx) f g := by
  simp only [fillStep, if_true] at h
  split_ifs at h with halloc
  split at h
  case h_2 => cases h
  case h_1 page hpage =>
    split_ifs at h
    cases h
    refine advance_put _ rfl rfl rfl ?_ ?_
    · intro k
      simp [Fill.update]
      tauto
    · intro k hne
      simp [Fill.update, update_of_ne hne]

/-! ## Which pages are touched -/

def OverrunsFrom (msg : NodeMsg) (f : Fill) (n : Nat) : Prop :=
  f.i < msg.pglistCnt.toNat ∧ f.todo = 36 * (n + 1) ∧ (msg.spec (f.srcIdx + n)).csum = msg.pglistCnt ∧
    ∀ j < n, (msg.spec (f.srcIdx + j)).csum.toNat + 1 < msg.pglistCnt.toNat

theorem overrunsFrom_succ (hi : f.i < msg.pglistCnt.toNat)
    (ha : Advance (msg.spec f.srcIdx).csum.toNat (msg.spec f.srcIdx) f g) :
    OverrunsFrom msg f (n + 1) ↔ OverrunsFrom msg g n := by
  have htodo : f.todo = 36 * (((n + 1 : Nat) : Int) + 1) ↔ f.todo - 36 = 36 * ((n : Int) + 1) := by omega
  simp only [OverrunsFrom, ha.i, ha.todo, ha.srcIdx, htodo, hi, true_and, Nat.forall_lt_succ_left, Nat.add_zero,
    Nat.add_assoc, Nat.add_comm 1]
  tauto

theorem fillLoop_succ {fuel : Nat} (hi : f.i < msg.pglistCnt.toNat) (htodo : f.todo ≠ 0)
    (hstep : fillStep pgdataCsum unaligned alloc msg f = some g) :
    fillLoop pgdataCsum unaligned alloc msg (fuel + 1) f = fillLoop pgdataCsum unaligned alloc msg fuel g := by
  rw [fillLoop.eq_def, if_pos ⟨hi, htodo⟩]
  simp only [hstep]

theorem fillLoop_end {fuel : Nat} (htodo : f.todo = 0) :
    fillLoop pgdataCsum unaligned alloc msg fuel f = .accepted (f.markPgdataZeroBlock msg.pglistCnt.toNat) := by
  rw [fillLoop.eq_def, if_neg (by simp [htodo]), if_neg (by simp [htodo])]

theorem not_within_of_overruns (h : OverrunsFrom msg f n) :
    ¬(fillLoop pgdataCsum false alloc msg (n + 1) f).Within msg.pglistCnt.toNat := by
  induction n generalizing f with
  | zero =>
    obtain ⟨hi, htodo, hcsum, -⟩ := h
    obtain ⟨g, hstep, ha⟩ := fillStep_aligned pgdataCsum alloc (BitVec.le_of_eq hcsum)
    have hg : g.todo = 0 := by rw [ha.todo, htodo]; rfl
    rw [fillLoop_succ hi (by omega) hstep, fillLoop_end hg]
    intro hwithin
    have hmem : msg.pglistCnt.toNat ∈ g.touched := (ha.touched _).2 (.inr (.inr (.inl (congrArg _ hcsum.symm))))
    exact Nat.lt_irrefl _ (hwithin _ (mem_append_right _ hmem))
  | succ n ih =>
    have hle := BitVec.le_def.2 (Nat.le_of_lt (Nat.lt_of_succ_lt (h.2.2.2 0 n.succ_pos)))
    obtain ⟨g, hstep, ha⟩ := fillStep_aligned pgdataCsum alloc hle
    rw [fillLoop_succ h.1 (by have := h.2.1; omega) hstep]
    exact ih ((overrunsFrom_succ h.1 ha).1 h)

theorem within_of_exit (hexit : ¬(f.i < msg.pglistCnt.toNat ∧ f.todo ≠ 0))
    (hin : f.todo = 0 → ∀ k ∈ f.touched, k < msg.pglistCnt.toNat) (fuel : Nat) :
    (fillLoop pgdataCsum unaligned alloc msg fuel f).Within msg.pglistCnt.toNat := by
  rw [fillLoop.eq_def, if_neg hexit]
  split_ifs with htodo
  · trivial
  · intro k hk
    simp only [Fill.markPgdataZeroBlock, mem_append, mem_range'_1] at hk
    rcases hk with hk | hk
    · omega
    · exact hin (not_not.1 htodo) k hk

theorem fillLoop_within {P : Fill → Prop}
    (hstep : ∀ f g, P f → f.i < msg.pglistCnt.toNat → (∀ k ∈ f.touched, k < msg.pglistCnt.toNat) →
      fillStep pgdataCsum unaligned alloc msg f = some g →
        P g ∧ (∀ k ∈ g.touched, k < msg.pglistCnt.toNat) ∨ g.todo ≠ 0 ∧ msg.pglistCnt.toNat ≤ g.i)
    (hP : P f) (hin : ∀ k ∈ f.touched, k < msg.pglistCnt.toNat) (fuel : Nat) :
    (fillLoop pgdataCsum unaligned alloc msg fuel f).Within msg.pglistCnt.toNat := by
  induction fuel generalizing f with
  | zero =>
    by_cases hloop : f.i < msg.pglistCnt.toNat ∧ f.todo ≠ 0
    · rw [fillLoop.eq_def, if_pos hloop]
      exact hin
    · exact within_of_exit hloop (fun _ => hin) 0
  | succ fuel ih =>
    by_cases hloop : f.i < msg.pglistCnt.toNat ∧ f.todo ≠ 0
    · cases hg : fillStep pgdataCsum unaligned alloc msg f with
      | none =>
        rw [fillLoop.eq_def, if_pos hloop]
        simp only [hg]
        trivial
      | some g =>
        rw [fillLoop_succ hloop.1 hloop.2 hg]
        rcases hstep f g hP hloop.1 hin hg with ⟨hPg, hing⟩ | ⟨htodo, hi⟩
        · exact ih hPg hing
        · exact within_of_exit (fun h => absurd h.1 (Nat.not_lt.2 hi)) (fun h => absurd h htodo) fuel
    · exact within_of_exit hloop (fun _ => hin) _

theorem Advance.within {csum : Nat} {spec : PgdataSpec} {cnt : Nat} (ha : Advance csum spec f g) (hi : f.i < cnt)
    (hcsum : csum < cnt) (hin : ∀ k ∈ f.touched, k < cnt) : ∀ k ∈ g.touched, k < cnt := by
  intro k hk
  rcases (ha.touched k).1 hk with hk | rfl | rfl | hk
  · exact hin k hk
  · exact hi
  · exact hcsum
  · omega

theorem within_unaligned (hin : ∀ k ∈ f.touched, k < msg.pglistCnt.toNat) (fuel : Nat) :
    (fillLoop pgdataCsum true alloc msg fuel f).Within msg.pglistCnt.toNat := by
  apply fillLoop_within (P := fun _ => True) _ trivial hin
  intro f g _ hi hin hstep
  exact .inl ⟨trivial, (fillStep_unaligned hstep).within hi hi hin⟩

theorem within_of_not_overruns (h : ∀ n, ¬OverrunsFrom msg f n) (hin : ∀ k ∈ f.touched, k < msg.pglistCnt.toNat)
    (fuel : Nat) : (fillLoop pgdataCsum false alloc msg fuel f).Within msg.pglistCnt.toNat := by
  apply fillLoop_within (P := fun f => ∀ n, ¬OverrunsFrom msg f n) _ h hin
  intro f g hP hi hin hstep
  rcases Nat.lt_or_ge msg.pglistCnt.toNat (msg.spec f.srcIdx).csum.toNat with hlt | hle
  · rw [fillStep_overlong (BitVec.lt_def.2 hlt) hi] at hstep
    cases hstep
  obtain ⟨g', hg', ha⟩ := fillStep_aligned pgdataCsum alloc hle
  cases hg'.symm.trans hstep
  rcases Nat.lt_or_eq_of_le (BitVec.le_def.1 hle) with hlt | heq
  · exact .inl ⟨fun n hn => hP (n + 1) ((overrunsFrom_succ hi ha).2 hn), ha.within hi hlt hin⟩
  · -- the page behind the list: the loop ends, and there are specs left
    refine .inr ⟨fun htodo => hP 0 ⟨hi, ?_, BitVec.eq_of_toNat_eq heq, nofun⟩, ?_⟩
    · rw [ha.todo] at htodo
      simpa using Int.eq_of_sub_eq_zero htodo
    · rw [ha.i, heq]
      exact Nat.le_succ _

theorem within_iff (unaligned : Bool) (pgdataCsum : Page → BitVec 16) (alloc : Nat → Bool) (msg : NodeMsg) :
    (∀ fuel, (fillPglist pgdataCsum unaligned alloc msg fuel).Within msg.pglistCnt.toNat) ↔
      ¬Overruns unaligned msg := by
  cases unaligned with
  | true =>
    constructor
    · intro _ h
      cases h.1
    · intro _
      exact within_unaligned (by simp)
  | false =>
    constructor
    · rintro h ⟨-, hcnt, n, hover⟩
      refine not_within_of_overruns (n := n) ?_ (h (n + 1))
      simpa [OverrunsFrom, hcnt] using hover
    · intro h
      refine within_of_not_overruns (fun n hn => h ⟨rfl, hn.1, n, ?_⟩) (by simp)
      simpa using hn.2

/-! ## What was sent is received -/

theorem zero_specOf (sender : Sender) (pgdataCsum : Page → BitVec 16) (unaligned : Bool) (i : Nat) (pgdata : Pgdata) :
    ((specOf sender pgdataCsum unaligned i pgdata).flags.signExtend 32).getLsbD ddblockZeroBlock = pgdata.zero := by
  cases sender <;>
    simp [specOf, Sender.mask, Pgdata.zero, ddblockZeroBlock, BitVec.getElem_signExtend]

theorem fillStep_sent {pgdata : Pgdata} (hle : f.i ≤ i) (hat : unaligned = true → f.i = i)
    (hi : i < msg.pglistCnt.toNat) (hspec : msg.spec f.srcIdx = specOf sender pgdataCsum unaligned i pgdata)
    (hpage : unaligned = true → msg.page f.srcIdx = some pgdata.page) :
    ∃ g, fillStep pgdataCsum unaligned (fun _ => true) msg f = some g ∧
      Advance i (specOf sender pgdataCsum unaligned i pgdata) f g := by
  cases unaligned with
  | true =>
    obtain rfl := hat rfl
    obtain ⟨g, hg⟩ : ∃ g, fillStep pgdataCsum true (fun _ => true) msg f = some g := by
      simp [fillStep, hpage rfl, hspec, specOf, Fill.update]
    have ha := fillStep_unaligned hg
    rw [hspec] at ha
    exact ⟨g, hg, ha⟩
  | false =>
    have hcsum : (msg.spec f.srcIdx).csum.toNat = i := by
      rw [hspec]
      exact Nat.mod_eq_of_lt (Nat.lt_trans hi (BitVec.isLt _))
    obtain ⟨g, hg, ha⟩ := fillStep_aligned pgdataCsum (fun _ => true) (BitVec.le_def.2 (hcsum ▸ Nat.le_of_lt hi))
    rw [hcsum, hspec] at ha
    exact ⟨g, hg, ha⟩

theorem fillLoop_writeSetup (ps : List Pgdata) {fuel : Nat} (hle : f.i ≤ i)
    (hat : unaligned = true → f.i = i) (hcnt : i + ps.length = msg.pglistCnt.toNat)
    (htodo : f.todo = 36 * (writeSetup sender pgdataCsum unaligned i ps).length)
    (hspec : ∀ (j : Nat) (spec : PgdataSpec), (writeSetup sender pgdataCsum unaligned i ps)[j]? = some spec →
      msg.spec (f.srcIdx + j) = spec)
    (hpage : unaligned = true → ∀ (j : Nat) (p : Pgdata), ps[j]? = some p → msg.page (f.srcIdx + j) = some p.page)
    (hfuel : ps.length ≤ fuel) : ∃ g, fillLoop pgdataCsum unaligned (fun _ => true) msg fuel f = .accepted g ∧
      (∀ k < f.i, g.pglist k = f.pglist k) ∧ (∀ k, f.i ≤ k → k < i → (g.pglist k).zero = true) ∧
      ∀ (k : Nat) (p : Pgdata), ps[k]? = some p → (g.pglist (i + k)).zero = p.zero ∧
        (leftOut unaligned p = false → (g.pglist (i + k)).hash = p.hash) := by
  induction ps generalizing f i fuel with
  | nil =>
    refine ⟨_, fillLoop_end htodo, ?_, ?_, nofun⟩
    · intro k hk
      simp [Fill.markPgdataZeroBlock, Nat.not_le.2 hk]
    · intro k hge hlt
      have hk : k < msg.pglistCnt.toNat := by rw [← hcnt]; exact hlt
      simp [Fill.markPgdataZeroBlock, hge, hk, zero_markComplete]
  | cons p rest ih =>
    rw [length_cons] at hcnt hfuel
    have hcnt' : i + 1 + rest.length = msg.pglistCnt.toNat := by omega
    cases hleft : leftOut unaligned p with
    | true =>
      have hzero : unaligned = false ∧ p.zero = true := by simpa [leftOut] using hleft
      obtain ⟨rfl, hzero⟩ := hzero
      simp only [writeSetup, hleft, if_true] at htodo hspec
      obtain ⟨g, hg, hbefore, hmarked, hrest⟩ :=
        ih (Nat.le_succ_of_le hle) nofun hcnt' htodo hspec nofun (Nat.le_of_succ_le hfuel)
      refine ⟨g, hg, hbefore, fun k hge hlt => hmarked k hge (Nat.lt_succ_of_lt hlt), ?_⟩
      rintro (_ | k) q hq
      · cases hq
        exact ⟨(hmarked i hle (Nat.lt_succ_self i)).trans hzero.symm, fun h => absurd (hleft.symm.trans h) nofun⟩
      · rw [Nat.add_comm k, ← Nat.add_assoc]
        exact hrest k q hq
    | false =>
      simp only [writeSetup, hleft, Bool.false_eq_true, if_false, length_cons] at htodo hspec
      obtain ⟨fuel, rfl⟩ := Nat.exists_eq_succ_of_ne_zero (Nat.ne_of_gt (Nat.lt_of_lt_of_le (Nat.succ_pos _) hfuel))
      have hi : i < msg.pglistCnt.toNat := by omega
      obtain ⟨m, hm, ha⟩ := fillStep_sent hle hat hi (hspec 0 _ rfl) fun h => hpage h 0 p rfl
      obtain ⟨g, hg, hbefore, -, hrest⟩ := ih (f := m) (Nat.le_of_eq ha.i) (fun _ => ha.i) hcnt'
        (by rw [ha.todo, htodo]; push_cast; omega)
        (fun j spec hj => by rw [ha.srcIdx, Nat.add_assoc, Nat.add_comm 1]; exact hspec (j + 1) spec hj)
        (fun h j q hq => by rw [ha.srcIdx, Nat.add_assoc, Nat.add_comm 1]; exact hpage h (j + 1) q hq)
        (Nat.le_of_succ_le_succ hfuel)
      rw [ha.i] at hbefore
      refine ⟨g, ?_, ?_, ?_, ?_⟩
      · rw [fillLoop_succ (Nat.lt_of_le_of_lt hle hi) (by omega) hm]
        exact hg
      · intro k hk
        rw [hbefore k (by omega)]
        exact ha.before k hk (by omega)
      · intro k hge hlt
        rw [hbefore k (by omega)]
        exact ha.marked k hge hlt
      · rintro (_ | k) q hq
        · cases hq
          rw [Nat.add_zero, hbefore i (Nat.lt_succ_self i)]
          refine ⟨?_, fun _ => ha.hash⟩
          rw [Pgdata.zero, ha.flags]
          exact zero_specOf ..
        · rw [Nat.add_comm k, ← Nat.add_assoc]
          exact hrest k q hq

theorem length_writeSetup_le (sender : Sender) (pgdataCsum : Page → BitVec 16) (unaligned : Bool) (ps : List Pgdata) (i : Nat) :
    (writeSetup sender pgdataCsum unaligned i ps).length ≤ ps.length := by
  induction ps generalizing i with
  | nil => exact Nat.le_refl 0
  | cons p rest ih =>
    rw [writeSetup, length_cons]
    split_ifs
    · exact Nat.le_succ_of_le (ih _)
    · exact Nat.succ_le_succ (ih _)

theorem toInt_dxferLen (h : n < 2 ^ 16) : (BitVec.ofNat 32 (64 + 36 * n) - 64).toInt = 36 * n := by
  have hsub : BitVec.ofNat 32 (64 + 36 * n) - 64 = BitVec.ofNat 32 (36 * n) := by
    rw [BitVec.ofNat_add, BitVec.add_comm]
    exact BitVec.add_sub_cancel ..
  have hnat : (BitVec.ofNat 32 (36 * n)).toNat = 36 * n := Nat.mod_eq_of_lt (by omega)
  rw [hsub, BitVec.toInt_eq_toNat_of_lt (by omega), hnat]
  rfl

theorem arrives_iff (sender : Sender) (pgdataCsum : Page → BitVec 16) (unaligned : Bool) (behind : Nat → PgdataSpec)
    {pglist : List Pgdata} (hcnt : pglist.length < 2 ^ 16) : Arrives sender pgdataCsum unaligned behind pglist ↔
      (unaligned = true → ∀ pgdata ∈ pglist, pgdata.zero = false) := by
  have hlen : (sentMsg sender pgdataCsum unaligned behind pglist).pglistCnt.toNat = pglist.length :=
    Nat.mod_eq_of_lt hcnt
  have hle := length_writeSetup_le sender pgdataCsum unaligned pglist 0
  obtain ⟨g, hg, -, -, hpages⟩ := @fillLoop_writeSetup sender pgdataCsum
    (sentMsg sender pgdataCsum unaligned behind pglist) { todo := _ } unaligned 0 pglist pglist.length (Nat.le_refl 0)
    (fun _ => rfl) (by rw [hlen, Nat.zero_add]) (toInt_dxferLen (Nat.lt_of_le_of_lt hle hcnt))
    (fun j spec hj => by simp [sentMsg, hj]) (fun _ j p hp => by simp [sentMsg, hp]) (Nat.le_refl _)
  simp only [Nat.zero_add] at hpages
  constructor
  · rintro ⟨-, f, hf, harrived⟩ rfl p hp
    obtain rfl : f = g := Result.accepted.inj (hf.symm.trans hg)
    obtain ⟨k, hk⟩ := mem_iff_getElem?.1 hp
    exact (hpages k p hk).1.symm.trans (harrived k p hk).1
  · intro h
    refine ⟨hlen, g, hg, fun k p hk => ⟨(hpages k p hk).1.trans ?_, (hpages k p hk).2⟩⟩
    cases unaligned with
    | false => rfl
    | true => exact h rfl p (mem_iff_getElem?.2 ⟨k, hk⟩)

/-- A write arrives, and a message is kept inside of the list of its receiver, unless it is an unaligned write with a
zero page or a message for the page behind the list. -/
theorem write_arrives_iff (sender : Sender) (pgdataCsum : Page → BitVec 16) (unaligned : Bool)
    (behind : Nat → PgdataSpec) (pglist : List Pgdata) (hcnt : pglist.length < 2 ^ 16) (msgUnaligned : Bool)
    (alloc : Nat → Bool) (msg : NodeMsg) : (Arrives sender pgdataCsum unaligned behind pglist ∧
        ∀ fuel, (fillPglist pgdataCsum msgUnaligned alloc msg fuel).Within msg.pglistCnt.toNat) ↔
      (unaligned = true → ∀ pgdata ∈ pglist, pgdata.zero = false) ∧ ¬Overruns msgUnaligned msg :=
  and_congr (arrives_iff sender pgdataCsum unaligned behind hcnt) (within_iff msgUnaligned pgdataCsum alloc msg)

def behindMsg : NodeMsg where
  dxferLen := 100
  pglistCnt := 1
  spec _ := ⟨0, 0, 1⟩
  page _ := none

/-- A message for one page, with a spec for page 1. A page of zeroes that was sent is marked as zero. -/
theorem page_behind_list : (∃ f, fillPglist (fun _ => 0) false (fun _ => true) behindMsg 1 = .accepted f ∧
    1 ∈ f.touched) ∧ ¬Arrives .client (fun _ => 0) true (fun _ => ⟨0, 0, 0⟩) [{ flags := 1 }] := by
  refine ⟨⟨_, rfl, by decide⟩, fun h => ?_⟩
  have hzero := (arrives_iff .client (fun _ => 0) true _ (by decide)).1 h rfl _ mem_cons_self
  cases hzero

theorem write_arrives_middle : (Arrives .mirror (fun _ => 0) false (fun _ => ⟨0, 0, 0⟩)
    [{ flags := 1 }, { hash := 7 }, { flags := 1 }] ∧
      ∀ fuel, (fillPglist (fun _ => 0) true (fun _ => true) behindMsg fuel).Within 1) :=
  (write_arrives_iff .mirror (fun _ => 0) false _ [{ flags := 1 }, { hash := 7 }, { flags := 1 }] (by decide) true
    (fun _ => true) behindMsg).2 ⟨nofun, fun h => nomatch h.1⟩

end QuadStor.NodeWrite
