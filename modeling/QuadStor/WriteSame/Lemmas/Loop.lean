import QuadStor.WriteSame.Basic

/-!
# The chunks of a WRITE SAME
-/

namespace QuadStor.WriteSame

open Lib Command List

variable {io : Nat → PglistIo} {v v' w : Volume} {r : Request} {lba numBlocks k n i : Nat}

theorem pgdata_congr (hlegacy : w.legacy = v.legacy) : r.pgdata w lba = r.pgdata v lba := by
  simp only [Request.pgdata, Request.pgtmp, hlegacy]

theorem pglistCnt_chunk {todo : Nat} (hle : todo ≤ unmapLbaCount v) (hpage : v.legacy = true → todo % 8 = 0) :
    transferLengthToPglistCnt v.lbaShift todo = v.lbaReal todo ∧ v.lbaReal todo ≤ 512 := by
  obtain ⟨hl, hshift, -, -, hreal⟩ | ⟨hl, hshift, -, -, hreal⟩ := v.cases
  · simp only [unmapLbaCount, hl, if_true] at hle
    have hmod := hpage hl
    rw [hshift, hreal, pglistCnt_legacy]
    omega
  · simp only [unmapLbaCount, hl, Bool.false_eq_true, if_false] at hle
    rw [hshift, hreal]
    exact ⟨rfl, hle⟩

theorem lbaReal_add {m : Nat} (h : v.legacy = true → lba % 8 = 0) :
    v.lbaReal (lba + m) = v.lbaReal lba + v.lbaReal m := by
  rw [Geometry.lbaReal, Geometry.lbaReal, Geometry.lbaReal]
  cases hl : v.legacy with
  | false => simp
  | true =>
    have := h hl
    simp only [if_true]
    omega

theorem writeSameLoop_good (h : writeSameLoop io r k v lba numBlocks = .good v')
    (hlba : v.legacy = true → lba % 8 = 0) (hnum : v.legacy = true → numBlocks % 8 = 0) (hpos : numBlocks ≠ 0) :
    ∃ todo, todo ≤ numBlocks ∧ 0 < todo ∧ todo = min (u32 numBlocks) (unmapLbaCount v) ∧
      (v.legacy = true → todo % 8 = 0) ∧ (io k).write.ok = true ∧
      writeSameLoop io r (k + 1)
        (v.writePages (io k).write (v.lbaReal lba) (replicate (v.lbaReal todo) (r.pgdata v lba)))
        (lba + todo) (numBlocks - todo) = .good v' := by
  have htodo : min (u32 numBlocks) (unmapLbaCount v) ≤ numBlocks :=
    (Nat.min_le_left _ _).trans (Nat.mod_le _ _)
  have hmod : v.legacy = true → min (u32 numBlocks) (unmapLbaCount v) % 8 = 0 := by
    intro hl
    have := hnum hl
    simp only [unmapLbaCount, hl, if_true, u32]
    omega
  obtain ⟨hcnt, hle⟩ := pglistCnt_chunk (Nat.min_le_right (u32 numBlocks) (unmapLbaCount v)) hmod
  have hcut : u16 (v.lbaReal (min (u32 numBlocks) (unmapLbaCount v))) =
      v.lbaReal (min (u32 numBlocks) (unmapLbaCount v)) := Nat.mod_eq_of_lt (by omega)
  rw [writeSameLoop, if_neg hpos] at h
  simp only [hcnt, ctioReallocPglist, hcut, tdiskCmdWrite_aligned fun hl => ⟨hlba hl, hmod hl⟩] at h
  generalize min (u32 numBlocks) (unmapLbaCount v) = todo at h htodo hmod
  split_ifs at h with hzero halloc heom
  · cases hok : (io k).write.ok with
    | false => simp [hok] at h
    | true =>
      simp only [hok] at h
      exact ⟨todo, htodo, Nat.pos_of_ne_zero hzero, rfl, hmod, rfl, h⟩

theorem writeSameLoop_chunk {a : Nat} (halloc : (io k).alloc = true) (hok : (io k).write.ok = true)
    (hpos : 0 < n) (hle : n ≤ unmapLbaCount v) (haligned : v.legacy = true → a % 8 = 0 ∧ n % 8 = 0)
    (heom : v.reachedEom a n = false) : writeSameLoop io r k v a n = .good
      (v.writePages (io k).write (v.lbaReal a) (replicate (v.lbaReal n) (r.pgdata v a))) := by
  obtain ⟨hcnt, hreal⟩ := pglistCnt_chunk hle fun hl => (haligned hl).2
  have hbound : unmapLbaCount v ≤ 4096 := by
    rw [unmapLbaCount]
    split_ifs <;> omega
  have htodo : min (u32 n) (unmapLbaCount v) = n := by
    rw [u32_eq_of_lt (by omega)]
    omega
  have hcut : u16 (v.lbaReal n) = v.lbaReal n := Nat.mod_eq_of_lt (by omega)
  rw [writeSameLoop, if_neg (by omega)]
  simp only [htodo, hcnt, halloc, ctioReallocPglist, hcut, tdiskCmdWrite_aligned haligned, heom, hok]
  rw [if_neg (by omega)]
  simp only [Bool.not_true, Bool.false_eq_true, if_false, Nat.sub_self]
  rw [writeSameLoop, if_pos rfl]

theorem skips_succ (io : Nat → PglistIo) (r : Request) (hlegacy : w.legacy = v.legacy)
    (hreal : v.lbaReal (lba + unmapLbaCount v) = v.lbaReal lba + 512) :
    Skips (fun j => io (k + 1 + j)) w r (lba + unmapLbaCount v) i ↔ Skips (fun j => io (k + j)) v r lba (512 + i) := by
  have hdiv : (512 + i) / 512 = i / 512 + 1 := by omega
  have hmod : (512 + i) % 512 = i % 512 := by omega
  have hcount : unmapLbaCount w = unmapLbaCount v := by simp only [unmapLbaCount, hlegacy]
  have hreal' : w.lbaReal (lba + unmapLbaCount v) = v.lbaReal lba + 512 := by
    rw [← hreal, Geometry.lbaReal, Geometry.lbaReal, hlegacy]
  have hk : k + 1 + i / 512 = k + (i / 512 + 1) := by omega
  have hpage : v.lbaReal lba + 512 + i / 512 * 512 = v.lbaReal lba + (i / 512 + 1) * 512 := by omega
  have hblock : lba + unmapLbaCount v + i / 512 * unmapLbaCount v = lba + (i / 512 + 1) * unmapLbaCount v := by
    rw [Nat.succ_mul]
    omega
  rw [Skips, Skips, hdiv, hmod, hcount, hreal', pgdata_congr hlegacy, hk, hpage, hblock]

structure Filled (io : Nat → PglistIo) (v v' : Volume) (r : Request) (lba numBlocks : Nat) : Prop where
  legacy : v'.legacy = v.legacy
  short : numBlocks < 2 ^ 32
  others : ∀ n, n < v.lbaReal lba ∨ v.lbaReal lba + v.lbaReal numBlocks ≤ n → v'.page n = v.page n
  skipped : ∀ i, i < v.lbaReal numBlocks → Skips io v r lba i → v'.page (v.lbaReal lba + i) = v.page (v.lbaReal lba + i)
  written : ∀ i, i < v.lbaReal numBlocks → ¬ Skips io v r lba i →
    v'.page (v.lbaReal lba + i) = (r.pgdata v (lba + i / 512 * unmapLbaCount v)).content

theorem filled_zero (lba : Nat) : Filled io v v r lba 0 where
  legacy := rfl
  short := by decide
  others _ _ := rfl
  skipped _ _ _ := rfl
  written i hi := by simp [Geometry.lbaReal] at hi

theorem skips_first (hi : i < 512) : Skips (fun j => io (k + j)) v r lba i ↔
      (io k).write.skipped (v.lbaReal lba) i (r.pgdata v lba) = true := by
  have hdiv : i / 512 = 0 := by omega
  have hmod : i % 512 = i := by omega
  simp [Skips, hdiv, hmod]

theorem filled_of_good (h : writeSameLoop io r k v lba numBlocks = .good v')
    (hlba : v.legacy = true → lba % 8 = 0) (hnum : v.legacy = true → numBlocks % 8 = 0) :
    Filled (fun j => io (k + j)) v v' r lba numBlocks := by
  induction numBlocks using Nat.strongRecOn generalizing k v lba with
  | ind numBlocks ih =>
    by_cases hzero : numBlocks = 0
    · subst hzero
      rw [writeSameLoop, if_pos rfl] at h
      cases h
      exact filled_zero lba
    obtain ⟨todo, hle, hpos, htodo, hmod, -, hrest⟩ := writeSameLoop_good h hlba hnum hzero
    generalize hw : v.writePages (io k).write (v.lbaReal lba)
      (replicate (v.lbaReal todo) (r.pgdata v lba)) = w at hrest
    have hlegacy : w.legacy = v.legacy := by rw [← hw, writePages_legacy]
    have hwreal : ∀ m, w.lbaReal m = v.lbaReal m := by simp [Geometry.lbaReal, hlegacy]
    have hfilled := ih (numBlocks - todo) (by omega) hrest
      (fun hl => by have := hlba (hlegacy ▸ hl); have := hmod (hlegacy ▸ hl); omega)
      (fun hl => by have := hnum (hlegacy ▸ hl); have := hmod (hlegacy ▸ hl); omega)
    have hshort : numBlocks < 2 ^ 32 := by
      have := hfilled.short
      rw [u32] at htodo
      omega
    rw [u32_eq_of_lt hshort] at htodo
    have hchunk : v.lbaReal todo ≤ 512 := (pglistCnt_chunk (by omega) hmod).2
    have hsum : v.lbaReal numBlocks = v.lbaReal todo + v.lbaReal (numBlocks - todo) := by
      rw [← lbaReal_add hmod, Nat.add_sub_cancel' hle]
    have hstart : v.lbaReal (lba + todo) = v.lbaReal lba + v.lbaReal todo := lbaReal_add hlba
    have hothers := hfilled.others
    simp only [hwreal, hstart] at hothers
    -- a page is in this chunk, or in the chunks after it and then this one is full
    have hpages : ∀ i, i < v.lbaReal numBlocks →
        (Skips (fun j => io (k + j)) v r lba i → v'.page (v.lbaReal lba + i) = v.page (v.lbaReal lba + i)) ∧
        (¬ Skips (fun j => io (k + j)) v r lba i →
          v'.page (v.lbaReal lba + i) = (r.pgdata v (lba + i / 512 * unmapLbaCount v)).content) := by
      intro i hi
      by_cases hin : i < v.lbaReal todo
      · have hdiv : i / 512 = 0 := by omega
        rw [skips_first (by omega), hothers _ (.inl (by omega)), ← hw,
          page_writePages_of_some (by rw [getElem?_replicate, if_pos hin]), hdiv, Nat.zero_mul]
        exact ⟨fun hskip => if_pos hskip, fun hskip => if_neg hskip⟩
      · have hfull : todo = unmapLbaCount v := by
          by_contra hne
          have hreal0 : v.lbaReal 0 = 0 := by simp [Geometry.lbaReal]
          rw [show numBlocks - todo = 0 by omega, hreal0] at hsum
          omega
        have h512 : v.lbaReal todo = 512 := by
          rw [hfull, Geometry.lbaReal, unmapLbaCount]
          cases v.legacy <;> rfl
        obtain ⟨j, rfl⟩ : ∃ j, i = 512 + j := ⟨i - 512, by omega⟩
        have hcount : unmapLbaCount w = unmapLbaCount v := by simp only [unmapLbaCount, hlegacy]
        have hdiv : (512 + j) / 512 = j / 512 + 1 := by omega
        have hskips := skips_succ io r (k := k) (i := j) hlegacy (by rw [← hfull, hstart, h512])
        have hj : j < w.lbaReal (numBlocks - todo) := by rw [hwreal]; omega
        have hskipped := hfilled.skipped j hj
        have hwritten := hfilled.written j hj
        rw [hwreal, hstart, h512, Nat.add_assoc, hfull, hskips] at hskipped hwritten
        rw [pgdata_congr hlegacy, hcount, Nat.add_assoc, Nat.add_comm (unmapLbaCount v), ← Nat.succ_mul] at hwritten
        rw [hdiv]
        refine ⟨fun hskip => ?_, hwritten⟩
        rw [hskipped hskip, ← hw, page_writePages_of_not (.inr (by rw [length_replicate]; omega))]
    refine ⟨hfilled.legacy.trans hlegacy, hshort, fun n hn => ?_, fun i hi => (hpages i hi).1, fun i hi => (hpages i hi).2⟩
    rw [hothers n (by omega), ← hw, page_writePages_of_not (by rw [length_replicate]; omega)]

end QuadStor.WriteSame
