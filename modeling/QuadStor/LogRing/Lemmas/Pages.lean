import QuadStor.LogRing.Basic

/-!
# Places in the ring
-/

namespace QuadStor.LogRing

open List

variable {r : Ring} {e : Entry} {p q i : Nat} {x y : LogPage}

def Logged.Before (a b : Logged) : Prop := a.start < b.start ∨ a.start = b.start ∧ a.idx < b.idx

theorem Logged.Before.asymm {a b : Logged} (h : a.Before b) : ¬ b.Before a := by
  simp only [Before] at *
  omega

def Ring.HasImage (r : Ring) (p : Nat) (x : LogPage) : Prop := x = r.mem p ∨ x = r.disk p

structure Ring.Ok (r : Ring) : Prop where
  sorted : r.history.Pairwise Logged.Before
  last : ∀ a ∈ r.history, a.start < (r.mem r.free).start ∨ a.start = (r.mem r.free).start ∧ a.idx < r.freeIdx
  freeIdx_le : r.freeIdx ≤ v2LogEntries
  image : ∀ p x i e, r.HasImage p x → x.entries i = some e → ⟨x.start, i, e⟩ ∈ r.history
  fresh : ∀ p x, r.HasImage p x → x.start < r.transactionId
  unique : ∀ p q x y, r.HasImage p x → r.HasImage q y → x.start = y.start → x.start ≠ 0 → p = q

namespace Ring

theorem hasImage_mem : r.HasImage p (r.mem p) := .inl rfl

theorem hasImage_disk : r.HasImage p (r.disk p) := .inr rfl

theorem Ok.of_images {r' : Ring} (h : r.Ok) (hid : r'.transactionId = r.transactionId)
    (hhist : r'.history = r.history) (hlast : ∀ a ∈ r.history,
      a.start < (r'.mem r'.free).start ∨ a.start = (r'.mem r'.free).start ∧ a.idx < r'.freeIdx)
    (hidx : r'.freeIdx ≤ v2LogEntries) (himage : ∀ p x, r'.HasImage p x → ∃ y, r.HasImage p y ∧ x.start = y.start ∧
      ∀ i e, x.entries i = some e → y.entries i = some e) : r'.Ok where
  sorted := hhist ▸ h.sorted
  last := hhist ▸ hlast
  freeIdx_le := hidx
  image p x i e hx he := by
    obtain ⟨y, hy, hs, hsub⟩ := himage p x hx
    rw [hhist, hs]
    exact h.image p y i e hy (hsub i e he)
  fresh p x hx := by
    obtain ⟨y, hy, hs, -⟩ := himage p x hx
    rw [hid, hs]
    exact h.fresh p y hy
  unique p q x y hx hy hs h0 := by
    obtain ⟨x', hx', hs', -⟩ := himage p x hx
    obtain ⟨y', hy', hs'', -⟩ := himage q y hy
    exact h.unique p q x' y' hx' hy' (by omega) (by omega)

theorem Ok.leave (h : r.Ok) : r.leave.Ok := by
  refine h.of_images rfl rfl (fun a ha => ?_) le_rfl fun p x hx => ⟨x, hx, rfl, fun _ _ he => he⟩
  obtain hlt | ⟨heq, hlt⟩ := h.last a ha
  · exact .inl hlt
  · exact .inr ⟨heq, hlt.trans_le h.freeIdx_le⟩

theorem Ok.flush (h : r.Ok) (p : Nat) : (r.flush p).Ok := by
  refine h.of_images rfl rfl h.last h.freeIdx_le fun q x hx => ⟨x, ?_, rfl, fun _ _ he => he⟩
  obtain rfl | rfl := hx
  · exact hasImage_mem
  · by_cases hq : q = p
    · subst hq
      simpa [Ring.flush] using hasImage_mem
    · simpa [Ring.flush, hq] using hasImage_disk

theorem Ok.put (h : r.Ok) (p : Nat) : (r.put p).Ok :=
  h.of_images rfl rfl h.last h.freeIdx_le fun _ x hx => ⟨x, hx, rfl, fun _ _ he => he⟩

theorem mem_clear_start : ((r.clear p i).mem q).start = (r.mem q).start := by
  by_cases hq : q = p
  · subst hq
    simp [Ring.clear, LogPage.set]
  · simp [Ring.clear, hq]

theorem Ok.clear (h : r.Ok) (p i : Nat) : (r.clear p i).Ok := by
  refine h.of_images rfl rfl (fun a ha => ?_) h.freeIdx_le fun q x hx => ?_
  · rw [mem_clear_start]
    exact h.last a ha
  · obtain rfl | rfl := hx
    · refine ⟨r.mem q, hasImage_mem, mem_clear_start, fun j e he => ?_⟩
      by_cases hq : q = p
      · subst hq
        by_cases hj : j = i
        · subst hj
          simp [Ring.clear, LogPage.set] at he
        · simpa [Ring.clear, LogPage.set, hj] using he
      · simpa [Ring.clear, hq] using he
    · exact ⟨r.disk q, hasImage_disk, rfl, fun _ _ he => he⟩

theorem hasImage_setup (h : (r.setup p).HasImage q x) :
    r.HasImage q x ∨ q = p ∧ x = ⟨r.transactionId, fun _ => none⟩ := by
  obtain rfl | rfl := h
  · by_cases hq : q = p
    · subst hq
      exact .inr ⟨rfl, by simp [Ring.setup]⟩
    · exact .inl (by simpa [Ring.setup, hq] using hasImage_mem)
  · exact .inl hasImage_disk

theorem Ok.setup (h : r.Ok) (p : Nat) : (r.setup p).Ok where
  sorted := h.sorted
  last a ha := by
    have hlt : a.start < r.transactionId := by
      have := h.fresh r.free _ hasImage_mem
      obtain hlt | ⟨heq, -⟩ := h.last a ha
      · exact hlt.trans this
      · rwa [heq]
    exact .inl (by simpa [Ring.setup] using hlt)
  freeIdx_le := Nat.zero_le _
  image q x i e hx he := by
    obtain hx | ⟨-, rfl⟩ := hasImage_setup hx
    · exact h.image q x i e hx he
    · cases he
  fresh q x hx := by
    obtain hx | ⟨-, rfl⟩ := hasImage_setup hx
    · exact (h.fresh q x hx).trans (Nat.lt_add_of_pos_right (by decide))
    · exact Nat.lt_add_of_pos_right (by decide)
  unique q q' x y hx hy hs h0 := by
    obtain hx' | ⟨rfl, rfl⟩ := hasImage_setup hx
    · obtain hy' | ⟨rfl, rfl⟩ := hasImage_setup hy
      · exact h.unique q q' x y hx' hy' hs h0
      · exact absurd hs (h.fresh q x hx').ne
    · obtain hy' | ⟨rfl, rfl⟩ := hasImage_setup hy
      · exact absurd hs.symm (h.fresh q' y hy').ne
      · rfl

theorem hasImage_insert (h : (r.insert e).HasImage p x) : ∃ y, r.HasImage p y ∧ x.start = y.start ∧
    ∀ i e', x.entries i = some e' → y.entries i = some e' ∨ p = r.free ∧ i = r.freeIdx ∧ e' = e ∧ y = r.mem r.free := by
  obtain rfl | rfl := h
  · by_cases hp : p = r.free
    · subst hp
      refine ⟨r.mem r.free, hasImage_mem, by simp [Ring.insert, LogPage.set], fun i e' he => ?_⟩
      by_cases hi : i = r.freeIdx
      · subst hi
        refine .inr ⟨rfl, rfl, ?_, rfl⟩
        simpa [Ring.insert, LogPage.set, eq_comm] using he
      · exact .inl (by simpa [Ring.insert, LogPage.set, hi] using he)
    · exact ⟨r.mem p, hasImage_mem, by simp [Ring.insert, hp], fun i e' he => .inl (by simpa [Ring.insert, hp] using he)⟩
  · exact ⟨r.disk p, hasImage_disk, rfl, fun _ _ he => .inl he⟩

theorem insert_mem_start : ((r.insert e).mem p).start = (r.mem p).start := by
  by_cases hp : p = r.free
  · subst hp
    simp [Ring.insert, LogPage.set]
  · simp [Ring.insert, hp]

theorem Ok.insert (h : r.Ok) (hidx : r.freeIdx < v2LogEntries) (e : Entry) : (r.insert e).Ok where
  sorted := by
    refine pairwise_append.mpr ⟨h.sorted, pairwise_singleton _ _, fun a ha b hb => ?_⟩
    cases mem_singleton.mp hb
    exact h.last a ha
  last a ha := by
    rw [insert_mem_start]
    obtain ha | ha := mem_append.mp ha
    · obtain hlt | ⟨heq, hlt⟩ := h.last a ha
      · exact .inl hlt
      · exact .inr ⟨heq, Nat.lt_succ_of_lt hlt⟩
    · cases mem_singleton.mp ha
      exact .inr ⟨rfl, Nat.lt_succ_self _⟩
  freeIdx_le := hidx
  image p x i e' hx he := by
    obtain ⟨y, hy, hs, hent⟩ := hasImage_insert hx
    rw [hs]
    obtain he | ⟨-, rfl, rfl, rfl⟩ := hent i e' he
    · exact mem_append_left _ (h.image p y i e' hy he)
    · exact mem_append_right _ (mem_singleton.mpr rfl)
  fresh p x hx := by
    obtain ⟨y, hy, hs, -⟩ := hasImage_insert hx
    rw [hs]
    exact h.fresh p y hy
  unique p q x y hx hy hs h0 := by
    obtain ⟨x', hx', hs', -⟩ := hasImage_insert hx
    obtain ⟨y', hy', hs'', -⟩ := hasImage_insert hy
    exact h.unique p q x' y' hx' hy' (by omega) (by omega)

theorem ok_start (size : Nat) : (Ring.start size).Ok := by
  refine Ok.setup ⟨List.Pairwise.nil, by simp, by simp, fun p x i e hx he => ?_, fun p x hx => ?_,
    fun p q x y hx hy hs h0 => ?_⟩ 0
  · obtain rfl | rfl := hx <;> cases he
  · obtain rfl | rfl := hx <;> exact Nat.one_pos
  · obtain rfl | rfl := hx <;> exact absurd rfl h0

end Ring

end QuadStor.LogRing
