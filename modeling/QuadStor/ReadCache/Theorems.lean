import QuadStor.ReadCache.Basic
import Mathlib.Data.List.Nodup

/-!
# One entry for a block, in its bucket and on the list
-/

namespace QuadStor.ReadCache

open Lib Lib.System List Function

variable {α : Type} {hashblock : Nat → Option Nat} {s t : State α} {e e' new : Entry α} {h block h' : Nat} {a : Action α}

structure Placed (hashblock : Nat → Option Nat) (s : State α) : Prop where
  hash : ∀ {h e}, e ∈ s.buckets h → hashblock e.block = some h
  listed : ∀ {h e}, e ∈ s.buckets h → e ∈ s.glist ++ s.evicting ∨ s.inserting h = some e
  held : ∀ {e}, e ∈ s.glist ++ s.evicting → ∃ h, e ∈ s.buckets h
  entering : ∀ {h e}, s.inserting h = some e → e ∈ s.buckets h ∧ e ∉ s.glist ++ s.evicting
  nodup : (s.glist ++ s.evicting).Nodup
  fresh : ∀ {h e}, e ∈ s.buckets h → e.ptr < s.next
  single : ∀ h, ((s.buckets h).map (·.block)).Nodup
  counter : s.rcacheCount = s.glist.length

def Gone (s : State α) : Prop :=
  ∀ block, s.removed block = true → ∀ h, ∀ e ∈ s.buckets h, e.block ≠ block

theorem Placed.bucket_eq (hp : Placed hashblock s) (he : e ∈ s.buckets h) (he' : e ∈ s.buckets h') : h' = h := by
  have := hp.hash he
  rw [hp.hash he'] at this
  exact Option.some.inj this

theorem Placed.eq_of_block (hp : Placed hashblock s) (he : e ∈ s.buckets h)
    (he' : e' ∈ s.buckets h) (hb : e.block = e'.block) : e = e' :=
  inj_on_of_nodup_map (hp.single h) he he' hb

theorem findEntry_some (hf : findEntry s h block = some e) : e ∈ s.buckets h ∧ e.block = block :=
  ⟨mem_of_find?_eq_some hf, by simpa using find?_some hf⟩

theorem findEntry_none : findEntry s h block = none ↔ ∀ e ∈ s.buckets h, e.block ≠ block := by
  simp [findEntry]

section

variable (hp : Placed hashblock s)
include hp

theorem Placed.mem_of_evicting (he : e ∈ s.evicting) (hh : hashblock e.block = some h) : e ∈ s.buckets h := by
  obtain ⟨h', hin⟩ := hp.held (mem_append_right _ he)
  have hsame := hp.hash hin
  rw [hh] at hsame
  cases hsame
  exact hin

theorem Placed.withRemoved (removed : Nat → Bool) : Placed hashblock { s with removed } := { hp with }

theorem Placed.relist {g v : List (Entry α)} {c : Nat} (hperm : (g ++ v).Perm (s.glist ++ s.evicting))
    (hc : c = g.length) : Placed hashblock { s with glist := g, evicting := v, rcacheCount := c } :=
  { hp with
    listed := fun he => (hp.listed he).imp_left hperm.mem_iff.mpr
    held := fun he => hp.held (hperm.mem_iff.mp he)
    entering := fun hi => (hp.entering hi).imp_right fun hnot he => hnot (hperm.mem_iff.mp he)
    nodup := hperm.nodup_iff.mpr hp.nodup
    counter := hc }

theorem Placed.entryInsertEnd (hi : s.inserting h = some new) : Placed hashblock (rcacheEntryInsertEnd s h new) := by
  obtain ⟨hin, hnot⟩ := hp.entering hi
  have hperm : ((s.glist ++ [new]) ++ s.evicting).Perm (new :: (s.glist ++ s.evicting)) := by
    rw [append_assoc]
    exact perm_middle
  refine { hp with listed := ?_, held := ?_, entering := ?_, nodup := ?_, counter := ?_ }
  · intro h' e' he'
    rcases hp.listed he' with hl | hl
    · exact .inl (hperm.mem_iff.mpr (mem_cons_of_mem _ hl))
    · by_cases hne : h' = h
      · subst hne
        rw [hi] at hl
        cases hl
        exact .inl (hperm.mem_iff.mpr mem_cons_self)
      · exact .inr (by simpa [rcacheEntryInsertEnd, hne] using hl)
  · intro e' he'
    rcases mem_cons.mp (hperm.mem_iff.mp he') with rfl | he'
    · exact ⟨h, hin⟩
    · exact hp.held he'
  · intro h' e' hi'
    simp only [rcacheEntryInsertEnd] at hi'
    have hne : h' ≠ h := by
      rintro rfl
      rw [update_self] at hi'
      cases hi'
    rw [update_of_ne hne] at hi'
    obtain ⟨hin', hnot'⟩ := hp.entering hi'
    refine ⟨hin', fun hon => ?_⟩
    rcases mem_cons.mp (hperm.mem_iff.mp hon) with rfl | hon
    · exact hne (hp.bucket_eq hin hin')
    · exact hnot' hon
  · exact hperm.nodup_iff.mpr (nodup_cons.mpr ⟨hnot, hp.nodup⟩)
  · change s.rcacheCount + 1 = (s.glist ++ [new]).length
    rw [hp.counter, length_append, length_singleton]

end

theorem mem_enter {buckets : Nat → List (Entry α)} : e' ∈ update buckets h (new :: buckets h) h' ↔
      h' = h ∧ e' = new ∨ e' ∈ buckets h' := by
  by_cases hh : h' = h
  · subst hh
    simp
  · simp [hh]

theorem Placed.coherent (hp : Placed hashblock s) (hg : Gone s) : Coherent hashblock s where
  notStale block hb := by
    unfold rcacheLocate
    cases hh : hashblock block with
    | none => rfl
    | some h => rw [Option.bind_some, findEntry_none.2 (hg block hb h), Option.map_none]
  single := hp.single
  counter := hp.counter

variable [DecidableEq α]

section

variable (hp : Placed hashblock s)
include hp

theorem Placed.mem_drop (he : e ∈ s.buckets h) :
    e' ∈ update s.buckets h ((s.buckets h).erase e) h' ↔ e' ∈ s.buckets h' ∧ e' ≠ e := by
  by_cases hh : h' = h
  · subst hh
    rw [update_self, (hp.single h').of_map.mem_erase_iff, and_comm]
  · rw [update_of_ne hh]
    refine ⟨fun he' => ⟨he', ?_⟩, And.left⟩
    rintro rfl
    exact hh (hp.bucket_eq he he')

theorem Placed.single_drop (h' : Nat) :
    ((update s.buckets h ((s.buckets h).erase e) h').map (·.block)).Nodup := by
  by_cases hh : h' = h
  · subst hh
    rw [update_self]
    exact (hp.single h').sublist (erase_sublist.map _)
  · rw [update_of_ne hh]
    exact hp.single h'

/-! ## Taking an entry off its lists -/

theorem Placed.drop (he : e ∈ s.buckets h) (hon : e ∈ s.glist ++ s.evicting) {g v : List (Entry α)} {c : Nat}
    (hgv : (s.glist ++ s.evicting).erase e = g ++ v) (hc : c = g.length) : Placed hashblock { s with
      buckets := update s.buckets h ((s.buckets h).erase e)
      glist := g
      evicting := v
      rcacheCount := c } := by
  have hmem (x : Entry α) : x ∈ g ++ v ↔ x ≠ e ∧ x ∈ s.glist ++ s.evicting := by rw [← hgv, hp.nodup.mem_erase_iff]
  constructor
  case hash =>
    intro h' e' he'
    exact hp.hash ((hp.mem_drop he).mp he').1
  case listed =>
    intro h' e' he'
    obtain ⟨he', hne⟩ := (hp.mem_drop he).mp he'
    exact (hp.listed he').imp_left fun hl => (hmem e').mpr ⟨hne, hl⟩
  case held =>
    intro e' he'
    obtain ⟨hne, he'⟩ := (hmem e').mp he'
    obtain ⟨h', hin⟩ := hp.held he'
    exact ⟨h', (hp.mem_drop he).mpr ⟨hin, hne⟩⟩
  case entering =>
    intro h' e' hi
    obtain ⟨hin, hnot⟩ := hp.entering hi
    have hne : e' ≠ e := by
      rintro rfl
      exact hnot hon
    exact ⟨(hp.mem_drop he).mpr ⟨hin, hne⟩, fun he' => hnot ((hmem e').mp he').2⟩
  case nodup => exact hgv ▸ hp.nodup.sublist erase_sublist
  case fresh =>
    intro h' e' he'
    exact hp.fresh ((hp.mem_drop he).mp he').1
  case single => exact hp.single_drop
  case counter => exact hc

theorem Placed.entryFree (he : e ∈ s.buckets h) (hg : e ∈ s.glist) : Placed hashblock (rcacheEntryFree s h e) := by
  rw [rcacheEntryFree, if_pos hg]
  exact hp.drop he (mem_append_left _ hg) (erase_append_left _ hg) (by rw [length_erase_of_mem hg, hp.counter])

theorem Placed.entryRemove (hi : s.inserting h = none) (hev : ∀ e ∈ s.evicting, e.block ≠ block) :
    Placed hashblock (rcacheEntryRemove s h block) ∧ (∀ e ∈ (rcacheEntryRemove s h block).buckets h, e.block ≠ block) ∧
      ∀ h' e, e ∈ (rcacheEntryRemove s h block).buckets h' → e ∈ s.buckets h' := by
  unfold rcacheEntryRemove
  cases hf : findEntry s h block with
  | none => exact ⟨hp, findEntry_none.1 hf, fun _ _ => id⟩
  | some e =>
    obtain ⟨he, rfl⟩ := findEntry_some hf
    have hg : e ∈ s.glist := by
      rcases hp.listed he with hl | hl
      · exact (mem_append.mp hl).resolve_right fun hl => hev e hl rfl
      · rw [hi] at hl; cases hl
    have hmem {h' : Nat} {e' : Entry α} (he' : e' ∈ (rcacheEntryFree s h e).buckets h') :
        e' ∈ s.buckets h' ∧ e' ≠ e := by
      rw [rcacheEntryFree, if_pos hg] at he'
      exact (hp.mem_drop he).mp he'
    refine ⟨hp.entryFree he hg, ?_, ?_⟩
    · intro e' he' hb
      obtain ⟨he', hne⟩ := hmem he'
      exact hne (hp.eq_of_block he' he hb)
    · intro h' e' he'
      exact (hmem he').1

end

@[simp] theorem entryRemove_frame (s : State α) (h block : Nat) :
    (rcacheEntryRemove s h block).evicting = s.evicting ∧ (rcacheEntryRemove s h block).inserting = s.inserting ∧
      (rcacheEntryRemove s h block).next = s.next := by
  unfold rcacheEntryRemove rcacheEntryFree
  split
  · split <;> exact ⟨rfl, rfl, rfl⟩
  · exact ⟨rfl, rfl, rfl⟩

section

variable (hp : Placed hashblock s)
include hp

theorem Placed.entryLocate (block : Nat) : Placed hashblock (rcacheEntryLocate hashblock s block) := by
  unfold rcacheEntryLocate
  split
  · split
    case isTrue e _ hg =>
      have hperm := (perm_append_singleton e _).trans (perm_cons_erase hg).symm
      exact hp.relist (hperm.append_right _) (hp.counter.trans hperm.length_eq.symm)
    case isFalse => exact hp
  · exact hp

theorem Placed.check {rest : List (Entry α)} (hg : s.glist = e :: rest) : Placed hashblock (rcacheCheck s e) := by
  have hrest : s.glist.erase e = rest := by rw [hg, erase_cons_head]
  have hperm : (rest ++ e :: s.evicting).Perm (s.glist ++ s.evicting) := by
    rw [hg]
    exact perm_middle
  unfold rcacheCheck
  rw [hrest]
  exact hp.relist hperm (by rw [hp.counter, hg, length_cons, Nat.add_sub_cancel])

theorem Placed.checkEnd (he : e ∈ s.evicting)
    (hh : hashblock e.block = some h) : Placed hashblock (rcacheCheckEnd s h e) := by
  obtain ⟨-, -, hdisj⟩ := nodup_append.mp hp.nodup
  exact hp.drop (hp.mem_of_evicting he hh) (mem_append_right _ he)
    (erase_append_right _ fun hg => hdisj e hg e he rfl) hp.counter

theorem Placed.entryInsert (hh : hashblock block = some h)
    (hi : s.inserting h = none) (hev : ∀ e ∈ s.evicting, e.block ≠ block) (page : α) :
    Placed hashblock (rcacheEntryInsert s h block page) := by
  obtain ⟨hleft, hgone, -⟩ := hp.entryRemove hi hev
  have hnew {h' : Nat} : (⟨s.next, block, page⟩ : Entry α) ∉ (rcacheEntryRemove s h block).buckets h' := by
    intro hin
    have := hleft.fresh hin
    simp at this
  constructor
  case hash =>
    intro h' e' he'
    rcases mem_enter.1 he' with ⟨rfl, rfl⟩ | he'
    · exact hh
    · exact hleft.hash he'
  case listed =>
    intro h' e' he'
    rcases mem_enter.1 he' with ⟨rfl, rfl⟩ | he'
    · exact .inr (update_self _ _ _)
    · rcases hleft.listed he' with hl | hl
      · exact .inl hl
      · rw [(entryRemove_frame s h block).2.1] at hl
        have hne : h' ≠ h := by
          rintro rfl
          rw [hi] at hl
          cases hl
        exact .inr (by simpa [rcacheEntryInsert, hne] using hl)
  case held =>
    intro e' he'
    obtain ⟨h', hin⟩ := hleft.held he'
    exact ⟨h', mem_enter.2 (.inr hin)⟩
  case entering =>
    intro h' e' hi'
    simp only [rcacheEntryInsert] at hi'
    by_cases hne : h' = h
    · subst hne
      rw [update_self] at hi'
      cases hi'
      refine ⟨mem_enter.2 (.inl ⟨rfl, rfl⟩), fun hon => ?_⟩
      obtain ⟨_, hin⟩ := hleft.held hon
      exact hnew hin
    · rw [update_of_ne hne, ← (entryRemove_frame s h block).2.1] at hi'
      exact (hleft.entering hi').imp_left fun hin => mem_enter.2 (.inr hin)
  case nodup => exact hleft.nodup
  case fresh =>
    intro h' e' he'
    rcases mem_enter.1 he' with ⟨rfl, rfl⟩ | he'
    · exact Nat.lt_succ_self _
    · have := hleft.fresh he'
      rw [(entryRemove_frame s h block).2.2] at this
      exact Nat.lt_succ_of_lt this
  case single =>
    intro h'
    simp only [rcacheEntryInsert]
    by_cases hne : h' = h
    · subst hne
      rw [update_self, map_cons, nodup_cons]
      refine ⟨?_, hleft.single h'⟩
      simpa using hgone
    · rw [update_of_ne hne]
      exact hleft.single h'
  case counter => exact hleft.counter

end

section

variable (hp : Placed hashblock s)
include hp

theorem Placed.remove (hi : ∀ h, hashblock block = some h → s.inserting h = none)
    (hev : ∀ e ∈ s.evicting, e.block ≠ block) : Placed hashblock (rcacheRemove hashblock s block) := by
  apply Placed.withRemoved
  cases hh : hashblock block with
  | none => exact hp
  | some h => exact (hp.entryRemove (hi h hh) hev).1

theorem Gone.remove (hg : Gone s) (hi : ∀ h, hashblock block = some h → s.inserting h = none)
    (hev : ∀ e ∈ s.evicting, e.block ≠ block) : Gone (rcacheRemove hashblock s block) := by
  have hleft := hp.remove hi hev
  -- what is left in the buckets was there before, and is not of this block
  have hmem : ∀ h' e, e ∈ (rcacheRemove hashblock s block).buckets h' → e ∈ s.buckets h' ∧ e.block ≠ block := by
    intro h' e he
    have hsame := hleft.hash he
    unfold rcacheRemove at he
    cases hh : hashblock block with
    | none =>
      rw [hh] at he
      refine ⟨he, ?_⟩
      rintro rfl
      rw [hh] at hsame
      cases hsame
    | some h =>
      rw [hh] at he
      obtain ⟨-, hgone, hsub⟩ := hp.entryRemove (hi h hh) hev
      refine ⟨hsub h' e he, ?_⟩
      rintro rfl
      rw [hh] at hsame
      cases hsame
      exact hgone e he rfl
  intro b hb h' e he
  obtain ⟨hin, hne⟩ := hmem h' e he
  by_cases hbb : b = block
  · exact hbb ▸ hne
  · have hb : s.removed b = true := by simpa [rcacheRemove, hbb] using hb
    exact hg b hb h' e hin

theorem Gone.entryInsert (hg : Gone s) (hi : s.inserting h = none)
    (hev : ∀ e ∈ s.evicting, e.block ≠ block) (page : α) : Gone (rcacheEntryInsert s h block page) := by
  obtain ⟨-, -, hsub⟩ := hp.entryRemove hi hev
  intro b hb h' e he
  have hbb : b ≠ block := by
    rintro rfl
    simp [rcacheEntryInsert] at hb
  have hb : s.removed b = true := by simpa [rcacheEntryInsert, hbb] using hb
  rcases mem_enter.1 he with ⟨-, rfl⟩ | he
  · exact hbb.symm
  · exact hg b hb h' e (hsub h' e he)

theorem placed_gone_step (hg : Gone s)
    (ha : Allowed s a) (hstep : Step hashblock s a t) : Placed hashblock t ∧ Gone t := by
  cases hstep with
  | insert block h page hh hi => exact ⟨hp.entryInsert hh hi ha page, hg.entryInsert hp hi ha page⟩
  | insertEnd h new hi => exact ⟨hp.entryInsertEnd hi, hg⟩
  | locate block =>
    refine ⟨hp.entryLocate block, ?_⟩
    unfold rcacheEntryLocate
    split
    · split <;> exact hg
    · exact hg
  | remove block hi => exact ⟨hp.remove hi ha, hg.remove hp hi ha⟩
  | evict e rest hlist => exact ⟨hp.check hlist, hg⟩
  | evictEnd e h he hh =>
    refine ⟨hp.checkEnd he hh, ?_⟩
    intro b hb h' e' he'
    exact hg b hb h' e' ((hp.mem_drop (hp.mem_of_evicting he hh)).mp he').1

end

theorem placed_gone_of_reachable (hs : ((system hashblock).restrict Allowed).Reachable s) :
    Placed hashblock s ∧ Gone s := by
  induction hs with
  | init hi =>
    cases hi
    constructor
    · constructor <;> simp [State.initial]
    · simp [Gone, State.initial]
  | step _ hst ih => exact placed_gone_step ih.1 ih.2 hst.1 hst.2

theorem Placed.skip (hp : Placed hashblock s) (he : e ∈ s.evicting) (hh : hashblock e.block = some h) :
    findEntry s h e.block = some e ∧ rcacheEntryRemove s h e.block = s := by
  obtain ⟨-, -, hdisj⟩ := nodup_append.mp hp.nodup
  have hin := hp.mem_of_evicting he hh
  have hfind : findEntry s h e.block = some e := by
    cases hf : findEntry s h e.block with
    | none => exact absurd rfl (findEntry_none.1 hf e hin)
    | some e' =>
      obtain ⟨hin', hb⟩ := findEntry_some hf
      rw [hp.eq_of_block hin' hin hb]
  have hnot : e ∉ s.glist := fun hg => hdisj e hg e he rfl
  refine ⟨hfind, ?_⟩
  rw [rcacheEntryRemove, hfind]
  exact if_neg hnot

theorem not_coherent_of_not_allowed (hp : Placed hashblock s)
    (hstep : Step hashblock s a t) (ha : ¬ Allowed s a) : ¬ Coherent hashblock t := by
  intro hc
  have hhash {e : Entry α} (he : e ∈ s.evicting) : ∃ h, hashblock e.block = some h := by
    obtain ⟨h, hin⟩ := hp.held (mem_append_right _ he)
    exact ⟨h, hp.hash hin⟩
  cases hstep with
  | insert block h page hh hi =>
    simp only [Allowed, not_forall, not_not] at ha
    obtain ⟨e, he, rfl⟩ := ha
    have hin := hp.mem_of_evicting he hh
    have htwice := hc.single h
    simp only [rcacheEntryInsert, (hp.skip he hh).2, update_self, map_cons, nodup_cons] at htwice
    exact htwice.1 (mem_map_of_mem hin)
  | remove block hi =>
    simp only [Allowed, not_forall, not_not] at ha
    obtain ⟨e, he, rfl⟩ := ha
    obtain ⟨h, hh⟩ := hhash he
    obtain ⟨hfind, hsame⟩ := hp.skip he hh
    have hstale := hc.notStale e.block (by simp [rcacheRemove])
    simp only [rcacheLocate, rcacheRemove, hh, hsame, Option.bind_some] at hstale
    change (findEntry s h e.block).map (·.page) = none at hstale
    rw [hfind] at hstale
    cases hstale
  | insertEnd | locate | evict | evictEnd => exact ha trivial

/-- In every run in which no block is removed or inserted while `rcache_check` is between its two windows with it, a
removed block is not found until it is inserted again, a block has at most one entry and the counter is right. Each such
step breaks this: `rcache_entry_free` skips entries that are off `glist`. -/
theorem coherent_of_allowed (hs : ((system hashblock).restrict Allowed).Reachable s) : Coherent hashblock s ∧
      ∀ a t, (system hashblock).step s a t → (Coherent hashblock t ↔ Allowed s a) := by
  obtain ⟨hp, hg⟩ := placed_gone_of_reachable hs
  refine ⟨hp.coherent hg, ?_⟩
  intro a t hstep
  constructor
  · intro hc
    by_contra ha
    exact not_coherent_of_not_allowed hp hstep ha hc
  · intro ha
    obtain ⟨hp', hg'⟩ := placed_gone_step hp hg ha hstep
    exact hp'.coherent hg'

theorem coherent_evicted : ∃ s : State Bool, s.removed 7 = true ∧ Coherent (fun _ => some 0) s := by
  have next {s t : State Bool} {a : Action Bool} (hs : ((system fun _ => some 0).restrict Allowed).Reachable s)
      (hst : Step (fun _ => some 0) s a t) (ha : Allowed s a) :
      ((system fun _ => some 0).restrict Allowed).Reachable t := .step hs ⟨ha, hst⟩
  have h₁ := next (.init rfl) (.insert _ 7 0 true rfl rfl) (by simp [Allowed, State.initial])
  have h₂ := next h₁ (.insertEnd _ 0 ⟨0, 7, true⟩ rfl) trivial
  have h₃ := next h₂ (.evict _ ⟨0, 7, true⟩ [] rfl) trivial
  have h₄ := next h₃ (.evictEnd _ ⟨0, 7, true⟩ 0 (by decide) rfl rfl) trivial
  have h₅ := next h₄ (.remove _ 7 fun _ hh => by cases hh; rfl) (by unfold Allowed; decide)
  exact ⟨_, rfl, (coherent_of_allowed h₅).1⟩

/-- A block is removed while its entry is being evicted, and a lookup still finds it. -/
theorem stale_while_evicting : ∃ s : State Bool, (system fun _ => some 0).Reachable s ∧ s.removed 7 = true ∧
      rcacheLocate (fun _ => some 0) s 7 = some true := by
  have h₁ : (system fun _ => some 0).Reachable (rcacheEntryInsert (.initial Bool) 0 7 true) :=
    .step (.init rfl) (.insert _ 7 0 true rfl rfl)
  have h₂ := Reachable.step h₁ (.insertEnd _ 0 _ rfl)
  have h₃ := Reachable.step h₂ (.evict _ _ _ rfl)
  have h₄ := Reachable.step h₃ (.remove _ 7 fun _ hh => by cases hh; rfl)
  exact ⟨_, h₄, rfl, rfl⟩

end QuadStor.ReadCache
