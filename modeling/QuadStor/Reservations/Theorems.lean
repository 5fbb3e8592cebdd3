import QuadStor.Reservations.Basic

/-!
# The reservation record stays well formed
-/

namespace QuadStor.Reservations

open Lib List

variable {r r' : Reservation} {c : Prout} {n : Nexus} {key : Nat} {regs : List Registration} {t : Registration}

structure Inv (r : Reservation) : Prop where
  nexus_unique : (r.registrationList.map Registration.nexus).Nodup
  key_ne_zero : ∀ t ∈ r.registrationList, t.key ≠ 0
  holder_registered : r.Held → singleHolderType r.persistentType = true →
    ∃ t ∈ r.registrationList, t.nexus = r.nexus ∧ t.key = r.persistentKey
  registrants : r.Held → allRegistrantsType r.persistentType = true → r.registrationList ≠ []

def Typed (r : Reservation) : Prop := r.Held → supportedType r.persistentType = true

theorem singleHolder_of_supported {t : Fin 16} (h : supportedType t = true)
    (hn : allRegistrantsType t = false) : singleHolderType t = true := by
  simpa [supportedType, hn] using h

theorem not_allRegistrants_of_single : ∀ t : Fin 16, singleHolderType t = true →
    allRegistrantsType t = false := by decide

theorem Inv.wellFormed (h : Inv r) (ht : Typed r) : r.WellFormed where
  nexus_unique := h.nexus_unique
  key_ne_zero := h.key_ne_zero
  holder_registered hheld hn :=
    h.holder_registered hheld (singleHolder_of_supported (ht hheld) hn)
  registrants := h.registrants
  not_held_of_nil hnil hheld := by
    cases har : allRegistrantsType r.persistentType with
    | true => exact h.registrants hheld har hnil
    | false =>
      obtain ⟨t, hmem, -⟩ := h.holder_registered hheld (singleHolder_of_supported (ht hheld) har)
      simp [hnil] at hmem

theorem Inv.of_not_held (hu : (r.registrationList.map Registration.nexus).Nodup)
    (hk : ∀ t ∈ r.registrationList, t.key ≠ 0) (hn : ¬r.Held) : Inv r where
  nexus_unique := hu
  key_ne_zero := hk
  holder_registered hheld := absurd hheld hn
  registrants hheld := absurd hheld hn

theorem Inv.bump (h : Inv r) : Inv r.bump := { h with }

theorem not_held_reset : ¬(persistentReservationReset r).Held := by
  rintro ⟨h, -⟩
  cases h

theorem mem_of_initiatorHasRegistered (h : initiatorHasRegistered key n regs = true) :
    ∃ t ∈ regs, t.nexus = n ∧ t.key = key := by
  simpa [initiatorHasRegistered] using h

theorem registrationUnlink_eq_eraseP : registrationUnlink n regs = regs.eraseP fun t => t.nexus = n := by
  induction regs with
  | nil => rfl
  | cons t ts ih => by_cases ht : t.nexus = n <;> simp [registrationUnlink, ht, ih]

theorem registrationUnlink_sublist : (registrationUnlink n regs).Sublist regs := by
  rw [registrationUnlink_eq_eraseP]
  exact eraseP_sublist

theorem mem_registrationUnlink (ht : t ∈ regs) (hn : t.nexus ≠ n) : t ∈ registrationUnlink n regs := by
  rw [registrationUnlink_eq_eraseP]
  exact (mem_eraseP_of_neg (by simpa using hn)).mpr ht

theorem map_nexus_registrationSetKey :
    (registrationSetKey n key regs).map Registration.nexus = regs.map Registration.nexus := by
  induction regs with
  | nil => rfl
  | cons t ts ih =>
    simp only [registrationSetKey]
    split <;> simp [ih]

theorem key_of_mem_registrationSetKey (ht : t ∈ registrationSetKey n key regs) : t.key = key ∨ t ∈ regs := by
  induction regs with
  | nil => cases ht
  | cons u us ih =>
    simp only [registrationSetKey] at ht
    split at ht
    · rcases mem_cons.mp ht with rfl | ht
      · exact .inl rfl
      · exact .inr (mem_cons_of_mem _ ht)
    · rcases mem_cons.mp ht with rfl | ht
      · exact .inr mem_cons_self
      · exact (ih ht).imp id (mem_cons_of_mem _)

theorem mem_registrationSetKey_other (ht : t ∈ regs) (hn : t.nexus ≠ n) : t ∈ registrationSetKey n key regs := by
  induction regs with
  | nil => cases ht
  | cons u us ih =>
    simp only [registrationSetKey]
    rcases mem_cons.mp ht with rfl | ht
    · rw [if_neg hn]
      exact mem_cons_self
    · split
      · exact mem_cons_of_mem _ ht
      · exact mem_cons_of_mem _ (ih ht)

theorem exists_registrationSetKey (ht : t ∈ regs) (hn : t.nexus = n) :
    ∃ u ∈ registrationSetKey n key regs, u.nexus = n ∧ u.key = key := by
  induction regs with
  | nil => cases ht
  | cons u us ih =>
    simp only [registrationSetKey]
    split
    · rename_i hu
      exact ⟨{ u with key }, mem_cons_self, hu, rfl⟩
    · rename_i hu
      rcases mem_cons.mp ht with rfl | ht
      · exact absurd hn hu
      · obtain ⟨v, hv, hvn⟩ := ih ht
        exact ⟨v, mem_cons_of_mem _ hv, hvn⟩

theorem registrationSetKey_ne_nil (h : regs ≠ []) : registrationSetKey n key regs ≠ [] := by
  intro hnil
  have hmap : (registrationSetKey n key regs).map Registration.nexus =
      regs.map Registration.nexus := map_nexus_registrationSetKey
  rw [hnil] at hmap
  exact h (map_eq_nil_iff.mp hmap.symm)

theorem Inv.unlink (h : Inv r) : Inv (persistentReservationRemoveRegistration
      { r with registrationList := registrationUnlink n r.registrationList } n) := by
  have hsub : (registrationUnlink n r.registrationList).Sublist r.registrationList :=
    registrationUnlink_sublist
  have hu := (hsub.map Registration.nexus).nodup h.nexus_unique
  have hk : ∀ t ∈ registrationUnlink n r.registrationList, t.key ≠ 0 :=
    fun t ht => h.key_ne_zero t (hsub.subset ht)
  unfold persistentReservationRemoveRegistration
  split
  · rename_i hres
    refine .of_not_held hu hk ?_
    rintro ⟨hr, -⟩
    simp [show r.isReserved = true from hr] at hres
  · split
    · rename_i har
      split
      · exact .of_not_held hu hk not_held_reset
      · rename_i hne
        refine ⟨hu, hk, ?_, ?_⟩
        · intro _ hs
          have hn := not_allRegistrants_of_single _ hs
          simp [inPersistentArType, show allRegistrantsType r.persistentType = false from hn] at har
        · intro _ _ hnil
          simp [show registrationUnlink n r.registrationList = [] from hnil] at hne
    · rename_i hnar
      split
      · exact .of_not_held hu hk not_held_reset
      · rename_i hnh
        refine ⟨hu, hk, ?_, ?_⟩
        · intro hheld hs
          -- the holder is another nexus, so its registration is still there
          obtain ⟨t, ht, htn, htk⟩ := h.holder_registered hheld hs
          have hne : r.nexus ≠ n := by
            intro heq
            have htype : r.type = .persistent := hheld.2
            simp [isPersistentReservationHolder, htype, hs, heq] at hnh
          exact ⟨t, mem_registrationUnlink ht (htn ▸ hne), htn, htk⟩
        · intro hheld har
          have hr : r.isReserved = true := hheld.1
          have htype : r.type = .persistent := hheld.2
          simp [inPersistentArType, hr, htype, har] at hnar

@[simp] theorem updateKey_list : (persistentReservationUpdateKey r n key).registrationList = r.registrationList := by
  unfold persistentReservationUpdateKey
  split_ifs <;> rfl

theorem updateKey_held : (persistentReservationUpdateKey r n key).Held ↔ r.Held := by
  unfold persistentReservationUpdateKey
  split_ifs <;> rfl

theorem updateKey_type : (persistentReservationUpdateKey r n key).persistentType = r.persistentType := by
  unfold persistentReservationUpdateKey
  split_ifs <;> rfl

theorem Inv.setKey (h : Inv r) (hkey : key ≠ 0) : Inv (persistentReservationUpdateKey
      { r with registrationList := registrationSetKey n key r.registrationList } n key) := by
  refine ⟨?_, ?_, ?_, ?_⟩
  · simpa only [updateKey_list, map_nexus_registrationSetKey] using h.nexus_unique
  · rw [updateKey_list]
    intro t ht
    rcases key_of_mem_registrationSetKey ht with hk | ht
    · rw [hk]; exact hkey
    · exact h.key_ne_zero t ht
  · rw [updateKey_held, updateKey_list, updateKey_type]
    intro hheld hs
    have htype : r.type = .persistent := hheld.2
    have hn := not_allRegistrants_of_single _ hs
    obtain ⟨t, ht, htn, htk⟩ := h.holder_registered hheld hs
    by_cases hnx : r.nexus = n
    · -- the holder changes its own key, and the stored key with it
      obtain ⟨u, hu, hun, huk⟩ : ∃ u ∈ registrationSetKey n key r.registrationList, u.nexus = n ∧ u.key = key :=
        exists_registrationSetKey ht (htn.trans hnx)
      exact ⟨u, hu, by simp [persistentReservationUpdateKey, htype, hn, hnx, hun, huk]⟩
    · refine ⟨t, mem_registrationSetKey_other ht (htn ▸ hnx), ?_⟩
      simp [persistentReservationUpdateKey, htype, hn, hnx, htn, htk]
  · rw [updateKey_held, updateKey_list, updateKey_type]
    intro hheld har
    exact registrationSetKey_ne_nil (h.registrants hheld har)

theorem Inv.register (h : Inv r) (hnew : registrationFind t.nexus r.registrationList = none)
    (hkey : t.key ≠ 0) : Inv { r with registrationList := t :: r.registrationList } := by
  refine ⟨?_, ?_, ?_, ?_⟩
  · refine nodup_cons.mpr ⟨?_, h.nexus_unique⟩
    intro hmem
    obtain ⟨u, hu, hun⟩ := List.mem_map.mp hmem
    have hnone := find?_eq_none.mp hnew u hu
    simp [hun] at hnone
  · exact forall_mem_cons.mpr ⟨hkey, h.key_ne_zero⟩
  · intro hheld hs
    obtain ⟨u, hu, hun⟩ := h.holder_registered hheld hs
    exact ⟨u, mem_cons_of_mem _ hu, hun⟩
  · intro _ _
    exact cons_ne_nil _ _

theorem Inv.take {t : Fin 16} {rPrt : Nat} (hu : (regs.map Registration.nexus).Nodup) (hk : ∀ t ∈ regs, t.key ≠ 0)
    (hreg : ∃ t ∈ regs, t.nexus = n ∧ t.key = key) {g : Nat} : Inv ⟨g, true, .persistent, t, n, rPrt, key, regs⟩ where
  nexus_unique := hu
  key_ne_zero := hk
  holder_registered _ _ := hreg
  registrants _ _ := by
    obtain ⟨t, ht, -⟩ := hreg
    exact ne_nil_of_mem ht

theorem held_inPersistentArType (hheld : r.Held) : inPersistentArType r = allRegistrantsType r.persistentType := by
  simp [inPersistentArType, hheld.1, hheld.2]

theorem preempt_keeps_own {isAr : Bool} (ht : t ∈ regs)
    (hn : t.nexus = c.nexus) : t ∈ regs.filter (preemptKeeps c isAr) :=
  mem_filter.mpr ⟨ht, by simp [preemptKeeps, hn]⟩

theorem Inv.preempted (h : Inv r) (hreg : initiatorHasRegistered c.key c.nexus r.registrationList = true) :
    Inv (preempted r c) := by
  obtain ⟨own, hown, hownn, hownk⟩ : ∃ t ∈ r.registrationList, t.nexus = c.nexus ∧ t.key = c.key :=
    mem_of_initiatorHasRegistered hreg
  have hown' : own ∈ r.registrationList.filter (preemptKeeps c (inPersistentArType r)) :=
    preempt_keeps_own hown hownn
  have hu := ((filter_sublist (p := preemptKeeps c (inPersistentArType r))).map
    Registration.nexus).nodup h.nexus_unique
  have hk : ∀ t ∈ r.registrationList.filter (preemptKeeps c (inPersistentArType r)), t.key ≠ 0 :=
    fun t ht => h.key_ne_zero t (mem_of_mem_filter ht)
  unfold Reservations.preempted
  dsimp only
  split
  · rename_i htake
    have hres : r.isReserved = true := by
      cases hr : r.isReserved
      · simp [hr, inPersistentArType] at htake
      · rfl
    simp only [hres]
    exact Inv.take hu hk ⟨own, hown', hownn, hownk⟩
  · rename_i hleave
    refine ⟨hu, hk, ?_, fun _ _ => ne_nil_of_mem hown'⟩
    intro hheld hs
    -- the holder's key is not the one preempted, so its registration is kept
    obtain ⟨t, htm, htn, htk⟩ := h.holder_registered hheld hs
    have hheld' : r.Held := hheld
    have hnar : inPersistentArType r = false := by
      rw [held_inPersistentArType hheld']
      exact not_allRegistrants_of_single _ hs
    have hne : r.persistentKey ≠ c.serviceActionKey := by
      intro heq
      have hr : r.isReserved = true := hheld.1
      simp [hnar, hr, heq] at hleave
    refine ⟨t, mem_filter.mpr ⟨htm, ?_⟩, htn, htk⟩
    simp [preemptKeeps, hnar, htk, hne]

/-! ## What a command makes of the record -/

inductive Edit (r : Reservation) (c : Prout) : Reservation → Prop where
  | same : Edit r c r
  | count : Edit r c r.bump
  | unlink : Edit r c (unlinked r c).bump
  | setKey : c.serviceActionKey ≠ 0 → Edit r c (rekeyed r c).bump
  | register {t : Registration} : registrationFind t.nexus r.registrationList = none → t.key ≠ 0 →
      Edit r c { r with registrationList := t :: r.registrationList }.bump
  | reserve : c.serviceAction.val = 1 → initiatorHasRegistered c.key c.nexus r.registrationList = true →
      Edit r c (reserved r c)
  | release : Edit r c (persistentReservationReset r)
  | clear : Edit r c (persistentReservationReset { r with registrationList := [] }).bump
  | preempt : c.serviceAction.val = 4 ∨ c.serviceAction.val = 5 →
      initiatorHasRegistered c.key c.nexus r.registrationList = true → Edit r c (preempted r c).bump

theorem edit_registerExisting : Edit r c (registerExisting (works r c) c t).1 := by
  unfold registerExisting
  split_ifs with _ hkey
  · exact .same
  · exact .unlink
  · exact .setKey hkey

theorem edit_registerNew (hfind : registrationFind c.nexus r.registrationList = none) (hkey : c.serviceActionKey ≠ 0) :
    Edit r c (registerNew (works r c) c).1 := by
  unfold registerNew
  split
  · exact .same
  · exact .register hfind hkey

theorem edit_register : Edit r c (persistentReservationHandleRegister (works r c) r c).1 := by
  unfold persistentReservationHandleRegister
  split
  · split
    · exact .same
    · exact edit_registerExisting
  · rename_i hfind
    split_ifs with hzero _ hk
    · exact .same
    · exact .count
    · exact .same
    · exact edit_registerNew hfind fun hs => hzero ⟨not_not.mp hk, hs⟩

theorem edit_registerAndIgnore : Edit r c (persistentReservationHandleRegisterAndIgnore (works r c) r c).1 := by
  unfold persistentReservationHandleRegisterAndIgnore
  split
  · exact edit_registerExisting
  · rename_i hfind
    split_ifs with hs
    · exact .same
    · exact .count
    · exact edit_registerNew hfind hs

theorem edit_preempt (ha : c.serviceAction.val = 4 ∨ c.serviceAction.val = 5) :
    Edit r c (persistentReservationHandlePreempt (works r c) r c).1 := by
  unfold persistentReservationHandlePreempt
  split_ifs with hreg
  all_goals first | exact .same | exact .preempt ha (by simpa using hreg)

theorem edit_reserve (ha : c.serviceAction.val = 1) :
    Edit r c (persistentReservationHandleReserve (works r c) r c).1 := by
  unfold persistentReservationHandleReserve
  split_ifs with hreg
  all_goals first | exact .same | exact .reserve ha (by simpa using hreg)

theorem edit_release : Edit r c (persistentReservationHandleRelease (works r c) r c).1 := by
  unfold persistentReservationHandleRelease
  split_ifs
  all_goals first | exact .same | exact .release

theorem edit_clear : Edit r c (persistentReservationHandleClear (works r c) r c).1 := by
  unfold persistentReservationHandleClear
  split_ifs
  all_goals first | exact .same | exact .clear

theorem edit_persistentReserveOut : Edit r c (tdiskCmdPersistentReserveOut r c).1 := by
  unfold tdiskCmdPersistentReserveOut persistentReserveOut
  split_ifs
  · exact .same
  · exact .same
  · exact .same
  · split
    · exact edit_register
    · exact edit_reserve ‹_›
    · exact edit_release
    · exact edit_clear
    · exact edit_preempt (.inl ‹_›)
    · exact edit_preempt (.inr ‹_›)
    · exact edit_registerAndIgnore
    · exact .same

theorem edit_execute (r : Reservation) (cmd : Command) :
    (∃ c, cmd = .persistentReserveOut c ∧ Edit r c (execute r cmd)) ∨ execute r cmd = r ∨
      (execute r cmd).registrationList = r.registrationList ∧ ¬(execute r cmd).Held := by
  cases cmd with
  | persistentReserveOut c => exact .inl ⟨c, rfl, edit_persistentReserveOut⟩
  | reserve n =>
    simp only [execute, tdiskCmdReserve]
    split
    · exact .inr (.inl rfl)
    · exact .inr (.inr ⟨rfl, (nomatch ·.2)⟩)
  | release n =>
    simp only [execute, tdiskCmdRelease]
    split
    · exact .inr (.inr ⟨rfl, (nomatch ·.1)⟩)
    · exact .inr (.inl rfl)
  | reset =>
    simp only [execute, tdiskReset]
    split
    · exact .inr (.inr ⟨rfl, (nomatch ·.1)⟩)
    · exact .inr (.inl rfl)

theorem Inv.edit (h : Inv r) (he : Edit r c r') : Inv r' := by
  cases he with
  | same => exact h
  | count => exact h.bump
  | unlink => exact h.unlink.bump
  | setKey hkey => exact (h.setKey hkey).bump
  | register hfind hkey => exact (h.register hfind hkey).bump
  | reserve _ hreg => exact .take h.nexus_unique h.key_ne_zero (mem_of_initiatorHasRegistered hreg)
  | release => exact .of_not_held h.nexus_unique h.key_ne_zero not_held_reset
  | clear => exact Inv.bump (.of_not_held nodup_nil (by simp [persistentReservationReset]) not_held_reset)
  | preempt _ hreg => exact (h.preempted hreg).bump

theorem inv_invariant : system.Invariant Inv where
  init h := by
    subst h
    exact .of_not_held nodup_nil (by simp [Reservation.empty]) (nomatch ·.1)
  step := by
    rintro r cmd _ h rfl
    rcases edit_execute r cmd with ⟨c, rfl, he⟩ | heq | ⟨hlist, hn⟩
    · exact h.edit he
    · rwa [heq]
    · exact .of_not_held (hlist ▸ h.nexus_unique) (hlist ▸ h.key_ne_zero) hn

theorem Typed.of_not_held (h : ¬r.Held) : Typed r := fun hheld => absurd hheld h

theorem Typed.removeRegistration (h : Typed r) : Typed (persistentReservationRemoveRegistration r n) := by
  unfold persistentReservationRemoveRegistration
  split_ifs
  all_goals first | exact h | exact .of_not_held not_held_reset

theorem Typed.updateKey (h : Typed r) : Typed (persistentReservationUpdateKey r n key) := by
  unfold Typed
  rw [updateKey_held, updateKey_type]
  exact h

theorem Typed.preempted (h : Typed r) (ht : supportedType c.type = true) : Typed (preempted r c) := by
  unfold Reservations.preempted
  dsimp only
  split
  · exact fun _ => ht
  · exact h

theorem Typed.edit (h : Typed r) (hc : (Command.persistentReserveOut c).TypeSupported)
    (he : Edit r c r') : Typed r' := by
  cases he with
  | same | count | register => exact h
  | unlink => exact Typed.removeRegistration h
  | setKey => exact Typed.updateKey h
  | reserve ha => exact fun _ => hc (.inl ha)
  | release | clear => exact .of_not_held (nomatch ·.1)
  | preempt ha => exact h.preempted (hc (.inr ha))

theorem typed_invariant : (system.restrict fun _ c => c.TypeSupported).Invariant Typed where
  init h := by
    subst h
    exact .of_not_held (nomatch ·.1)
  step := by
    rintro r cmd _ h ⟨hc, rfl⟩
    rcases edit_execute r cmd with ⟨c, rfl, he⟩ | heq | ⟨-, hn⟩
    · exact h.edit hc he
    · rwa [heq]
    · exact .of_not_held hn

/-- In every run whose `RESERVE` and `PREEMPT` carry a supported type, the record is well formed. -/
theorem reservation_wellFormed (h : (system.restrict fun _ c => c.TypeSupported).Reachable r) : r.WellFormed :=
  (System.Invariant.reachable inv_invariant h.of_restrict).wellFormed (System.Invariant.reachable typed_invariant h)

def initiator : Nexus := ⟨(1, 0), (2, 0), 2⟩

def prout (serviceAction : Fin 32) (type : Fin 16) (key serviceActionKey : Nat) : Command :=
  .persistentReserveOut (.short initiator 0 "" serviceAction type key serviceActionKey)

def run (cs : List Command) : Reservation := cs.foldl execute .empty

theorem reservation_wellFormed_exclusive : (run [prout 0 0 0 7, prout 1 exclusiveAccess 7 0]).WellFormed := by
  refine reservation_wellFormed (.step (a := prout 1 exclusiveAccess 7 0)
    (.step (a := prout 0 0 0 7) (.init rfl) ⟨?_, rfl⟩) ⟨?_, rfl⟩)
  · rintro (h | h | h) <;> cases h
  · intro _
    decide

/-- `RESERVE` accepts type 0, which nobody holds: when the nexus unregisters, the reservation stays without a
registration. -/
theorem reservation_left_held : ∃ r, system.Reachable r ∧ ¬r.WellFormed := by
  refine ⟨run [prout 0 0 0 7, prout 1 0 7 0, prout 0 0 7 0], ?_, ?_⟩
  · exact .step (a := prout 0 0 7 0) (.step (a := prout 1 0 7 0) (.step (a := prout 0 0 0 7) (.init rfl) rfl) rfl) rfl
  · intro h
    exact h.not_held_of_nil rfl ⟨rfl, rfl⟩

end QuadStor.Reservations
