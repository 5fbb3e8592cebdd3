import QuadStor.Reservations.Theorems
import QuadStor.ReservationSync.Basic

/-!
# What the standby's copy misses
-/

namespace QuadStor.ReservationSync

open Lib Reservations List

variable {r r' : Reservation} {c : Prout} {n : Nexus} {t tmp : Registration} {regs : List Registration} {cmd : Command}
  {s : State}

theorem nexus_of_find (h : registrationFind n regs = some tmp) : tmp.nexus = n := by
  simpa using find?_some h

theorem length_setKey {key : Nat} : (registrationSetKey n key regs).length = regs.length := by
  have hmap : (registrationSetKey n key regs).map Registration.nexus = regs.map Registration.nexus :=
    map_nexus_registrationSetKey
  simpa using congrArg List.length hmap

theorem length_unlink_lt (h : registrationFind n regs = some tmp) : (registrationUnlink n regs).length < regs.length := by
  have hmem := mem_of_find?_eq_some h
  have hpos := length_pos_of_mem hmem
  rw [registrationUnlink_eq_eraseP, length_eraseP_of_mem hmem (by simpa using find?_some h)]
  omega

theorem unlink_append (h : ∀ t ∈ regs, t.nexus ≠ n) (ht : t.nexus = n) (rest : List Registration) :
    registrationUnlink n (regs ++ t :: rest) = regs ++ rest := by
  rw [registrationUnlink_eq_eraseP, eraseP_append_right _ (by simpa using h), eraseP_cons_of_pos (by simpa using ht)]

theorem foldl_unlink (keeps : Registration → Bool) (regs rest : List Registration)
    (hnodup : ((regs ++ rest).map Registration.nexus).Nodup) :
    (rest.filter fun t => !keeps t).foldl (fun l t => registrationUnlink t.nexus l) (regs ++ rest) =
      regs ++ rest.filter keeps := by
  induction rest generalizing regs with
  | nil => simp
  | cons t rest ih =>
    cases hkeep : keeps t with
    | true =>
      have hnodup' : (((regs ++ [t]) ++ rest).map Registration.nexus).Nodup := by simpa using hnodup
      simpa [hkeep] using ih (regs ++ [t]) hnodup'
    | false =>
      have hnot : ∀ t' ∈ regs, t'.nexus ≠ t.nexus := by
        simp only [map_append, map_cons, nodup_append] at hnodup
        intro t' ht' heq
        exact hnodup.2.2 _ (mem_map_of_mem ht') _ mem_cons_self heq
      have hnodup' : ((regs ++ rest).map Registration.nexus).Nodup := by
        apply List.Nodup.sublist _ hnodup
        simp
      simpa [hkeep, unlink_append hnot rfl] using ih regs hnodup'

theorem specCopy_fill (h : r'.registrationList = r.registrationList) :
    reservationSpecCopy r' (reservationSpecFill r) = r := by
  cases r
  cases r'
  cases h
  rfl

theorem receive_reservation (h : r'.registrationList = r.registrationList) :
    receive r' (nodeReservationSyncSend r) = r := specCopy_fill h

theorem receive_bump : receive r (nodeReservationSyncSend r.bump) = r.bump := receive_reservation rfl

theorem registrationList_specCopy (spec : ReservationSpec) :
    (reservationSpecCopy r spec).registrationList = r.registrationList := rfl

@[simp] theorem list_removeRegistration :
    (persistentReservationRemoveRegistration r n).registrationList = r.registrationList := by
  unfold persistentReservationRemoveRegistration
  split_ifs <;> rfl

@[simp] theorem list_bump : r.bump.registrationList = r.registrationList := rfl

theorem receive_deletes (removed : List Registration) :
    (removed.map (nodeRegistrationSyncSend r · .delete)).foldl receive { r with registrationList := regs } =
      { r with registrationList := removed.foldl (fun l t => registrationUnlink t.nexus l) regs } := by
  induction removed generalizing regs with
  | nil => rfl
  | cons t rest ih => exact ih

def copy (r : Reservation) (messages : List Message) : Reservation := messages.foldl receive r

@[simp] theorem copy_refuse {status : Reply} :
    copy r ((sends r c).refuse status) = ((works r c).refuse status).1 := rfl

@[simp] theorem copy_count : copy r (sends r c).count = (works r c).count.1 := receive_bump

theorem copy_registerExisting (hfind : registrationFind c.nexus r.registrationList = some tmp) :
    copy r (registerExisting (sends r c) c tmp) = (registerExisting (works r c) c tmp).1 ↔
      ¬ (c.mirrorFails = false ∧ c.serviceActionKey ≠ 0) := by
  unfold registerExisting
  cases hmirror : c.mirrorFails with
  | true => simp
  | false =>
    by_cases hkey : c.serviceActionKey = 0
    · simp only [hkey, Bool.false_eq_true, if_false, if_true, copy, sends, works, foldl_cons, foldl_nil]
      simp [receive, nodeRegistrationSyncSend, nodeReservationSyncSend, registrationSpecRemove, specCopy_fill,
        nexus_of_find hfind, unlinked]
    · simp only [hkey, Bool.false_eq_true, if_false, copy, sends, works, foldl_cons, foldl_nil]
      -- the standby takes the registration off instead
      refine iff_of_false (fun heq => ?_) (by simp [hkey])
      have hlist := congrArg (fun r => r.registrationList.length) heq
      have hlt := length_unlink_lt hfind
      simp [receive, nodeRegistrationSyncSend, nodeReservationSyncSend, registrationSpecRemove,
        registrationList_specCopy, nexus_of_find hfind, rekeyed, length_setKey] at hlist
      omega

theorem copy_registerNew : copy r (registerNew (sends r c) c) = (registerNew (works r c) c).1 ↔
      ¬ (c.mirrorFails = false ∧ c.nexus.initInt = targetIntIscsi ∧ c.initName ≠ "") := by
  unfold registerNew
  cases hmirror : c.mirrorFails with
  | true => simp
  | false =>
    simp only [Bool.false_eq_true, if_false, copy, sends, works, newRegistration, foldl_cons, foldl_nil]
    constructor
    · rintro heq ⟨-, hint, hname⟩
      have hlist := congrArg Reservation.registrationList heq
      simp [receive, nodeRegistrationSyncSend, registrationSpecAdd, registrationList_specCopy, hint] at hlist
      exact hname hlist
    · intro h
      have hname : (if c.nexus.initInt = targetIntIscsi then c.initName else "") = "" := by
        by_contra hne
        simp only [ite_eq_right_iff, not_forall] at hne
        obtain ⟨hint, hne⟩ := hne
        exact h ⟨trivial, hint, hne⟩
      simp only [hname]
      exact specCopy_fill rfl

theorem copy_register : copy r (persistentReservationHandleRegister (sends r c) r c) =
        (persistentReservationHandleRegister (works r c) r c).1 ↔
      ¬ (c.mirrorFails = false ∧ c.serviceActionKey ≠ 0 ∧
        ((∃ tmp, registrationFind c.nexus r.registrationList = some tmp ∧ c.key = tmp.key) ∨
          registrationFind c.nexus r.registrationList = none ∧ c.key = 0 ∧ c.nexus.initInt = targetIntIscsi ∧
            c.initName ≠ "")) := by
  unfold persistentReservationHandleRegister
  cases hfind : registrationFind c.nexus r.registrationList with
  | some tmp =>
    by_cases hkey : c.key = tmp.key
    · simp [hkey, copy_registerExisting hfind]
    · simp [hkey]
  | none =>
    by_cases hzero : c.key = 0
    · by_cases haction : c.serviceActionKey = 0
      · cases hmirror : c.mirrorFails <;> simp [hzero, haction]
      · simp [hzero, haction, copy_registerNew]
    · simp [hzero]

theorem copy_registerAndIgnore : copy r (persistentReservationHandleRegisterAndIgnore (sends r c) r c) =
        (persistentReservationHandleRegisterAndIgnore (works r c) r c).1 ↔
      ¬ (c.mirrorFails = false ∧ c.serviceActionKey ≠ 0 ∧
        ((∃ tmp, registrationFind c.nexus r.registrationList = some tmp) ∨
          registrationFind c.nexus r.registrationList = none ∧ c.nexus.initInt = targetIntIscsi ∧
            c.initName ≠ "")) := by
  unfold persistentReservationHandleRegisterAndIgnore
  cases hfind : registrationFind c.nexus r.registrationList with
  | some tmp => simp [copy_registerExisting hfind]
  | none =>
    by_cases haction : c.serviceActionKey = 0
    · cases hmirror : c.mirrorFails <;> simp [haction]
    · simp [haction, copy_registerNew]

theorem list_preempted :
    (preempted r c).registrationList = r.registrationList.filter (preemptKeeps c (inPersistentArType r)) := by
  unfold preempted
  dsimp only
  split <;> rfl

theorem copy_reserve : copy r (persistentReservationHandleReserve (sends r c) r c) =
    (persistentReservationHandleReserve (works r c) r c).1 := by
  unfold persistentReservationHandleReserve
  split_ifs <;> rfl

theorem copy_release : copy r (persistentReservationHandleRelease (sends r c) r c) =
    (persistentReservationHandleRelease (works r c) r c).1 := by
  unfold persistentReservationHandleRelease
  split_ifs <;> rfl

theorem copy_clear : copy r (persistentReservationHandleClear (sends r c) r c) =
    (persistentReservationHandleClear (works r c) r c).1 := by
  unfold persistentReservationHandleClear
  split_ifs <;> rfl

theorem copy_preempt (hnodup : (r.registrationList.map Registration.nexus).Nodup) :
    copy r (persistentReservationHandlePreempt (sends r c) r c) =
      (persistentReservationHandlePreempt (works r c) r c).1 := by
  unfold persistentReservationHandlePreempt
  split_ifs
  · rfl
  · rfl
  · rfl
  · have hcopied : ((r.registrationList.filter fun t => !preemptKeeps c (inPersistentArType r) t).map
        (nodeRegistrationSyncSend r · .delete)).foldl receive r =
          { r with registrationList := r.registrationList.filter (preemptKeeps c (inPersistentArType r)) } := by
      apply (receive_deletes _).trans
      have hfold := foldl_unlink (preemptKeeps c (inPersistentArType r)) [] r.registrationList hnodup
      exact congrArg (fun l => { r with registrationList := l }) hfold
    simp only [copy, sends, works, foldl_append, foldl_cons, foldl_nil, hcopied]
    exact receive_reservation list_preempted.symm

theorem copy_persistentReserveOut (hnodup : (r.registrationList.map Registration.nexus).Nodup) :
    copy r (persistentReserveOut (sends r c) r c) = (tdiskCmdPersistentReserveOut r c).1 ↔
      ¬ Rekeys r c ∧ ¬ AddsName r c := by
  have hskip : ¬ Registers c → ¬ Rekeys r c ∧ ¬ AddsName r c := fun h => ⟨fun h' => h h'.1, fun h' => h h'.1⟩
  unfold tdiskCmdPersistentReserveOut persistentReserveOut
  split_ifs with hhandled hscope hlength
  · exact iff_of_true rfl (hskip fun h => by simp [h.handled] at hhandled)
  · exact iff_of_true rfl (hskip fun h => hscope h.scope)
  · exact iff_of_true rfl (hskip fun h => hlength h.length)
  · have hother : c.serviceAction.val ≠ 0 → c.serviceAction.val ≠ 6 → ¬ Rekeys r c ∧ ¬ AddsName r c :=
      fun h0 h6 => hskip fun h => h.action.elim h0 h6
    have hregisters : c.serviceAction.val = 0 ∨ c.serviceAction.val = 6 → (Registers c ↔ c.mirrorFails = false) :=
      fun haction => ⟨fun h => h.mirror,
        fun h => ⟨by simpa using hhandled, by simpa using hscope, by simpa using hlength, haction, h⟩⟩
    match h : c.serviceAction.val with
    | 0 =>
      simp only [copy_register, Rekeys, AddsName, hregisters (.inl h), h, forall_const]
      grind
    | 1 => exact iff_of_true copy_reserve (hother (by omega) (by omega))
    | 2 => exact iff_of_true copy_release (hother (by omega) (by omega))
    | 3 => exact iff_of_true copy_clear (hother (by omega) (by omega))
    | 4 | 5 => exact iff_of_true (copy_preempt hnodup) (hother (by omega) (by omega))
    | 6 =>
      have h6 : ¬ (6 : Nat) = 0 := by decide
      simp only [copy_registerAndIgnore, Rekeys, AddsName, hregisters (.inr h), h, h6, false_imp_iff, and_true, true_and]
      grind
    | m + 7 => exact iff_of_true rfl (hother (by omega) (by omega))

theorem copy_reserve6 : copy r (tdiskCmdReserveSent r n) = (tdiskCmdReserve r n).1 := by
  unfold tdiskCmdReserveSent tdiskCmdReserve
  split_ifs <;> rfl

theorem copy_release6 : copy r (tdiskCmdReleaseSent r n) = (tdiskCmdRelease r n).1 := by
  unfold tdiskCmdReleaseSent tdiskCmdRelease
  split_ifs <;> rfl

inductive Changes (regs : List Registration) : List Registration → Prop where
  | sublist {l : List Registration} : l.Sublist regs → Changes regs l
  | setKey (n : Nexus) (key : Nat) : Changes regs (registrationSetKey n key regs)
  | new {t : Registration} : registrationFind t.nexus regs = none → Changes regs (t :: regs)

theorem Changes.nodup {l : List Registration} (h : Changes regs l) (hnodup : (regs.map Registration.nexus).Nodup) :
    (l.map Registration.nexus).Nodup := by
  cases h with
  | sublist hsub => exact (hsub.map _).nodup hnodup
  | setKey n key => rwa [map_nexus_registrationSetKey]
  | @new t hfind =>
    rw [map_cons, nodup_cons]
    refine ⟨fun hmem => ?_, hnodup⟩
    obtain ⟨t', ht', heq⟩ := List.mem_map.mp hmem
    simpa [heq] using find?_eq_none.mp hfind t' ht'

theorem changes_edit (h : Edit r c r') : Changes r.registrationList r'.registrationList := by
  cases h with
  | same | count | reserve | release => exact .sublist (.refl _)
  | unlink =>
    simp only [list_bump, unlinked, list_removeRegistration]
    exact .sublist registrationUnlink_sublist
  | setKey =>
    simp only [list_bump, rekeyed, updateKey_list]
    exact .setKey _ _
  | register hfind => exact .new hfind
  | clear => exact .sublist (nil_sublist _)
  | preempt =>
    simp only [list_bump, list_preempted]
    exact .sublist filter_sublist

theorem changes_execute : Changes r.registrationList (execute r cmd).registrationList := by
  rcases edit_execute r cmd with ⟨c, rfl, he⟩ | heq | ⟨hlist, -⟩
  · exact changes_edit he
  · rw [heq]
    exact .sublist (.refl _)
  · exact .sublist (hlist ▸ .refl _)

theorem nodup_invariant : system.Invariant fun s => (s.primary.registrationList.map Registration.nexus).Nodup where
  init h := h.2
  step {s c t} h hstep := by
    obtain ⟨-, rfl⟩ := hstep
    exact Changes.nodup changes_execute h

theorem synced_step (hsynced : s.standby = s.primary)
    (hnodup : (s.primary.registrationList.map Registration.nexus).Nodup) (hreset : cmd ≠ .reset) :
    (s.command cmd).standby = (s.command cmd).primary ↔ Allowed s cmd := by
  simp only [State.command, hsynced]
  cases cmd with
  | persistentReserveOut c => exact copy_persistentReserveOut hnodup
  | reserve n => exact iff_of_true copy_reserve6 trivial
  | release n => exact iff_of_true copy_release6 trivial
  | reset => exact absurd rfl hreset

/-- In every run in which no registration gets a new key and no name is registered, the copy equals the record of the
primary after each command. Each command that does one of these makes them differ. -/
theorem standby_equals_primary (hs : (system.restrict Allowed).Reachable s) :
    s.standby = s.primary ∧ ∀ c t, system.step s c t → (t.standby = t.primary ↔ Allowed s c) := by
  have hnodup := nodup_invariant.reachable hs.of_restrict
  have hsynced : s.standby = s.primary := by
    induction hs with
    | init h => exact h.1
    | step hs hstep ih =>
      obtain ⟨hallowed, hreset, rfl⟩ := hstep
      exact (synced_step (ih (nodup_invariant.reachable hs.of_restrict))
        (nodup_invariant.reachable hs.of_restrict) hreset).mpr hallowed
  refine ⟨hsynced, ?_⟩
  rintro c t ⟨hreset, rfl⟩
  exact synced_step hsynced hnodup hreset

def proutOf (initInt : Nat) (initName : String) (key serviceActionKey : Nat) : Command :=
  .persistentReserveOut (.short ⟨(1, 0), (2, 0), initInt⟩ 0 initName 0 0 key serviceActionKey)

def start : State := ⟨.empty, .empty⟩

theorem start_reachable {ok : State → Command → Prop} : (system.restrict ok).Reachable start :=
  .init ⟨rfl, nodup_nil⟩

theorem start_allowed : Allowed start (proutOf 1 "" 0 5) := by
  constructor
  · rintro ⟨-, -, tmp, hfind, -⟩
    cases hfind
  · rintro ⟨-, -, -, -, -, hname⟩
    exact hname rfl

/-- A name is not copied, and a registration that gets a new key is taken off the copy. -/
theorem copy_misses_name_and_key : (∃ t, system.step start (proutOf 2 "iqn" 0 5) t ∧
        t.standby.registrationList.map Registration.initName = [""] ∧
        t.primary.registrationList.map Registration.initName = ["iqn"]) ∧
      ∃ t u, (system.restrict Allowed).Reachable t ∧ system.step t (proutOf 1 "" 5 6) u ∧
        u.standby.registrationList = [] ∧ u.primary.registrationList.map Registration.key = [6] := by
  constructor
  · exact ⟨_, ⟨by simp [proutOf], rfl⟩, rfl, rfl⟩
  · refine ⟨start.command (proutOf 1 "" 0 5), _, ?_, ⟨by simp [proutOf], rfl⟩, rfl, rfl⟩
    exact start_reachable.step ⟨start_allowed, by simp [proutOf], rfl⟩

theorem standby_equals_primary_local : (system.restrict Allowed).Reachable start ∧
      (start.command (proutOf 1 "" 0 5)).standby = (start.command (proutOf 1 "" 0 5)).primary ∧
      (start.command (proutOf 1 "" 0 5)).standby.registrationList ≠ [] := by
  refine ⟨start_reachable, ?_, by decide⟩
  apply ((standby_equals_primary start_reachable).2 (proutOf 1 "" 0 5) _ ⟨by simp [proutOf], rfl⟩).mpr
  exact start_allowed

end QuadStor.ReservationSync
