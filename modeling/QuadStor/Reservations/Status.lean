import Mathlib.Data.List.Nodup
import QuadStor.Reservations.Theorems

/-!
# The status of PERSISTENT RESERVE OUT and what the command changes
-/

namespace QuadStor.Reservations

open Lib

variable {r : Reservation} {c : Prout} {n : Nexus} {a : MirrorAnswer}

/-- The checks before the call to the mirror peer, service action by service action -/
def registerAccepted (r : Reservation) (c : Prout) : Bool :=
  match registrationFind c.nexus r.registrationList with
  | some tmp => c.key = tmp.key
  | none => c.key = 0

def reserveAccepted (r : Reservation) (c : Prout) : Bool :=
  initiatorHasRegistered c.key c.nexus r.registrationList && !r.isReserved

def releaseAccepted (r : Reservation) (c : Prout) : Bool :=
  r.isReserved && initiatorHasRegistered c.key c.nexus r.registrationList &&
    (inPersistentArType r || (r.nexus = c.nexus && r.persistentKey = c.key)) &&
    (c.scope = 0 && r.persistentType = c.type)

def clearAccepted (r : Reservation) (c : Prout) : Bool := initiatorHasRegistered c.key c.nexus r.registrationList

def preemptAccepted (r : Reservation) (c : Prout) : Bool :=
  initiatorHasRegistered c.key c.nexus r.registrationList &&
    !(!inPersistentArType r && r.isReserved && c.serviceActionKey = 0)

def Prout.accepted (c : Prout) (r : Reservation) : Bool :=
  !c.mirrorHandled && c.scope = 0 && c.parameterListLength = 24 &&
    match c.serviceAction.val with
    | 0 => registerAccepted r c
    | 1 => reserveAccepted r c
    | 2 => releaseAccepted r c
    | 3 => clearAccepted r c
    | 4 | 5 => preemptAccepted r c
    | 6 => true
    | _ => false

/-- All service actions but RESERVE and RELEASE count in the generation. -/
def Prout.counts (c : Prout) : Bool := c.serviceAction.val ≠ 1 && c.serviceAction.val ≠ 2

/-- A command that ends in any status but good has changed nothing; one handled here that ends well has counted the
generation. -/
def Atomic (r : Reservation) (c : Prout) : Prop :=
  ((tdiskCmdPersistentReserveOut r c).2 ≠ .good → (tdiskCmdPersistentReserveOut r c).1 = r) ∧
    ((tdiskCmdPersistentReserveOut r c).2 = .good → c.mirrorHandled = false →
      (tdiskCmdPersistentReserveOut r c).1.generation = if c.counts then u32 (r.generation + 1) else r.generation)

/-! ## The ways through a handler -/

inductive Outcome (r : Reservation) (c : Prout) (counts : Bool) : Bool → Reservation × Reply → Prop where
  | checked {status : Reply} (hgood : status = .good → counts = false) : Outcome r c counts false (r, status)
  | failed (hfails : c.mirrorFails = true) : Outcome r c counts true (r, c.mirror.status)
  | applied {r' : Reservation} (hfails : c.mirrorFails = false)
      (hgen : r'.generation = if counts then u32 (r.generation + 1) else r.generation)
      (hne : counts = false → r'.isReserved ≠ r.isReserved) : Outcome r c counts true (r', c.mirror.status)

theorem Outcome.bump {r' : Reservation} (hfails : c.mirrorFails = false) (hgen : r'.generation = r.generation) :
    Outcome r c true true (r'.bump, c.mirror.status) := by
  apply Outcome.applied hfails
  · rw [Reservation.bump, hgen]
    rfl
  · nofun

theorem Outcome.mirrored {p : Reservation × Reply} {counts : Bool}
    (h : c.mirrorFails = false → Outcome r c counts true p) :
    Outcome r c counts true (if c.mirrorFails then (r, c.mirror.status) else p) := by
  cases hfails : c.mirrorFails with
  | true => exact .failed hfails
  | false => exact h hfails

theorem outcome_registerExisting : Outcome r c true true (registerExisting (works r c) c t) := by
  refine .mirrored fun hfails => ?_
  split <;> refine .bump hfails ?_
  · unfold unlinked persistentReservationRemoveRegistration
    split_ifs <;> rfl
  · unfold rekeyed persistentReservationUpdateKey
    split_ifs <;> rfl

theorem outcome_registerNew : Outcome r c true true (registerNew (works r c) c) := .mirrored fun hfails => .bump hfails rfl

theorem outcome_countOnly :
    Outcome r c true true (if c.mirrorFails then (r, c.mirror.status) else (r.bump, c.mirror.status)) :=
  .mirrored fun hfails => .bump hfails rfl

theorem outcome_register :
    Outcome r c true (registerAccepted r c) (persistentReservationHandleRegister (works r c) r c) := by
  unfold persistentReservationHandleRegister registerAccepted
  cases registrationFind c.nexus r.registrationList with
  | some tmp =>
    by_cases hkey : c.key = tmp.key
    · simp only [hkey, ne_eq, not_true_eq_false, if_false, decide_true]
      exact outcome_registerExisting
    · simp only [ne_eq, hkey, not_false_eq_true, if_true, decide_false]
      exact .checked nofun
  | none =>
    by_cases hkey : c.key = 0
    · simp only [hkey, true_and, ne_eq, not_true_eq_false, if_false, decide_true]
      split
      · exact outcome_countOnly
      · exact outcome_registerNew
    · simp only [hkey, false_and, if_false, ne_eq, not_false_eq_true, if_true, decide_false]
      exact .checked nofun

theorem outcome_registerAndIgnore :
    Outcome r c true true (persistentReservationHandleRegisterAndIgnore (works r c) r c) := by
  unfold persistentReservationHandleRegisterAndIgnore
  cases registrationFind c.nexus r.registrationList with
  | some tmp => exact outcome_registerExisting
  | none =>
    simp only
    split
    · exact outcome_countOnly
    · exact outcome_registerNew

theorem outcome_reserve :
    Outcome r c false (reserveAccepted r c) (persistentReservationHandleReserve (works r c) r c) := by
  unfold persistentReservationHandleReserve reserveAccepted
  cases initiatorHasRegistered c.key c.nexus r.registrationList with
  | false => exact .checked nofun
  | true =>
    cases hres : r.isReserved with
    | true =>
      simp only [Bool.not_true, Bool.and_false, Bool.true_and, if_true]
      split_ifs <;> exact .checked fun _ => rfl
    | false => exact .mirrored fun hfails => .applied hfails rfl fun _ heq => by simp [reserved, hres] at heq

theorem outcome_release_holder (hres : r.isReserved = true) :
    Outcome r c false (c.scope = 0 && r.persistentType = c.type)
      (if c.scope ≠ 0 || r.persistentType ≠ c.type then (r, .invalidReleaseOfPersistentReservation)
        else if c.mirrorFails then (r, c.mirror.status) else (persistentReservationReset r, c.mirror.status)) := by
  by_cases hfit : c.scope = 0 ∧ r.persistentType = c.type
  · simp only [hfit.1, hfit.2, decide_true, Bool.and_self, ne_eq, not_true_eq_false, decide_false, Bool.or_self,
      Bool.false_eq_true, if_false]
    exact .mirrored fun hfails => .applied hfails rfl fun _ heq => by simp [persistentReservationReset, hres] at heq
  · have hunfit : (c.scope ≠ 0 || r.persistentType ≠ c.type) = true := by
      simpa using not_and_or.1 hfit
    have hnot : (decide (c.scope = 0) && decide (r.persistentType = c.type)) = false := by
      simpa using hfit
    rw [if_pos hunfit, hnot]
    exact .checked (by simp)

theorem outcome_release :
    Outcome r c false (releaseAccepted r c) (persistentReservationHandleRelease (works r c) r c) := by
  unfold persistentReservationHandleRelease releaseAccepted
  cases hres : r.isReserved with
  | false => exact .checked fun _ => rfl
  | true =>
    cases initiatorHasRegistered c.key c.nexus r.registrationList with
    | false => exact .checked nofun
    | true =>
      cases inPersistentArType r with
      | true => exact outcome_release_holder hres
      | false =>
        by_cases hn : r.nexus = c.nexus
        · by_cases hk : r.persistentKey = c.key
          · simp only [hn, hk, decide_true, Bool.and_self, ne_eq, not_true_eq_false, decide_false, Bool.and_false,
              Bool.or_true, Bool.true_and, Bool.not_true, Bool.false_eq_true, if_false]
            exact outcome_release_holder hres
          · simp only [hn, hk, ne_eq, not_true_eq_false, not_false_eq_true, decide_false, decide_true, Bool.and_false,
              Bool.false_and, Bool.or_false, Bool.not_true, Bool.not_false, Bool.true_and, Bool.false_eq_true, if_false,
              if_true]
            exact .checked nofun
        · simp only [hn, ne_eq, not_false_eq_true, decide_false, decide_true, Bool.and_false, Bool.false_and,
            Bool.or_false, Bool.not_true, Bool.not_false, Bool.true_and, Bool.false_eq_true, if_false, if_true]
          exact .checked fun _ => rfl

theorem outcome_clear : Outcome r c true (clearAccepted r c) (persistentReservationHandleClear (works r c) r c) := by
  unfold persistentReservationHandleClear clearAccepted
  cases initiatorHasRegistered c.key c.nexus r.registrationList with
  | false => exact .checked nofun
  | true => exact .mirrored fun hfails => .bump hfails rfl

theorem outcome_preempt :
    Outcome r c true (preemptAccepted r c) (persistentReservationHandlePreempt (works r c) r c) := by
  unfold persistentReservationHandlePreempt preemptAccepted
  cases initiatorHasRegistered c.key c.nexus r.registrationList with
  | false => exact .checked nofun
  | true =>
    cases (!inPersistentArType r && r.isReserved && decide (c.serviceActionKey = 0)) with
    | true => exact .checked nofun
    | false =>
      refine .mirrored fun hfails => .bump hfails ?_
      unfold preempted
      dsimp only
      split <;> rfl

theorem outcome_persistentReserveOut (hhandled : c.mirrorHandled = false) :
    Outcome r c c.counts (c.accepted r) (tdiskCmdPersistentReserveOut r c) := by
  unfold tdiskCmdPersistentReserveOut persistentReserveOut Prout.accepted Prout.counts
  by_cases hscope : c.scope = 0
  · by_cases hlength : c.parameterListLength = 24
    · simp only [hhandled, hscope, hlength, Bool.not_false, decide_true, Bool.and_self, Bool.true_and, ne_eq,
        not_true_eq_false, Bool.false_eq_true, if_false]
      split <;> rename_i ha <;> try simp only [ha]
      · exact outcome_register
      · exact outcome_reserve
      · exact outcome_release
      · exact outcome_clear
      · exact outcome_preempt
      · exact outcome_preempt
      · exact outcome_registerAndIgnore
      · try split
        all_goals first | contradiction | exact .checked (by simp)
    · simp only [hhandled, hscope, hlength, Bool.not_false, decide_true, decide_false, Bool.and_false, Bool.false_and,
        ne_eq, not_true_eq_false, not_false_eq_true, Bool.false_eq_true, if_false, if_true]
      exact .checked (by simp)
  · simp only [hhandled, hscope, Bool.not_false, decide_false, Bool.and_false, Bool.false_and, ne_eq, not_false_eq_true,
      Bool.false_eq_true, if_false, if_true]
    exact .checked (by simp)

theorem u32_succ_ne (g : Nat) : u32 (g + 1) ≠ g := by
  unfold u32
  omega

theorem MirrorAnswer.refused_iff (h : a.isFailed = false) : a.Refused ↔ a.status ≠ .good := by
  cases a with
  | notSent => exact ⟨fun ⟨_, heq, _⟩ => (nomatch heq), fun hne => absurd rfl hne⟩
  | answered status =>
    constructor
    · rintro ⟨_, heq, hne⟩
      cases heq
      exact hne
    · exact fun hne => ⟨status, rfl, hne⟩
  | failed status hne => cases h

theorem MirrorAnswer.status_of_failed (h : a.isFailed = true) : a.status ≠ .good ∧ ¬a.Refused := by
  cases a with
  | notSent | answered status => cases h
  | failed status hne =>
    refine ⟨hne, ?_⟩
    rintro ⟨_, heq, -⟩
    cases heq

/-- The rule holds unless the command passes the checks here and the mirror peer refuses it: then this node has made the
change and the initiator gets the peer's status. -/
theorem failed_command_changes_nothing (r : Reservation) (c : Prout) :
    Atomic r c ↔ ¬(c.accepted r = true ∧ c.mirror.Refused) := by
  unfold Atomic
  cases hhandled : c.mirrorHandled with
  | true =>
    have hsame : (tdiskCmdPersistentReserveOut r c).1 = r := by
      rw [tdiskCmdPersistentReserveOut, persistentReserveOut, if_pos hhandled]
      rfl
    have hnot : c.accepted r = false := by simp [Prout.accepted, hhandled]
    exact iff_of_true ⟨fun _ => hsame, fun _ h => nomatch h⟩ (by simp [hnot])
  | false =>
    have hout : Outcome r c c.counts (c.accepted r) (tdiskCmdPersistentReserveOut r c) :=
      outcome_persistentReserveOut hhandled
    generalize c.accepted r = accepted at hout ⊢
    generalize tdiskCmdPersistentReserveOut r c = result at hout ⊢
    cases hout with
    | checked hgood =>
      refine iff_of_true ⟨fun _ => rfl, ?_⟩ (fun h => nomatch h.1)
      intro hstatus _
      rw [hgood hstatus]
      rfl
    | failed hfails =>
      obtain ⟨hne, hnot⟩ := MirrorAnswer.status_of_failed hfails
      exact iff_of_true ⟨fun _ => rfl, fun hgood => absurd hgood hne⟩ (fun h => hnot h.2)
    | @applied r' hfails hgen hchange =>
      have hdiffers : r' ≠ r := by
        rintro rfl
        cases hcounts : c.counts with
        | true =>
          rw [hcounts] at hgen
          exact u32_succ_ne _ hgen.symm
        | false => exact hchange hcounts rfl
      rw [MirrorAnswer.refused_iff hfails]
      constructor
      · exact fun h hrefused => hdiffers (h.1 hrefused.2)
      · intro h
        have hgood : c.mirror.status = .good := by
          by_contra hne
          exact h ⟨rfl, hne⟩
        exact ⟨fun hne => absurd hgood hne, fun _ _ => hgen⟩

/-- The peer has lost the disk. REGISTER ends in a check condition, and the key is registered here. -/
theorem refused_register_counts : ∃ c : Prout, (tdiskCmdPersistentReserveOut .empty c).2 = .logicalUnitNotSupported ∧
      (tdiskCmdPersistentReserveOut .empty c).1.generation = 1 ∧
      ((tdiskCmdPersistentReserveOut .empty c).1.registrationList.map Registration.key) = [7] := by
  refine ⟨⟨initiator, 0, "", 0, 0, 0, 24, 0, 7, .notSent, .answered .logicalUnitNotSupported⟩, ?_⟩
  decide

/-! ## RESERVE by a holder -/

/-- A RESERVE of the type that is held, from a nexus that holds it and with the key the nexus has registered -/
structure RepeatsReserve (r : Reservation) (c : Prout) : Prop where
  action : c.serviceAction.val = 1
  scope : c.scope = 0
  length : c.parameterListLength = 24
  handled : c.mirrorHandled = false
  type : c.type = r.persistentType
  holder : isPersistentReservationHolder r c.nexus = true
  key : ∃ t ∈ r.registrationList, t.nexus = c.nexus ∧ t.key = c.key

theorem RepeatsReserve.prout_eq (h : RepeatsReserve r c) (hres : r.isReserved = true) :
    tdiskCmdPersistentReserveOut r c = if r.persistentKey = c.key then (r, .good) else (r, .reservConflict) := by
  have hregistered : initiatorHasRegistered c.key c.nexus r.registrationList = true := by
    obtain ⟨t, ht, hn, hk⟩ := h.key
    exact List.any_eq_true.2 ⟨t, ht, by simp [hn, hk]⟩
  simp only [tdiskCmdPersistentReserveOut, persistentReserveOut, works, h.handled, h.scope, h.length, h.action,
    Bool.false_eq_true, if_false, ne_eq, not_true_eq_false, persistentReservationHandleReserve, hregistered, hres, h.holder, h.type, Bool.not_true,
    Bool.and_false, Bool.true_and, decide_false, Bool.or_false, if_true, decide_not]
  by_cases hk : r.persistentKey = c.key
  · simp [hk]
  · simp [hk]

theorem Inv.key_of_single (h : Inv r) (hheld : r.Held) (hs : singleHolderType r.persistentType = true)
    (hc : RepeatsReserve r c) : r.persistentKey = c.key := by
  have hnexus : r.nexus = c.nexus := by
    have hholder := hc.holder
    simpa [isPersistentReservationHolder, hheld.2, hs] using hholder
  obtain ⟨t, ht, hn, hk⟩ := h.holder_registered hheld hs
  obtain ⟨u, hu, hun, huk⟩ := hc.key
  have heq : t = u := List.inj_on_of_nodup_map h.nexus_unique ht hu (by rw [hn, hnexus, hun])
  rw [← hk, heq, huk]

/-- A holder that repeats its RESERVE gets good status and changes nothing, unless all registrants hold the reservation
and its key is not the one the reservation was made with. -/
theorem repeated_reserve (h : system.Reachable r) (hheld : r.Held) (ht : supportedType r.persistentType = true)
    (hc : RepeatsReserve r c) : tdiskCmdPersistentReserveOut r c = (r, .good) ↔
      allRegistrantsType r.persistentType = false ∨ c.key = r.persistentKey := by
  have hinv : Inv r := System.Invariant.reachable inv_invariant h
  rw [hc.prout_eq hheld.1]
  by_cases hk : r.persistentKey = c.key
  · rw [if_pos hk]
    exact iff_of_true rfl (.inr hk.symm)
  · rw [if_neg hk]
    apply iff_of_false
    · intro heq
      cases (Prod.mk.inj heq).2
    · rintro (hnot | heq)
      · exact hk (hinv.key_of_single hheld (singleHolder_of_supported ht hnot) hc)
      · exact hk heq.symm

theorem reachable_run (commands : List Command) : system.Reachable (run commands) :=
  List.foldlRecOn (motive := system.Reachable) commands _ (.init rfl) fun _ hs _ _ => .step hs rfl

def reserveOf (n : Nexus) (type : Fin 16) (key : Nat) : Prout := .short n 0 "" 1 type key 0

theorem repeated_reserve_newKey :
    tdiskCmdPersistentReserveOut (run [prout 0 0 0 7, prout 1 exclusiveAccess 7 0, prout 0 0 7 9])
        (reserveOf initiator exclusiveAccess 9) =
      (run [prout 0 0 0 7, prout 1 exclusiveAccess 7 0, prout 0 0 7 9], .good) := by
  refine (repeated_reserve (reachable_run _) ⟨by decide, by decide⟩ (by decide)
    ⟨rfl, rfl, rfl, by decide, by decide, by decide, ?_⟩).2 (.inl (by decide))
  decide

/-- All registrants hold the reservation. The second initiator, which did not make it, is refused; so is the first one
after a change of its key. -/
theorem repeated_reserve_refused : ∃ r, system.Reachable r ∧ r.Held ∧ r.persistentType = writeExclusiveAR ∧
      RepeatsReserve r (reserveOf ⟨(3, 0), (2, 0), 2⟩ writeExclusiveAR 8) ∧
      tdiskCmdPersistentReserveOut r (reserveOf ⟨(3, 0), (2, 0), 2⟩ writeExclusiveAR 8) = (r, .reservConflict) ∧
      RepeatsReserve r (reserveOf initiator writeExclusiveAR 9) ∧
      tdiskCmdPersistentReserveOut r (reserveOf initiator writeExclusiveAR 9) = (r, .reservConflict) := by
  refine ⟨run [prout 0 0 0 7, .persistentReserveOut (.short ⟨(3, 0), (2, 0), 2⟩ 0 "" 0 0 0 8),
    prout 1 writeExclusiveAR 7 0, prout 0 0 7 9], reachable_run _, ⟨by decide, by decide⟩, by decide,
    ⟨rfl, rfl, rfl, by decide, by decide, by decide, by decide⟩, by decide,
    ⟨rfl, rfl, rfl, by decide, by decide, by decide, by decide⟩, by decide⟩

end QuadStor.Reservations
