import Mathlib.Data.List.Basic
import QuadStor.Lib.System

/-!
# A first-come lock queue on one wait channel

Requests stand in one list in the order they arrived. A request is granted when nothing ahead of it blocks it;
otherwise its thread sleeps until some request leaves, and then looks again.
-/

namespace QuadStor.Lib.FifoQueue

open Lib List

universe u

/-- Where the thread of a request is: about to look at the list, asleep on the channel, or past
the lock. -/
inductive Status where
  | awake
  | asleep
  | granted
  deriving DecidableEq, Repr

structure Waiter (ρ : Type u) where
  req : ρ
  status : Status
  deriving DecidableEq, Repr

inductive Event (ρ : Type u) where
  | arrive (r : ρ)
  | signal
  | look
  | leave
  deriving DecidableEq, Repr

variable {ρ : Type u} (blocks : ρ → ρ → Bool) {q q' post pre : List (Waiter ρ)} {w : Waiter ρ} {e : Event ρ}

def verdict (ahead : List (Waiter ρ)) (r : ρ) : Status :=
  if ahead.all (fun v => !blocks v.req r) then .granted else .asleep

def Waiter.wake (w : Waiter ρ) : Waiter ρ :=
  { w with status := if w.status = .asleep then .awake else w.status }

inductive Step : List (Waiter ρ) → Event ρ → List (Waiter ρ) → Prop where
  | arrive (q : List (Waiter ρ)) (r : ρ) : Step q (.arrive r) (q ++ [⟨r, verdict blocks q r⟩])
  | signal (pre post : List (Waiter ρ)) (w : Waiter ρ) : Step (pre ++ w :: post) .signal (pre ++ w.wake :: post)
  | look (pre post : List (Waiter ρ)) (r : ρ) :
      Step (pre ++ ⟨r, .awake⟩ :: post) .look (pre ++ ⟨r, verdict blocks pre r⟩ :: post)
  | leave (pre post : List (Waiter ρ)) (r : ρ) :
      Step (pre ++ ⟨r, .granted⟩ :: post) .leave ((pre ++ post).map Waiter.wake)

def system : System (List (Waiter ρ)) (Event ρ) where
  init q := q = []
  step := Step blocks

variable {blocks}

@[simp] theorem Waiter.wake_req (w : Waiter ρ) : w.wake.req = w.req := rfl

@[simp] theorem Waiter.wake_granted_iff : w.wake.status = .granted ↔ w.status = .granted := by
  cases h : w.status <;> simp [Waiter.wake, h]

theorem Waiter.wake_ne_asleep (w : Waiter ρ) : w.wake.status ≠ .asleep := by
  cases h : w.status <;> simp [Waiter.wake, h]

theorem verdict_granted_iff {ahead : List (Waiter ρ)} {r : ρ} :
    verdict blocks ahead r = .granted ↔ ∀ v ∈ ahead, blocks v.req r = false := by
  unfold verdict
  split <;> simp_all

def Clear (blocks : ρ → ρ → Bool) (q : List (Waiter ρ)) : Prop :=
  q.Pairwise fun v w => w.status = .granted → blocks v.req w.req = false

theorem Clear.map_wake (h : Clear blocks q) : Clear blocks (q.map Waiter.wake) := by
  unfold Clear
  rw [pairwise_map]
  refine h.imp ?_
  intro v w hvw hw
  exact hvw (Waiter.wake_granted_iff.1 hw)

theorem Clear.replace {w' : Waiter ρ} (h : Clear blocks (pre ++ w :: post)) (hreq : w'.req = w.req)
    (hw : w'.status = .granted → ∀ v ∈ pre, blocks v.req w.req = false) : Clear blocks (pre ++ w' :: post) := by
  obtain ⟨hpre, htail, hcross⟩ := pairwise_append.mp h
  obtain ⟨hhead, hpost⟩ := pairwise_cons.mp htail
  refine pairwise_append.mpr ⟨hpre, pairwise_cons.mpr ⟨?_, hpost⟩, ?_⟩
  · intro x hx hg
    rw [hreq]
    exact hhead x hx hg
  · intro v hv
    refine forall_mem_cons.2 ⟨fun hg => ?_, fun x hx => hcross v hv x (mem_cons_of_mem _ hx)⟩
    rw [hreq]
    exact hw hg v hv

theorem Clear.of_mem_pre
    (h : Clear blocks (pre ++ w :: post)) (hw : w.status = .granted) : ∀ v ∈ pre, blocks v.req w.req = false := by
  intro v hv
  exact (pairwise_append.mp h).2.2 v hv w mem_cons_self hw

theorem Step.clear (h : Step blocks q e q') (hq : Clear blocks q) : Clear blocks q' := by
  cases h with
  | arrive q r =>
    refine pairwise_append.mpr ⟨hq, pairwise_singleton _ _, ?_⟩
    intro v hv x hx hg
    rw [mem_singleton.mp hx] at hg ⊢
    exact verdict_granted_iff.1 hg v hv
  | signal pre post w =>
    exact hq.replace rfl fun hg => hq.of_mem_pre (Waiter.wake_granted_iff.1 hg)
  | look pre post r =>
    exact hq.replace rfl fun hg => verdict_granted_iff.1 hg
  | leave pre post r =>
    refine Clear.map_wake (hq.sublist ?_)
    exact (sublist_cons_self _ _).append_left _

def HeadUp (q : List (Waiter ρ)) : Prop := ∀ w ∈ q.head?, w.status ≠ .asleep

theorem verdict_nil (r : ρ) : verdict blocks [] r = .granted := by simp [verdict]

theorem Step.headUp (h : Step blocks q e q') (hq : HeadUp q) : HeadUp q' := by
  cases h with
  | arrive q r =>
    cases q with
    | nil => simp [HeadUp, verdict_nil]
    | cons v q => exact hq
  | signal pre post w =>
    cases pre with
    | nil => simpa [HeadUp] using w.wake_ne_asleep
    | cons v pre => exact hq
  | look pre post r =>
    cases pre with
    | nil => simp [HeadUp, verdict_nil]
    | cons v pre => exact hq
  | leave pre post r =>
    intro w hw
    rw [head?_map] at hw
    obtain ⟨v, -, rfl⟩ := Option.map_eq_some_iff.mp hw
    exact v.wake_ne_asleep

variable {ok : ρ → Prop}

def Event.Admits (ok : ρ → Prop) : Event ρ → Prop
  | .arrive r => ok r
  | _ => True

theorem clear_invariant : (system blocks).Invariant (Clear blocks) where
  init h := by subst h; exact List.Pairwise.nil
  step h hst := hst.clear h

theorem headUp_invariant : (system blocks).Invariant HeadUp where
  init h := by subst h; simp [HeadUp]
  step h hst := hst.headUp h

theorem forall_req_invariant :
    ((system blocks).restrict fun _ e => e.Admits ok).Invariant fun q => ∀ w ∈ q, ok w.req where
  init h := by subst h; simp
  step := by
    rintro q e q' hq ⟨he, h⟩
    cases h with
    | arrive q r =>
      exact forall_mem_append.2 ⟨hq, forall_mem_singleton.2 he⟩
    | signal pre post v =>
      simpa only [forall_mem_append, forall_mem_cons, Waiter.wake_req] using hq
    | look pre post r =>
      simpa only [forall_mem_append, forall_mem_cons] using hq
    | leave pre post r =>
      intro w hw
      obtain ⟨v, hv, rfl⟩ := List.mem_map.mp hw
      exact hq v (by simp only [mem_append, mem_cons] at hv ⊢; tauto)

end QuadStor.Lib.FifoQueue
