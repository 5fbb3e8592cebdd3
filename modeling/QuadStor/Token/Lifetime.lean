import QuadStor.Lib.System
import Mathlib.Order.Nat

/-!
# The lifetime of tokens

A token is on `rod_token_list` until it is freed. Commands take references to it under `rod_lock`, and a thread
frees the tokens whose time is over.
-/

namespace QuadStor.Token.Lifetime

open Lib List Function

structure RodToken where
  refs : Nat
  delToken : Bool
  listIdentifier : Nat
  nexus : Nat
deriving DecidableEq

structure State where
  /-- the tokens on the list, by the number of tokens made before -/
  token : Nat → Option RodToken
  next : Nat
  /-- the tokens that commands have references to, one for each reference -/
  held : List Nat
  /-- not in the source: how often a token was freed, whether that happened to one that was held, and whether
  `rod_lock` was taken by its owner -/
  freed : Nat → Nat
  freedHeld : Bool
  relocked : Bool

def State.initial : State := ⟨fun _ => none, 0, [], fun _ => 0, false, false⟩

inductive Action where
  | populate (listIdentifier nexus : Nat)
  /-- WRITE USING TOKEN, perhaps with `del_token`, or RECEIVE ROD TOKEN INFORMATION finds a token -/
  | find (t : Nat) (delToken : Bool)
  /-- WRITE USING TOKEN gives the token its own list identifier. -/
  | rename (t listIdentifier : Nat)
  | put (t : Nat)
  /-- the timeout thread, for the tokens that have not been used for long enough -/
  | sweep (timedOut : Nat → Bool)

def State.Listed (s : State) (listIdentifier nexus : Nat) : Prop :=
  ∃ t < s.next, ∃ token ∈ s.token t, token.listIdentifier = listIdentifier ∧ token.nexus = nexus

instance {s : State} {listIdentifier nexus : Nat} : Decidable (s.Listed listIdentifier nexus) :=
  inferInstanceAs (Decidable (∃ t < s.next, ∃ token ∈ s.token t, _ ∧ _))

/-- `rod_token_put` takes the lock itself. -/
def rodTokenPut (s : State) (t : Nat) (token : RodToken) : State :=
  let held := s.held.erase t
  if !token.delToken || token.refs - 1 > 1 then
    { s with token := update s.token t (some { token with refs := token.refs - 1 }), held }
  else
    { s with
      token := update s.token t none
      held
      freed := update s.freed t (s.freed t + 1)
      freedHeld := s.freedHeld || held.contains t }

def copyMgrFreeTimedoutTokens (s : State) (timedOut : Nat → Bool) : State :=
  { s with
    token := fun t => if timedOut t then none else s.token t
    freed := fun t => if timedOut t && (s.token t).isSome then s.freed t + 1 else s.freed t
    freedHeld := s.freedHeld || s.held.any fun t => timedOut t && (s.token t).isSome }

def exec (s : State) : Action → Option State
  | .populate listIdentifier nexus =>
    -- the token that is found is put while the lock is held
    if s.Listed listIdentifier nexus then some { s with relocked := true }
    else some { s with
      token := update s.token s.next (some ⟨1, false, listIdentifier, nexus⟩), next := s.next + 1 }
  | .find t delToken =>
    (s.token t).map fun token => { s with
      token := update s.token t (some { token with refs := token.refs + 1, delToken := token.delToken || delToken })
      held := t :: s.held }
  | .rename t listIdentifier =>
    if t ∈ s.held then
      (s.token t).map fun token =>
        { s with token := update s.token t (some { token with listIdentifier }) }
    else none
  | .put t => if t ∈ s.held then (s.token t).map (rodTokenPut s t) else none
  | .sweep timedOut => some (copyMgrFreeTimedoutTokens s timedOut)

def system : System State Action where
  init s := s = .initial
  step s a s' := exec s a = some s'

structure Safe (s : State) : Prop where
  once : ∀ t, s.freed t ≤ 1
  unheld : s.freedHeld = false
  lock : s.relocked = false

/-- No list identifier is used for a second token of a nexus, and no token is out of time while a command has it. -/
def Allowed (s : State) : Action → Prop
  | .populate listIdentifier nexus => ¬s.Listed listIdentifier nexus
  | .sweep timedOut => ∀ t ∈ s.held, timedOut t = false
  | _ => True

structure Inv (s : State) : Prop where
  refs : ∀ t, ∀ token ∈ s.token t, token.refs = 1 + s.held.count t ∧ s.freed t = 0
  held : ∀ t ∈ s.held, s.token t ≠ none
  fresh : ∀ t, s.next ≤ t → s.token t = none ∧ s.freed t = 0
  safe : Safe s

variable {s s' : State} {a : Action} {t : Nat} {token : RodToken}

theorem inv_initial : Inv .initial where
  refs := by simp [State.initial]
  held := by simp [State.initial]
  fresh := by simp [State.initial]
  safe := ⟨by simp [State.initial], rfl, rfl⟩

section

variable (h : Inv s)
include h

theorem Inv.lt (htoken : s.token t = some token) : t < s.next := by
  by_contra hlt
  simp [(h.fresh t (Nat.le_of_not_lt hlt)).1] at htoken

theorem Inv.update {held : List Nat} {next : Nat} (hfreed : s.freed t = 0) (hnext : s.next ≤ next)
    (ht : t < next) (hrefs : token.refs = 1 + held.count t) (hcount : ∀ u, u ≠ t → held.count u = s.held.count u) :
    Inv { s with token := update s.token t (some token), held, next } where
  refs u x hx := by
    by_cases hu : u = t
    · subst hu
      obtain rfl : token = x := by simpa using hx
      exact ⟨hrefs, hfreed⟩
    · rw [hcount u hu]
      exact h.refs u x (by simpa [hu] using hx)
  held u hu := by
    by_cases hut : u = t
    · simp [hut]
    · have hmem : u ∈ s.held := by rwa [← count_pos_iff, ← hcount u hut, count_pos_iff]
      simpa [hut] using h.held u hmem
  fresh u hu := by
    have hne : u ≠ t := by
      rintro rfl
      exact absurd ht (Nat.not_lt.mpr hu)
    simpa [hne] using h.fresh u (hnext.trans hu)
  safe := { h.safe with }

theorem Inv.put (hmem : t ∈ s.held) (htoken : s.token t = some token) : Inv (rodTokenPut s t token) := by
  have hcount : ∀ u, u ≠ t → (s.held.erase t).count u = s.held.count u := fun u hu => count_erase_of_ne hu
  have hpos := count_pos_iff.mpr hmem
  have hself : (s.held.erase t).count t = s.held.count t - 1 := count_erase_self
  obtain ⟨hrefs, hfreed⟩ := h.refs t token htoken
  unfold rodTokenPut
  split
  · exact h.update hfreed le_rfl (h.lt htoken) (by simp only; omega) hcount
  · rename_i hlast
    -- the last reference besides that of the list
    have hnone : (s.held.erase t).count t = 0 := by
      simp only [Bool.or_eq_true, Bool.not_eq_true', decide_eq_true_eq, not_or] at hlast
      omega
    have hnot := count_eq_zero.mp hnone
    refine ⟨fun u x hx => ?_, fun u hu => ?_, fun u hu => ?_, fun u => ?_, ?_, h.safe.lock⟩
    · have hut : u ≠ t := by
        rintro rfl
        simp at hx
      simp only [hcount u hut, Function.update_of_ne hut] at hx ⊢
      exact h.refs u x hx
    · have hut : u ≠ t := by
        rintro rfl
        exact hnot hu
      simpa [hut] using h.held u (mem_of_mem_erase hu)
    · have hut : u ≠ t := by
        rintro rfl
        simp [(h.fresh u hu).1] at htoken
      simpa [hut] using h.fresh u hu
    · by_cases hut : u = t
      · simp [hut, hfreed]
      · simpa [hut] using h.safe.once u
    · simp [h.safe.unheld, hnot]

theorem Inv.sweep {timedOut : Nat → Bool} (ha : ∀ t ∈ s.held, timedOut t = false) :
    Inv (copyMgrFreeTimedoutTokens s timedOut) where
  refs u x hx := by
    simp only [copyMgrFreeTimedoutTokens] at hx ⊢
    split_ifs at hx with hu
    · cases hx
    · simpa [hu] using h.refs u x hx
  held u hu := by
    simpa [copyMgrFreeTimedoutTokens, ha u hu] using h.held u hu
  fresh u hu := by
    simp [copyMgrFreeTimedoutTokens, h.fresh u hu]
  safe := by
    refine ⟨fun u => ?_, ?_, h.safe.lock⟩
    · simp only [copyMgrFreeTimedoutTokens]
      split_ifs with hu
      · obtain ⟨x, hx⟩ := Option.isSome_iff_exists.mp (Bool.and_eq_true_iff.mp hu).2
        exact (congrArg Nat.succ (h.refs u x hx).2).le
      · exact h.safe.once u
    · simp [copyMgrFreeTimedoutTokens, h.safe.unheld]
      exact fun u hu hout => absurd hout (by simp [ha u hu])

theorem Inv.step (ha : Allowed s a) (hstep : exec s a = some s') : Inv s' := by
  cases a with
  | populate listIdentifier nexus =>
    rw [exec, if_neg ha] at hstep
    cases hstep
    have hnew : s.next ∉ s.held := fun hmem => h.held _ hmem (h.fresh _ le_rfl).1
    refine h.update (h.fresh _ le_rfl).2 (Nat.le_succ _) (Nat.lt_succ_self _) ?_ fun _ _ => rfl
    simp [count_eq_zero.mpr hnew]
  | find t delToken =>
    obtain ⟨token, htoken, rfl⟩ := Option.map_eq_some_iff.mp hstep
    obtain ⟨hrefs, hfreed⟩ := h.refs t token htoken
    refine h.update hfreed le_rfl (h.lt htoken) ?_ fun u hu => count_cons_of_ne hu.symm
    simp [hrefs, Nat.add_assoc]
  | rename t listIdentifier =>
    simp only [exec] at hstep
    split_ifs at hstep
    obtain ⟨token, htoken, rfl⟩ := Option.map_eq_some_iff.mp hstep
    obtain ⟨hrefs, hfreed⟩ := h.refs t token htoken
    exact h.update hfreed le_rfl (h.lt htoken) hrefs fun _ _ => rfl
  | put t =>
    simp only [exec] at hstep
    split_ifs at hstep with hmem
    obtain ⟨token, htoken, rfl⟩ := Option.map_eq_some_iff.mp hstep
    exact h.put hmem htoken
  | sweep timedOut =>
    cases hstep
    exact h.sweep ha

theorem allowed_of_safe (hstep : exec s a = some s') (hsafe : Safe s') : Allowed s a := by
  cases a with
  | populate listIdentifier nexus =>
    intro hlisted
    rw [exec, if_pos hlisted] at hstep
    cases hstep
    cases hsafe.lock
  | sweep timedOut =>
    cases hstep
    intro t ht
    have hunheld := hsafe.unheld
    simp only [copyMgrFreeTimedoutTokens, Bool.or_eq_false_iff, any_eq_false] at hunheld
    simpa [Option.isSome_iff_ne_none, h.held t ht] using hunheld.2 t ht
  | _ => trivial

end

/-- In every run whose steps are all `Allowed`, tokens are freed once and not while they are held, and the lock is not
taken by its owner; any other step breaks this. -/
theorem tokens_freed_safely (hs : (system.restrict Allowed).Reachable s) :
    Safe s ∧ ∀ a s', system.step s a s' → (Safe s' ↔ Allowed s a) := by
  have hinv : Inv s := by
    induction hs with
    | init hi => exact hi ▸ inv_initial
    | step _ hst ih => exact ih.step hst.1 hst.2
  exact ⟨hinv.safe, fun a s' hstep => ⟨allowed_of_safe hinv hstep, fun ha => (hinv.step ha hstep).safe⟩⟩

theorem tokens_freed_safely_deleted :
    let s := System.runOf exec (System.runOf exec (System.runOf exec .initial (.populate 1 0)) (.find 0 true)) (.put 0)
    s.freed 0 = 1 ∧ Safe s := by
  have step {s s' : State} {a : Action} (hs : (system.restrict Allowed).Reachable s) (ha : Allowed s a)
      (h : exec s a = some s') : (system.restrict Allowed).Reachable s' := .step hs ⟨ha, h⟩
  have h₁ := step (a := .populate 1 0) (.init rfl) (show ¬State.Listed _ _ _ by decide) rfl
  have h₂ := step (a := .find 0 true) h₁ trivial rfl
  exact ⟨rfl, (tokens_freed_safely (step (a := .put 0) h₂ trivial rfl)).1⟩

/-- The time of a token is over while a command has it. A second POPULATE TOKEN has the list identifier of the
first. -/
theorem token_freed_in_use : let s := System.runOf exec .initial (.populate 1 0)
    (System.runOf exec (System.runOf exec s (.find 0 false)) (.sweep fun _ => true)).freedHeld = true ∧
      (System.runOf exec s (.populate 1 0)).relocked = true :=
  ⟨rfl, rfl⟩

end QuadStor.Token.Lifetime
