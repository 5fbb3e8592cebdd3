import Mathlib.Data.Finset.Card

/-!
# Shared cells

Owners name cells, several owners can name one cell, and a cell has a count of its references.
-/

namespace QuadStor.Lib

open Function

structure Shared (ω β δ : Type) where
  name : ω → Option β
  refs : β → Nat
  data : β → δ

namespace Shared

variable {ω β δ : Type} {p q r : Shared ω β δ} {o o' : ω} {b : β} {e : Option β} {blank x : δ}

def get (p : Shared ω β δ) (blank : δ) : Option β → δ
  | none => blank
  | some b => p.data b

def read (p : Shared ω β δ) (blank : δ) (o : ω) : δ := p.get blank (p.name o)

def Counted (p : Shared ω β δ) : Prop :=
  ∀ (b : β) (owners : Finset ω), (∀ o ∈ owners, p.name o = some b) → owners.card ≤ p.refs b

theorem Counted.refs_pos (h : p.Counted) (hname : p.name o = some b) : p.refs b ≠ 0 := by
  have hcard := h b {o} (by simpa using hname)
  rw [Finset.card_singleton] at hcard
  omega

structure Keeps (blank : δ) (served : ω → Prop) (p q : Shared ω β δ) : Prop where
  counted : q.Counted
  name : ∀ o, ¬ served o → q.name o = p.name o
  get : ∀ o, ¬ served o → q.get blank (p.name o) = p.get blank (p.name o)

namespace Keeps

variable {served served' : ω → Prop}

theorem refl (h : p.Counted) : p.Keeps blank served p := ⟨h, fun _ _ => rfl, fun _ _ => rfl⟩

section

variable (h : p.Keeps blank served q)
include h

theorem trans (h' : q.Keeps blank served r) : p.Keeps blank served r := by
  refine ⟨h'.counted, fun o ho => (h'.name o ho).trans (h.name o ho), fun o ho => ?_⟩
  have hget := h'.get o ho
  rw [h.name o ho] at hget
  exact hget.trans (h.get o ho)

theorem mono (hle : ∀ o, served o → served' o) : p.Keeps blank served' q :=
  ⟨h.counted, fun o ho => h.name o fun hs => ho (hle o hs), fun o ho => h.get o fun hs => ho (hle o hs)⟩

theorem read (ho : ¬ served o) : q.read blank o = p.read blank o := by
  rw [Shared.read, h.name o ho, h.get o ho]
  rfl

end

end Keeps

variable [DecidableEq ω] [DecidableEq β]

def move (p : Shared ω β δ) (o : ω) (e : Option β) : Shared ω β δ :=
  { p with
    name := update p.name o e
    refs := fun b => p.refs b - (if p.name o = some b then 1 else 0) + (if e = some b then 1 else 0) }

theorem Counted.move (h : p.Counted) (o : ω) (e : Option β) : (p.move o e).Counted := by
  intro b owners hall
  have hothers : ∀ o' ∈ owners.erase o, p.name o' = some b := by
    intro o' ho'
    obtain ⟨hne, hmem⟩ := Finset.mem_erase.mp ho'
    simpa [Shared.move, hne] using hall o' hmem
  have herase := h b (owners.erase o) hothers
  -- what `o` had before counts if it was this cell
  have hbefore : (owners.erase o).card + (if p.name o = some b then 1 else 0) ≤ p.refs b := by
    split_ifs with hname
    · have hinsert := h b (insert o (owners.erase o)) (by simpa [hname] using hothers)
      rwa [Finset.card_insert_of_notMem (Finset.notMem_erase o owners)] at hinsert
    · exact herase
  have hafter : owners.card ≤ (owners.erase o).card + (if e = some b then 1 else 0) := by
    by_cases hmem : o ∈ owners
    · have he : e = some b := by simpa [Shared.move] using hall o hmem
      rw [if_pos he, Finset.card_erase_add_one hmem]
    · rw [Finset.erase_eq_of_notMem hmem]
      exact Nat.le_add_right _ _
  simp only [Shared.move]
  omega

@[simp] theorem name_move_self : (p.move o e).name o = e := update_self ..

@[simp] theorem name_move_of_ne (h : o' ≠ o) : (p.move o e).name o' = p.name o' := update_of_ne h ..

@[simp] theorem get_move : (p.move o e).get blank = p.get blank := by
  funext e'
  cases e' <;> rfl

theorem keeps_move (h : p.Counted) (o : ω) (e : Option β) : p.Keeps blank (· = o) (p.move o e) :=
  ⟨h.move o e, fun _ hne => name_move_of_ne hne, fun o _ => by rw [get_move]⟩

def moves (p : Shared ω β δ) (owner : Nat → ω) (e : Nat → Option β) : Nat → Shared ω β δ
  | 0 => p
  | n + 1 => (p.moves owner e n).move (owner n) (e n)

section Moves

variable {owner : Nat → ω} {cells : Nat → Option β} {i n : Nat}

theorem get_moves : (p.moves owner cells n).get blank = p.get blank := by
  induction n with
  | zero => rfl
  | succ n ih => rw [moves, get_move, ih]

theorem Counted.moves (h : p.Counted) : (p.moves owner cells n).Counted := by
  induction n with
  | zero => exact h
  | succ n ih => exact ih.move (owner n) (cells n)

theorem keeps_moves (h : p.Counted) : p.Keeps blank (fun o => ∃ j, o = owner j) (p.moves owner cells n) := by
  induction n with
  | zero => exact .refl h
  | succ n ih =>
    refine ih.trans ((keeps_move ih.counted (owner n) (cells n)).mono ?_)
    rintro o rfl
    exact ⟨n, rfl⟩

end Moves

def store (p : Shared ω β δ) (b : β) (x : δ) : Shared ω β δ := { p with data := update p.data b x }

omit [DecidableEq ω] in
theorem get_store_of_refs (h : p.refs b = 0) (hcounted : p.Counted) (o : ω) :
    (p.store b x).get blank (p.name o) = p.get blank (p.name o) := by
  cases hname : p.name o with
  | none => rfl
  | some b' =>
    have hne : b' ≠ b := by
      rintro rfl
      exact hcounted.refs_pos hname h
    exact update_of_ne hne ..

/-- The owner gets `x`: no cell for `blank`, a free cell, or one that has `x` already. -/
inductive Puts (blank : δ) (p : Shared ω β δ) (o : ω) (x : δ) : Shared ω β δ → Prop where
  | blank : x = blank → Puts blank p o x (p.move o none)
  | fresh {b : β} : p.refs b = 0 → Puts blank p o x ((p.store b x).move o (some b))
  | share {b : β} : p.refs b ≠ 0 → p.data b = x → Puts blank p o x (p.move o (some b))

theorem Puts.keeps (h : Puts blank p o x q) (hcounted : p.Counted) : p.Keeps blank (· = o) q := by
  cases h with
  | blank _ => exact keeps_move hcounted o none
  | share _ _ => exact keeps_move hcounted o _
  | @fresh b hrefs =>
    refine ⟨(show (p.store b x).Counted from hcounted).move o _, fun _ hne => name_move_of_ne hne, fun o' _ => ?_⟩
    rw [get_move, get_store_of_refs hrefs hcounted]

theorem Puts.read (h : Puts blank p o x q) : q.read blank o = x := by
  cases h with
  | blank hx => simp [Shared.read, Shared.get, hx]
  | share _ hx => simpa [Shared.read, Shared.get, Shared.move] using hx
  | fresh _ => simp [Shared.read, Shared.get, Shared.move, Shared.store]

/-- A list of writes; an owner that gets nothing keeps what it has. -/
inductive PutsAll (blank : δ) (owner : Nat → ω) : Shared ω β δ → Nat → List (Option δ) → Shared ω β δ → Prop where
  | nil {p : Shared ω β δ} {i : Nat} : PutsAll blank owner p i [] p
  | skip {p q : Shared ω β δ} {i : Nat} {rest : List (Option δ)} : PutsAll blank owner p (i + 1) rest q →
      PutsAll blank owner p i (none :: rest) q
  | put {p q r : Shared ω β δ} {i : Nat} {x : δ} {rest : List (Option δ)} : Puts blank p (owner i) x r →
      PutsAll blank owner r (i + 1) rest q → PutsAll blank owner p i (some x :: rest) q

section PutsAll

variable {owner : Nat → ω} {i : Nat} {xs : List (Option δ)}

theorem PutsAll.keeps (h : PutsAll blank owner p i xs q) (hcounted : p.Counted) :
    p.Keeps blank (fun o => ∃ j, i ≤ j ∧ o = owner j) q := by
  induction h with
  | nil => exact .refl hcounted
  | skip _ ih =>
    refine (ih hcounted).mono ?_
    rintro o ⟨j, hj, rfl⟩
    exact ⟨j, Nat.le_of_succ_le hj, rfl⟩
  | put hput _ ih =>
    have hfirst := hput.keeps hcounted
    refine (hfirst.mono ?_).trans ((ih hfirst.counted).mono ?_)
    · rintro o rfl
      exact ⟨_, le_rfl, rfl⟩
    · rintro o ⟨j, hj, rfl⟩
      exact ⟨j, Nat.le_of_succ_le hj, rfl⟩

theorem PutsAll.read (h : PutsAll blank owner p i xs q) (hcounted : p.Counted) (hinj : Function.Injective owner)
    {j : Nat} (hj : i ≤ j) : q.read blank (owner j) = (xs.getD (j - i) none).getD (p.read blank (owner j)) := by
  have hself : ∀ {i : Nat} {xs : List (Option δ)} {p q : Shared ω β δ}, PutsAll blank owner p (i + 1) xs q →
      p.Counted → q.read blank (owner i) = p.read blank (owner i) := by
    intro i xs p q h hcounted
    refine (h.keeps hcounted).read ?_
    rintro ⟨j, hj, heq⟩
    have := hinj heq
    omega
  induction h with
  | nil => simp
  | @skip p q i rest h ih =>
    obtain rfl | hlt := Nat.eq_or_lt_of_le hj
    · simpa using hself h hcounted
    · have hsub : j - i = j - (i + 1) + 1 := by omega
      rw [hsub, List.getD_cons_succ, ih hcounted hlt]
  | @put p q x i rest r hput h ih =>
    have hfirst := hput.keeps hcounted
    obtain rfl | hlt := Nat.eq_or_lt_of_le hj
    · rw [hself h hfirst.counted, hput.read]
      simp
    · have hsub : j - i = j - (i + 1) + 1 := by omega
      have hne : owner j ≠ owner i := fun heq => by
        have := hinj heq
        omega
      rw [hsub, List.getD_cons_succ, ih hfirst.counted hlt, hfirst.read hne]

end PutsAll

end Shared

end QuadStor.Lib
