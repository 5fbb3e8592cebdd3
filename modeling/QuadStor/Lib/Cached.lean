import Mathlib.Logic.Basic

/-!
# Objects read in on demand

An object is missing, on disk only, on its way into memory, or in memory. Reading it in does not change
what it is.
-/

namespace QuadStor.Lib

universe u v

inductive Cached (α : Type u) where
  | missing
  | onDisk (a : α)
  | reading (a : α)
  | loaded (a : α)

namespace Cached

inductive State where
  | missing
  | onDisk
  | reading
  | loaded
  deriving DecidableEq, Repr

variable {α : Type u} {x y : Cached α}

def state : Cached α → State
  | .missing => .missing
  | .onDisk _ => .onDisk
  | .reading _ => .reading
  | .loaded _ => .loaded

def content : Cached α → Option α
  | .missing => none
  | .onDisk a | .reading a | .loaded a => some a

def read : Cached α → Cached α
  | .onDisk a => .reading a
  | x => x

def finish : Cached α → Cached α
  | .reading a => .loaded a
  | x => x

def map (f : α → α) : Cached α → Cached α
  | .missing => .missing
  | .onDisk a => .onDisk (f a)
  | .reading a => .reading (f a)
  | .loaded a => .loaded (f a)

def isLoaded (x : Cached α) : Bool := x.state == .loaded

@[simp] theorem content_read : x.read.content = x.content := by
  cases x <;> rfl

@[simp] theorem content_finish : x.finish.content = x.content := by
  cases x <;> rfl

@[simp] theorem content_map {f : α → α} : (x.map f).content = x.content.map f := by
  cases x <;> rfl

theorem isLoaded_read (h : x.isLoaded = true) : x.read.isLoaded = true := by
  cases x <;> simp_all [isLoaded, state, read]

theorem isLoaded_finish (h : x.isLoaded = true) : x.finish.isLoaded = true := by
  cases x <;> simp_all [isLoaded, state, finish]

theorem content_eq_none : x.content = none ↔ x.state = .missing := by
  cases x <;> simp [content, state]

/-! ## Two caches of the same objects

`Ahead` compares the cache of a run with one in which nothing is created: they agree but for objects
that were missing at first.
-/

def Ahead (x y : Cached α) : Prop := x.state = y.state ∨ x.state = .loaded ∧ y.state = .missing

theorem Ahead.refl : Ahead x x := .inl rfl

section

variable (h : Ahead x y)
include h

theorem Ahead.read : Ahead x.read y.read := by
  cases x <;> cases y <;> simp_all [Ahead, Cached.read, state]

theorem Ahead.finish : Ahead x.finish y.finish := by
  cases x <;> cases y <;> simp_all [Ahead, Cached.finish, state]

theorem Ahead.trans {z : Cached α} (h' : Ahead y z) : Ahead x z := by
  obtain heq | ⟨hx, hy⟩ := h
  · rwa [Ahead, heq]
  · obtain heq' | ⟨hy', -⟩ := h'
    · exact .inr ⟨hx, heq'.symm.trans hy⟩
    · rw [hy] at hy'
      cases hy'

theorem Ahead.state_eq (hx : x.state ≠ .loaded) : y.state = x.state := by
  obtain heq | ⟨hloaded, -⟩ := h
  · exact heq.symm
  · exact absurd hloaded hx

theorem Ahead.isLoaded (hx : x.state = .loaded) (hy : y.content ≠ none) : y.isLoaded = true := by
  obtain heq | ⟨-, hmissing⟩ := h
  · simp [Cached.isLoaded, ← heq, hx]
  · exact absurd (content_eq_none.2 hmissing) hy

end

end Cached

end QuadStor.Lib
