import Mathlib.Data.List.Sort

/-!
# Lists kept in order

A list in a strict order takes a new element in front of the first one that is to come after it, and is searched
as far as there.
-/

namespace QuadStor.Lib

open List

variable {α : Type} {r : α → α → Prop} [DecidableRel r] [IsTrans α r] {a : α} {l : List α}

theorem pairwise_orderedInsert (hl : l.Pairwise r) (ha : ∀ b ∈ l, ¬r a b → r b a) :
    (l.orderedInsert r a).Pairwise r := by
  induction l with
  | nil => simp
  | cons b rest ih =>
    obtain ⟨hb, hrest⟩ := pairwise_cons.mp hl
    rw [orderedInsert_cons]
    split_ifs with hab
    · exact pairwise_cons.mpr ⟨forall_mem_cons.2 ⟨hab, fun c hc => IsTrans.trans a b c hab (hb c hc)⟩, hl⟩
    · refine pairwise_cons.mpr ⟨fun c hc => ?_, ih hrest fun c hc => ha c (mem_cons_of_mem _ hc)⟩
      obtain rfl | hc := (mem_orderedInsert r).mp hc
      · exact ha b mem_cons_self hab
      · exact hb c hc

def seek (r : α → α → Prop) [DecidableRel r] [DecidableEq α] (a : α) : List α → Bool
  | [] => false
  | x :: rest => if x = a then true else if r a x then false else seek r a rest

theorem seek_iff [DecidableEq α] [Std.Irrefl r] (hl : l.Pairwise r) : seek r a l = true ↔ a ∈ l := by
  induction l with
  | nil => simp [seek]
  | cons x rest ih =>
    obtain ⟨hx, hrest⟩ := pairwise_cons.mp hl
    unfold seek
    split_ifs with heq hlt
    · simp [heq]
    · refine iff_of_false (by simp) fun hmem => ?_
      obtain rfl | hmem := mem_cons.mp hmem
      · exact heq rfl
      · exact Std.Irrefl.irrefl a (IsTrans.trans a x a hlt (hx a hmem))
    · rw [ih hrest, mem_cons, or_iff_right (Ne.symm heq)]

end QuadStor.Lib
