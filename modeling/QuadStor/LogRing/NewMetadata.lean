import QuadStor.Lib.Ordered

/-!
# The list of new metadata of a write

A write puts the tables and the maps it has made on a list, in the order in which they are to be logged.
-/

namespace QuadStor.LogRing

open Lib List

/-- An entry by the id of what it was made for, which is found by `iter->block` in the map sync list. -/
inductive IndexInfo where
  | table (id : Nat)
  | amap (id : Nat)
deriving DecidableEq, Repr

@[simp] def Stops : (new iter : IndexInfo) → Prop
  | .table new, .table iter => new < iter
  | .table _, .amap _ => True
  | .amap _, .table _ => False
  | .amap new, .amap iter => new < iter

instance : DecidableRel Stops
  | .table a, .table b => inferInstanceAs (Decidable (a < b))
  | .table _, .amap _ => isTrue trivial
  | .amap _, .table _ => isFalse id
  | .amap a, .amap b => inferInstanceAs (Decidable (a < b))

def NoPrev (new : IndexInfo) (l : List IndexInfo) : Prop := ∃ iter ∈ l.head?, Stops new iter

instance {new : IndexInfo} {l : List IndexInfo} : Decidable (NoPrev new l) :=
  inferInstanceAs (Decidable (∃ iter ∈ l.head?, Stops new iter))

def amapTableIndexInfoInsert (id : Nat) (l : List IndexInfo) : List IndexInfo := l.orderedInsert Stops (.table id)

/-- Without a `prev` the entry goes to the tail. -/
def amapIndexInfoInsert (id : Nat) (l : List IndexInfo) : List IndexInfo :=
  if NoPrev (.amap id) l then l ++ [.amap id] else l.orderedInsert Stops (.amap id)

def insertInfo (l : List IndexInfo) : IndexInfo → List IndexInfo
  | .table id => amapTableIndexInfoInsert id l
  | .amap id => amapIndexInfoInsert id l

def InLogOrder (l : List IndexInfo) : Prop :=
  ∃ tables amaps : List Nat, l = tables.map .table ++ amaps.map .amap ∧ tables.Pairwise (· < ·) ∧ amaps.Pairwise (· < ·)

def Fits : (l news : List IndexInfo) → Prop
  | _, [] => True
  | l, .table id :: rest => Fits (insertInfo l (.table id)) rest
  | l, .amap id :: rest => ¬NoPrev (.amap id) l ∧ Fits (insertInfo l (.amap id)) rest

/-! ## The order as a relation of the entries -/

variable {l news : List IndexInfo} {e : IndexInfo}

instance : IsTrans IndexInfo Stops where
  trans a b c hab hbc := by cases a <;> cases b <;> cases c <;> simp_all <;> omega

theorem stops_of_ne {a b : IndexInfo} (h : a ≠ b) (hab : ¬Stops a b) : Stops b a := by
  cases a <;> cases b <;> simp_all <;> omega

theorem inLogOrder_iff : InLogOrder l ↔ l.Pairwise Stops := by
  constructor
  · rintro ⟨tables, amaps, rfl, htables, hamaps⟩
    simp [pairwise_append, pairwise_map, htables, hamaps]
  · intro h
    induction l with
    | nil => exact ⟨[], [], rfl, .nil, .nil⟩
    | cons e rest ih =>
      obtain ⟨he, hrest⟩ := pairwise_cons.mp h
      obtain ⟨tables, amaps, rfl, htables, hamaps⟩ := ih hrest
      cases e with
      | table id =>
        have hid : ∀ t ∈ tables, id < t := fun t ht => he (.table t) (by simp [ht])
        exact ⟨id :: tables, amaps, rfl, pairwise_cons.mpr ⟨hid, htables⟩, hamaps⟩
      | amap id =>
        cases tables with
        | nil =>
          have hid : ∀ m ∈ amaps, id < m := fun m hm => he (.amap m) (by simp [hm])
          exact ⟨[], id :: amaps, rfl, .nil, pairwise_cons.mpr ⟨hid, hamaps⟩⟩
        | cons t _ => exact (he (.table t) (by simp)).elim

theorem sublist_insertInfo : l.Sublist (insertInfo l e) := by
  cases e with
  | table id => exact sublist_orderedInsert _ _
  | amap id =>
    simp only [insertInfo, amapIndexInfoInsert]
    split_ifs
    · exact sublist_append_left _ _
    · exact sublist_orderedInsert _ _

theorem mem_insertInfo {x : IndexInfo} : x ∈ insertInfo l e ↔ x = e ∨ x ∈ l := by
  cases e with
  | table id => simp [insertInfo, amapTableIndexInfoInsert]
  | amap id =>
    simp only [insertInfo, amapIndexInfoInsert]
    split_ifs
    · simp [or_comm]
    · simp

theorem sublist_foldl : l.Sublist (news.foldl insertInfo l) := by
  induction news generalizing l with
  | nil => exact .refl _
  | cons e rest ih => exact sublist_insertInfo.trans ih

theorem not_pairwise_of_noPrev {id : Nat} (h : NoPrev (.amap id) l) : ¬((insertInfo l (.amap id)).Pairwise Stops) := by
  obtain ⟨iter, hiter, hstops⟩ := h
  intro hpairs
  have hlist : insertInfo l (.amap id) = l ++ [.amap id] := if_pos ⟨iter, hiter, hstops⟩
  rw [hlist] at hpairs
  have hback : Stops iter (.amap id) :=
    (pairwise_append.mp hpairs).2.2 iter (mem_of_mem_head? hiter) _ (mem_singleton_self _)
  cases iter with
  | table t => exact hstops
  | amap m => exact Nat.lt_asymm hstops hback

theorem pairwise_insertInfo (hl : l.Pairwise Stops) (he : e ∉ l) (hprev : ∀ id, e = .amap id → ¬NoPrev e l) :
    (insertInfo l e).Pairwise Stops := by
  have hordered := pairwise_orderedInsert hl fun b hb => stops_of_ne (a := e) (by rintro rfl; exact he hb)
  cases e with
  | table id => exact hordered
  | amap id =>
    rw [insertInfo, amapIndexInfoInsert, if_neg (hprev id rfl)]
    exact hordered

theorem pairwise_foldl_iff (hnodup : news.Nodup) (hnew : ∀ e ∈ news, e ∉ l) (hl : l.Pairwise Stops) :
    (news.foldl insertInfo l).Pairwise Stops ↔ Fits l news := by
  induction news generalizing l with
  | nil => exact iff_of_true hl trivial
  | cons e rest ih =>
    obtain ⟨he, hnodup⟩ := nodup_cons.mp hnodup
    have hgo : (∀ id, e = .amap id → ¬NoPrev e l) →
        ((rest.foldl insertInfo (insertInfo l e)).Pairwise Stops ↔ Fits (insertInfo l e) rest) := fun hprev => by
      refine ih hnodup (fun x hx hmem => ?_) (pairwise_insertInfo hl (hnew e mem_cons_self) hprev)
      obtain rfl | hmem := mem_insertInfo.1 hmem
      · exact he hx
      · exact hnew x (mem_cons_of_mem _ hx) hmem
    cases e with
    | table id => exact hgo nofun
    | amap id =>
      by_cases hprev : NoPrev (.amap id) l
      · exact iff_of_false (fun h => not_pairwise_of_noPrev hprev (h.sublist sublist_foldl)) fun h => h.1 hprev
      · simpa [Fits, hprev] using hgo fun _ _ => hprev

/-- New entries stand in the order of the log just if no map meets a list that begins with a map of a larger id. -/
theorem new_metadata_in_order_iff (news : List IndexInfo) (hnodup : news.Nodup) :
    InLogOrder (news.foldl insertInfo []) ↔ Fits [] news := by
  rw [inLogOrder_iff]
  exact pairwise_foldl_iff hnodup (by simp) .nil

theorem new_metadata_in_order_mixed :
    InLogOrder ([.amap 1, .table 2, .amap 5, .amap 3, .table 1].foldl insertInfo []) :=
  (new_metadata_in_order_iff _ (by decide)).2 ⟨by decide, by decide, by decide, trivial⟩

theorem smaller_map_behind : ¬InLogOrder ([.amap 2, .amap 1].foldl insertInfo []) := by
  rw [inLogOrder_iff]
  decide

end QuadStor.LogRing
