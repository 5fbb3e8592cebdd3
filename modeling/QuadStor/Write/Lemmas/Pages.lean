import Mathlib.Data.List.Nodup
import QuadStor.Write.Basic
import QuadStor.Bint.Lemmas.Runs
import QuadStor.Bint.Batch

/-!
# The pages of a write and the references they have
-/

namespace QuadStor.Write

open Lib Bint DDTable List

variable {pages : List Page} {p q : Page}
  {f : Page → Page} {g : Block → Nat} {placed : List Placed} {lba : Nat} {row : Row}

theorem map_lba_updatePage (hf : ∀ p, (f p).lba = p.lba) :
    (updatePage pages lba f).map Page.lba = pages.map Page.lba := by
  simp only [updatePage, map_map]
  refine map_congr_left fun q _ => ?_
  simp only [Function.comp]
  split
  · exact hf q
  · rfl

theorem mem_updatePage (h : q ∈ updatePage pages lba f) :
    (∃ p ∈ pages, p.lba = lba ∧ q = f p) ∨ (q ∈ pages ∧ q.lba ≠ lba) := by
  simp only [updatePage, List.mem_map] at h
  obtain ⟨p, hp, rfl⟩ := h
  split
  · exact .inl ⟨p, hp, by assumption, rfl⟩
  · exact .inr ⟨hp, by assumption⟩

theorem mem_updatePage_of_ne (hp : p ∈ pages) (hne : p.lba ≠ lba) : p ∈ updatePage pages lba f :=
  List.mem_map.mpr ⟨p, hp, if_neg hne⟩

theorem updatePage_of_not_mem (h : ∀ p ∈ pages, p.lba ≠ lba) : updatePage pages lba f = pages := by
  refine (map_congr_left fun q hq => ?_).trans (map_id _)
  simp [h q hq]

theorem eq_of_lba_eq (hnodup : (pages.map Page.lba).Nodup) (hp : p ∈ pages) (hq : q ∈ pages)
    (h : p.lba = q.lba) : p = q :=
  inj_on_of_nodup_map hnodup hp hq h

def Page.value (g : Block → Nat) (p : Page) : Nat := (p.holds.map g).getD 0

@[simp] theorem heldSum_cons : heldSum g (p :: pages) = p.value g + heldSum g pages := rfl

theorem Page.value_none (h : p.holds = none) : p.value g = 0 := by
  simp [Page.value, h]

theorem Page.value_some {b : Block} (h : p.holds = some b) : p.value g = g b := by
  simp [Page.value, h]

theorem heldSum_updatePage (hnodup : (pages.map Page.lba).Nodup) (hp : p ∈ pages) :
    heldSum g (updatePage pages p.lba f) + p.value g = heldSum g pages + (f p).value g := by
  induction pages with
  | nil => cases hp
  | cons q rest ih =>
    rw [map_cons, nodup_cons] at hnodup
    obtain ⟨hnot, hrest⟩ := hnodup
    have hcons : updatePage (q :: rest) p.lba f = (if q.lba = p.lba then f q else q) :: updatePage rest p.lba f := rfl
    by_cases hq : q.lba = p.lba
    · have hne : ∀ a ∈ rest, a.lba ≠ p.lba :=
        fun a ha heq => hnot (List.mem_map.mpr ⟨a, ha, heq.trans hq.symm⟩)
      have hpq : p = q := by
        rcases mem_cons.mp hp with rfl | hp
        · rfl
        · exact absurd rfl (hne p hp)
      rw [hcons, if_pos hq, updatePage_of_not_mem hne, heldSum_cons, heldSum_cons, hpq]
      omega
    · have hp : p ∈ rest := by
        rcases mem_cons.mp hp with rfl | hp
        · exact absurd rfl hq
        · exact hp
      have := ih hrest hp
      rw [hcons, if_neg hq, heldSum_cons, heldSum_cons]
      omega

theorem value_le_heldSum (hp : p ∈ pages) : p.value g ≤ heldSum g pages := by
  induction pages with
  | nil => cases hp
  | cons q rest ih =>
    rw [heldSum_cons]
    rcases mem_cons.mp hp with rfl | hp
    · omega
    · have := ih hp
      omega

theorem holds_of_waits {s : State} (h : s.Waits p) : p.holds = none := by
  obtain ⟨-, hdup, halloc, -⟩ := h
  simp [Page.holds, hdup, halloc]

theorem accountPlaced_apply {κ : Type} [DecidableEq κ] {ms : Nat} {row : κ} {σ : Store κ}
    {r : Run κ} : accountPlaced ms row σ placed r =
      σ r + placed.countP fun p => blockRun ms row p.start p.size = r := by
  induction placed generalizing σ with
  | nil => rfl
  | cons p rest ih =>
    have hcons : accountPlaced ms row σ (p :: rest) =
        accountPlaced ms row (Function.update σ (blockRun ms row p.start p.size)
          (σ (blockRun ms row p.start p.size) + 1)) rest := rfl
    rw [hcons, ih, countP_cons]
    by_cases hr : blockRun ms row p.start p.size = r
    · subst hr
      simp
      omega
    · simp [hr, Function.update_of_ne (Ne.symm hr)]

theorem map_lba_placePages : (placePages row placed pages).map Page.lba = pages.map Page.lba := by
  induction placed generalizing pages with
  | nil => rfl
  | cons pl rest ih =>
    exact ih.trans (map_lba_updatePage (f := Page.placed row pl) fun _ => rfl)

theorem forall_placePages {P : Page → Prop}
    (hP : ∀ pl ∈ placed, ∀ p, p.lba = pl.pgdata.lba → P p → P (Page.placed row pl p))
    (h : ∀ p ∈ pages, P p) : ∀ q ∈ placePages row placed pages, P q := by
  induction placed generalizing pages with
  | nil => exact h
  | cons pl rest ih =>
    refine ih (fun pl' hpl' => hP pl' (mem_cons_of_mem _ hpl')) fun q hq => ?_
    rcases mem_updatePage hq with ⟨p, hp, hlba, rfl⟩ | ⟨hq, -⟩
    · exact hP pl mem_cons_self p hlba (h p hp)
    · exact h q hq

theorem heldSum_placePages (hnodup : (pages.map Page.lba).Nodup) (hdist : (placed.map fun pl => pl.pgdata.lba).Nodup)
    (hwait : ∀ pl ∈ placed, ∃ p ∈ pages, p.lba = pl.pgdata.lba ∧ p.holds = none) :
    heldSum g (placePages row placed pages) =
      heldSum g pages + (placed.map fun pl => g ⟨row.1, row.2, pl.start, pl.size⟩).sum := by
  induction placed generalizing pages with
  | nil => simp [placePages]
  | cons pl rest ih =>
    rw [map_cons, nodup_cons] at hdist
    obtain ⟨hnot, hdist⟩ := hdist
    obtain ⟨p, hp, hlba, hnone⟩ := hwait pl mem_cons_self
    have hone := heldSum_updatePage (g := g) (f := Page.placed row pl) hnodup hp
    have hval : (Page.placed row pl p).value g = g ⟨row.1, row.2, pl.start, pl.size⟩ :=
      Page.value_some (by simp [Page.holds, Page.placed])
    rw [Page.value_none hnone, hval, hlba] at hone
    rw [placePages, foldl_cons, ← placePages, ih]
    · rw [map_cons, sum_cons]
      omega
    · rw [map_lba_updatePage (f := Page.placed row pl) fun _ => rfl]
      exact hnodup
    · exact hdist
    · intro pl' hpl'
      obtain ⟨q, hq, hqlba, hqnone⟩ := hwait pl' (mem_cons_of_mem _ hpl')
      have hne : q.lba ≠ pl.pgdata.lba := by
        intro heq
        exact hnot (List.mem_map.mpr ⟨pl', hpl', hqlba.symm.trans heq⟩)
      exact ⟨q, mem_updatePage_of_ne hq hne, hqlba, hqnone⟩

end QuadStor.Write
