import QuadStor.AddrMap.Lemmas.Scan

/-!
# A read finds the blocks of the map
-/

namespace QuadStor.AddrMap

open Lib DDTable List

variable {io : Io} {d d' : Tdisk} {prevTable prevAmap amapTable : Option Nat} {lba count i : Nat}
  {found : Found} {blocks : List (Option Block)} {amaps : List (Option Nat)} {founds : List Found}

def Found.Sound (d : Tdisk) (lba : Nat) : Found → Prop
  | .unmapped => d.entry lba = none
  | .deferred => True
  | .amap n => n = QuadStor.amapId lba ∧ d.amapAt n ≠ none

theorem entry_of_amapAt (h : d.amapAt (amapId lba) = none) : d.entry lba = none := by
  rw [Tdisk.entry, h]
  rfl

theorem Found.Sound.grows (hgrows : d.Grows d') (h : found.Sound d lba) : found.Sound d' lba := by
  cases found with
  | unmapped => exact (hgrows.entry lba).trans h
  | deferred => trivial
  | amap n => exact ⟨h.1, hgrows.amapAt_ne_none h.2⟩

theorem getAmap_sound {table table' : Table} {b : Bool} (htable : (d.table (amapTableId lba)).content = some table)
    (h : amapTableGetAmap io table (amapId lba) false = .ok (table', b)) :
    d.Grows (d.setTable (amapTableId lba) (.loaded table')) ∧
      (b = true → (d.setTable (amapTableId lba) (.loaded table')).amapAt (amapId lba) ≠ none) ∧
      (b = false → d.entry lba = none) := by
  obtain ⟨hgrows, hfound, habsent⟩ := amapTableGetAmap_ok h
  refine ⟨grows_setTable htable rfl hgrows, fun hb => ?_, fun hb => entry_of_amapAt ?_⟩
  · rw [amapAt_setTable, if_pos (tableId_amapId _)]
    exact hfound hb
  · rw [Tdisk.amapAt, tableId_amapId, htable]
    exact (habsent hb).2

theorem lbaUnmappedRead_ok (hprev : ∀ n, prevAmap = some n → d.amapAt n ≠ none)
    (h : lbaUnmappedRead io d prevAmap lba = .ok (d', amapTable, found)) : d.Grows d' ∧ found.Sound d' lba := by
  unfold lbaUnmappedRead at h
  split at h
  · cases h
    exact ⟨.refl, trivial⟩
  · rename_i table htable
    split_ifs at h with hsame herr
    · cases h
      exact ⟨.refl, rfl, hprev _ hsame⟩
    · split at h
      · cases h
      · rename_i table' b hget
        obtain ⟨hgrows, hfound, habsent⟩ := getAmap_sound (d := d) (by rw [htable]; rfl) hget
        split_ifs at h with hb <;> cases h
        · exact ⟨hgrows, rfl, hfound hb⟩
        · exact ⟨hgrows, (hgrows.entry lba).trans (habsent (Bool.eq_false_of_not_eq_true hb))⟩
  · cases h
  · cases h

theorem lbaUnmapped_ok (hprev : ∀ n, prevAmap = some n → d.amapAt n ≠ none)
    (h : lbaUnmapped io d prevTable prevAmap lba = .ok (d', amapTable, found)) : d.Grows d' ∧ found.Sound d' lba := by
  unfold lbaUnmapped at h
  by_cases hsame : prevTable = some (amapTableId lba)
  · rw [if_pos hsame] at h
    exact lbaUnmappedRead_ok hprev h
  rw [if_neg hsame] at h
  split at h
  · rename_i htable
    cases h
    refine ⟨.refl, entry_of_amapAt ?_⟩
    rw [Tdisk.amapAt, tableId_amapId, htable]
    rfl
  · rename_i table htable
    split at h
    · cases h
    · rename_i disk hload
      cases h
      exact ⟨(looked_load hload (by rw [htable]; rfl)).grows, trivial⟩
  all_goals exact lbaUnmappedRead_ok hprev h

def ForPages {α : Type} (P : Nat → α → Prop) : Nat → List α → Prop
  | _, [] => True
  | lba, x :: rest => P lba x ∧ ForPages P (lba + 1) rest

theorem ForPages.mono {α : Type} {P Q : Nat → α → Prop} (hpq : ∀ lba x, P lba x → Q lba x) {lba : Nat}
    {list : List α} (h : ForPages P lba list) : ForPages Q lba list := by
  induction list generalizing lba with
  | nil => trivial
  | cons x rest ih => exact ⟨hpq lba x h.1, ih h.2⟩

theorem lookupPages_ok (hprev : ∀ n, prevAmap = some n → d.amapAt n ≠ none)
    (h : lookupPages io count i d prevTable prevAmap lba = .ok (d', founds)) :
    d.Grows d' ∧ founds.length = count ∧ ForPages (fun lba found => found.Sound d' lba) lba founds := by
  induction count generalizing i d prevTable prevAmap lba founds with
  | zero =>
    cases h
    exact ⟨.refl, rfl, trivial⟩
  | succ count ih =>
    rw [lookupPages] at h
    split at h
    · cases h
    · rename_i d₁ amapTable found hlookup
      obtain ⟨hgrows, hsound⟩ := lbaUnmapped_ok (fun n hn => by simpa using hprev n hn) hlookup
      split at h
      · cases h
      · rename_i d₂ rest hrest
        cases h
        have hprev' : ∀ n, found.amapId = some n → d₁.amapAt n ≠ none := by
          intro n hn
          cases found with
          | unmapped | deferred => cases hn
          | amap m =>
            cases hn
            exact hsound.2
        obtain ⟨hgrows', hlength, hall⟩ := ih hprev' hrest
        exact ⟨(grows_arrive.trans hgrows).trans hgrows', by rw [length_cons, hlength], hsound.grows hgrows', hall⟩

def AmapOf (d : Tdisk) (lba : Nat) : Option Nat → Prop
  | none => d.entry lba = none
  | some n => n = amapId lba

theorem checkTableListRead_ok (hall : ForPages (fun lba found => found.Sound d lba) lba founds)
    (h : checkTableListRead io d lba founds = .ok (d', amaps)) :
    d.Grows d' ∧ amaps.length = founds.length ∧ ForPages (AmapOf d') lba amaps := by
  induction founds generalizing d lba amaps with
  | nil =>
    cases h
    exact ⟨.refl, rfl, trivial⟩
  | cons found rest ih =>
    obtain ⟨hsound, hall⟩ := hall
    cases found with
    | deferred =>
      rw [checkTableListRead] at h
      split at h
      · cases h
      · rename_i table htable
        split_ifs at h
        split at h
        · cases h
        · rename_i table' b hget
          obtain ⟨hgrows, hfound, habsent⟩ := getAmap_sound htable hget
          split at h
          · cases h
          · rename_i d₁ amaps' hrest
            cases h
            obtain ⟨hgrows', hlength, hmaps⟩ :=
              ih (hall.mono fun _ _ hs => Found.Sound.grows hgrows hs) hrest
            refine ⟨hgrows.trans hgrows', by rw [length_cons, length_cons, hlength], ?_, hmaps⟩
            cases b with
            | true => exact rfl
            | false => exact ((hgrows.trans hgrows').entry lba).trans (habsent rfl)
    | unmapped =>
      simp only [checkTableListRead] at h
      split at h
      · cases h
      · rename_i d₁ amaps' hrest
        cases h
        obtain ⟨hgrows, hlength, hmaps⟩ := ih hall hrest
        exact ⟨hgrows, by rw [length_cons, length_cons, hlength], (hgrows.entry lba).trans hsound, hmaps⟩
    | amap n =>
      simp only [checkTableListRead] at h
      split at h
      · cases h
      · rename_i d₁ amaps' hrest
        cases h
        obtain ⟨hgrows, hlength, hmaps⟩ := ih hall hrest
        exact ⟨hgrows, by rw [length_cons, length_cons, hlength], hsound.1, hmaps⟩

theorem amapEntries_ok (hall : ForPages (AmapOf d) lba amaps) (h : amapEntries d lba amaps = .ok blocks) :
    blocks = (range amaps.length).map fun i => d.entry (lba + i) := by
  induction amaps generalizing lba blocks with
  | nil =>
    cases h
    rfl
  | cons amap rest ih =>
    obtain ⟨hamap, hall⟩ := hall
    rw [amapEntries] at h
    split at h
    · cases h
    · rename_i block hblock
      split at h
      · cases h
      · rename_i blocks' hrest
        cases h
        have hentry : block = d.entry lba := by
          cases amap with
          | none =>
            cases hblock
            exact hamap.symm
          | some n =>
            obtain rfl : n = amapId lba := hamap
            rw [amapEntry] at hblock
            split at hblock
            · cases hblock
            · rename_i a ha
              split_ifs at hblock
              cases hblock
              rw [Tdisk.entry, ha]
              rfl
        rw [length_cons, range_succ_eq_map, map_cons, map_map, ih hall hrest, hentry]
        simp [Function.comp_def, Nat.add_comm, Nat.add_left_comm]

theorem lookupBlocks_ok (h : lookupBlocks io d lba count = .ok blocks) :
    blocks = (range count).map fun i => d.entry (lba + i) := by
  unfold lookupBlocks at h
  split at h
  · cases h
  · rename_i d₁ founds hlookup
    obtain ⟨hgrows, hlength, hsound⟩ := lookupPages_ok (by simp) hlookup
    split at h
    · cases h
    · rename_i d₂ amaps hcheck
      obtain ⟨hgrows', hlength', hmaps⟩ := checkTableListRead_ok hsound hcheck
      rw [amapEntries_ok hmaps h, hlength', hlength]
      simp only [(hgrows.trans hgrows').entry]

theorem lookupPages_missing (io : Io) : ∀ (count i lba : Nat) {d : Tdisk}, (∀ t, d.table t = .missing) →
    ∃ d', lookupPages io count i d none none lba = .ok (d', replicate count .unmapped)
  | 0, _, _, d, _ => ⟨d, rfl⟩
  | count + 1, i, lba, d, h => by
      have harrive : ∀ t, (d.arrive io i).table t = .missing := by
        intro t
        simp [Tdisk.arrive, h t, Cached.finish]
      obtain ⟨d', hrest⟩ := lookupPages_missing io count (i + 1) (lba + 1) harrive
      exact ⟨d', by simp [lookupPages, lbaUnmapped, harrive, Found.amapId, hrest, replicate_succ]⟩

theorem lookupBlocks_missing (h : ∀ t, d.table t = .missing) :
    lookupBlocks io d lba count = .ok (replicate count none) := by
  have hcheck : ∀ (n lba : Nat) (d : Tdisk), checkTableListRead io d lba (replicate n .unmapped) =
      .ok (d, replicate n none) := by
    intro n
    induction n with
    | zero => exact fun _ _ => rfl
    | succ n ih => simp [replicate_succ, checkTableListRead, ih, Found.amapId]
  have hentries : ∀ (n lba : Nat) (d : Tdisk), amapEntries d lba (replicate n none) =
      .ok (replicate n none) := by
    intro n
    induction n with
    | zero => exact fun _ _ => rfl
    | succ n ih => simp [replicate_succ, amapEntries, amapEntry, ih]
  obtain ⟨d', hlookup⟩ := lookupPages_missing io count 0 lba h
  simp [lookupBlocks, hlookup, hcheck, hentries]

end QuadStor.AddrMap
