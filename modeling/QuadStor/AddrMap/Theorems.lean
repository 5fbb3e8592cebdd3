import QuadStor.AddrMap.Lemmas.Runs

/-!
# What a write leaves in the map
-/

namespace QuadStor.AddrMap

open Lib DDTable List

variable {io : Io} {d d' : Tdisk} {pages : List Page} {lba n i : Nat} {l : List AmapSync} {s : AmapSync}

theorem entries_update {a : Amap} {p : Pgdata} :
    (a.update p).entries n = if n = p.lba then p.page.block else a.entries n := by
  unfold Amap.update
  split_ifs with hnone hn
  · rw [hn, hnone.1, hnone.2]
  · rfl
  · simp [*]
  · simp [*]

theorem entries_foldl_update (n : Nat) (a : Amap) (list : List Pgdata) :
    (∃ q ∈ list, q.lba = n ∧ (list.foldl Amap.update a).entries n = q.page.block) ∨
      (∀ q ∈ list, q.lba ≠ n) ∧ (list.foldl Amap.update a).entries n = a.entries n := by
  induction list generalizing a with
  | nil => exact .inr ⟨by simp, rfl⟩
  | cons p rest ih =>
    obtain ⟨q, hq, hlba, heq⟩ | ⟨hnone, heq⟩ := ih (a := a.update p)
    · exact .inl ⟨q, mem_cons_of_mem p hq, hlba, heq⟩
    · rw [entries_update] at heq
      by_cases hn : n = p.lba
      · rw [if_pos hn] at heq
        exact .inl ⟨p, mem_cons_self, hn.symm, heq⟩
      · rw [if_neg hn] at heq
        exact .inr ⟨forall_mem_cons.mpr ⟨Ne.symm hn, hnone⟩, heq⟩

theorem amapAt_amapIo : (amapIo d s).amapAt n = if n = s.amapId
      then (d.amapAt n).map fun a => s.pgdataList.foldl Amap.update a else d.amapAt n := by
  rw [amapIo, amapAt_setTable]
  by_cases ht : tableId n = tableId s.amapId
  · rw [if_pos ht, Cached.content_map, Tdisk.amapAt, ht]
    cases (d.table (tableId s.amapId)).content with
    | none => simp
    | some table =>
      by_cases hn : n = s.amapId
      · simp [hn]
      · simp [hn, setAmap_of_ne hn]
  · have hn : n ≠ s.amapId := fun hn => ht (by rw [hn])
    rw [if_neg ht, if_neg hn]

theorem ListOk.amapIo (h : ListOk d l) : ListOk (amapIo d s) l := by
  intro a ha
  refine ⟨?_, (h a ha).2⟩
  rw [amapAt_amapIo]
  split_ifs
  · simpa using (h a ha).1
  · exact (h a ha).1

theorem entry_foldl_amapIo (h : ListOk d l) :
    (∃ q, Synced l q ∧ q.lba = n ∧ (l.foldl amapIo d).entry n = q.page.block) ∨
      (∀ q, Synced l q → q.lba ≠ n) ∧ (l.foldl amapIo d).entry n = d.entry n := by
  induction l generalizing d with
  | nil => exact .inr ⟨fun q hq => by simp [Synced] at hq, rfl⟩
  | cons a rest ih =>
    obtain ⟨⟨hmap, hown⟩, hrest⟩ := forall_mem_cons.mp h
    obtain ⟨q, hq, hlba, heq⟩ | ⟨hnone, heq⟩ := ih (d := amapIo d a) (ListOk.amapIo hrest)
    · exact .inl ⟨q, synced_cons.2 (.inr hq), hlba, heq⟩
    · have hentry : (List.foldl amapIo d (a :: rest)).entry n =
          (if amapId n = a.amapId then (d.amapAt (amapId n)).map fun m => a.pgdataList.foldl Amap.update m
            else d.amapAt (amapId n)).bind fun m => m.entries n := by
        rw [foldl_cons, heq, Tdisk.entry, amapAt_amapIo]
      by_cases hid : amapId n = a.amapId
      · obtain ⟨m, hm⟩ := Option.ne_none_iff_exists'.mp hmap
        rw [if_pos hid, hid, hm] at hentry
        obtain ⟨q, hq, hlba, heq'⟩ | ⟨hnone', heq'⟩ := entries_foldl_update n m a.pgdataList
        · exact .inl ⟨q, synced_cons.2 (.inl hq), hlba, hentry.trans heq'⟩
        · refine .inr ⟨fun q hq => (synced_cons.1 hq).elim (hnone' q) (hnone q), hentry.trans ?_⟩
          rw [Tdisk.entry, hid, hm]
          exact heq'
      · rw [if_neg hid] at hentry
        refine .inr ⟨fun q hq => ?_, hentry⟩
        obtain hq | hq := synced_cons.1 hq
        · rintro rfl
          exact hid (hown q hq)
        · exact hnone q hq

theorem writeMap_ok (hrun : writeMap io d lba pages = .ok d') :
    ∃ d₁ l, scanWriteData io d lba pages = .ok (d₁, l) ∧ d' = l.foldl amapIo d₁ := by
  unfold writeMap at hrun
  split at hrun
  · cases hrun
  · rename_i d₁ l hscan
    unfold pgdataAmapIo at hrun
    split_ifs at hrun
    cases hrun
    exact ⟨d₁, l, hscan, rfl⟩

theorem amapAt_of_entry (h : d.entry n ≠ none) : d.amapAt (amapId n) ≠ none := by
  intro hnone
  rw [Tdisk.entry, hnone] at h
  exact h rfl

theorem zero_of_not_lookedUp {page : Page} (hpage : pages[i]? = some page)
    (h : ¬ LookedUp lba pages i) : page.zero = true := by
  by_contra hzero
  exact h (.inr (.inr ⟨page, hpage, Bool.eq_false_of_not_eq_true hzero⟩))

theorem entry_writeMap (hrun : writeMap io d lba pages = .ok d') : (∀ i page, pages[i]? = some page →
      (Lost io d lba pages i → d'.entry (lba + i) = d.entry (lba + i)) ∧
        (¬ Lost io d lba pages i → d'.entry (lba + i) = page.block)) ∧
      ∀ n, n < lba ∨ lba + pages.length ≤ n → d'.entry n = d.entry n := by
  obtain ⟨d₁, l, hscan, rfl⟩ := writeMap_ok hrun
  obtain ⟨hgrows, hlistOk, hlisted, hpages⟩ := scanWriteData_ok hscan
  have hentry := hgrows.entry
  refine ⟨fun i page hpage => ?_, fun n hn => ?_⟩
  · obtain ⟨hdata, hmapped⟩ := hpages i page hpage
    obtain ⟨q, hq, hlba, heq⟩ | ⟨hnone, hold⟩ := entry_foldl_amapIo (n := lba + i) hlistOk
    · obtain ⟨j, page', hpage', rfl⟩ := hlisted q hq
      obtain rfl : j = i := Nat.add_left_cancel hlba
      obtain rfl : page' = page := Option.some.inj (hpage'.symm.trans hpage)
      refine ⟨fun hlost => ?_, fun _ => heq⟩
      -- listed and lost: there is no map, so there was no entry, and a zero page makes none
      have hmap := not_not.mp fun hmap => (hmapped hmap).mp hq hlost
      have hold : d.entry (lba + j) = none := by rw [Tdisk.entry, hmap]; rfl
      rw [heq, hold, page'.zero_block (zero_of_not_lookedUp hpage hlost.1)]
    · rw [hold, hentry]
      refine ⟨fun _ => rfl, fun hkept => ?_⟩
      have hout : ¬ Synced l ⟨lba + i, page⟩ := fun hs => hnone _ hs rfl
      have hzero : page.zero = true := by
        by_contra hzero
        exact hout (hdata (Bool.eq_false_of_not_eq_true hzero))
      rw [page.zero_block hzero]
      by_contra hblock
      exact hout ((hmapped (amapAt_of_entry hblock)).mpr hkept)
  · obtain ⟨q, hq, hlba, -⟩ | ⟨-, hold⟩ := entry_foldl_amapIo (n := n) hlistOk
    · obtain ⟨j, page, hpage, rfl⟩ := hlisted q hq
      have := (List.getElem?_eq_some_iff.mp hpage).1
      simp only at hlba
      omega
    · rw [hold, hentry]

/-- A write that completes reaches the map in full exactly if no page that has a block is lost. -/
theorem write_reaches_map (hrun : writeMap io d lba pages = .ok d') :
    InFull d d' lba pages ↔ ZeroesFollowMap io d lba pages := by
  obtain ⟨hpages, hothers⟩ := entry_writeMap hrun
  constructor
  · intro hfull i hi hnot hblock
    by_contra hunseen
    obtain ⟨page, hpage⟩ : ∃ page, pages[i]? = some page := ⟨pages[i], getElem?_eq_getElem hi⟩
    have hkept : d'.entry (lba + i) = d.entry (lba + i) := (hpages i page hpage).1 ⟨hnot, hunseen⟩
    rw [hfull.written i page hpage, page.zero_block (zero_of_not_lookedUp hpage hnot)] at hkept
    exact hblock hkept.symm
  · intro hfollow
    refine ⟨fun i page hpage => ?_, hothers⟩
    by_cases hlost : Lost io d lba pages i
    · have hblock := not_not.mp fun hblock =>
        hlost.2 (hfollow i (List.getElem?_eq_some_iff.mp hpage).1 hlost.1 hblock)
      rw [(hpages i page hpage).1 hlost, hblock, page.zero_block (zero_of_not_lookedUp hpage hlost.1)]
    · exact (hpages i page hpage).2 hlost

theorem exists_first_page (h : ¬ LookedUp lba pages i) :
    ∃ j < i, amapId (lba + j) = amapId (lba + i) ∧ LookedUp lba pages j := by
  induction i with
  | zero => exact absurd (.inl rfl) h
  | succ i ih =>
    have hsame : amapId (lba + i) = amapId (lba + (i + 1)) := by
      simp only [LookedUp, not_or, not_not] at h
      exact h.2.1.symm
    by_cases hi : LookedUp lba pages i
    · exact ⟨i, Nat.lt_succ_self i, hsame, hi⟩
    · obtain ⟨j, hj, hmap, hlooked⟩ := ih hi
      exact ⟨j, Nat.lt_succ_of_lt hj, hmap.trans hsame, hlooked⟩

theorem zeroesFollowMap_of_loaded (h : ∀ i, i < pages.length → (d.table (amapTableId (lba + i))).isLoaded = true) :
    ZeroesFollowMap io d lba pages := by
  intro i hi hnot _
  obtain ⟨j, hj, hmap, hlooked⟩ := exists_first_page hnot
  exact ⟨j, hj, hmap, hlooked, isLoaded_tablesAt (Nat.zero_le j) (isLoaded_arrive (h j (by omega)))⟩

def block (entry : Nat) : Block := ⟨1, 0, entry, 4096⟩

def oneTable : Table :=
  ⟨false, fun n => if n = 0 then .onDisk ⟨false, fun lba => if lba = 1 then some (block 0) else none⟩
    else .missing⟩

def oneTdisk (table : Cached Table) : Tdisk := ⟨1, fun t => if t = 0 then table else .missing⟩

def slowIo : Io := ⟨fun _ _ => false, fun _ => true, fun _ => true, fun _ => none, fun _ => none⟩

def dataPage : Page := ⟨false, some (block 1), by simp⟩

def zeroPage : Page := ⟨true, none, fun _ => rfl⟩

/-- Data for page 0, zeroes for page 1, and the table on disk: page 1 keeps its block. -/
theorem zero_page_lost : ∃ d', writeMap slowIo (oneTdisk (.onDisk oneTable)) 0 [dataPage, zeroPage] = .ok d' ∧
      d'.entry 1 = some (block 0) ∧ zeroPage.block = none :=
  ⟨_, rfl, rfl, rfl⟩

theorem write_reaches_map_loaded : ∃ d', writeMap slowIo (oneTdisk (.loaded oneTable)) 0 [dataPage, zeroPage] = .ok d' ∧
      InFull (oneTdisk (.loaded oneTable)) d' 0 [dataPage, zeroPage] := by
  have hfollow : ZeroesFollowMap slowIo (oneTdisk (.loaded oneTable)) 0 [dataPage, zeroPage] := by
    refine zeroesFollowMap_of_loaded ?_
    decide
  exact ⟨_, rfl, (write_reaches_map rfl).mpr hfollow⟩

end QuadStor.AddrMap
