import QuadStor.AddrMap.Lemmas.Scan

/-!
# The scan of a write
-/

namespace QuadStor.AddrMap

open Lib DDTable List

variable {io : Io} {d d' : Tdisk} {s s' : Scan} {q p : Pgdata} {page : Page} {pages rest : List Page}
  {n lba k t : Nat} {l l' : List AmapSync}

def Scan.Listed (s : Scan) (q : Pgdata) : Prop := q ∈ s.tableList ∨ Synced s.amapSyncList q

def Scan.arrive (io : Io) (s : Scan) (i : Nat) : Scan := { s with disk := s.disk.arrive io i }

def Lost (io : Io) (d : Tdisk) (lba : Nat) (pages : List Page) (i : Nat) : Prop :=
  ¬ LookedUp lba pages i ∧ ¬ MapSeen io d lba pages i (amapId (lba + i))

/-- The scan before page `k`. Of the pages whose map was there from the start, those listed are not lost. -/
structure Scan.Ok (io : Io) (d : Tdisk) (lba : Nat) (pages : List Page) (k : Nat) (s : Scan) : Prop where
  grows : d.Grows s.disk
  max : s.disk.amapTableMax = (tablesAt io d lba k).amapTableMax
  ahead : ∀ t, (s.disk.table t).Ahead ((tablesAt io d lba k).table t)
  touched : 0 < k → (s.disk.table (amapTableId (lba + k - 1))).state ≠ .onDisk
  there : ∀ n, s.amap = some n → s.disk.amapAt n ≠ none
  seen : 0 < k → d.amapAt (amapId (lba + k - 1)) ≠ none →
    (s.amap ≠ none ↔ MapSeen io d lba pages k (amapId (lba + k - 1)))
  listOk : ListOk s.disk s.amapSyncList
  listed : ∀ q, s.Listed q → ∃ j < k, ∃ page, pages[j]? = some page ∧ q = ⟨lba + j, page⟩
  mapped : ∀ j page, j < k → pages[j]? = some page → d.amapAt (amapId (lba + j)) ≠ none →
    (s.Listed ⟨lba + j, page⟩ ↔ ¬ Lost io d lba pages j)
  data : ∀ j page, j < k → pages[j]? = some page → page.zero = false → s.Listed ⟨lba + j, page⟩

theorem mapSeen_succ : MapSeen io d lba pages (k + 1) n ↔ MapSeen io d lba pages k n ∨
      amapId (lba + k) = n ∧ LookedUp lba pages k ∧ tableReady io d lba k = true := by
  constructor
  · rintro ⟨j, hj, hrest⟩
    obtain hlt | rfl := Nat.lt_succ_iff_lt_or_eq.mp hj
    · exact .inl ⟨j, hlt, hrest⟩
    · exact .inr hrest
  · rintro (⟨j, hj, hrest⟩ | hrest)
    · exact ⟨j, Nat.lt_succ_of_lt hj, hrest⟩
    · exact ⟨k, Nat.lt_succ_self k, hrest⟩

/-- A map that was there from the start, with its table not in memory at page `k`, has not been seen. -/
theorem Scan.Ok.not_seen (h : s.Ok io d lba pages k) (hn : amapId (lba + k) = n)
    (hstate : (s.disk.table (amapTableId (lba + k))).state = .onDisk ∨
      (s.disk.table (amapTableId (lba + k))).state = .reading) : ¬ MapSeen io d lba pages (k + 1) n := by
  rintro ⟨j, hj, hmap, -, hready⟩
  have htable : amapTableId (lba + j) = amapTableId (lba + k) := by
    rw [← tableId_amapId, ← tableId_amapId, hmap, hn]
  rw [tableReady, htable] at hready
  have hloaded := isLoaded_tablesAt (Nat.le_of_lt_succ hj) hready
  have heq : ((tablesAt io d lba k).table (amapTableId (lba + k))).state =
      (s.disk.table (amapTableId (lba + k))).state :=
    (h.ahead _).state_eq (by obtain hs | hs := hstate <;> simp [hs])
  rw [Cached.isLoaded, heq] at hloaded
  obtain hs | hs := hstate <;> simp [hs] at hloaded

theorem Scan.Ok.ready (h : s.Ok io d lba pages k) (hmap : d.amapAt (amapId (lba + k)) ≠ none)
    (hstate : (s.disk.table (amapTableId (lba + k))).state = .loaded ∨
      (s.disk.table (amapTableId (lba + k))).state = .missing) : tableReady io d lba k = true := by
  have hcontent : (d.table (amapTableId (lba + k))).content ≠ none := by
    intro hnone
    rw [Tdisk.amapAt, tableId_amapId, hnone] at hmap
    exact hmap rfl
  obtain hs | hs := hstate
  · exact (h.ahead _).isLoaded hs (by rwa [content_tablesAt])
  · have hmissing : ((tablesAt io d lba k).table (amapTableId (lba + k))).state = .missing := by
      rw [(h.ahead _).state_eq (by simp [hs]), hs]
    rw [← Cached.content_eq_none, content_tablesAt] at hmissing
    exact absurd hmissing hcontent

theorem skips_iff (hpage : pages[k]? = some page) :
    s.skips k ⟨lba + k, page⟩ = true ↔ ¬ LookedUp lba pages k ∧ s.amap = none := by
  simp only [Scan.skips, LookedUp, hpage, Option.some.injEq, Bool.and_eq_true, bne_iff_ne, ne_eq,
    Option.isNone_iff_eq_none, beq_iff_eq, not_or, not_exists, not_and, not_not, Bool.not_eq_false,
    forall_eq']
  tauto

theorem Looked.touched (h : Looked io t d d') : (d'.table t).state ≠ .onDisk := by
  by_cases hstate : (d.table t).state = .onDisk
  · have htable := (amapTableLoadAsync_ok (h.load hstate)).2 t
    rw [htable]
    cases hx : d.table t <;> simp [Cached.read, Cached.state]
  · obtain heq | ⟨hloaded, -⟩ := h.keep hstate t
    · rwa [heq]
    · simp [hloaded]

theorem state_arrive {i : Nat} (h : (d.table t).state ≠ .onDisk) : ((d.arrive io i).table t).state ≠ .onDisk := by
  rw [arrive_table]
  split_ifs
  · cases hx : d.table t <;> simp_all [Cached.finish, Cached.state]
  · exact h

section

variable (h : s.Ok io d lba pages k)
include h

theorem Scan.Ok.next (hpage : pages[k]? = some page)
    (hlooked : Looked io (amapTableId (lba + k)) s.disk s'.disk)
    (hthere : ∀ n, s'.amap = some n → s'.disk.amapAt n ≠ none) (hseen : d.amapAt (amapId (lba + k)) ≠ none →
      (s'.amap ≠ none ↔ MapSeen io d lba pages (k + 1) (amapId (lba + k)))) (hlistOk : ListOk s'.disk s'.amapSyncList)
    (hlisted : ∀ q, s'.Listed q ↔ s.Listed q ∨ s'.Listed ⟨lba + k, page⟩ ∧ q = ⟨lba + k, page⟩)
    (hmapped : d.amapAt (amapId (lba + k)) ≠ none →
      (s'.Listed ⟨lba + k, page⟩ ↔ ¬ Lost io d lba pages k)) (hdata : page.zero = false → s'.Listed ⟨lba + k, page⟩) :
    (s'.arrive io (k + 1)).Ok io d lba pages (k + 1) := by
  obtain ⟨hmax, hahead⟩ := hlooked.ahead h.max h.ahead
  have hold : ∀ j page', j < k → (s'.Listed ⟨lba + j, page'⟩ ↔ s.Listed ⟨lba + j, page'⟩) := by
    intro j page' hj
    rw [hlisted]
    refine or_iff_left ?_
    rintro ⟨-, heq⟩
    have := congrArg Pgdata.lba heq
    simp only at this
    omega
  refine ⟨(h.grows.trans hlooked.grows).trans grows_arrive, hmax, ahead_arrive hahead, fun _ => ?_,
    fun n hn => ?_, fun _ => hseen, fun a ha => ?_, fun q hq => ?_, fun j page' hj hpage' => ?_,
    fun j page' hj hpage' => ?_⟩
  · exact state_arrive hlooked.touched
  · rw [Scan.arrive, amapAt_arrive]
    exact hthere n hn
  · rw [Scan.arrive, amapAt_arrive]
    exact hlistOk a ha
  · obtain hq | ⟨-, rfl⟩ := (hlisted q).mp hq
    · obtain ⟨j, hj, hrest⟩ := h.listed q hq
      exact ⟨j, Nat.lt_succ_of_lt hj, hrest⟩
    · exact ⟨k, Nat.lt_succ_self k, page, hpage, rfl⟩
  · obtain hlt | rfl := Nat.lt_succ_iff_lt_or_eq.mp hj
    · exact fun hmap => (hold j page' hlt).trans (h.mapped j page' hlt hpage' hmap)
    · cases hpage'.symm.trans hpage
      exact hmapped
  · obtain hlt | rfl := Nat.lt_succ_iff_lt_or_eq.mp hj
    · exact fun hzero => (hold j page' hlt).mpr (h.data j page' hlt hpage' hzero)
    · cases hpage'.symm.trans hpage
      exact hdata

theorem Scan.Ok.not_listed (page : Page) : ¬ s.Listed ⟨lba + k, page⟩ := by
  intro hlisted
  obtain ⟨j, hj, page', -, heq⟩ := h.listed _ hlisted
  have := congrArg Pgdata.lba heq
  simp only at this
  omega

theorem Scan.Ok.skip (hpage : pages[k]? = some page)
    (hskip : s.skips k ⟨lba + k, page⟩ = true) : (s.arrive io (k + 1)).Ok io d lba pages (k + 1) := by
  obtain ⟨hlooked, hamap⟩ := (skips_iff hpage).mp hskip
  obtain ⟨hpos, hsame, hzero⟩ : 0 < k ∧ amapId (lba + k) = amapId (lba + k - 1) ∧ page.zero = true := by
    simp only [LookedUp, not_or, not_not] at hlooked
    refine ⟨Nat.pos_of_ne_zero hlooked.1, hlooked.2.1, ?_⟩
    by_contra hzero
    exact hlooked.2.2 ⟨page, hpage, Bool.eq_false_of_not_eq_true hzero⟩
  have hstate : (s.disk.table (amapTableId (lba + k))).state ≠ .onDisk := by
    rw [← tableId_amapId, hsame, tableId_amapId]
    exact h.touched hpos
  -- the page before was left without a map, so the map has not been seen
  have hseen : d.amapAt (amapId (lba + k)) ≠ none → ¬ MapSeen io d lba pages k (amapId (lba + k)) := by
    intro hmap
    rw [hsame] at hmap ⊢
    exact fun hs => (h.seen hpos hmap).mpr hs hamap
  refine h.next hpage (.refl hstate) h.there (fun hmap => ?_) h.listOk (fun q => ?_)
    (fun hmap => ?_) (fun hz => by simp [hzero] at hz)
  · rw [mapSeen_succ]
    simp [hamap, hseen hmap, hlooked]
  · simp [h.not_listed page]
  · simp [h.not_listed page, Lost, hlooked, hseen hmap]

end

theorem listed_defer : (Scan.defer { s with disk := d } p).Listed q ↔ s.Listed q ∨ q = p := by
  simp only [Scan.Listed, Scan.defer, mem_append, mem_singleton]
  tauto

theorem listed_take : (Scan.take { s with disk := d } p).Listed q ↔ s.Listed q ∨ q = p := by
  simp only [Scan.Listed, Scan.take, synced_amapCheckSyncList]
  tauto

theorem Scan.Ok.lookup (h : s.Ok io d lba pages k) (hpage : pages[k]? = some page)
    (hskip : s.skips k ⟨lba + k, page⟩ ≠ true) (hrun : lbaUnmappedWrite io s ⟨lba + k, page⟩ = .ok s') :
    (s'.arrive io (k + 1)).Ok io d lba pages (k + 1) := by
  obtain ⟨hlooked, hout⟩ := lbaUnmappedWrite_ok h.there hrun
  have hlistOk := h.listOk.grows hlooked.grows
  -- a page that is looked up though it need not be follows one that has the map
  have hprev : d.amapAt (amapId (lba + k)) ≠ none → LookedUp lba pages k ∨
      MapSeen io d lba pages k (amapId (lba + k)) := by
    intro hmap
    by_contra hnone
    obtain ⟨hnot, hunseen⟩ := not_or.mp hnone
    have hamap : s.amap ≠ none := fun hamap => hskip ((skips_iff hpage).mpr ⟨hnot, hamap⟩)
    simp only [LookedUp, not_or, not_not] at hnot
    rw [hnot.2.1] at hmap hunseen
    exact hunseen ((h.seen (Nat.pos_of_ne_zero hnot.1) hmap).mp hamap)
  have hkept : d.amapAt (amapId (lba + k)) ≠ none → ¬ Lost io d lba pages k := by
    rintro hmap ⟨hnot, hunseen⟩
    exact (hprev hmap).elim hnot hunseen
  cases hout with
  | deferred hstate heq =>
    rw [heq] at hlooked hlistOk ⊢
    refine h.next hpage hlooked (fun n hn => nomatch hn) (fun _ => ?_) hlistOk (fun q => ?_)
      (fun hmap => ?_) (fun _ => ?_)
    · simp [Scan.defer, h.not_seen rfl hstate]
    · simp [listed_defer]
    · simp [listed_defer, hkept hmap]
    · simp [listed_defer]
  | taken hstate hthere heq =>
    rw [heq] at hlooked hlistOk hthere ⊢
    refine h.next hpage hlooked (fun n hn => ?_) (fun hmap => ?_)
      (hlistOk.amapCheckSyncList rfl hthere) (fun q => ?_) (fun hmap => ?_) (fun _ => ?_)
    · cases hn
      exact hthere
    · rw [mapSeen_succ]
      have hready := h.ready hmap hstate
      tauto
    · simp [listed_take]
    · simp [listed_take, hkept hmap]
    · simp [listed_take]
  | unmapped hzero habsent amapTable heq =>
    have hnone : d.amapAt (amapId (lba + k)) = none := by
      by_contra hmap
      exact h.grows.amapAt_ne_none hmap habsent
    have hlisted : s'.Listed = s.Listed := by rw [heq]; rfl
    have hamap : s'.amap = none := by rw [heq]
    have hsync : s'.amapSyncList = s.amapSyncList := by rw [heq]
    refine h.next hpage hlooked (fun n hn => ?_) (fun hmap => absurd hnone hmap) (hsync ▸ hlistOk)
      (fun q => ?_) (fun hmap => absurd hnone hmap) (fun hz => ?_)
    · rw [hamap] at hn
      cases hn
    · simp [hlisted, h.not_listed page]
    · simp only at hzero
      simp [hzero] at hz

theorem Scan.Ok.scanPages (hrest : pages.drop k = rest) (hk : k ≤ pages.length)
    (h : (s.arrive io k).Ok io d lba pages k) (hrun : scanPages io k (lba + k) s rest = .ok s') :
    (s'.arrive io pages.length).Ok io d lba pages pages.length := by
  induction rest generalizing k s with
  | nil =>
    obtain rfl : k = pages.length := by
      have := drop_eq_nil_iff.mp hrest
      omega
    cases hrun
    exact h
  | cons page rest ih =>
    have hpage : pages[k]? = some page := by
      rw [← head?_drop, hrest]
      rfl
    have hdrop : pages.drop (k + 1) = rest := by
      rw [← tail_drop, hrest]
      rfl
    have hlt : k + 1 ≤ pages.length := (List.getElem?_eq_some_iff.mp hpage).1
    simp only [AddrMap.scanPages] at hrun
    split at hrun <;> rename_i hskip
    · exact ih hdrop hlt (h.skip hpage hskip) hrun
    · split at hrun
      · cases hrun
      · rename_i s₁ hlookup
        exact ih hdrop hlt (h.lookup hpage hskip hlookup) hrun

theorem ok_start : ((Scan.start d).arrive io 0).Ok io d lba pages 0 where
  grows := grows_arrive
  max := rfl
  ahead _ := .refl
  touched h := absurd h (Nat.lt_irrefl 0)
  there _ h := nomatch h
  seen h := absurd h (Nat.lt_irrefl 0)
  listOk a ha := absurd ha not_mem_nil
  listed q hq := by simp [Scan.Listed, Synced, Scan.arrive, Scan.start] at hq
  mapped j _ h := absurd h (Nat.not_lt_zero j)
  data j _ h := absurd h (Nat.not_lt_zero j)

theorem checkTable_ok (h : ListOk d l) (hrun : checkTable io d l p = .ok (d', l')) :
    d.Grows d' ∧ ListOk d' l' ∧ ∀ q, Synced l' q ↔ Synced l q ∨ q = p := by
  unfold checkTable at hrun
  split at hrun
  · cases hrun
  · rename_i table htable
    split_ifs at hrun
    split at hrun
    · cases hrun
    · rename_i table' found hget
      cases hrun
      obtain ⟨hgrows, hfound, habsent⟩ := amapTableGetAmap_ok hget
      have hmap : (d.setTable (amapTableId p.lba) (.loaded table')).amapAt (amapId p.lba) ≠ none := by
        rw [amapAt_setTable, if_pos (tableId_amapId _)]
        refine hfound ?_
        by_contra hf
        exact absurd (habsent (Bool.eq_false_of_not_eq_true hf)).1 (by decide)
      have hdisk := grows_setTable (x := .loaded table') htable rfl hgrows
      exact ⟨hdisk, (h.grows hdisk).amapCheckSyncList rfl hmap, fun q => synced_amapCheckSyncList⟩

theorem pgdataCheckTableList_ok {list : List Pgdata} (h : ListOk d l)
    (hrun : pgdataCheckTableList io d l list = .ok (d', l')) :
    d.Grows d' ∧ ListOk d' l' ∧ ∀ q, Synced l' q ↔ Synced l q ∨ q ∈ list := by
  induction list generalizing d l with
  | nil =>
    cases hrun
    exact ⟨.refl, h, fun q => by simp⟩
  | cons p rest ih =>
    rw [pgdataCheckTableList] at hrun
    split at hrun
    · cases hrun
    · rename_i d₁ l₁ hcheck
      obtain ⟨hgrows, hok, hsync⟩ := checkTable_ok h hcheck
      obtain ⟨hgrows', hok', hsync'⟩ := ih hok hrun
      refine ⟨hgrows.trans hgrows', hok', fun q => ?_⟩
      rw [hsync', hsync, mem_cons, or_assoc]

theorem scanWriteData_ok (hrun : scanWriteData io d lba pages = .ok (d', l)) : d.Grows d' ∧ ListOk d' l ∧
      (∀ q, Synced l q → ∃ j page, pages[j]? = some page ∧ q = ⟨lba + j, page⟩) ∧
      ∀ j page, pages[j]? = some page → (page.zero = false → Synced l ⟨lba + j, page⟩) ∧
        (d.amapAt (amapId (lba + j)) ≠ none → (Synced l ⟨lba + j, page⟩ ↔ ¬ Lost io d lba pages j)) := by
  unfold scanWriteData at hrun
  split at hrun
  · cases hrun
  · rename_i s hscan
    have hok := Scan.Ok.scanPages rfl (Nat.zero_le _) ok_start hscan
    have hlistOk : ListOk s.disk s.amapSyncList := by
      intro a ha
      have := hok.listOk a ha
      rwa [Scan.arrive, amapAt_arrive] at this
    have hgrows : d.Grows s.disk := by
      intro n
      have := hok.grows n
      rwa [Scan.arrive, amapAt_arrive] at this
    obtain ⟨hgrows', hok', hsync⟩ := pgdataCheckTableList_ok hlistOk hrun
    have hiff : ∀ q, Synced l q ↔ (s.arrive io pages.length).Listed q := fun q =>
      (hsync q).trans or_comm
    refine ⟨hgrows.trans hgrows', hok', fun q hq => ?_, fun j page hpage => ⟨fun hzero => ?_, fun hmap => ?_⟩⟩
    · obtain ⟨j, -, page, hpage, heq⟩ := hok.listed q ((hiff q).mp hq)
      exact ⟨j, page, hpage, heq⟩
    · exact (hiff _).mpr (hok.data j page (List.getElem?_eq_some_iff.mp hpage).1 hpage hzero)
    · exact (hiff _).trans (hok.mapped j page (List.getElem?_eq_some_iff.mp hpage).1 hpage hmap)

end QuadStor.AddrMap
