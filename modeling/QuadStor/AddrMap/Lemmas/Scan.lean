import QuadStor.AddrMap.Basic

/-!
# Tables and maps while they are looked up
-/

namespace QuadStor.AddrMap

open Lib DDTable List Function

variable {io : Io} {d d' e : Tdisk} {table table' : Table} {t n lba i : Nat} {found create : Bool} {x : Cached Table}

@[simp] theorem setTable_self : (d.setTable t x).table t = x :=
  update_self _ _ _

theorem setTable_of_ne {t' : Nat} (h : t' ≠ t) : (d.setTable t x).table t' = d.table t' :=
  update_of_ne h _ _

@[simp] theorem setAmap_self {x : Cached Amap} : (table.setAmap n x).amap n = x :=
  update_self _ _ _

theorem setAmap_of_ne {x : Cached Amap} {m : Nat} (h : m ≠ n) : (table.setAmap n x).amap m = table.amap m :=
  update_of_ne h _ _

theorem amapAt_setTable : (d.setTable t x).amapAt n =
      if tableId n = t then x.content.bind fun table => (table.amap n).content else d.amapAt n := by
  unfold Tdisk.amapAt
  split_ifs with h
  · rw [h, setTable_self]
  · rw [setTable_of_ne h]

/-! ## Growing

Lookups leave every map as it is; they may make empty ones.
-/

def Table.Grows (table table' : Table) : Prop :=
  ∀ n, (table'.amap n).content = (table.amap n).content ∨
    (table.amap n).content = none ∧ (table'.amap n).content = some .empty

def Tdisk.Grows (d d' : Tdisk) : Prop :=
  ∀ n, d'.amapAt n = d.amapAt n ∨ d.amapAt n = none ∧ d'.amapAt n = some .empty

theorem Table.Grows.refl : table.Grows table := fun _ => .inl rfl

theorem Tdisk.Grows.refl : d.Grows d := fun _ => .inl rfl

theorem Table.Grows.of_read (h : table.Grows table') : table.Grows (table'.setAmap n (table'.amap n).read) := by
  intro m
  by_cases hm : m = n
  · subst hm
    simpa using h m
  · rw [setAmap_of_ne hm]
    exact h m

theorem Tdisk.Grows.trans (h : d.Grows d') (h' : d'.Grows e) : d.Grows e := by
  intro n
  obtain heq | ⟨hnone, hempty⟩ := h n
  · rw [← heq]
    exact h' n
  · obtain heq' | ⟨hnone', -⟩ := h' n
    · exact .inr ⟨hnone, heq'.trans hempty⟩
    · rw [hempty] at hnone'
      cases hnone'

theorem Tdisk.Grows.entry (h : d.Grows d') (lba : Nat) : d'.entry lba = d.entry lba := by
  unfold Tdisk.entry
  obtain heq | ⟨hnone, hempty⟩ := h (amapId lba)
  · rw [heq]
  · rw [hnone, hempty]
    rfl

theorem Tdisk.Grows.amapAt_ne_none (h : d.Grows d') (hn : d.amapAt n ≠ none) : d'.amapAt n ≠ none := by
  obtain heq | ⟨hnone, -⟩ := h n
  · rwa [heq]
  · exact absurd hnone hn

theorem grows_setTable (hx : (d.table t).content = some table)
    (hx' : x.content = some table') (h : table.Grows table') : d.Grows (d.setTable t x) := by
  intro n
  rw [amapAt_setTable]
  split_ifs with hn
  · rw [hx', Tdisk.amapAt, hn, hx]
    exact h n
  · exact .inl rfl

theorem grows_of_content (h : ∀ t, (d'.table t).content = (d.table t).content) : d.Grows d' := by
  intro n
  left
  simp only [Tdisk.amapAt, h]

theorem amapTableLoadAsync_ok (h : amapTableLoadAsync io d t = some d') :
    d'.amapTableMax = d.amapTableMax ∧ ∀ t', d'.table t' =
      if t' = t ∨ t' = t + 1 ∧ t % amapTablePerGroup + 1 ≠ d.groupTables t ∧ io.tableLoad (t + 1) = true
      then (d.table t').read else d.table t' := by
  have hself : ∀ t', (d.setTable t (d.table t).read).table t' =
      if t' = t then (d.table t').read else d.table t' := by
    intro t'
    split_ifs with ht
    · rw [ht, setTable_self]
    · exact setTable_of_ne ht
  have hgroup : (d.setTable t (d.table t).read).groupTables t = d.groupTables t := rfl
  simp only [amapTableLoadAsync, hgroup] at h
  split_ifs at h with hload hend hnext
  all_goals
    cases h
    refine ⟨rfl, fun t' => ?_⟩
  · simp [hself, hend]
  · by_cases ht : t' = t + 1
    · subst ht
      simp [hself, hend, hnext]
    · rw [setTable_of_ne ht, hself]
      simp [ht]
  · simp [hself, hnext]

theorem grows_amapReadAhead {count : Nat} (h : table.Grows table') : table.Grows (amapReadAhead io count table' n) := by
  induction count generalizing table' n with
  | zero => exact h
  | succ count ih =>
    simp only [amapReadAhead]
    split_ifs
    · exact h
    · exact ih h.of_read
    · exact ih h

theorem amapTableGetAmap_ok (h : amapTableGetAmap io table n create = .ok (table', found)) :
    table.Grows table' ∧ (found = true → (table'.amap n).content ≠ none) ∧
      (found = false → create = false ∧ (table.amap n).content = none) := by
  unfold amapTableGetAmap at h
  split at h
  · rename_i a ha
    cases h
    exact ⟨.refl, fun _ => by simp [ha, Cached.content], by simp⟩
  · rename_i a ha
    cases h
    exact ⟨.refl, fun _ => by simp [ha, Cached.content], by simp⟩
  · rename_i ha
    split_ifs at h with hcreate
    · cases h
      exact ⟨.refl, by simp, fun _ => ⟨by simpa using hcreate, by simp [ha, Cached.content]⟩⟩
    · split at h <;> cases h
      refine ⟨fun m => ?_, fun _ => by simp [Cached.content], by simp⟩
      by_cases hm : m = n
      · subst hm
        exact .inr ⟨by simp [ha, Cached.content], by simp [Cached.content]⟩
      · rw [setAmap_of_ne hm]
        exact .inl rfl
  · rename_i a ha
    unfold amapLoadAsync at h
    split at h
    · cases h
    · rename_i loaded hloaded
      split_ifs at hloaded
      cases hloaded
      cases h
      have hgrows : table.Grows (amapReadAhead io 2 (table.setAmap n (table.amap n).read) n) :=
        grows_amapReadAhead Table.Grows.refl.of_read
      refine ⟨hgrows, fun _ => ?_, by simp⟩
      obtain heq | ⟨hnone, -⟩ := hgrows n
      · rw [heq]
        simp [ha, Cached.content]
      · simp [ha, Cached.content] at hnone

variable {s s' : Scan} {p q : Pgdata} {k : Nat} {l : List AmapSync}

def Synced (l : List AmapSync) (q : Pgdata) : Prop := ∃ a ∈ l, q ∈ a.pgdataList

def ListOk (d : Tdisk) (l : List AmapSync) : Prop :=
  ∀ a ∈ l, d.amapAt a.amapId ≠ none ∧ ∀ q ∈ a.pgdataList, amapId q.lba = a.amapId

theorem synced_cons {a : AmapSync} : Synced (a :: l) q ↔ q ∈ a.pgdataList ∨ Synced l q := by
  simp [Synced]

theorem synced_amapCheckSyncList : Synced (amapCheckSyncList n p l) q ↔ Synced l q ∨ q = p := by
  induction l with
  | nil => simp [amapCheckSyncList, Synced]
  | cons a rest ih =>
    rw [amapCheckSyncList]
    split_ifs <;> simp only [synced_cons, ih, mem_append, mem_singleton]
    all_goals tauto

theorem ListOk.amapCheckSyncList (hn : amapId p.lba = n) (hmap : d.amapAt n ≠ none) (h : ListOk d l) :
    ListOk d (amapCheckSyncList n p l) := by
  have hsingle : d.amapAt n ≠ none ∧ ∀ q ∈ [p], amapId q.lba = n := by
    refine ⟨hmap, fun q hq => ?_⟩
    rw [mem_singleton.mp hq, hn]
  induction l with
  | nil => simpa [AddrMap.amapCheckSyncList, ListOk] using hsingle
  | cons a rest ih =>
    obtain ⟨hhead, htail⟩ := forall_mem_cons.mp h
    rw [AddrMap.amapCheckSyncList]
    split_ifs with hle heq
    · exact forall_mem_cons.mpr
        ⟨⟨hmap, forall_mem_append.2 ⟨fun q hq => (hhead.2 q hq).trans heq, hsingle.2⟩⟩, htail⟩
    · exact forall_mem_cons.mpr ⟨hsingle, h⟩
    · exact forall_mem_cons.mpr ⟨hhead, ih htail⟩

theorem ListOk.grows {d' : Tdisk} (hgrows : d.Grows d') (h : ListOk d l) : ListOk d' l :=
  fun a ha => ⟨hgrows.amapAt_ne_none (h a ha).1, (h a ha).2⟩

inductive Outcome (s s' : Scan) (p : Pgdata) : Prop where
  | deferred (state : (s.disk.table (amapTableId p.lba)).state = .onDisk ∨
        (s.disk.table (amapTableId p.lba)).state = .reading)
      (eq : s' = Scan.defer { s with disk := s'.disk } p)
  | taken (state : (s.disk.table (amapTableId p.lba)).state = .loaded ∨
        (s.disk.table (amapTableId p.lba)).state = .missing)
      (there : s'.disk.amapAt (amapId p.lba) ≠ none)
      (eq : s' = Scan.take { s with disk := s'.disk } p)
  | unmapped (zero : p.page.zero = true) (absent : s.disk.amapAt (amapId p.lba) = none) (amapTable : Option Nat)
      (eq : s' = { s with disk := s'.disk, amapTable, amap := none })

structure Looked (io : Io) (t : Nat) (d d' : Tdisk) : Prop where
  grows : d.Grows d'
  max : d'.amapTableMax = d.amapTableMax
  load : (d.table t).state = .onDisk → amapTableLoadAsync io d t = some d'
  keep : (d.table t).state ≠ .onDisk → ∀ t', (d'.table t').Ahead (d.table t')

theorem Looked.refl (h : (d.table t).state ≠ .onDisk) : Looked io t d d :=
  ⟨.refl, rfl, fun h' => absurd h' h, fun _ _ => .refl⟩

theorem looked_set (hgrows : d.Grows (d.setTable t x)) (hstate : (d.table t).state ≠ .onDisk)
    (hahead : x.Ahead (d.table t)) : Looked io t d (d.setTable t x) := by
  refine ⟨hgrows, rfl, fun h => absurd h hstate, fun _ t' => ?_⟩
  by_cases ht : t' = t
  · subst ht
    rwa [setTable_self]
  · rw [setTable_of_ne ht]
    exact .refl

theorem looked_setTable {table table' : Table} (hx : d.table t = .loaded table) (h : table.Grows table') :
    Looked io t d (d.setTable t (.loaded table')) :=
  looked_set (grows_setTable (by rw [hx]; rfl) rfl h) (by simp [hx, Cached.state]) (by rw [hx]; exact .inl rfl)

theorem lbaUnmappedAmap_ok (hamap : ∀ n, s.amap = some n → s.disk.amapAt n ≠ none)
    (h : lbaUnmappedAmap io s p = .ok s') : Looked io (amapTableId p.lba) s.disk s'.disk ∧ Outcome s s' p := by
  unfold lbaUnmappedAmap at h
  split at h
  · rename_i table htable
    cases h
    have hstate : (s.disk.table (amapTableId p.lba)).state = .reading := by rw [htable]; rfl
    exact ⟨.refl (by simp [hstate]), .deferred (.inr hstate) rfl⟩
  · rename_i table htable
    have hstate : (s.disk.table (amapTableId p.lba)).state = .loaded := by rw [htable]; rfl
    split_ifs at h with hsame herr
    · cases h
      exact ⟨.refl (by simp [hstate]), .taken (.inl hstate) (hamap _ hsame) rfl⟩
    · split at h
      · cases h
      · rename_i table' found hget
        obtain ⟨hgrows, hfound, habsent⟩ := amapTableGetAmap_ok hget
        have hat : (s.disk.setTable (amapTableId p.lba) (.loaded table')).amapAt (amapId p.lba) =
            (table'.amap (amapId p.lba)).content := by
          rw [amapAt_setTable, if_pos (tableId_amapId _)]
          rfl
        split_ifs at h with hf <;> cases h
        · exact ⟨looked_setTable htable hgrows, .taken (.inl hstate) (by rw [Scan.take, hat]; exact hfound hf) rfl⟩
        · obtain ⟨hzero, hnone⟩ := habsent (Bool.eq_false_of_not_eq_true hf)
          refine ⟨looked_setTable htable hgrows, .unmapped (by simpa using hzero) ?_ _ rfl⟩
          rw [Tdisk.amapAt, tableId_amapId, htable]
          exact hnone
  · cases h
  · cases h

theorem looked_load (h : amapTableLoadAsync io d t = some e) (hstate : (d.table t).state = .onDisk) :
    Looked io t d e := by
  obtain ⟨hmax, htable⟩ := amapTableLoadAsync_ok h
  refine ⟨grows_of_content fun t' => ?_, hmax, fun _ => h, fun hne => absurd hstate hne⟩
  rw [htable]
  split_ifs
  · exact Cached.content_read
  · rfl

theorem looked_init (h : d.table t = .missing) : Looked io t d (d.setTable t (.loaded .empty)) := by
  refine looked_set (fun n => .inl ?_) (by simp [h, Cached.state]) (by rw [h]; exact .inr ⟨rfl, rfl⟩)
  rw [amapAt_setTable]
  split_ifs with hn
  · rw [Tdisk.amapAt, hn, h]
    rfl
  · rfl

theorem Looked.trans {d' : Tdisk} (h : Looked io t d d') (h' : Looked io t d' e)
    (hd : (d.table t).state ≠ .onDisk) (hd' : (d'.table t).state ≠ .onDisk) : Looked io t d e :=
  ⟨h.grows.trans h'.grows, h'.max.trans h.max, fun hstate => absurd hstate hd,
    fun _ t' => (h'.keep hd' t').trans (h.keep hd t')⟩

theorem lbaUnmappedWrite_ok (hamap : ∀ n, s.amap = some n → s.disk.amapAt n ≠ none)
    (h : lbaUnmappedWrite io s p = .ok s') : Looked io (amapTableId p.lba) s.disk s'.disk ∧ Outcome s s' p := by
  unfold lbaUnmappedWrite at h
  by_cases hsame : s.amapTable = some (amapTableId p.lba)
  · rw [if_pos hsame] at h
    exact lbaUnmappedAmap_ok hamap h
  rw [if_neg hsame] at h
  by_cases hmax : s.disk.amapTableMax ≤ amapTableId p.lba
  · rw [if_pos hmax] at h
    cases h
  rw [if_neg hmax] at h
  cases htable : s.disk.table (amapTableId p.lba) with
  | missing =>
    have hstate : (s.disk.table (amapTableId p.lba)).state = .missing := by rw [htable]; rfl
    simp only [htable] at h
    by_cases hzero : p.page.zero = true
    · rw [if_pos hzero] at h
      cases h
      refine ⟨.refl (by simp [hstate]), .unmapped hzero ?_ _ rfl⟩
      rw [Tdisk.amapAt, tableId_amapId, htable]
      rfl
    · rw [if_neg hzero] at h
      split at h
      · cases h
      · have hinit : Looked io (amapTableId p.lba) s.disk
            (s.disk.setTable (amapTableId p.lba) (.loaded .empty)) := looked_init htable
        obtain ⟨hlooked, hout⟩ := lbaUnmappedAmap_ok
          (s := { s with disk := s.disk.setTable (amapTableId p.lba) (.loaded .empty) })
          (fun n hn => hinit.grows.amapAt_ne_none (hamap n hn)) h
        refine ⟨hinit.trans hlooked (by simp [hstate]) (by simp [Cached.state]), ?_⟩
        -- the new table is in memory, so the page is not put aside
        cases hout with
        | deferred hdeferred _ => simp [Cached.state] at hdeferred
        | taken _ there eq => exact .taken (.inr hstate) there eq
        | unmapped zero _ _ _ => exact absurd zero hzero
  | onDisk table =>
    have hstate : (s.disk.table (amapTableId p.lba)).state = .onDisk := by rw [htable]; rfl
    simp only [htable] at h
    split at h
    · cases h
    · rename_i disk hload
      cases h
      exact ⟨looked_load hload hstate, .deferred (.inl hstate) rfl⟩
  | reading table | loaded table =>
    simp only [htable] at h
    exact lbaUnmappedAmap_ok hamap h

theorem arrive_table (t : Nat) :
    ((d.arrive io i).table t) = if io.tableDone i t then (d.table t).finish else d.table t := rfl

theorem content_arrive (t : Nat) : ((d.arrive io i).table t).content = (d.table t).content := by
  rw [arrive_table]
  split_ifs
  · exact Cached.content_finish
  · rfl

theorem grows_arrive : d.Grows (d.arrive io i) := grows_of_content content_arrive

@[simp] theorem amapAt_arrive : (d.arrive io i).amapAt n = d.amapAt n := by
  rw [Tdisk.amapAt, content_arrive, Tdisk.amapAt]

theorem isLoaded_arrive (h : (d.table t).isLoaded = true) : ((d.arrive io i).table t).isLoaded = true := by
  rw [arrive_table]
  split_ifs
  · exact Cached.isLoaded_finish h
  · exact h

theorem ahead_arrive (h : ∀ t, (d.table t).Ahead (e.table t)) (t : Nat) :
    ((d.arrive io i).table t).Ahead ((e.arrive io i).table t) := by
  rw [arrive_table, arrive_table]
  split_ifs
  · exact (h t).finish
  · exact h t

theorem amapTableLoadAsync_isSome : (∃ d', amapTableLoadAsync io d t = some d') ↔ io.tableLoad t = true := by
  unfold amapTableLoadAsync
  cases io.tableLoad t <;> simp
  split_ifs <;> simp

theorem Looked.ahead {d' : Tdisk} (hlooked : Looked io t d d') (hmax : d.amapTableMax = e.amapTableMax)
    (h : ∀ t, (d.table t).Ahead (e.table t)) : d'.amapTableMax = (e.lookTable io t).amapTableMax ∧
      ∀ t', (d'.table t').Ahead ((e.lookTable io t).table t') := by
  unfold Tdisk.lookTable
  by_cases hstate : (d.table t).state = .onDisk
  · have hstate' : (e.table t).state = .onDisk := by
      rw [(h t).state_eq (by simp [hstate]), hstate]
    have hload := hlooked.load hstate
    obtain ⟨e', he'⟩ : ∃ e', amapTableLoadAsync io e t = some e' :=
      amapTableLoadAsync_isSome.2 (amapTableLoadAsync_isSome.1 ⟨_, hload⟩)
    have hgroup : d.groupTables t = e.groupTables t := by simp [Tdisk.groupTables, hmax]
    obtain ⟨hmaxd, htabled⟩ := amapTableLoadAsync_ok hload
    obtain ⟨hmaxe, htablee⟩ := amapTableLoadAsync_ok he'
    rw [if_pos hstate', he', Option.getD_some]
    refine ⟨by rw [hmaxd, hmaxe, hmax], fun t' => ?_⟩
    rw [htabled, htablee, hgroup]
    split_ifs
    · exact (h t').read
    · exact h t'
  · have hstate' : (e.table t).state ≠ .onDisk := by
      obtain heq | ⟨-, hmissing⟩ := h t
      · rwa [← heq]
      · simp [hmissing]
    rw [if_neg hstate']
    exact ⟨hlooked.max.trans hmax, fun t' => (hlooked.keep hstate t').trans (h t')⟩

theorem lookTable_table (t' : Nat) :
    (d.lookTable io t).table t' = (d.table t').read ∨ (d.lookTable io t).table t' = d.table t' := by
  unfold Tdisk.lookTable
  split_ifs
  · cases hload : amapTableLoadAsync io d t with
    | none => exact .inr rfl
    | some e =>
      rw [Option.getD_some, (amapTableLoadAsync_ok hload).2]
      exact ite_eq_or_eq ..
  · exact .inr rfl

theorem content_lookTable (t' : Nat) : ((d.lookTable io t).table t').content = (d.table t').content := by
  obtain h | h := lookTable_table t' <;> rw [h]
  exact Cached.content_read

theorem content_tablesAt (t : Nat) : ((tablesAt io d lba k).table t).content = (d.table t).content := by
  induction k with
  | zero => exact content_arrive t
  | succ k ih => rw [tablesAt, content_arrive, content_lookTable, ih]

theorem isLoaded_tablesAt {j : Nat} (hle : j ≤ k) (h : ((tablesAt io d lba j).table t).isLoaded = true) :
    ((tablesAt io d lba k).table t).isLoaded = true := by
  induction k, hle using Nat.le_induction with
  | base => exact h
  | succ k _ ih =>
    refine isLoaded_arrive ?_
    obtain h | h := lookTable_table (d := tablesAt io d lba k) t <;> rw [h]
    · exact Cached.isLoaded_read ih
    · exact ih

end QuadStor.AddrMap
