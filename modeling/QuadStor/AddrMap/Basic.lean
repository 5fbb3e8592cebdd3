import QuadStor.DDTable.Basic
import QuadStor.Geometry
import QuadStor.Lib.Cached

/-!
# Address maps

A table names the blocks of its maps; a map has the block numbers of logical pages.
-/

namespace QuadStor.AddrMap

open Lib DDTable

structure Amap where
  /-- `AMAP_META_DATA_ERROR`: the checksum does not match -/
  error : Bool
  entries : Nat → Option Block

structure Table where
  error : Bool
  /-- by map id: `amap_index`, and the block numbers where that has nothing -/
  amap : Nat → Cached Amap

structure Tdisk where
  amapTableMax : Nat
  /-- by table id: `amap_table_group`, and `table_index` where that has nothing -/
  table : Nat → Cached Table

def Tdisk.setTable (d : Tdisk) (t : Nat) (x : Cached Table) : Tdisk :=
  { d with table := Function.update d.table t x }

def Table.setAmap (table : Table) (n : Nat) (x : Cached Amap) : Table :=
  { table with amap := Function.update table.amap n x }

def Tdisk.amapAt (d : Tdisk) (n : Nat) : Option Amap :=
  (d.table (tableId n)).content.bind fun table => (table.amap n).content

/-- The map entry of a logical page; block number 0 is `none`. -/
def Tdisk.entry (d : Tdisk) (lba : Nat) : Option Block :=
  (d.amapAt (amapId lba)).bind fun a => a.entries lba

def Amap.empty : Amap := ⟨false, fun _ => none⟩

def Table.empty : Table := ⟨false, fun _ => .missing⟩

inductive Err where
  | failed
  | noSpace
  deriving DecidableEq, Repr

structure Io where
  /-- the read of a table is done by the time page `i` of the command is looked up -/
  tableDone : Nat → Nat → Bool
  /-- `amap_table_load`, `amap_load`: memory was there and the read could be started -/
  tableLoad : Nat → Bool
  amapLoad : Nat → Bool
  /-- `amap_table_init`, `amap_new`: what stopped them -/
  tableInit : Nat → Option Err
  amapNew : Nat → Option Err

variable (io : Io)

def Tdisk.arrive (d : Tdisk) (i : Nat) : Tdisk :=
  { d with table := fun t => if io.tableDone i t then (d.table t).finish else d.table t }

/-- `AMAP_TABLE_PER_GROUP` tables make a group, the last group may have fewer. -/
def Tdisk.groupTables (d : Tdisk) (t : Nat) : Nat := 
  min amapTablePerGroup (d.amapTableMax - t / amapTablePerGroup * amapTablePerGroup)

/-- The next table of the group is read along with this one. -/
def amapTableLoadAsync (d : Tdisk) (t : Nat) : Option Tdisk :=
  if !io.tableLoad t then none
  else
    let d := d.setTable t (d.table t).read
    if t % amapTablePerGroup + 1 = d.groupTables t then some d
    else if io.tableLoad (t + 1) then some (d.setTable (t + 1) (d.table (t + 1)).read)
    else some d

/-- The loop of `amap_load_async` over the maps that follow map `n` -/
def amapReadAhead : Nat → Table → Nat → Table
  | 0, table, _ => table
  | count + 1, table, n =>
    if (n + 1) % amapsPerAmapTable = 0 then table
    else
      amapReadAhead count
        (if io.amapLoad (n + 1) then table.setAmap (n + 1) (table.amap (n + 1)).read else table) (n + 1)

/-- `AMAP_ASYNC_COUNT` is 2. -/
def amapLoadAsync (table : Table) (n : Nat) : Option Table :=
  if !io.amapLoad n then none
  else some (amapReadAhead io 2 (table.setAmap n (table.amap n).read) n)

def amapTableGetAmap (table : Table) (n : Nat) (create : Bool) : Except Err (Table × Bool) :=
  match table.amap n with
  | .reading _ | .loaded _ => .ok (table, true)
  | .missing =>
    if !create then .ok (table, false)
    else
      match io.amapNew n with
      | some e => .error e
      | none => .ok (table.setAmap n (.loaded .empty), true)
  | .onDisk _ =>
    match amapLoadAsync io table n with
    | none => .error .failed
    | some table => .ok (table, true)

inductive Found where
  | unmapped
  | deferred
  | amap (n : Nat)
  deriving DecidableEq, Repr

def Found.amapId : Found → Option Nat
  | .amap n => some n
  | _ => none

/-- `lba_unmapped` from `skip_atable_locate` on: the disk, the table of the page and what was found. -/
def lbaUnmappedRead (d : Tdisk) (prevAmap : Option Nat) (lba : Nat) : Except Err (Tdisk × Option Nat × Found) :=
  match d.table (amapTableId lba) with
  | .reading _ => .ok (d, some (amapTableId lba), .deferred)
  | .loaded table =>
    if prevAmap = some (amapId lba) then .ok (d, some (amapTableId lba), .amap (amapId lba))
    else if table.error then .error .failed
    else
      match amapTableGetAmap io table (amapId lba) false with
      | .error e => .error e
      | .ok (table, found) =>
        let d := d.setTable (amapTableId lba) (.loaded table)
        if found then .ok (d, some (amapTableId lba), .amap (amapId lba)) else .ok (d, none, .unmapped)
  | .missing | .onDisk _ => .error .failed

def lbaUnmapped (d : Tdisk) (prevTable prevAmap : Option Nat) (lba : Nat) : Except Err (Tdisk × Option Nat × Found) :=
  if prevTable = some (amapTableId lba) then lbaUnmappedRead io d prevAmap lba
  else
    match d.table (amapTableId lba) with
    | .missing => .ok (d, none, .unmapped)
    | .onDisk _ =>
      match amapTableLoadAsync io d (amapTableId lba) with
      | none => .error .failed
      | some d => .ok (d, some (amapTableId lba), .deferred)
    | .reading _ | .loaded _ => lbaUnmappedRead io d prevAmap lba

def lookupPages : Nat → Nat → Tdisk → Option Nat → Option Nat → Nat → Except Err (Tdisk × List Found)
  | 0, _, d, _, _, _ => .ok (d, [])
  | count + 1, i, d, prevTable, prevAmap, lba =>
    match lbaUnmapped io (d.arrive io i) prevTable prevAmap lba with
    | .error e => .error e
    | .ok (d, amapTable, found) =>
      match lookupPages count (i + 1) d amapTable found.amapId (lba + 1) with
      | .error e => .error e
      | .ok (d, rest) => .ok (d, found :: rest)

/-- `pgdata_check_table_list` for a read: the maps of the pages in order -/
def checkTableListRead (d : Tdisk) (lba : Nat) : List Found → Except Err (Tdisk × List (Option Nat))
  | [] => .ok (d, [])
  | .deferred :: rest =>
    match (d.table (amapTableId lba)).content with
    | none => .error .failed
    | some table =>
      if table.error then .error .failed
      else
        match amapTableGetAmap io table (amapId lba) false with
        | .error e => .error e
        | .ok (table, found) =>
          match checkTableListRead (d.setTable (amapTableId lba) (.loaded table)) (lba + 1) rest with
          | .error e => .error e
          | .ok (d, amaps) => .ok (d, (if found then some (amapId lba) else none) :: amaps)
  | found :: rest =>
    match checkTableListRead d (lba + 1) rest with
    | .error e => .error e
    | .ok (d, amaps) => .ok (d, found.amapId :: amaps)

def amapEntry (d : Tdisk) (lba : Nat) : Option Nat → Except Err (Option Block)
  | none => .ok none
  | some n =>
    match d.amapAt n with
    | none => .error .failed
    | some a => if a.error then .error .failed else .ok (a.entries lba)

def amapEntries (d : Tdisk) (lba : Nat) : List (Option Nat) → Except Err (List (Option Block))
  | [] => .ok []
  | amap :: rest =>
    match amapEntry d lba amap with
    | .error e => .error e
    | .ok block =>
      match amapEntries d (lba + 1) rest with
      | .error e => .error e
      | .ok blocks => .ok (block :: blocks)

def lookupBlocks (d : Tdisk) (lba count : Nat) : Except Err (List (Option Block)) :=
  match lookupPages io count 0 d none none lba with
  | .error e => .error e
  | .ok (d, found) =>
    match checkTableListRead io d lba found with
    | .error e => .error e
    | .ok (d, amaps) => amapEntries d lba amaps

/-- A page of a write with the block recorded for it: its own, or that of a duplicate -/
structure Page where
  /-- `DDBLOCK_ZERO_BLOCK`; a page of an unmap has it too. -/
  zero : Bool
  block : Option Block
  zero_block : zero = true → block = none

structure Pgdata where
  lba : Nat
  page : Page

structure AmapSync where
  amapId : Nat
  pgdataList : List Pgdata

def amapCheckSyncList (n : Nat) (p : Pgdata) : List AmapSync → List AmapSync
  | [] => [⟨n, [p]⟩]
  | a :: rest =>
    if n ≤ a.amapId then
      if a.amapId = n then ⟨n, a.pgdataList ++ [p]⟩ :: rest else ⟨n, [p]⟩ :: a :: rest
    else a :: amapCheckSyncList n p rest

/-- `scan_write_data` under way: the disk, the lists, and the table and map the last page was left with -/
structure Scan where
  disk : Tdisk
  tableList : List Pgdata
  amapSyncList : List AmapSync
  amapTable : Option Nat
  amap : Option Nat

def Scan.start (d : Tdisk) : Scan := ⟨d, [], [], none, none⟩

def Scan.defer (s : Scan) (p : Pgdata) : Scan :=
  { s with tableList := s.tableList ++ [p], amapTable := some (amapTableId p.lba), amap := none }

def Scan.take (s : Scan) (p : Pgdata) : Scan :=
  { s with
    amapSyncList := amapCheckSyncList (amapId p.lba) p s.amapSyncList
    amapTable := some (amapTableId p.lba)
    amap := some (amapId p.lba) }

/-- `lba_unmapped_write` from `skip_atable_locate` on; the table is in memory. -/
def lbaUnmappedAmap (s : Scan) (p : Pgdata) : Except Err Scan :=
  match s.disk.table (amapTableId p.lba) with
  | .reading _ => .ok (s.defer p)
  | .loaded table =>
    if s.amap = some (amapId p.lba) then .ok (s.take p)
    else if table.error then .error .failed
    else
      match amapTableGetAmap io table (amapId p.lba) (!p.page.zero) with
      | .error e => .error e
      | .ok (table, found) =>
        let s := { s with disk := s.disk.setTable (amapTableId p.lba) (.loaded table) }
        if found then .ok (s.take p)
        else .ok { s with amapTable := some (amapTableId p.lba), amap := none }
  | .missing | .onDisk _ => .error .failed

def lbaUnmappedWrite (s : Scan) (p : Pgdata) : Except Err Scan :=
  if s.amapTable = some (amapTableId p.lba) then lbaUnmappedAmap io s p
  else if s.disk.amapTableMax ≤ amapTableId p.lba then .error .failed
  else
    match s.disk.table (amapTableId p.lba) with
    | .missing =>
      if p.page.zero then .ok { s with amapTable := none, amap := none }
      else
        match io.tableInit (amapTableId p.lba) with
        | some _ => .error .failed
        | none =>
          lbaUnmappedAmap io
            { s with disk := s.disk.setTable (amapTableId p.lba) (.loaded .empty) } p
    | .onDisk _ =>
      match amapTableLoadAsync io s.disk (amapTableId p.lba) with
      | none => .error .failed
      | some disk => .ok (Scan.defer { s with disk } p)
    | .reading _ | .loaded _ => lbaUnmappedAmap io s p

/-- A zero page after one that was left without a map needs no map, it seems. -/
def Scan.skips (s : Scan) (i : Nat) (p : Pgdata) : Bool :=
  i != 0 && s.amap.isNone && amapId p.lba == amapId (p.lba - 1) && p.page.zero

def scanPages : Nat → Nat → Scan → List Page → Except Err Scan
  | _, _, s, [] => .ok s
  | i, lba, s, page :: rest =>
    let s := { s with disk := s.disk.arrive io i }
    if s.skips i ⟨lba, page⟩ then scanPages (i + 1) (lba + 1) s rest
    else
      match lbaUnmappedWrite io s ⟨lba, page⟩ with
      | .error e => .error e
      | .ok s => scanPages (i + 1) (lba + 1) s rest

/-- One page of `pgdata_check_table_list`; zero or not, it gets a map. -/
def checkTable (d : Tdisk) (l : List AmapSync) (p : Pgdata) : Except Err (Tdisk × List AmapSync) :=
  match (d.table (amapTableId p.lba)).content with
  | none => .error .failed
  | some table =>
    if table.error then .error .failed
    else
      match amapTableGetAmap io table (amapId p.lba) true with
      | .error e => .error e
      | .ok (table, _) =>
        .ok (d.setTable (amapTableId p.lba) (.loaded table), amapCheckSyncList (amapId p.lba) p l)

def pgdataCheckTableList (d : Tdisk) (l : List AmapSync) : List Pgdata → Except Err (Tdisk × List AmapSync)
  | [] => .ok (d, l)
  | p :: rest =>
    match checkTable io d l p with
    | .error e => .error e
    | .ok (d, l) => pgdataCheckTableList d l rest

def scanWriteData (d : Tdisk) (lba : Nat) (pages : List Page) : Except Err (Tdisk × List AmapSync) :=
  match scanPages io 0 lba (.start d) pages with
  | .error e => .error e
  | .ok s => pgdataCheckTableList io s.disk s.amapSyncList s.tableList

/-- The loop body of `__pgdata_amap_io` -/
def Amap.update (a : Amap) (p : Pgdata) : Amap :=
  if a.entries p.lba = none ∧ p.page.block = none then a
  else { a with entries := Function.update a.entries p.lba p.page.block }

def amapIo (d : Tdisk) (s : AmapSync) : Tdisk :=
  d.setTable (tableId s.amapId) ((d.table (tableId s.amapId)).map fun table =>
    table.setAmap s.amapId ((table.amap s.amapId).finish.map fun a => s.pgdataList.foldl Amap.update a))

/-- `pgdata_amap_io`, up to the log; it waits for every map and stops if one cannot be used. -/
def pgdataAmapIo (d : Tdisk) (l : List AmapSync) : Except Err Tdisk :=
  if l.any fun s => (d.amapAt s.amapId).any Amap.error then .error .failed
  else .ok (l.foldl amapIo d)

def writeMap (d : Tdisk) (lba : Nat) (pages : List Page) : Except Err Tdisk :=
  match scanWriteData io d lba pages with
  | .error e => .error e
  | .ok (d, l) => pgdataAmapIo d l

structure InFull (d d' : Tdisk) (lba : Nat) (pages : List Page) : Prop where
  written : ∀ i page, pages[i]? = some page → d'.entry (lba + i) = page.block
  others : ∀ n, n < lba ∨ lba + pages.length ≤ n → d'.entry n = d.entry n

def Tdisk.lookTable (d : Tdisk) (t : Nat) : Tdisk :=
  if (d.table t).state = .onDisk then (amapTableLoadAsync io d t).getD d else d

def tablesAt (d : Tdisk) (lba : Nat) : Nat → Tdisk
  | 0 => d.arrive io 0
  | i + 1 => ((tablesAt d lba i).lookTable io (amapTableId (lba + i))).arrive io (i + 1)

def tableReady (d : Tdisk) (lba i : Nat) : Bool :=
  ((tablesAt io d lba i).table (amapTableId (lba + i))).isLoaded

def LookedUp (lba : Nat) (pages : List Page) (i : Nat) : Prop :=
  i = 0 ∨ amapId (lba + i) ≠ amapId (lba + i - 1) ∨ ∃ page, pages[i]? = some page ∧ page.zero = false

def MapSeen (d : Tdisk) (lba : Nat) (pages : List Page) (i n : Nat) : Prop :=
  ∃ j < i, amapId (lba + j) = n ∧ LookedUp lba pages j ∧ tableReady io d lba j = true

/-- A zero page that has a block, and follows a page of the same map, comes after a page of that map that was looked up
when the table had been read. -/
def ZeroesFollowMap (d : Tdisk) (lba : Nat) (pages : List Page) : Prop :=
  ∀ i, i < pages.length → ¬ LookedUp lba pages i → d.entry (lba + i) ≠ none →
    MapSeen io d lba pages i (amapId (lba + i))

end QuadStor.AddrMap
