import QuadStor.Bint.Disk

/-!
# The dedupe table

`ddtable.c` keeps hash nodes, disk blocks whose slots pair the hash of a page with the block it was stored in.
-/

namespace QuadStor.DDTable

open Lib Bint Function

/-- A block number with its disk, split as `index_id_from_block` does, and `lba_block_size`. -/
structure Block where
  bid : Nat
  indexId : Nat
  entry : Nat
  size : Nat
  deriving DecidableEq, Repr

abbrev Row := Nat × Nat

def Block.row (b : Block) : Row := (b.bid, b.indexId)

structure Entry where
  hash : Nat
  block : Block
  deriving DecidableEq, Repr

/-- The slots below `num_entries`; an empty one has `block` 0. -/
abbrev Slots := List (Option Entry)

/-- A page on its way to the table, with its logical page when it has an address map. `current` is not in the source:
the block has not been freed since it was allocated for this page. -/
structure Page where
  hash : Nat
  block : Block
  lba : Option Nat
  current : Bool
  deriving DecidableEq, Repr

structure State where
  index : Row → Index
  node : Nat → Slots
  map : Nat → Option Block
  live : Store Row
  data : Run Row → Nat
  pending : List Page

def blockEntryValid (indexOffset indexBlocks blockIndexOffset blockIndexBlocks : Nat) : Bool :=
  if blockIndexOffset ≤ indexOffset ∧ indexOffset < blockIndexOffset + blockIndexBlocks then false
  else if indexOffset ≤ blockIndexOffset ∧ blockIndexOffset < indexOffset + indexBlocks then false
  else true

section

variable (metaShift : Nat → Nat)

def Block.run (b : Block) : Run Row := blockRun (metaShift b.bid) b.row b.entry b.size

def keepEntry (block : Block) (e : Entry) : Bool :=
  if e.block.bid ≠ block.bid then true
  else if e.block.indexId ≠ block.indexId then true
  else
    blockEntryValid block.entry (block.size / 2 ^ metaShift block.bid) e.block.entry
      (e.block.size / 2 ^ metaShift block.bid)

def ddtableClearInvalidEntries (block : Block) (slots : Slots) : Slots :=
  slots.map fun slot => slot.filter (keepEntry metaShift block)

/-- `insert_idx` is a slot of the node or the one after the last. -/
def setSlot (slots : Slots) (insertIdx : Nat) (e : Entry) : Slots :=
  if insertIdx < slots.length then slots.set insertIdx (some e) else slots ++ [some e]

def findEntry (hash : Nat) : Slots → Nat → Option (Nat × Entry)
  | [], _ => none
  | none :: rest, i => findEntry hash rest (i + 1)
  | some e :: rest, i => if e.hash = hash then some (i, e) else findEntry hash rest (i + 1)

def ddtableHashRemoveBlock (block : Block) : Slots → Slots
  | [] => []
  | none :: rest => none :: ddtableHashRemoveBlock block rest
  | some e :: rest =>
    if e.block = block then none :: rest else some e :: ddtableHashRemoveBlock block rest

/-- The block with a reference taken; an entry that is refused is cleared. -/
def ddblockInfoGet (s : State) (bStart i : Nat) (e : Entry) : State × Option Block :=
  let b := e.block
  let r := b.run metaShift
  match bintRefBlock (s.index b.row) b.entry (b.size / 2 ^ metaShift b.bid) bStart with
  | (x, none) =>
    ({ s with
        index := update s.index b.row x
        live := update s.live r (s.live r + 1) }, some b)
  | (_, some _) => ({ s with node := update s.node bStart ((s.node bStart).set i none) }, none)

def lookup (s : State) (bStart hash : Nat) : State × Option Block :=
  match findEntry hash (s.node bStart) 0 with
  | none => (s, none)
  | some (i, e) => ddblockInfoGet metaShift s bStart i e

def pgdataAmapEntryValid (s : State) (page : Page) : Bool :=
  match page.lba with
  | none => true
  | some lba => s.map lba = some page.block

/-- `ddtable_clear_invalid_entries` and then `ddtable_set_node_block`, on both ways into the table:
`ddtable_ddlookup_insert_entry`, and `ddtable_ddlookup_find_entry` when the hash is there already -/
def hashInsert (s : State) (page : Page) (bStart insertIdx : Nat) : State :=
  let slots := ddtableClearInvalidEntries metaShift page.block (s.node bStart)
  let cleared := { s with
    node := update s.node bStart slots
    pending := s.pending.erase page }
  if !pgdataAmapEntryValid s page then cleared
  else
    match bdevSetNodeBlock (s.index page.block.row) page.block.entry bStart with
    | none => cleared
    | some x =>
      { cleared with
        index := update s.index page.block.row x
        node := update s.node bStart (setSlot slots insertIdx ⟨page.hash, page.block⟩) }

/-- The last critical section of `process_delete_block`, with the node it has locked: none when the block is in no node
or has more references, or the node could not be read -/
def processDeleteBlock (s : State) (b : Block) (ddlookup : Option Nat) : State :=
  let r := b.run metaShift
  let res := bintFreeBlock (s.index b.row) b.entry (b.size / 2 ^ metaShift b.bid)
  { s with
    index := update s.index b.row res.index
    node :=
      match res.freed, ddlookup with
      | true, some bStart =>
        update s.node bStart (ddtableHashRemoveBlock b (s.node bStart))
      | _, _ => s.node
    live := update s.live r (s.live r - 1)
    pending := s.pending.map fun p =>
      if p.block.run metaShift = r ∧ s.live r = 1 then { p with current := false } else p }

def dataPlaced (row : Row) (data : Run Row → Nat) (placed : List Placed) : Run Row → Nat :=
  placed.foldl (fun data p =>
      update data (blockRun (metaShift row.1) row p.start p.size) p.pgdata.hash) data

/-- The pages `ddthread_handle_ddwork` will enter: none that share a block or are excluded from deduplication -/
def pendingOf (row : Row) (mapped : Bool) (placed : List Placed) : List Page :=
  (placed.filter fun p => !p.duplicate && !p.pgdata.dedupeDisabled && hashValid p.pgdata.hash).map
    fun p => ⟨p.pgdata.hash, ⟨row.1, row.2, p.start, p.size⟩,
      if mapped then some p.pgdata.lba else none, true⟩

/-- `mapped` is whether the pages have an address map by the time they are entered. -/
def allocForPgdata (s : State) (row : Row) (enableVerify : Bool) (pages : List Pgdata) (mapped : Bool) : State :=
  let (x, placed, _) := bintAllocForPgdata (metaShift row.1) enableVerify (s.index row) pages
  { s with
    index := update s.index row x
    live := accountPlaced (metaShift row.1) row s.live placed
    data := dataPlaced metaShift row s.data placed
    pending := s.pending ++ pendingOf row mapped placed }

def allocBlock (s : State) (row : Row) (size : Nat) : State :=
  match bintAllocBlock (metaShift row.1) (s.index row) size with
  | (x, none) => { s with index := update s.index row x }
  | (x, some start) =>
    let r := blockRun (metaShift row.1) row start size
    { s with
      index := update s.index row x
      live := update s.live r 1
      data := update s.data r 0 }

/-- A reference taken through the address map, without a node (copies and clones). -/
def refBlock (s : State) (b : Block) : State :=
  let r := b.run metaShift
  match bintRefBlock (s.index b.row) b.entry (b.size / 2 ^ metaShift b.bid) 0 with
  | (x, none) =>
    { s with
      index := update s.index b.row x
      live := update s.live r (s.live r + 1) }
  | (_, some _) => s

inductive Action where
  | allocForPgdata (row : Row) (enableVerify : Bool) (pages : List Pgdata) (mapped : Bool)
  | allocBlock (row : Row) (size : Nat)
  | refBlock (b : Block)
  | setMap (lba : Nat) (b : Option Block)
  | hashInsert (page : Page) (bStart insertIdx : Nat)
  | lookup (bStart hash : Nat)
  | deleteBlock (b : Block) (ddlookup : Option Nat)
  | checkLoad (row : Row)
  | clearLoad (row : Row)
  | unmapBlocks (row : Row) (unmapSupported : Bool)

/-- Pages enter the table once, after they were written; a block is freed or referenced by a holder of a reference; no
node is at block 0. -/
def Action.Allowed (s : State) : Action → Prop
  | .refBlock b => s.live.Live (b.run metaShift)
  | .hashInsert page bStart _ => page ∈ s.pending ∧ bStart ≠ 0
  | .lookup bStart _ => bStart ≠ 0
  | .deleteBlock b _ => s.live.Live (b.run metaShift)
  | _ => True

def State.step (s : State) : Action → State
  | .allocForPgdata row enableVerify pages mapped =>
    allocForPgdata metaShift s row enableVerify pages mapped
  | .allocBlock row size => allocBlock metaShift s row size
  | .refBlock b => refBlock metaShift s b
  | .setMap lba b => { s with map := update s.map lba b }
  | .hashInsert page bStart insertIdx => hashInsert metaShift s page bStart insertIdx
  | .lookup bStart hash => (lookup metaShift s bStart hash).1
  | .deleteBlock b ddlookup => processDeleteBlock metaShift s b ddlookup
  | .checkLoad row => { s with index := update s.index row (indexCheckLoad (s.index row)) }
  | .clearLoad row =>
    { s with index := update s.index row { s.index row with loadDone := false } }
  | .unmapBlocks row unmapSupported =>
    { s with index := update s.index row (bintUnmapBlocks unmapSupported (s.index row)) }

structure State.Empty (fixed : Row → Nat → Prop) (s : State) : Prop where
  represents : Represents fixed (counts s.index) s.live
  node : ∀ row i, nodeOf ((s.index row).bmap i) = 0
  slots : ∀ bStart, s.node bStart = []
  pending : s.pending = []

def system (fixed : Row → Nat → Prop) : System State Action where
  init := State.Empty fixed
  step s a s' := a.Allowed metaShift s ∧ s' = s.step metaShift a

def Action.InsertsCurrent : Action → Prop
  | .hashInsert page _ _ => page.current = true
  | _ => True

end

end QuadStor.DDTable
