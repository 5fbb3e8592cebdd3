import QuadStor.DDTable.Basic

/-!
# A write and its error path

The pages of one write take references in four ways: a fresh allocation, a page of the same batch with the same
hash, a hit in the dedupe table, and a copy by reference.
-/

namespace QuadStor.Write

open Lib Bint DDTable Function

/-- A `struct pgdata` of the write, with the flags the error path reads; a block number 0 is `none`. -/
structure Page where
  lba : Nat
  amapBlock : Option Block
  oldAmapBlock : Option Block
  foundDuplicate : Bool
  doneAlloc : Bool
  doneAmapUpdate : Bool
  deriving DecidableEq, Repr

def Page.new (lba : Nat) : Page := ⟨lba, none, none, false, false, false⟩

def Page.holds (p : Page) : Option Block :=
  if p.foundDuplicate || p.doneAlloc then p.amapBlock else none

/-- `live`, `others` and `orig` are not in the source: the references outstanding on each run, the counts without this
write, and the map before it. -/
structure State where
  index : Row → Index
  map : Nat → Option Block
  pages : List Page
  live : Store Row
  others : Row → Nat → Nat
  orig : Nat → Option Block

def updatePage (pages : List Page) (lba : Nat) (f : Page → Page) : List Page :=
  pages.map fun p => if p.lba = lba then f p else p

section

variable (metaShift : Nat → Nat)

def Block.count (b : Block) : Nat := b.size / 2 ^ metaShift b.bid

/-- A dedupe hit (`node` is the hash node) or a copy by reference (`node` is 0): `bint_ref_block` succeeded. -/
def State.reference (s : State) (lba : Nat) (b : Block) (x : Index) (f : Page → Page) : State :=
  { s with
    index := update s.index b.row x
    live := update s.live (b.run metaShift) (s.live (b.run metaShift) + 1)
    pages := updatePage s.pages lba f }

def Page.dedupeHit (b : Block) (p : Page) : Page := { p with amapBlock := some b, foundDuplicate := true }

def Page.copyRef (b : Block) (p : Page) : Page :=
  { p with amapBlock := some b, foundDuplicate := true, doneAlloc := true }

def Page.placed (row : Row) (pl : Placed) (p : Page) : Page :=
  { p with
    amapBlock := some ⟨row.1, row.2, pl.start, pl.size⟩
    foundDuplicate := p.foundDuplicate || pl.duplicate
    doneAlloc := true }

def placePages (row : Row) (placed : List Placed) (pages : List Page) : List Page :=
  placed.foldl (fun pages pl => updatePage pages pl.pgdata.lba (Page.placed row pl)) pages

def State.allocBatch (s : State) (row : Row) (enableVerify : Bool) (pages : List Pgdata) : State :=
  let (x, placed, _) := bintAllocForPgdata (metaShift row.1) enableVerify (s.index row) pages
  { s with
    index := update s.index row x
    live := accountPlaced (metaShift row.1) row s.live placed
    pages := placePages row placed s.pages }

/-- The loop of `pgdata_alloc_blocks` over the pages a batch left over -/
def State.allocSingle (s : State) (row : Row) (lba size : Nat) : State :=
  match bintAllocBlock (metaShift row.1) (s.index row) size with
  | (x, none) => { s with index := update s.index row x }
  | (x, some start) =>
    let b : Block := ⟨row.1, row.2, start, size⟩
    { s with
      index := update s.index row x
      live := update s.live (b.run metaShift) 1
      pages := updatePage s.pages lba fun p => { p with amapBlock := some b, doneAlloc := true } }

/-- `process_delete_block`, without the hash node it may also clear. -/
def State.deleteBlock (s : State) (b : Block) : State :=
  let x := indexCheckLoad (s.index b.row)
  if x.dataError then { s with index := update s.index b.row x }
  else
    { s with
      index := update s.index b.row (bintFreeBlock x b.entry (Block.count metaShift b)).index
      live := update s.live (b.run metaShift) (s.live (b.run metaShift) - 1) }

/-- A dedupe hit whose data turned out to differ. -/
def State.resetDdblock (s : State) (lba : Nat) (b : Block) : State :=
  let x := indexCheckLoad (s.index b.row)
  { s with
    index := update s.index b.row (bintFreeBlock x b.entry (Block.count metaShift b)).index
    live := update s.live (b.run metaShift) (s.live (b.run metaShift) - 1)
    pages := updatePage s.pages lba fun p => Page.new p.lba }

def State.amapIo (s : State) (p : Page) : State :=
  if s.map p.lba = none ∧ p.amapBlock = none then s
  else
    { s with
      map := update s.map p.lba p.amapBlock
      pages := updatePage s.pages p.lba fun p =>
        { p with oldAmapBlock := s.map p.lba, doneAmapUpdate := true } }

def State.cancelPage (s : State) (p : Page) : State :=
  if !p.doneAmapUpdate then
    match p.amapBlock with
    | none => s
    | some b => if p.doneAlloc then s.deleteBlock metaShift b else s
  else if s.map p.lba ≠ p.amapBlock then s
  else
    let restored := { s with map := update s.map p.lba p.oldAmapBlock }
    match p.amapBlock with
    | none => restored
    | some b => if p.doneAlloc then restored.deleteBlock metaShift b else restored

def pgdataCancel (s : State) : State := s.pages.foldl (State.cancelPage metaShift) s

def heldSum (g : Block → Nat) (pages : List Page) : Nat :=
  (pages.map fun p => (p.holds.map g).getD 0).sum

def heldRefs (pages : List Page) (r : Run Row) : Nat :=
  heldSum (fun b => if b.run metaShift = r then 1 else 0) pages

def heldCounts (pages : List Page) (row : Row) (i : Nat) : Nat :=
  heldSum (fun b => if (b.run metaShift).Has row i then 1 else 0) pages

inductive Action where
  | dedupeHit (p : Page) (b : Block) (nodeBlock : Nat) (x : Index)
  | copyRef (p : Page) (b : Block) (x : Index)
  /-- the block could not be referenced and will be read -/
  | copyMiss (p : Page) (b : Block)
  | allocBatch (row : Row) (enableVerify : Bool) (pages : List Pgdata)
  | allocSingle (p : Page) (row : Row) (size : Nat)
  | resetDdblock (p : Page) (b : Block)
  | amapIo (p : Page)
  | other (s' : State)

def State.Waits (s : State) (p : Page) : Prop :=
  p ∈ s.pages ∧ p.foundDuplicate = false ∧ p.doneAlloc = false ∧ p.doneAmapUpdate = false

structure State.Other (fixed : Row → Nat → Prop) (s s' : State) : Prop where
  pages : s'.pages = s.pages
  orig : s'.orig = s.orig
  map : ∀ p ∈ s.pages, s'.map p.lba = s.map p.lba
  represents : Represents fixed (counts s'.index) s'.live
  /-- the references of the write are among those outstanding, ... -/
  live : ∀ r, heldRefs metaShift s.pages r ≤ s'.live r
  /-- ... and every count is that of the other threads and of the write together. -/
  counts : ∀ row i, Bint.counts s'.index row i = s'.others row i + heldCounts metaShift s.pages row i

def step (fixed : Row → Nat → Prop) (s : State) : Action → State → Prop
  | .dedupeHit p b nodeBlock x, s' =>
    s.Waits p ∧ s.live.Live (b.run metaShift) ∧
      bintRefBlock (s.index b.row) b.entry (Block.count metaShift b) nodeBlock = (x, none) ∧
      s' = s.reference metaShift p.lba b x (Page.dedupeHit b)
  | .copyRef p b x, s' =>
    s.Waits p ∧ s.live.Live (b.run metaShift) ∧
      bintRefBlock (s.index b.row) b.entry (Block.count metaShift b) 0 = (x, none) ∧
      s' = s.reference metaShift p.lba b x (Page.copyRef b)
  | .copyMiss p b, s' =>
    s.Waits p ∧ s' = { s with pages := updatePage s.pages p.lba fun p => { p with amapBlock := some b } }
  | .allocBatch row enableVerify pages, s' =>
    (pages.map Pgdata.lba).Nodup ∧ (∀ pg ∈ pages, ∃ p, s.Waits p ∧ p.lba = pg.lba) ∧
      s' = s.allocBatch metaShift row enableVerify pages
  | .allocSingle p row size, s' => s.Waits p ∧ s' = s.allocSingle metaShift row p.lba size
  | .resetDdblock p b, s' =>
    p ∈ s.pages ∧ p.foundDuplicate = true ∧ p.doneAlloc = false ∧ p.doneAmapUpdate = false ∧
      p.amapBlock = some b ∧ s' = s.resetDdblock metaShift p.lba b
  | .amapIo p, s' => p ∈ s.pages ∧ p.doneAmapUpdate = false ∧ s' = s.amapIo p
  | .other s₁, s' => s' = s₁ ∧ s.Other metaShift fixed s₁

structure State.Start (fixed : Row → Nat → Prop) (s : State) : Prop where
  nodup : (s.pages.map Page.lba).Nodup
  fresh : ∀ p ∈ s.pages, p = Page.new p.lba
  represents : Represents fixed (counts s.index) s.live
  others : s.others = Bint.counts s.index
  orig : s.orig = s.map

def system (fixed : Row → Nat → Prop) : System State Action where
  init := State.Start fixed
  step := step metaShift fixed

end

end QuadStor.Write
