import QuadStor.DDTable.Basic

/-!
# Entering a page in the hash nodes

To enter a page `ddtable_hash_insert` goes through the nodes of its hash with the insert lock, notes the slot it
would use and comes back to that node.
-/

namespace QuadStor.HashNode

open Bint (bmapEntries)
open DDTable (blockEntryValid)

def blockBlocknr (block : BitVec 64) : Nat := (block &&& 0x3FFFFFFFFF#64).toNat

def blockBid (block : BitVec 64) : Nat := ((block >>> 38) &&& 0x1FF#64).toNat

def lbaBlockSize (block : BitVec 64) : Nat :=
  let size := ((block >>> 47) &&& 0x7#64).toNat
  if size ≠ 0 then size <<< 9 else 4096

structure Disk where
  bid : Nat
  sectorShift : Nat
  enableComp : Bool
  deriving DecidableEq, Repr

def Disk.metaShift (d : Disk) : Nat := if d.enableComp then 10 else 12

def indexIdFromBlock (d : Disk) (block : Nat) : Nat × Nat :=
  let block := (block <<< d.sectorShift) >>> d.metaShift
  (block / bmapEntries, block - block / bmapEntries * bmapEntries)

structure Entry where
  block : BitVec 64
  hash : BitVec 256
  time : BitVec 16
  deriving DecidableEq, Repr

def Entry.zero : Entry := ⟨0, 0, 0⟩

def Entry.amapBlock (e : Entry) : BitVec 64 := e.block &&& 0x3FFFFFFFFFFFF#64

def setEntryBlockTime (block curtime : BitVec 64) (e : Entry) : Entry :=
  { e with
    block := block ||| (curtime &&& 0x3FFF#64) <<< 50
    time := ((curtime >>> 14) &&& 0xFFFF#64).setWidth 16 }

def entryBlockTime (e : Entry) : BitVec 32 := ((e.block >>> 50) ||| e.time.setWidth 64 <<< 14).setWidth 32

/-- The entries below `num_entries` -/
abbrev Node := List Entry

def maxBlocks : Nat := (4096 - 18) / 42

structure Page where
  amapBlock : BitVec 50
  hash : BitVec 256
  bint : Disk
  ne_zero : amapBlock ≠ 0
  bid_eq : blockBid (amapBlock.setWidth 64) = bint.bid

def Page.block (p : Page) : BitVec 64 := p.amapBlock.setWidth 64

structure LocateSpec where
  newEntry : Bool
  valid : Bool
  insertDdlookup : Nat
  insertIdx : Nat
  incr : Bool
  time : BitVec 32
  deriving DecidableEq, Repr

def LocateSpec.zero : LocateSpec := ⟨false, false, 0, 0, false, 0⟩

def ddtableAddToLocateSpec (spec : LocateSpec) (ddlookup insertIdx : Nat) (e : Entry) (incr : Bool) : LocateSpec :=
  if e.block = 0 ∨ spec.time = 0 ∨ entryBlockTime e < spec.time then
    { newEntry := spec.newEntry || e.block == 0
      valid := true
      insertDdlookup := ddlookup
      insertIdx
      incr
      time := entryBlockTime e }
  else spec

def LocateSpec.add (spec : LocateSpec) (ddlookup insertIdx : Nat) (e : Entry) (incr : Bool) : LocateSpec :=
  if spec.newEntry then spec else ddtableAddToLocateSpec spec ddlookup insertIdx e incr

section

variable (find : Nat → Option Disk)

/-- The loop of `ddtable_ddlookup_find_entry` with `skip_dd`, from slot `i` of node `k` on: the entries after it, the
noted slot, and the slot of an entry that has the hash -/
def findLoop (hash : BitVec 256) (k : Nat) : Nat → Node → LocateSpec → Node × LocateSpec × Option Nat
  | _, [], spec => ([], spec, none)
  | i, e :: rest, spec =>
    if e.block = 0 then
      let (rest, spec, found) := findLoop hash k (i + 1) rest (spec.add k i e false)
      (e :: rest, spec, found)
    else if (find (blockBid e.amapBlock)).isNone then
      let (rest, spec, found) := findLoop hash k (i + 1) rest (spec.add k i .zero false)
      (.zero :: rest, spec, found)
    else if e.hash = hash then (e :: rest, spec, some i)
    else
      let (rest, spec, found) := findLoop hash k (i + 1) rest (spec.add k i e false)
      (e :: rest, spec, found)

def ddtableDdlookupFindEntry (hash : BitVec 256) (k : Nat) (node : Node) (spec : LocateSpec) :
    Node × LocateSpec × Option Nat :=
  match findLoop find hash k 0 node spec with
  | (node, spec, some i) => (node, spec, some i)
  | (node, spec, none) =>
    (node, if node.length ≠ maxBlocks then spec.add k node.length .zero true else spec, none)

end

def keepEntry (page : Page) (e : Entry) : Bool :=
  if blockBid e.block ≠ page.bint.bid then true
  else
    let (indexId, indexOffset) := indexIdFromBlock page.bint (blockBlocknr page.block)
    let (blockIndexId, blockIndexOffset) := indexIdFromBlock page.bint (blockBlocknr e.block)
    if blockIndexId ≠ indexId then true
    else
      blockEntryValid indexOffset (lbaBlockSize page.block >>> page.bint.metaShift) blockIndexOffset
        (lbaBlockSize e.block >>> page.bint.metaShift)

/-- The loop of `ddtable_clear_invalid_entries` from slot `i` on, with the last empty slot; a slot that was noted is
dropped when there is one. -/
def clearLoop (page : Page) : Nat → Node → Option Nat → Node × Option Nat
  | _, [], insertIdx => ([], insertIdx)
  | i, e :: rest, insertIdx =>
    if e.block = 0 then
      let (rest, insertIdx) := clearLoop page (i + 1) rest (some i)
      (e :: rest, insertIdx)
    else if keepEntry page e then
      let (rest, insertIdx) := clearLoop page (i + 1) rest insertIdx
      (e :: rest, insertIdx)
    else
      let (rest, insertIdx) := clearLoop page (i + 1) rest (some i)
      (.zero :: rest, insertIdx)

def ddtableClearInvalidEntries (page : Page) (node : Node) : Node × Option Nat := clearLoop page 0 node none

def Page.entry (page : Page) (curtime : BitVec 64) : Entry :=
  { setEntryBlockTime page.block curtime .zero with hash := page.hash }

/-- `set` is whether the page is still mapped and `bdev_set_node_block` found no other node. -/
def ddtableSetNodeBlock (set : Bool) (curtime : BitVec 64) (page : Page) (node : Node) (insertIdx : Nat) (incr : Bool) :
    Node × Option Nat :=
  if !set then (node, none)
  else if incr then (node ++ [page.entry curtime], some insertIdx)
  else (node.set insertIdx (page.entry curtime), some insertIdx)

def ddtableDdlookupInsertEntry (set : Bool) (curtime : BitVec 64) (page : Page) (node : Node)
    (spec : Option LocateSpec) : Node × Option Nat :=
  let (node, insertIdx) := ddtableClearInvalidEntries page node
  match insertIdx, spec.filter (·.valid) with
  | some i, _ => ddtableSetNodeBlock set curtime page node i false
  | none, some spec => ddtableSetNodeBlock set curtime page node spec.insertIdx spec.incr
  | none, none =>
    if node.length = maxBlocks then (node, none)
    else ddtableSetNodeBlock set curtime page node node.length true

inductive Walk where
  | failed
  | sameHash (k i : Nat)
  | done (spec : LocateSpec)
  deriving DecidableEq, Repr

/-- The loop of `ddtable_hash_insert` from node `k` on; `readOk` is whether a node could be read. -/
def walk (find : Nat → Option Disk) (readOk : Nat → Bool) (hash : BitVec 256) :
    Nat → List Node → LocateSpec → List Node × Walk
  | _, [], spec => ([], .done spec)
  | k, node :: rest, spec =>
    if !readOk k then (node :: rest, .failed)
    else
      match ddtableDdlookupFindEntry find hash k node spec with
      | (node, _, some i) => (node :: rest, .sameHash k i)
      | (node, spec, none) =>
        let (rest, result) := walk find readOk hash (k + 1) rest spec
        (node :: rest, result)

structure Env where
  find : Nat → Option Disk
  readOk : Nat → Bool
  /-- `ddtable_global_can_add_ddlookup` when the walk has ended, and once more when there is no slot -/
  canAdd : Bool
  canAddStill : Bool
  newNode : Bool
  set : Bool
  curtime : BitVec 64

structure Result where
  nodes : List Node
  placed : Option (Nat × Nat)

def Result.at (nodes : List Node) (k : Nat) (r : Node × Option Nat) : Result :=
  ⟨nodes.set k r.1, r.2.map fun i => (k, i)⟩

def ddtableHashInsert (env : Env) (page : Page) (nodes : List Node) : Result :=
  match walk env.find env.readOk page.hash 0 nodes .zero with
  | (nodes, .failed) => ⟨nodes, none⟩
  | (nodes, .sameHash k i) =>
    .at nodes k (ddtableSetNodeBlock env.set env.curtime page
      (ddtableClearInvalidEntries page (nodes.getD k [])).1 i false)
  | (nodes, .done spec) =>
    -- a new node is preferred to a slot in use
    let spec := if env.canAdd && spec.valid && !spec.newEntry then { spec with valid := false } else spec
    if spec.valid then
      .at nodes spec.insertDdlookup
        (ddtableDdlookupInsertEntry env.set env.curtime page (nodes.getD spec.insertDdlookup []) (some spec))
    else if !env.canAddStill || !env.newNode then ⟨nodes, none⟩
    else
      .at (nodes ++ [[]]) nodes.length (ddtableDdlookupInsertEntry env.set env.curtime page [] none)

section

variable (find : Nat → Option Disk)

def Entry.Covers (d : Disk) (e : Entry) (x : Nat) : Prop :=
  (indexIdFromBlock d (blockBlocknr e.block)).2 ≤ x ∧
    x < (indexIdFromBlock d (blockBlocknr e.block)).2 + lbaBlockSize e.block >>> d.metaShift

def Overlap (a b : Entry) : Prop :=
  blockBid a.block = blockBid b.block ∧ ∃ d, find (blockBid a.block) = some d ∧
    (indexIdFromBlock d (blockBlocknr a.block)).1 = (indexIdFromBlock d (blockBlocknr b.block)).1 ∧
    ∃ x, a.Covers d x ∧ b.Covers d x

structure Node.Consistent (node : Node) : Prop where
  length_le : node.length ≤ maxBlocks
  apart : ∀ {i j : Nat} {a b : Entry}, i ≠ j → node[i]? = some a → node[j]? = some b → a.block ≠ 0 → b.block ≠ 0 → ¬Overlap find a b

def Entry.Stays (page : Page) (e : Entry) : Prop :=
  e.block ≠ 0 ∧ (find (blockBid e.amapBlock)).isSome ∧ keepEntry page e

instance (page : Page) (e : Entry) : Decidable (e.Stays find page) := inferInstanceAs (Decidable (_ ∧ _ ∧ _))

def Node.Vacant (page : Page) (node : Node) (i : Nat) : Prop :=
  i < maxBlocks ∧ ∀ e, node[i]? = some e → ¬e.Stays find page

def Node.RightSlot (page : Page) (node : Node) (i : Nat) : Prop :=
  ((∃ j, node.Vacant find page j) → node.Vacant find page i) ∧
    ((¬∃ j, node.Vacant find page j) → ∃ e, node[i]? = some e ∧ ∀ e' ∈ node, entryBlockTime e ≤ entryBlockTime e')

def Node.TimesOk (page : Page) (node : Node) : Prop :=
  (∃ j, node.Vacant find page j) ∨ (∀ e ∈ node, entryBlockTime e ≠ 0) ∨
    ∃ e, node.getLast? = some e ∧ entryBlockTime e = 0

def HasHash (page : Page) (nodes : List Node) : Prop :=
  ∃ node ∈ nodes, ∃ e ∈ node, e.block ≠ 0 ∧ (find (blockBid e.amapBlock)).isSome ∧ e.hash = page.hash

structure PlacedOk (page : Page) (nodes : List Node) (k i : Nat) : Prop where
  sameHash : HasHash find page nodes → ∃ e, (nodes.getD k [])[i]? = some e ∧ e.hash = page.hash
  rightSlot : ¬HasHash find page nodes → ((nodes.getD k []).RightSlot find page i ↔ (nodes.getD k []).TimesOk find page)

def Result.Holds (page : Page) (r : Result) (k i : Nat) : Prop :=
  ∃ node e, r.nodes[k]? = some node ∧ node[i]? = some e ∧ e.block ≠ 0 ∧ e.amapBlock = page.block ∧ e.hash = page.hash

structure InsertOk (page : Page) (nodes : List Node) (r : Result) : Prop where
  consistent : ∀ node ∈ r.nodes, node.Consistent find
  placed : ∀ {k i : Nat}, r.placed = some (k, i) → r.Holds page k i ∧ PlacedOk find page nodes k i

end

end QuadStor.HashNode
