import QuadStor.Command.Lemmas.Write
import QuadStor.Lib.Shared

/-!
# Copy tokens

POPULATE TOKEN takes references to the blocks of a range. WRITE USING TOKEN copies from the token: by reference, if
the range still has those blocks, and otherwise by reading them.
-/

namespace QuadStor.Token

open Lib Command Function

open DDTable (Block)
open Read (Bytes zeroPage)

def maximumBytesInBlockRod : Nat := 4 * 1024 * 1024

abbrev PageData := { bytes : Bytes // bytes.length = 4096 }

def blank : PageData := ⟨zeroPage, length_zeroPage⟩

theorem length_ones : (List.replicate 4096 (1 : UInt8)).length = 4096 := List.length_replicate

inductive Owner where
  | page (disk n : Nat)
  | token (rod i : Nat)
  deriving DecidableEq, Repr

abbrev Pool := Shared Owner Block PageData

/-- `rod_token_spec` with its `rod_entry`; with one range descriptor a token has one entry. -/
structure RodToken (disks : Nat → Settings) where
  src : Nat
  lba : Nat
  numBlocks : Nat
  pglist : List (Option Block)
  writeTransferCount : Nat
  /-- the source disk at the time of POPULATE TOKEN; not in the source -/
  snapshot : Volume
  numBlocks_pos : 0 < numBlocks
  size_le : numBlocks * 2 ^ (disks src).lbaShift ≤ maximumBytesInBlockRod
  length_pglist : pglist.length = transferLengthToPglistCnt (disks src).lbaShift (numBlocks + (disks src).lbaDiff lba)
  legacy_snapshot : snapshot.legacy = (disks src).legacy

structure State (disks : Nat → Settings) where
  pool : Pool
  /-- `rod_token_list`, by `rod_identifier` -/
  token : Nat → Option (RodToken disks)

variable {disks : Nat → Settings}

def State.volume (s : State disks) (disk : Nat) : Volume where
  toSettings := disks disk
  page n := (s.pool.read blank (.page disk n)).1
  length_page n := (s.pool.read blank (.page disk n)).2

def pageData (p : Pgdata) : PageData := ⟨p.content, p.length_content⟩

def placed (io : WriteIo) (lba : Nat) (pages : List Pgdata) : List (Option PageData) :=
  pages.mapIdx fun i p => if io.skipped lba i p then none else some (pageData p)

/-- `__tdisk_cmd_write`, down to the blocks: each page gets a new block or one that has the same data, and the
references to what the map had are given up. -/
def State.TdiskCmdWrite (io : WriteIo) (s : State disks) (disk lba transferLength : Nat) (pages : List Pgdata)
    (s' : State disks) (ok : Bool) : Prop :=
  if (s.volume disk).reachedEom lba transferLength then s' = s ∧ ok = false
  else
    match (s.volume disk).checkUnalignedData io lba transferLength pages with
    | none => s' = s ∧ ok = false
    | some (n, pages) => ok = io.ok ∧ s'.token = s.token ∧
        Shared.PutsAll blank (fun i => Owner.page disk (n + i)) s.pool 0 (placed io n pages) s'.pool

structure Descriptor where
  lba : Nat
  numBlocks : Nat

structure RefIo where
  ok : Bool
  taken : Nat → Bool

def State.rodTokenAddDescriptor (io : RefIo) (s : State disks) (src rod : Nat) (d : Descriptor)
    (hpos : 0 < d.numBlocks) (hsize : d.numBlocks * 2 ^ (disks src).lbaShift ≤ maximumBytesInBlockRod) : State disks :=
  let count := transferLengthToPglistCnt (disks src).lbaShift (d.numBlocks + (disks src).lbaDiff d.lba)
  let block i := s.pool.name (.page src ((disks src).lbaReal d.lba + i))
  { pool := s.pool.moves (.token rod) (fun i => if io.taken i then block i else none) count
    token := update s.token rod <| some
      { src, lba := d.lba, numBlocks := d.numBlocks, pglist := (List.range count).map block
        writeTransferCount := 0, snapshot := s.volume src, numBlocks_pos := hpos, size_le := hsize
        length_pglist := by simp [count], legacy_snapshot := rfl } }

/-- `MAXIMUM_RANGE_DESCRIPTORS` is 1. -/
def State.populateToken (io : RefIo) (s : State disks) (src rod : Nat) : List Descriptor → State disks
  | [d] =>
    if (s.volume src).reachedEom d.lba d.numBlocks then s
    else if h : 0 < d.numBlocks ∧ d.numBlocks * 2 ^ (disks src).lbaShift ≤ maximumBytesInBlockRod then
      if io.ok then s.rodTokenAddDescriptor io src rod d h.1 h.2 else s
    else s
  | _ => s

/-- `rod_token_error_free`, after a time without use or if the initiator asks for it -/
def State.rodTokenErrorFree (s : State disks) (rod : Nat) : State disks :=
  match s.token rod with
  | none => s
  | some t =>
    { pool := s.pool.moves (.token rod) (fun _ => none) t.pglist.length
      token := update s.token rod none }

/-! ## WRITE USING TOKEN -/

structure CopyIo where
  /-- the tables and maps of the range could be read -/
  mapRead : Bool
  /-- what is found for page `i` of the token in a map that is still being read -/
  reading : Nat → Option (Option Block)
  ref : RefIo
  alloc : Bool
  /-- `bdev_find`, `pgdata_alloc_page` and `tcache_add_page` for page `i` -/
  page : Nat → Bool
  /-- no `TCACHE_IO_ERROR`, and `pgdata_post_read_io` returns 0 -/
  read : Bool
  /-- `pgdata_allocate` in `remap_pglist_for_write`, and what is in the pages -/
  remap : Bool
  fresh : Nat → PageData
  write : WriteIo

def isUnalignedExtendedCopy (legacy : Bool) (srcLba destLba size : Nat) : Bool :=
  legacy && !(srcLba % 8 == 0 && size % 4096 == 0 && destLba % 8 == 0)

/-- The block that the source disk has for page `i` of the token -/
def State.sourceBlock (s : State disks) (t : RodToken disks) (i : Nat) : Option Block :=
  s.pool.name (.page t.src ((disks t.src).lbaReal t.lba + i))

/-- It does not wait for a map that is being read, as `__tdisk_cmd_ref_int` does. -/
def State.rodEntryAmapModified (io : CopyIo) (s : State disks) (t : RodToken disks) (rodIdx rodPglistCnt : Nat) : Bool :=
  !io.mapRead || (List.range' rodIdx (rodPglistCnt - rodIdx)).any fun i =>
    t.pglist[i]? != some ((io.reading i).getD (s.sourceBlock t i))

inductive RodRead where
  | pages (pages : List Pgdata)
  | failed
  /-- an access behind the end of `pglist` -/
  | outOfBounds

def rodPage (pool : Pool) : Option Block → Pgdata
  | none => Pgdata.unmapped
  | some b => ⟨false, (pool.data b).1, (pool.data b).2⟩

/-- The loop of `read_from_rod_entry` from page `i` of the token on. The list has `pglistCnt` pages and is accessed at
`i` too. -/
def readRodPages (io : CopyIo) (pool : Pool) (pglistCnt : Nat) : Nat → List (Option Block) → List Pgdata → RodRead
  | _, [], done => .pages done
  | i, e :: rest, done =>
    if pglistCnt ≤ i then .outOfBounds
    else if e.isSome && !io.page i then .failed
    else readRodPages io pool pglistCnt (i + 1) rest (done ++ [rodPage pool e])

def readFromRodEntry (io : CopyIo) (pool : Pool) (t : RodToken disks) (rodIdx rodPglistCnt : Nat) : RodRead :=
  if !io.alloc then .failed
  else
    match readRodPages io pool (rodPglistCnt - rodIdx) rodIdx ((t.pglist.take rodPglistCnt).drop rodIdx) [] with
    | .pages pages => if io.read then .pages pages else .failed
    | other => other

def sizeToPglistCnt (size : Nat) : Nat := if size % 4096 ≠ 0 then size / 4096 + 1 else size / 4096

/-- The data begins at `pgOffset` of the first page. -/
def remapPglistForWrite (io : CopyIo) (pgOffset size : Nat) (pages : List Pgdata) : List Pgdata :=
  (Cursor.copy ((pages.map Pgdata.bytes).modify 0 (List.drop pgOffset)) size
    ((List.range (sizeToPglistCnt size)).map fun i => (io.fresh i).1) ⟨0, 0⟩ ⟨0, 0⟩ size).pmap
    (fun bytes h => ⟨false, bytes, h⟩) (length_of_mem_copy (by simp [fun i => (io.fresh i).2]))

/-- `pglist_calc_hash`, for a page without a block -/
def pglistCalcHash (dedupe : Bool) (p : Pgdata) : Pgdata :=
  if p.zero then p else ⟨dedupe && p.bytes == zeroPage, p.bytes, p.length_bytes⟩

/-- The pages from `__tdisk_cmd_ref_int`; those that share their block are not looked at any more. -/
def State.refPages (io : CopyIo) (s : State disks) (src dest srcLba blocks : Nat) : List Pgdata :=
  (List.range (transferLengthToPglistCnt (disks src).lbaShift blocks)).map fun i =>
    let p := rodPage s.pool (s.pool.name (.page src ((disks src).lbaReal srcLba + i)))
    if io.ref.taken i then p else pglistCalcHash (disks dest).dedupe p

inductive Plan where
  | check
  | stop
  | outOfBounds
  | write (d : Descriptor) (blocks : Nat) (pages : List Pgdata)

/-- `copy_to_dest_range`, to the call of `__tdisk_cmd_write` -/
def State.copyToDestRange (io : CopyIo) (s : State disks) (dest : Nat) (d : Descriptor) (t : RodToken disks)
    (srcLba blocks rodIdx rodPglistCnt : Nat) : Plan :=
  let g := disks t.src
  let size := u32 (blocks * 2 ^ g.lbaShift)
  let unaligned := g.lbaDiff t.lba != 0 || isUnalignedExtendedCopy g.legacy srcLba d.lba size
  if !(unaligned || s.rodEntryAmapModified io t rodIdx rodPglistCnt) then
    if io.ref.ok then .write d blocks (s.refPages io t.src dest srcLba blocks) else .check
  else
    match readFromRodEntry io s.pool t rodIdx rodPglistCnt with
    | .failed => .stop
    | .outOfBounds => .outOfBounds
    | .pages pages =>
      let pgOffset := g.lbaDiff srcLba * 2 ^ g.lbaShift
      if pgOffset = 0 then .write d blocks (pages.map (pglistCalcHash (disks dest).dedupe))
      else if io.remap then
        .write d blocks ((remapPglistForWrite io pgOffset size pages).map (pglistCalcHash (disks dest).dedupe))
      else .stop

/-- The loop over the entries has one round. -/
def State.rodTokenProcessDescriptor (io : CopyIo) (s : State disks) (dest offset : Nat) (d : Descriptor)
    (t : RodToken disks) : Plan :=
  let g := disks t.src
  let span := u32 (offset * 2 ^ (disks dest).lbaShift)
  let startBlock := span / 2 ^ g.lbaShift
  if t.numBlocks ≤ startBlock then .check
  else
    let srcNumBlocks := t.numBlocks - startBlock
    let srcSize := u32 ((startBlock + g.lbaDiff t.lba) * 2 ^ g.lbaShift)
    let srcEndSize := u32 (srcSize + u32 (srcNumBlocks * 2 ^ g.lbaShift))
    let minSize := min (u32 (srcNumBlocks * 2 ^ g.lbaShift)) (u32 (d.numBlocks * 2 ^ (disks dest).lbaShift))
    s.copyToDestRange io dest d t (t.lba + startBlock) (minSize / 2 ^ g.lbaShift) (srcSize / 4096)
      (sizeToPglistCnt srcEndSize)

structure Request where
  dest : Nat
  rod : Nat
  offset : Nat
  descriptors : List Descriptor

/-- `tdisk_cmd_write_using_token`, to the call of `__tdisk_cmd_write` -/
def State.plan (io : CopyIo) (s : State disks) (r : Request) : Plan :=
  match r.descriptors with
  | [d] =>
    if (s.volume r.dest).reachedEom d.lba d.numBlocks then .check
    else if d.numBlocks = 0 then .stop
    else if maximumBytesInBlockRod < d.numBlocks * 2 ^ (disks r.dest).lbaShift then .check
    else
      match s.token r.rod with
      | none => .check
      | some t =>
        if (disks t.src).legacy != (disks r.dest).legacy then .check
        else s.rodTokenProcessDescriptor io r.dest r.offset d t
  | _ => .check

inductive Status where
  | good
  | check
  | undefined
  deriving DecidableEq, Repr

def State.addTransferCount (s : State disks) (rod n : Nat) : State disks :=
  { s with token := update s.token rod <|
      (s.token rod).map fun t => { t with writeTransferCount := t.writeTransferCount + n } }

/-- What it leaves, the status, and the number of blocks it has written -/
inductive State.WriteUsingToken (io : CopyIo) (s : State disks) (r : Request) : State disks → Status → Nat → Prop where
  | check : s.plan io r = .check → WriteUsingToken io s r s .check 0
  | stop : s.plan io r = .stop → WriteUsingToken io s r s .good 0
  | outOfBounds : s.plan io r = .outOfBounds → WriteUsingToken io s r s .undefined 0
  | failed {d : Descriptor} {blocks : Nat} {pages : List Pgdata} {s' : State disks} :
      s.plan io r = .write d blocks pages →
      s.TdiskCmdWrite io.write r.dest d.lba blocks pages s' false → WriteUsingToken io s r s' .check 0
  | written {d : Descriptor} {blocks : Nat} {pages : List Pgdata} {s' : State disks} :
      s.plan io r = .write d blocks pages →
      s.TdiskCmdWrite io.write r.dest d.lba blocks pages s' true →
      WriteUsingToken io s r (s'.addTransferCount r.rod d.numBlocks) .good blocks

inductive Action where
  | write (io : WriteIo) (disk lba transferLength : Nat) (pages : List Pgdata)
  | populateToken (io : RefIo) (src rod : Nat) (descriptors : List Descriptor)
  | writeUsingToken (io : CopyIo) (r : Request)
  | rodTokenErrorFree (rod : Nat)

def State.Step (s : State disks) (a : Action) (s' : State disks) : Prop :=
  match a with
  | .write io disk lba transferLength pages => ∃ ok, s.TdiskCmdWrite io disk lba transferLength pages s' ok
  | .populateToken io src rod descriptors => s.token rod = none ∧ s' = s.populateToken io src rod descriptors
  | .writeUsingToken io r => ∃ status written, status ≠ .undefined ∧ s.WriteUsingToken io r s' status written
  | .rodTokenErrorFree rod => s' = s.rodTokenErrorFree rod

def system (disks : Nat → Settings) : System (State disks) Action where
  init s := s.pool.Counted ∧ ∀ rod, s.token rod = none
  step := State.Step


structure Faithful (s : State disks) (t : RodToken disks) (r : Request) (d : Descriptor) (s' : State disks)
    (written : Nat) : Prop where
  offset : r.offset < t.numBlocks
  range : ∀ j, j < d.numBlocks → r.offset + j < t.numBlocks ∧
    (s'.volume r.dest).block (d.lba + j) = t.snapshot.block (t.lba + r.offset + j)
  others : ∀ b, b < (disks r.dest).endLba → b < d.lba ∨ d.lba + d.numBlocks ≤ b →
    (s'.volume r.dest).block b = (s.volume r.dest).block b
  otherDisks : ∀ disk b, disk ≠ r.dest → (s'.volume disk).block b = (s.volume disk).block b
  count : (s'.token r.rod).map RodToken.writeTransferCount = some (t.writeTransferCount + written)

section Copy

variable (io : CopyIo) (s : State disks) (t : RodToken disks) (r : Request) (d : Descriptor)

def firstPage : Nat := (disks t.src).lbaReal ((disks t.src).lbaDiff t.lba + r.offset)

def Aligned : Prop :=
  (disks t.src).legacy = true → t.lba % 8 = 0 ∧ r.offset % 8 = 0 ∧ d.numBlocks % 8 = 0 ∧ d.lba % 8 = 0

/-- From the first page on, the maps of the source disk are found with the blocks that the token has. -/
def Unmodified : Prop :=
  io.mapRead = true ∧ ∀ i, firstPage t r ≤ i → i < t.pglist.length →
    t.pglist[i]? = some ((io.reading i).getD (s.sourceBlock t i))

def ByReference : Prop := Aligned t r d ∧ Unmodified io s t r

open Classical in
/-- The block that is copied for page `i` of the token: by reference it is the one the source disk has. -/
noncomputable def copiedBlock (i : Nat) : Option Block :=
  if ByReference io s t r d then s.sourceBlock t i else t.pglist.getD i none

noncomputable def copySource : Volume where
  toSettings := disks t.src
  page n := (s.pool.get blank (copiedBlock io s t r d (n - (disks t.src).lbaReal t.lba))).1
  length_page n := (s.pool.get blank (copiedBlock io s t r d (n - (disks t.src).lbaReal t.lba))).2

/-- The blocks of the token are to be read and that fails, before there is an access out of bounds. -/
def Unread : Prop :=
  ¬ ByReference io s t r d ∧ (io.alloc = false ∨
    (∃ i b, firstPage t r ≤ i ∧ i < t.pglist.length - firstPage t r ∧ t.pglist[i]? = some (some b) ∧
      io.page i = false) ∨
    firstPage t r = 0 ∧ (io.read = false ∨ (disks t.src).lbaDiff (t.lba + r.offset) ≠ 0 ∧ io.remap = false))

open Classical in
/-- The blocks that are written: all pages of the token, if its blocks are read and nothing has to be moved within a
page -/
noncomputable def copied : Nat :=
  if Aligned t r d ∧ ¬ ByReference io s t r d then t.pglist.length * (disks t.src).perPage else d.numBlocks

/-- The destination disk, if every page reaches it -/
noncomputable def target : Volume :=
  (s.volume r.dest).put (d.lba * 2 ^ (disks t.src).lbaShift) ((copySource io s t r d).bytes
    ((t.lba + r.offset) * 2 ^ (disks t.src).lbaShift) (copied io s t r d * 2 ^ (disks t.src).lbaShift))

/-- Page `n` of the destination is written as a zero page: there is no block to copy, or its data has been looked at. -/
def ZeroPage (n : Nat) : Prop :=
  Aligned t r d ∧ copiedBlock io s t r d (firstPage t r + (n - (disks t.src).lbaReal d.lba)) = none ∨
    (disks r.dest).dedupe = true ∧ ¬ (ByReference io s t r d ∧ io.ref.taken (n - (disks t.src).lbaReal d.lba) = true) ∧
      (target io s t r d).page n = zeroPage

/-- Page `n` does not reach the disk: a zero page that follows a page of the same address map, while the table
is being read. -/
def Skipped (n : Nat) : Prop :=
  (disks t.src).lbaReal d.lba < n ∧ io.write.skips (n - (disks t.src).lbaReal d.lba) = true ∧
    amapId n = amapId (n - 1) ∧ ZeroPage io s t r d n

structure Fits : Prop where
  offset : r.offset < t.numBlocks
  length : r.offset + d.numBlocks ≤ t.numBlocks
  inBounds : 0 < d.numBlocks → ByReference io s t r d ∨ Unread io s t r d ∨ firstPage t r = 0
  range : ∀ j, j < d.numBlocks → ¬ Unread io s t r d → ¬ Skipped io s t r d ((disks t.src).lbaReal (d.lba + j)) →
    (copySource io s t r d).block (t.lba + r.offset + j) = t.snapshot.block (t.lba + r.offset + j)
  unwritten : ∀ j, j < d.numBlocks → Unread io s t r d ∨ Skipped io s t r d ((disks t.src).lbaReal (d.lba + j)) →
    (s.volume r.dest).block (d.lba + j) = t.snapshot.block (t.lba + r.offset + j)
  behind : ∀ j, 0 < d.numBlocks → d.numBlocks ≤ j → j < copied io s t r d → d.lba + j < (disks r.dest).endLba →
    ¬ Unread io s t r d → ¬ Skipped io s t r d ((disks t.src).lbaReal (d.lba + j)) →
    (s.volume r.dest).block (d.lba + j) = (copySource io s t r d).block (t.lba + r.offset + j)

end Copy

end QuadStor.Token
