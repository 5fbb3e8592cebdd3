import QuadStor.Read.Basic

/-!
# Copies to a mirrored disk

A page-aligned copy takes references to the source's blocks where it can. The peer of a mirrored destination has no
such blocks: unless it makes the same copy itself, the pages are read all the same, and the peer gets their hashes
and then their data.
-/

namespace QuadStor.MirrorCopy

open DDTable Read

inductive Fault where
  | failed
  /-- an access behind the end of `pglist` -/
  | outOfBounds
  deriving DecidableEq

structure RodRange where
  pglist : List (Option Block)
  idx : Nat
  cnt : Nat
  idx_lt : idx < cnt
  cnt_le : cnt ≤ pglist.length

inductive Source where
  /-- a range of a disk; `taken` tells for which pages `tdisk_add_block_ref` returns 0 -/
  | disk (v : Vdisk) (lba transferLength : Nat) (taken : Nat → Bool)
  /-- a token of a range that has been written since -/
  | rod (r : RodRange)

def Source.blocks : Source → List (Option Block)
  | .disk v lba transferLength _ =>
    (List.range (transferLengthToPglistCnt v.lbaShift transferLength)).map fun i =>
      v.maps.entry (v.lbaReal lba + i)
  | .rod r => (r.pglist.take r.cnt).drop r.idx

structure CopyPage where
  block : Option Block
  zero : Bool
  /-- `DDBLOCK_ENTRY_FOUND_DUPLICATE`: the destination shares the block. -/
  found : Bool
  bytes : Bytes

variable {st : Store} (mem : Memory st) (env : Env)

/-- The rest of the loop body for a page with a block; `skip` is `PGDATA_SKIP_UNCOMP`. The list of pages read holds the
pages themselves, with the flag that `rcache_locate` sets. -/
def copyBlock (skip : Bool) (s : Loading) (i : Nat) (b : Block) : Except Fault Loading :=
  if !env.pageAlloc i || !env.bdev b.bid then .error .failed
  else
    match s.readList.find? (hasBlock b) with
    | some q => .ok (s.push ⟨q.page, some b, false, skip || q.skipUncomp⟩)
    | none =>
      if mem.cached b then .ok (s.enter ⟨.cached b, some b, false, true⟩)
      else if !env.tcacheAdd i then .error .failed
      else .ok { s.enter ⟨.own i, some b, false, skip⟩ with tcache := s.tcache ++ [(.own i, b)] }

def copyPage (taken : Nat → Bool) (s : Loading) (i : Nat) : Option Block → Except Fault Loading
  | none => .ok (s.push ⟨.zero, none, false, true⟩)
  | some b => copyBlock mem env (taken i) s i b

def copyPages (taken : Nat → Bool) (pglistCnt : Nat) : Nat → Loading → List (Option Block) → Except Fault Loading
  | _, s, [] => .ok s
  | i, s, block :: rest =>
    if pglistCnt ≤ i then .error .outOfBounds
    else
      match copyPage mem env taken s i block with
      | .error e => .error e
      | .ok s => copyPages taken pglistCnt (i + 1) s rest

def shares (env : Env) : Env := { env with copy := false, norefs := false, norefs_copy := by simp }

def CopyPage.of (taken : Nat → Bool) (heap : Heap) (i : Nat) (p : Pgdata) : CopyPage :=
  ⟨p.block, p.block.isNone, p.block.isSome && taken i, heap p.page⟩

/-- From the blocks to the list of pages; the pages of the list are filled from `start` on. -/
def copyBlocks (taken : Nat → Bool) (pglistCnt start : Nat) (blocks : List (Option Block)) :
    Except Fault (List CopyPage) :=
  match copyPages mem env taken pglistCnt start ⟨mem.heap, [], [], []⟩ blocks with
  | .error e => .error e
  | .ok s =>
    if !s.tcache.isEmpty && env.ioError then .error .failed
    else
      match pgdataPostReadIo (shares env) st 0 ⟨tcacheRead st s.heap s.tcache, [], []⟩ s.pglist with
      | .error _ => .error .failed
      | .ok s => .ok (s.pglist.mapIdx (CopyPage.of taken s.heap))

/-- `__tdisk_cmd_ref_int` with `mirror_enabled` and without `use_refs` -/
def tdiskCmdRefInt (v : Vdisk) (lba transferLength : Nat) (taken : Nat → Bool) : Except Fault (List CopyPage) :=
  if v.reachedEom lba transferLength then .error .failed
  else
    let pglistCnt := transferLengthToPglistCnt v.lbaShift transferLength
    match AddrMap.lookupBlocks env.io v.maps (v.lbaReal lba) pglistCnt with
    | .error _ => .error .failed
    | .ok blocks => copyBlocks mem env taken pglistCnt 0 blocks

/-- The list has `cnt - idx` pages and is accessed from `idx` to `cnt`. No references are taken. -/
def readFromRodEntry (r : RodRange) : Except Fault (List CopyPage) :=
  copyBlocks mem env (fun _ => false) (r.cnt - r.idx) r.idx ((r.pglist.take r.cnt).drop r.idx)

def Source.pages : Source → Except Fault (List CopyPage)
  | .disk v lba transferLength taken => tdiskCmdRefInt mem env v lba transferLength taken
  | .rod r => readFromRodEntry mem env r

/-! ## What the peer is sent -/

section Peer

variable {η : Type} (hash : Bytes → η) (dedupe : Bool)

structure Hashed (η : Type) extends CopyPage where
  hash : Option η
  dedupeDisabled : Bool

/-- `ddblock_hash_compute`, if the destination has deduplication -/
def hashPage (p : CopyPage) : Hashed η :=
  if !dedupe then ⟨p, none, true⟩
  else if p.bytes = zeroPage then ⟨{ p with zero := true }, none, false⟩
  else ⟨p, some (hash p.bytes), false⟩

/-- `PGDATA_SKIP_DDCHECK` is set on zero pages and on those that share their block. -/
def pglistCalcHash (p : CopyPage) : Hashed η :=
  if p.zero || p.found then if p.zero then ⟨p, none, false⟩ else hashPage hash dedupe p
  else hashPage hash dedupe { p with block := none }

structure PgdataSpec (η : Type) where
  hash : Option η
  dedupeDisabled : Bool
  /-- `csum`: in a message of whole pages it is the number of the page. -/
  csum : Nat

/-- The message of `tdisk_mirror_write_setup`, from page `i` on -/
def tdiskMirrorWriteSetup : Nat → List (Hashed η) → List (PgdataSpec η)
  | _, [] => []
  | i, p :: rest =>
    if p.zero then tdiskMirrorWriteSetup (i + 1) rest
    else ⟨p.hash, p.dedupeDisabled, i⟩ :: tdiskMirrorWriteSetup (i + 1) rest

/-- `fill_pglist` of the peer from page `i` on: the pages without a spec are zero. -/
def fillPglist (pglistCnt : Nat) : Nat → List (PgdataSpec η) → List (Option (PgdataSpec η))
  | i, [] => List.replicate (pglistCnt - i) none
  | i, spec :: rest =>
    List.replicate (spec.csum - i) none ++ some spec :: fillPglist pglistCnt (spec.csum + 1) rest

def specs (pages : List CopyPage) : List (PgdataSpec η) :=
  tdiskMirrorWriteSetup 0 (pages.map (pglistCalcHash hash dedupe))

/-- A page of the peer: it is sent the data of the page that the spec names. -/
def peerPage (pages : List CopyPage) : Option (PgdataSpec η) → Bytes
  | none => zeroPage
  | some spec => (pages[spec.csum]?).elim zeroPage CopyPage.bytes

def peerPages (pages : List CopyPage) : List Bytes :=
  (fillPglist pages.length 0 (specs hash dedupe pages)).map (peerPage pages)

def localPage (st : Store) (p : Hashed η) : Bytes :=
  if p.zero then zeroPage
  else if p.found then want st p.block
  else p.bytes

def localPages (st : Store) (pages : List CopyPage) : List Bytes :=
  pages.map fun p => localPage st (pglistCalcHash hash dedupe p)

end Peer

def Holds (st : Store) (p : CopyPage) : Option Block → Prop
  | none => p.zero = true
  | some b => p.zero = false ∧ p.bytes = st.data b

def Exact (st : Store) (blocks : List (Option Block)) : Except Fault (List CopyPage) → Prop
  | .error _ => False
  | .ok pages => List.Forall₂ (Holds st) pages blocks

def rawPage (blocks : List (Option Block)) (b : Block) : Bytes :=
  st.stored b ++ (mem.heap (.own (firstPage blocks b))).drop (lbaBlockSize b)

/-- No page whose block is compressed shares the block, or its page with one that does, unless the read cache has the
block or the page stays the same. -/
def Fits : Source → Prop
  | .disk v lba transferLength taken =>
    let blocks := (Source.disk v lba transferLength taken).blocks
    ∀ (i : Nat) (b : Block), blocks[i]? = some (some b) → lbaBlockSize b = 4096 ∨ mem.cached b = true ∨
      (taken i = false ∧ taken (firstPage blocks b) = false) ∨ rawPage mem blocks b = st.data b
  | .rod r => r.idx = 0

end QuadStor.MirrorCopy
