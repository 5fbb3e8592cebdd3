import QuadStor.AddrMap.Basic
import Mathlib.Data.UInt

/-!
# Reads

`__tdisk_cmd_read` gets the block of each page from the read cache, from an earlier page of the request or from
disk, expands what is compressed, and hands over the part of the first and the last page that was asked for.
-/

namespace QuadStor.Read

/-! ## Compressed pages

Length and algorithm are in the first two bytes. The rest of the last sector is not written. -/

abbrev Bytes := List UInt8

inductive CompAlg where
  | lzf
  | lz4
  deriving DecidableEq, Repr

def CompAlg.code : CompAlg → Nat
  | .lzf => 0
  | .lz4 => 1

def CompAlg.ofCode : Nat → Option CompAlg
  | 0 => some .lzf
  | 1 => some .lz4
  | _ => none

/-- The compression libraries; they are given room for `LBA_SIZE - 1026` bytes. -/
structure Codec where
  compress : CompAlg → Bytes → Option Bytes
  decompress : CompAlg → Bytes → Option Bytes
  length_compress : ∀ {alg page out}, compress alg page = some out → out.length ≤ 4096 - 1026
  decompress_compress : ∀ {alg page out}, compress alg page = some out → decompress alg out = some page

variable (codec : Codec)

def compHeader (alg : CompAlg) (csize : Nat) : Bytes :=
  [UInt8.ofNat (csize + alg.code * 2 ^ 14), UInt8.ofNat ((csize + alg.code * 2 ^ 14) / 256)]

def qsDeflateBlock (alg : CompAlg) (page : Bytes) : Option Bytes :=
  match codec.compress alg page with
  | none => none
  | some out => some (compHeader alg out.length ++ out)

def qsInflateBlock (page : Bytes) (compPglen : Nat) : Option Bytes :=
  match page with
  | lo :: hi :: rest =>
    let storedCompSize := lo.toNat + 256 * hi.toNat
    let compSize := storedCompSize % 2 ^ 14
    if compPglen < compSize then none
    else
      match CompAlg.ofCode (storedCompSize / 2 ^ 14) with
      | none => none
      | some alg =>
        match codec.decompress alg (rest.take compSize) with
        | none => none
        | some page => if page.length = 4096 then some page else none
  | _ => none

variable {codec}

theorem ofCode_code (alg : CompAlg) : CompAlg.ofCode alg.code = some alg := by
  cases alg <;> rfl

theorem qsInflateBlock_qsDeflateBlock {alg : CompAlg} {page out : Bytes} {compPglen : Nat}
    (hout : qsDeflateBlock codec alg page = some out) (hpage : page.length = 4096)
    (hlen : out.length ≤ compPglen) (rest : Bytes) : qsInflateBlock codec (out ++ rest) compPglen = some page := by
  unfold qsDeflateBlock at hout
  cases hcomp : codec.compress alg page with
  | none => simp [hcomp] at hout
  | some c =>
    simp only [hcomp, Option.some.injEq] at hout
    subst hout
    have hc := codec.length_compress hcomp
    have hcode : alg.code ≤ 1 := by cases alg <;> simp [CompAlg.code]
    set word := c.length + alg.code * 2 ^ 14 with hword
    have hstored : (UInt8.ofNat word).toNat + 256 * (UInt8.ofNat (word / 256)).toNat = word := by
      simp only [UInt8.toNat_ofNat']
      omega
    have hsize : word % 2 ^ 14 = c.length := by omega
    have halg : word / 2 ^ 14 = alg.code := by omega
    simp only [compHeader, ← hword, List.cons_append, List.nil_append, List.length_cons] at hlen ⊢
    simp only [qsInflateBlock, hstored, hsize, halg, ofCode_code, List.take_left,
      codec.decompress_compress hcomp, hpage, if_true]
    exact if_neg (by omega)

open Lib DDTable AddrMap Function

def zeroPage : Bytes := List.replicate 4096 0

/-- A block number has three bits for the sectors that the block takes. -/
def lbaBlockSize (b : Block) : Nat :=
  if b.size / 512 % 8 ≠ 0 then b.size / 512 % 8 * 512 else 4096

/-- The pages that were written to the blocks, and what is on disk: the page, or the page compressed if the block is
shorter -/
structure Store where
  codec : Codec
  data : Block → Bytes
  stored : Block → Bytes
  length_data : ∀ b, (data b).length = 4096
  length_stored : ∀ b, (stored b).length = lbaBlockSize b
  stored_plain : ∀ b, lbaBlockSize b = 4096 → stored b = data b
  stored_comp : ∀ b, lbaBlockSize b ≠ 4096 →
    ∃ alg out fill, qsDeflateBlock codec alg (data b) = some out ∧ stored b = out ++ fill

inductive PageId where
  | zero
  | cached (b : Block)
  /-- the page of page `i` of the request, from the caller or from `vm_pg_alloc` -/
  | own (i : Nat)
  | inflated (i : Nat)
  deriving DecidableEq

abbrev Heap := PageId → Bytes

structure Memory (st : Store) where
  heap : Heap
  cached : Block → Bool
  length_heap : ∀ x, (heap x).length = 4096
  heap_zero : heap .zero = zeroPage
  heap_cached : ∀ b, cached b = true → heap (.cached b) = st.data b

structure Env where
  io : Io
  bdev : Nat → Bool
  /-- `vm_pg_alloc` for the page, and for what it expands to -/
  pageAlloc : Nat → Bool
  inflateAlloc : Nat → Bool
  tcacheAdd : Nat → Bool
  ioError : Bool
  /-- `enable_rcache` is off: pages are filled by copying and the read cache is only read. -/
  copy : Bool
  /-- the pages are the caller's, not allocated here -/
  norefs : Bool
  norefs_copy : norefs = true → copy = true

structure Pgdata where
  page : PageId
  block : Option Block
  fromReadList : Bool
  skipUncomp : Bool

structure Loading where
  heap : Heap
  pglist : List Pgdata
  readList : List Pgdata
  tcache : List (PageId × Block)

def Loading.push (s : Loading) (p : Pgdata) : Loading := { s with pglist := s.pglist ++ [p] }

/-- `pgdata_in_read_list`, not found: the page is entered in the list. -/
def Loading.enter (s : Loading) (p : Pgdata) : Loading :=
  { s with pglist := s.pglist ++ [p], readList := s.readList ++ [p] }

def Loading.write (s : Loading) (x : PageId) (bytes : Bytes) : Loading :=
  { s with heap := update s.heap x bytes }

def hasBlock (b : Block) (p : Pgdata) : Bool := p.block == some b

def firstPage (blocks : List (Option Block)) (b : Block) : Nat := blocks.idxOf (some b)

variable {st : Store} (mem : Memory st) (env : Env)

/-- `pgdata_alloc_page` of page `i` -/
def Env.pgdataAllocPage (i : Nat) : Bool := env.norefs || env.pageAlloc i

def readUnmapped (s : Loading) (i : Nat) : Except Err Loading :=
  if !env.copy then .ok (s.push ⟨.zero, none, false, false⟩)
  else if !env.pgdataAllocPage i then .error .failed
  else .ok ((s.write (.own i) zeroPage).push ⟨.own i, none, false, false⟩)

/-- `rcache_locate` and, on a miss, `tcache_add_page` -/
def readBlock (s : Loading) (i : Nat) (b : Block) : Except Err Loading :=
  if mem.cached b then
    if env.copy then
      .ok ((s.write (.own i) (s.heap (.cached b))).enter ⟨.own i, some b, false, true⟩)
    else .ok (s.enter ⟨.cached b, some b, false, true⟩)
  else if !env.tcacheAdd i then .error .failed
  else .ok { s.enter ⟨.own i, some b, false, false⟩ with tcache := s.tcache ++ [(.own i, b)] }

def readPage (s : Loading) (i : Nat) : Option Block → Except Err Loading
  | none => readUnmapped env s i
  | some b =>
    if !env.bdev b.bid then .error .failed
    else if !env.pgdataAllocPage i then .error .failed
    else
      match s.readList.find? (hasBlock b) with
      | some q =>
        if env.copy then .ok (s.push ⟨.own i, some b, true, q.skipUncomp⟩)
        else .ok (s.push ⟨q.page, some b, false, q.skipUncomp⟩)
      | none => readBlock mem env s i b

def readPages : Nat → Loading → List (Option Block) → Except Err Loading
  | _, s, [] => .ok s
  | i, s, block :: rest =>
    match readPage mem env s i block with
    | .error e => .error e
    | .ok s => readPages (i + 1) s rest

/-- The reads of `tcache_entry_rw`: a block may be shorter than its page. -/
def tcacheRead (st : Store) (heap : Heap) (tcache : List (PageId × Block)) : Heap :=
  tcache.foldl (fun heap r =>
    update heap r.1 (st.stored r.2 ++ (heap r.1).drop (lbaBlockSize r.2))) heap

structure Posting where
  heap : Heap
  pglist : List Pgdata
  readList : List Pgdata

def Posting.push (s : Posting) (p : Pgdata) : Posting := { s with pglist := s.pglist ++ [p] }

def Posting.enter (s : Posting) (p : Pgdata) : Posting :=
  { s with pglist := s.pglist ++ [p], readList := s.readList ++ [p] }

def Posting.write (s : Posting) (x : PageId) (bytes : Bytes) : Posting :=
  { s with heap := update s.heap x bytes }

def copyFromReadList (s : Posting) (p : Pgdata) (b : Block) : Posting :=
  match s.readList.find? (hasBlock b) with
  | some q => s.write p.page (s.heap q.page)
  | none => s

/-- The loop body of `pgdata_post_read_io` -/
def postPage (st : Store) (s : Posting) (i : Nat) (p : Pgdata) : Except Err Posting :=
  match p.block with
  | none => .ok (s.push p)
  | some b =>
    if p.fromReadList then .ok ((copyFromReadList s p b).push p)
    else if p.skipUncomp then .ok (s.enter p)
    else if lbaBlockSize b = 4096 then .ok (s.enter p)
    else if !env.inflateAlloc i then .error .failed
    else
      match qsInflateBlock st.codec (s.heap p.page) (lbaBlockSize b) with
      | none => .error .failed
      | some bytes =>
        if env.norefs then .ok ((s.write p.page bytes).enter p)
        else .ok ((s.write (.inflated i) bytes).enter { p with page := .inflated i })

def pgdataPostReadIo (st : Store) : Nat → Posting → List Pgdata → Except Err Posting
  | _, s, [] => .ok s
  | i, s, p :: rest =>
    match postPage env st s i p with
    | .error e => .error e
    | .ok s => pgdataPostReadIo st (i + 1) s rest

def readBlocks (blocks : List (Option Block)) : Except Err (List Bytes) :=
  match readPages mem env 0 ⟨mem.heap, [], [], []⟩ blocks with
  | .error e => .error e
  | .ok s =>
    if !s.tcache.isEmpty && env.ioError then .error .failed
    else
      match pgdataPostReadIo env st 0 ⟨tcacheRead st s.heap s.tcache, [], []⟩ s.pglist with
      | .error e => .error e
      | .ok s => .ok (s.pglist.map fun p => s.heap p.page)

structure Vdisk extends Geometry where
  maps : Tdisk

/-- `__tdisk_cmd_read_int`, for a local read -/
def tdiskCmdReadInt (v : Vdisk) (lba transferLength : Nat) : Except Err (List Bytes) :=
  if v.reachedEom lba transferLength then .error .failed
  else
    let pglistCnt := transferLengthToPglistCnt v.lbaShift (u32 (transferLength + v.lbaDiff lba))
    match lookupBlocks env.io v.maps (v.lbaReal lba) pglistCnt with
    | .error e => .error e
    | .ok blocks => readBlocks mem env blocks

/-- A page as it is handed over: `pg_offset` and `pg_len` are 16 bits wide. -/
structure Slice where
  offset : Nat
  len : Nat
  page : Bytes

def Slice.whole (page : Bytes) : Slice := ⟨0, 4096, page⟩

def Slice.bytes (s : Slice) : Bytes := (s.page.drop s.offset).take s.len

/-- Of the `int` it counts down only the low bits are used. -/
def ctioFixPglistLen : Nat → List Slice → List Slice
  | _, [] => []
  | dxferLen, [p] => [{ p with len := u16 dxferLen }]
  | dxferLen, p :: rest => p :: ctioFixPglistLen (u32 (dxferLen + 2 ^ 32 - p.len)) rest

/-- The trimming in `__tdisk_cmd_read` -/
def trim (v : Vdisk) (lba dxferLen : Nat) (pglist : List Slice) : List Slice :=
  if dxferLen ≠ 0 ∧ v.legacy = true then
    let pgOffset := v.lbaDiff lba * 2 ^ v.lbaShift
    let pglist := pglist.modifyHead fun p =>
      { p with offset := u16 pgOffset, len := u16 (p.len + 2 ^ 16 - pgOffset) }
    if v.lbaDiff lba ≠ 0 ∨ dxferLen % 4096 ≠ 0 then ctioFixPglistLen dxferLen pglist else pglist
  else pglist

/-- `pglist_cnt` of the command is 16 bits wide, `dxfer_len` 32. -/
def tdiskCmdRead (v : Vdisk) (lba transferLength : Nat) : Except Err (List Slice) :=
  match tdiskCmdReadInt mem env v lba transferLength with
  | .error e => .error e
  | .ok pages =>
    .ok (trim v lba (u32 (transferLength * 2 ^ v.lbaShift)) ((pages.map Slice.whole).take (u16 pages.length)))

def want (st : Store) : Option Block → Bytes
  | none => zeroPage
  | some b => st.data b

def Vdisk.blockData (st : Store) (v : Vdisk) (lba : Nat) : Bytes :=
  ((want st (v.maps.entry (v.lbaReal lba))).drop (v.lbaDiff lba * 2 ^ v.lbaShift)).take (2 ^ v.lbaShift)

def Vdisk.requested (st : Store) (v : Vdisk) (lba transferLength : Nat) : Bytes :=
  (List.range transferLength).flatMap fun k => v.blockData st (lba + k)

def Vdisk.pageCount (v : Vdisk) (lba transferLength : Nat) : Nat :=
  ((v.lbaDiff lba + transferLength) * 2 ^ v.lbaShift + 4095) / 4096

end QuadStor.Read
