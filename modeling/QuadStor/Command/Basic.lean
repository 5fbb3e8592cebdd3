import QuadStor.Lib.BigEndian
import QuadStor.Lib.Gather
import QuadStor.Read.Basic

/-!
# Writes to a virtual disk

Commands change a virtual disk through `__tdisk_cmd_write` and a list of pages; on a disk with blocks of 512 bytes
it first makes whole pages of them.
-/

namespace QuadStor.Command

open Lib
open Read (Bytes zeroPage)

structure Settings extends Geometry where
  dedupe : Bool

structure Volume extends Settings where
  page : Nat → Bytes
  length_page : ∀ n, (page n).length = 4096

def Volume.block (v : Volume) (lba : Nat) : Bytes :=
  ((v.page (v.lbaReal lba)).drop (v.lbaDiff lba * 2 ^ v.lbaShift)).take (2 ^ v.lbaShift)

structure Pgdata where
  /-- `DDBLOCK_ZERO_BLOCK`: the page is taken to be zero, whatever it holds. -/
  zero : Bool
  bytes : Bytes
  length_bytes : bytes.length = 4096

def Pgdata.hashCompute (p : Pgdata) : Pgdata := { p with zero := p.zero || p.bytes == zeroPage }

def Pgdata.content (p : Pgdata) : Bytes := if p.zero then zeroPage else p.bytes

def Pgdata.unmapped : Pgdata := ⟨true, zeroPage, List.length_replicate⟩

structure WriteIo where
  ok : Bool
  /-- the table of a page was still being read, or the write failed before it came to the page -/
  skips : Nat → Bool
  fresh : Nat → Bytes
  length_fresh : ∀ i, (fresh i).length = 4096

/-- Page `i` of a write at page `lba` does not reach the disk. Without a failure this is a zero page that follows a page
of the same map. -/
def WriteIo.skipped (io : WriteIo) (lba i : Nat) (p : Pgdata) : Bool :=
  io.skips i && (!io.ok || (i != 0 && p.zero && amapId (lba + i) == amapId (lba + i - 1)))

def Volume.pageAfter (io : WriteIo) (v : Volume) (lba : Nat) (pages : List Pgdata) (n : Nat) : Bytes :=
  if n < lba then v.page n
  else
    match pages[n - lba]? with
    | none => v.page n
    | some p => if io.skipped lba (n - lba) p then v.page n else p.content

theorem Pgdata.length_content (p : Pgdata) : p.content.length = 4096 := by
  unfold Pgdata.content
  split_ifs
  · exact List.length_replicate
  · exact p.length_bytes

theorem Volume.length_pageAfter (io : WriteIo) (v : Volume) (lba : Nat) (pages : List Pgdata) (n : Nat) :
    (v.pageAfter io lba pages n).length = 4096 := by
  unfold Volume.pageAfter
  split_ifs
  · exact v.length_page n
  · split
    · exact v.length_page n
    · split_ifs
      · exact v.length_page n
      · exact Pgdata.length_content _

def Volume.writePages (io : WriteIo) (v : Volume) (lba : Nat) (pages : List Pgdata) : Volume :=
  { v with page := v.pageAfter io lba pages, length_page := v.length_pageAfter io lba pages }

structure Merge where
  lbaDiff : Nat
  size : Nat
  newSize : Nat
  pglistCnt : Nat

def merge (lba transferLength : Nat) : Merge :=
  let lbaDiff := lba % 8
  let length := u32 (transferLength + lbaDiff)
  ⟨lbaDiff, u32 (transferLength * 512), u32 (length * 512), transferLengthToPglistCnt 9 length⟩

def Merge.readsFirst (m : Merge) : Prop := m.lbaDiff ≠ 0

def Merge.readsLast (m : Merge) : Prop := (4096 < m.newSize ∨ m.lbaDiff = 0) ∧ m.newSize % 4096 ≠ 0

instance (m : Merge) : Decidable m.readsFirst := inferInstanceAs (Decidable (_ ≠ _))

instance (m : Merge) : Decidable m.readsLast := inferInstanceAs (Decidable (_ ∧ _))

def Merge.dest (m : Merge) (io : WriteIo) (v : Volume) (lba : Nat) : List Bytes :=
  let dest := (List.range m.pglistCnt).map io.fresh
  let dest := if m.readsFirst then dest.set 0 (v.page (lba / 8)) else dest
  if m.readsLast then dest.set (m.pglistCnt - 1) (v.page (lba / 8 + m.newSize / 4096)) else dest

theorem Merge.length_dest (m : Merge) (io : WriteIo) (v : Volume) (lba : Nat) :
    ∀ p ∈ m.dest io v lba, p.length = 4096 := by
  have hset : ∀ (l : List Bytes) (i n : Nat), (∀ p ∈ l, p.length = 4096) →
      ∀ p ∈ l.set i (v.page n), p.length = 4096 := by
    intro l i n hl p hp
    obtain hp | rfl := List.mem_or_eq_of_mem_set hp
    · exact hl p hp
    · exact v.length_page n
  have hnew : ∀ p ∈ (List.range m.pglistCnt).map io.fresh, p.length = 4096 := by
    simp [io.length_fresh]
  unfold Merge.dest
  split_ifs
  · exact hset _ _ _ (hset _ _ _ hnew)
  · exact hset _ _ _ hnew
  · exact hset _ _ _ hnew
  · exact hnew

theorem length_of_mem_copy {src dest : List Bytes} {fuel todo : Nat} {d s : Cursor}
    (h : ∀ p ∈ dest, p.length = 4096) : ∀ p ∈ Cursor.copy src fuel dest d s todo, p.length = 4096 := by
  intro p hp
  have hlen : (Cursor.copy src fuel dest d s todo).map List.length = dest.map List.length :=
    Cursor.map_length_copy
  obtain ⟨q, hq, heq⟩ := List.mem_map.mp (hlen ▸ List.mem_map_of_mem hp)
  rw [← heq, h q hq]

def Merge.pages (m : Merge) (io : WriteIo) (v : Volume) (lba : Nat) (pages : List Pgdata) : List Pgdata :=
  (Cursor.copy (pages.map Pgdata.bytes) m.size (m.dest io v lba) ⟨0, m.lbaDiff * 512⟩ ⟨0, 0⟩ m.size).pmap
    (fun bytes h => ⟨v.dedupe && bytes == zeroPage, bytes, h⟩) (length_of_mem_copy (m.length_dest io v lba))

def Volume.checkUnalignedData (io : WriteIo) (v : Volume) (lba transferLength : Nat)
    (pages : List Pgdata) : Option (Nat × List Pgdata) :=
  if !v.legacy then some (lba, pages)
  else
    let m := merge lba transferLength
    if m.lbaDiff = 0 ∧ m.size % 4096 = 0 then some (lba / 8, pages)
    else if m.readsFirst ∧ v.reachedEom (lba / 8 * 8) 8 = true then none
    else if m.readsLast ∧ v.reachedEom ((lba / 8 + m.newSize / 4096) * 8) 8 = true then none
    else some (lba / 8, m.pages io v lba pages)

def Volume.tdiskCmdWrite (io : WriteIo) (v : Volume) (lba transferLength : Nat) (pages : List Pgdata) : Volume × Bool :=
  if v.reachedEom lba transferLength then (v, false)
  else
    match v.checkUnalignedData io lba transferLength pages with
    | none => (v, false)
    | some (n, pages) => (v.writePages io n pages, io.ok)

/-- `pglist_cnt` of a command is 16 bits wide. -/
def ctioReallocPglist (p : Pgdata) (count : Nat) : List Pgdata := List.replicate (u16 count) p

structure PglistIo where
  alloc : Bool
  write : WriteIo

def unmapLbaCount (v : Volume) : Nat := if v.legacy then 4096 else 512

def alignSize (lba : Nat) : Nat := (lba + 7) / 8 * 8

end QuadStor.Command
