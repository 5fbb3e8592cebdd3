import QuadStor.Command.Lemmas.Write

/-!
# COMPARE AND WRITE

`check_cw_data` goes through the blocks of the range, the compare half and the write half of the data at the same
time.
-/

namespace QuadStor.CompareWrite

open Lib Command
open Read (Bytes zeroPage)

/-- The command with its data, in as many pages as `ctio_write_length` says. -/
structure Request (v : Volume) where
  lba : Nat
  transferLength : Nat
  pages : List Pgdata
  transferLength_pos : 0 < transferLength
  transferLength_lt : transferLength < 256
  length_pages : pages.length = transferLengthToPglistCnt v.lbaShift (2 * transferLength)
  zero_pages : ∀ p ∈ pages, p.zero = true → p.bytes = zeroPage

variable {v : Volume}

def Request.size (r : Request v) : Nat := r.transferLength * 2 ^ v.lbaShift

def Request.src (r : Request v) : List Bytes := r.pages.map Pgdata.bytes

structure Cw where
  dest : List Bytes
  d : Cursor
  s : Cursor
  c : Cursor
  todo : Nat
  /-- `cw_failed`, if `cw_failed_set` -/
  failed : Option Nat

def Cw.step (legacy : Bool) (src : List Bytes) (size : Nat) (x : Cw) : Cw :=
  let n := min (min (min (x.d.left x.dest) (x.s.left src)) (x.c.left src)) x.todo
  { dest := if legacy then x.d.put x.dest (x.s.slice src n) else x.dest
    d := x.d.advance x.dest n
    s := x.s.advance src n
    c := x.c.advance src n
    todo := x.todo - n
    failed := if x.failed.isNone && x.d.slice x.dest n != x.c.slice src n then some (size - x.todo)
      else x.failed }

def cwLoop (legacy : Bool) (src : List Bytes) (size : Nat) : Nat → Cw → Cw
  | 0, x => x
  | fuel + 1, x =>
    if src.length ≤ x.s.idx then x
    else
      let x := x.step legacy src size
      if x.todo = 0 then x else cwLoop legacy src size fuel x

def Request.dest (r : Request v) : List Bytes :=
  (List.range (transferLengthToPglistCnt v.lbaShift (r.transferLength + v.lbaDiff r.lba))).map fun i =>
    v.page (v.lbaReal r.lba + i)

def Request.start (r : Request v) : Cw where
  dest := r.dest
  d := ⟨0, v.lbaDiff r.lba * 2 ^ v.lbaShift⟩
  -- `ctio_idx_offset`
  s := ⟨r.size / 4096, r.size % 4096⟩
  c := ⟨0, 0⟩
  todo := r.size
  failed := none

def checkCwData (r : Request v) : Cw := cwLoop v.legacy r.src r.size r.size r.start

theorem length_dest (r : Request v) : ∀ p ∈ r.dest, p.length = 4096 := by
  simp [Request.dest, v.length_page]

theorem map_length_step (legacy : Bool) (src : List Bytes) (size : Nat) (x : Cw) :
    (x.step legacy src size).dest.map List.length = x.dest.map List.length := by
  cases legacy with
  | false => rfl
  | true =>
    refine Cursor.map_length_put ?_
    rw [Cursor.length_slice (by omega)]
    omega

theorem map_length_cwLoop (legacy : Bool) (src : List Bytes) (size fuel : Nat) (x : Cw) :
    (cwLoop legacy src size fuel x).dest.map List.length = x.dest.map List.length := by
  induction fuel generalizing x with
  | zero => rfl
  | succ fuel ih =>
    simp only [cwLoop]
    split_ifs
    · rfl
    · exact map_length_step legacy src size x
    · exact (ih _).trans (map_length_step legacy src size x)

theorem length_checkCwData (r : Request v) : ∀ p ∈ (checkCwData r).dest, p.length = 4096 := by
  intro p hp
  have hlen : (checkCwData r).dest.map List.length = r.dest.map List.length := map_length_cwLoop _ _ _ _ _
  obtain ⟨q, hq, heq⟩ := List.mem_map.mp (hlen ▸ List.mem_map_of_mem hp)
  rw [← heq, length_dest r q hq]

/-- The page list that the write goes on with; on a disk with blocks of 4096 bytes it is the one that came with the
command. -/
def Request.pglist (r : Request v) : List Pgdata :=
  if v.legacy then (checkCwData r).dest.pmap (fun bytes h => ⟨false, bytes, h⟩) (length_checkCwData r)
  else r.pages

inductive Status where
  | good
  | check
  | miscompare
  deriving DecidableEq, Repr

structure CwIo where
  read : Bool
  write : WriteIo

def tdiskCmdCompareAndWrite (io : CwIo) (r : Request v) : Volume × Status :=
  if v.reachedEom r.lba r.transferLength then (v, .check)
  else if !io.read then (v, .check)
  else if (checkCwData r).failed.isSome then (v, .miscompare)
  else (v.writePages io.write (v.lbaReal r.lba) r.pglist, if io.write.ok then .good else .check)

def Request.compare (r : Request v) : Bytes := r.src.flatten.take r.size

def Request.write (r : Request v) : Bytes := (r.src.flatten.drop r.size).take r.size

def Request.writeBlock (r : Request v) (k : Nat) : Bytes := (r.write.drop (k * 2 ^ v.lbaShift)).take (2 ^ v.lbaShift)

def Request.stored (r : Request v) : Bytes :=
  (List.range r.transferLength).flatMap fun k => v.block (r.lba + k)

structure Written (r : Request v) (v' : Volume) : Prop where
  range : ∀ k, k < r.transferLength → v'.block (r.lba + k) = r.writeBlock k
  others : ∀ b, b < v.endLba → b < r.lba ∨ r.lba + r.transferLength ≤ b → v'.block b = v.block b

structure Exact (r : Request v) (result : Volume × Status) : Prop where
  equal : r.stored = r.compare → Written r result.1
  differ : r.stored ≠ r.compare → result = (v, .miscompare)

/-- On a disk with blocks of 4096 bytes the compare half is written over the range and the write half
behind it. -/
def Fits (io : WriteIo) (r : Request v) : Prop :=
  v.legacy = false → r.stored = r.compare → r.write = r.compare ∧
    ∀ k p, k < r.transferLength → r.lba + r.transferLength + k < v.endLba →
      r.pages[r.transferLength + k]? = some p → io.skipped r.lba (r.transferLength + k) p = false →
      v.block (r.lba + r.transferLength + k) = r.writeBlock k

end QuadStor.CompareWrite
