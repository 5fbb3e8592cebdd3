import QuadStor.Fastlog.Basic
import QuadStor.Lib.Packed

/-!
# Pages of indexes and of address maps

Entries are packed into 512 words of 64 bits, and the last word has the checksum of the others; in the newer format
this is a checksum of 16 bits under a write id of 48 bits.
-/

namespace QuadStor.MetaPage

open Lib

open Fastlog (amapWriteId indexWriteId writeIdIncr writeIdMax)

abbrev Page := Packed.Words

/-- Word of `RAW_INDEX_OFFSET` and of `RAW_AMAP_OFFSET` -/
def rawOffset : Nat := 511

def calcCsum16 (page : Page) : BitVec 16 :=
  (~~~(List.range rawOffset).foldl (fun csum i => csum + page i) 0#64).setWidth 16

def calcCsum (page : Page) : BitVec 64 := (List.range rawOffset).foldl (fun csum i => csum ^^^ page i) 0#64

inductive Kind where
  | index
  | amap
  deriving DecidableEq, Repr

def Kind.blockBits : Kind → Nat
  | .index => 51
  | .amap => 50

def Kind.entries : Kind → Nat
  | .index => 640
  | .amap => 654

variable (kind : Kind)

structure Update where
  ix : Fin kind.entries
  val : BitVec kind.blockBits

def setBlock (page : Page) (u : Update kind) : Page := Packed.set kind.blockBits page u.ix (u.val.setWidth 64)

def getBlock (page : Page) (ix : Fin kind.entries) : BitVec 64 := Packed.get kind.blockBits page ix

structure Metadata where
  writeId : Nat
  metadata : Page
  csumCheckDone : Bool
  dataError : Bool
  fits : writeId < 2 ^ 48

/-- The write id a page is stamped with: `incr` of `index_write_csum`; the argument of `amap_write_csum` and
the result of `mirror_get_write_id_skip` -/
inductive Stamp : Kind → Type where
  | index (incr : Bool) : Stamp .index
  | amap (writeId : Fin (2 ^ 48)) (skip : Fin (2 ^ 32)) : Stamp .amap

variable {kind}

def Stamp.writeId (v2 : Bool) (writeId : Nat) : Stamp kind → Nat
  | .index incr => indexWriteId v2 incr writeId
  | .amap given skip => amapWriteId v2 given skip writeId

theorem writeIdIncr_lt {writeId incr : Nat} (hid : writeId < 2 ^ 48) (hincr : incr < 2 ^ 32) :
    writeIdIncr writeId incr < 2 ^ 48 := by
  unfold writeIdIncr u64 writeIdMax
  split <;> omega

theorem Stamp.writeId_lt {v2 : Bool} {writeId : Nat} (hid : writeId < 2 ^ 48) (stamp : Stamp kind) :
    stamp.writeId v2 writeId < 2 ^ 48 := by
  cases stamp with
  | index incr =>
    cases v2 <;> cases incr <;> simp only [Stamp.writeId, indexWriteId, if_true, if_false, Bool.false_eq_true]
    all_goals first | exact hid | exact writeIdIncr_lt hid (by decide)
  | amap given skip =>
    simp only [Stamp.writeId, amapWriteId]
    split
    · split
      · exact writeIdIncr_lt hid skip.isLt
      · split
        · exact hid
        · exact given.isLt
    · exact writeIdIncr_lt hid skip.isLt

def trailer (v2 : Bool) (page : Page) (writeId : Nat) : BitVec 64 :=
  if v2 then (calcCsum16 page).setWidth 64 ||| (BitVec.ofNat 64 writeId <<< 16) else calcCsum page

def Metadata.writeCsum (v2 : Bool) (m : Metadata) (stamp : Stamp kind) : Metadata where
  writeId := stamp.writeId v2 m.writeId
  metadata := Function.update m.metadata rawOffset (trailer v2 m.metadata (stamp.writeId v2 m.writeId))
  csumCheckDone := m.csumCheckDone
  dataError := m.dataError
  fits := stamp.writeId_lt m.fits

def Metadata.load (page : Page) : Metadata := ⟨0, page, false, false, by decide⟩

theorem ushiftRight_lt (raw : BitVec 64) : (raw >>> 16).toNat < 2 ^ 48 := by
  rw [BitVec.toNat_ushiftRight, Nat.shiftRight_eq_div_pow]
  omega

def Metadata.checkCsum (v2 : Bool) (m : Metadata) : Metadata :=
  if m.csumCheckDone || m.dataError then m
  else if v2 then
    { writeId := (m.metadata rawOffset >>> 16).toNat
      metadata := m.metadata
      csumCheckDone := true
      dataError := m.metadata rawOffset &&& 0xFFFF#64 != (calcCsum16 m.metadata).setWidth 64
      fits := ushiftRight_lt _ }
  else
    { writeId := 1
      metadata := m.metadata
      csumCheckDone := true
      dataError := m.metadata rawOffset != calcCsum m.metadata
      fits := by decide }

def Metadata.setBlocks (m : Metadata) (updates : List (Update kind)) : Metadata :=
  { m with metadata := updates.foldl (setBlock kind) m.metadata }

def written (entries : Fin kind.entries → BitVec 64) (updates : List (Update kind)) : Fin kind.entries → BitVec 64 :=
  updates.foldl (fun f u => Function.update f u.ix (u.val.setWidth 64)) entries

end QuadStor.MetaPage
