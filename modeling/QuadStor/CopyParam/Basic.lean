import QuadStor.Lib.BigEndian
import QuadStor.Lib.Gather

/-!
# The parameter list of EXTENDED COPY

The received bytes lie in pages of 4096 bytes, and the parser moves over them with an index and an offset in a page.
-/

namespace QuadStor.CopyParam

open Lib

inductive Result (α : Type) where
  | fault
  | invalid
  | ignored
  | done (a : α)
  deriving DecidableEq, Repr

def Result.map {α β : Type} (f : α → β) : Result α → Result β
  | .fault => .fault
  | .invalid => .invalid
  | .ignored => .ignored
  | .done a => .done (f a)

/-- The bytes copied to `dest`, and the place behind them. The second copy takes what is left from one page. -/
def readPgdata (data : List UInt8) (c : Cursor) (destLen : Int) : Option (List UInt8 × Cursor) :=
  if destLen < 0 ∨ data.length ≤ c.idx * 4096 then none
  else
    let position := c.idx * 4096 + c.offset
    let minLen := min destLen.toNat (4096 - c.offset)
    if data.length < position + minLen then none
    else
      let next : Cursor := if c.offset + minLen = 4096 then ⟨c.idx + 1, 0⟩ else ⟨c.idx, c.offset + minLen⟩
      let left := destLen.toNat - minLen
      if left = 0 then some ((data.drop position).take minLen, next)
      else if left > 4096 ∨ data.length < next.idx * 4096 + left then none
      else some ((data.drop position).take minLen ++ (data.drop (next.idx * 4096)).take left, ⟨next.idx, left⟩)

/-- `struct target_descriptor_common`: the number in the list and the 32 bytes -/
structure TargetDescriptor where
  id : Nat
  bytes : List UInt8
  deriving DecidableEq, Repr

/-- `struct segment_descriptor_common`: its eight bytes, and what follows them -/
structure SegmentDescriptor where
  common : List UInt8
  desc : List UInt8
  deriving DecidableEq, Repr

def typeCode (common : List UInt8) : UInt8 := common.getD 0 0

def descLength (common : List UInt8) : Nat := ofBytes ((common.drop 2).take 2)

/-- `SLIST_INSERT_HEAD` puts a new descriptor in front. -/
def parseTargetDescriptors (data : List UInt8) :
    Nat → Nat → Cursor → List TargetDescriptor → Option (List TargetDescriptor × Cursor)
  | 0, _, c, list => some (list, c)
  | n + 1, i, c, list =>
    match readPgdata data c 32 with
    | none => none
    | some (bytes, c) => parseTargetDescriptors data n (i + 1) c (⟨i, bytes⟩ :: list)

/-- The loop over `avail`; a round takes at least four bytes off it. -/
def parseSegmentDescriptors (data : List UInt8) : Nat → Cursor → Int → Result (List SegmentDescriptor)
  | 0, _, _ => .fault
  | fuel + 1, c, avail =>
    if avail = 0 then .done []
    else
      match readPgdata data c 8 with
      | none => .fault
      | some (common, c) =>
        let length : Int := (descLength common : Int) - 4
        if length > avail - 8 then .invalid
        else
          match readPgdata data c length with
          | none => .fault
          | some (desc, c) =>
            (parseSegmentDescriptors data fuel c (avail - 8 - length)).map (⟨common, desc⟩ :: ·)

structure ExtendedCopy where
  listIdentifier : UInt8
  targetList : List TargetDescriptor
  segmentList : List SegmentDescriptor
  deriving DecidableEq, Repr

def targetDescLength (data : List UInt8) : Nat := ofBytes ((data.drop 2).take 2)

def segmentDescLength (data : List UInt8) : Nat := ofBytes ((data.drop 8).take 4)

/-- After the target descriptors, `offset` is one in the page that was reached. -/
def tdiskParseExtendedCopyParam (data : List UInt8) : Result ExtendedCopy :=
  if targetDescLength data % 32 ≠ 0 then .invalid
  else if data.length < 16 + targetDescLength data then .invalid
  else
    match parseTargetDescriptors data (targetDescLength data / 32) 0 ⟨0, 16⟩ [] with
    | none => .fault
    | some (targets, c) =>
      let avail : Int := (data.length : Int) - c.offset
      if (segmentDescLength data : Int) ≠ avail then .invalid
      else (parseSegmentDescriptors data (data.length + 1) c avail).map (⟨data.getD 0 0, targets, ·⟩)

def tdiskCmdExtendedCopyRead (data : List UInt8) : Result ExtendedCopy :=
  if data.length < 16 then .ignored else tdiskParseExtendedCopyParam data

/-- The descriptors are the bytes of the list, one behind the other, and a used segment is as long as `struct
segment_descriptor_b2b`. -/
structure ExtendedCopy.Faithful (data : List UInt8) (e : ExtendedCopy) : Prop where
  bytes : data.drop 16 = (e.targetList.reverse.map TargetDescriptor.bytes).flatten ++
    (e.segmentList.map fun s => s.common ++ s.desc).flatten
  ids : e.targetList.reverse.map TargetDescriptor.id = List.range (targetDescLength data / 32)
  lengths : 16 + targetDescLength data + segmentDescLength data = data.length
  b2b : ∀ s ∈ e.segmentList, typeCode s.common = 2 → 20 ≤ s.desc.length

def Safe (data : List UInt8) : Result ExtendedCopy → Prop
  | .fault => False
  | .invalid | .ignored => True
  | .done e => e.Faithful data

/-- Segment descriptors from a place on, with `avail` bytes announced: `none` if a length is too large. A descriptor has
a length of at least four, and what follows its eight bytes lies on two pages. -/
inductive Segments (data : List UInt8) : Nat → Nat → Option (List SegmentDescriptor) → Prop where
  | done {position : Nat} : Segments data position 0 (some [])
  | tooLong {position avail : Nat} : 0 < avail → position + 8 ≤ data.length →
      avail < 4 + descLength ((data.drop position).take 8) → Segments data position avail none
  | next {position avail n : Nat} {segments : Option (List SegmentDescriptor)} : position + 8 ≤ data.length →
      descLength ((data.drop position).take 8) = 4 + n → 8 + n ≤ avail →
      position + 8 + n ≤ data.length → (position + 8) / 4096 * 4096 < data.length →
      position + 8 + n ≤ ((position + 8) / 4096 + 2) * 4096 →
      Segments data (position + 8 + n) (avail - (8 + n)) segments →
      Segments data position avail
        (segments.map (⟨(data.drop position).take 8, (data.drop (position + 8)).take n⟩ :: ·))

def HeaderInvalid (data : List UInt8) : Prop :=
  targetDescLength data % 32 ≠ 0 ∨ data.length < 16 + targetDescLength data ∨
    segmentDescLength data ≠ data.length - (16 + targetDescLength data) % 4096

def Parsable (data : List UInt8) : Prop :=
  data.length < 16 ∨ HeaderInvalid data ∨
    ∃ segments, Segments data (16 + targetDescLength data) (segmentDescLength data) segments ∧
      ∀ list, segments = some list → ∀ s ∈ list, typeCode s.common = 2 → 24 ≤ descLength s.common

end QuadStor.CopyParam
