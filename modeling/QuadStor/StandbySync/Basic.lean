import QuadStor.Fastlog.Basic
import QuadStor.Geometry

/-!
# Metadata on the standby

The master sends an image of every address map and every table that it writes, and a post message when the write is
done. `tdisk_free_thread` takes maps and tables out of memory that are not in use.
-/

namespace QuadStor.StandbySync

open Lib Fastlog Function

variable {α : Type}

structure Meta (α : Type) where
  metadata : Option α
  writeId : Nat
  invalid : Bool
  ioPending : Bool
  isNew : Bool
  deriving DecidableEq

structure Image (α : Type) where
  writeId : Nat
  metadata : α
  isNew : Bool
  deriving DecidableEq

def Meta.zeroed : Meta α := ⟨none, 0, false, false, false⟩

/-- The end of `node_amap_sync_recv` and of `node_amap_table_sync_recv` -/
def Meta.receive (m : Meta α) (image : Image α) : Meta α :=
  if writeIdGreater m.writeId image.writeId then m
  else
    { metadata := some image.metadata
      writeId := image.writeId
      invalid := false
      ioPending := true
      isNew := m.isNew || image.isNew }

/-- The end of `node_amap_sync_post_recv` and of `node_amap_table_sync_post_recv` -/
def Meta.post (m : Meta α) (writeId : Nat) : Meta α :=
  if m.writeId = writeId then { m with ioPending := false } else m

/-- The end of `node_amap_meta_sync_recv` and of `node_amap_table_meta_sync_recv` -/
def Meta.clearNew (m : Meta α) : Meta α := { m with isNew := false }

structure History (α : Type) where
  images : List (Image α)
  posts : List Nat

inductive Obj where
  | table (t : Nat)
  | amap (n : Nat)
  deriving DecidableEq

structure State (α : Type) where
  obj : Obj → Option (Meta α)
  /-- not in the source -/
  history : Obj → History α

def State.empty : State α := ⟨fun _ => none, fun _ => ⟨[], []⟩⟩

def State.set (s : State α) (o : Obj) (m : Meta α) : State α :=
  { s with obj := update s.obj o (some m) }

def State.remove (s : State α) (o : Obj) : State α := { s with obj := update s.obj o none }

def State.setHistory (s : State α) (o : Obj) (h : History α) : State α :=
  { s with history := update s.history o h }

def State.receive (s : State α) (o : Obj) (image : Image α) : State α :=
  match s.obj o with
  | some m =>
    (s.set o (m.receive image)).setHistory o ⟨image :: (s.history o).images, (s.history o).posts⟩
  | none => s

/-- A post message; `none` is a null pointer. -/
def State.post (s : State α) (o : Obj) (writeId : Nat) : Option (State α) :=
  match s.obj o with
  | some m =>
    some ((s.set o (m.post writeId)).setHistory o ⟨(s.history o).images, writeId :: (s.history o).posts⟩)
  | none => none

def State.clearNew (s : State α) (o : Obj) : State α :=
  match s.obj o with
  | some m => s.set o m.clearNew
  | none => s

def tableOf (n : Nat) : Obj := .table (tableId n)

/-- `amap_table_create`, if the table is not in memory -/
def State.amapTableCreate (s : State α) (table : Obj) : State α :=
  if (s.obj table).isSome then s else s.set table { Meta.zeroed with invalid := true }

/-- `amap_create`, if the map is not in memory. The flag is set in the table. -/
def State.amapCreate (s : State α) (n : Nat) : State α :=
  if (s.obj (.amap n)).isSome then s
  else
    match s.obj (tableOf n) with
    | some m => (s.set (tableOf n) { m with invalid := true }).set (.amap n) .zeroed
    | none => s

/-- `page`, `table` and `amap` tell whether the allocations are successful. -/
def nodeAmapSyncRecv (s : State α) (n : Nat) (image : Image α) (page table amap : Bool) : State α :=
  if !page || ((s.obj (tableOf n)).isNone && !table) then s
  else
    let s := s.amapTableCreate (tableOf n)
    if (s.obj (.amap n)).isNone && !amap then s
    else (s.amapCreate n).receive (.amap n) image

def nodeAmapSyncPostRecv (s : State α) (n writeId : Nat) : Option (State α) :=
  if (s.obj (tableOf n)).isNone then none else s.post (.amap n) writeId

def nodeAmapMetaSyncRecv (s : State α) (n : Nat) : State α :=
  if (s.obj (tableOf n)).isNone then s else s.clearNew (.amap n)

def nodeAmapTableSyncRecv (s : State α) (t : Nat) (image : Image α) (page table : Bool) : State α :=
  if !page || ((s.obj (.table t)).isNone && !table) then s
  else (s.amapTableCreate (.table t)).receive (.table t) image

def nodeAmapTableSyncPostRecv (s : State α) (t writeId : Nat) : Option (State α) := s.post (.table t) writeId

def nodeAmapTableMetaSyncRecv (s : State α) (t : Nat) : State α := s.clearNew (.table t)

/-- `amap_busy`; no message is being handled meanwhile. -/
def Meta.busy (m : Meta α) : Bool := m.ioPending || m.isNew

/-- One round of `amap_table_free_unused` -/
def amapTableFreeUnused (s : State α) (n : Nat) : State α :=
  match s.obj (.amap n) with
  | some m => if m.busy then s else s.remove (.amap n)
  | none => s

def State.isEmpty (s : State α) (t : Nat) : Bool :=
  (List.range amapsPerAmapTable).all fun i => (s.obj (.amap (amapsPerAmapTable * t + i))).isNone

/-- The end of `tdisk_free_thread`: a table goes once it has no maps, whatever its flags are. -/
def tdiskFreeThread (s : State α) (t : Nat) : State α := if s.isEmpty t then s.remove (.table t) else s

inductive Action (α : Type) where
  | amap (n : Nat) (image : Image α) (page table amap : Bool)
  | amapMeta (n : Nat)
  | amapPost (n writeId : Nat)
  | table (t : Nat) (image : Image α) (page table : Bool)
  | tableMeta (t : Nat)
  | tablePost (t writeId : Nat)
  | freeAmap (n : Nat)
  | freeTable (t : Nat)

def exec (s : State α) : Action α → Option (State α)
  | .amap n image page table amap => some (nodeAmapSyncRecv s n image page table amap)
  | .amapMeta n => some (nodeAmapMetaSyncRecv s n)
  | .amapPost n writeId => nodeAmapSyncPostRecv s n writeId
  | .table t image page table => some (nodeAmapTableSyncRecv s t image page table)
  | .tableMeta t => some (nodeAmapTableMetaSyncRecv s t)
  | .tablePost t writeId => nodeAmapTableSyncPostRecv s t writeId
  | .freeAmap n => some (amapTableFreeUnused s n)
  | .freeTable t => some (tdiskFreeThread s t)

def system : System (State α) (Action α) where
  init s := s = .empty
  step s a t := exec s a = some t

/-- The newest image is there, `invalid` means that there was none, and I/O is pending until the post message for it. -/
structure Kept (h : History α) (m : Meta α) : Prop where
  newest : h.images ≠ [] → ∃ image ∈ h.images, m.metadata = some image.metadata ∧ m.writeId = image.writeId ∧
    ∀ other ∈ h.images, other.writeId ≤ image.writeId
  invalid : m.invalid = true → h.images = []
  ioPending : m.ioPending = true ↔ h.images ≠ [] ∧ m.writeId ∉ h.posts

/-- The write id is at most `2 ^ 32` ahead, and no image comes again after its post message. What was taken out of
memory gets no older image. -/
structure Timely (h : History α) (m : Option (Meta α)) (image : Image α) : Prop where
  window : image.writeId ≤ (m.map Meta.writeId).getD 0 + 2 ^ 32
  lt : image.writeId < 2 ^ 48
  again : ∀ m', m = some m' → m'.writeId = image.writeId → m'.ioPending = true
  freed : m = none → (∀ other ∈ h.images, other.writeId ≤ image.writeId) ∧ image.writeId ∉ h.posts

def Allowed (s : State α) : Action α → Prop
  | .amap n image _ _ _ =>
    -- a map is new in memory only while there was no image of its table
    (s.obj (.amap n) = none → ∀ m, s.obj (tableOf n) = some m → m.invalid = true) ∧
      (s.obj (tableOf n) = none → (s.history (tableOf n)).images = []) ∧
      Timely (s.history (.amap n)) (s.obj (.amap n)) image
  | .table t image _ _ => Timely (s.history (.table t)) (s.obj (.table t)) image
  -- no post message comes before its image
  | .amapPost n writeId => ∀ m, s.obj (.amap n) = some m → writeId ≤ m.writeId
  | .tablePost t writeId => ∀ m, s.obj (.table t) = some m → writeId ≤ m.writeId
  | _ => True

end QuadStor.StandbySync
