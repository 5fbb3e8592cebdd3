import Mathlib.Logic.Function.Basic
import QuadStor.Geometry
import QuadStor.Lib.System

/-!
# The resync of a mirrored disk

The master sends its peer the maps that were written while it was away. A thread goes over the tables and maps, and
skips what the write bitmap says was not written.
-/

namespace QuadStor.MirrorResync

open Lib Function

structure Config where
  amapMax : Nat
  pos : 0 < amapMax
  threads : Nat

def Config.tableMax (cfg : Config) : Nat := (cfg.amapMax + amapsPerAmapTable - 1) / amapsPerAmapTable

structure Write where
  first : Nat
  last : Nat
  /-- what `tdisk_lba_needs_mirror_sync` has said -/
  forward : Option Bool
  /-- the maps that have gone through `amap_clone_check` -/
  checked : Nat → Bool

def Write.CoversPage (w : Write) (page : Nat) : Prop := w.first ≤ page ∧ page ≤ w.last

def Write.Covers (w : Write) (n : Nat) : Prop := amapId w.first ≤ n ∧ n ≤ amapId w.last

instance {w : Write} {page : Nat} : Decidable (w.CoversPage page) := inferInstanceAs (Decidable (_ ∧ _))

instance {w : Write} {n : Nat} : Decidable (w.Covers n) := inferInstanceAs (Decidable (_ ∧ _))

inductive Pc where
  /-- `amap_table_group_mirror`, before table `t` -/
  | table (t : Nat)
  /-- `amap_table_mirror`, before map `n`, with the count of the maps in the list -/
  | amap (n done : Nat)
  /-- `clone_list_wait` with a full list, after map `n` -/
  | batch (n : Nat)
  /-- `clone_list_wait` at the end of `amap_table_mirror` -/
  | endTable (t : Nat)
  /-- before `tdisk_mirror_end` -/
  | finish
  deriving DecidableEq

inductive Phase where
  | idle
  | running (pc : Pc)
  | completed
  deriving DecidableEq

inductive Worker where
  | idle
  | queued
  | locked
  deriving DecidableEq

structure State (cfg : Config) where
  table : Nat → Bool
  amap : Nat → Bool
  bitmapValid : Bool
  /-- `group_write_bmap`, by table -/
  groupBit : Nat → Bool
  /-- `write_bmap`, by map -/
  writeBit : Nat → Bool
  bmapInvalid : Nat → Bool
  needResync : Bool
  writer : Fin cfg.threads → Option Write
  phase : Phase
  worker : Nat → Worker
  cloneAmapId : Nat
  mirrorError : Bool
  /-- not in the source: the pages whose last write the peer has not got -/
  unsent : Nat → Bool
  /-- not in the source: the tables that the thread has left out -/
  skipped : Nat → Bool

variable {cfg : Config}

def State.inSync (s : State cfg) : Bool :=
  match s.phase with
  | .running _ => true
  | _ => false

def State.lbaNeedsMirrorSync (s : State cfg) (page : Nat) : Bool :=
  if !s.needResync then true
  else if !s.inSync then false
  else !decide (s.cloneAmapId < amapId page)

/-- `tdisk_needs_write_bmap` of a master -/
def State.needsWriteBmap (s : State cfg) : Bool := s.needResync && s.bitmapValid

/-- `amap_write_bmap_check` in `amap_clone_check` -/
def State.amapWriteBmapCheck (s : State cfg) (n : Nat) : State cfg :=
  if s.needsWriteBmap && !s.bmapInvalid (tableId n) then
    { s with
      groupBit := update s.groupBit (tableId n) true
      writeBit := update s.writeBit n true }
  else s

/-- `amap_table_write_bmap_check` in `amap_table_clone_check` -/
def State.amapTableWriteBmapCheck (s : State cfg) (t : Nat) : State cfg :=
  if s.needsWriteBmap && !s.bmapInvalid t then { s with groupBit := update s.groupBit t true } else s

def State.setWriter (s : State cfg) (k : Fin cfg.threads) (w : Option Write) : State cfg :=
  { s with writer := update s.writer k w }

def State.Free (s : State cfg) (first last : Nat) : Prop :=
  (∀ k, ∀ w ∈ s.writer k, w.last < first ∨ last < w.first) ∧
    ∀ n < cfg.amapMax, s.worker n = .locked → n < amapId first ∨ amapId last < n

instance {s : State cfg} {first last : Nat} : Decidable (s.Free first last) := inferInstanceAs (Decidable (_ ∧ _))

def State.FreeMap (s : State cfg) (n : Nat) : Prop := ∀ k, ∀ w ∈ s.writer k, ¬w.Covers n

instance {s : State cfg} {n : Nat} : Decidable (s.FreeMap n) := inferInstanceAs (Decidable (∀ k, ∀ w ∈ s.writer k, _))

def State.goto (s : State cfg) (pc : Pc) : State cfg := { s with phase := .running pc }

def State.setCloneAmapId (s : State cfg) (n : Nat) : State cfg := { s with cloneAmapId := max s.cloneAmapId n }

def State.setWorker (s : State cfg) (n : Nat) (w : Worker) : State cfg :=
  { s with worker := update s.worker n w }

def State.fail (s : State cfg) : State cfg := { s.goto .finish with mirrorError := true }

def nextTable (cfg : Config) (t : Nat) : Pc := if t + 1 = cfg.tableMax then .finish else .table (t + 1)

def nextAmap (cfg : Config) (n done : Nat) : Pc :=
  if (n + 1) % amapsPerAmapTable = 0 ∨ n + 1 = cfg.amapMax then .endTable (tableId n) else .amap (n + 1) done

def State.skipsTable (s : State cfg) (t : Nat) : Bool := (s.bitmapValid && !s.groupBit t) || !s.table t

def State.skipsAmap (s : State cfg) (n : Nat) : Bool :=
  (!s.bmapInvalid (tableId n) && s.bitmapValid && !s.writeBit n) || !s.amap n

def State.Waited (s : State cfg) : Prop := ∀ n < cfg.amapMax, s.worker n = .idle

instance {s : State cfg} : Decidable s.Waited := inferInstanceAs (Decidable (∀ n < cfg.amapMax, _))

/-- `tdisk_mirror_end` without an error, and `tdisk_clone_cleanup` -/
def State.complete (s : State cfg) : State cfg :=
  { s with
    phase := .completed
    needResync := false
    bitmapValid := true
    groupBit := fun _ => false
    writeBit := fun _ => false
    bmapInvalid := fun _ => false
    cloneAmapId := 0 }

/-- One step of the thread; `ok` tells whether what it asks for is done. -/
def State.sweep (s : State cfg) (ok : Bool) : Option (State cfg) :=
  match s.phase with
  | .running (.table t) =>
    if s.skipsTable t then
      some ({ s with skipped := update s.skipped t true }.goto (nextTable cfg t))
    else if ok then some (s.goto (.amap (amapsPerAmapTable * t) 0))
    else some s.fail
  | .running (.amap n done) =>
    if s.skipsAmap n then some ((s.setCloneAmapId n).goto (nextAmap cfg n done))
    else if ok then
      -- `MAX_AMAP_MIRROR_THREADS`
      some ((s.setWorker n .queued).goto (if done + 1 = 8 then .batch n else nextAmap cfg n (done + 1)))
    else some s.fail
  | .running (.batch n) =>
    if ¬s.Waited then none
    else if s.mirrorError then some s.fail
    else some (s.goto (nextAmap cfg n 0))
  | .running (.endTable t) =>
    if ¬s.Waited then none
    else if s.mirrorError then some s.fail
    else some (s.goto (nextTable cfg t))
  | .running .finish =>
    if ¬s.Waited then none
    else if s.mirrorError || !ok then some { s with phase := .idle, cloneAmapId := 0 }
    else some s.complete
  | _ => none

inductive Reply where
  | same
  | sent
  | failed

inductive Action (cfg : Config) where
  | start
  | begin (k : Fin cfg.threads) (first last : Nat)
  | decide (k : Fin cfg.threads)
  | newTable (k : Fin cfg.threads) (t : Nat)
  | create (k : Fin cfg.threads) (n : Nat)
  | check (k : Fin cfg.threads) (n : Nat)
  | update (k : Fin cfg.threads) (page : Nat)
  | done (k : Fin cfg.threads)
  /-- A table is dropped and read again by `amap_table_load_async`. -/
  | reload (t : Nat)
  | sweep (ok : Bool)
  | lock (n : Nat) (ok : Bool)
  | send (n : Nat) (reply : Reply)
  | cancel

def exec (s : State cfg) : Action cfg → Option (State cfg)
  | .start =>
    if s.phase = .idle ∧ s.needResync = true then
      some { s with phase := .running (.table 0), cloneAmapId := 0, mirrorError := false, skipped := fun _ => false }
    else none
  | .begin k first last =>
    if s.writer k = none ∧ first ≤ last ∧ amapId last < cfg.amapMax ∧ s.Free first last then
      some (s.setWriter k (some ⟨first, last, none, fun _ => false⟩))
    else none
  | .decide k =>
    match s.writer k with
    | some w =>
      if w.forward.isSome then none
      else some (s.setWriter k (some { w with forward := some (s.lbaNeedsMirrorSync w.first) }))
    | none => none
  | .newTable k t =>
    match s.writer k with
    | some w =>
      if w.forward.isSome ∧ tableId (amapId w.first) ≤ t ∧ t ≤ tableId (amapId w.last) ∧ s.table t = false then
        some ({ s with
          table := update s.table t true
          bmapInvalid := update s.bmapInvalid t false }.amapTableWriteBmapCheck t)
      else none
    | none => none
  | .create k n =>
    match s.writer k with
    | some w =>
      if w.forward.isSome ∧ w.Covers n ∧ s.table (tableId n) = true ∧ s.amap n = false then
        some ({ s with amap := update s.amap n true }.amapWriteBmapCheck n)
      else none
    | none => none
  | .check k n =>
    match s.writer k with
    | some w =>
      if w.forward.isSome ∧ w.Covers n ∧ s.amap n = true then
        some ((s.amapWriteBmapCheck n).setWriter k (some { w with checked := update w.checked n true }))
      else none
    | none => none
  | .update k page =>
    match s.writer k with
    | some w =>
      match w.forward with
      | some forward =>
        if w.CoversPage page ∧ w.checked (amapId page) = true then
          some { s with unsent := update s.unsent page !forward }
        else none
      | none => none
    | none => none
  | .done k => if (s.writer k).isSome then some (s.setWriter k none) else none
  | .reload t =>
    if s.table t then
      some { s with
        writeBit := fun n => if tableId n = t then false else s.writeBit n
        bmapInvalid := update s.bmapInvalid t (s.groupBit t) }
    else none
  | .sweep ok => s.sweep ok
  | .lock n ok =>
    if s.worker n = .queued ∧ s.FreeMap n then
      if ok then some ((s.setWorker n .locked).setCloneAmapId n)
      else some { (s.setWorker n .idle).setCloneAmapId n with mirrorError := true }
    else none
  | .send n reply =>
    if s.worker n = .locked then
      match reply with
      | .same => some (s.setWorker n .idle)
      | .sent =>
        some { s.setWorker n .idle with unsent := fun page => if amapId page = n then false else s.unsent page }
      | .failed => some { s.setWorker n .idle with mirrorError := true }
    else none
  | .cancel => some { s with mirrorError := true }

def State.Ready (s : State cfg) (n : Nat) : Prop :=
  s.amap n = true ∧ s.table (tableId n) = true ∧ (s.bitmapValid = true → s.groupBit (tableId n) = true ∧
      (s.bmapInvalid (tableId n) = true ∨ s.writeBit n = true))

/-- The maps that were written, if any, are in the write bitmap, or it is not valid. -/
structure Initial (s : State cfg) : Prop where
  phase : s.phase = .idle
  needResync : s.needResync = true
  writer : ∀ k, s.writer k = none
  worker : ∀ n, s.worker n = .idle
  bmapInvalid : ∀ t, s.bmapInvalid t = true → s.groupBit t = true
  table : ∀ n, s.amap n = true → s.table (tableId n) = true
  unsent : ∀ page, s.unsent page = true → amapId page < cfg.amapMax ∧ s.Ready (amapId page)

def system (cfg : Config) : System (State cfg) (Action cfg) where
  init := Initial
  step s a t := exec s a = some t

def AllSent (s : State cfg) : Prop := s.phase = .completed → ∀ page, s.unsent page = false

def State.Silent (s : State cfg) (w : Write) : Prop := w.forward = some false ∧ ∃ k, s.writer k = some w

def Allowed (s : State cfg) : Action cfg → Prop
  | .decide k =>
    -- a write ahead of the thread is not in a table that the thread has left out
    ∀ w, s.writer k = some w → s.inSync = true → s.cloneAmapId < amapId w.first →
      ∀ n, w.Covers n → s.skipped (tableId n) = false
  | .sweep _ =>
    -- nothing is left out while a write is under way in it that sends nothing itself
    match s.phase with
    | .running (.table t) => s.skipsTable t = true → ∀ w, s.Silent w → ∀ n, w.Covers n → tableId n ≠ t
    | .running (.amap n _) => s.skipsAmap n = true → ∀ w, s.Silent w → ¬w.Covers n
    | _ => True
  -- the same write id means that the map is the same
  | .send n .same => ∀ page, amapId page = n → s.unsent page = false
  | _ => True

end QuadStor.MirrorResync
