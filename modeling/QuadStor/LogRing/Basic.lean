import QuadStor.Read.Basic
import QuadStor.WriteLog

/-!
# The ring of log pages

Entries go to one page until it is full or has to be left; then the next page is emptied and gets the next
transaction id.
-/

namespace QuadStor.LogRing

abbrev Key := Nat × Nat

inductive Obj where
  | table (k : Key)
  | amap (k : Key)
  deriving DecidableEq, Repr

inductive Entry where
  | made (o : Obj)
  | data (target lba : Nat)
  deriving DecidableEq, Repr

structure LogPage where
  start : Nat
  entries : Nat → Option Entry

def LogPage.empty : LogPage := ⟨0, fun _ => none⟩

def LogPage.set (p : LogPage) (i : Nat) (e : Option Entry) : LogPage :=
  { p with entries := Function.update p.entries i e }

/-- An entry with its place; `start` is the id the page had. -/
structure Logged where
  start : Nat
  idx : Nat
  entry : Entry
  deriving DecidableEq, Repr

structure Ring where
  size : Nat
  mem : Nat → LogPage
  disk : Nat → LogPage
  pending : Nat → Nat
  free : Nat
  freeIdx : Nat
  transactionId : Nat
  /-- all entries in the order in which they were inserted; not in the source -/
  history : List Logged

namespace Ring

variable (r : Ring)

def freeLogEntries : Nat := v2LogEntries * r.size

def next : Nat := (r.free + 1) % r.size

def setup (p : Nat) : Ring :=
  { r with
    mem := Function.update r.mem p ⟨r.transactionId, fun _ => none⟩
    free := p
    freeIdx := 0
    transactionId := r.transactionId + v2LogEntries }

/-- `get_free_log_page`, the page is full: it waits for the transactions of the next one. -/
def CanRotate : Prop := r.freeIdx = v2LogEntries ∧ r.pending r.next = 0

def rotate : Ring := r.setup r.next

/-- `get_free_log_page`, the page is being written out or its disk is not there -/
def leave : Ring := { r with freeIdx := v2LogEntries }

def insert (e : Entry) : Ring :=
  { r with
    mem := Function.update r.mem r.free ((r.mem r.free).set r.freeIdx (some e))
    pending := Function.update r.pending r.free (r.pending r.free + 1)
    freeIdx := r.freeIdx + 1
    history := r.history ++ [⟨(r.mem r.free).start, r.freeIdx, e⟩] }

def flush (p : Nat) : Ring := { r with disk := Function.update r.disk p (r.mem p) }

def put (p : Nat) : Ring := { r with pending := Function.update r.pending p (r.pending p - 1) }

def clear (p i : Nat) : Ring := { r with mem := Function.update r.mem p ((r.mem p).set i none) }

def start (size : Nat) : Ring :=
  setup ⟨size, fun _ => .empty, fun _ => .empty, fun _ => 0, 0, 0, 1, []⟩ 0

end Ring

def LogPage.load (p : LogPage) : List Entry := (List.range v2LogEntries).filterMap p.entries

def replayEntries (pages : List LogPage) : List Entry := (checkWriteLogs LogPage.start pages).flatMap LogPage.load

open Lib

inductive Request where
  | write (target : Nat) (legacy : Bool) (lba transferLength : Nat)
  /-- the same for COMPARE AND WRITE, which has one byte for its length -/
  | compareAndWrite (target : Nat) (legacy : Bool) (lba : Nat) (transferLength : Fin 256)
  /-- `scan_write_data` for the pages of another node or of a copy -/
  | scan (target lba pglistCnt : Nat)
  deriving DecidableEq, Repr

namespace Request

def target : Request → Nat
  | write t _ _ _ => t
  | compareAndWrite t _ _ _ => t
  | scan t _ _ => t

def page : Request → Nat
  | write _ legacy lba _ | compareAndWrite _ legacy lba _ => if legacy then lba / 8 else lba
  | scan _ lba _ => lba

/-- `pglist_cnt` of the command, 16 bits wide, as it arrives -/
def pglistCnt : Request → Nat
  | write _ legacy _ n => u16 (transferLengthToPglistCnt (if legacy then 9 else 12) n)
  | compareAndWrite _ legacy _ n => u16 (transferLengthToPglistCnt (if legacy then 9 else 12) (2 * n))
  | scan _ _ n => n

def pages : Request → Nat
  | r@(write _ legacy lba n) =>
    if legacy = true ∧ (lba % 8 ≠ 0 ∨ u32 (n * 512) % 4096 ≠ 0) then
      u16 (transferLengthToPglistCnt 9 (u32 (n + lba % 8)))
    else r.pglistCnt
  | r@(compareAndWrite _ legacy lba n) =>
    if legacy then u16 (transferLengthToPglistCnt 9 (u32 (n + lba % 8))) else r.pglistCnt
  | r@(scan _ _ _) => r.pglistCnt

def logEntries : Request → Nat
  | r@(write _ _ _ _) => (r.pglistCnt + 2) * 2 + 4
  | r@(compareAndWrite _ _ _ _) => (r.pglistCnt + 2) * 2 + 4
  | r@(scan _ _ _) => r.pglistCnt * 2 + 4

def Has (r : Request) (lba : Nat) : Prop := r.page ≤ lba ∧ lba < r.page + r.pages

end Request

def amapOf (target lba : Nat) : Obj := .amap (target, amapId lba)

def tableOf (target lba : Nat) : Obj := .table (target, amapTableId lba)

/-! ## A write under way -/

inductive Round where
  | tables
  | amaps
  | pages
  deriving DecidableEq, Repr

def Round.obj (round : Round) (target lba : Nat) : Obj :=
  match round with
  | .tables => tableOf target lba
  | _ => amapOf target lba

inductive Phase where
  | idle
  | scanning
  /-- before the log lock is taken for a round -/
  | before (round : Round)
  | logging (round : Round)
  /-- waiting for what others have made for these pages -/
  | checking (round : Round) (todo : List Nat)
  | logged
  deriving DecidableEq, Repr

structure Placed where
  page : Nat
  idx : Nat
  entry : Entry
  deriving DecidableEq, Repr

structure Writer where
  phase : Phase
  req : Request
  logReserved : Nat
  /-- `meta_index_info_list`, and those on it that have no log page yet -/
  made : List Obj
  unlogged : List Obj
  /-- the pages on the `amap_sync_list`, one for each map -/
  sync : List Nat
  /-- the pages whose map entry was set, and that have no log page yet -/
  updates : List Nat
  failed : Bool
  placed : List Placed
  /-- how many entries were inserted; not in the source -/
  inserted : Nat

def Writer.idle : Writer := ⟨.idle, .scan 0 0 0, 0, [], [], [], [], false, [], 0⟩

def Obj.isTable : Obj → Bool
  | .table _ => true
  | .amap _ => false

def Writer.nextEntry (w : Writer) : Round → Option Entry
  | .tables => (w.unlogged.find? Obj.isTable).map .made
  | .amaps => (w.unlogged.find? fun o => !o.isTable).map .made
  | .pages => w.updates.head?.map (.data w.req.target)

def Writer.take (w : Writer) (p : Placed) : Writer :=
  match p.entry with
  | .made o => { w with unlogged := w.unlogged.erase o, placed := w.placed ++ [p], inserted := w.inserted + 1 }
  | .data _ _ => { w with updates := w.updates.tail, placed := w.placed ++ [p], inserted := w.inserted + 1 }

/-- `META_DATA_NEW` and `META_LOG_DONE` of a table or a map -/
structure Flags where
  isNew : Bool
  logDone : Bool
  deriving DecidableEq, Repr

structure State (N : Nat) where
  ring : Ring
  reserved : Nat
  holder : Option (Fin N)
  /-- `none` if it is not there -/
  flags : Obj → Option Flags
  writer : Fin N → Writer

inductive Action (N : Nat) where
  | reserve (w : Fin N) (req : Request)
  /-- `amap_table_init`, `amap_new` for page `lba` -/
  | makeTable (w : Fin N) (lba : Nat)
  | makeAmap (w : Fin N) (lba : Nat)
  | useAmap (w : Fin N) (lba : Nat)
  /-- the map entries of `updates` were set, or the write failed before that -/
  | endScan (w : Fin N) (updates : List Nat) (failed : Bool)
  | skip (w : Fin N)
  | lock (w : Fin N)
  | rotate (w : Fin N)
  | leave (w : Fin N)
  | insert (w : Fin N)
  | unlock (w : Fin N)
  /-- one pass of the waiting loops of `tdisk_handle_meta_log` -/
  | check (w : Fin N)
  /-- `pgdata_wait_for_amap`, `table_index_write`: the metadata is on disk -/
  | clearNew (w : Fin N) (lba : Nat) (o : Obj)
  /-- freed from memory and read in again -/
  | forget (o : Obj)
  | flush (p : Nat)
  /-- `fastlog_clear_transactions`, one entry, and at the end of it -/
  | put (w : Fin N) (p : Placed) (error : Bool)
  | release (w : Fin N)

namespace State

variable {N : Nat} (s : State N)

def setWriter (w : Fin N) (x : Writer) : State N := { s with writer := Function.update s.writer w x }

def setPhase (w : Fin N) (p : Phase) : State N := s.setWriter w { s.writer w with phase := p }

def make (w : Fin N) (o : Obj) : State N :=
  { s with flags := Function.update s.flags o (some ⟨true, false⟩) }.setWriter w
    { s.writer w with made := (s.writer w).made ++ [o], unlogged := (s.writer w).unlogged ++ [o] }

/-- `atomic_test_bit(NEW)`, `allocated_by_thr` and `LOG_DONE`: the wait is over. -/
def Passes (w : Fin N) (o : Obj) : Prop :=
  ∃ f, s.flags o = some f ∧ (f.isNew = false ∨ o ∈ (s.writer w).made ∨ f.logDone = true)

def allowed : Action N → Prop
  | .reserve w req => (s.writer w).phase = .idle ∧ s.reserved + req.logEntries ≤ s.ring.freeLogEntries
  | .makeTable w lba =>
    (s.writer w).phase = .scanning ∧ (s.writer w).req.Has lba ∧ s.flags (tableOf (s.writer w).req.target lba) = none
  | .makeAmap w lba =>
    (s.writer w).phase = .scanning ∧ (s.writer w).req.Has lba ∧
      s.flags (tableOf (s.writer w).req.target lba) ≠ none ∧ s.flags (amapOf (s.writer w).req.target lba) = none
  | .useAmap w lba =>
    (s.writer w).phase = .scanning ∧ (s.writer w).req.Has lba ∧ s.flags (amapOf (s.writer w).req.target lba) ≠ none
  | .endScan w updates failed =>
    (s.writer w).phase = .scanning ∧ updates.Nodup ∧ (failed = true → updates = []) ∧
      ∀ lba ∈ updates, (s.writer w).req.Has lba ∧ ∃ l ∈ (s.writer w).sync, amapId l = amapId lba
  | .skip w =>
    ∃ round, (s.writer w).phase = .before round ∧ round ≠ .pages ∧ (s.writer w).nextEntry round = none
  | .lock w =>
    ∃ round, (s.writer w).phase = .before round ∧ s.holder = none ∧
      (round ≠ .pages → (s.writer w).nextEntry round ≠ none)
  | .rotate w => s.holder = some w ∧ s.ring.CanRotate
  | .leave w => s.holder = some w
  | .insert w =>
    ∃ round, (s.writer w).phase = .logging round ∧ (s.writer w).nextEntry round ≠ none ∧ s.ring.freeIdx < v2LogEntries
  | .unlock w => ∃ round, (s.writer w).phase = .logging round ∧ (s.writer w).nextEntry round = none
  | .check w =>
    ∃ round, (s.writer w).phase = .checking round [] ∨ ∃ lba todo, (s.writer w).phase = .checking round (lba :: todo) ∧
        s.Passes w (round.obj (s.writer w).req.target lba)
  | .clearNew w lba o =>
    (s.writer w).phase = .logged ∧ (s.writer w).failed = false ∧ lba ∈ (s.writer w).sync ∧
      (o = tableOf (s.writer w).req.target lba ∨ o = amapOf (s.writer w).req.target lba)
  | .forget o => ∃ f, s.flags o = some f ∧ f.isNew = false
  | .flush p => p < s.ring.size
  | .put w p _ => (s.writer w).phase = .logged ∧ p ∈ (s.writer w).placed
  | .release w => (s.writer w).phase = .logged ∧ (s.writer w).placed = []

def setFlags (o : Obj) (f : Flags → Flags) : State N :=
  { s with flags := Function.update s.flags o ((s.flags o).map f) }

def insertEntry (w : Fin N) (e : Entry) : State N :=
  { s with ring := s.ring.insert e }.setWriter w ((s.writer w).take ⟨s.ring.free, s.ring.freeIdx, e⟩)

def run : Action N → State N
  | .reserve w req =>
    { s with reserved := s.reserved + req.logEntries }.setWriter w
      { Writer.idle with phase := .scanning, req, logReserved := req.logEntries }
  | .makeTable w lba => s.make w (tableOf (s.writer w).req.target lba)
  | .makeAmap w lba => s.make w (amapOf (s.writer w).req.target lba)
  | .useAmap w lba =>
    if (s.writer w).sync.any (fun l => amapId l == amapId lba) then s
    else s.setWriter w { s.writer w with sync := lba :: (s.writer w).sync }
  | .endScan w updates failed =>
    if (s.writer w).made.isEmpty && updates.isEmpty then
      s.setWriter w { s.writer w with phase := .logged, sync := [], updates, failed }
    else s.setWriter w { s.writer w with phase := .before .tables, updates, failed }
  | .skip w =>
    match (s.writer w).phase with
    | .before round => s.setPhase w (.checking round (s.writer w).sync)
    | _ => s
  | .lock w =>
    match (s.writer w).phase with
    | .before round => { s with holder := some w }.setPhase w (.logging round)
    | _ => s
  | .rotate _ => { s with ring := s.ring.rotate }
  | .leave _ => { s with ring := s.ring.leave }
  | .insert w =>
    match (s.writer w).phase with
    | .logging round =>
      match (s.writer w).nextEntry round with
      | some (.made o) => (s.insertEntry w (.made o)).setFlags o fun f => { f with logDone := true }
      | some (.data target lba) => s.insertEntry w (.data target lba)
      | none => s
    | _ => s
  | .unlock w =>
    match (s.writer w).phase with
    | .logging .pages => { s with holder := none }.setPhase w .logged
    | .logging round => { s with holder := none }.setPhase w (.checking round (s.writer w).sync)
    | _ => s
  | .check w =>
    match (s.writer w).phase with
    | .checking round (_ :: todo) => s.setPhase w (.checking round todo)
    | .checking .tables [] => s.setPhase w (.before .amaps)
    | .checking _ [] => s.setPhase w (if (s.writer w).failed then .logged else .before .pages)
    | _ => s
  | .clearNew _ _ o => s.setFlags o fun f => { f with isNew := false }
  | .forget o => s.setFlags o fun f => { f with logDone := false }
  | .flush p => { s with ring := s.ring.flush p }
  | .put w p error =>
    { s with
      ring :=
        match error, p.entry with
        | true, .data _ _ => (s.ring.clear p.page p.idx).put p.page
        | _, _ => s.ring.put p.page }.setWriter w
      { s.writer w with placed := (s.writer w).placed.erase p }
  | .release w => { s with reserved := s.reserved - (s.writer w).logReserved }.setWriter w .idle

end State

/-- The runs of any number of writers since the log was reset; the tables and maps that are there then are
not new. -/
def system (N size : Nat) : System (State N) (Action N) where
  init s := 0 < size ∧ s.ring = .start size ∧ s.reserved = 0 ∧ s.holder = none ∧ (∀ w, s.writer w = .idle) ∧
    ∀ o f, s.flags o = some f → f.isNew = false
  step s a t := s.allowed a ∧ t = s.run a

end QuadStor.LogRing
