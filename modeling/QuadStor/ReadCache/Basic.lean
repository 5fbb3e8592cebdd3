import QuadStor.Lib.System
import Mathlib.Data.List.Basic

/-!
# The read cache

An entry of the read cache is on the list of its hash bucket, under the lock of the bucket, and on `glist`, under
`glist_lock`.
-/

namespace QuadStor.ReadCache

open Lib Function

/-- `struct rcache_entry`; `ptr` is its address. -/
structure Entry (α : Type) where
  ptr : Nat
  block : Nat
  page : α
  deriving DecidableEq, Repr

/-- `inserting` holds, for a bucket locked by `rcache_entry_insert` between its two windows of `glist_lock`, the new
entry; `evicting` the entries that `rcache_check` has taken off `glist` and not yet off their buckets. `removed` is not
in the source: the blocks removed and not inserted since. -/
structure State (α : Type) where
  buckets : Nat → List (Entry α)
  glist : List (Entry α)
  rcacheCount : Nat
  inserting : Nat → Option (Entry α)
  evicting : List (Entry α)
  next : Nat
  removed : Nat → Bool

def State.initial (α : Type) : State α where
  buckets _ := []
  glist := []
  rcacheCount := 0
  inserting _ := none
  evicting := []
  next := 0
  removed _ := false

variable {α : Type} [DecidableEq α]

def rcacheEntryFree (s : State α) (hashval : Nat) (entry : Entry α) : State α :=
  if entry ∈ s.glist then
    { s with
      rcacheCount := s.rcacheCount - 1
      glist := s.glist.erase entry
      buckets := update s.buckets hashval ((s.buckets hashval).erase entry) }
  else s

/-- The scan for a block, in `rcache_entry_remove`, `rcache_entry_insert` and
`rcache_entry_locate`. -/
def findEntry (s : State α) (hashval block : Nat) : Option (Entry α) :=
  (s.buckets hashval).find? (·.block == block)

def rcacheEntryRemove (s : State α) (hashval block : Nat) : State α :=
  match findEntry s hashval block with
  | some entry => rcacheEntryFree s hashval entry
  | none => s

section

-- the hash value of a block, and `none` where `bdev_find` has no disk for it
variable (hashblock : Nat → Option Nat)

def rcacheRemove (s : State α) (block : Nat) : State α :=
  let left := match hashblock block with
    | some hashval => rcacheEntryRemove s hashval block
    | none => s
  { left with removed := update s.removed block true }

/-- `rcache_entry_insert` up to its second window of `glist_lock`; the bucket stays locked. -/
def rcacheEntryInsert (s : State α) (hashval block : Nat) (page : α) : State α :=
  let left := rcacheEntryRemove s hashval block
  let new : Entry α := ⟨s.next, block, page⟩
  { left with
    buckets := update left.buckets hashval (new :: left.buckets hashval)
    inserting := update s.inserting hashval (some new)
    next := s.next + 1
    removed := update s.removed block false }

def rcacheEntryInsertEnd (s : State α) (hashval : Nat) (new : Entry α) : State α :=
  { s with
    glist := s.glist ++ [new]
    rcacheCount := s.rcacheCount + 1
    inserting := update s.inserting hashval none }

def rcacheLocate (s : State α) (block : Nat) : Option α :=
  (hashblock block).bind fun hashval => (findEntry s hashval block).map (·.page)

/-- What a lookup does to `glist`: an entry that is on it moves to the tail. -/
def rcacheEntryLocate (s : State α) (block : Nat) : State α :=
  match (hashblock block).bind fun hashval => findEntry s hashval block with
  | some entry =>
    if entry ∈ s.glist then { s with glist := s.glist.erase entry ++ [entry] } else s
  | none => s

/-- The first window of `rcache_check`. The test of `rcache_count` comes before it, so it says nothing about the state
found in it. -/
def rcacheCheck (s : State α) (entry : Entry α) : State α :=
  { s with
    glist := s.glist.erase entry
    rcacheCount := s.rcacheCount - 1
    evicting := entry :: s.evicting }

def rcacheCheckEnd (s : State α) (hashval : Nat) (entry : Entry α) : State α :=
  { s with
    buckets := update s.buckets hashval ((s.buckets hashval).erase entry)
    evicting := s.evicting.erase entry }

inductive Action (α : Type) where
  | insert (block : Nat) (page : α)
  | insertEnd (hashval : Nat)
  | locate (block : Nat)
  | remove (block : Nat)
  | evict
  | evictEnd (entry : Entry α)

/-- A window of a bucket lock opens while no thread holds the lock. An insertion of a block without a disk is left out.
-/
inductive Step : State α → Action α → State α → Prop
  | insert (s : State α) (block hashval : Nat) (page : α) :
      hashblock block = some hashval → s.inserting hashval = none →
      Step s (.insert block page) (rcacheEntryInsert s hashval block page)
  | insertEnd (s : State α) (hashval : Nat) (new : Entry α) : s.inserting hashval = some new →
      Step s (.insertEnd hashval) (rcacheEntryInsertEnd s hashval new)
  | locate (s : State α) (block : Nat) : (∀ hashval, hashblock block = some hashval → s.inserting hashval = none) →
      Step s (.locate block) (rcacheEntryLocate hashblock s block)
  | remove (s : State α) (block : Nat) : (∀ hashval, hashblock block = some hashval → s.inserting hashval = none) →
      Step s (.remove block) (rcacheRemove hashblock s block)
  | evict (s : State α) (entry : Entry α) (rest : List (Entry α)) :
      s.glist = entry :: rest → Step s .evict (rcacheCheck s entry)
  | evictEnd (s : State α) (entry : Entry α) (hashval : Nat) :
      entry ∈ s.evicting → hashblock entry.block = some hashval → s.inserting hashval = none →
      Step s (.evictEnd entry) (rcacheCheckEnd s hashval entry)

def system : System (State α) (Action α) where
  init s := s = .initial α
  step := Step hashblock

/-- A removed block is not found, no block has two entries in the buckets, and the counter is the
length of `glist`. -/
structure Coherent (s : State α) : Prop where
  notStale : ∀ block, s.removed block = true → rcacheLocate hashblock s block = none
  single : ∀ hashval, ((s.buckets hashval).map (·.block)).Nodup
  counter : s.rcacheCount = s.glist.length

/-- A block is removed or inserted only while no thread is between the two windows of `rcache_check` with it. -/
def Allowed (s : State α) : Action α → Prop
  | .remove block | .insert block _ => ∀ entry ∈ s.evicting, entry.block ≠ block
  | _ => True

end

end QuadStor.ReadCache
