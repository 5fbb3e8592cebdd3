import QuadStor.AddrMap.Basic
import Mathlib.Data.List.Induction

/-!
# The list of the maps to be written

`amap_check_sync_list` compares maps by `amap_id` and by where they are in memory.
-/

namespace QuadStor.AddrMap.SyncList

open List

variable {α β : Type} [DecidableEq α]

structure AmapSync (α β : Type) where
  amap : α
  writeId : Nat
  pgdataList : List β

/-- The arguments of one call; `pgdata` may be `NULL`. -/
structure Call (α β : Type) where
  amap : α
  pgdata : Option β
  writeId : Nat

def amapCheckSyncList (amapId : α → Nat) (c : Call α β) : List (AmapSync α β) → List (AmapSync α β)
  | [] => [⟨c.amap, c.writeId, c.pgdata.toList⟩]
  | a :: rest =>
    if amapId c.amap ≤ amapId a.amap then
      if a.amap = c.amap then { a with pgdataList := a.pgdataList ++ c.pgdata.toList } :: rest
      else ⟨c.amap, c.writeId, c.pgdata.toList⟩ :: a :: rest
    else a :: amapCheckSyncList amapId c rest

def syncList (amapId : α → Nat) (calls : List (Call α β)) : List (AmapSync α β) :=
  calls.foldl (fun l c => amapCheckSyncList amapId c l) []

def passedWith (m : α) (calls : List (Call α β)) : List β :=
  calls.flatMap fun c => if c.amap = m then c.pgdata.toList else []

structure SortedAndExact (amapId : α → Nat) (calls : List (Call α β)) (l : List (AmapSync α β)) : Prop where
  sorted : l.Pairwise fun a b => amapId a.amap < amapId b.amap
  maps : ∀ m, (l.map AmapSync.amap).count m = if m ∈ calls.map Call.amap then 1 else 0
  pages : ∀ a ∈ l, a.pgdataList = passedWith a.amap calls

/-- Each map id has a single map in memory. -/
def SingleMaps (amapId : α → Nat) (calls : List (Call α β)) : Prop :=
  ∀ c ∈ calls, ∀ d ∈ calls, amapId c.amap = amapId d.amap → c.amap = d.amap

variable {amapId : α → Nat} {c : Call α β} {l : List (AmapSync α β)} {x : AmapSync α β} {m : α}

theorem mem_map_amapCheckSyncList :
    m ∈ (amapCheckSyncList amapId c l).map AmapSync.amap ↔ m = c.amap ∨ m ∈ l.map AmapSync.amap := by
  induction l with
  | nil => simp [amapCheckSyncList]
  | cons a rest ih =>
    unfold amapCheckSyncList
    split_ifs with hle heq
    · simp [heq]
    · simp
    · rw [map_cons, mem_cons, ih, map_cons, mem_cons, or_left_comm]

variable (hl : l.Pairwise fun a b => amapId a.amap < amapId b.amap)
include hl

theorem sorted_amapCheckSyncList (hsingle : ∀ a ∈ l, amapId a.amap = amapId c.amap → a.amap = c.amap) :
    (amapCheckSyncList amapId c l).Pairwise fun a b => amapId a.amap < amapId b.amap := by
  induction l with
  | nil => simp [amapCheckSyncList]
  | cons a rest ih =>
    obtain ⟨ha, hrest⟩ := pairwise_cons.mp hl
    unfold amapCheckSyncList
    split_ifs with hle heq
    · exact pairwise_cons.mpr ⟨ha, hrest⟩
    · have hlt := Nat.lt_of_le_of_ne hle fun h => heq (hsingle a mem_cons_self h.symm)
      exact pairwise_cons.mpr ⟨forall_mem_cons.2 ⟨hlt, fun b hb => hlt.trans (ha b hb)⟩, hl⟩
    · refine pairwise_cons.mpr ⟨fun x hx => ?_, ih hrest fun b hb => hsingle b (mem_cons_of_mem _ hb)⟩
      obtain heq | hmem := mem_map_amapCheckSyncList.1 (mem_map_of_mem hx)
      · rw [heq]
        exact Nat.lt_of_not_le hle
      · obtain ⟨b, hb, heq⟩ := List.mem_map.mp hmem
        rw [← heq]
        exact ha b hb

theorem mem_amapCheckSyncList (old : List β) (hold : ∀ a ∈ l, a.amap = c.amap → a.pgdataList = old)
    (hnone : (∀ a ∈ l, a.amap ≠ c.amap) → old = []) (hx : x ∈ amapCheckSyncList amapId c l) :
    x ∈ l ∧ x.amap ≠ c.amap ∨ x.amap = c.amap ∧ x.pgdataList = old ++ c.pgdata.toList := by
  induction l with
  | nil =>
    obtain rfl := mem_singleton.mp hx
    rw [hnone nofun]
    exact .inr ⟨rfl, rfl⟩
  | cons a rest ih =>
    obtain ⟨ha, hrest⟩ := pairwise_cons.mp hl
    have hne : ∀ b : AmapSync α β, amapId c.amap < amapId b.amap → b.amap ≠ c.amap := fun b hlt heq =>
      Nat.lt_irrefl _ (heq ▸ hlt)
    unfold amapCheckSyncList at hx
    split_ifs at hx with hle heq
    · obtain rfl | hx := mem_cons.mp hx
      · exact .inr ⟨heq, congrArg (· ++ _) (hold a mem_cons_self heq)⟩
      · exact .inl ⟨mem_cons_of_mem _ hx, hne x (heq ▸ ha x hx)⟩
    · -- the scan stops in front of a map with another id, so it has no entry behind either
      have hout : ∀ b ∈ a :: rest, b.amap ≠ c.amap :=
        forall_mem_cons.2 ⟨heq, fun b hb => hne b (hle.trans_lt (ha b hb))⟩
      obtain rfl | hx := mem_cons.mp hx
      · rw [hnone hout]
        exact .inr ⟨rfl, rfl⟩
      · exact .inl ⟨hx, hout x hx⟩
    · have haway : a.amap ≠ c.amap := fun heq => hle (Nat.le_of_eq (congrArg amapId heq.symm))
      obtain rfl | hx := mem_cons.mp hx
      · exact .inl ⟨mem_cons_self, haway⟩
      · have hrec := ih hrest (fun b hb => hold b (mem_cons_of_mem _ hb))
          (fun h => hnone (forall_mem_cons.2 ⟨haway, h⟩)) hx
        exact hrec.imp_left fun h => ⟨mem_cons_of_mem _ h.1, h.2⟩

omit hl

variable {calls : List (Call α β)}

theorem passedWith_append : passedWith m (calls ++ [c]) =
    passedWith m calls ++ if c.amap = m then c.pgdata.toList else [] := by simp [passedWith]

theorem passedWith_eq_nil (h : m ∉ calls.map Call.amap) : passedWith m calls = [] := by
  rw [passedWith, flatMap_eq_nil_iff]
  intro c hc
  refine if_neg ?_
  rintro rfl
  exact h (mem_map_of_mem hc)

theorem SortedAndExact.mem_map (h : SortedAndExact amapId calls l) :
    m ∈ l.map AmapSync.amap ↔ m ∈ calls.map Call.amap := by
  rw [← count_pos_iff, h.maps]
  split_ifs with hm <;> simp [hm]

theorem SortedAndExact.call (h : SortedAndExact amapId calls l)
    (hsingle : ∀ d ∈ calls, amapId d.amap = amapId c.amap → d.amap = c.amap) :
    SortedAndExact amapId (calls ++ [c]) (amapCheckSyncList amapId c l) := by
  have hsorted : (amapCheckSyncList amapId c l).Pairwise fun a b => amapId a.amap < amapId b.amap := by
    refine sorted_amapCheckSyncList h.sorted fun a ha => ?_
    obtain ⟨d, hd, heq⟩ := List.mem_map.mp (h.mem_map.1 (mem_map_of_mem ha))
    rw [← heq]
    exact hsingle d hd
  refine ⟨hsorted, fun m => ?_, fun a ha => ?_⟩
  · have hnodup : ((amapCheckSyncList amapId c l).map AmapSync.amap).Nodup :=
      pairwise_map.2 (hsorted.imp fun hlt heq => Nat.ne_of_lt hlt (congrArg amapId heq))
    rw [hnodup.count]
    exact if_congr (Iff.trans mem_map_amapCheckSyncList (by rw [h.mem_map]; simp [or_comm])) rfl rfl
  · have hmem := mem_amapCheckSyncList h.sorted (passedWith c.amap calls)
      (fun b hb heq => heq ▸ h.pages b hb) (fun hnone => passedWith_eq_nil fun hm => ?_) ha
    · obtain ⟨ha, hne⟩ | ⟨heq, hpages⟩ := hmem
      · rw [passedWith_append, if_neg (Ne.symm hne), append_nil, h.pages a ha]
      · rw [passedWith_append, if_pos heq.symm, hpages, heq]
    · obtain ⟨b, hb, heq⟩ := List.mem_map.mp (h.mem_map.2 hm)
      exact hnone b hb heq

/-- The list is in the order of the map ids, has each map once, and each map has its pages in the order of the calls. -/
theorem sync_list_sorted_and_exact (amapId : α → Nat) (calls : List (Call α β)) (hsingle : SingleMaps amapId calls) :
    SortedAndExact amapId calls (syncList amapId calls) := by
  induction calls using reverseRecOn with
  | nil => constructor <;> simp [syncList]
  | append_singleton done c ih =>
    obtain ⟨hdone, hlast⟩ : SingleMaps amapId done ∧ ∀ d ∈ done, amapId d.amap = amapId c.amap → d.amap = c.amap :=
      ⟨fun d hd e he => hsingle d (mem_append_left _ hd) e (mem_append_left _ he),
        fun d hd => hsingle d (mem_append_left _ hd) c (mem_append_right _ mem_cons_self)⟩
    rw [syncList, foldl_append]
    exact (ih hdone).call hlast

theorem sync_list_of_three_calls : SortedAndExact (Prod.snd : Char × Nat → Nat)
    [⟨('x', 9), some 'p', 0⟩, ⟨('y', 4), none, 0⟩, ⟨('x', 9), some 'q', 1⟩] [⟨('y', 4), 0, []⟩, ⟨('x', 9), 0, ['p', 'q']⟩] :=
  sync_list_sorted_and_exact _ [⟨('x', 9), some 'p', 0⟩, ⟨('y', 4), none, 0⟩, ⟨('x', 9), some 'q', 1⟩]
    (by simp [SingleMaps])

/-- Where every id has one map, the comparison of maps is one of ids. -/
theorem map_amapCheckSyncList {p : Pgdata} {n writeId : Nat} {l : List (AmapSync Nat Pgdata)} :
    (amapCheckSyncList id ⟨n, some p, writeId⟩ l).map (fun a => (⟨a.amap, a.pgdataList⟩ : AddrMap.AmapSync)) =
      AddrMap.amapCheckSyncList n p (l.map fun a => ⟨a.amap, a.pgdataList⟩) := by
  induction l with
  | nil => rfl
  | cons a rest ih =>
    simp only [amapCheckSyncList, map_cons, AddrMap.amapCheckSyncList, id]
    split_ifs with hle heq
    · simp [heq]
    · rfl
    · rw [map_cons, ih]

end QuadStor.AddrMap.SyncList
