import QuadStor.MirrorCopy.Basic
import QuadStor.Read.Lemmas.Expand

/-!
# What is in the pages of a copy
-/

namespace QuadStor.MirrorCopy

open Lib DDTable Read List

variable {st : Store} {mem : Memory st} {env : Env} {taken : Nat → Bool} {blocks : List (Option Block)}
  {s s' : Loading} {i k cnt : Nat} {block : Option Block}

def loaded (mem : Memory st) (blocks : List (Option Block)) (taken : Nat → Bool) (i : Nat) : Option Block → Pgdata
  | none => ⟨.zero, none, false, true⟩
  | some b =>
    if mem.cached b then ⟨.cached b, some b, false, true⟩
    else ⟨.own (firstPage blocks b), some b, false, taken i || taken (firstPage blocks b)⟩

theorem loaded_fields (i : Nat) : (loaded mem blocks taken i block).block = block ∧
    (loaded mem blocks taken i block).fromReadList = false ∧ ∀ j, (loaded mem blocks taken i block).page ≠ .inflated j := by
  cases block with
  | none => simp [loaded]
  | some b => cases hcached : mem.cached b <;> simp [loaded, hcached]

theorem copyPage_filled (h : Filled mem (loaded mem blocks taken) blocks k s) (hblock : blocks[k]? = some block)
    (hrun : copyPage mem env taken s k block = .ok s') :
    Filled mem (loaded mem blocks taken) blocks (k + 1) s' ∧ s'.heap = s.heap := by
  cases block with
  | none =>
    cases hrun
    exact ⟨h.push hblock nofun rfl rfl rfl, rfl⟩
  | some b =>
    simp only [copyPage, copyBlock, h.readList b] at hrun
    by_cases halloc : (!env.pageAlloc k || !env.bdev b.bid) = true
    · simp [halloc] at hrun
    rw [if_neg halloc] at hrun
    obtain hlt | heq := Nat.lt_or_eq_of_le (firstPage_le hblock)
    · rw [if_pos hlt] at hrun
      cases hrun
      refine ⟨h.push hblock (by simpa using hlt) ?_ rfl rfl, rfl⟩
      cases hcached : mem.cached b <;> simp [loaded, hcached, Loading.push]
    · rw [if_neg (Nat.not_lt.mpr heq.ge)] at hrun
      have henter := fun s' => h.enter s' (loaded_fields k).1 hblock heq
      cases hcached : mem.cached b with
      | true =>
        simp only [hcached, if_true] at hrun
        cases hrun
        refine ⟨henter _ ?_ ?_ ?_, rfl⟩ <;> simp [loaded, hcached, Loading.enter]
      | false =>
        simp only [hcached, Bool.false_eq_true, if_false] at hrun
        split_ifs at hrun
        cases hrun
        refine ⟨henter _ ?_ ?_ ?_, rfl⟩ <;> simp [loaded, hcached, heq, Loading.enter]

theorem copyPages_filled : ∀ {rest : List (Option Block)} {k : Nat} {s : Loading}, k ≤ blocks.length →
    blocks.drop k = rest → Filled mem (loaded mem blocks taken) blocks k s →
    copyPages mem env taken cnt k s rest = .ok s' →
    Filled mem (loaded mem blocks taken) blocks blocks.length s' ∧ s'.heap = s.heap
  | [], k, s, hk, hrest, h, hrun => by
      cases hrun
      rw [← Nat.le_antisymm hk (drop_eq_nil_iff.mp hrest)]
      exact ⟨h, rfl⟩
  | block :: rest, k, s, hk, hrest, h, hrun => by
      simp only [copyPages] at hrun
      split_ifs at hrun
      have hblock : blocks[k]? = some block := by rw [← head?_drop, hrest, head?_cons]
      cases hpage : copyPage mem env taken s k block with
      | error e => simp [hpage] at hrun
      | ok s₁ =>
        simp only [hpage] at hrun
        obtain ⟨h₁, hheap⟩ := copyPage_filled h hblock hpage
        have hdrop : blocks.drop (k + 1) = rest := by rw [← tail_drop, hrest, tail_cons]
        rw [← hheap]
        exact copyPages_filled (List.getElem?_eq_some_iff.mp hblock).1 hdrop h₁ hrun

def copied (mem : Memory st) (blocks : List (Option Block)) (taken : Nat → Bool) (i : Nat) : Option Block → Bytes
  | none => zeroPage
  | some b =>
    if mem.cached b || lbaBlockSize b == 4096 || !(taken i || taken (firstPage blocks b)) then st.data b
    else rawPage mem blocks b

def copiedPage (mem : Memory st) (blocks : List (Option Block)) (taken : Nat → Bool) (i : Nat)
    (block : Option Block) : CopyPage :=
  ⟨block, block.isNone, block.isSome && taken i, copied mem blocks taken i block⟩

theorem posted_loaded (h : Filled mem (loaded mem blocks taken) blocks blocks.length s) (hheap : s.heap = mem.heap)
    (hblock : blocks[i]? = some block) : posted st (tcacheRead st s.heap s.tcache) (loaded mem blocks taken i block) =
      copied mem blocks taken i block := by
  cases block with
  | none =>
    simp only [posted, loaded, copied]
    rw [h.tcacheRead_other (by simp), hheap, mem.heap_zero]
  | some b =>
    cases hcached : mem.cached b with
    | true =>
      simp only [posted, loaded, copied, hcached, if_true, Bool.true_or]
      rw [if_neg Bool.false_ne_true, h.tcacheRead_other (by simp), hheap, mem.heap_cached b hcached]
    | false =>
      have hlt := Nat.lt_of_le_of_lt (firstPage_le hblock) (List.getElem?_eq_some_iff.mp hblock).1
      have hfirst := h.tcacheRead_first hlt hcached
      rw [hheap] at hfirst ⊢
      simp [loaded, copied, hcached, posted_stored _ (mem.length_heap _) hfirst, hfirst, rawPage]

theorem copyBlocks_ok {pages : List CopyPage} (hrun : copyBlocks mem env taken cnt 0 blocks = .ok pages) :
    pages = blocks.mapIdx (copiedPage mem blocks taken) := by
  unfold copyBlocks at hrun
  cases hload : copyPages mem env taken cnt 0 ⟨mem.heap, [], [], []⟩ blocks with
  | error e => simp [hload] at hrun
  | ok s =>
    simp only [hload] at hrun
    split_ifs at hrun
    obtain ⟨hfilled, hheap⟩ := copyPages_filled (Nat.zero_le _) rfl filled_start hload
    split at hrun
    · cases hrun
    · rename_i t hpost
      cases hrun
      have hpglist := hfilled.pglist
      rw [take_length] at hpglist
      have hplaced : Placed st (shares env).copy (tcacheRead st s.heap s.tcache) s.pglist := by
        have hfields : ∀ p ∈ s.pglist, p.fromReadList = false ∧ ∀ j, p.page ≠ .inflated j := by
          rw [hpglist]
          intro p hp
          obtain ⟨i, -, rfl⟩ := mem_mapIdx.mp hp
          exact (loaded_fields i).2
        refine ⟨fun i p hp j hj => ?_, nofun, fun i p hp hfrom => ?_, nofun⟩
        · exact absurd (hj.resolve_right nofun) ((hfields p (mem_of_getElem? hp)).2 j)
        · cases (hfields p (mem_of_getElem? hp)).1.symm.trans hfrom
      have hposted := pgdataPostReadIo_ok hplaced hpost
      refine ext_getElem? fun i => ?_
      have hi := congrArg (·[i]?) hposted
      simp only [getElem?_map, hpglist, getElem?_mapIdx, Option.map_map] at hi ⊢
      cases hblock : blocks[i]? with
      | none =>
        rw [hblock] at hi
        simpa using hi
      | some block =>
        simp only [hblock, Option.map_some, Function.comp_apply, (loaded_fields i).1,
          posted_loaded hfilled hheap hblock, Option.map_eq_some_iff, Prod.mk.injEq] at hi
        obtain ⟨q, hq, hqblock, hqheap⟩ := hi
        simp [hq, CopyPage.of, copiedPage, hqblock, hqheap]

end QuadStor.MirrorCopy
