import QuadStor.Read.Basic

/-!
# The pages of a read before its I/O
-/

namespace QuadStor.Read

open Lib DDTable AddrMap List Function

variable {st : Store} {mem : Memory st} {env : Env} {blocks : List (Option Block)} {block : Option Block}
  {s s' : Loading} {b : Block} {i k : Nat}

theorem length_want (st : Store) (block : Option Block) : (want st block).length = 4096 := by
  cases block with
  | none => exact length_replicate
  | some b => exact st.length_data b

theorem getElem_firstPage (h : firstPage blocks b < blocks.length) : blocks[firstPage blocks b]? = some (some b) := by
  rw [getElem?_eq_getElem h]
  exact congrArg some (getElem_idxOf h)

theorem firstPage_le (h : blocks[k]? = some (some b)) : firstPage blocks b ≤ k := by
  obtain ⟨hk, heq⟩ := List.getElem?_eq_some_iff.mp h
  by_contra hlt
  have hnot := not_of_lt_findIdx (p := (· == some b)) (Nat.lt_of_not_le hlt)
  simp [heq] at hnot

theorem block_of_firstPage (h : blocks[k]? = some block) (heq : firstPage blocks b = k) : block = some b := by
  have hfirst := getElem_firstPage (heq ▸ (List.getElem?_eq_some_iff.mp h).1)
  rw [heq, h] at hfirst
  exact Option.some.inj hfirst

theorem firstPage_lt_succ (h : blocks[k]? = some block) (hne : block = some b → firstPage blocks b < k) :
    firstPage blocks b < k + 1 ↔ firstPage blocks b < k := by
  refine ⟨fun hlt => ?_, Nat.lt_succ_of_lt⟩
  obtain hlt | heq := Nat.lt_succ_iff_lt_or_eq.mp hlt
  · exact hlt
  · exact hne (block_of_firstPage h heq)

theorem take_succ_mapIdx {α β : Type} {l : List α} {a : α} (f : Nat → α → β) (h : l[k]? = some a) :
    (l.take (k + 1)).mapIdx f = (l.take k).mapIdx f ++ [f k a] := by
  have hk := (List.getElem?_eq_some_iff.mp h).1
  rw [take_add_one, h, mapIdx_append]
  simp [Nat.min_eq_left (Nat.le_of_lt hk)]

/-- The loop has come to page `k`: a block was looked up, or is to be read, for the first page that has it. -/
structure Filled (mem : Memory st) (page : Nat → Option Block → Pgdata) (blocks : List (Option Block)) (k : Nat)
    (s : Loading) : Prop where
  pglist : s.pglist = (blocks.take k).mapIdx page
  readList : ∀ b, s.readList.find? (hasBlock b) =
    if firstPage blocks b < k then some (page (firstPage blocks b) (some b)) else none
  tcache : ∀ x b, (x, b) ∈ s.tcache ↔ x = .own (firstPage blocks b) ∧ firstPage blocks b < k ∧ mem.cached b = false
  once : (s.tcache.map Prod.fst).Nodup

section

variable {page : Nat → Option Block → Pgdata}

theorem filled_start {heap : Heap} : Filled mem page blocks 0 ⟨heap, [], [], []⟩ := ⟨by simp, by simp, by simp, nodup_nil⟩

variable (h : Filled mem page blocks k s)
include h

theorem Filled.push (hblock : blocks[k]? = some block) (hne : ∀ b, block = some b → firstPage blocks b < k)
    (hpglist : s'.pglist = s.pglist ++ [page k block]) (hreadList : s'.readList = s.readList)
    (htcache : s'.tcache = s.tcache) : Filled mem page blocks (k + 1) s' := by
  refine ⟨?_, fun b => ?_, fun x b => ?_, htcache ▸ h.once⟩
  · rw [hpglist, take_succ_mapIdx _ hblock, h.pglist]
  · rw [hreadList, h.readList b]
    simp only [firstPage_lt_succ hblock (hne b)]
  · rw [htcache, firstPage_lt_succ hblock (hne b)]
    exact h.tcache x b

variable (s') in
theorem Filled.enter (hpage : (page k (some b)).block = some b) (hblock : blocks[k]? = some (some b))
    (hfirst : firstPage blocks b = k) (hpglist : s'.pglist = s.pglist ++ [page k (some b)])
    (hreadList : s'.readList = s.readList ++ [page k (some b)])
    (htcache : s'.tcache = s.tcache ++ if mem.cached b then [] else [(.own k, b)]) :
    Filled mem page blocks (k + 1) s' := by
  have hother : ∀ b', b' ≠ b → (firstPage blocks b' < k + 1 ↔ firstPage blocks b' < k) := fun b' hb' =>
    firstPage_lt_succ hblock fun heq => absurd (Option.some.inj heq).symm hb'
  refine ⟨?_, fun b' => ?_, fun x b' => ?_, ?_⟩
  · rw [hpglist, take_succ_mapIdx _ hblock, h.pglist]
  · rw [hreadList, find?_append, h.readList b']
    by_cases hb' : b' = b
    · simp [hb', hfirst, hasBlock, hpage]
    · have hnot : hasBlock b' (page k (some b)) = false := by simp [hasBlock, hpage, Ne.symm hb']
      simp only [hother b' hb', find?_singleton, hnot]
      split <;> rfl
  · rw [htcache, mem_append, h.tcache]
    by_cases hb' : b' = b
    · cases hcached : mem.cached b <;> simp [hb', hfirst, hcached]
    · rw [hother b' hb']
      cases hcached : mem.cached b <;> simp [hb']
  · rw [htcache]
    cases hcached : mem.cached b with
    | true => simpa using h.once
    | false =>
      rw [if_neg (by simp), map_append, map_singleton, ← concat_eq_append]
      refine List.Nodup.concat (fun hmem => ?_) h.once
      obtain ⟨⟨x, b'⟩, hr, hx⟩ := List.mem_map.mp hmem
      obtain ⟨hown, hlt, -⟩ := (h.tcache x b').mp hr
      rw [hown] at hx
      injection hx with hx
      omega

end

def loaded (mem : Memory st) (copy : Bool) (blocks : List (Option Block)) (i : Nat) : Option Block → Pgdata
  | none => ⟨if copy then .own i else .zero, none, false, false⟩
  | some b =>
    if copy then ⟨.own i, some b, decide (firstPage blocks b ≠ i), mem.cached b⟩
    else if mem.cached b then ⟨.cached b, some b, false, true⟩
    else ⟨.own (firstPage blocks b), some b, false, false⟩

theorem block_loaded {copy : Bool} (i : Nat) : (loaded mem copy blocks i block).block = block := by
  cases block with
  | none => rfl
  | some b => cases copy <;> cases hcached : mem.cached b <;> simp [loaded, hcached]

structure Loading.Ok (mem : Memory st) (env : Env) (blocks : List (Option Block)) (k : Nat) (s : Loading) : Prop
    extends Filled mem (loaded mem env.copy blocks) blocks k s where
  length : ∀ x, (s.heap x).length = 4096
  kept : ∀ x, (∀ i, x ≠ .own i) → s.heap x = mem.heap x
  own : env.copy = true → ∀ i < k, ∀ block, blocks[i]? = some block →
    (∀ b, block = some b → firstPage blocks b = i ∧ mem.cached b = true) → s.heap (.own i) = want st block

section

variable (h : s.Ok mem env blocks k) (hblock : blocks[k]? = some block)
include h hblock

theorem Loading.Ok.keep (hfilled : Filled mem (loaded mem env.copy blocks) blocks (k + 1) s')
    (hheap : s'.heap = s.heap)
    (hlater : env.copy = true → ∃ b, block = some b ∧ (firstPage blocks b = k → mem.cached b = false)) :
    s'.Ok mem env blocks (k + 1) := by
  refine ⟨hfilled, hheap ▸ h.length, hheap ▸ h.kept, fun hcopy i hi block' hblock' hfirst => ?_⟩
  rw [hheap]
  obtain hi | rfl := Nat.lt_succ_iff_lt_or_eq.mp hi
  · exact h.own hcopy i hi block' hblock' hfirst
  · cases hblock.symm.trans hblock'
    obtain ⟨b, rfl, hnot⟩ := hlater hcopy
    obtain ⟨hb, hcached⟩ := hfirst b rfl
    cases (hnot hb).symm.trans hcached

theorem Loading.Ok.write (hfilled : Filled mem (loaded mem env.copy blocks) blocks (k + 1) s')
    (hheap : s'.heap = update s.heap (.own k) (want st block)) : s'.Ok mem env blocks (k + 1) := by
  refine ⟨hfilled, fun x => ?_, fun x hx => ?_, fun hcopy i hi block' hblock' hfirst => ?_⟩ <;> rw [hheap]
  · by_cases hx : x = .own k
    · rw [hx, update_self, length_want]
    · rw [update_of_ne hx, h.length]
  · rw [update_of_ne (hx k), h.kept x hx]
  · obtain hi | rfl := Nat.lt_succ_iff_lt_or_eq.mp hi
    · rw [update_of_ne (by simp [Nat.ne_of_lt hi]), h.own hcopy i hi block' hblock' hfirst]
    · cases hblock.symm.trans hblock'
      exact update_self ..

theorem readPage_ok (hrun : readPage mem env s k block = .ok s') : s'.Ok mem env blocks (k + 1) := by
  cases block with
  | none =>
    cases hcopy : env.copy with
    | false =>
      simp only [readPage, readUnmapped, hcopy, Bool.not_false, if_true] at hrun
      cases hrun
      refine h.keep hblock (h.push hblock nofun ?_ rfl rfl) rfl fun hc => nomatch hcopy.symm.trans hc
      simp [loaded, hcopy, Loading.push]
    | true =>
      simp only [readPage, readUnmapped, hcopy, Bool.not_true, Bool.false_eq_true, if_false] at hrun
      split_ifs at hrun
      cases hrun
      refine h.write hblock (h.push hblock nofun ?_ rfl rfl) rfl
      simp [loaded, hcopy, Loading.push, Loading.write]
  | some b =>
    simp only [readPage, h.readList b] at hrun
    by_cases hfail : (!env.bdev b.bid) = true ∨ (!env.pgdataAllocPage k) = true
    · rcases hfail with hfail | hfail <;> simp [hfail] at hrun
    rw [if_neg (not_or.mp hfail).1, if_neg (not_or.mp hfail).2] at hrun
    obtain hlt | heq := Nat.lt_or_eq_of_le (firstPage_le hblock)
    · have hne : firstPage blocks b ≠ k := Nat.ne_of_lt hlt
      rw [if_pos hlt] at hrun
      cases hcopy : env.copy <;> simp only [hcopy, if_true, Bool.false_eq_true, if_false] at hrun <;> cases hrun
      · refine h.keep hblock (h.push hblock (by simpa using hlt) ?_ rfl rfl) rfl fun hc => nomatch hcopy.symm.trans hc
        cases hcached : mem.cached b <;> simp [loaded, hcopy, hcached, Loading.push]
      · refine h.keep hblock (h.push hblock (by simpa using hlt) ?_ rfl rfl) rfl fun _ => ⟨b, rfl, fun heq => absurd heq hne⟩
        simp [loaded, hcopy, hne, Loading.push]
    · have henter := fun s' => h.enter s' (block_loaded k) hblock heq
      simp only [if_neg (Nat.not_lt.mpr heq.ge), readBlock] at hrun
      cases hcached : mem.cached b with
      | true =>
        simp only [hcached, if_true] at hrun
        cases hcopy : env.copy <;> simp only [hcopy, if_true, Bool.false_eq_true, if_false] at hrun <;> cases hrun
        · refine h.keep hblock (henter _ ?_ ?_ ?_) rfl fun hc => nomatch hcopy.symm.trans hc <;>
            simp [loaded, hcopy, hcached, Loading.enter]
        · refine h.write hblock (henter _ ?_ ?_ ?_) ?_
          all_goals simp [loaded, hcopy, hcached, heq, Loading.enter, Loading.write, want, h.kept, mem.heap_cached]
      | false =>
        simp only [hcached, Bool.false_eq_true, if_false] at hrun
        split_ifs at hrun
        cases hrun
        refine h.keep hblock (henter _ ?_ ?_ ?_) rfl fun _ => ⟨b, rfl, fun _ => hcached⟩ <;>
          cases env.copy <;> simp [loaded, hcached, heq, Loading.enter]

end

theorem readPages_ok : ∀ {rest : List (Option Block)} {k : Nat} {s : Loading}, k ≤ blocks.length →
    blocks.drop k = rest → s.Ok mem env blocks k → readPages mem env k s rest = .ok s' →
    s'.Ok mem env blocks blocks.length
  | [], k, s, hk, hrest, h, hrun => by
      cases hrun
      rwa [← Nat.le_antisymm hk (drop_eq_nil_iff.mp hrest)]
  | block :: rest, k, s, hk, hrest, h, hrun => by
      have hblock : blocks[k]? = some block := by rw [← head?_drop, hrest, head?_cons]
      unfold readPages at hrun
      cases hpage : readPage mem env s k block with
      | error e => simp [hpage] at hrun
      | ok s₁ =>
        simp only [hpage] at hrun
        refine readPages_ok (List.getElem?_eq_some_iff.mp hblock).1 ?_ (readPage_ok h hblock hpage) hrun
        rw [← tail_drop, hrest, tail_cons]

end QuadStor.Read
