import QuadStor.Read.Lemmas.Pages

/-!
# The pages once they are read and expanded
-/

namespace QuadStor.Read

open Lib DDTable AddrMap List Function

variable {st : Store} {mem : Memory st} {env : Env} {p : Pgdata} {x : PageId} {b : Block} {heap : Heap}
  {tcache : List (PageId × Block)} {blocks : List (Option Block)} {block : Option Block} {i k : Nat}

theorem tcacheRead_of_not_mem (h : x ∉ tcache.map Prod.fst) : tcacheRead st heap tcache x = heap x := by
  induction tcache generalizing heap with
  | nil => rfl
  | cons r rest ih =>
    simp only [map_cons, mem_cons, not_or] at h
    exact (ih h.2).trans (update_of_ne h.1 _ _)

theorem tcacheRead_of_mem (hnodup : (tcache.map Prod.fst).Nodup) (h : (x, b) ∈ tcache) :
    tcacheRead st heap tcache x = st.stored b ++ (heap x).drop (lbaBlockSize b) := by
  induction tcache generalizing heap with
  | nil => cases h
  | cons r rest ih =>
    obtain ⟨hnot, hnodup⟩ := nodup_cons.mp hnodup
    obtain rfl | h := mem_cons.mp h
    · exact (tcacheRead_of_not_mem hnot).trans (update_self _ _ _)
    · have hne : x ≠ r.1 := by
        rintro rfl
        exact hnot (List.mem_map.mpr ⟨_, h, rfl⟩)
      refine (ih hnodup h).trans ?_
      simp only [update_of_ne hne]

theorem qsInflateBlock_stored (hsize : lbaBlockSize b ≠ 4096) (rest : Bytes) :
    qsInflateBlock st.codec (st.stored b ++ rest) (lbaBlockSize b) = some (st.data b) := by
  obtain ⟨alg, out, fill, hout, hstored⟩ := st.stored_comp b hsize
  have hlen := st.length_stored b
  rw [hstored, length_append] at hlen
  rw [hstored, append_assoc]
  exact qsInflateBlock_qsDeflateBlock hout (st.length_data b) (by omega) _

section

variable {page : Nat → Option Block → Pgdata} {s : Loading} (h : Filled mem page blocks k s)
include h

theorem Filled.tcacheRead_other (hx : ∀ b, x = .own (firstPage blocks b) → mem.cached b = true) :
    tcacheRead st s.heap s.tcache x = s.heap x := by
  refine tcacheRead_of_not_mem fun hmem => ?_
  obtain ⟨⟨y, b⟩, hr, rfl⟩ := List.mem_map.mp hmem
  obtain ⟨hy, -, hcached⟩ := (h.tcache y b).mp hr
  cases hcached.symm.trans (hx b hy)

theorem Filled.tcacheRead_first (hlt : firstPage blocks b < k) (hcached : mem.cached b = false) :
    tcacheRead st s.heap s.tcache (.own (firstPage blocks b)) =
      st.stored b ++ (s.heap (.own (firstPage blocks b))).drop (lbaBlockSize b) :=
  tcacheRead_of_mem h.once ((h.tcache _ b).mpr ⟨rfl, hlt, hcached⟩)

end

/-- What a page holds after `pgdata_post_read_io` -/
def posted (st : Store) (heap : Heap) (p : Pgdata) : Bytes :=
  match p.block with
  | none => heap p.page
  | some b =>
    if p.fromReadList then st.data b
    else if p.skipUncomp || lbaBlockSize b == 4096 then heap p.page
    else (qsInflateBlock st.codec (heap p.page) (lbaBlockSize b)).getD zeroPage

theorem posted_stored (skip : Bool) {bytes : Bytes} (hlen : bytes.length = 4096)
    (hheap : heap x = st.stored b ++ bytes.drop (lbaBlockSize b)) :
    posted st heap ⟨x, some b, false, skip⟩ = if lbaBlockSize b == 4096 || !skip then st.data b else heap x := by
  by_cases hsize : lbaBlockSize b = 4096
  · simp [posted, hsize, hheap, st.stored_plain b hsize, ← hlen]
  · cases skip <;> simp [posted, hsize, hheap, qsInflateBlock_stored hsize]

def Target (copy : Bool) (k : Nat) (x : PageId) : Prop := x = .inflated k ∨ copy = true ∧ x = .own k

def Settled (copy : Bool) (k : Nat) (x : PageId) : Prop := ∀ j, Target copy j x → j < k

/-- Pages that can be expanded one after the other: none is written before its turn. -/
structure Placed (st : Store) (copy : Bool) (heap : Heap) (pglist : List Pgdata) : Prop where
  target : ∀ (i : Nat) (p : Pgdata), pglist[i]? = some p → ∀ j, Target copy j p.page → j = i
  own : copy = true → ∀ (i : Nat) (p : Pgdata), pglist[i]? = some p → p.page = .own i
  source : ∀ (i : Nat) (p : Pgdata), pglist[i]? = some p → p.fromReadList = true → copy = true ∧
    ∃ j < i, ∃ q : Pgdata, pglist[j]? = some q ∧ q.block = p.block ∧ q.fromReadList = false
  data : copy = true → ∀ p ∈ pglist, posted st heap p = want st p.block

structure Posting.Ok (st : Store) (copy : Bool) (heap : Heap) (before : List Pgdata) (s : Posting) : Prop where
  contents : (s.pglist.map fun p => (p.block, s.heap p.page)) = before.map fun p => (p.block, posted st heap p)
  settled : ∀ p ∈ s.pglist, Settled copy before.length p.page
  entered : ∀ q ∈ s.readList, Settled copy before.length q.page ∧
    ∀ b, q.block = some b → copy = true → s.heap q.page = st.data b
  listed : ∀ p ∈ before, p.fromReadList = false → ∀ b, p.block = some b → ∃ q ∈ s.readList, q.block = some b
  kept : ∀ x, (∀ j, Target copy j x → before.length ≤ j) → s.heap x = heap x

variable {copy : Bool} {before after : List Pgdata} {s s' : Posting}

theorem Settled.mono {k k' : Nat} (hle : k ≤ k') (h : Settled copy k x) : Settled copy k' x :=
  fun j hj => Nat.lt_of_lt_of_le (h j hj) hle

theorem Settled.not_target {k : Nat} (h : Settled copy k x) : ¬Target copy k x :=
  fun hk => Nat.lt_irrefl _ (h k hk)

theorem settled_inflated (k : Nat) : Settled copy (k + 1) (.inflated k) := by
  rintro j (hj | ⟨-, hj⟩) <;> cases hj
  exact Nat.lt_succ_self _

section

variable (hplaced : Placed st copy heap (before ++ p :: after)) (h : s.Ok st copy heap before)
include hplaced

theorem Placed.head_settled : Settled copy (before.length + 1) p.page := fun j hj =>
  Nat.lt_succ_of_le (hplaced.target before.length p (by simp) j hj).le

theorem Placed.head_target (hcopy : copy = true) : Target copy before.length p.page :=
  .inr ⟨hcopy, hplaced.own hcopy before.length p (by simp)⟩

include h

theorem Posting.Ok.head_kept : s.heap p.page = heap p.page :=
  h.kept _ fun j hj => (hplaced.target before.length p (by simp) j hj).ge

theorem Posting.Ok.add {r : Pgdata} (hheap : ∀ x, ¬Target copy before.length x → s'.heap x = s.heap x)
    (hpglist : s'.pglist = s.pglist ++ [r])
    (hreadList : s'.readList = s.readList ++ if p.block.isNone || p.fromReadList then [] else [r])
    (hblock : r.block = p.block) (hcontent : s'.heap r.page = posted st heap p)
    (hsettled : Settled copy (before.length + 1) r.page) : s'.Ok st copy heap (before ++ [p]) := by
  have hkeep : ∀ x, Settled copy before.length x → s'.heap x = s.heap x := fun x hx => hheap x hx.not_target
  have hlen : (before ++ [p]).length = before.length + 1 := by simp
  refine ⟨?_, ?_, ?_, fun q hq hfrom b hb => ?_, fun x hx => ?_⟩
  · rw [hpglist, map_append, map_append, ← h.contents]
    congr 1
    · exact map_congr_left fun q hq => congrArg (q.block, ·) (hkeep _ (h.settled q hq))
    · simp [hcontent, hblock]
  · rw [hlen, hpglist, forall_mem_append, forall_mem_singleton]
    exact ⟨fun q hq => (h.settled q hq).mono (Nat.le_succ _), hsettled⟩
  · rw [hlen, hreadList, forall_mem_append]
    refine ⟨fun q hq => ?_, fun q hq => ?_⟩
    · obtain ⟨hset, hdata⟩ := h.entered q hq
      exact ⟨hset.mono (Nat.le_succ _), fun b hb hcopy => (hkeep _ hset).trans (hdata b hb hcopy)⟩
    · split_ifs at hq
      · cases hq
      · obtain rfl := mem_singleton.mp hq
        refine ⟨hsettled, fun b hb hcopy => ?_⟩
        rw [hcontent, hplaced.data hcopy p (by simp), ← hblock, hb, want]
  · obtain hq | hq := mem_append.mp hq
    · obtain ⟨o, ho, hob⟩ := h.listed q hq hfrom b hb
      exact ⟨o, hreadList ▸ mem_append_left _ ho, hob⟩
    · obtain rfl := mem_singleton.mp hq
      exact ⟨r, by simp [hreadList, hb, hfrom], hblock.trans hb⟩
  · rw [hlen] at hx
    rw [hheap x fun ht => Nat.lt_irrefl _ (hx _ ht), h.kept x fun j hj => Nat.le_of_succ_le (hx j hj)]

theorem copyFromReadList_ok (hblock : p.block = some b) (hfrom : p.fromReadList = true) :
    ((copyFromReadList s p b).push p).Ok st copy heap (before ++ [p]) := by
  obtain ⟨hcopy, j, hj, q, hq, hqblock, hqfrom⟩ := hplaced.source before.length p (by simp) hfrom
  rw [getElem?_append_left hj] at hq
  obtain ⟨r, hr, hrblock⟩ := h.listed q (mem_of_getElem? hq) hqfrom b (hqblock.trans hblock)
  cases hfind : s.readList.find? (hasBlock b) with
  | none =>
    have hnone := find?_eq_none.mp hfind r hr
    simp [hasBlock, hrblock] at hnone
  | some r' =>
    have hrblock' : r'.block = some b := by simpa [hasBlock] using find?_some hfind
    have hdata := (h.entered r' (mem_of_find?_eq_some hfind)).2 b hrblock' hcopy
    simp only [copyFromReadList, hfind]
    refine h.add hplaced (r := p) (fun x hx => update_of_ne ?_ _ _) rfl ?_ rfl ?_ hplaced.head_settled
    · rintro rfl
      exact hx (hplaced.head_target hcopy)
    · simp [Posting.push, Posting.write, hfrom]
    · simp [Posting.push, Posting.write, posted, hblock, hfrom, hdata]

end

theorem postPage_ok (hplaced : Placed st env.copy heap (before ++ p :: after)) (h : s.Ok st env.copy heap before)
    (hrun : postPage env st s before.length p = .ok s') : s'.Ok st env.copy heap (before ++ [p]) := by
  have hpage := h.head_kept hplaced
  unfold postPage at hrun
  cases hblock : p.block with
  | none =>
    simp only [hblock] at hrun
    cases hrun
    exact h.add hplaced (r := p) (fun _ _ => rfl) rfl (by simp [hblock, Posting.push]) rfl
      (by simp [posted, hblock, Posting.push, hpage]) hplaced.head_settled
  | some b =>
    simp only [hblock] at hrun
    cases hfrom : p.fromReadList with
    | true =>
      rw [if_pos hfrom] at hrun
      cases hrun
      exact copyFromReadList_ok hplaced h hblock hfrom
    | false =>
      rw [hfrom, if_neg Bool.false_ne_true] at hrun
      by_cases hplain : p.skipUncomp = true ∨ lbaBlockSize b = 4096
      · obtain rfl : s' = s.enter p := by
          obtain hskip | hsize := hplain
          · rw [if_pos hskip] at hrun
            cases hrun
            rfl
          · rw [if_pos hsize, ite_self] at hrun
            cases hrun
            rfl
        exact h.add hplaced (r := p) (fun _ _ => rfl) rfl (by simp [hblock, hfrom, Posting.enter]) rfl
          (by simp [posted, hblock, hfrom, hplain, Posting.enter, hpage]) hplaced.head_settled
      · rw [if_neg (not_or.mp hplain).1, if_neg (not_or.mp hplain).2] at hrun
        by_cases halloc : (!env.inflateAlloc before.length) = true
        · simp [halloc] at hrun
        rw [if_neg halloc] at hrun
        split at hrun
        · cases hrun
        rename_i bytes hbytes
        have hposted : posted st heap p = bytes := by
          simp [posted, hblock, hfrom, hplain, ← hpage, hbytes]
        split_ifs at hrun with hnorefs <;> cases hrun
        · refine h.add hplaced (r := p) (fun x hx => update_of_ne ?_ _ _) rfl ?_ rfl ?_ hplaced.head_settled
          · rintro rfl
            exact hx (hplaced.head_target (env.norefs_copy hnorefs))
          · simp [hblock, hfrom, Posting.enter, Posting.write]
          · simp [hposted, Posting.enter, Posting.write]
        · refine h.add hplaced (r := ⟨.inflated before.length, some b, false, p.skipUncomp⟩)
            (fun x hx => update_of_ne ?_ _ _) rfl ?_ hblock.symm ?_ (settled_inflated _)
          · rintro rfl
            exact hx (.inl rfl)
          · simp [hblock, hfrom, Posting.enter, Posting.write]
          · simp [hposted, Posting.enter, Posting.write]

theorem postPages_ok : ∀ {after before : List Pgdata} {s : Posting}, Placed st env.copy heap (before ++ after) →
    s.Ok st env.copy heap before → pgdataPostReadIo env st before.length s after = .ok s' →
    s'.Ok st env.copy heap (before ++ after)
  | [], before, s, _, h, hrun => by
      cases hrun
      simpa using h
  | p :: after, before, s, hplaced, h, hrun => by
      unfold pgdataPostReadIo at hrun
      cases hpage : postPage env st s before.length p with
      | error e => simp [hpage] at hrun
      | ok s₁ =>
        simp only [hpage] at hrun
        have hlen : (before ++ [p]).length = before.length + 1 := by simp
        rw [← hlen] at hrun
        simpa using postPages_ok (by simpa using hplaced) (postPage_ok hplaced h hpage) hrun

theorem pgdataPostReadIo_ok {pglist : List Pgdata} (hplaced : Placed st env.copy heap pglist)
    (hrun : pgdataPostReadIo env st 0 ⟨heap, [], []⟩ pglist = .ok s) :
    (s.pglist.map fun p => (p.block, s.heap p.page)) = pglist.map fun p => (p.block, posted st heap p) :=
  have hstart : Posting.Ok st env.copy heap [] ⟨heap, [], []⟩ := ⟨rfl, by simp, by simp, by simp, fun _ _ => rfl⟩
  (postPages_ok hplaced hstart hrun).contents

theorem Loading.Ok.posted {s : Loading} (h : s.Ok mem env blocks blocks.length) (hblock : blocks[i]? = some block) :
    posted st (tcacheRead st s.heap s.tcache) (loaded mem env.copy blocks i block) = want st block := by
  have hi := (List.getElem?_eq_some_iff.mp hblock).1
  cases block with
  | none =>
    cases hcopy : env.copy with
    | false => simp [loaded, Read.posted, h.tcacheRead_other, h.kept, mem.heap_zero, want]
    | true =>
      have hother := h.tcacheRead_other (x := .own i) fun b hb => by
        injection hb with hb
        cases block_of_firstPage hblock hb.symm
      simpa [loaded, Read.posted, hother] using h.own hcopy i hi none hblock (by simp)
  | some b =>
    have hlt := Nat.lt_of_le_of_lt (firstPage_le hblock) hi
    cases hcached : mem.cached b with
    | false =>
      have hstored := posted_stored false (h.length _) (h.tcacheRead_first hlt hcached)
      by_cases hfirst : firstPage blocks b = i
      · rw [hfirst] at hstored
        cases env.copy <;> simpa [loaded, hcached, hfirst, want] using hstored
      · cases env.copy with
        | false => simpa [loaded, hcached, want] using hstored
        | true => simp [loaded, hfirst, Read.posted, want]
    | true =>
      cases hcopy : env.copy with
      | false => simp [loaded, Read.posted, hcached, h.tcacheRead_other, h.kept, mem.heap_cached, want]
      | true =>
        by_cases hfirst : firstPage blocks b = i
        · have hother := h.tcacheRead_other (x := .own i) fun b' hb' => by
            injection hb' with hb'
            cases block_of_firstPage hblock hb'.symm
            exact hcached
          have hown := h.own hcopy i hi (some b) hblock fun b' hb' => by
            cases hb'
            exact ⟨hfirst, hcached⟩
          simpa [loaded, Read.posted, hcached, hfirst, hother] using hown
        · simp [loaded, hfirst, Read.posted, want]

theorem page_loaded (i : Nat) : (∀ {j}, (loaded mem copy blocks i block).page ≠ .inflated j) ∧
    (copy = true → (loaded mem copy blocks i block).page = .own i) := by
  cases block with
  | none => cases copy <;> simp [loaded]
  | some b => cases copy <;> cases hcached : mem.cached b <;> simp [loaded, hcached]

theorem fromReadList_loaded (hfrom : (loaded mem copy blocks i block).fromReadList = true) :
    copy = true ∧ ∃ b, block = some b ∧ firstPage blocks b ≠ i := by
  cases block with
  | none => simp [loaded] at hfrom
  | some b =>
    cases copy with
    | false => cases hcached : mem.cached b <;> simp [loaded, hcached] at hfrom
    | true => simpa [loaded] using hfrom

theorem Loading.Ok.placed {s : Loading} (h : s.Ok mem env blocks blocks.length) :
    Placed st env.copy (tcacheRead st s.heap s.tcache) (blocks.mapIdx (loaded mem env.copy blocks)) := by
  have hget : ∀ (i : Nat) (p : Pgdata), (blocks.mapIdx (loaded mem env.copy blocks))[i]? = some p →
      ∃ block, blocks[i]? = some block ∧ loaded mem env.copy blocks i block = p := by
    simp [getElem?_mapIdx]
  refine ⟨fun i p hp j hj => ?_, fun hcopy i p hp => ?_, fun i p hp hfrom => ?_, fun _ p hp => ?_⟩
  · obtain ⟨block, -, rfl⟩ := hget i p hp
    obtain hj | ⟨hcopy, hj⟩ := hj
    · exact absurd hj (page_loaded i).1
    · rw [(page_loaded i).2 hcopy] at hj
      injection hj with hj
      exact hj.symm
  · obtain ⟨block, -, rfl⟩ := hget i p hp
    exact (page_loaded i).2 hcopy
  · obtain ⟨block, hblock, rfl⟩ := hget i p hp
    obtain ⟨hcopy, b, rfl, hne⟩ := fromReadList_loaded hfrom
    have hlt := Nat.lt_of_le_of_ne (firstPage_le hblock) hne
    have hfirst := getElem_firstPage (Nat.lt_trans hlt (List.getElem?_eq_some_iff.mp hblock).1)
    refine ⟨hcopy, _, hlt, loaded mem env.copy blocks (firstPage blocks b) (some b), ?_, ?_, ?_⟩
    · rw [getElem?_mapIdx, hfirst, Option.map_some]
    · rw [block_loaded, block_loaded]
    · simp [loaded, hcopy]
  · obtain ⟨i, hp⟩ := getElem?_of_mem hp
    obtain ⟨block, hblock, rfl⟩ := hget i p hp
    rw [h.posted hblock, block_loaded]

theorem readBlocks_ok {pages : List Bytes} (hrun : readBlocks mem env blocks = .ok pages) :
    pages = blocks.map (want st) := by
  unfold readBlocks at hrun
  cases hload : readPages mem env 0 ⟨mem.heap, [], [], []⟩ blocks with
  | error e => simp [hload] at hrun
  | ok s =>
    simp only [hload] at hrun
    have hs := readPages_ok (Nat.zero_le _) rfl
      ⟨filled_start, mem.length_heap, fun _ _ => rfl, fun _ i hi => absurd hi (Nat.not_lt_zero i)⟩ hload
    split_ifs at hrun
    split at hrun
    · cases hrun
    · rename_i t hpost
      cases hrun
      have hpglist := hs.pglist
      rw [take_length] at hpglist
      rw [hpglist] at hpost
      have hcontents := congrArg (map Prod.snd) (pgdataPostReadIo_ok hs.placed hpost)
      simp only [map_map, Function.comp_def] at hcontents
      rw [hcontents]
      refine ext_getElem? fun i => ?_
      cases hblock : blocks[i]? <;> simp [getElem?_mapIdx, hblock, hs.posted]

end QuadStor.Read
