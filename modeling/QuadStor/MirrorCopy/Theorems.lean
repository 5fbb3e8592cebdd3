import QuadStor.MirrorCopy.Lemmas.Pages
import QuadStor.NodeWrite.Theorems
import QuadStor.Read.Theorems

/-!
# The peer's pages
-/

namespace QuadStor.MirrorCopy

open Lib DDTable Read List

variable {st : Store} {mem : Memory st} {env : Env} {taken : Nat → Bool} {blocks : List (Option Block)}
  {pages : List CopyPage} {src : Source} {η : Type} (hash : Bytes → η) (dedupe : Bool) {p : CopyPage} {i cnt : Nat}

theorem mem_setup : ∀ {ps : List (Hashed η)} {i : Nat} {spec : PgdataSpec η},
    spec ∈ tdiskMirrorWriteSetup i ps → ∃ (j : Nat) (p : Hashed η), ps[j]? = some p ∧ p.zero = false ∧
      spec = ⟨p.hash, p.dedupeDisabled, i + j⟩
  | [], _, _, h => by simp [tdiskMirrorWriteSetup] at h
  | p :: ps, i, spec, h => by
      have hrest : spec ∈ tdiskMirrorWriteSetup (i + 1) ps → ∃ (j : Nat) (q : Hashed η),
          (p :: ps)[j]? = some q ∧ q.zero = false ∧ spec = ⟨q.hash, q.dedupeDisabled, i + j⟩ := by
        intro hmem
        obtain ⟨j, q, hq, hzero, hspec⟩ := mem_setup hmem
        exact ⟨j + 1, q, hq, hzero, by rw [hspec, Nat.add_assoc, Nat.add_comm 1]⟩
      unfold tdiskMirrorWriteSetup at h
      split_ifs at h with hzero
      · exact hrest h
      · obtain h | h := mem_cons.mp h
        · exact ⟨0, p, rfl, by simpa using hzero, h⟩
        · exact hrest h

theorem le_csum {ps : List (Hashed η)} {spec : PgdataSpec η} (h : spec ∈ tdiskMirrorWriteSetup i ps) : i ≤ spec.csum := by
  obtain ⟨j, p, -, -, rfl⟩ := mem_setup h
  exact Nat.le_add_right i j

theorem fillPglist_none {specs : List (PgdataSpec η)} (hi : i < cnt)
    (h : ∀ spec ∈ specs, i + 1 ≤ spec.csum) : fillPglist cnt i specs = none :: fillPglist cnt (i + 1) specs := by
  cases specs with
  | nil =>
    have hcnt : cnt - i = cnt - (i + 1) + 1 := by omega
    rw [fillPglist, fillPglist, hcnt, replicate_succ]
  | cons spec rest =>
    have hspec := h spec mem_cons_self
    have hcnt : spec.csum - i = spec.csum - (i + 1) + 1 := by omega
    rw [fillPglist, fillPglist, hcnt, replicate_succ, cons_append]

theorem fillPglist_setup : ∀ (ps : List (Hashed η)) (i : Nat),
    fillPglist (i + ps.length) i (tdiskMirrorWriteSetup i ps) =
      ps.mapIdx fun j p => if p.zero then none else some ⟨p.hash, p.dedupeDisabled, i + j⟩
  | [], i => by simp [tdiskMirrorWriteSetup, fillPglist]
  | p :: ps, i => by
      have ih := fillPglist_setup ps (i + 1)
      rw [show i + 1 + ps.length = i + (p :: ps).length by simp only [length_cons]; omega] at ih
      rw [mapIdx_cons]
      unfold tdiskMirrorWriteSetup
      cases hzero : p.zero with
      | true =>
        rw [if_pos rfl, fillPglist_none (by simp) fun spec => le_csum, ih]
        simp [Nat.add_assoc, Nat.add_comm 1]
      | false =>
        rw [if_neg (by simp), fillPglist, ih]
        simp [Nat.add_assoc, Nat.add_comm 1]

/-- The page as the message has it, with `DDBLOCK_ZERO_BLOCK` and `DDBLOCK_DEDUPE_DISABLED` -/
def Hashed.pgdata (p : Hashed (BitVec 256)) : NodeWrite.Pgdata where
  flags := (if p.zero then 1 else 0) ||| if p.dedupeDisabled then 2 else 0
  hash := p.hash.getD 0

theorem zero_pgdata (p : Hashed (BitVec 256)) : p.pgdata.zero = p.zero := by
  cases hzero : p.zero <;> cases hdisabled : p.dedupeDisabled <;>
    simp [Hashed.pgdata, NodeWrite.Pgdata.zero, NodeWrite.ddblockZeroBlock, hzero, hdisabled]

/-- The receiver of the message, which takes one spec after the other, has the same pages. -/
theorem fillPglist_arrives (pgdataCsum : NodeWrite.Page → BitVec 16) (behind : Nat → NodeWrite.PgdataSpec)
    {ps : List (Hashed (BitVec 256))} (hcnt : ps.length < 2 ^ 16) :
    ∃ f, NodeWrite.fillPglist pgdataCsum false (fun _ => true)
        (NodeWrite.sentMsg .mirror pgdataCsum false behind (ps.map Hashed.pgdata)) ps.length = .accepted f ∧
      ∀ (k : Nat) (spec : Option (PgdataSpec (BitVec 256))),
        (fillPglist ps.length 0 (tdiskMirrorWriteSetup 0 ps))[k]? = some spec →
        (f.pglist k).zero = spec.isNone ∧ ∀ x, spec = some x → x.csum = k ∧ (f.pglist k).hash = x.hash.getD 0 := by
  have hlen : (ps.map Hashed.pgdata).length = ps.length := length_map _
  obtain ⟨-, f, hf, hpages⟩ := (NodeWrite.arrives_iff .mirror pgdataCsum false behind (hlen ▸ hcnt)).2 (by simp)
  refine ⟨f, hlen ▸ hf, fun k spec hspec => ?_⟩
  have hfill := fillPglist_setup ps 0
  rw [Nat.zero_add] at hfill
  rw [hfill, getElem?_mapIdx] at hspec
  obtain ⟨p, hp, rfl⟩ := Option.map_eq_some_iff.mp hspec
  obtain ⟨hzero, hhash⟩ := hpages k p.pgdata (by rw [getElem?_map, hp]; rfl)
  simp only [NodeWrite.leftOut, Bool.not_false, Bool.true_and, zero_pgdata] at hzero hhash
  cases hp0 : p.zero with
  | true => exact ⟨hzero.trans hp0, by simp⟩
  | false =>
    refine ⟨hzero.trans hp0, fun x hx => ?_⟩
    cases hx
    exact ⟨Nat.zero_add k, hhash hp0⟩

def CopyPage.content (p : CopyPage) : Bytes := if p.zero then zeroPage else p.bytes

@[simp] theorem bytes_calcHash (p : CopyPage) : (pglistCalcHash hash dedupe p).bytes = p.bytes := by
  simp only [pglistCalcHash, hashPage]
  split_ifs <;> rfl

@[simp] theorem found_calcHash (p : CopyPage) : (pglistCalcHash hash dedupe p).found = p.found := by
  simp only [pglistCalcHash, hashPage]
  split_ifs <;> rfl

theorem block_calcHash (h : p.found = true) : (pglistCalcHash hash dedupe p).block = p.block := by
  simp only [pglistCalcHash, hashPage, h, Bool.or_true, if_true]
  split_ifs <;> rfl

theorem content_calcHash (p : CopyPage) : (pglistCalcHash hash dedupe p).toCopyPage.content = p.content := by
  simp only [pglistCalcHash, hashPage, CopyPage.content]
  split_ifs <;> simp_all

theorem hash_calcHash (h : (pglistCalcHash hash dedupe p).zero = false) :
    p.zero = false ∧ (pglistCalcHash hash dedupe p).hash = if dedupe then some (hash p.bytes) else none := by
  revert h
  simp only [pglistCalcHash, hashPage]
  split_ifs <;> simp_all

theorem peerPages_eq : peerPages hash dedupe pages = pages.map CopyPage.content := by
  have hfill := fillPglist_setup (pages.map (pglistCalcHash hash dedupe)) 0
  rw [Nat.zero_add, length_map] at hfill
  rw [peerPages, specs, hfill]
  refine ext_getElem? fun i => ?_
  simp only [getElem?_map, getElem?_mapIdx, Option.map_map]
  cases hi : pages[i]? with
  | none => rfl
  | some p =>
    rw [Option.map_some, Option.map_some, ← content_calcHash hash dedupe p]
    simp only [Function.comp_apply, CopyPage.content]
    cases (pglistCalcHash hash dedupe p).zero <;> simp [peerPage, hi]

theorem localPages_eq (h : ∀ p ∈ pages, p.zero = false → p.found = true → want st p.block = p.bytes) :
    localPages hash dedupe st pages = pages.map CopyPage.content := by
  refine map_congr_left fun p hp => ?_
  rw [← content_calcHash hash dedupe p]
  simp only [localPage, CopyPage.content]
  cases hzero : (pglistCalcHash hash dedupe p).zero with
  | true => rfl
  | false =>
    cases hfound : p.found with
    | false => simp [hfound]
    | true =>
      rw [found_calcHash, hfound, block_calcHash hash dedupe hfound, bytes_calcHash]
      exact h p hp (hash_calcHash hash dedupe hzero).1 hfound

def Expanded (mem : Memory st) (taken : Nat → Bool) (blocks : List (Option Block)) : Prop :=
  ∀ (i : Nat) (b : Block), blocks[i]? = some (some b) → copied mem blocks taken i (some b) = st.data b

theorem forall_holds_iff : List.Forall₂ (Holds st) (blocks.mapIdx (copiedPage mem blocks taken)) blocks ↔
    Expanded mem taken blocks := by
  rw [forall₂_iff_get]
  simp only [length_mapIdx, true_and, get_eq_getElem, getElem_mapIdx]
  constructor
  · intro h i b hb
    obtain ⟨hi, heq⟩ := List.getElem?_eq_some_iff.mp hb
    have hholds := h i hi hi
    rw [heq] at hholds
    exact hholds.2
  · intro h i hi _
    cases hblock : blocks[i] with
    | none => rfl
    | some b => exact ⟨rfl, h i b (by rw [getElem?_eq_getElem hi, hblock])⟩

theorem content_copiedPage (i : Nat) (block : Option Block) :
    (copiedPage mem blocks taken i block).content = copied mem blocks taken i block := by
  cases block <;> rfl

theorem map_content_iff : (blocks.mapIdx (copiedPage mem blocks taken)).map CopyPage.content = blocks.map (want st) ↔
      Expanded mem taken blocks := by
  constructor
  · intro h i b hb
    have hi := congrArg (·[i]?) h
    simp only [getElem?_map, getElem?_mapIdx, hb, Option.map_some, content_copiedPage,
      Option.some.injEq] at hi
    exact hi
  · intro h
    refine ext_getElem? fun i => ?_
    simp only [getElem?_map, getElem?_mapIdx]
    cases hb : blocks[i]? with
    | none => rfl
    | some block =>
      simp only [Option.map_some, content_copiedPage, Option.some.injEq]
      cases block with
      | none => rfl
      | some b => exact h i b hb

theorem expanded_iff : Expanded mem taken blocks ↔ ∀ (i : Nat) (b : Block), blocks[i]? = some (some b) →
    lbaBlockSize b = 4096 ∨ mem.cached b = true ∨
      (taken i = false ∧ taken (firstPage blocks b) = false) ∨ rawPage mem blocks b = st.data b := by
  refine forall_congr' fun i => forall_congr' fun b => imp_congr_right fun _ => ?_
  simp only [copied]
  split_ifs with h
  all_goals
    simp only [Bool.or_eq_true, beq_iff_eq, Bool.not_eq_true', Bool.or_eq_false_iff] at h
    tauto

theorem copyPages_beyond {cnt : Nat} : ∀ {rest : List (Option Block)} {i : Nat} {s : Loading}, rest ≠ [] →
    cnt < i + rest.length → ∃ e, copyPages mem env taken cnt i s rest = .error e
  | [], _, _, hne, _ => absurd rfl hne
  | block :: rest, i, s, _, hlen => by
      unfold copyPages
      split_ifs with hi
      · exact ⟨_, rfl⟩
      · split
        · exact ⟨_, rfl⟩
        · rw [length_cons] at hlen
          refine copyPages_beyond (ne_nil_of_length_pos ?_) ?_ <;> omega

theorem copyPage_ne_outOfBounds {s : Loading} {block : Option Block} :
    copyPage mem env taken s i block ≠ .error .outOfBounds := by
  intro h
  cases block with
  | none => cases h
  | some b =>
    simp only [copyPage, copyBlock] at h
    split at h
    · cases h
    · split at h
      · cases h
      · split_ifs at h
        cases h

theorem copyPages_within {cnt : Nat} : ∀ {rest : List (Option Block)} {i : Nat} {s : Loading},
    i + rest.length ≤ cnt → copyPages mem env taken cnt i s rest ≠ .error .outOfBounds
  | [], _, _, _ => by simp [copyPages]
  | block :: rest, i, s, hlen => by
      rw [length_cons] at hlen
      unfold copyPages
      rw [if_neg (by omega)]
      split
      · rename_i e he
        rintro ⟨⟩
        exact copyPage_ne_outOfBounds he
      · exact copyPages_within (by omega)

theorem copyBlocks_within (hlen : blocks.length ≤ cnt) :
    copyBlocks mem env taken cnt 0 blocks ≠ .error .outOfBounds := by
  unfold copyBlocks
  split
  · rename_i e he
    rintro ⟨⟩
    exact copyPages_within (by omega) he
  · split_ifs
    · simp
    · split <;> simp

theorem length_blocks_rod (r : RodRange) : (Source.rod r).blocks.length = r.cnt - r.idx := by
  simp [Source.blocks, Nat.min_eq_left r.cnt_le]

theorem rod_beyond {r : RodRange} (hidx : r.idx ≠ 0) : ∃ e, (Source.rod r).pages mem env = .error e := by
  have hlt := r.idx_lt
  have hlen := length_blocks_rod r
  obtain ⟨e, he⟩ : ∃ e, copyPages mem env (fun _ => false) (r.cnt - r.idx) r.idx ⟨mem.heap, [], [], []⟩
      (Source.rod r).blocks = .error e :=
    copyPages_beyond (ne_nil_of_length_pos (by omega)) (by omega)
  simp only [Source.blocks] at he
  exact ⟨e, by simp [Source.pages, readFromRodEntry, copyBlocks, he]⟩

def Source.refs : Source → Nat → Bool
  | .disk _ _ _ taken => taken
  | .rod _ => fun _ => false

theorem pages_ok (h : src.pages mem env = .ok pages) : pages = src.blocks.mapIdx (copiedPage mem src.blocks src.refs) ∧
      (Fits mem src ↔ Expanded mem src.refs src.blocks) := by
  cases src with
  | disk v lba transferLength taken =>
    simp only [Source.pages, tdiskCmdRefInt] at h
    split_ifs at h
    split at h
    · cases h
    · rename_i found hfound
      have hblocks := AddrMap.lookupBlocks_ok hfound
      rw [hblocks] at h
      exact ⟨copyBlocks_ok h, expanded_iff.symm⟩
  | rod r =>
    have hidx : r.idx = 0 := by
      by_contra hne
      obtain ⟨e, he⟩ := rod_beyond hne
      rw [he] at h
      cases h
    have hrun : copyBlocks mem env (fun _ => false) (r.cnt - r.idx) 0 (Source.rod r).blocks = .ok pages := by
      simpa [Source.pages, readFromRodEntry, hidx, Source.blocks] using h
    refine ⟨copyBlocks_ok hrun, ?_⟩
    rw [expanded_iff]
    simp [Fits, hidx, Source.refs]

theorem not_fits_of_outOfBounds (h : src.pages mem env = .error .outOfBounds) : ¬Fits mem src := by
  cases src with
  | disk v lba transferLength taken =>
    simp only [Source.pages, tdiskCmdRefInt] at h
    split at h
    · cases h
    split at h
    · cases h
    · rename_i found hfound
      refine absurd h (copyBlocks_within ?_)
      simp [AddrMap.lookupBlocks_ok hfound]
  | rod r =>
    intro hidx
    simp only [Source.pages, readFromRodEntry] at h
    rw [show r.idx = 0 from hidx] at h
    refine absurd h (copyBlocks_within ?_)
    simp

theorem copiedPage_of_expanded (hexp : Expanded mem taken blocks)
    (hp : (blocks.mapIdx (copiedPage mem blocks taken))[i]? = some p) (hzero : p.zero = false) :
    ∃ b, blocks[i]? = some (some b) ∧ p.block = some b ∧ p.bytes = st.data b := by
  rw [getElem?_mapIdx, Option.map_eq_some_iff] at hp
  obtain ⟨block, hblock, rfl⟩ := hp
  cases block with
  | none => cases hzero
  | some b => exact ⟨b, hblock, rfl, hexp i b hblock⟩

/-- A copy that does not fail makes an exact list of pages, from which the peer gets the data and the hashes, exactly if
it fits. -/
theorem mirrored_copy_exact_iff (mem : Memory st) (env : Env) (src : Source) (h : src.pages mem env ≠ .error .failed) :
    (Exact st src.blocks (src.pages mem env) ↔ Fits mem src) ∧ ∀ pages, src.pages mem env = .ok pages →
        (peerPages hash dedupe pages = src.blocks.map (want st) ↔ Fits mem src) ∧
        (Fits mem src → localPages hash dedupe st pages = peerPages hash dedupe pages ∧
          ∀ spec ∈ specs hash dedupe pages, ∃ b, src.blocks[spec.csum]? = some (some b) ∧
            spec.hash = if dedupe then some (hash (st.data b)) else none) := by
  refine ⟨?_, fun pages hpages => ?_⟩
  · cases hpages : src.pages mem env with
    | error e =>
      cases e with
      | failed => exact absurd hpages h
      | outOfBounds =>
        simp only [Exact, false_iff]
        exact not_fits_of_outOfBounds hpages
    | ok pages =>
      obtain ⟨rfl, hfits⟩ := pages_ok hpages
      rw [hfits]
      exact forall_holds_iff
  · obtain ⟨rfl, hfits⟩ := pages_ok hpages
    rw [peerPages_eq, hfits]
    refine ⟨map_content_iff, fun hexp => ⟨localPages_eq hash dedupe fun p hp hzero _ => ?_, fun spec hspec => ?_⟩⟩
    · obtain ⟨i, hi⟩ := getElem?_of_mem hp
      obtain ⟨b, -, hblock, hbytes⟩ := copiedPage_of_expanded hexp hi hzero
      rw [hblock, hbytes, want]
    · obtain ⟨i, q, hq, hzero, rfl⟩ := mem_setup hspec
      rw [getElem?_map, Option.map_eq_some_iff] at hq
      obtain ⟨p, hp, rfl⟩ := hq
      obtain ⟨hzero, hhash⟩ := hash_calcHash hash dedupe hzero
      obtain ⟨b, hb, -, hbytes⟩ := copiedPage_of_expanded hexp hp hzero
      exact ⟨b, by simpa using hb, by rw [hhash, hbytes]⟩

def shortBlock : Block := ⟨1, 0, 64, 1024⟩

def pairDisk : Vdisk :=
  ⟨⟨2 ^ 20, false⟩,
    ⟨1, fun _ => .loaded ⟨false, fun _ => .loaded ⟨false, fun n => if n < 2 then some shortBlock else none⟩⟩⟩⟩

theorem pairDisk_blocks (taken : Nat → Bool) :
    (Source.disk pairDisk 0 2 taken).blocks = [some shortBlock, some shortBlock] := rfl

theorem shortBlock_compressed : lbaBlockSize shortBlock ≠ 4096 := by decide

theorem raw_ne {page : Bytes} (blocks : List (Option Block)) (h : page[1]? ≠ some 64) :
    rawPage coldMemory blocks shortBlock ≠ page := by
  rintro rfl
  exact h rfl

theorem referenced_block_not_expanded : ∃ pages,
    (Source.disk pairDisk 0 2 fun _ => true).pages coldMemory calmEnv = .ok pages ∧
      ¬List.Forall₂ (Holds sevensStore) pages (Source.disk pairDisk 0 2 fun _ => true).blocks ∧
      peerPages id true pages ≠ localPages id true sevensStore pages := by
  obtain ⟨pages, hpages⟩ : ∃ pages,
    (Source.disk pairDisk 0 2 fun _ => true).pages coldMemory calmEnv = .ok pages := ⟨_, rfl⟩
  obtain ⟨rfl, -⟩ := pages_ok hpages
  have hraw : copied coldMemory [some shortBlock, some shortBlock] (fun _ => true) 0 (some shortBlock) =
      rawPage coldMemory [some shortBlock, some shortBlock] shortBlock := by
    simp [copied, coldMemory, shortBlock_compressed]
  have hsevens : (sevensStore.data shortBlock)[1]? = some 7 := rfl
  have hdata := raw_ne [some shortBlock, some shortBlock] (hsevens.trans_ne (by decide))
  have hzeroes : zeroPage[1]? = some 0 := rfl
  have hzero := raw_ne [some shortBlock, some shortBlock] (hzeroes.trans_ne (by decide))
  simp only [pairDisk_blocks, Source.refs] at hpages ⊢
  refine ⟨_, hpages, fun hexact => ?_, fun hequal => ?_⟩
  · rw [forall_holds_iff] at hexact
    exact hdata (hraw.symm.trans (hexact 0 shortBlock rfl))
  · rw [peerPages_eq] at hequal
    have h := congrArg head? hequal
    simp [localPages, localPage, CopyPage.content, copiedPage, hraw, pglistCalcHash, hashPage, hzero, want] at h
    exact hdata h

def pairPage : Pgdata := ⟨.own 0, some shortBlock, false, false⟩

theorem pairDisk_unreferenced :
    ∃ pages, (Source.disk pairDisk 0 2 fun _ => false).pages coldMemory calmEnv = .ok pages := by
  have hlookup : AddrMap.lookupBlocks calmEnv.io pairDisk.maps (pairDisk.lbaReal 0)
      (transferLengthToPglistCnt pairDisk.lbaShift 2) = .ok [some shortBlock, some shortBlock] := rfl
  have hload : copyPages coldMemory calmEnv (fun _ => false) (transferLengthToPglistCnt pairDisk.lbaShift 2) 0
      ⟨coldMemory.heap, [], [], []⟩ [some shortBlock, some shortBlock] =
      .ok ⟨coldMemory.heap, [pairPage, pairPage], [pairPage], [(.own 0, shortBlock)]⟩ := rfl
  have hread : tcacheRead sevensStore coldMemory.heap [(.own 0, shortBlock)] (.own 0) =
      sevensStore.stored shortBlock ++ (coldMemory.heap (.own 0)).drop (lbaBlockSize shortBlock) :=
    tcacheRead_of_mem (by simp) (by simp)
  have hpost : ∃ t, pgdataPostReadIo (shares calmEnv) sevensStore 0
      ⟨tcacheRead sevensStore coldMemory.heap [(.own 0, shortBlock)], [], []⟩ [pairPage, pairPage] = .ok t := by
    simp [pgdataPostReadIo, postPage, pairPage, shortBlock_compressed, shares, calmEnv, hread,
      qsInflateBlock_stored shortBlock_compressed, Posting.write, Posting.enter]
  obtain ⟨t, ht⟩ := hpost
  simp only [Source.pages, tdiskCmdRefInt, hlookup, copyBlocks, hload, ht]
  exact ⟨_, rfl⟩

theorem mirrored_copy_exact_pair : ∃ pages,
    (Source.disk pairDisk 0 2 fun _ => false).pages coldMemory calmEnv = .ok pages ∧
      peerPages id true pages = (Source.disk pairDisk 0 2 fun _ => false).blocks.map (want sevensStore) := by
  obtain ⟨pages, hpages⟩ := pairDisk_unreferenced
  have hfits : Fits coldMemory (.disk pairDisk 0 2 fun _ => false) := fun _ _ _ => .inr (.inr (.inl ⟨rfl, rfl⟩))
  have hrun := mirrored_copy_exact_iff id true coldMemory calmEnv (.disk pairDisk 0 2 fun _ => false)
    (by rw [hpages]; simp)
  exact ⟨pages, hpages, (hrun.2 pages hpages).1.mpr hfits⟩

end QuadStor.MirrorCopy
