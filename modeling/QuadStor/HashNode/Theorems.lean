import QuadStor.HashNode.Lemmas.Scan

/-!
# Hash nodes stay consistent when a page is entered
-/

namespace QuadStor.HashNode

open Lib List

variable {find : Nat → Option Disk} {page : Page} {node node' : Node} {nodes nodes' : List Node} {k i n j : Nat}
  {curtime : BitVec 64} {set incr : Bool} {spec : LocateSpec} {e : Entry} {r : Node × Option Nat}

theorem clear_thinned (page : Page) (node : Node) : Thinned node (ddtableClearInvalidEntries page node).1 := by
  rw [ddtableClearInvalidEntries, (clearLoop_spec page 0 node none).1]
  exact Thinned.map (Entry.cleared_or page) node

theorem clear_apart (hdisk : find page.bint.bid = some page.bint)
    (he : (ddtableClearInvalidEntries page node).1[j]? = some e) (hne : e.block ≠ 0) :
    ¬Overlap find e (page.entry curtime) := by
  rw [ddtableClearInvalidEntries, (clearLoop_spec page 0 node none).1, getElem?_map] at he
  obtain ⟨a, -, rfl⟩ := Option.map_eq_some_iff.1 he
  have hkeep := Entry.cleared_ne_zero.1 hne
  have hcleared : a.cleared page = a := if_pos (.inr hkeep.2)
  rw [hcleared]
  exact not_overlap_entry hdisk hkeep.2

structure Written (page : Page) (curtime : BitVec 64) (node node' : Node) (i : Nat) : Prop where
  length_le : node'.length ≤ maxBlocks
  self : node'[i]? = some (page.entry curtime)
  other : ∀ {j : Nat} {e : Entry}, j ≠ i → node'[j]? = some e → node[j]? = some e

theorem Node.Consistent.written (h : node.Consistent find) (hw : Written page curtime node node' i)
    (hapart : ∀ {j : Nat} {e : Entry}, node[j]? = some e → e.block ≠ 0 → ¬Overlap find e (page.entry curtime)) :
    node'.Consistent find := by
  refine ⟨hw.length_le, ?_⟩
  intro j l a b hjl ha hb hane hbne
  by_cases hj : j = i
  · subst hj
    cases hw.self.symm.trans ha
    exact fun ho => hapart (hw.other (Ne.symm hjl) hb) hbne ho.symm
  · have ha := hw.other hj ha
    by_cases hl : l = i
    · subst hl
      cases hw.self.symm.trans hb
      exact hapart ha hane
    · exact h.apart hjl ha (hw.other hl hb) hane hbne

theorem written_set (h : node.Consistent find) (hi : i < node.length) :
    Written page curtime node (node.set i (page.entry curtime)) i := by
  refine ⟨by rw [length_set]; exact h.length_le, getElem?_set_self hi, ?_⟩
  intro j e hj he
  rwa [getElem?_set_ne (Ne.symm hj)] at he

theorem written_append (hlt : node.length < maxBlocks) :
    Written page curtime node (node ++ [page.entry curtime]) node.length := by
  refine ⟨by rw [length_append]; exact hlt, by simp, ?_⟩
  intro j e hj he
  have hlen : j < (node ++ [page.entry curtime]).length := (List.getElem?_eq_some_iff.1 he).1
  rw [length_append, length_singleton] at hlen
  rwa [getElem?_append_left (by omega)] at he

structure WriteOk (find : Nat → Option Disk) (page : Page) (curtime : BitVec 64) (r : Node × Option Nat) : Prop where
  consistent : r.1.Consistent find
  self : ∀ {j : Nat}, r.2 = some j → r.1[j]? = some (page.entry curtime)

def Node.HasSlot (node : Node) (i : Nat) (incr : Bool) : Prop :=
  incr = false ∧ i < node.length ∨ incr = true ∧ i = node.length ∧ node.length < maxBlocks

theorem setNodeBlock_placed (h : (ddtableSetNodeBlock set curtime page node i incr).2 = some j) : j = i := by
  unfold ddtableSetNodeBlock at h
  split at h
  · cases h
  · split at h <;> exact (Option.some.inj h).symm

theorem setNodeBlock_ok (h : node.Consistent find)
    (hapart : ∀ {j : Nat} {e : Entry}, node[j]? = some e → e.block ≠ 0 → ¬Overlap find e (page.entry curtime))
    (hslot : node.HasSlot i incr) : WriteOk find page curtime (ddtableSetNodeBlock set curtime page node i incr) := by
  cases set with
  | false => exact ⟨h, nofun⟩
  | true =>
    have hw : Written page curtime node (ddtableSetNodeBlock true curtime page node i incr).1 i := by
      rcases hslot with ⟨rfl, hi⟩ | ⟨rfl, rfl, hlt⟩
      · exact written_set h hi
      · exact written_append hlt
    refine ⟨h.written hw hapart, ?_⟩
    intro j hj
    obtain rfl := setNodeBlock_placed hj
    exact hw.self

theorem stays_iff : e.Stays find page ↔ ((e.present find).cleared page).block ≠ 0 := by
  rw [Entry.cleared_ne_zero, Entry.present, Entry.Stays]
  by_cases hb : e.block = 0
  · simp [hb]
  · cases find (blockBid e.amapBlock) with
    | none => rw [if_pos ⟨hb, Option.isNone_none⟩]; simp [Entry.zero]
    | some d => simp

def Node.emptied (find : Nat → Option Disk) (page : Page) (node : Node) : Node :=
  (ddtableClearInvalidEntries page (node.map (Entry.present find))).1

theorem Node.length_emptied (node : Node) : (node.emptied find page).length = node.length := by
  rw [Node.emptied, (clear_thinned page _).length_eq, length_map]

theorem Node.Consistent.emptied (h : node.Consistent find) : (node.emptied find page).Consistent find :=
  (h.thinned (Thinned.map (Entry.present_or find) node)).thinned (clear_thinned page _)

theorem insertEntry_cases (find : Nat → Option Disk) (page : Page) (set : Bool) (curtime : BitVec 64) (node : Node)
    (hvalid : spec.valid) : (∃ j e, node[j]? = some e ∧ ¬e.Stays find page ∧
      ddtableDdlookupInsertEntry set curtime page (node.map (Entry.present find)) (some spec) =
        ddtableSetNodeBlock set curtime page (node.emptied find page) j false) ∨ ((∀ e ∈ node, e.Stays find page) ∧
      ddtableDdlookupInsertEntry set curtime page (node.map (Entry.present find)) (some spec) =
        ddtableSetNodeBlock set curtime page (node.emptied find page) spec.insertIdx spec.incr) := by
  obtain ⟨-, hsome, hnone⟩ := clearLoop_spec page 0 (node.map (Entry.present find)) none
  cases hidx : (ddtableClearInvalidEntries page (node.map (Entry.present find))).2 with
  | some j =>
    left
    rcases hsome j hidx with hcase | ⟨n, a, rfl, ha, hzero⟩
    · cases hcase
    · rw [getElem?_map] at ha
      obtain ⟨e, he, rfl⟩ := Option.map_eq_some_iff.1 ha
      refine ⟨0 + n, e, by rwa [Nat.zero_add], fun hstays => stays_iff.1 hstays hzero, ?_⟩
      rw [ddtableDdlookupInsertEntry]
      simp only [hidx]
      rfl
  | none =>
    right
    constructor
    · intro e he
      exact stays_iff.2 ((hnone hidx).2 _ (mem_map_of_mem he))
    · rw [ddtableDdlookupInsertEntry]
      simp only [hidx, Option.filter_some, hvalid, if_true]
      rfl

theorem rightSlot_of_vacant (h : node.Vacant find page i) : node.RightSlot find page i ∧ node.TimesOk find page :=
  ⟨⟨fun _ => h, fun hnone => absurd ⟨i, h⟩ hnone⟩, .inl ⟨i, h⟩⟩

theorem not_vacant (hlen : node.length = maxBlocks) (hall : ∀ e ∈ node, e.Stays find page) :
    ¬∃ j, node.Vacant find page j := by
  rintro ⟨j, hj, hvacant⟩
  have hget := getElem?_eq_getElem (hlen ▸ hj)
  exact hvacant _ hget (hall _ (getElem_mem _))

theorem map_present_of_stays (hall : ∀ e ∈ node, e.Stays find page) : node.map (Entry.present find) = node := by
  conv_rhs => rw [← map_id node]
  apply map_congr_left
  intro e he
  have hsome := (hall e he).2.1
  exact if_neg fun h => by simp [Option.isNone_iff_eq_none.1 h.2] at hsome

theorem rightSlot_iff (hnone : ¬∃ j, node.Vacant find page j) (he : node[i]? = some e) :
    node.RightSlot find page i ↔ ∀ e' ∈ node, entryBlockTime e ≤ entryBlockTime e' := by
  constructor
  · intro h
    obtain ⟨a, ha, hle⟩ := h.2 hnone
    cases ha.symm.trans he
    exact hle
  · exact fun hle => ⟨fun h => absurd h hnone, fun _ => ⟨e, he, hle⟩⟩

theorem timesOk_iff (hnone : ¬∃ j, node.Vacant find page j) : node.TimesOk find page ↔
      (∀ e ∈ node, entryBlockTime e ≠ 0) ∨ ∃ e, node.getLast? = some e ∧ entryBlockTime e = 0 :=
  ⟨fun h => h.resolve_left hnone, .inr⟩

theorem noted_slot (page : Page) (hcons : ∀ node ∈ nodes, node.Consistent find)
    (hspec : SpecOk (visits 0 (nodes.map (map (Entry.present find)))) spec) (hvalid : spec.valid) :
    ∃ node, nodes[spec.insertDdlookup]? = some node ∧ ((∀ e ∈ node, e.Stays find page) →
      node.HasSlot spec.insertIdx spec.incr ∧ (node.RightSlot find page spec.insertIdx ↔ node.TimesOk find page)) := by
  have hon : ∀ v ∈ visits 0 (nodes.map (map (Entry.present find))),
      ∃ node, nodes[v.node]? = some node ∧ v.On (node.map (Entry.present find)) := by
    intro v hv
    obtain ⟨n, a, hn, ha, hon⟩ := mem_visits hv
    rw [Nat.zero_add] at hn
    rw [getElem?_map] at ha
    obtain ⟨node, hnode, rfl⟩ := Option.map_eq_some_iff.1 ha
    exact ⟨node, hn ▸ hnode, hon⟩
  cases hspec with
  | unset _ hzero =>
    subst hzero
    cases hvalid
  | @empty v hmem hzero hv =>
    subst hv
    obtain ⟨node, hnode, hon⟩ := hon v hmem
    refine ⟨node, hnode, ?_⟩
    intro hall
    rw [map_present_of_stays hall] at hon
    rcases hon with ⟨-, hget⟩ | ⟨hincr, hidx, hne, -⟩
    · exact absurd hzero (hall _ (mem_of_getElem? hget)).1
    · have hlt := Nat.lt_of_le_of_ne (hcons node (mem_of_getElem? hnode)).length_le hne
      refine ⟨.inr ⟨hincr, hidx, hlt⟩, ?_⟩
      have hvacant : node.Vacant find page v.idx := by
        refine ⟨hidx ▸ hlt, ?_⟩
        intro e he
        rw [hidx, getElem?_eq_none le_rfl] at he
        cases he
      exact iff_of_true (rightSlot_of_vacant hvacant).1 (rightSlot_of_vacant hvacant).2
  | @oldest j v hlive hget hleast hv =>
    subst hv
    have hmem := mem_of_getElem? hget
    obtain ⟨node, hnode, hvon⟩ := hon v hmem
    refine ⟨node, hnode, ?_⟩
    intro hall
    have hmap := map_present_of_stays hall
    have hnodes : (nodes.map (map (Entry.present find)))[v.node]? = some node := by
      rw [getElem?_map, hnode, Option.map_some, hmap]
    have hsub := nodeVisits_subset (k := 0) hnodes
    rw [Nat.zero_add] at hsub
    have hlen : node.length = maxBlocks := by
      by_contra hne
      apply hlive _ (hsub ⟨v.node, node.length, .zero, true⟩ ?_) rfl
      rw [nodeVisits, if_pos hne]
      simp
    have hslot : ∀ {w : Visit} {a : Node}, w ∈ visits 0 (nodes.map (map (Entry.present find))) → w.On a →
        w.incr = false ∧ a[w.idx]? = some w.entry := by
      rintro w a hw (hin | ⟨-, -, -, hz⟩)
      · exact hin
      · exact absurd (by rw [hz]; rfl) (hlive w hw)
    obtain ⟨hincr, hentry⟩ := hslot hmem hvon
    rw [hmap] at hentry
    have hnone := not_vacant hlen hall
    refine ⟨.inl ⟨hincr, (List.getElem?_eq_some_iff.1 hentry).1⟩, Iff.trans (rightSlot_iff hnone hentry) ?_⟩
    rw [timesOk_iff hnone]
    apply oldest_iff (pairwise_visits _ 0) hget hleast hentry
    · intro n e he
      apply hsub
      have hin := slotVisits_mem (k := v.node) (i := 0) he
      rw [Nat.zero_add] at hin
      exact mem_append_left _ hin
    · intro w hw heq
      obtain ⟨a, ha, haon⟩ := hon w hw
      rw [heq, hnode] at ha
      cases ha
      rw [hmap] at haon
      exact mem_of_getElem? (hslot hw haon).2

theorem mem_forall₂ (h : List.Forall₂ Thinned nodes nodes')
    (hcons : ∀ node ∈ nodes, node.Consistent find) : ∀ node ∈ nodes', node.Consistent find := by
  intro node hnode
  obtain ⟨n, hn, rfl⟩ := getElem_of_mem hnode
  exact (hcons _ (getElem_mem _)).thinned (h.get (h.length_eq ▸ hn) hn)

theorem getD_of_getElem? (h : nodes[n]? = some node) : nodes.getD n [] = node := by
  rw [getD_eq_getElem?_getD, h]
  rfl

theorem forall₂_getElem? (h : List.Forall₂ Thinned nodes nodes')
    (hn : nodes[n]? = some node) : ∃ node', nodes'[n]? = some node' ∧ Thinned node node' := by
  obtain ⟨hlt, rfl⟩ := List.getElem?_eq_some_iff.1 hn
  have hlt' := h.length_eq ▸ hlt
  exact ⟨nodes'[n], getElem?_eq_getElem hlt', h.get hlt hlt'⟩

theorem PlacedOk.vacant (hnone : ¬HasHash find page nodes) (h : (nodes.getD k []).Vacant find page i) :
    PlacedOk find page nodes k i :=
  ⟨fun hhas => absurd hhas hnone, fun _ => iff_of_true (rightSlot_of_vacant h).1 (rightSlot_of_vacant h).2⟩

theorem insertEntry_noted (set : Bool) (curtime : BitVec 64) (hdisk : find page.bint.bid = some page.bint)
    (hcons : ∀ node ∈ nodes, node.Consistent find) (hnone : ¬HasHash find page nodes)
    (hspec : SpecOk (visits 0 (nodes.map (map (Entry.present find)))) spec) (hvalid : spec.valid) :
    WriteOk find page curtime (ddtableDdlookupInsertEntry set curtime page
        ((nodes.map (map (Entry.present find))).getD spec.insertDdlookup []) (some spec)) ∧
      spec.insertDdlookup < nodes.length ∧
      ∀ {j : Nat}, (ddtableDdlookupInsertEntry set curtime page
          ((nodes.map (map (Entry.present find))).getD spec.insertDdlookup []) (some spec)).2 = some j →
        PlacedOk find page nodes spec.insertDdlookup j := by
  obtain ⟨node, hnode, hslot⟩ := noted_slot page hcons hspec hvalid
  have hnodecons := hcons node (mem_of_getElem? hnode)
  have hgetD := getD_of_getElem? hnode
  have hgetD' : (nodes.map (map (Entry.present find))).getD spec.insertDdlookup [] =
      node.map (Entry.present find) := by
    apply getD_of_getElem?
    rw [getElem?_map, hnode]
    rfl
  obtain ⟨i, incr, heq, hhas, hplaced⟩ : ∃ i incr,
      ddtableDdlookupInsertEntry set curtime page (node.map (Entry.present find)) (some spec) =
        ddtableSetNodeBlock set curtime page (node.emptied find page) i incr ∧
      node.HasSlot i incr ∧ PlacedOk find page nodes spec.insertDdlookup i := by
    rcases insertEntry_cases find page set curtime node hvalid with ⟨i, e, he, hgone, heq⟩ | ⟨hall, heq⟩
    · have hi : i < node.length := (List.getElem?_eq_some_iff.1 he).1
      refine ⟨i, false, heq, .inl ⟨rfl, hi⟩, .vacant hnone ?_⟩
      rw [hgetD]
      refine ⟨hi.trans_le hnodecons.length_le, ?_⟩
      intro a ha
      rwa [← Option.some.inj (he.symm.trans ha)]
    · obtain ⟨hhas, hiff⟩ := hslot hall
      exact ⟨_, _, heq, hhas, fun h => absurd h hnone, fun _ => hgetD ▸ hiff⟩
  rw [hgetD', heq]
  refine ⟨setNodeBlock_ok hnodecons.emptied (clear_apart hdisk) ?_, (List.getElem?_eq_some_iff.1 hnode).1, ?_⟩
  · unfold Node.HasSlot at hhas ⊢
    rwa [Node.length_emptied]
  · intro j hj
    obtain rfl := setNodeBlock_placed hj
    exact hplaced

theorem InsertOk.at (hcons : ∀ node ∈ nodes', node.Consistent find)
    (hk : k < nodes'.length) (hr : WriteOk find page curtime r)
    (hslot : ∀ {j : Nat}, r.2 = some j → PlacedOk find page nodes k j) :
    InsertOk find page nodes (Result.at nodes' k r) := by
  constructor
  · intro node hn
    rcases mem_or_eq_of_mem_set hn with hn | rfl
    · exact hcons node hn
    · exact hr.consistent
  · intro k' j hj
    obtain ⟨i, hi, heq⟩ := Option.map_eq_some_iff.1 hj
    cases heq
    exact ⟨⟨r.1, page.entry curtime, getElem?_set_self hk, hr.self hi, page.entry_block_ne_zero _,
      page.amapBlock_entry _, rfl⟩, hslot hi⟩

theorem insertOk_sameHash (set : Bool) (curtime : BitVec 64) (hdisk : find page.bint.bid = some page.bint)
    (hcons : ∀ node ∈ nodes', node.Consistent find) (hthinned : List.Forall₂ Thinned nodes nodes')
    (hnode : nodes[k]? = some node) (he : node[i]? = some e) (hmatch : e.Matches find page.hash) :
    InsertOk find page nodes (.at nodes' k (ddtableSetNodeBlock set curtime page
      (ddtableClearInvalidEntries page (nodes'.getD k [])).1 i false)) := by
  obtain ⟨node', hnode', ht⟩ := forall₂_getElem? hthinned hnode
  have hcleared := clear_thinned page node'
  have hi : i < (ddtableClearInvalidEntries page node').1.length := by
    rw [hcleared.length_eq, ht.length_eq]
    exact (List.getElem?_eq_some_iff.1 he).1
  have hhas : HasHash find page nodes := ⟨node, mem_of_getElem? hnode, e, mem_of_getElem? he, hmatch⟩
  rw [getD_of_getElem? hnode']
  apply InsertOk.at hcons (List.getElem?_eq_some_iff.1 hnode').1
  · apply setNodeBlock_ok ((hcons node' (mem_of_getElem? hnode')).thinned hcleared) (clear_apart hdisk)
    exact .inl ⟨rfl, hi⟩
  · intro j hj
    obtain rfl := setNodeBlock_placed hj
    refine ⟨fun _ => ⟨e, ?_, hmatch.2.2⟩, fun hnone => absurd hhas hnone⟩
    rw [getD_of_getElem? hnode]
    exact he

theorem insertOk_newNode (set : Bool) (curtime : BitVec 64) (hlen : nodes'.length = nodes.length)
    (hcons : ∀ node ∈ nodes', node.Consistent find) (hnone : ¬HasHash find page nodes) : InsertOk find page nodes
      (.at (nodes' ++ [[]]) nodes'.length (ddtableDdlookupInsertEntry set curtime page [] none)) := by
  have hempty : Node.Consistent find [] := ⟨Nat.zero_le _, nofun⟩
  apply InsertOk.at
  · exact forall_mem_append.2 ⟨hcons, forall_mem_singleton.2 hempty⟩
  · rw [length_append]
    exact Nat.lt_succ_self _
  · exact setNodeBlock_ok hempty nofun (.inr ⟨rfl, rfl, by decide⟩)
  · intro j hj
    obtain rfl := setNodeBlock_placed hj
    apply PlacedOk.vacant hnone
    rw [hlen, getD_eq_getElem?_getD, getElem?_eq_none le_rfl]
    exact ⟨by decide, nofun⟩

/-- The nodes stay within their capacity and without overlaps, and the page's entry has its block and hash. A hash that
is there keeps its slot. A new one gets an empty slot if its node has one, and otherwise the place of the node's oldest
entry exactly when no entry of time 0 hid it. -/
theorem hash_insert_consistent (env : Env) (page : Page) (nodes : List Node)
    (hdisk : env.find page.bint.bid = some page.bint) (hcons : ∀ node ∈ nodes, node.Consistent env.find) :
    InsertOk env.find page nodes (ddtableHashInsert env page nodes) := by
  have hspec := walk_spec env.find page.hash env.readOk nodes 0 (.unset rfl rfl)
  unfold ddtableHashInsert
  cases hwalk : walk env.find env.readOk page.hash 0 nodes .zero with
  | mk nodes' w =>
    rw [hwalk] at hspec
    obtain ⟨hthinned, hsame, hdone⟩ := hspec
    have hcons' := mem_forall₂ hthinned hcons
    cases w with
    | failed => exact ⟨hcons', nofun⟩
    | sameHash k i =>
      obtain ⟨n, node, e, hk, hnode, he, hmatch⟩ := hsame k i rfl
      rw [Nat.zero_add] at hk
      subst hk
      exact insertOk_sameHash env.set env.curtime hdisk hcons' hthinned hnode he hmatch
    | done spec =>
      obtain ⟨rfl, hnomatch, hspec⟩ := hdone spec rfl
      have hnone : ¬HasHash env.find page nodes := by
        rintro ⟨node, hn, e, he, hmatch⟩
        exact hnomatch node hn e he hmatch
      simp only
      generalize hfinal : (if env.canAdd && spec.valid && !spec.newEntry then { spec with valid := false } else spec) =
        final
      have hsame : final.valid → final = spec := by
        rw [← hfinal]
        split
        · exact nofun
        · exact fun _ => rfl
      by_cases hvalid : final.valid
      · obtain rfl := hsame hvalid
        rw [if_pos hvalid]
        obtain ⟨hok, hk, hslot⟩ := insertEntry_noted env.set env.curtime hdisk hcons hnone hspec hvalid
        exact .at hcons' (by rw [length_map]; exact hk) hok hslot
      · rw [if_neg hvalid]
        split
        · exact ⟨hcons', nofun⟩
        · exact insertOk_newNode env.set env.curtime (length_map _) hcons' hnone

def oneDisk : Disk := ⟨1, 9, false⟩

def quietEnv : Env := ⟨fun bid => if bid = 1 then some oneDisk else none, fun _ => true, false, false, false, true, 900⟩

/-- A node with an entry in each slot; all have a time but for the first, which has the given one. -/
def fullNode (first : BitVec 64) : Node :=
  (range maxBlocks).map fun i =>
    { setEntryBlockTime (BitVec.ofNat 64 (2 ^ 38 + 5120 * (i + 1)))
        (if i = 0 then first else if i = 2 then 300 else 500) .zero with hash := BitVec.ofNat 256 i }

def latePage : Page where
  amapBlock := BitVec.ofNat 50 (2 ^ 38 + 5120 * 98)
  hash := 1000
  bint := oneDisk
  ne_zero := by decide
  bid_eq := by decide

theorem consistent_of_nodup (hlen : node.length ≤ maxBlocks)
    (hnodup : (node.map fun e => (indexIdFromBlock oneDisk (blockBlocknr e.block)).1).Nodup) :
    node.Consistent quietEnv.find := by
  refine ⟨hlen, ?_⟩
  rintro i j a b hij ha hb - - ⟨-, d, hd, hid, -⟩
  obtain rfl : oneDisk = d := by
    simp only [quietEnv] at hd
    split at hd
    · exact Option.some.inj hd
    · cases hd
  obtain ⟨hi, rfl⟩ := List.getElem?_eq_some_iff.1 ha
  obtain ⟨hj, rfl⟩ := List.getElem?_eq_some_iff.1 hb
  have hne := pairwise_iff_getElem.1 (pairwise_map.1 hnodup)
  rcases Nat.lt_or_gt_of_ne hij with hlt | hgt
  · exact hne i j hi hj hlt hid
  · exact hne j i hj hi hgt hid.symm

theorem not_hasHash (hall : ∀ e ∈ node, e.hash ≠ page.hash) : ¬HasHash find page [node] := by
  rintro ⟨_, hn, e, he, -, -, hhash⟩
  rw [mem_singleton.1 hn] at he
  exact hall e he hhash

theorem hash_insert_consistent_full : (ddtableHashInsert quietEnv latePage [fullNode 400]).placed = some (0, 2) ∧
      (fullNode 400).RightSlot quietEnv.find latePage 2 := by
  have hplaced : (ddtableHashInsert quietEnv latePage [fullNode 400]).placed = some (0, 2) := by decide +kernel
  have hcons : ∀ node ∈ [fullNode 400], node.Consistent quietEnv.find := by
    intro node hn
    rw [mem_singleton.1 hn]
    exact consistent_of_nodup (by decide) (by decide +kernel)
  have hnone : ¬HasHash quietEnv.find latePage [fullNode 400] := not_hasHash (by decide +kernel)
  have htimes : ∀ e ∈ fullNode 400, entryBlockTime e ≠ 0 := by decide +kernel
  have hok := ((hash_insert_consistent quietEnv latePage [fullNode 400] rfl hcons).placed hplaced).2
  exact ⟨hplaced, (hok.rightSlot hnone).2 (.inr (.inl htimes))⟩

/-- The first entry was made before the clock was set, so it is the oldest; the page takes the place of the third. -/
theorem oldest_entry_kept : (fullNode 0).Consistent quietEnv.find ∧
      (ddtableHashInsert quietEnv latePage [fullNode 0]).placed = some (0, 2) ∧
      ¬HasHash quietEnv.find latePage [fullNode 0] ∧ ¬(fullNode 0).RightSlot quietEnv.find latePage 2 := by
  refine ⟨consistent_of_nodup (by decide) (by decide +kernel), by decide +kernel, ?_, ?_⟩
  · exact not_hasHash (by decide +kernel)
  · have hstays : ∀ e ∈ fullNode 0, e.Stays quietEnv.find latePage := by decide +kernel
    intro h
    obtain ⟨e, he, hle⟩ := h.2 (not_vacant rfl hstays)
    have hthird : (fullNode 0)[2]?.map (fun e => (entryBlockTime e).toNat) = some 300 := by decide +kernel
    have hfirst : ∃ a ∈ fullNode 0, entryBlockTime a = 0 := by decide +kernel
    obtain ⟨a, ha, hzero⟩ := hfirst
    have hlt := hle a ha
    rw [hzero] at hlt
    rw [he, Option.map_some, BitVec.le_zero_iff.1 hlt] at hthird
    cases hthird

/-! ## Nodes and the slots of the dedupe table -/

-- what tells where the blocks of a disk are
variable (disk : Nat → Disk)

def toBlock (block : BitVec 64) : DDTable.Block :=
  let (indexId, entry) := indexIdFromBlock (disk (blockBid block)) (blockBlocknr block)
  ⟨blockBid block, indexId, entry, lbaBlockSize block⟩

def Entry.toSlot (e : Entry) : Option DDTable.Entry :=
  if e.block = 0 then none else some ⟨e.hash.toNat, toBlock disk e.block⟩

def toSlots (node : Node) : DDTable.Slots := node.map (Entry.toSlot disk)

def shifts (bid : Nat) : Nat := (disk bid).metaShift

variable {disk}

theorem toBlock_eq {a b : BitVec 64} (h : SameBlock a b) : toBlock disk a = toBlock disk b := by
  rw [toBlock, toBlock, h.blockBid_eq, h.blockBlocknr_eq, h.lbaBlockSize_eq]

section

variable (hdisk : disk page.bint.bid = page.bint)
include hdisk

theorem keepEntry_toBlock (e : Entry) :
    DDTable.keepEntry (shifts disk) (toBlock disk page.block) ⟨e.hash.toNat, toBlock disk e.block⟩ =
      keepEntry page e := by
  have hbid : blockBid page.block = page.bint.bid := page.bid_eq
  simp only [DDTable.keepEntry, keepEntry, toBlock, shifts, hbid, hdisk]
  by_cases heq : blockBid e.block = page.bint.bid
  · simp only [heq, hdisk, Nat.shiftRight_eq_div_pow]
  · simp only [ne_eq, heq, not_false_eq_true, if_true]

theorem toSlot_cleared (e : Entry) : (e.cleared page).toSlot disk =
      (e.toSlot disk).filter (DDTable.keepEntry (shifts disk) (toBlock disk page.block)) := by
  by_cases hb : e.block = 0
  · have hcleared : e.cleared page = e := if_pos (.inl hb)
    rw [hcleared, Entry.toSlot, if_pos hb]
    rfl
  · have hslot : e.toSlot disk = some ⟨e.hash.toNat, toBlock disk e.block⟩ := if_neg hb
    rw [hslot, Option.filter_some, keepEntry_toBlock hdisk]
    by_cases hkeep : keepEntry page e
    · have hcleared : e.cleared page = e := if_pos (.inr hkeep)
      rw [hcleared, if_pos hkeep, hslot]
    · have hcleared : e.cleared page = .zero := if_neg (not_or.2 ⟨hb, hkeep⟩)
      rw [hcleared, if_neg hkeep]
      rfl

theorem toSlots_clear (node : Node) : toSlots disk (ddtableClearInvalidEntries page node).1 =
      DDTable.ddtableClearInvalidEntries (shifts disk) (toBlock disk page.block) (toSlots disk node) := by
  rw [ddtableClearInvalidEntries, (clearLoop_spec page 0 node none).1, toSlots, toSlots,
    DDTable.ddtableClearInvalidEntries, map_map, map_map]
  apply map_congr_left
  intro e _
  exact toSlot_cleared hdisk e

end

theorem toSlots_clear_full : toSlots (fun _ => oneDisk) (ddtableClearInvalidEntries latePage (fullNode 400)).1 =
    DDTable.ddtableClearInvalidEntries (shifts fun _ => oneDisk) (toBlock (fun _ => oneDisk) latePage.block)
      (toSlots (fun _ => oneDisk) (fullNode 400)) :=
  toSlots_clear rfl (fullNode 400)

theorem toSlot_entry (page : Page) (curtime : BitVec 64) :
    (page.entry curtime).toSlot disk = some ⟨page.hash.toNat, toBlock disk page.block⟩ := by
  rw [Entry.toSlot, if_neg (page.entry_block_ne_zero curtime), toBlock_eq (page.sameBlock_entry curtime)]
  rfl

theorem toSlots_setNodeBlock (hslot : node.HasSlot i incr) :
    toSlots disk (ddtableSetNodeBlock true curtime page node i incr).1 =
      DDTable.setSlot (toSlots disk node) i ⟨page.hash.toNat, toBlock disk page.block⟩ := by
  have hlen : (toSlots disk node).length = node.length := length_map _
  unfold DDTable.setSlot
  rcases hslot with ⟨rfl, hi⟩ | ⟨rfl, rfl, hlt⟩
  · rw [if_pos (hlen ▸ hi), ← toSlot_entry page curtime]
    exact map_set
  · rw [if_neg (by omega), ← toSlot_entry page curtime]
    exact map_append

end QuadStor.HashNode
