import Mathlib.Data.List.Forall2
import QuadStor.HashNode.Lemmas.Entries
import QuadStor.Lib.Least

/-!
# The walk over the nodes
-/

namespace QuadStor.HashNode

open Lib List

variable {find : Nat → Option Disk} {hash : BitVec 256} {k i j q p n : Nat} {node node' : Node}
  {nodes : List Node} {spec spec' : LocateSpec} {v w : Visit} {readOk : Nat → Bool}

structure Visit where
  node : Nat
  idx : Nat
  entry : Entry
  incr : Bool

def Visit.time (v : Visit) : Nat := (entryBlockTime v.entry).toNat

theorem Visit.time_eq_zero : v.time = 0 ↔ entryBlockTime v.entry = 0 :=
  ⟨fun h => BitVec.eq_of_toNat_eq h, fun h => by rw [Visit.time, h]; rfl⟩

def Visit.noted (v : Visit) : LocateSpec :=
  ⟨v.entry.block == 0, true, v.node, v.idx, v.incr, entryBlockTime v.entry⟩

inductive SpecOk (seen : List Visit) (spec : LocateSpec) : Prop where
  | unset (hseen : seen = []) (hspec : spec = .zero)
  | empty {v : Visit} (hmem : v ∈ seen) (hzero : v.entry.block = 0) (hspec : spec = v.noted)
  | oldest {j : Nat} {v : Visit} (hlive : ∀ w ∈ seen, w.entry.block ≠ 0) (hget : seen[j]? = some v)
      (hleast : Least (seen.map Visit.time) j v.time) (hspec : spec = v.noted)

variable {seen : List Visit}

theorem Visit.newEntry_noted : v.noted.newEntry = true ↔ v.entry.block = 0 := beq_iff_eq

theorem live_append (hlive : ∀ w ∈ seen, w.entry.block ≠ 0) (hv : v.entry.block ≠ 0) :
    ∀ w ∈ seen ++ [v], w.entry.block ≠ 0 :=
  forall_mem_append.2 ⟨hlive, forall_mem_singleton.2 hv⟩

theorem SpecOk.add (h : SpecOk seen spec) (v : Visit) :
    SpecOk (seen ++ [v]) (spec.add v.node v.idx v.entry v.incr) := by
  have hmem : v ∈ seen ++ [v] := mem_append_right _ (mem_singleton.2 rfl)
  cases h with
  | unset hseen hspec =>
    subst hseen hspec
    have hadd : LocateSpec.zero.add v.node v.idx v.entry v.incr = v.noted := by
      simp [LocateSpec.add, LocateSpec.zero, ddtableAddToLocateSpec, Visit.noted]
    by_cases hv : v.entry.block = 0
    · exact .empty hmem hv hadd
    · exact .oldest (live_append nofun hv) (j := 0) rfl (Least.first _) hadd
  | @empty w hw hzero hspec =>
    subst hspec
    have hadd : w.noted.add v.node v.idx v.entry v.incr = w.noted := if_pos (Visit.newEntry_noted.2 hzero)
    exact .empty (mem_append_left _ hw) hzero hadd
  | @oldest j w hlive hget hleast hspec =>
    subst hspec
    have hw := hlive w (mem_of_getElem? hget)
    have hnew : w.noted.newEntry = false := by simpa [Visit.noted] using hw
    have hadd : w.noted.add v.node v.idx v.entry v.incr =
        if v.entry.block = 0 ∨ entryBlockTime w.entry = 0 ∨ entryBlockTime v.entry < entryBlockTime w.entry then v.noted
        else w.noted := by
      rw [LocateSpec.add, hnew, ddtableAddToLocateSpec, hnew]
      rfl
    have hmap : (seen ++ [v]).map Visit.time = seen.map Visit.time ++ [v.time] := by simp
    by_cases hv : v.entry.block = 0
    · rw [if_pos (.inl hv)] at hadd
      exact .empty hmem hv hadd
    · by_cases htake : entryBlockTime w.entry = 0 ∨ entryBlockTime v.entry < entryBlockTime w.entry
      · rw [if_pos (.inr htake)] at hadd
        have hless : w.time = 0 ∨ v.time < w.time := by
          rcases htake with hz | hlt
          · exact .inl (Visit.time_eq_zero.2 hz)
          · exact .inr hlt
        refine .oldest (live_append hlive hv) (j := seen.length) (by simp) ?_ hadd
        rw [hmap]
        have htaken := hleast.take hless
        rwa [length_map] at htaken
      · rw [if_neg (not_or.2 ⟨hv, htake⟩)] at hadd
        obtain ⟨hne, hge⟩ := not_or.1 htake
        have hne : w.time ≠ 0 := fun hz => hne (Visit.time_eq_zero.1 hz)
        have hlt : j < seen.length := (List.getElem?_eq_some_iff.1 hget).1
        refine .oldest (live_append hlive hv) ((getElem?_append_left hlt).trans hget) ?_ hadd
        rw [hmap]
        exact hleast.keep hne (Nat.le_of_not_lt hge)

def Entry.present (find : Nat → Option Disk) (e : Entry) : Entry :=
  if e.block ≠ 0 ∧ (find (blockBid e.amapBlock)).isNone then .zero else e

theorem Entry.present_or (find : Nat → Option Disk) (e : Entry) : (e.present find).block = 0 ∨ e.present find = e := by
  unfold Entry.present
  split
  · exact .inl rfl
  · exact .inr rfl

def Entry.Matches (find : Nat → Option Disk) (hash : BitVec 256) (e : Entry) : Prop :=
  e.block ≠ 0 ∧ (find (blockBid e.amapBlock)).isSome ∧ e.hash = hash

def slotVisits (k i : Nat) (node : Node) : List Visit := (node.zipIdx i).map fun p => ⟨k, p.2, p.1, false⟩

theorem findLoop_cons (e : Entry) (rest : Node) (hmatch : ¬e.Matches find hash) :
    findLoop find hash k i (e :: rest) spec =
      let r := findLoop find hash k (i + 1) rest (spec.add k i (e.present find) false)
      (e.present find :: r.1, r.2) := by
  rw [findLoop, Entry.present]
  by_cases hb : e.block = 0
  · rw [if_pos hb, if_neg (fun h => h.1 hb)]
  · rw [if_neg hb]
    cases hf : find (blockBid e.amapBlock) with
    | none => rw [if_pos Option.isNone_none, if_pos ⟨hb, Option.isNone_none⟩]
    | some d =>
      have hhash : e.hash ≠ hash := fun heq => hmatch ⟨hb, by rw [hf]; rfl, heq⟩
      rw [if_neg nofun, if_neg hhash, if_neg (fun h => nomatch h.2)]

theorem findLoop_match (e : Entry) (rest : Node) (hmatch : e.Matches find hash) :
    findLoop find hash k i (e :: rest) spec = (e :: rest, spec, some i) := by
  obtain ⟨hb, hf, hhash⟩ := hmatch
  rw [findLoop, if_neg hb, if_neg (by simpa [Option.isSome_iff_ne_none] using hf), if_pos hhash]

theorem Thinned.refl (node : Node) : Thinned node node := ⟨rfl, fun h => .inr h⟩

theorem Thinned.cons {e e' : Entry} (he : e'.block = 0 ∨ e' = e) (h : Thinned node node') :
    Thinned (e :: node) (e' :: node') := by
  refine ⟨congrArg (· + 1) h.length_eq, ?_⟩
  intro i a ha
  cases i with
  | zero =>
    obtain rfl : e' = a := Option.some.inj ha
    rcases he with hz | rfl
    · exact .inl hz
    · exact .inr rfl
  | succ i => exact h.get ha

variable (find hash k) in
theorem findLoop_spec (node : Node) (i : Nat) (hok : SpecOk seen spec) :
    let r := findLoop find hash k i node spec
    Thinned node r.1 ∧ (∀ j, r.2.2 = some j → ∃ n e, j = i + n ∧ node[n]? = some e ∧ e.Matches find hash) ∧
      (r.2.2 = none → r.1 = node.map (Entry.present find) ∧ (∀ e ∈ node, ¬e.Matches find hash) ∧
        SpecOk (seen ++ slotVisits k i (node.map (Entry.present find))) r.2.1) := by
  induction node generalizing i spec seen with
  | nil => exact ⟨.refl _, nofun, fun _ => ⟨rfl, nofun, by simpa [slotVisits, findLoop] using hok⟩⟩
  | cons e rest ih =>
    by_cases hmatch : e.Matches find hash
    · rw [findLoop_match e rest hmatch]
      exact ⟨.refl _, fun j hj => ⟨0, e, (Option.some.inj hj).symm, rfl, hmatch⟩, nofun⟩
    · rw [findLoop_cons e rest hmatch]
      obtain ⟨hthinned, hsome, hnone⟩ := ih (i + 1) (hok.add ⟨k, i, e.present find, false⟩)
      refine ⟨.cons (Entry.present_or find e) hthinned, fun j hj => ?_, fun hn => ?_⟩
      · obtain ⟨n, a, rfl, ha, hmatch⟩ := hsome j hj
        exact ⟨n + 1, a, by omega, ha, hmatch⟩
      · obtain ⟨hmap, hnomatch, hspec⟩ := hnone hn
        rw [append_assoc] at hspec
        exact ⟨congrArg _ hmap, forall_mem_cons.2 ⟨hmatch, hnomatch⟩, hspec⟩

def nodeVisits (k : Nat) (node : Node) : List Visit :=
  slotVisits k 0 node ++ if node.length ≠ maxBlocks then [⟨k, node.length, .zero, true⟩] else []

variable (find hash k) in
theorem findEntry_spec (node : Node) (hok : SpecOk seen spec) :
    let r := ddtableDdlookupFindEntry find hash k node spec
    Thinned node r.1 ∧ (∀ j, r.2.2 = some j → ∃ e, node[j]? = some e ∧ e.Matches find hash) ∧
      (r.2.2 = none → r.1 = node.map (Entry.present find) ∧ (∀ e ∈ node, ¬e.Matches find hash) ∧
        SpecOk (seen ++ nodeVisits k (node.map (Entry.present find))) r.2.1) := by
  have hloop := findLoop_spec find hash k node 0 hok
  unfold ddtableDdlookupFindEntry
  split <;> rename_i heq <;> rw [heq] at hloop <;> obtain ⟨hthinned, hsome, hnone⟩ := hloop
  · refine ⟨hthinned, fun j hj => ?_, nofun⟩
    obtain ⟨n, e, rfl, he, hmatch⟩ := hsome j hj
    exact ⟨e, by rwa [Nat.zero_add], hmatch⟩
  · obtain ⟨rfl, hnomatch, hspec⟩ := hnone rfl
    refine ⟨hthinned, nofun, fun _ => ⟨rfl, hnomatch, ?_⟩⟩
    rw [nodeVisits, ← append_assoc]
    split
    · exact hspec.add ⟨k, _, .zero, true⟩
    · rwa [append_nil]

def visits : Nat → List Node → List Visit
  | _, [] => []
  | k, node :: rest => nodeVisits k node ++ visits (k + 1) rest

variable (find hash) in
theorem walk_spec (readOk : Nat → Bool) (nodes : List Node) (k : Nat) (hok : SpecOk seen spec) :
    let r := walk find readOk hash k nodes spec
    List.Forall₂ Thinned nodes r.1 ∧ (∀ k' j, r.2 = .sameHash k' j →
        ∃ n node e, k' = k + n ∧ nodes[n]? = some node ∧ node[j]? = some e ∧ e.Matches find hash) ∧
      ∀ spec', r.2 = .done spec' → r.1 = nodes.map (map (Entry.present find)) ∧
        (∀ node ∈ nodes, ∀ e ∈ node, ¬e.Matches find hash) ∧
        SpecOk (seen ++ visits k (nodes.map (map (Entry.present find)))) spec' := by
  induction nodes generalizing k spec seen with
  | nil =>
    refine ⟨.nil, nofun, fun spec' hdone => ?_⟩
    cases hdone
    exact ⟨rfl, nofun, by simpa [visits] using hok⟩
  | cons node rest ih =>
    have hrest : List.Forall₂ Thinned rest rest := forall₂_same.2 fun node _ => .refl node
    have hnode := findEntry_spec find hash k node hok
    rw [walk]
    split_ifs
    · exact ⟨.cons (.refl _) hrest, nofun, nofun⟩
    · split <;> rename_i heq <;> rw [heq] at hnode <;> obtain ⟨hthinned, hsome, hnone⟩ := hnode
      · refine ⟨.cons hthinned hrest, fun k' j hsame => ?_, nofun⟩
        cases hsame
        obtain ⟨e, he, hmatch⟩ := hsome _ rfl
        exact ⟨0, node, e, rfl, rfl, he, hmatch⟩
      · obtain ⟨hmap, hnomatch, hspec⟩ := hnone rfl
        obtain ⟨hthinnedRest, hsameRest, hdoneRest⟩ := ih (k + 1) hspec
        refine ⟨.cons hthinned hthinnedRest, fun k' j hsame => ?_, fun spec' hdone => ?_⟩
        · obtain ⟨n, node', e, rfl, hnode, he, hmatch⟩ := hsameRest k' j hsame
          exact ⟨n + 1, node', e, by omega, hnode, he, hmatch⟩
        · obtain ⟨hmaps, hnomatches, hspecs⟩ := hdoneRest spec' hdone
          rw [append_assoc] at hspecs
          exact ⟨by rw [map_cons, ← hmap, ← hmaps], forall_mem_cons.2 ⟨hnomatch, hnomatches⟩, hspecs⟩

theorem mem_slotVisits (h : v ∈ slotVisits k i node) :
    ∃ n, v.node = k ∧ v.idx = i + n ∧ v.incr = false ∧ node[n]? = some v.entry := by
  obtain ⟨⟨e, m⟩, hmem, rfl⟩ := mem_map.1 h
  obtain ⟨hle, hget⟩ := mk_mem_zipIdx_iff_le_and_getElem?_sub.1 hmem
  exact ⟨m - i, rfl, by simp only; omega, rfl, hget⟩

theorem slotVisits_mem {e : Entry} (h : node[n]? = some e) : ⟨k, i + n, e, false⟩ ∈ slotVisits k i node :=
  mem_map.2 ⟨(e, i + n), mk_mem_zipIdx_iff_le_and_getElem?_sub.2 ⟨by omega, by simpa using h⟩, rfl⟩

def Visit.On (v : Visit) (node : Node) : Prop :=
  v.incr = false ∧ node[v.idx]? = some v.entry ∨
    v.incr = true ∧ v.idx = node.length ∧ node.length ≠ maxBlocks ∧ v.entry = .zero

theorem mem_nodeVisits (h : v ∈ nodeVisits k node) : v.node = k ∧ v.On node := by
  rcases mem_append.1 h with hslot | hend
  · obtain ⟨n, hk, hidx, hincr, hget⟩ := mem_slotVisits hslot
    rw [Nat.zero_add] at hidx
    exact ⟨hk, .inl ⟨hincr, hidx ▸ hget⟩⟩
  · split at hend
    · rename_i hlen
      obtain rfl := mem_singleton.1 hend
      exact ⟨rfl, .inr ⟨rfl, rfl, hlen, rfl⟩⟩
    · cases hend

theorem mem_visits (h : v ∈ visits k nodes) : ∃ n node, v.node = k + n ∧ nodes[n]? = some node ∧ v.On node := by
  induction nodes generalizing k with
  | nil => cases h
  | cons node rest ih =>
    rcases mem_append.1 h with hnode | hrest
    · obtain ⟨hk, hon⟩ := mem_nodeVisits hnode
      exact ⟨0, node, hk, rfl, hon⟩
    · obtain ⟨n, a, hk, hget, hon⟩ := ih hrest
      exact ⟨n + 1, a, by omega, hget, hon⟩

theorem nodeVisits_subset (h : nodes[n]? = some node) : ∀ v ∈ nodeVisits (k + n) node, v ∈ visits k nodes := by
  induction nodes generalizing k n with
  | nil => cases h
  | cons a rest ih =>
    intro v hv
    cases n with
    | zero =>
      cases h
      exact mem_append_left _ hv
    | succ n =>
      have hk : k + (n + 1) = k + 1 + n := by omega
      rw [hk] at hv
      exact mem_append_right _ (ih h v hv)

def Visit.Before (v w : Visit) : Prop := v.node < w.node ∨ v.node = w.node ∧ v.idx < w.idx

theorem pairwise_slotVisits (node : Node) (i : Nat) : (slotVisits k i node).Pairwise Visit.Before := by
  induction node generalizing i with
  | nil => exact .nil
  | cons e rest ih =>
    refine pairwise_cons.2 ⟨?_, ih (i + 1)⟩
    intro w hw
    obtain ⟨n, hk, hidx, -⟩ := mem_slotVisits (i := i + 1) hw
    exact .inr ⟨hk.symm, by rw [hidx]; simp only; omega⟩

theorem pairwise_nodeVisits (k : Nat) (node : Node) : (nodeVisits k node).Pairwise Visit.Before := by
  refine pairwise_append.2 ⟨pairwise_slotVisits node 0, by split <;> simp, ?_⟩
  intro v hv w hw
  obtain ⟨n, hk, hidx, -, hget⟩ := mem_slotVisits hv
  have hlt : n < node.length := (List.getElem?_eq_some_iff.1 hget).1
  split at hw
  · obtain rfl := mem_singleton.1 hw
    exact .inr ⟨hk, by rw [hidx]; simp only; omega⟩
  · cases hw

theorem pairwise_visits (nodes : List Node) (k : Nat) : (visits k nodes).Pairwise Visit.Before := by
  induction nodes generalizing k with
  | nil => exact .nil
  | cons node rest ih =>
    refine pairwise_append.2 ⟨pairwise_nodeVisits k node, ih (k + 1), ?_⟩
    intro v hv w hw
    obtain ⟨n, _, hk, -⟩ := mem_visits hw
    have hv : v.node = k := (mem_nodeVisits hv).1
    exact .inl (by omega)

variable (hord : seen.Pairwise Visit.Before)
include hord

theorem lt_of_before (hp : seen[p]? = some v) (hq : seen[q]? = some w) (h : v.Before w) : p < q := by
  obtain ⟨hplt, rfl⟩ := List.getElem?_eq_some_iff.1 hp
  obtain ⟨hqlt, rfl⟩ := List.getElem?_eq_some_iff.1 hq
  rcases Nat.lt_trichotomy p q with hlt | rfl | hgt
  · exact hlt
  · unfold Visit.Before at h
    omega
  · have hback := pairwise_iff_getElem.1 hord q p hqlt hplt hgt
    unfold Visit.Before at h hback
    omega

theorem node_le_of_le (hp : seen[p]? = some v) (hq : seen[q]? = some w) (h : p ≤ q) : v.node ≤ w.node := by
  by_contra hlt
  have := lt_of_before hord hq hp (.inl (Nat.lt_of_not_le hlt))
  omega

theorem oldest_iff (hget : seen[j]? = some v)
    (hleast : Least (seen.map Visit.time) j v.time) (hv : node[v.idx]? = some v.entry)
    (hall : ∀ {n : Nat} {e : Entry}, node[n]? = some e → ⟨v.node, n, e, false⟩ ∈ seen)
    (hnode : ∀ w ∈ seen, w.node = v.node → w.entry ∈ node) : (∀ e ∈ node, entryBlockTime v.entry ≤ entryBlockTime e) ↔
      (∀ e ∈ node, entryBlockTime e ≠ 0) ∨ ∃ e, node.getLast? = some e ∧ entryBlockTime e = 0 := by
  have htime : ∀ {p : Nat} {w : Visit}, seen[p]? = some w → (seen.map Visit.time)[p]? = some w.time := by
    intro p w hp
    rw [getElem?_map, hp]
    rfl
  -- the node's last entry is looked at last
  have hend : ∀ {e : Entry}, node.getLast? = some e →
      v.entry = e ∨ ∃ m, j < m ∧ seen[m]? = some ⟨v.node, node.length - 1, e, false⟩ := by
    intro e he
    have hlt : v.idx < node.length := (List.getElem?_eq_some_iff.1 hv).1
    rw [getLast?_eq_getElem?] at he
    by_cases hidx : v.idx = node.length - 1
    · rw [← hidx, hv] at he
      exact .inl (Option.some.inj he)
    · obtain ⟨m, hm⟩ := getElem?_of_mem (hall he)
      exact .inr ⟨m, lt_of_before hord hget hm (.inr ⟨rfl, by simp only; omega⟩), hm⟩
  constructor
  · intro hle
    by_cases hz : entryBlockTime v.entry = 0
    · -- 0 was noted last, so this is the node's last entry
      right
      have he := getLast?_eq_some_getLast (ne_nil_of_mem (mem_of_getElem? hv))
      rcases hend he with heq | ⟨m, hjm, hm⟩
      · exact ⟨_, he, heq ▸ hz⟩
      · have hlast := hleast.last (Visit.time_eq_zero.2 hz)
        have hmlt : m < seen.length := (List.getElem?_eq_some_iff.1 hm).1
        rw [length_map] at hlast
        omega
    · left
      intro e he hez
      apply hz
      have := hle e he
      rw [hez] at this
      exact BitVec.le_zero_iff.1 this
  · rintro (hne | ⟨e, hlast, hz⟩) a ha
    · obtain ⟨n, hn⟩ := getElem?_of_mem ha
      obtain ⟨m, hm⟩ := getElem?_of_mem (hall hn)
      rcases hleast.le (htime hm) with hle | ⟨q, hmq, hqj, hq⟩
      · exact hle
      · -- an entry of time 0 between two entries of this node is in this node
        rw [getElem?_map] at hq
        obtain ⟨w, hw, hwz⟩ := Option.map_eq_some_iff.1 hq
        have hle := node_le_of_le hord hm hw hmq
        have hge := node_le_of_le hord hw hget (Nat.le_of_lt hqj)
        have hin := hnode w (mem_of_getElem? hw) (Nat.le_antisymm hge hle)
        exact absurd (Visit.time_eq_zero.1 hwz) (hne w.entry hin)
    · have hzero : entryBlockTime v.entry = 0 := by
        rcases hend hlast with rfl | ⟨m, hjm, hm⟩
        · exact hz
        · rcases hleast.le (htime hm) with hle | ⟨q, hmq, hqj, -⟩
          · rw [Visit.time, Visit.time, hz] at hle
            exact BitVec.le_zero_iff.1 hle
          · omega
      rw [hzero]
      exact BitVec.le_def.2 (Nat.zero_le _)

end QuadStor.HashNode
