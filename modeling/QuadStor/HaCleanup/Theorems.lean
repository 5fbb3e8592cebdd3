import QuadStor.Fastlog.Lemmas.Serials
import QuadStor.HaCleanup.Lemmas.Handle

/-!
# Each write in flight is resolved
-/

namespace QuadStor.HaCleanup

open Lib Bint DDTable List Function
open Fastlog (writeIdGreater writeIdGreater_of_lt writeIdGreater_of_le writeIdIncr writeIdIncr_of_lt writeIdIncr_of_ge writeIdMax)

variable {c : Config} {t : Takeover c} {k : Nat} {p q : Page} {row : Row} {e e' j i : Nat} {b : Block} {f : Page → Bool}

theorem updatesFrom_pages {done : Bool} {target lba : Nat} {ws : List PageWrite} :
    updatesFrom (msgCmdOf done) target lba (ws.map PageWrite.spec) = (pagesFrom done target lba ws).map Page.update := by
  induction ws generalizing lba with
  | nil => rfl
  | cons w ws ih =>
    rw [map_cons, updatesFrom, pagesFrom, map_cons, ih]
    rfl

theorem updates_msgs {ws : List InFlight} :
    (ws.map InFlight.msg).flatMap Msg.updates = (ws.flatMap InFlight.pageList).map Page.update := by
  induction ws with
  | nil => rfl
  | cons w ws ih =>
    rw [map_cons, flatMap_cons, flatMap_cons, map_append, ih]
    exact congrArg (· ++ _) updatesFrom_pages

namespace Takeover

theorem before_succ (h : t.pages[k]? = some p) : t.before (k + 1) = handle c (t.before k) p.update :=
  Sweep.before_succ (by rw [getElem?_map, h]; rfl)

theorem after_eq : t.after = t.before t.pages.length := by
  have htdisk : ∀ msg ∈ t.writes.map InFlight.msg, c.tdisk msg.targetId = true := by
    intro msg hmsg
    obtain ⟨w, hw, rfl⟩ := mem_map.mp hmsg
    exact t.tdisk w hw
  rw [after, nodeHaHashCleanup_eq htdisk, updates_msgs, ← Sweep.before_length, length_map]
  rfl

theorem before_succ_none (h : t.pages[k]? = none) : t.before (k + 1) = t.before k :=
  Sweep.before_succ_none (by rw [getElem?_map, h]; rfl)

theorem amapTag_before {key : Nat × Nat} : (t.before k).amapTag c key = t.standby.amapTag c key :=
  Sweep.before_invariant (I := fun s : State => s.amapTag c key = t.standby.amapTag c key) rfl
    fun _ _ _ h => amapTag_handle.trans h

theorem amapTag_standby (hp : p ∈ t.pages) : t.standby.amapTag c p.amapKey = some (t.amapWriteId p, false) := by
  obtain ⟨a, himage, herror, hid, -⟩ := t.amap p hp
  unfold State.amapTag State.amapView amapWriteId
  unfold State.amapImage at himage
  cases hmem : t.standby.amaps p.amapKey with
  | some a' =>
    rw [hmem] at himage
    cases himage
    simp [herror, hid]
  | none =>
    rw [hmem] at himage
    simp only [Option.none_or] at himage ⊢
    rw [himage]
    simp only [Option.map_some, Config.amapLoad, herror, hid, Option.isSome_none, Bool.false_or]
    rfl

theorem entry_standby (hp : p ∈ t.pages) : t.standby.entry p.targetId p.lba =
    if t.amapHas p then p.write.amapBlock else p.write.oldAmapBlock := by
  obtain ⟨a, himage, -, -, hentry⟩ := t.amap p hp
  unfold State.entry
  rw [show (p.targetId, amapId p.lba) = p.amapKey from rfl, himage]
  simp only [Option.bind_some, hentry]

theorem lba_ne (hi : t.pages[i]? = some p) (hj : t.pages[j]? = some q) (hne : i ≠ j) :
    (p.targetId, p.lba) ≠ (q.targetId, q.lba) := by
  obtain ⟨hilt, rfl⟩ := List.getElem?_eq_some_iff.mp hi
  obtain ⟨hjlt, rfl⟩ := List.getElem?_eq_some_iff.mp hj
  rcases Nat.lt_or_gt_of_ne hne with hlt | hlt
  · exact pairwise_iff_getElem.mp t.disjoint i j hilt hjlt hlt
  · exact (pairwise_iff_getElem.mp t.disjoint j i hjlt hilt hlt).symm

section

variable (h : t.pages[k]? = some p)
include h

theorem entry_frame (hle : i ≤ j) (hout : k < i ∨ j ≤ k) :
    (t.before j).entry p.targetId p.lba = (t.before i).entry p.targetId p.lba := by
  refine Sweep.before_frame (fun s : State => s.entry p.targetId p.lba) hle ?_
  intro n u hlow hhigh hu
  rw [getElem?_map] at hu
  obtain ⟨q, hq, rfl⟩ := Option.map_eq_some_iff.mp hu
  exact entry_handle_eq.trans (entry_amapUpdate_of_ne (lba_ne h hq (by omega)))

theorem entry_after : t.after.entry p.targetId p.lba =
    if p.write.amapBlock = p.write.oldAmapBlock then t.standby.entry p.targetId p.lba
    else ((msgCmdOf p.clientDone).amapVerdict (t.amapWriteId p) p.write.spec).getD
      (t.standby.entry p.targetId p.lba) := by
  have hlt : k < t.pages.length := (List.getElem?_eq_some_iff.mp h).1
  have htag : (t.before k).amapTag c p.amapKey = some (t.amapWriteId p, false) :=
    amapTag_before.trans (amapTag_standby (mem_of_getElem? h))
  rw [after_eq, entry_frame h hlt (.inl (Nat.lt_succ_self k)), before_succ h]
  refine (entry_handle_eq.trans (entry_amapUpdate htag)).trans ?_
  rw [show (t.before k).entry p.update.targetId p.update.lba = t.standby.entry p.targetId p.lba from
    entry_frame h (Nat.zero_le k) (.inr (Nat.le_refl k))]
  rfl

theorem entry_iff :
    (t.after.entry p.targetId p.lba = if p.clientDone then p.write.amapBlock else p.write.oldAmapBlock) ↔
      t.MapTold p := by
  rw [entry_after h, entry_standby (mem_of_getElem? h), MapTold]
  by_cases hsame : p.write.amapBlock = p.write.oldAmapBlock
  · simp [hsame]
  · have hsame' := Ne.symm hsame
    simp only [hsame, if_false, false_or]
    cases p.clientDone with
    | true =>
      simp only [msgCmdOf, if_true, MsgCmd.amapVerdict, amapValidated, PageWrite.spec]
      rcases Bool.eq_false_or_eq_true (writeIdGreater (t.amapWriteId p) (serialId p.write.amapAt)) with hg | hg
      · cases t.amapHas p <;> simp [hg, hsame']
      · simp [hg]
    | false =>
      simp only [msgCmdOf, Bool.false_eq_true, if_false, MsgCmd.amapVerdict, amapCancelled, PageWrite.spec]
      rcases Bool.eq_false_or_eq_true (writeIdGreater (t.amapWriteId p) (serialId p.write.amapAt)) with hg | hg
      · simp [hg]
      · by_cases hid : t.amapWriteId p = serialId p.write.amapAt
        · simp [hid]
        · cases t.amapHas p <;> simp [hg, hid, hsame]

end

theorem covers_iff : p.covers c row e = true ↔
    ∃ b, p.write.amapBlock = some b ∧ b.row = row ∧ b.entry ≤ e ∧ e < b.entry + c.count b := by
  unfold Page.covers Config.covers
  cases p.write.amapBlock with
  | none | some b => simp

theorem covers_congr (hp : p ∈ t.pages) (hq : q ∈ t.pages) (h : p.covers c row e = true)
    (h' : p.covers c row e' = true) : q.covers c row e = q.covers c row e' := by
  have himp : ∀ {e e' : Nat}, p.covers c row e = true → p.covers c row e' = true → q.covers c row e = true →
      q.covers c row e' = true := by
    intro e e' h h' hcover
    have hblock := t.oneBlock p hp q hq row e h hcover
    rw [Page.covers, ← hblock]
    exact h'
  exact Bool.eq_iff_iff.mpr ⟨himp h h', himp h' h⟩

theorem countP_congr_covers {l : List Page} (hl : ∀ q ∈ l, q ∈ t.pages) (hp : p ∈ t.pages)
    (h : p.covers c row e = true) (h' : p.covers c row e' = true) :
    l.countP (fun q => q.covers c row e && f q) = l.countP fun q => q.covers c row e' && f q := by
  apply countP_congr
  intro q hq
  rw [covers_congr hp (hl q hq) h h']

theorem countAt_congr (hp : p ∈ t.pages) (h : p.covers c row e = true) (h' : p.covers c row e' = true) :
    t.countAt k row e = t.countAt k row e' := by
  rw [countAt, countAt, t.uniform p hp row e e' h h', countP_congr_covers (fun q => mem_of_mem_take) hp h h',
    countP_congr_covers (fun q => mem_of_mem_drop) hp h h']

section

variable (h : t.pages[k]? = some p)
include h

theorem countP_drop : (t.pages.drop k).countP f = (t.pages.drop (k + 1)).countP f + if f p then 1 else 0 := by
  obtain ⟨hlt, rfl⟩ := List.getElem?_eq_some_iff.mp h
  rw [drop_eq_getElem_cons hlt, countP_cons]

theorem countP_take : (t.pages.take (k + 1)).countP f = (t.pages.take k).countP f + if f p then 1 else 0 := by
  rw [take_add_one, h, countP_append]
  simp [countP_cons]

theorem countAt_succ (row : Row) (e : Nat) : t.countAt (k + 1) row e +
      (if p.covers c row e && t.indexHas p then 1 else 0) =
    t.countAt k row e + if p.covers c row e && p.clientDone then 1 else 0 := by
  rw [countAt, countAt, countP_take h, countP_drop h]
  omega

theorem countAt_lt (hcover : p.covers c row e = true) (hnot : t.indexHas p = false) : t.countAt k row e < maxRefs := by
  have hfits : t.base row e + t.pages.countP (fun q => q.covers c row e) ≤ maxRefs := t.fits row e
  rw [← take_append_drop k t.pages, countP_append, countP_drop h, hcover, if_pos rfl] at hfits
  have htake : (t.pages.take k).countP (fun q => q.covers c row e && q.clientDone) ≤
      (t.pages.take k).countP fun q => q.covers c row e :=
    countP_mono_left fun q _ hq => (Bool.and_eq_true _ _ ▸ hq).1
  have hdrop : (t.pages.drop (k + 1)).countP (fun q => q.covers c row e && t.indexHas q) ≤
      (t.pages.drop (k + 1)).countP fun q => q.covers c row e :=
    countP_mono_left fun q _ hq => (Bool.and_eq_true _ _ ▸ hq).1
  rw [countAt, countP_drop h, hnot, Bool.and_false, if_neg Bool.false_ne_true]
  omega

theorem countAt_pos (hcover : p.covers c row e = true) (hhas : t.indexHas p = true) : 0 < t.countAt k row e := by
  rw [countAt, countP_drop h, hcover, hhas, Bool.and_self, if_pos rfl]
  omega

end

theorem index_standby (hp : p ∈ t.pages) (hb : p.write.amapBlock = some b) :
    (t.standby.index c b.row).writeId = t.indexWriteId b.row ∧ (t.standby.index c b.row).dataError = false := by
  obtain ⟨herror, hid, -⟩ := t.index p hp b hb
  unfold State.index indexWriteId
  unfold State.indexImage at herror hid
  cases hmem : t.standby.indexes b.row with
  | some x =>
    rw [hmem] at herror hid
    simp only [Option.getD_some] at herror hid
    simp [herror, hid]
  | none =>
    rw [hmem] at herror hid
    simp only [Option.getD_none] at herror hid
    simp [Config.indexLoad, herror, hid]

theorem index_before (hp : p ∈ t.pages) (hb : p.write.amapBlock = some b) :
    ((t.before k).index c b.row).writeId = t.indexWriteId b.row ∧ ((t.before k).index c b.row).dataError = false := by
  -- all indexes at once: a page works on its own index
  have hall : ∀ q ∈ t.pages, ∀ b', q.write.amapBlock = some b' →
      ((t.before k).index c b'.row).writeId = t.indexWriteId b'.row ∧
        ((t.before k).index c b'.row).dataError = false := by
    refine Sweep.before_invariant (I := fun s : State => ∀ q ∈ t.pages, ∀ b', q.write.amapBlock = some b' →
      (s.index c b'.row).writeId = t.indexWriteId b'.row ∧ (s.index c b'.row).dataError = false)
      (fun q hq b' hb' => index_standby hq hb') ?_
    intro s u hu ih q hq b' hb'
    obtain ⟨r, hr, rfl⟩ := mem_map.mp hu
    cases hblock : r.write.amapBlock with
    | none =>
      rw [(index_handle_none (u := r.update) hblock).2]
      exact ih q hq b' hb'
    | some br =>
      rw [index_handle (u := r.update) hblock (ih r hr br hblock).2]
      by_cases hrow : b'.row = br.row
      · rw [hrow, update_self, apply_tag.1, apply_tag.2]
        exact ih r hr br hblock
      · rw [update_of_ne hrow]
        exact ih q hq b' hb'
  exact hall p hp b hb

theorem isSome_before : ((t.before k).indexes row).isSome = t.inMemory k row := by
  induction k with
  | zero => simp [inMemory, before]
  | succ k ih =>
    cases hp : t.pages[k]? with
    | none =>
      rw [before_succ_none hp, ih, inMemory, inMemory, take_add_one, hp]
      simp
    | some p =>
      have htake : t.inMemory (k + 1) row =
          (t.inMemory k row || p.clientDone && decide (p.write.amapBlock.map Block.row = some row)) := by
        rw [inMemory, inMemory, take_add_one, hp, Bool.or_assoc]
        simp
      rw [before_succ hp, htake, ← ih]
      cases hb : p.write.amapBlock with
      | none =>
        rw [(index_handle_none (u := p.update) hb).1]
        simp
      | some b =>
        rw [isSome_handle (u := p.update) hb]
        cases hdone : p.clientDone <;> simp [Page.update, msgCmdOf, hdone]

theorem tells_before (hp : p ∈ t.pages) (hb : p.write.amapBlock = some b) :
    (t.before k).tells c b p.write.spec = t.seen k p := by
  rw [State.tells, seen, hb, isSome_before, (index_before hp hb).1]
  rfl

/-! ### The counts page `k` finds -/

def Right (t : Takeover c) (k : Nat) : Prop :=
  ∀ p, t.pages[k]? = some p → ∀ row e, p.covers c row e = true → t.counted k p row e = if p.clientDone then 1 else 0

theorem refs_succ (h : t.pages[k]? = some p) (huniform : ∀ {e e'}, p.covers c row e = true → p.covers c row e' = true →
      (t.before k).refs row e = (t.before k).refs row e') : (t.before (k + 1)).refs row e =
      if p.covers c row e then p.update.count (t.seen k p) ((t.before k).refs row e) else (t.before k).refs row e := by
  have hp := mem_of_getElem? h
  rw [before_succ h, refs_eq_index (c := c)]
  cases hb : p.write.amapBlock with
  | none =>
    rw [(index_handle_none (u := p.update) hb).2, ← refs_eq_index, if_neg]
    simp [Page.covers, Config.covers, hb]
  | some b =>
    have herror := (index_before (k := k) hp hb).2
    rw [index_handle (u := p.update) hb herror]
    by_cases hrow : row = b.row
    · subst hrow
      have hcovers : ∀ j, p.covers c b.row j = decide (b.entry ≤ j ∧ j < b.entry + c.count b) := by
        intro j
        simp [Page.covers, Config.covers, hb]
      have hrun : ∀ j, b.entry ≤ j → j < b.entry + c.count b →
          refsOf (((t.before k).index c b.row).bmap j) = refsOf (((t.before k).index c b.row).bmap b.entry) := by
        intro j hlow hhigh
        rw [← refs_eq_index, ← refs_eq_index]
        exact huniform (by rw [hcovers]; simp [hlow, hhigh]) (by rw [hcovers]; simp; omega)
      rw [update_self, refsOf_apply herror hrun, hcovers]
      simp only [decide_eq_true_eq, ← refs_eq_index]
      rw [show (t.before k).tells c b p.update.spec = t.seen k p from tells_before hp hb]
    · rw [update_of_ne hrow, ← refs_eq_index, if_neg]
      intro hcover
      obtain ⟨b', hb', hrow', -⟩ := covers_iff.1 hcover
      rw [hb] at hb'
      cases hb'
      exact hrow hrow'.symm

theorem refs_before (h : ∀ j, j < k → t.Right j) (hq : q ∈ t.pages) (hcover : q.covers c row e = true) :
    (t.before k).refs row e = t.countAt k row e := by
  induction k generalizing q row e with
  | zero =>
    obtain ⟨b, hb, rfl, -⟩ := covers_iff.1 hcover
    have hrefs := (t.index q hq b hb).2.2 e
    refine hrefs.trans (congrArg _ (countP_congr fun r hr => ?_))
    cases hcr : r.covers c b.row e with
    | false => simp
    | true =>
      obtain ⟨br, hbr, hrow, -⟩ := covers_iff.1 hcr
      simp [indexHas, hbr, hrow]
  | succ k ih =>
    have ih' : ∀ {q row e}, q ∈ t.pages → q.covers c row e = true → (t.before k).refs row e = t.countAt k row e :=
      fun hq hcover => ih (fun j hj => h j (Nat.lt_succ_of_lt hj)) hq hcover
    cases hp : t.pages[k]? with
    | none =>
      have hlen := List.getElem?_eq_none_iff.mp hp
      rw [before_succ_none hp, ih' hq hcover, countAt, countAt, take_of_length_le hlen, take_of_length_le (by omega),
        drop_of_length_le hlen, drop_of_length_le (by omega)]
    | some p =>
      have hpmem := mem_of_getElem? hp
      have hstep := countAt_succ hp row e
      by_cases hpc : p.covers c row e = true
      · have hright := h k (Nat.lt_succ_self k) p hp row e hpc
        rw [counted, ih' hq hcover] at hright
        simp only [hpc, Bool.true_and] at hstep
        split_ifs at hright hstep <;> omega
      · rw [refs_succ hp fun hc hc' => by rw [ih' hpmem hc, ih' hpmem hc', countAt_congr hpmem hc hc'], if_neg hpc,
          ih' hq hcover]
        simp only [hpc, Bool.false_and] at hstep
        simpa using hstep.symm

theorem forall_right_iff : (∀ k, t.Right k) ↔ ∀ k p, t.pages[k]? = some p → t.RefTold k p := by
  apply Sweep.forall_iff
  intro k h
  unfold Right RefTold
  refine forall₂_congr fun p hp => forall₂_congr fun row e => forall_congr' fun hcover => ?_
  have hpmem := mem_of_getElem? hp
  have hcount : ∀ {e}, p.covers c row e = true → (t.before k).refs row e = t.countAt k row e :=
    fun hc => refs_before h hpmem hc
  have hlt := countAt_lt hp hcover
  have hpos := countAt_pos hp hcover
  rw [counted, refs_succ hp fun hc hc' => by rw [hcount hc, hcount hc', countAt_congr hpmem hc hc'], if_pos hcover,
    hcount hcover]
  unfold Update.count Page.update msgCmdOf
  cases p.clientDone with
  | true =>
    cases hhas : t.indexHas p with
    | true =>
      cases t.seen k p with
      | true => simp
      | false =>
        simp only [if_true, Bool.false_eq_true, if_false, true_and, false_or]
        split_ifs <;> omega
    | false =>
      have hroom := hlt hhas
      cases t.seen k p with
      | true => simp
      | false =>
        simp only [if_true, Bool.false_eq_true, if_false, true_or, iff_true]
        rw [if_neg (by omega)]
        omega
  | false =>
    cases hhas : t.indexHas p with
    | true =>
      have hone := hpos hhas
      cases t.seen k p with
      | true =>
        simp only [if_true, Bool.false_eq_true, if_false, true_or, iff_true]
        omega
      | false => simp
    | false =>
      cases t.seen k p with
      | true =>
        simp only [if_true, Bool.false_eq_true, if_false, Bool.true_eq_false, false_or, true_and]
        omega
      | false => simp

end Takeover

/-- Each write in flight is resolved to one outcome if and only if the images of the maps and the indexes tell, in the
way they are asked, whether they have the updates. -/
theorem resolved_iff (t : Takeover c) : t.Resolved ↔ t.Told := by
  constructor
  · intro h
    refine ⟨fun p hp => ?_, Takeover.forall_right_iff.1 fun k p hp => h.references k p hp⟩
    obtain ⟨k, hk⟩ := mem_iff_getElem?.mp hp
    exact (Takeover.entry_iff hk).mp (h.maps p hp)
  · intro h
    have hright := Takeover.forall_right_iff.2 h.references
    refine ⟨fun p hp => ?_, fun k p hp => hright k p hp, fun p hp row e hcover => ?_⟩
    · obtain ⟨k, hk⟩ := mem_iff_getElem?.mp hp
      exact (Takeover.entry_iff hk).mpr (h.maps p hp)
    · rw [Takeover.after_eq, Takeover.refs_before (fun j _ => hright j) hp hcover, Takeover.countAt, take_length,
        drop_length, countP_nil, Nat.add_zero]

theorem writeIdIncr_serialId (n : Nat) : writeIdIncr (serialId n) 1 = serialId (n + 1) := by
  have hid : serialId n = n % (2 ^ 48 - 2) + 1 := rfl
  have hnext : serialId (n + 1) = (n + 1) % (2 ^ 48 - 2) + 1 := rfl
  have hmax : writeIdMax = 2 ^ 48 - 1 := rfl
  by_cases hlast : n % (2 ^ 48 - 2) + 1 = 2 ^ 48 - 2
  · rw [writeIdIncr_of_ge (by omega) (by omega) (by decide)]
    omega
  · rw [writeIdIncr_of_lt (by omega)]
    omega

theorem writeIdGreater_serialId {m n : Nat} (hm : m < 2 ^ 47) (hn : n < 2 ^ 47) (hwindow : n ≤ m + 2 ^ 32) :
    writeIdGreater (serialId m) (serialId n) = decide (n < m) := by
  have hm' : serialId m = m + 1 := congrArg (· + 1) (Nat.mod_eq_of_lt (by unfold writeIdMax; omega))
  have hn' : serialId n = n + 1 := congrArg (· + 1) (Nat.mod_eq_of_lt (by unfold writeIdMax; omega))
  by_cases hlt : n < m
  · rw [writeIdGreater_of_lt (by omega), decide_eq_true hlt]
  · rw [writeIdGreater_of_le (by omega) (by omega) (by omega), decide_eq_false hlt]

def Close (image update : Nat) : Prop := image < 2 ^ 47 ∧ update < 2 ^ 47 ∧ update ≤ image + 2 ^ 32

structure Takeover.Synced (t : Takeover c) (p : Page) : Prop where
  amap : (t.standby.amaps p.amapKey).isSome
  amapClose : Close (t.amapAt p.amapKey) p.write.amapAt
  index : ∀ b, p.write.amapBlock = some b → (t.standby.indexes b.row).isSome ∧ p.write.indexInfo = true
  indexClose : ∀ b, p.write.amapBlock = some b → Close (t.indexAt b.row) p.write.indexAt

theorem told_of_synced (h : ∀ p ∈ t.pages, t.Synced p) : t.Told := by
  constructor
  · intro p hp
    obtain ⟨hmem, ⟨himage, hupdate, hwindow⟩, -, -⟩ := h p hp
    have hgreater := writeIdGreater_serialId himage hupdate hwindow
    refine .inr ?_
    simp only [Takeover.amapWriteId, hmem, Bool.true_or, if_true, hgreater, decide_eq_true_eq, decide_eq_false_iff_not]
    split_ifs
    · exact t.has_of_lt p hp
    · exact fun hle hne => t.not_has_of_lt p hp (lt_of_le_of_ne (not_lt.1 hle) (ne_of_apply_ne serialId hne))
  · intro k p hk row e hcover
    obtain ⟨b, hb, -⟩ := Takeover.covers_iff.1 hcover
    have hsynced := h p (mem_of_getElem? hk)
    obtain ⟨himage, hupdate, hwindow⟩ := hsynced.indexClose b hb
    refine .inl ?_
    simp only [Takeover.seen, Takeover.indexHas, Takeover.inMemory, Takeover.indexWriteId, hb,
      (hsynced.index b hb).1, PageWrite.indexWriteId, (hsynced.index b hb).2, Bool.true_or, Bool.true_and,
      if_true, writeIdGreater_serialId himage hupdate hwindow]

def oneDisk : Config := ⟨fun _ => 12, fun _ => true, fun _ => true, fun _ => true⟩

/-- A page in a block nobody else has: the map and the index were received after it, and the index was dropped from
memory since. -/
def dropped (clientDone : Bool) : Takeover oneDisk where
  writes := [⟨clientDone, 1, 0, [⟨some ⟨0, 0, 5, 4096⟩, none, 3, 3, true⟩]⟩]
  standby :=
    { amaps := fun _ => some ⟨serialId 4, false, fun _ => some ⟨0, 0, 5, 4096⟩⟩
      amapDisk := fun _ => none
      indexes := fun _ => none
      indexDisk := fun _ => { Index.new with bmap := update (fun _ => 0) 5 1, writeId := serialId 4 } }
  amapAt := fun _ => 4
  amapHas := fun _ => true
  indexAt := fun _ => 4
  base := fun _ _ => 0
  tdisk := fun _ _ => rfl
  disjoint := pairwise_singleton _ _
  oneBlock := by
    intro p hp q hq row e _ _
    rw [mem_singleton.mp hp, mem_singleton.mp hq]
  nonempty := by
    intro p hp b hb
    rw [mem_singleton.mp hp] at hb
    cases hb
    decide
  amap := by
    intro p hp
    rw [mem_singleton.mp hp]
    exact ⟨_, rfl, rfl, rfl, rfl⟩
  has_of_lt := fun _ _ _ => rfl
  not_has_of_lt := by
    intro p hp hlt
    rw [mem_singleton.mp hp] at hlt
    exact absurd hlt (by decide : ¬4 < 3)
  index := by
    intro p hp b hb
    rw [mem_singleton.mp hp] at hb
    cases hb
    refine ⟨rfl, rfl, fun e => ?_⟩
    by_cases he : e = 5
    · subst he
      rfl
    · have hout : ¬(5 ≤ e ∧ e < 5 + 1) := by omega
      simp [State.refs, State.indexImage, InFlight.pageList, pagesFrom, Page.covers, Config.covers, Config.count, oneDisk, he, hout,
        refsOf]
  uniform := fun _ _ _ _ _ _ _ => rfl
  fits := by
    intro row e
    exact Nat.le_trans (Nat.add_le_add_left countP_le_length _) (by decide : 0 + 1 ≤ maxRefs)

/-- The reference of an answered write is counted twice; that of a write that is taken back stays. -/
theorem dropped_unresolved : (dropped true).after.refs (0, 0) 5 = 2 ∧ (dropped false).after.refs (0, 0) 5 = 1 ∧
    ∀ clientDone, ¬(dropped clientDone).Resolved := by
  refine ⟨by decide, by decide, fun clientDone h => ?_⟩
  have hcount := h.counts _ mem_cons_self (0, 0) 5 rfl
  revert hcount
  cases clientDone <;> decide

end QuadStor.HaCleanup
