import Mathlib.Algebra.BigOperators.Fin
import Mathlib.Algebra.Order.BigOperators.Group.Finset
import QuadStor.LogRing.Lemmas.Order

/-!
# Reservations and pending entries
-/

namespace QuadStor.LogRing

open Lib List Function

variable {N p lba i : Nat} {s : State N} {w : Fin N} {o : Obj} {round : Round} {x : Writer} {r ring : Ring} {y : Placed}

theorem sum_update {ι α : Type*} [Fintype ι] [DecidableEq ι] (f : ι → α) (g : α → Nat) (i : ι) (x : α) :
    ∑ j, g (update f i x j) + g (f i) = ∑ j, g (f j) + g x := by
  have hcomp := funext (apply_update (fun _ => g) f i x)
  rw [hcomp, Finset.sum_update_of_mem (Finset.mem_univ i), Finset.sdiff_singleton_eq_erase,
    ← Finset.add_sum_erase _ (fun j => g (f j)) (Finset.mem_univ i)]
  omega

theorem pages_le (r : Request) : r.pages ≤ r.pglistCnt + 1 := by
  cases r with
  | write target legacy lba n | compareAndWrite target legacy lba n =>
    cases legacy with
    | false => simp [Request.pages]
    | true =>
      simp only [Request.pages, Request.pglistCnt, transferLengthToPglistCnt, u16, u32]
      norm_num
      split_ifs <;> omega
  | scan target lba n => simp [Request.pages]

theorem length_made_le {r : Request} {l : List Obj} (hl : l.Nodup)
    (h : ∀ o ∈ l, ∃ lba, r.Has lba ∧ (o = tableOf r.target lba ∨ o = amapOf r.target lba)) :
    l.length ≤ r.pages + 4 := by
  by_cases h0 : r.pages = 0
  · have hnil : l = [] := eq_nil_iff_forall_not_mem.mpr fun o ho => by
      obtain ⟨lba, ⟨h1, h2⟩, -⟩ := h o ho
      omega
    simp [hnil]
  · have hcovers : ∀ {lba : Nat} (k : Nat), r.page ≤ lba → lba < r.page + r.pages →
        lba / k ∈ Finset.Icc (r.page / k) ((r.page + r.pages - 1) / k) := fun k hle hlt =>
      Finset.mem_Icc.mpr ⟨Nat.div_le_div_right hle, Nat.div_le_div_right (by omega)⟩
    have hsub : l.toFinset ⊆
        (Finset.Icc (amapTableId r.page) (amapTableId (r.page + r.pages - 1))).image (fun k => .table (r.target, k)) ∪
        (Finset.Icc (amapId r.page) (amapId (r.page + r.pages - 1))).image fun k => .amap (r.target, k) := by
      intro o ho
      obtain ⟨lba, ⟨hle, hlt⟩, rfl | rfl⟩ := h o (mem_toFinset.mp ho)
      · exact Finset.mem_union_left _ (Finset.mem_image_of_mem _ (hcovers _ hle hlt))
      · exact Finset.mem_union_right _ (Finset.mem_image_of_mem _ (hcovers _ hle hlt))
    have hcard := (Finset.card_le_card hsub).trans (Finset.card_union_le _ _)
    have htables := hcard.trans (Nat.add_le_add Finset.card_image_le Finset.card_image_le)
    rw [toFinset_card_of_nodup hl, Nat.card_Icc, Nat.card_Icc] at htables
    unfold amapTableId amapId lbasPerAmapTable lbasPerAmap amapsPerAmapTable at htables
    omega

theorem length_updates_le {r : Request} {l : List Nat} (hl : l.Nodup) (h : ∀ lba ∈ l, r.Has lba) :
    l.length ≤ r.pages := by
  have hsub : l.toFinset ⊆ Finset.Ico r.page (r.page + r.pages) := fun lba hlba =>
    Finset.mem_Ico.mpr (h lba (mem_toFinset.mp hlba))
  have hcard := Finset.card_le_card hsub
  rw [toFinset_card_of_nodup hl, Nat.card_Ico] at hcard
  omega

theorem add_pages_le_logEntries (r : Request) : r.pages + 4 + r.pages ≤ r.logEntries := by
  have := pages_le r
  cases r with
  | write target legacy lba n | compareAndWrite target legacy lba n =>
    simp only [Request.logEntries]
    omega
  | scan target lba n =>
    simp only [Request.logEntries, Request.pages, Request.pglistCnt]
    omega

structure Budget (x : Writer) : Prop where
  idle : x.phase = .idle → x = .idle
  nodup : x.made.Nodup
  mine : ∀ o ∈ x.made, ∃ lba, x.req.Has lba ∧ (o = tableOf x.req.target lba ∨ o = amapOf x.req.target lba)
  scanning : x.phase = .scanning → x.inserted + x.unlogged.length ≤ x.made.length
  total : x.inserted + x.unlogged.length + x.updates.length ≤ x.made.length + x.req.pages
  reserved : x.phase ≠ .idle → x.logReserved = x.req.logEntries

theorem Budget.inserted_le (h : Budget x) : x.inserted ≤ x.logReserved := by
  by_cases hp : x.phase = .idle
  · simp [h.idle hp, Writer.idle]
  · have hmade := length_made_le h.nodup h.mine
    have htotal := h.total
    have hreq := add_pages_le_logEntries x.req
    rw [h.reserved hp]
    omega

theorem budget_idle : Budget .idle := by constructor <;> simp [Writer.idle]

def Writer.onPage (p : Nat) (x : Writer) : Nat := x.placed.countP fun y => y.page == p

def Ring.Holds (r : Ring) (y : Placed) : Prop :=
  (r.mem y.page).entries y.idx = some y.entry ∧ (y.page = r.free → y.idx < r.freeIdx)

structure Ledger (s : State N) : Prop where
  budget : ∀ w, Budget (s.writer w)
  reserved : s.reserved = ∑ w, (s.writer w).logReserved
  le : s.reserved ≤ s.ring.freeLogEntries
  pending : ∀ p, s.ring.pending p = ∑ w, (s.writer w).onPage p
  holds : ∀ w, ∀ y ∈ (s.writer w).placed, s.ring.Holds y
  nodup : ∀ w, (s.writer w).placed.Nodup
  apart : ∀ w w' y, y ∈ (s.writer w).placed → y ∈ (s.writer w').placed → w = w'

theorem Ledger.not_placed (h : Ledger s) (hp : s.ring.pending p = 0) (w : Fin N) :
    ∀ y ∈ (s.writer w).placed, y.page ≠ p := by
  rw [h.pending, Finset.sum_eq_zero_iff] at hp
  have hw := hp w (Finset.mem_univ w)
  simpa [Writer.onPage] using hw

theorem mem_insert_entries {e : Entry} (h : p = r.free → i ≠ r.freeIdx) :
    ((r.insert e).mem p).entries i = (r.mem p).entries i := by
  by_cases hp : p = r.free
  · subst hp
    simp [Ring.insert, LogPage.set, h rfl]
  · simp [Ring.insert, hp]

theorem Ring.Holds.insert {e : Entry} (h : r.Holds y) : (r.insert e).Holds y :=
  ⟨(mem_insert_entries fun hp => (h.2 hp).ne).trans h.1, fun hp => Nat.lt_succ_of_lt (h.2 hp)⟩

theorem holds_inserted (r : Ring) (e : Entry) : (r.insert e).Holds ⟨r.free, r.freeIdx, e⟩ :=
  ⟨by simp [Ring.insert, LogPage.set], fun _ => Nat.lt_succ_self _⟩

theorem Ring.Holds.not_inserted {e : Entry} (h : r.Holds y) : y ≠ ⟨r.free, r.freeIdx, e⟩ := by
  rintro rfl
  exact Nat.lt_irrefl _ (h.2 rfl)

theorem Ring.Holds.eq_of_place {z : Placed} (h : r.Holds y) (hz : r.Holds z) (hp : z.page = y.page)
    (hi : z.idx = y.idx) : z = y := by
  have hsame := hz.1
  rw [hp, hi, h.1] at hsame
  cases z
  cases y
  simp_all

theorem mem_clear_entries {q j : Nat} (h : ¬ (q = p ∧ j = i)) :
    ((r.clear p i).mem q).entries j = (r.mem q).entries j := by
  by_cases hq : q = p
  · subst hq
    have hj : j ≠ i := fun hj => h ⟨rfl, hj⟩
    simp [Ring.clear, LogPage.set, hj]
  · simp [Ring.clear, hq]

section

variable {reserved : Nat} {holder : Option (Fin N)} {flags : Obj → Option Flags} (h : Ledger s)
include h

theorem Ledger.change (hx : Budget x)
    (hres : reserved + (s.writer w).logReserved = s.reserved + x.logReserved) (hle : reserved ≤ ring.freeLogEntries)
    (hpending : ∀ p, ring.pending p + (s.writer w).onPage p = s.ring.pending p + x.onPage p)
    (hself : ∀ y ∈ x.placed, ring.Holds y) (hother : ∀ w', w' ≠ w → ∀ y ∈ (s.writer w').placed, ring.Holds y)
    (hnodup : x.placed.Nodup) (hapart : ∀ w' y, y ∈ x.placed → y ∈ (s.writer w').placed → w = w') :
    Ledger ⟨ring, reserved, holder, flags, update s.writer w x⟩ where
  budget := (forall_update_iff s.writer fun _ => Budget).2 ⟨hx, fun w' _ => h.budget w'⟩
  reserved := by
    have hsum := sum_update s.writer Writer.logReserved w x
    have hr := h.reserved
    dsimp only
    omega
  le := hle
  pending p := by
    have hsum := sum_update s.writer (Writer.onPage p) w x
    have hold := h.pending p
    have hnew := hpending p
    dsimp only
    omega
  holds := (forall_update_iff s.writer fun _ x => ∀ y ∈ x.placed, ring.Holds y).2 ⟨hself, hother⟩
  nodup := (forall_update_iff s.writer fun _ x => x.placed.Nodup).2 ⟨hnodup, fun w' _ => h.nodup w'⟩
  apart a b y ha hb := by
    simp only [update_apply] at ha hb
    split_ifs at ha hb with haw hbw hbw
    · rw [haw, hbw]
    · rw [haw, hapart b y ha hb]
    · rw [hbw, hapart a y hb ha]
    · exact h.apart a b y ha hb

theorem Ledger.reserve (hres : reserved + (s.writer w).logReserved = s.reserved + x.logReserved)
    (hle : reserved ≤ s.ring.freeLogEntries) (hx : Budget x) (hplaced : x.placed = (s.writer w).placed) :
    Ledger ⟨s.ring, reserved, holder, flags, update s.writer w x⟩ :=
  h.change hx hres hle (fun p => by rw [Writer.onPage, Writer.onPage, hplaced]) (hplaced ▸ h.holds w)
    (fun w' _ => h.holds w') (hplaced ▸ h.nodup w) (hplaced ▸ h.apart w)

theorem Ledger.of_writer (hx : Budget x) (hplaced : x.placed = (s.writer w).placed)
    (hlog : x.logReserved = (s.writer w).logReserved) :
    Ledger ⟨s.ring, s.reserved, holder, flags, update s.writer w x⟩ :=
  h.reserve (by rw [hlog]) h.le hx hplaced

theorem Ledger.of_ring (hsize : ring.size = s.ring.size) (hpending : ring.pending = s.ring.pending)
    (hholds : ∀ w, ∀ y ∈ (s.writer w).placed, ring.Holds y) : Ledger { s with ring, flags } :=
  { h with
    le := by
      rw [Ring.freeLogEntries, hsize]
      exact h.le
    pending := hpending ▸ h.pending
    holds := hholds }

theorem Ledger.rotate (hc : s.ring.CanRotate) : Ledger { s with ring := s.ring.rotate } := by
  refine h.of_ring rfl rfl fun w y hy => ?_
  have hne := h.not_placed hc.2 w y hy
  exact ⟨by simpa [Ring.rotate, Ring.setup, update_of_ne hne] using (h.holds w y hy).1, fun hp => absurd hp hne⟩

theorem Ledger.leave (hr : s.ring.Ok) : Ledger { s with ring := s.ring.leave } :=
  h.of_ring rfl rfl fun w y hy => ⟨(h.holds w y hy).1, fun hp => ((h.holds w y hy).2 hp).trans_le hr.freeIdx_le⟩

theorem Ledger.insert {e : Entry} (hx : Budget x)
    (hplaced : x.placed = (s.writer w).placed ++ [⟨s.ring.free, s.ring.freeIdx, e⟩])
    (hlog : x.logReserved = (s.writer w).logReserved) :
    Ledger ⟨s.ring.insert e, s.reserved, holder, flags, update s.writer w x⟩ := by
  refine h.change hx (by rw [hlog]) h.le (fun p => ?_) ?_ (fun w' _ y hy => (h.holds w' y hy).insert) ?_ fun w' y hy hy' => ?_
  · have hcount : x.onPage p = (s.writer w).onPage p + if s.ring.free = p then 1 else 0 := by
      simp [Writer.onPage, hplaced, countP_append, countP_singleton]
    rw [hcount]
    by_cases heq : s.ring.free = p
    · subst heq
      simp only [Ring.insert, update_self, if_true]
      omega
    · simp only [Ring.insert, update_of_ne (Ne.symm heq), if_neg heq]
      omega
  · rw [hplaced]
    exact forall_mem_append.2 ⟨fun y hy => (h.holds w y hy).insert, forall_mem_singleton.2 (holds_inserted _ e)⟩
  · rw [hplaced]
    refine nodup_append.mpr ⟨h.nodup w, nodup_singleton _, fun a ha b hb => ?_⟩
    rw [mem_singleton.mp hb]
    exact (h.holds w a ha).not_inserted
  · rw [hplaced] at hy
    obtain hy | hy := mem_append.mp hy
    · exact h.apart w w' y hy hy'
    · exact absurd (mem_singleton.mp hy) (h.holds w' y hy').not_inserted

theorem Ledger.put (hy : y ∈ (s.writer w).placed)
    (hpending : ring.pending = update s.ring.pending y.page (s.ring.pending y.page - 1))
    (hsize : ring.size = s.ring.size) (hfree : ring.free = s.ring.free) (hidx : ring.freeIdx = s.ring.freeIdx)
    (hmem : ∀ q j, ¬ (q = y.page ∧ j = y.idx) → (ring.mem q).entries j = (s.ring.mem q).entries j) (hx : Budget x)
    (hplaced : x.placed = (s.writer w).placed.erase y) (hlog : x.logReserved = (s.writer w).logReserved) :
    Ledger ⟨ring, s.reserved, holder, flags, update s.writer w x⟩ := by
  have hkeep : ∀ z, s.ring.Holds z → z ≠ y → ring.Holds z := fun z hz hne =>
    ⟨(hmem _ _ fun heq => hne ((h.holds w y hy).eq_of_place hz heq.1 heq.2)).trans hz.1, by rw [hfree, hidx]; exact hz.2⟩
  have hsub : ∀ z ∈ x.placed, z ∈ (s.writer w).placed ∧ z ≠ y := fun z hz => by
    rw [hplaced] at hz
    exact ⟨mem_of_mem_erase hz, ((h.nodup w).mem_erase_iff.mp hz).1⟩
  refine h.change hx (by rw [hlog]) ?_ (fun p => ?_) (fun z hz => hkeep z (h.holds w z (hsub z hz).1) (hsub z hz).2)
    (fun w' hne z hz => hkeep z (h.holds w' z hz) ?_) ?_ fun w' z hz => h.apart w w' z (hsub z hz).1
  · rw [Ring.freeLogEntries, hsize]
    exact h.le
  · have hpend : (s.writer w).onPage p ≤ s.ring.pending p := by
      rw [h.pending]
      exact Finset.single_le_sum (f := fun w => (s.writer w).onPage p) (fun _ _ => Nat.zero_le _) (Finset.mem_univ w)
    have hcount : x.onPage p = (s.writer w).onPage p - if y.page = p then 1 else 0 := by
      simp [Writer.onPage, hplaced, countP_erase, hy]
    rw [hpending, hcount]
    by_cases heq : y.page = p
    · have hpos : 0 < (s.writer w).onPage p := countP_pos_iff.mpr ⟨y, hy, by simpa using heq⟩
      rw [heq, update_self, if_pos rfl]
      omega
    · rw [update_of_ne (Ne.symm heq), if_neg heq]
      omega
  · rintro rfl
    exact hne (h.apart w' w z hz hy)
  · rw [hplaced]
    exact (h.nodup w).erase y

end

theorem Budget.setPhase (h : Budget x) {p : Phase} (hx : x.phase ≠ .idle) (hi : p ≠ .idle) (hs : p ≠ .scanning) :
    Budget { x with phase := p } :=
  { h with idle := fun hp => absurd hp hi, scanning := fun hp => absurd hp hs, reserved := fun _ => h.reserved hx }

theorem Budget.log {unlogged : List Obj} {updates : List Nat} {placed : List Placed} {inserted : Nat} (h : Budget x)
    (hp : x.phase = .logging round)
    (htotal : inserted + unlogged.length + updates.length ≤ x.made.length + x.req.pages) :
    Budget { x with unlogged, updates, placed, inserted } :=
  ⟨fun hi => absurd (hp.symm.trans hi) nofun, h.nodup, h.mine, fun hi => absurd (hp.symm.trans hi) nofun, htotal,
    fun _ => h.reserved (by simp [hp])⟩

theorem Goes.phase_ne {flags : Obj → Option Flags} {p : Phase} (h : Goes flags x p) :
    x.phase ≠ .idle ∧ p ≠ .idle ∧ p ≠ .scanning := by
  cases h with
  | check hp => rcases hp with hp | hp <;> simp [hp]
  | pages failed hp => cases failed <;> simp [hp]
  | log hp | pass hp | amaps hp | done hp => simp [hp]

theorem WriterOk.not_made {flags : Obj → Option Flags} (h : WriterOk flags x) (ho : flags o = none) :
    o ∉ x.made := fun hm => by
  by_cases hu : o ∈ x.unlogged
  · simp [h.unlogged_new o hu] at ho
  · obtain ⟨f, hf, -⟩ := h.made_settled o hm hu
    simp [hf] at ho

theorem Ledger.make (h : Ledger s) (hs : s.Ok) (hp : (s.writer w).phase = .scanning)
    (hlba : (s.writer w).req.Has lba) (ho : s.flags o = none)
    (hmine : o = tableOf (s.writer w).req.target lba ∨ o = amapOf (s.writer w).req.target lba) :
    Ledger (s.make w o) := by
  have hb := h.budget w
  refine h.of_writer ⟨?_, ?_, ?_, ?_, ?_, ?_⟩ rfl rfl
  · intro hi
    cases hp.symm.trans hi
  · refine nodup_append.mpr ⟨hb.nodup, nodup_singleton _, fun a ha b hb' => ?_⟩
    rintro rfl
    exact (hs.writer w).not_made ho (mem_singleton.mp hb' ▸ ha)
  · exact forall_mem_append.2 ⟨hb.mine, forall_mem_singleton.2 ⟨lba, hlba, hmine⟩⟩
  · intro hi
    have := hb.scanning hp
    simp only [length_append, length_singleton]
    omega
  · have := hb.total
    simp only [length_append, length_singleton]
    omega
  · exact fun _ => hb.reserved (by simp [hp])

theorem Ledger.endScan (h : Ledger s) {updates : List Nat} {failed : Bool} (hp : (s.writer w).phase = .scanning)
    (hnodup : updates.Nodup) (hhas : ∀ lba ∈ updates, (s.writer w).req.Has lba) :
    Ledger (s.run (.endScan w updates failed)) := by
  have hb := h.budget w
  have hscan := hb.scanning hp
  have hlen := length_updates_le hnodup hhas
  have hbudget : ∀ p sync, p ≠ .idle → p ≠ .scanning →
      Budget { s.writer w with phase := p, sync, updates, failed } :=
    fun p sync hi hs => ⟨fun hp' => absurd hp' hi, hb.nodup, hb.mine, fun hp' => absurd hp' hs,
      Nat.add_le_add hscan hlen, fun _ => hb.reserved (by simp [hp])⟩
  simp only [State.run]
  split
  · exact h.of_writer (hbudget .logged [] (by simp) (by simp)) rfl rfl
  · exact h.of_writer (hbudget (.before .tables) _ (by simp) (by simp)) rfl rfl

theorem Ledger.insertMade (h : Ledger s) (hp : (s.writer w).phase = .logging round) (ho : o ∈ (s.writer w).unlogged) :
    Ledger ((s.insertEntry w (.made o)).setFlags o fun f => { f with logDone := true }) := by
  refine h.insert ((h.budget w).log hp ?_) rfl rfl
  have hlen := length_erase_of_mem ho
  have hpos := length_pos_of_mem ho
  have htotal := (h.budget w).total
  omega

theorem Ledger.insertData (h : Ledger s) {rest : List Nat}
    (hp : (s.writer w).phase = .logging round) (hu : (s.writer w).updates = lba :: rest) :
    Ledger (s.insertEntry w (.data (s.writer w).req.target lba)) := by
  refine h.insert ((h.budget w).log hp ?_) rfl rfl
  have htotal := (h.budget w).total
  simp only [hu, tail_cons, length_cons] at htotal ⊢
  omega

theorem Budget.put (h : Budget x) (hp : x.phase ≠ .idle) (l : List Placed) :
    Budget { x with placed := l } := { h with idle := fun hi => absurd hi hp }

theorem Ledger.step {a : Action N} (h : Ledger s) (hs : s.Ok) (ha : s.allowed a) : Ledger (s.run a) := by
  cases a with
  | reserve w req =>
    have hidle := (h.budget w).idle ha.1
    refine h.reserve ?_ ha.2 ?_ (by rw [hidle])
    · rw [hidle]
      rfl
    · constructor <;> simp [Writer.idle]
  | makeTable w lba => exact h.make hs ha.1 ha.2.1 ha.2.2 (.inl rfl)
  | makeAmap w lba => exact h.make hs ha.1 ha.2.1 ha.2.2.2 (.inr rfl)
  | useAmap w lba =>
    have hb := h.budget w
    simp only [State.run]
    split
    · exact h
    · exact h.of_writer { hb with idle := fun hi => by cases ha.1.symm.trans hi } rfl rfl
  | endScan w updates failed => exact h.endScan ha.1 ha.2.1 fun lba hl => (ha.2.2.2 lba hl).1
  | skip w | lock w | unlock w | check w =>
    obtain ⟨holder, p, hrun, hp⟩ := State.run_turn (hs.writer w) ha rfl
    obtain ⟨hx, hi, hscan⟩ := hp.phase_ne
    rw [hrun]
    exact h.of_writer ((h.budget w).setPhase hx hi hscan) rfl rfl
  | rotate w => exact h.rotate ha.2
  | leave w => exact h.leave hs.ring
  | insert w =>
    obtain ⟨round, hp, hn, -⟩ := ha
    obtain ⟨o, ho, hrun⟩ | ⟨lba, rest, rfl, hu, hrun⟩ := State.run_insert hp hn
    · rw [hrun]
      exact h.insertMade hp ho
    · rw [hrun]
      exact h.insertData hp hu
  | clearNew w lba o | forget o | flush p => exact h.of_ring rfl rfl h.holds
  | put w p error =>
    obtain ⟨hp, hy⟩ := ha
    have hb := (h.budget w).put (by simp [hp]) ((s.writer w).placed.erase p)
    simp only [State.run]
    split
    · exact h.put hy rfl rfl rfl rfl (fun q j hne => mem_clear_entries hne) hb rfl rfl
    · exact h.put hy rfl rfl rfl rfl (fun q j hne => rfl) hb rfl rfl
  | release w =>
    have hle :=
      h.reserved ▸ Finset.single_le_sum (f := fun w => (s.writer w).logReserved) (fun _ _ => Nat.zero_le _) (Finset.mem_univ w)
    refine h.reserve ?_ ((Nat.sub_le _ _).trans h.le) budget_idle ha.2.symm
    exact Nat.sub_add_cancel hle

end QuadStor.LogRing
