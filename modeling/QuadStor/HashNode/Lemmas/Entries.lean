import QuadStor.HashNode.Basic
import QuadStor.Lib.Fields

/-!
# Entries and the clearing pass
-/

namespace QuadStor.HashNode

open Lib List

variable {find : Nat → Option Disk} {page : Page} {node node' : Node} {e : Entry}

theorem toNat_blockBid (b : BitVec 64) : blockBid b = b.toNat / 2 ^ 38 % 2 ^ 9 := by
  have hmask : blockBid b = (b >>> 38).toNat % 2 ^ 9 := Fields.toNat_and_mask (n := 9) (by decide)
  rw [hmask, BitVec.toNat_ushiftRight, Nat.shiftRight_eq_div_pow]

theorem toNat_blockBlocknr (b : BitVec 64) : blockBlocknr b = b.toNat % 2 ^ 38 :=
  Fields.toNat_and_mask (n := 38) (by decide)

theorem toNat_sizeBits (b : BitVec 64) : ((b >>> 47) &&& 0x7#64).toNat = b.toNat / 2 ^ 47 % 2 ^ 3 := by
  have hmask : ((b >>> 47) &&& 0x7#64).toNat = (b >>> 47).toNat % 2 ^ 3 := Fields.toNat_and_mask (n := 3) (by decide)
  rw [hmask, BitVec.toNat_ushiftRight, Nat.shiftRight_eq_div_pow]

def SameBlock (a b : BitVec 64) : Prop := a.toNat % 2 ^ 50 = b.toNat % 2 ^ 50

theorem SameBlock.blockBid_eq {a b : BitVec 64} (h : SameBlock a b) : blockBid a = blockBid b := by
  unfold SameBlock at h
  rw [toNat_blockBid, toNat_blockBid]
  omega

theorem SameBlock.blockBlocknr_eq {a b : BitVec 64} (h : SameBlock a b) : blockBlocknr a = blockBlocknr b := by
  unfold SameBlock at h
  rw [toNat_blockBlocknr, toNat_blockBlocknr]
  omega

theorem SameBlock.lbaBlockSize_eq {a b : BitVec 64} (h : SameBlock a b) : lbaBlockSize a = lbaBlockSize b := by
  unfold SameBlock at h
  have hbits : ((a >>> 47) &&& 0x7#64).toNat = ((b >>> 47) &&& 0x7#64).toNat := by
    rw [toNat_sizeBits, toNat_sizeBits]
    omega
  rw [lbaBlockSize, lbaBlockSize, hbits]

theorem toNat_amapBlock (e : Entry) : e.amapBlock.toNat = e.block.toNat % 2 ^ 50 :=
  Fields.toNat_and_mask (n := 50) (by decide)

theorem Page.toNat_block_lt (page : Page) : page.block.toNat < 2 ^ 50 := Fields.toNat_setWidth_lt _

theorem Page.amapBlock_entry (page : Page) (curtime : BitVec 64) : (page.entry curtime).amapBlock = page.block := by
  have hmask : (curtime &&& 0x3FFF#64).toNat = curtime.toNat % 2 ^ 14 := Fields.toNat_and_mask (n := 14) (by decide)
  exact Fields.join_and_mask (n := 50) (by decide) page.toNat_block_lt (by omega)

theorem Page.sameBlock_entry (page : Page) (curtime : BitVec 64) : SameBlock (page.entry curtime).block page.block := by
  rw [← page.amapBlock_entry curtime, SameBlock, toNat_amapBlock, Nat.mod_mod]

theorem Page.entry_block_ne_zero (page : Page) (curtime : BitVec 64) : (page.entry curtime).block ≠ 0 := by
  intro h
  apply Fields.setWidth_ne_zero (w := 64) (by decide) page.ne_zero
  have hblock := page.amapBlock_entry curtime
  rw [Entry.amapBlock, h] at hblock
  exact hblock.symm

theorem not_blockEntryValid {a m b n x : Nat} (ha : a ≤ x ∧ x < a + m) (hb : b ≤ x ∧ x < b + n) :
    DDTable.blockEntryValid a m b n = false := by
  unfold DDTable.blockEntryValid
  split
  · rfl
  · rw [if_pos (by omega)]

theorem Overlap.symm {a b : Entry} (h : Overlap find a b) : Overlap find b a := by
  obtain ⟨hbid, d, hd, hid, x, ha, hb⟩ := h
  exact ⟨hbid.symm, d, hbid ▸ hd, hid.symm, x, hb, ha⟩

theorem not_overlap_entry (hdisk : find page.bint.bid = some page.bint) {curtime : BitVec 64}
    (hkeep : keepEntry page e) : ¬Overlap find e (page.entry curtime) := by
  rintro ⟨hbid, d, hd, hid, x, he, hp⟩
  have hsame := page.sameBlock_entry curtime
  have hpage := hsame.blockBid_eq.trans page.bid_eq
  have hebid := hbid.trans hpage
  obtain rfl : page.bint = d := by
    rw [hebid, hdisk] at hd
    exact Option.some.inj hd
  rw [hsame.blockBlocknr_eq] at hid
  unfold Entry.Covers at he hp
  rw [hsame.blockBlocknr_eq, hsame.lbaBlockSize_eq] at hp
  simp only [keepEntry, hebid, hid, ne_eq, not_true_eq_false, if_false, not_blockEntryValid hp he] at hkeep
  cases hkeep

structure Thinned (node node' : Node) : Prop where
  length_eq : node'.length = node.length
  get : ∀ {i : Nat} {e : Entry}, node'[i]? = some e → e.block = 0 ∨ node[i]? = some e

theorem Thinned.map {f : Entry → Entry} (hf : ∀ e, (f e).block = 0 ∨ f e = e) (node : Node) :
    Thinned node (node.map f) := by
  refine ⟨length_map _, ?_⟩
  intro i e hi
  rw [getElem?_map] at hi
  cases hget : node[i]? with
  | none =>
    rw [hget] at hi
    cases hi
  | some a =>
    rw [hget] at hi
    obtain rfl : f a = e := Option.some.inj hi
    rcases hf a with hzero | heq
    · exact .inl hzero
    · exact .inr (by rw [heq])

theorem Node.Consistent.thinned (h : node.Consistent find) (ht : Thinned node node') : node'.Consistent find := by
  refine ⟨ht.length_eq ▸ h.length_le, ?_⟩
  intro i j a b hij ha hb hane hbne
  rcases ht.get ha with hzero | ha
  · exact absurd hzero hane
  rcases ht.get hb with hzero | hb
  · exact absurd hzero hbne
  exact h.apart hij ha hb hane hbne

def Entry.cleared (page : Page) (e : Entry) : Entry := if e.block = 0 ∨ keepEntry page e then e else .zero

theorem Entry.cleared_or (page : Page) (e : Entry) : (e.cleared page).block = 0 ∨ e.cleared page = e := by
  unfold Entry.cleared
  split
  · exact .inr rfl
  · exact .inl rfl

theorem Entry.cleared_ne_zero : (e.cleared page).block ≠ 0 ↔ e.block ≠ 0 ∧ keepEntry page e := by
  unfold Entry.cleared
  split
  · rename_i h
    constructor
    · intro hne
      exact ⟨hne, h.resolve_left hne⟩
    · exact fun hne => hne.1
  · rename_i h
    constructor
    · exact fun hne => absurd rfl hne
    · exact fun hne => absurd (.inr hne.2) h

theorem clearLoop_cons (page : Page) (i : Nat) (e : Entry) (rest : Node) (last : Option Nat) :
    clearLoop page i (e :: rest) last =
      let r := clearLoop page (i + 1) rest (if (e.cleared page).block = 0 then some i else last)
      (e.cleared page :: r.1, r.2) := by
  rw [clearLoop]
  by_cases hb : e.block = 0
  · have hcleared : e.cleared page = e := if_pos (.inl hb)
    rw [if_pos hb, hcleared, if_pos hb]
  · by_cases hkeep : keepEntry page e
    · have hcleared : e.cleared page = e := if_pos (.inr hkeep)
      rw [if_neg hb, if_pos hkeep, hcleared, if_neg hb]
    · have hcleared : e.cleared page = .zero := if_neg (not_or.2 ⟨hb, hkeep⟩)
      rw [if_neg hb, if_neg hkeep, hcleared]
      rfl

theorem clearLoop_spec (page : Page) (i : Nat) (node : Node) (last : Option Nat) :
    (clearLoop page i node last).1 = node.map (Entry.cleared page) ∧ (∀ j, (clearLoop page i node last).2 = some j →
        last = some j ∨ ∃ n e, j = i + n ∧ node[n]? = some e ∧ (e.cleared page).block = 0) ∧
      ((clearLoop page i node last).2 = none → last = none ∧ ∀ e ∈ node, (e.cleared page).block ≠ 0) := by
  induction node generalizing i last with
  | nil => exact ⟨rfl, fun j hj => .inl hj, fun hnone => ⟨hnone, nofun⟩⟩
  | cons e rest ih =>
    obtain ⟨hmap, hsome, hnone⟩ := ih (i + 1) (if (e.cleared page).block = 0 then some i else last)
    rw [clearLoop_cons]
    refine ⟨congrArg _ hmap, fun j hj => ?_, fun hn => ?_⟩
    · rcases hsome j hj with hlast | ⟨n, a, rfl, ha, hzero⟩
      · split_ifs at hlast with hzero
        · exact .inr ⟨0, e, (Option.some.inj hlast).symm, rfl, hzero⟩
        · exact .inl hlast
      · exact .inr ⟨n + 1, a, by omega, ha, hzero⟩
    · obtain ⟨hlast, hrest⟩ := hnone hn
      split_ifs at hlast with hzero
      exact ⟨hlast, forall_mem_cons.2 ⟨hzero, hrest⟩⟩

end QuadStor.HashNode
