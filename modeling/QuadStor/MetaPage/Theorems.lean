import QuadStor.Lib.Fields
import QuadStor.MetaPage.Basic

/-!
# Updates and checksums of a page
-/

namespace QuadStor.MetaPage

open Lib Function

variable {kind : Kind}

variable {page page' : Page} {u : Update kind} {v2 : Bool} {m : Metadata} {updates : List (Update kind)}

theorem blockBits_lt : kind.blockBits < 64 := by cases kind <;> decide

theorem entry_before (ix : Fin kind.entries) : ix * kind.blockBits + kind.blockBits ≤ 64 * rawOffset := by
  have hix := ix.isLt
  cases kind with
  | index | amap =>
    simp only [Kind.entries, Kind.blockBits, rawOffset] at hix ⊢
    omega

theorem fits_val (u : Update kind) : Packed.Fits kind.blockBits (u.val.setWidth 64) := by
  intro t ht
  rw [BitVec.getLsbD_setWidth, BitVec.getLsbD_of_ge _ _ ht, Bool.and_false]

theorem getBlock_setBlock : getBlock kind (setBlock kind page u) =
    update (getBlock kind page) u.ix (u.val.setWidth 64) := by
  funext ix
  by_cases hix : ix = u.ix
  · subst hix
    rw [update_self]
    exact Packed.get_set_self blockBits_lt (fits_val u)
  · rw [update_of_ne hix]
    exact Packed.get_set_ne blockBits_lt (fits_val u) fun h => hix (Fin.ext h)

theorem setBlock_rawOffset : setBlock kind page u rawOffset = page rawOffset :=
  Packed.set_above blockBits_lt (fits_val u) (entry_before u.ix)

theorem getBlock_setBlocks :
    getBlock kind (m.setBlocks updates).metadata = written (getBlock kind m.metadata) updates := by
  unfold Metadata.setBlocks written
  generalize m.metadata = page
  induction updates generalizing page with
  | nil => rfl
  | cons u rest ih =>
    simp only [List.foldl_cons] at ih ⊢
    rw [ih, getBlock_setBlock]

section

variable (h : ∀ i, i < rawOffset → page' i = page i)
include h

theorem getBlock_congr : getBlock kind page' = getBlock kind page := by
  funext ix
  exact Packed.get_congr blockBits_lt (entry_before ix) h

theorem foldl_congr {α : Type} {f : α → BitVec 64 → α} {a : α} :
    (List.range rawOffset).foldl (fun a i => f a (page' i)) a = (List.range rawOffset).foldl (fun a i => f a (page i)) a := by
  apply List.foldl_ext
  intro a i hi
  rw [h i (List.mem_range.mp hi)]

theorem calcCsum16_congr : calcCsum16 page' = calcCsum16 page := by
  unfold calcCsum16
  rw [foldl_congr (f := fun csum v => csum + v) h]

theorem calcCsum_congr : calcCsum page' = calcCsum page :=
  foldl_congr (f := fun csum v => csum ^^^ v) h

end

theorem writeCsum_below {stamp : Stamp kind} {i : Nat} (hi : i < rawOffset) :
    (m.writeCsum v2 stamp).metadata i = m.metadata i := update_of_ne (Nat.ne_of_lt hi) _ _

theorem writeCsum_rawOffset {stamp : Stamp kind} :
    (m.writeCsum v2 stamp).metadata rawOffset = trailer v2 m.metadata (m.writeCsum v2 stamp).writeId := by
  simp [Metadata.writeCsum]

theorem trailer_parts (page : Page) {writeId : Nat} (hid : writeId < 2 ^ 48) :
    trailer true page writeId &&& 0xFFFF#64 = (calcCsum16 page).setWidth 64 ∧
      (trailer true page writeId >>> 16).toNat = writeId := by
  have hlo : ((calcCsum16 page).setWidth 64).toNat < 2 ^ 16 := by
    exact (calcCsum16 page).isLt
  have hmod : (BitVec.ofNat 64 writeId).toNat = writeId := by
    exact Nat.mod_eq_of_lt (by omega)
  have hhi : (BitVec.ofNat 64 writeId).toNat * 2 ^ 16 < 2 ^ 64 := by omega
  have hjoin : trailer true page writeId = Fields.join 16 ((calcCsum16 page).setWidth 64) (BitVec.ofNat 64 writeId) := rfl
  rw [hjoin]
  constructor
  · exact Fields.join_and_mask (by decide) hlo hhi
  · rw [Fields.join_ushiftRight hlo hhi, hmod]

theorem checkCsum_writeCsum (stamp : Stamp kind) :
    ((Metadata.load (m.writeCsum v2 stamp).metadata).checkCsum v2).dataError = false ∧
      (v2 = true → ((Metadata.load (m.writeCsum v2 stamp).metadata).checkCsum v2).writeId = (m.writeCsum v2 stamp).writeId) := by
  have hbelow : ∀ i, i < rawOffset → (m.writeCsum v2 stamp).metadata i = m.metadata i := fun i => writeCsum_below
  cases v2 with
  | true =>
    obtain ⟨hcsum, hid⟩ := trailer_parts m.metadata (m.writeCsum true stamp).fits
    constructor
    · simp [Metadata.checkCsum, Metadata.load, writeCsum_rawOffset, calcCsum16_congr hbelow, hcsum]
    · intro _
      simp [Metadata.checkCsum, Metadata.load, writeCsum_rawOffset, hid]
  | false =>
    constructor
    · simp [Metadata.checkCsum, Metadata.load, writeCsum_rawOffset, calcCsum_congr hbelow, trailer]
    · nofun

theorem metadata_checkCsum : (m.checkCsum v2).metadata = m.metadata := by
  unfold Metadata.checkCsum
  split
  · rfl
  · split <;> rfl

theorem writeId_checkCsum (stamp : Stamp kind) (updates : List Nat) :
    ((Metadata.load (m.writeCsum v2 stamp).metadata).checkCsum v2).writeId =
      Fastlog.loadedId v2 ⟨(m.writeCsum v2 stamp).writeId, updates⟩ := by
  cases v2 with
  | true =>
    rw [(checkCsum_writeCsum stamp).2 rfl]
    exact (Nat.mod_eq_of_lt (m.writeCsum true stamp).fits).symm
  | false => rfl

/-- A page that is updated, stamped and loaded again has the write id it was stamped with and the last value of every
entry; an update leaves the other entries and the last word alone. -/
theorem reads_back (kind : Kind) (v2 : Bool) (m : Metadata) (updates : List (Update kind)) (stamp : Stamp kind) :
    let stamped := (m.setBlocks updates).writeCsum v2 stamp
    let loaded := (Metadata.load stamped.metadata).checkCsum v2
    loaded.dataError = false ∧ (v2 = true → loaded.writeId = stamped.writeId) ∧
      getBlock kind loaded.metadata = written (getBlock kind m.metadata) updates ∧
      ∀ page (u : Update kind), (∀ ix, ix ≠ u.ix → getBlock kind (setBlock kind page u) ix = getBlock kind page ix) ∧
        setBlock kind page u rawOffset = page rawOffset := by
  intro stamped loaded
  obtain ⟨hok, hid⟩ : loaded.dataError = false ∧ (v2 = true → loaded.writeId = stamped.writeId) :=
    checkCsum_writeCsum stamp
  refine ⟨hok, hid, ?_, fun page u => ⟨fun ix hix => ?_, setBlock_rawOffset⟩⟩
  · rw [metadata_checkCsum, ← getBlock_setBlocks]
    exact getBlock_congr fun i => writeCsum_below
  · rw [getBlock_setBlock, update_of_ne hix]

end QuadStor.MetaPage
