import QuadStor.Command.Basic
import QuadStor.Lib.Chunks

/-!
# What a write leaves
-/

namespace QuadStor.Command

open Lib List

open Read (Bytes zeroPage)

variable {io : WriteIo} {v : Volume} {lba n k count : Nat} {p : Pgdata} {pages : List Pgdata}

@[simp] theorem length_zeroPage : zeroPage.length = 4096 := length_replicate

@[simp] theorem content_unmapped : Pgdata.unmapped.content = zeroPage := rfl

def Volume.zeroBlock (v : Volume) : Bytes := replicate (2 ^ v.lbaShift) 0

theorem block_of_zero (h : v.page (v.lbaReal k) = zeroPage) : v.block k = v.zeroBlock := by
  have := v.lbaDiff_mul_lt k
  rw [Nat.succ_mul] at this
  rw [Volume.block, h, zeroPage, Volume.zeroBlock, drop_replicate, take_replicate]
  congr 1
  omega

theorem block_congr {w : Volume} (hlegacy : w.legacy = v.legacy)
    (h : w.page (v.lbaReal k) = v.page (v.lbaReal k)) : w.block k = v.block k := by
  simp only [Volume.block, Geometry.lbaReal, Geometry.lbaDiff, Geometry.lbaShift, hlegacy] at h ⊢
  rw [h]

theorem lbaReal_page (hl : v.legacy = false) (b : Nat) : v.lbaReal b = b := by simp [Geometry.lbaReal, hl]

theorem block_page (hl : v.legacy = false) (b : Nat) : v.block b = v.page b := by
  simp [Volume.block, Geometry.lbaReal, Geometry.lbaDiff, Geometry.lbaShift, hl, take_of_length_le, v.length_page]

@[simp] theorem writePages_endLba : (v.writePages io lba pages).endLba = v.endLba := rfl

@[simp] theorem writePages_legacy : (v.writePages io lba pages).legacy = v.legacy := rfl

theorem page_writePages_of_some (h : pages[k]? = some p) : (v.writePages io lba pages).page (lba + k) =
      if io.skipped lba k p then v.page (lba + k) else p.content := by
  show v.pageAfter io lba pages (lba + k) = _
  rw [Volume.pageAfter, if_neg (by omega), Nat.add_sub_cancel_left, h]

theorem page_writePages_of_not (h : n < lba ∨ lba + pages.length ≤ n) :
    (v.writePages io lba pages).page n = v.page n := by
  show v.pageAfter io lba pages n = _
  rw [Volume.pageAfter]
  split_ifs with hlt
  · rfl
  · have : pages[n - lba]? = none := getElem?_eq_none (by omega)
    rw [this]

theorem page_writePages_replicate : (v.writePages io lba (replicate count p)).page n =
      if lba ≤ n ∧ n < lba + count ∧ io.skipped lba (n - lba) p = false then p.content else v.page n := by
  by_cases hin : lba ≤ n ∧ n < lba + count
  · obtain ⟨k, rfl⟩ := Nat.exists_eq_add_of_le hin.1
    rw [page_writePages_of_some (by rw [getElem?_replicate, if_pos (by omega)]), Nat.add_sub_cancel_left]
    cases io.skipped lba k p with
    | true => simp
    | false => simp [hin]
  · rw [page_writePages_of_not (by rw [length_replicate]; omega), if_neg fun h => hin ⟨h.1, h.2.1⟩]

theorem pglistCnt_whole (h : count < 2 ^ 20) : transferLengthToPglistCnt 9 (count * 8) = count := by
  rw [pglistCnt_legacy]
  omega

theorem checkUnalignedData_aligned (h : v.legacy = true → lba % 8 = 0 ∧ n % 8 = 0) :
    v.checkUnalignedData io lba n pages = some (v.lbaReal lba, pages) := by
  unfold Volume.checkUnalignedData Geometry.lbaReal
  cases hl : v.legacy with
  | false => rfl
  | true =>
    obtain ⟨hdiff, hn⟩ := h hl
    have hsize : (merge lba n).size % 4096 = 0 := by
      simp only [merge, u32]
      omega
    simp only [Bool.not_true, Bool.false_eq_true, if_false, if_true]
    rw [if_pos ⟨hdiff, hsize⟩]

theorem tdiskCmdWrite_aligned (h : v.legacy = true → lba % 8 = 0 ∧ n % 8 = 0) : v.tdiskCmdWrite io lba n pages =
      if v.reachedEom lba n then (v, false) else (v.writePages io (v.lbaReal lba) pages, io.ok) := by
  rw [Volume.tdiskCmdWrite, checkUnalignedData_aligned h]

def quickIo : WriteIo := ⟨true, fun _ => false, fun _ => zeroPage, fun _ => length_zeroPage⟩

theorem quickIo_skipped (lba i : Nat) (p : Pgdata) : quickIo.skipped lba i p = false := rfl

def quickPglist : PglistIo := ⟨true, quickIo⟩

def zeroVolume (legacy : Bool) : Volume := ⟨⟨⟨8, legacy⟩, true⟩, fun _ => zeroPage, fun _ => length_zeroPage⟩

def onePage (x : UInt8) : Pgdata := ⟨false, replicate 4096 x, length_replicate⟩

variable {w : Volume} {a b m : Nat}

def Volume.byte (v : Volume) (a : Nat) : UInt8 := (v.page (a / 4096)).getD (a % 4096) 0

def Volume.bytes (v : Volume) (a n : Nat) : Bytes := (range n).map fun j => v.byte (a + j)

@[simp] theorem length_bytes : (v.bytes a n).length = n := by simp [Volume.bytes]

theorem bytes_add : v.bytes a (m + n) = v.bytes a m ++ v.bytes (a + m) n := by
  simp [Volume.bytes, range_add, Nat.add_assoc, Function.comp_def]

theorem bytes_slice (h : k + m ≤ n) : ((v.bytes a n).drop k).take m = v.bytes (a + k) m := by
  obtain ⟨rest, rfl⟩ := Nat.exists_eq_add_of_le h
  rw [Nat.add_assoc, bytes_add, drop_left' length_bytes, bytes_add, take_left' length_bytes]

theorem bytes_eq_iff : v.bytes a n = w.bytes a n ↔ ∀ j, j < n → v.byte (a + j) = w.byte (a + j) := by
  simp [Volume.bytes]

theorem page_eq_bytes : v.page n = v.bytes (n * 4096) 4096 := by
  refine ext_getElem (by simp [v.length_page]) fun j hj hj' => ?_
  have hlt : j < 4096 := Nat.lt_of_lt_of_eq hj (v.length_page n)
  have hdiv : (n * 4096 + j) / 4096 = n := by omega
  have hmod : (n * 4096 + j) % 4096 = j := by omega
  simp only [Volume.bytes, getElem_map, getElem_range, Volume.byte, hdiv, hmod]
  exact (getD_eq_getElem _ _ hj).symm

theorem block_eq_bytes : v.block b = v.bytes (b * 2 ^ v.lbaShift) (2 ^ v.lbaShift) := by
  have hle := v.lbaDiff_mul_lt b
  rw [Nat.succ_mul] at hle
  rw [Volume.block, page_eq_bytes, bytes_slice hle, v.lbaReal_mul_add]

theorem flatMap_page : ((range n).flatMap fun i => v.page (k + i)) = v.bytes (k * 4096) (n * 4096) := by
  induction n with
  | zero => simp [Volume.bytes]
  | succ n ih => rw [flatMap_range_succ, ih, page_eq_bytes, Nat.succ_mul, bytes_add, ← Nat.add_mul]

theorem flatMap_block : ((range n).flatMap fun i => v.block (k + i)) =
    v.bytes (k * 2 ^ v.lbaShift) (n * 2 ^ v.lbaShift) := by
  induction n with
  | zero => simp [Volume.bytes]
  | succ n ih => rw [flatMap_range_succ, ih, block_eq_bytes, Nat.succ_mul, bytes_add, ← Nat.add_mul]

structure Overwrites (v v' : Volume) (a : Nat) (m : Bytes) : Prop where
  endLba : v'.endLba = v.endLba
  legacy : v'.legacy = v.legacy
  byte : ∀ x, v'.byte x = if a ≤ x ∧ x < a + m.length then m.getD (x - a) 0 else v.byte x

namespace Overwrites

variable {v' : Volume} {bytes : Bytes} (h : Overwrites v v' a bytes)
include h

theorem lbaShift : v'.lbaShift = v.lbaShift := Geometry.lbaShift_congr h.legacy

theorem bytes_in (hlen : k + n ≤ bytes.length) : v'.bytes (a + k) n = (bytes.drop k).take n := by
  refine ext_getElem (by simp; omega) fun j hj hj' => ?_
  have hlt : j < n := by simpa using hj
  simp only [Volume.bytes, getElem_map, getElem_range, getElem_take, getElem_drop]
  rw [h.byte, if_pos (by omega), getD_eq_getElem _ _ (by omega)]
  congr 1
  omega

theorem bytes_out (hout : b + n ≤ a ∨ a + bytes.length ≤ b) : v'.bytes b n = v.bytes b n := by
  rw [bytes_eq_iff]
  intro j hj
  rw [h.byte, if_neg (by omega)]

theorem block_in (hle : a ≤ b * 2 ^ v.lbaShift) (hlt : (b + 1) * 2 ^ v.lbaShift ≤ a + bytes.length) :
    v'.block b = (bytes.drop (b * 2 ^ v.lbaShift - a)).take (2 ^ v.lbaShift) := by
  obtain ⟨k, hk⟩ := Nat.exists_eq_add_of_le hle
  rw [Nat.succ_mul] at hlt
  rw [block_eq_bytes, h.lbaShift, hk, h.bytes_in (by omega), Nat.add_sub_cancel_left]

theorem block_out (hout : (b + 1) * 2 ^ v.lbaShift ≤ a ∨ a + bytes.length ≤ b * 2 ^ v.lbaShift) :
    v'.block b = v.block b := by
  rw [Nat.succ_mul] at hout
  rw [block_eq_bytes, h.lbaShift, h.bytes_out hout, block_eq_bytes]

end Overwrites

def Volume.put (v : Volume) (a : Nat) (m : Bytes) : Volume :=
  { v with
    page := fun n => (range 4096).map fun j =>
      if a ≤ n * 4096 + j ∧ n * 4096 + j < a + m.length then m.getD (n * 4096 + j - a) 0 else v.byte (n * 4096 + j)
    length_page := fun n => by simp }

@[simp] theorem put_endLba {bytes : Bytes} : (v.put a bytes).endLba = v.endLba := by simp only [Volume.put]

@[simp] theorem put_legacy {bytes : Bytes} : (v.put a bytes).legacy = v.legacy := by simp only [Volume.put]

theorem overwrites_put (v : Volume) (a : Nat) (m : Bytes) : Overwrites v (v.put a m) a m := by
  refine ⟨put_endLba, put_legacy, fun x => ?_⟩
  have hlt : x % 4096 < 4096 := Nat.mod_lt _ (by decide)
  have hx : x / 4096 * 4096 + x % 4096 = x := by omega
  have hbyte : (v.put a m).byte x = (((range 4096)[x % 4096]?).map fun j =>
      if a ≤ x / 4096 * 4096 + j ∧ x / 4096 * 4096 + j < a + m.length then m.getD (x / 4096 * 4096 + j - a) 0
      else v.byte (x / 4096 * 4096 + j)).getD 0 := by
    rw [← getElem?_map, ← getD_eq_getElem?_getD, Volume.byte, Volume.put]
  rw [hbyte, getElem?_range hlt, Option.map_some, Option.getD_some, hx]

section Put

variable {c d j shift : Nat} (hv : v.lbaShift = shift)
include hv

theorem block_put_in (hw : w.lbaShift = shift) (hj : j < n) :
    (v.put (c * 2 ^ shift) (w.bytes (d * 2 ^ shift) (n * 2 ^ shift))).block (c + j) = w.block (d + j) := by
  have hin := (overwrites_put v (c * 2 ^ shift) (w.bytes (d * 2 ^ shift) (n * 2 ^ shift))).block_in (b := c + j)
    (by rw [hv]; exact Nat.mul_le_mul_right _ (Nat.le_add_right _ _))
    (by rw [hv, length_bytes, ← Nat.add_mul]; exact Nat.mul_le_mul_right _ (by omega))
  rw [hin, hv, Nat.add_mul, Nat.add_sub_cancel_left,
    bytes_slice (by rw [← Nat.succ_mul]; exact Nat.mul_le_mul_right _ hj), block_eq_bytes, hw, ← Nat.add_mul]

theorem block_put_out (hb : b < c ∨ c + n ≤ b) : (v.put (c * 2 ^ shift) (w.bytes a (n * 2 ^ shift))).block b = v.block b := by
  refine (overwrites_put v _ _).block_out ?_
  rw [hv, length_bytes, ← Nat.add_mul]
  exact hb.imp (fun hb => Nat.mul_le_mul_right _ hb) fun hb => Nat.mul_le_mul_right _ hb

end Put

theorem bytes_put {bytes : Bytes} {p : Nat} (h : p + bytes.length ≤ n) :
    (v.put (a + p) bytes).bytes a n = overlay (v.bytes a n) p bytes := by
  refine ext_getElem? fun j => ?_
  rw [getElem?_overlay (by simpa using h)]
  obtain hlt | hge := Nat.lt_or_ge j n
  · have hget : ∀ w : Volume, (w.bytes a n)[j]? = some (w.byte (a + j)) := by
      simp [Volume.bytes, hlt]
    have hin : a + p ≤ a + j ∧ a + j < a + p + bytes.length ↔ p ≤ j ∧ j < p + bytes.length := by omega
    have hsub : a + j - (a + p) = j - p := by omega
    rw [hget, hget, (overwrites_put v (a + p) bytes).byte, hsub]
    simp only [hin]
    split_ifs with hnew
    · rw [getD_eq_getElem?_getD, getElem?_eq_getElem (by omega)]
      rfl
    · rfl
  · rw [getElem?_eq_none (by simpa using hge), if_neg (by omega), getElem?_eq_none (by simpa using hge)]

theorem page_put_of_not {bytes : Bytes} (h : (n + 1) * 4096 ≤ a ∨ a + bytes.length ≤ n * 4096) :
    (v.put a bytes).page n = v.page n := by
  rw [Nat.succ_mul] at h
  rw [page_eq_bytes, page_eq_bytes, (overwrites_put v a bytes).bytes_out h]

structure Carries (v w : Volume) (k : Nat) (pages : List Pgdata) : Prop where
  content : ∀ i q, pages[i]? = some q → q.content = w.page (k + i)
  others : ∀ n, n < k ∨ k + pages.length ≤ n → w.page n = v.page n

theorem written_or_out (n k : Nat) (pages : List Pgdata) :
    (∃ i q, n = k + i ∧ pages[i]? = some q) ∨ n < k ∨ k + pages.length ≤ n := by
  by_cases hin : k ≤ n ∧ n < k + pages.length
  · exact .inl ⟨n - k, _, by omega, getElem?_eq_getElem (by omega)⟩
  · omega

theorem Carries.page (h : Carries v w k pages)
    (hskip : ∀ i q, n = k + i → pages[i]? = some q → io.skipped k i q = false) :
    (v.writePages io k pages).page n = w.page n := by
  obtain ⟨i, q, rfl, hq⟩ | hout := written_or_out n k pages
  · rw [page_writePages_of_some hq, hskip i q rfl hq, h.content i q hq]
    rfl
  · rw [page_writePages_of_not hout, h.others n hout]

theorem carries_put {bytes : Bytes} {p : Nat}
    (hpages : (pages.map Pgdata.content).flatten = overlay (v.bytes (k * 4096) (pages.length * 4096)) p bytes)
    (hlen : p + bytes.length ≤ pages.length * 4096) : Carries v (v.put (k * 4096 + p) bytes) k pages := by
  refine ⟨fun i q hq => ?_, fun n hn => page_put_of_not (by omega)⟩
  obtain ⟨hi, rfl⟩ := List.getElem?_eq_some_iff.mp hq
  have hi' : i < (pages.map Pgdata.content).length := by simpa using hi
  have huniform : ∀ c ∈ pages.map Pgdata.content, c.length = 4096 := by
    simp [Pgdata.length_content]
  have hslice := Cursor.slice_flatten_uniform huniform hi'
  rw [getElem_map] at hslice
  have hle : i * 4096 + 4096 ≤ pages.length * 4096 := by omega
  rw [← hslice, hpages, ← bytes_put hlen, bytes_slice hle, page_eq_bytes, Nat.add_mul]

theorem overwrites_writePages {bytes : Bytes} {p : Nat} (hskip : ∀ i q, pages[i]? = some q → io.skipped k i q = false)
    (hpages : (pages.map Pgdata.content).flatten = overlay (v.bytes (k * 4096) (pages.length * 4096)) p bytes)
    (hlen : p + bytes.length ≤ pages.length * 4096) : Overwrites v (v.writePages io k pages) (k * 4096 + p) bytes := by
  refine ⟨rfl, rfl, fun x => ?_⟩
  rw [Volume.byte, (carries_put hpages hlen).page fun i q _ hq => hskip i q hq]
  exact (overwrites_put v _ bytes).byte x


variable {zero : Nat → Prop}

structure BringsTo (v w : Volume) (zero : Nat → Prop) (k : Nat) (pages : List Pgdata) : Prop where
  legacy : w.legacy = v.legacy
  carries : Carries v w k pages
  zero : ∀ i q, pages[i]? = some q → (q.zero = true ↔ zero (k + i))

def SkippedAt (io : WriteIo) (zero : Nat → Prop) (k n : Nat) : Prop :=
  k < n ∧ io.skips (n - k) = true ∧ amapId n = amapId (n - 1) ∧ zero n

namespace BringsTo

variable (h : BringsTo v w zero k pages) (hok : io.ok = true)
include h hok

theorem skipped_iff {i : Nat} {q : Pgdata} (hq : pages[i]? = some q) :
    io.skipped k i q = true ↔ SkippedAt io zero k (k + i) := by
  simp only [WriteIo.skipped, SkippedAt, hok, Bool.not_true, Bool.false_or, Bool.and_eq_true, bne_iff_ne, beq_iff_eq,
    h.zero i q hq, Nat.add_sub_cancel_left]
  constructor
  · rintro ⟨hskips, ⟨hi, hz⟩, hid⟩
    exact ⟨by omega, hskips, hid, hz⟩
  · rintro ⟨hlt, hskips, hid, hz⟩
    exact ⟨hskips, ⟨by omega, hz⟩, hid⟩

theorem page_of_skipped (hskip : SkippedAt io zero k n) : (v.writePages io k pages).page n = v.page n := by
  obtain ⟨i, q, rfl, hq⟩ | hout := written_or_out n k pages
  · rw [page_writePages_of_some hq, if_pos ((h.skipped_iff hok hq).mpr hskip)]
  · exact page_writePages_of_not hout

theorem page_of_not_skipped (hskip : ¬ SkippedAt io zero k n) : (v.writePages io k pages).page n = w.page n := by
  apply h.carries.page
  rintro i q rfl hq
  exact Bool.eq_false_of_not_eq_true fun hs => hskip ((h.skipped_iff hok hq).mp hs)

theorem block {v' : Volume} (hlegacy : v'.legacy = v.legacy)
    (hpage : ∀ n, v'.page n = (v.writePages io k pages).page n) (b : Nat) :
    (SkippedAt io zero k (v.lbaReal b) → v'.block b = v.block b) ∧
      (¬ SkippedAt io zero k (v.lbaReal b) → v'.block b = w.block b) := by
  constructor
  · intro hskip
    apply block_congr hlegacy
    rw [hpage, h.page_of_skipped hok hskip]
  · intro hskip
    have hreal : w.lbaReal b = v.lbaReal b := by rw [Geometry.lbaReal, Geometry.lbaReal, h.legacy]
    apply block_congr (hlegacy.trans h.legacy.symm)
    rw [hpage, hreal, h.page_of_not_skipped hok hskip]

end BringsTo

end QuadStor.Command
