import QuadStor.CompareWrite.Basic

/-!
# What `check_cw_data` finds
-/

namespace QuadStor.CompareWrite

open Lib Command List

open Read (Bytes)

variable {legacy : Bool} {src : List Bytes} {size fuel n : Nat} {x : Cw}

theorem eq_iff_take_drop {l m : Bytes} : l = m ↔ l.take n = m.take n ∧ l.drop n = m.drop n := by
  refine ⟨fun h => by simp [h], fun h => ?_⟩
  rw [← take_append_drop n l, h.1, h.2, take_append_drop]

structure Cw.Ok (src : List Bytes) (x : Cw) : Prop where
  d : x.d.Valid x.dest
  s : x.s.Valid src
  c : x.c.Valid src
  dest : x.d.pos x.dest + x.todo ≤ x.dest.flatten.length
  write : x.s.pos src + x.todo ≤ src.flatten.length
  compare : x.c.pos src + x.todo ≤ src.flatten.length

def Cw.there (x : Cw) : Bytes := (x.dest.flatten.drop (x.d.pos x.dest)).take x.todo

def Cw.expected (src : List Bytes) (x : Cw) : Bytes := (src.flatten.drop (x.c.pos src)).take x.todo

def Cw.merged (src : List Bytes) (x : Cw) : Bytes :=
  overlay x.dest.flatten (x.d.pos x.dest) ((src.flatten.drop (x.s.pos src)).take x.todo)

def Cw.piece (src : List Bytes) (x : Cw) : Nat :=
  min (min (min (x.d.left x.dest) (x.s.left src)) (x.c.left src)) x.todo

theorem piece_le (src : List Bytes) (x : Cw) : x.piece src ≤ x.d.left x.dest ∧ x.piece src ≤ x.s.left src ∧
    x.piece src ≤ x.c.left src ∧ x.piece src ≤ x.todo := by
  rw [Cw.piece]
  omega

theorem failed_step (legacy : Bool) (src : List Bytes) (size : Nat) (x : Cw) : (x.step legacy src size).failed.isSome = true ↔
    x.failed.isSome = true ∨ x.there.take (x.piece src) ≠ (x.expected src).take (x.piece src) := by
  obtain ⟨hd, hs, hc, htodo'⟩ := piece_le src x
  have hthere : x.there.take (x.piece src) = x.d.slice x.dest (x.piece src) := by
    rw [Cw.there, take_take, Nat.min_eq_left htodo', Cursor.slice_eq hd]
  have hexpected : (x.expected src).take (x.piece src) = x.c.slice src (x.piece src) := by
    rw [Cw.expected, take_take, Nat.min_eq_left htodo', Cursor.slice_eq hc]
  rw [hthere, hexpected]
  show (if x.failed.isNone && x.d.slice x.dest (x.piece src) != x.c.slice src (x.piece src) then some _
    else x.failed).isSome = true ↔ _
  cases x.failed with
  | none | some at' => simp

section Step

variable (h : x.Ok src) (htodo : 0 < x.todo)
include h htodo

theorem Cw.Ok.piece_pos : 0 < x.piece src := by
  have hd := Cursor.left_pos h.d (by have := h.dest; omega)
  have hs := Cursor.left_pos h.s (by have := h.write; omega)
  have hc := Cursor.left_pos h.c (by have := h.compare; omega)
  rw [Cw.piece]
  omega

theorem Cw.Ok.pos_step : (x.step legacy src size).d.pos (x.step legacy src size).dest =
    x.d.pos x.dest + x.piece src := by
  rw [Cursor.pos_congr (map_length_step legacy src size x)]
  exact Cursor.pos_advance (piece_le src x).1 (h.piece_pos htodo)

theorem Cw.Ok.step : (x.step legacy src size).Ok src := by
  obtain ⟨hd, hs, hc, htodo'⟩ := piece_le src x
  have hpos := h.piece_pos htodo
  have hleft : (x.step legacy src size).todo = x.todo - x.piece src := rfl
  refine ⟨(h.d.advance hd hpos).congr (map_length_step legacy src size x), h.s.advance hs hpos,
    h.c.advance hc hpos, ?_, ?_, ?_⟩
  · have := h.dest
    rw [h.pos_step htodo, Cursor.length_flatten_congr (map_length_step legacy src size x), hleft]
    omega
  · have := h.write
    show (x.s.advance src (x.piece src)).pos src + _ ≤ _
    rw [Cursor.pos_advance hs hpos]
    omega
  · have := h.compare
    show (x.c.advance src (x.piece src)).pos src + _ ≤ _
    rw [Cursor.pos_advance hc hpos]
    omega

theorem Cw.Ok.flatten_step : (x.step true src size).dest.flatten =
    overlay x.dest.flatten (x.d.pos x.dest) (x.s.slice src (x.piece src)) := by
  obtain ⟨hd, hs, -, -⟩ := piece_le src x
  have hlen := Cursor.length_slice hs
  exact Cursor.flatten_put (hlen.symm ▸ hd) (hlen.symm ▸ h.piece_pos htodo)

theorem Cw.Ok.there_step : (x.step legacy src size).there = x.there.drop (x.piece src) := by
  have hbehind : (x.step legacy src size).dest.flatten.drop (x.d.pos x.dest + x.piece src) =
      x.dest.flatten.drop (x.d.pos x.dest + x.piece src) := by
    cases legacy with
    | false => rfl
    | true =>
      have hlen := Cursor.length_slice (piece_le src x).2.1
      have hdrop := drop_overlay (l := x.dest.flatten) (a := x.s.slice src (x.piece src))
        (p := x.d.pos x.dest) (by have := h.dest; omega)
      rwa [hlen, ← h.flatten_step htodo] at hdrop
  rw [Cw.there, h.pos_step htodo, hbehind, Cw.there, drop_take, drop_drop]
  rfl

theorem Cw.Ok.expected_step : (x.step legacy src size).expected src = (x.expected src).drop (x.piece src) := by
  have hpos : (x.step legacy src size).c.pos src = x.c.pos src + x.piece src :=
    Cursor.pos_advance (piece_le src x).2.2.1 (h.piece_pos htodo)
  rw [Cw.expected, hpos, Cw.expected, drop_take, drop_drop]
  rfl

theorem Cw.Ok.merged_step : (x.step true src size).merged src = x.merged src := by
  obtain ⟨hd, hs, hc, htodo'⟩ := piece_le src x
  have hpos := h.piece_pos htodo
  have hlen := Cursor.length_slice hs
  have hat : (x.step true src size).d.pos (x.step true src size).dest =
      x.d.pos x.dest + (x.s.slice src (x.piece src)).length := by rw [hlen, h.pos_step htodo]
  rw [Cw.merged, hat, h.flatten_step htodo, overlay_overlay (by have := h.dest; omega), Cw.merged,
    Cursor.take_eq_slice_append hs htodo' hpos]
  rfl

end Step

theorem cwLoop_ok (h : x.Ok src) (htodo : 0 < x.todo) (hfuel : x.todo ≤ fuel) :
    ((cwLoop legacy src size fuel x).failed.isSome = true ↔ x.failed.isSome = true ∨ x.there ≠ x.expected src) ∧
    (legacy = true → (cwLoop legacy src size fuel x).dest.flatten = x.merged src) := by
  induction fuel generalizing x with
  | zero => omega
  | succ fuel ih =>
    have hidx : x.s.idx < src.length := Cursor.idx_lt_of_pos_lt (by have := h.write; omega)
    simp only [cwLoop, if_neg (Nat.not_le.mpr hidx)]
    have hsplit : x.there ≠ x.expected src ↔ x.there.take (x.piece src) ≠ (x.expected src).take (x.piece src) ∨
          (x.step legacy src size).there ≠ (x.step legacy src size).expected src := by
      rw [h.there_step htodo, h.expected_step htodo, Ne, eq_iff_take_drop (n := x.piece src)]
      tauto
    have hfailed := failed_step legacy src size x
    split_ifs with hdone
    · have hnothing : (x.step legacy src size).there = (x.step legacy src size).expected src := by
        simp [Cw.there, Cw.expected, hdone]
      refine ⟨by rw [hfailed, hsplit]; simp [hnothing], fun hl => ?_⟩
      subst hl
      have hmerged : (x.step true src size).merged src = x.merged src := h.merged_step htodo
      rw [← hmerged, Cw.merged, hdone]
      simp
    · have hrest : (x.step legacy src size).todo < x.todo := by
        have := h.piece_pos htodo
        have : (x.step legacy src size).todo = x.todo - x.piece src := rfl
        omega
      obtain ⟨hend, hmerged⟩ := ih (h.step htodo) (Nat.pos_of_ne_zero hdone) (by omega)
      refine ⟨by rw [hend, hfailed, hsplit, or_assoc], fun hl => ?_⟩
      subst hl
      rw [hmerged rfl, h.merged_step htodo]


variable {v : Volume}

theorem pglistCnt_eq {n : Nat} (h : n < 2 ^ 20) : n * 2 ^ v.lbaShift ≤ transferLengthToPglistCnt v.lbaShift n * 4096 ∧
      (0 < n → 0 < transferLengthToPglistCnt v.lbaShift n) := by
  obtain ⟨-, hshift, -⟩ | ⟨-, hshift, -⟩ := v.cases
  · rw [hshift, pglistCnt_legacy]
    omega
  · simp [hshift, transferLengthToPglistCnt]

variable (r : Request v)
include r

theorem length_src : ∀ p ∈ r.src, p.length = 4096 := by
  simp only [Request.src, mem_map, forall_exists_index, and_imp, forall_apply_eq_imp_iff₂]
  exact fun p _ => p.length_bytes

theorem size_pos : 0 < r.size := Nat.mul_pos r.transferLength_pos (Nat.two_pow_pos _)

theorem two_size_le : 2 * r.size ≤ r.src.flatten.length := by
  have hlt := r.transferLength_lt
  have hcnt := (pglistCnt_eq (v := v) (show 2 * r.transferLength < 2 ^ 20 by omega)).1
  rw [Cursor.length_flatten_uniform (length_src r), Request.src, length_map, r.length_pages, Request.size,
    ← Nat.mul_assoc]
  exact hcnt

theorem flatten_dest : r.dest.flatten = v.bytes (v.lbaReal r.lba * 4096) (r.dest.length * 4096) := by
  rw [← flatMap_page, Request.dest, length_map, length_range, flatMap_def]

theorem size_le_dest : v.lbaDiff r.lba * 2 ^ v.lbaShift + r.size ≤ r.dest.length * 4096 ∧ 0 < r.dest.length := by
  have hdiff : v.lbaDiff r.lba < 8 := by
    rw [Geometry.lbaDiff]
    split_ifs <;> omega
  have hlt := r.transferLength_lt
  obtain ⟨hcnt, hpos⟩ := pglistCnt_eq (v := v) (show r.transferLength + v.lbaDiff r.lba < 2 ^ 20 by omega)
  rw [Nat.add_mul] at hcnt
  rw [Request.dest, length_map, length_range, Request.size]
  exact ⟨by omega, hpos (Nat.add_pos_left r.transferLength_pos _)⟩

theorem pos_d : r.start.d.pos r.dest = v.lbaDiff r.lba * 2 ^ v.lbaShift := by
  simp [Request.start, Lib.Cursor.pos]

theorem idx_lt_src : r.size / 4096 < r.src.length := by
  have hlen := two_size_le r
  have hpos := size_pos r
  rw [Cursor.length_flatten_uniform (length_src r)] at hlen
  omega

theorem pos_s : r.start.s.pos r.src = r.size := by
  rw [Cursor.pos_uniform (length_src r) (Nat.le_of_lt (idx_lt_src r))]
  show r.size / 4096 * 4096 + r.size % 4096 = r.size
  omega

theorem start_ok : r.start.Ok r.src := by
  have hsrc := two_size_le r
  obtain ⟨hdest, hpos⟩ := size_le_dest r
  have hoff := v.lbaDiff_mul_lt r.lba
  have hshift := Nat.two_pow_pos v.lbaShift
  rw [Nat.succ_mul] at hoff
  have hoffset : v.lbaDiff r.lba * 2 ^ v.lbaShift < 4096 := by omega
  refine ⟨Cursor.valid_uniform (length_dest r) hpos hoffset,
    Cursor.valid_uniform (length_src r) (idx_lt_src r) (Nat.mod_lt _ (Nat.succ_pos _)),
    Cursor.valid_uniform (length_src r) (Nat.zero_lt_of_lt (idx_lt_src r)) (Nat.succ_pos _), ?_, ?_, ?_⟩
  · show r.start.d.pos r.dest + r.size ≤ r.dest.flatten.length
    rw [pos_d, Cursor.length_flatten_uniform (length_dest r)]
    exact hdest
  · rw [pos_s]
    show r.size + r.size ≤ _
    omega
  · show 0 + r.size ≤ _
    omega

theorem stored_eq : r.stored = v.bytes (r.lba * 2 ^ v.lbaShift) r.size := flatMap_block

theorem checkCwData_ok : ((checkCwData r).failed.isSome = true ↔ r.stored ≠ r.compare) ∧
      (v.legacy = true → (checkCwData r).dest.flatten =
        overlay r.dest.flatten (v.lbaDiff r.lba * 2 ^ v.lbaShift) r.write) := by
  obtain ⟨hfailed, hmerged⟩ : ((checkCwData r).failed.isSome = true ↔
      r.start.failed.isSome = true ∨ r.start.there ≠ r.start.expected r.src) ∧
        (v.legacy = true → (checkCwData r).dest.flatten = r.start.merged r.src) :=
    cwLoop_ok (start_ok r) (size_pos r) (Nat.le_refl r.size)
  have hthere : r.start.there = r.stored := by
    have hslice := bytes_slice (v := v) (a := v.lbaReal r.lba * 4096) (size_le_dest r).1
    rw [v.lbaReal_mul_add, ← stored_eq, ← flatten_dest] at hslice
    show (r.dest.flatten.drop (r.start.d.pos r.dest)).take r.size = _
    rw [pos_d, hslice]
  have hexpected : r.start.expected r.src = r.compare := by
    rfl
  refine ⟨?_, fun hl => ?_⟩
  · rw [← hthere, ← hexpected]
    exact hfailed.trans (or_iff_right (by simp [Request.start]))
  · rw [hmerged hl, Cw.merged, pos_s]
    show overlay r.dest.flatten (r.start.d.pos r.dest) _ = _
    rw [pos_d]
    rfl

end QuadStor.CompareWrite
