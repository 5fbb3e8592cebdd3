import Mathlib.Data.List.GetD
import Mathlib.Data.List.TakeDrop

/-!
# Lists of pages

A place in a list of pages is an index and an offset in that page, and no step goes past the end of a page.
-/

namespace QuadStor.Lib

open List

variable {α : Type}

def overlay (l : List α) (p : Nat) (m : List α) : List α := l.take p ++ m ++ l.drop (p + m.length)

section Overlay

variable {l a b : List α} {p : Nat}

@[simp] theorem overlay_nil : overlay l p [] = l := by simp [overlay]

theorem length_overlay (h : p + a.length ≤ l.length) : (overlay l p a).length = l.length := by
  simp only [overlay, length_append, length_take, length_drop]
  omega

theorem drop_overlay (h : p ≤ l.length) : (overlay l p a).drop (p + a.length) = l.drop (p + a.length) :=
  drop_left' (by simp [h])

theorem overlay_overlay (h : p ≤ l.length) : overlay (overlay l p a) (p + a.length) b = overlay l p (a ++ b) := by
  have htake : (overlay l p a).take (p + a.length) = l.take p ++ a := take_left' (by simp [h])
  rw [overlay, htake, ← drop_drop, drop_overlay h, drop_drop, overlay, length_append,
    Nat.add_assoc, append_assoc (l.take p)]

theorem getElem?_overlay (h : p + a.length ≤ l.length) (i : Nat) :
    (overlay l p a)[i]? = if p ≤ i ∧ i < p + a.length then a[i - p]? else l[i]? := by
  have htake : (l.take p).length = p := by
    rw [length_take]
    omega
  rw [overlay, append_assoc, getElem?_append, htake]
  split_ifs with hlt hin hin
  · omega
  · rw [getElem?_take, if_pos hlt]
  · rw [getElem?_append, if_pos (by omega)]
  · rw [getElem?_append, if_neg (by omega), getElem?_drop]
    congr 1
    omega

theorem overlay_all (h : a.length = l.length) : overlay l 0 a = a := by
  simp [overlay, drop_of_length_le, h]

theorem take_overlay_zero : (overlay l 0 a).take a.length = a := by simp [overlay]

theorem overlay_congr {l' : List α} (htake : l.take p = l'.take p)
    (hdrop : l.drop (p + a.length) = l'.drop (p + a.length)) : overlay l p a = overlay l' p a := by
  rw [overlay, overlay, htake, hdrop]

end Overlay

structure Cursor where
  idx : Nat
  offset : Nat
  deriving DecidableEq, Repr

namespace Cursor

variable {pages src : List (List α)} {c d s : Cursor} {n todo fuel i : Nat} {bytes x : List α}

def page (pages : List (List α)) (c : Cursor) : List α := pages.getD c.idx []

def left (pages : List (List α)) (c : Cursor) : Nat := (c.page pages).length - c.offset

def slice (pages : List (List α)) (c : Cursor) (n : Nat) : List α := ((c.page pages).drop c.offset).take n

def advance (pages : List (List α)) (c : Cursor) (n : Nat) : Cursor :=
  if c.offset + n = (c.page pages).length then ⟨c.idx + 1, 0⟩ else ⟨c.idx, c.offset + n⟩

def put (pages : List (List α)) (c : Cursor) (bytes : List α) : List (List α) :=
  pages.modify c.idx fun p => p.take c.offset ++ bytes ++ p.drop (c.offset + bytes.length)

def pos (pages : List (List α)) (c : Cursor) : Nat := (pages.take c.idx).flatten.length + c.offset

/-- There is no empty page, and a place in a page is before its end. -/
structure Valid (pages : List (List α)) (c : Cursor) : Prop where
  nonempty : ∀ p ∈ pages, p ≠ []
  inside : c.idx < pages.length → c.offset < (c.page pages).length
  atEnd : pages.length ≤ c.idx → c.offset = 0

theorem page_eq (h : c.idx < pages.length) : c.page pages = pages[c.idx] := getD_eq_getElem pages [] h

theorem flatten_eq (h : c.idx < pages.length) :
    pages.flatten = (pages.take c.idx).flatten ++ (c.page pages ++ (pages.drop (c.idx + 1)).flatten) := by
  rw [page_eq h, ← flatten_cons, ← drop_eq_getElem_cons h, ← flatten_append, take_append_drop]

theorem idx_lt (h : n ≤ c.left pages) (hn : 0 < n) : c.idx < pages.length := by
  by_contra hge
  rw [left, page, getD_eq_default _ _ (Nat.le_of_not_lt hge)] at h
  simp at h
  omega

theorem idx_lt_of_pos_lt (hpos : c.pos pages < pages.flatten.length) : c.idx < pages.length := by
  by_contra hge
  rw [pos, take_of_length_le (Nat.le_of_not_lt hge)] at hpos
  omega

theorem left_pos (h : c.Valid pages) (hpos : c.pos pages < pages.flatten.length) : 0 < c.left pages := by
  have := h.inside (idx_lt_of_pos_lt hpos)
  rw [left]
  omega

theorem valid_start (h : ∀ p ∈ pages, p ≠ []) : Valid pages ⟨0, 0⟩ := by
  refine ⟨h, fun hpos => ?_, fun _ => rfl⟩
  rw [page_eq hpos]
  exact length_pos_iff.mpr (h _ (getElem_mem hpos))

section Uniform

variable {L : Nat} (h : ∀ p ∈ pages, p.length = L)
include h

theorem length_flatten_uniform : pages.flatten.length = pages.length * L := by
  induction pages with
  | nil => simp
  | cons p rest ih =>
    obtain ⟨hp, hrest⟩ := forall_mem_cons.mp h
    rw [flatten_cons, length_append, ih hrest, hp, length_cons, Nat.succ_mul, Nat.add_comm]

theorem pos_uniform (hidx : c.idx ≤ pages.length) : c.pos pages = c.idx * L + c.offset := by
  rw [pos, length_flatten_uniform fun p hp => h p (mem_of_mem_take hp), length_take, Nat.min_eq_left hidx]

theorem valid_uniform (hidx : c.idx < pages.length) (hoffset : c.offset < L) : c.Valid pages := by
  refine ⟨fun p hp hnil => ?_, fun _ => ?_, fun hge => absurd hidx (Nat.not_lt.mpr hge)⟩
  · have := h p hp
    rw [hnil] at this
    simp at this
    omega
  · rw [page_eq hidx, h _ (getElem_mem hidx)]
    exact hoffset

theorem slice_flatten_uniform (hi : i < pages.length) : (pages.flatten.drop (i * L)).take L = pages[i] := by
  have hflat := flatten_eq (c := ⟨i, 0⟩) hi
  have hlen : (pages.take i).flatten.length = i * L := by
    rw [length_flatten_uniform fun p hp => h p (mem_of_mem_take hp), length_take,
      Nat.min_eq_left (Nat.le_of_lt hi)]
  rw [hflat, drop_left' hlen, page_eq (c := ⟨i, 0⟩) hi, take_left' (h _ (getElem_mem hi))]

theorem take_flatten_uniform {p : Nat} (hx : pages[0]? = some x) (hp : p ≤ L) : pages.flatten.take p = x.take p := by
  obtain ⟨hpos, rfl⟩ := List.getElem?_eq_some_iff.mp hx
  rw [← slice_flatten_uniform h hpos, Nat.zero_mul, drop_zero, take_take, Nat.min_eq_left hp]

theorem drop_flatten_uniform {p : Nat} (hx : pages[i]? = some x) (hlast : pages.length = i + 1) :
    pages.flatten.drop (i * L + p) = x.drop p := by
  obtain ⟨hi, rfl⟩ := List.getElem?_eq_some_iff.mp hx
  have hlen : (pages.flatten.drop (i * L)).length = L := by
    rw [length_drop, length_flatten_uniform h, hlast, Nat.succ_mul, Nat.add_sub_cancel_left]
  rw [← slice_flatten_uniform h hi, take_of_length_le (Nat.le_of_eq hlen), drop_drop]

end Uniform

section

variable (h : n ≤ c.left pages)
include h

theorem slice_eq : c.slice pages n = (pages.flatten.drop (c.pos pages)).take n := by
  obtain rfl | hn := Nat.eq_zero_or_pos n
  · simp [slice]
  · have hidx := idx_lt h hn
    rw [left] at h
    rw [slice, flatten_eq hidx, pos, drop_append, drop_of_length_le (Nat.le_add_right _ _),
      nil_append, Nat.add_sub_cancel_left, drop_append_of_le_length (by omega),
      take_append_of_le_length (by simpa using h)]

theorem length_slice : (c.slice pages n).length = n := by
  rw [slice, length_take, length_drop]
  exact Nat.min_eq_left h

theorem pos_advance (hn : 0 < n) : (c.advance pages n).pos pages = c.pos pages + n := by
  have hidx := idx_lt h hn
  unfold advance
  split_ifs with hend
  · rw [pos, pos, take_succ_eq_append_getElem hidx, flatten_append, length_append, ← page_eq hidx]
    simp only [flatten_singleton]
    omega
  · exact (Nat.add_assoc _ _ _).symm

end

theorem Valid.advance (hc : c.Valid pages) (h : n ≤ c.left pages) (hn : 0 < n) : (c.advance pages n).Valid pages := by
  have hidx := idx_lt h hn
  rw [left] at h
  unfold Cursor.advance
  split_ifs with hend
  · refine ⟨hc.nonempty, fun hlt => ?_, fun _ => rfl⟩
    rw [page_eq hlt]
    exact length_pos_iff.mpr (hc.nonempty _ (getElem_mem hlt))
  · refine ⟨hc.nonempty, fun _ => ?_, fun hge => absurd hidx (Nat.not_lt.mpr hge)⟩
    have : c.offset + n < (c.page pages).length := by omega
    exact this

theorem map_length_put (h : bytes.length ≤ c.left pages) :
    (c.put pages bytes).map length = pages.map length := by
  rw [left] at h
  refine ext_getElem (by simp [put]) fun i hi hi' => ?_
  simp only [put, length_map, length_modify] at hi
  simp only [put, getElem_map, getElem_modify]
  split_ifs with hidx
  · subst hidx
    rw [page_eq hi] at h
    simp only [length_append, length_take, length_drop]
    omega
  · rfl

section Lengths

variable {pages' : List (List α)}

section

variable (h : pages'.map length = pages.map length)
include h

theorem length_page_congr : (c.page pages').length = (c.page pages).length := by
  have hget : (pages'.map length)[c.idx]? = (pages.map length)[c.idx]? := by rw [h]
  simp only [getElem?_map] at hget
  rw [page, page, getD_eq_getElem?_getD, getD_eq_getElem?_getD]
  cases hx : pages'[c.idx]? <;> cases hy : pages[c.idx]? <;> simp_all

theorem pos_congr : c.pos pages' = c.pos pages := by
  rw [pos, pos, length_flatten, length_flatten, map_take, map_take, h]

theorem length_flatten_congr : pages'.flatten.length = pages.flatten.length := by
  rw [length_flatten, length_flatten, h]

theorem Valid.congr (hc : c.Valid pages) : c.Valid pages' := by
  have hlen : pages'.length = pages.length := by simpa using congrArg length h
  refine ⟨fun p hp hnil => ?_, fun hlt => ?_, fun hge => hc.atEnd (hlen ▸ hge)⟩
  · have hmem : 0 ∈ pages.map length := by
      rw [← h]
      exact mem_map.mpr ⟨p, hp, by rw [hnil]; rfl⟩
    obtain ⟨q, hq, hzero⟩ := mem_map.mp hmem
    exact hc.nonempty q hq (length_eq_zero_iff.mp hzero)
  · rw [length_page_congr h]
    exact hc.inside (hlen ▸ hlt)

end

end Lengths

theorem flatten_put (h : bytes.length ≤ c.left pages) (hn : 0 < bytes.length) :
    (c.put pages bytes).flatten = overlay pages.flatten (c.pos pages) bytes := by
  have hidx := idx_lt h hn
  rw [left] at h
  have hoff : c.offset ≤ (c.page pages).length := by omega
  have hput : c.put pages bytes = pages.take c.idx ++
      ((c.page pages).take c.offset ++ bytes ++ (c.page pages).drop (c.offset + bytes.length)) ::
        pages.drop (c.idx + 1) := by
    rw [put, modify_eq_take_cons_drop hidx, page_eq hidx]
  rw [hput, flatten_eq hidx, overlay, pos, take_append, take_of_length_le (Nat.le_add_right _ _),
    Nat.add_sub_cancel_left, take_append_of_le_length hoff, Nat.add_assoc, drop_append,
    drop_of_length_le (Nat.le_add_right _ _), Nat.add_sub_cancel_left,
    drop_append_of_le_length (by omega)]
  simp

/-- `todo` bytes from one list of pages to another; `fuel` bounds the rounds. -/
def copy (src : List (List α)) : Nat → List (List α) → Cursor → Cursor → Nat → List (List α)
  | 0, pages, _, _, _ => pages
  | fuel + 1, pages, d, s, todo =>
    if todo = 0 then pages
    else
      let n := min (min (d.left pages) (s.left src)) todo
      copy src fuel (d.put pages (s.slice src n)) (d.advance pages n) (s.advance src n) (todo - n)

theorem map_length_copy : (copy src fuel pages d s todo).map length = pages.map length := by
  induction fuel generalizing pages d s todo with
  | zero => rfl
  | succ fuel ih =>
    unfold copy
    split_ifs with htodo
    · rfl
    · refine ih.trans (map_length_put ?_)
      rw [length_slice (by omega)]
      omega

theorem take_eq_slice_append (h : n ≤ s.left src) (hle : n ≤ todo) (hn : 0 < n) :
    (src.flatten.drop (s.pos src)).take todo =
      s.slice src n ++ (src.flatten.drop ((s.advance src n).pos src)).take (todo - n) := by
  obtain ⟨k, rfl⟩ := Nat.exists_eq_add_of_le hle
  rw [slice_eq h, pos_advance h hn, ← drop_drop, Nat.add_sub_cancel_left, take_add]

theorem flatten_copy (hfuel : todo ≤ fuel) (hd : d.Valid pages) (hs : s.Valid src)
    (hdest : d.pos pages + todo ≤ pages.flatten.length) (hsrc : s.pos src + todo ≤ src.flatten.length) :
    (copy src fuel pages d s todo).flatten =
      overlay pages.flatten (d.pos pages) ((src.flatten.drop (s.pos src)).take todo) := by
  induction fuel generalizing pages d s todo with
  | zero =>
    obtain rfl := Nat.le_zero.mp hfuel
    simp [copy]
  | succ fuel ih =>
    unfold copy
    split_ifs with htodo
    · subst htodo
      simp
    · have hdl := left_pos hd (by omega)
      have hsl := left_pos hs (by omega)
      obtain ⟨n, hn⟩ : ∃ n, n = min (min (d.left pages) (s.left src)) todo := ⟨_, rfl⟩
      simp only [← hn]
      have hnd : n ≤ d.left pages := by omega
      have hns : n ≤ s.left src := by omega
      have hpos : 0 < n := by omega
      have hlen := length_slice hns
      have hsame : (d.put pages (s.slice src n)).map length = pages.map length :=
        map_length_put (by rwa [hlen])
      have hdpos : (d.advance pages n).pos (d.put pages (s.slice src n)) = d.pos pages + (s.slice src n).length := by
        rw [pos_congr hsame, pos_advance hnd hpos, hlen]
      -- the piece, and behind it the rest of the copy
      have hput := flatten_put (hlen.symm ▸ hnd) (hlen.symm ▸ hpos)
      rw [ih (show todo - n ≤ fuel by omega) ((hd.advance hnd hpos).congr hsame) (hs.advance hns hpos)
        (by rw [hdpos, length_flatten_congr hsame, hlen]; omega) (by rw [pos_advance hns hpos]; omega),
        hdpos, hput, overlay_overlay (by omega), take_eq_slice_append hns (by omega) hpos]

end Cursor

end QuadStor.Lib
