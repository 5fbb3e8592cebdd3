import QuadStor.Lib.Chunks
import QuadStor.Read.Lemmas.Pages

/-!
# The part of the pages that is handed over
-/

namespace QuadStor.Read

open Lib DDTable AddrMap List

variable {st : Store} {v : Vdisk} {lba transferLength n : Nat} {p : Slice} {slices : List Slice}

theorem length_blockData (st : Store) (v : Vdisk) (lba : Nat) : (v.blockData st lba).length = 2 ^ v.lbaShift := by
  have hle := v.lbaDiff_mul_lt lba
  rw [Nat.succ_mul] at hle
  rw [Vdisk.blockData, length_take, length_drop, length_want]
  omega

theorem length_requested (st : Store) (v : Vdisk) (lba transferLength : Nat) :
    (v.requested st lba transferLength).length = transferLength * 2 ^ v.lbaShift :=
  length_flatMap_range (fun k => length_blockData st v (lba + k)) transferLength

theorem blockData_page (st : Store) (v : Vdisk) (r : Nat) {j : Nat} (hj : j < v.perPage) :
    v.blockData st (v.perPage * r + j) =
      ((want st (v.maps.entry r)).drop (j * 2 ^ v.lbaShift)).take (2 ^ v.lbaShift) := by
  rw [Vdisk.blockData, Geometry.lbaReal_eq, Geometry.lbaDiff_eq, Nat.mul_add_mod, Nat.mod_eq_of_lt hj,
    Nat.mul_add_div v.perPage_pos, Nat.div_eq_of_lt hj, Nat.add_zero]

theorem want_eq_blocks (st : Store) (v : Vdisk) (r : Nat) :
    want st (v.maps.entry r) = (List.range v.perPage).flatMap fun j => v.blockData st (v.perPage * r + j) := by
  have hlen : (want st (v.maps.entry r)).length = v.perPage * 2 ^ v.lbaShift := by
    rw [length_want, v.perPage_mul]
  conv_lhs => rw [← flatMap_range_take_drop hlen]
  exact flatMap_congr fun j hj => (blockData_page st v r (mem_range.mp hj)).symm

def Vdisk.mapped (st : Store) (v : Vdisk) (lba n : Nat) : List Bytes :=
  (List.range n).map fun i => want st (v.maps.entry (v.lbaReal lba + i))

theorem requested_eq (st : Store) (hle : v.lbaDiff lba + transferLength ≤ v.perPage * n) :
    v.requested st lba transferLength = ((v.mapped st lba n).flatten.drop (v.lbaDiff lba * 2 ^ v.lbaShift)).take
        (transferLength * 2 ^ v.lbaShift) := by
  have hpages : (v.mapped st lba n).flatten =
      (List.range (v.perPage * n)).flatMap fun k => v.blockData st (v.perPage * v.lbaReal lba + k) := by
    rw [← flatMap_range_mul, Vdisk.mapped, ← flatMap_def]
    simp only [want_eq_blocks, Nat.mul_add, Nat.add_assoc]
  rw [hpages, take_drop_flatMap_range (fun k => length_blockData st v _) hle]
  simp only [← Nat.add_assoc, Geometry.perPage_mul_lbaReal_add]
  rfl

structure Slice.Full (p : Slice) : Prop where
  length : p.page.length = 4096
  reach : p.offset + p.len = 4096

theorem Slice.Full.bytes (h : p.Full) : p.bytes = p.page.drop p.offset := by
  refine take_of_length_le ?_
  rw [length_drop, h.length]
  have hreach := h.reach
  omega

theorem Slice.Full.length_bytes (h : p.Full) : p.bytes.length = p.len := by
  rw [h.bytes, length_drop, h.length]
  have hreach := h.reach
  omega

theorem ctioFixPglistLen_cons_cons (p q : Slice) (rest : List Slice) (n : Nat) :
    ctioFixPglistLen n (p :: q :: rest) = p :: ctioFixPglistLen (u32 (n + 2 ^ 32 - p.len)) (q :: rest) :=
  rfl

theorem ctioFixPglistLen_bytes : ∀ {slices : List Slice} {n : Nat}, (∀ p ∈ slices, p.Full) → n < 2 ^ 32 →
    (slices.dropLast.flatMap Slice.bytes).length ≤ n → n ≤ (slices.flatMap Slice.bytes).length →
    (ctioFixPglistLen n slices).flatMap Slice.bytes = (slices.flatMap Slice.bytes).take n
  | [], n, _, _, _, _ => by simp [ctioFixPglistLen]
  | [p], n, hfull, _, _, hle => by
      have hp := hfull p mem_cons_self
      simp only [flatMap_cons, flatMap_nil, append_nil] at hle ⊢
      rw [hp.length_bytes] at hle
      have hreach := hp.reach
      have hn : u16 n = n := Nat.mod_eq_of_lt (by omega)
      simp only [ctioFixPglistLen, flatMap_cons, flatMap_nil, append_nil, hn]
      rw [hp.bytes]
      rfl
  | p :: q :: rest, n, hfull, hlt, hlast, hle => by
      have hp := (hfull p mem_cons_self).length_bytes
      rw [dropLast_cons_cons, flatMap_cons, length_append, hp] at hlast
      rw [flatMap_cons, length_append, hp] at hle
      have hn : u32 (n + 2 ^ 32 - p.len) = n - p.len := by
        unfold u32
        omega
      have hrest := ctioFixPglistLen_bytes (fun r hr => hfull r (mem_cons_of_mem _ hr))
        (show n - p.len < 2 ^ 32 by omega) (by omega) (by omega)
      calc (ctioFixPglistLen n (p :: q :: rest)).flatMap Slice.bytes
          = p.bytes ++ ((q :: rest).flatMap Slice.bytes).take (n - p.len) := by
            rw [ctioFixPglistLen_cons_cons, flatMap_cons, hn, hrest]
        _ = (p.bytes ++ (q :: rest).flatMap Slice.bytes).take n := by
            rw [take_append, hp, take_of_length_le (show p.bytes.length ≤ n by omega)]
        _ = ((p :: q :: rest).flatMap Slice.bytes).take n := rfl

theorem ctioFixPglistLen_page : ∀ (slices : List Slice) (n : Nat),
    (ctioFixPglistLen n slices).map Slice.page = slices.map Slice.page
  | [], _ => rfl
  | [_], _ => rfl
  | p :: q :: rest, n => by
      rw [ctioFixPglistLen_cons_cons, map_cons, ctioFixPglistLen_page (q :: rest)]
      rfl

theorem trim_page (v : Vdisk) (lba n : Nat) (slices : List Slice) :
    (trim v lba n slices).map Slice.page = slices.map Slice.page := by
  have hhead : ∀ f : Slice → Slice, (∀ p, (f p).page = p.page) →
      (slices.modifyHead f).map Slice.page = slices.map Slice.page := by
    intro f hf
    cases slices <;> simp [hf]
  unfold trim
  split_ifs
  · rw [ctioFixPglistLen_page]
    exact hhead _ fun _ => rfl
  · exact hhead _ fun _ => rfl
  · rfl

theorem length_bytes_le (h : ∀ p ∈ slices, p.page.length = 4096) :
    (slices.flatMap Slice.bytes).length ≤ slices.length * 4096 := by
  induction slices with
  | nil => simp
  | cons p rest ih =>
    have hrest := ih fun q hq => h q (mem_cons_of_mem _ hq)
    have hp : p.bytes.length ≤ 4096 := by
      simp [Slice.bytes, h p mem_cons_self]
    rw [flatMap_cons, length_append, length_cons]
    omega

variable {pages : List Bytes} {page : Bytes}

theorem full_whole (h : page.length = 4096) : (Slice.whole page).Full := ⟨h, rfl⟩

theorem flatMap_whole (h : ∀ page ∈ pages, page.length = 4096) :
    (pages.map Slice.whole).flatMap Slice.bytes = pages.flatten := by
  induction pages with
  | nil => rfl
  | cons page rest ih =>
    have hpage := (full_whole (h page mem_cons_self)).bytes
    rw [map_cons, flatMap_cons, hpage, ih fun q hq => h q (mem_cons_of_mem _ hq)]
    rfl

theorem length_flatten_pages (h : ∀ page ∈ pages, page.length = 4096) : pages.flatten.length = pages.length * 4096 := by
  induction pages with
  | nil => rfl
  | cons page rest ih =>
    rw [flatten_cons, length_append, h page mem_cons_self,
      ih fun q hq => h q (mem_cons_of_mem _ hq), length_cons]
    omega

section Offset

variable {offset : Nat} (h : ∀ q ∈ page :: pages, q.length = 4096) (hoffset : offset ≤ 4096)
include h hoffset

theorem full_offset : ∀ p ∈ (⟨offset, 4096 - offset, page⟩ : Slice) :: pages.map Slice.whole, p.Full := by
  refine forall_mem_cons.2 ⟨⟨h page mem_cons_self, Nat.add_sub_cancel' hoffset⟩, ?_⟩
  exact forall_mem_map.2 fun q hq => full_whole (h q (mem_cons_of_mem _ hq))

theorem flatMap_offset : ((⟨offset, 4096 - offset, page⟩ : Slice) :: pages.map Slice.whole).flatMap Slice.bytes =
      (page :: pages).flatten.drop offset := by
  have hpage := h page mem_cons_self
  rw [flatMap_cons, (full_offset h hoffset _ mem_cons_self).bytes,
    flatMap_whole fun q hq => h q (mem_cons_of_mem _ hq), flatten_cons,
    drop_append_of_le_length (by omega)]

theorem ctioFixPglistLen_offset (hlt : n < 2 ^ 32) (hlast : pages.length * 4096 ≤ offset + n)
    (hle : offset + n ≤ (pages.length + 1) * 4096) :
    (ctioFixPglistLen n (⟨offset, 4096 - offset, page⟩ :: pages.map Slice.whole)).flatMap Slice.bytes =
      ((page :: pages).flatten.drop offset).take n := by
  have hfull := full_offset h hoffset
  rw [ctioFixPglistLen_bytes hfull hlt, flatMap_offset h hoffset]
  · cases hpages : pages.map Slice.whole with
    | nil => simp
    | cons q rest =>
      rw [hpages] at hfull
      have hrest : ∀ r ∈ (q :: rest).dropLast, r.page.length = 4096 := fun r hr =>
        (hfull r (mem_cons_of_mem _ ((dropLast_sublist _).subset hr))).length
      have hcount : pages.length = rest.length + 1 := by simpa using congrArg List.length hpages
      have hbytes := length_bytes_le hrest
      rw [length_dropLast, length_cons, Nat.add_sub_cancel] at hbytes
      rw [dropLast_cons_cons, flatMap_cons, length_append, (hfull _ mem_cons_self).length_bytes]
      show 4096 - offset + _ ≤ n
      omega
  · rw [flatMap_offset h hoffset, length_drop, length_flatten_pages h, length_cons]
    omega

end Offset

def Vdisk.pglistCnt (v : Vdisk) (lba transferLength : Nat) : Nat :=
  transferLengthToPglistCnt v.lbaShift (u32 (transferLength + v.lbaDiff lba))

theorem lbaDiff_add_le (v : Vdisk) (lba transferLength : Nat) :
    v.lbaDiff lba + transferLength ≤ v.perPage * v.pageCount lba transferLength := by
  rw [Vdisk.pageCount]
  obtain ⟨-, hshift, hper, hdiff, -⟩ | ⟨-, hshift, hper, hdiff, -⟩ := v.cases
  all_goals
    rw [hshift, hper, hdiff]
    omega

theorem pglistCnt_spec (v : Vdisk) (lba transferLength : Nat) :
    (v.pageCount lba transferLength < 65536 → v.pglistCnt lba transferLength = v.pageCount lba transferLength) ∧
      (65536 ≤ v.pageCount lba transferLength →
        u16 (v.pglistCnt lba transferLength) * 4096 < transferLength * 2 ^ v.lbaShift) := by
  rw [Vdisk.pageCount, Vdisk.pglistCnt]
  obtain ⟨-, hshift, -, hdiff, -⟩ | ⟨-, hshift, -, hdiff, -⟩ := v.cases
  · rw [hshift, hdiff, pglistCnt_legacy]
    unfold u16 u32
    omega
  · rw [hshift, hdiff, transferLengthToPglistCnt, if_pos rfl]
    unfold u16 u32
    omega

theorem trim_bytes (h : ∀ page ∈ pages, page.length = 4096) (hpos : 0 < transferLength)
    (hcount : v.pageCount lba transferLength < 65536) (hlen : pages.length = v.pageCount lba transferLength) :
    (trim v lba (u32 (transferLength * 2 ^ v.lbaShift)) (pages.map Slice.whole)).flatMap Slice.bytes =
      (pages.flatten.drop (v.lbaDiff lba * 2 ^ v.lbaShift)).take (transferLength * 2 ^ v.lbaShift) := by
  rw [Vdisk.pageCount] at hcount hlen
  obtain ⟨hlegacy, hshift, -, hdiff, -⟩ | ⟨hlegacy, hshift, -, hdiff, -⟩ := v.cases
  · rw [hshift, hdiff] at hcount hlen ⊢
    have hsize : u32 (transferLength * 2 ^ 9) = transferLength * 2 ^ 9 := u32_eq_of_lt (by omega)
    have hoffset : u16 (lba % 8 * 2 ^ 9) = lba % 8 * 2 ^ 9 := Nat.mod_eq_of_lt (by omega)
    have hfirst : u16 (4096 + 2 ^ 16 - lba % 8 * 2 ^ 9) = 4096 - lba % 8 * 2 ^ 9 := by
      unfold u16
      omega
    obtain _ | ⟨page, pages⟩ := pages
    · simp only [length_nil] at hlen
      omega
    simp only [length_cons] at hlen
    simp only [trim, hdiff, hshift, hlegacy, hsize, and_true]
    rw [if_pos (by omega), map_cons, modifyHead_cons]
    simp only [Slice.whole, hoffset, hfirst]
    split_ifs with hfix
    · exact ctioFixPglistLen_offset h (by omega) (by omega) (by omega) (by omega)
    · refine (flatMap_offset h (by omega)).trans (take_of_length_le ?_).symm
      rw [length_drop, length_flatten_pages h, length_cons]
      omega
  · rw [hshift, hdiff] at hlen ⊢
    simp only [trim, hlegacy, Bool.false_eq_true, and_false, if_false]
    rw [flatMap_whole h, Nat.zero_mul, drop_zero, take_of_length_le]
    rw [length_flatten_pages h]
    omega

end QuadStor.Read
