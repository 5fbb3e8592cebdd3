import QuadStor.CopyParam.Basic

/-!
# Parsing is safe for the lists the parser can cope with
-/

namespace QuadStor.CopyParam

open Lib List

variable {data : List UInt8} {c c' : Cursor} {n fuel avail position : Nat} {segments : Option (List SegmentDescriptor)}

def place (c : Cursor) : Nat := c.idx * 4096 + c.offset

theorem readPgdata_eq (data : List UInt8) (n : Nat) (hoff : c.offset ≤ 4096) (hidx : c.idx * 4096 < data.length)
    (hend : place c + n ≤ data.length) (htwo : place c + n ≤ (c.idx + 2) * 4096) :
    ∃ c', readPgdata data c n = some ((data.drop (place c)).take n, c') ∧ place c' = place c + n ∧
      c'.offset ≤ 4096 ∧ (0 < n → n < 4096 → c'.offset < 4096) := by
  rw [place] at *
  rw [readPgdata, if_neg (by omega), Int.toNat_natCast]
  rw [if_neg (by omega)]
  by_cases hone : n ≤ 4096 - c.offset
  · rw [if_pos (by omega), Nat.min_eq_left hone]
    refine ⟨_, rfl, ?_⟩
    split
    all_goals
      simp only [place]
      omega
  · have hmin : min n (4096 - c.offset) = 4096 - c.offset := by omega
    have hfull : c.offset + (4096 - c.offset) = 4096 := by omega
    have hnext : (c.idx + 1) * 4096 = c.idx * 4096 + c.offset + (4096 - c.offset) := by omega
    have hend' : (c.idx + 1) * 4096 + (n - (4096 - c.offset)) = c.idx * 4096 + c.offset + n := by
      rw [hnext]
      omega
    have hjoin : ∀ p k, k ≤ n → (data.drop p).take k ++ (data.drop (p + k)).take (n - k) = (data.drop p).take n := by
      intro p k hk
      rw [← drop_drop, ← take_add, Nat.add_sub_cancel' hk]
    rw [hmin, if_neg (by omega), if_pos hfull, if_neg (by dsimp only; omega), hnext, hjoin _ _ (by omega)]
    refine ⟨_, rfl, hend', ?_, ?_⟩
    all_goals
      dsimp only
      omega

theorem readPgdata_some {length : Int} {bytes : List UInt8} (hoff : c.offset ≤ 4096)
    (h : readPgdata data c length = some (bytes, c')) :
    ∃ n : Nat, length = n ∧ c.idx * 4096 < data.length ∧ place c + n ≤ data.length ∧
      place c + n ≤ (c.idx + 2) * 4096 ∧ bytes = (data.drop (place c)).take n ∧ place c' = place c + n ∧
      c'.offset ≤ 4096 ∧ (0 < n → n < 4096 → c'.offset < 4096) := by
  obtain ⟨hnonneg, hidx, hend, htwo⟩ : 0 ≤ length ∧ c.idx * 4096 < data.length ∧ place c + length ≤ data.length ∧
      place c + length ≤ (c.idx + 2) * 4096 := by
    rw [place]
    simp only [readPgdata] at h
    split_ifs at h <;> try simp only at *
    all_goals omega
  obtain ⟨n, rfl⟩ := Int.eq_ofNat_of_zero_le hnonneg
  obtain ⟨c₁, hread, hnext⟩ := readPgdata_eq data n hoff hidx (by omega) (by omega)
  cases hread.symm.trans h
  exact ⟨n, rfl, hidx, by omega, by omega, rfl, hnext⟩

theorem readPgdata_common (data : List UInt8) (hoff : c.offset ≤ 4096) (hend : place c + 8 ≤ data.length) :
    ∃ c', readPgdata data c 8 = some ((data.drop (place c)).take 8, c') ∧ place c' = place c + 8 ∧
      c'.offset < 4096 := by
  have hplace : place c = c.idx * 4096 + c.offset := rfl
  obtain ⟨c', hread, hat, -, hlt⟩ := readPgdata_eq data 8 hoff (by omega) hend (by omega)
  exact ⟨c', hread, hat, hlt (by decide) (by decide)⟩

theorem idx_eq (h : c.offset < 4096) : c.idx = place c / 4096 := by
  rw [place]
  omega

theorem parseTargetDescriptors_eq {i : Nat} {list : List TargetDescriptor} (hoff : c.offset < 4096)
    (hend : place c + 32 * n ≤ data.length) :
    ∃ targets c', parseTargetDescriptors data n i c list = some (targets ++ list, c') ∧
      place c' = place c + 32 * n ∧ c'.offset < 4096 ∧
      (targets.reverse.map TargetDescriptor.bytes).flatten = (data.drop (place c)).take (32 * n) ∧
      targets.reverse.map TargetDescriptor.id = range' i n := by
  induction n generalizing i c list with
  | zero => exact ⟨[], c, by simp [parseTargetDescriptors, hoff]⟩
  | succ n ih =>
    have hplace : place c = c.idx * 4096 + c.offset := rfl
    obtain ⟨c₁, hread, hat, -, hlt⟩ := readPgdata_eq data 32 (Nat.le_of_lt hoff) (by omega) (by omega) (by omega)
    obtain ⟨targets, c', hrun, hend', hoff', hbytes, hids⟩ :=
      @ih c₁ (i + 1) (⟨i, (data.drop (place c)).take 32⟩ :: list) (hlt (by decide) (by decide)) (by omega)
    refine ⟨targets ++ [⟨i, (data.drop (place c)).take 32⟩], c', ?_, by omega, hoff', ?_, ?_⟩
    · have hread' : readPgdata data c 32 = some ((data.drop (place c)).take 32, c₁) := hread
      rw [parseTargetDescriptors, hread']
      simpa using hrun
    · rw [reverse_append, map_append, flatten_append, hbytes, hat, Nat.mul_succ,
        Nat.add_comm (32 * n), take_add, drop_drop]
      simp
    · rw [reverse_append, map_append, hids, range'_succ]
      rfl

theorem parseSegmentDescriptors_of_segments
    (h : Segments data position avail segments) (hoff : c.offset ≤ 4096) (hplace : place c = position)
    (hfuel : avail < fuel) : parseSegmentDescriptors data fuel c avail = (segments.elim .invalid .done) := by
  induction h generalizing fuel c with
  | done =>
    cases fuel with
    | zero => omega
    | succ fuel => rfl
  | @tooLong position avail hpos hend hlong =>
    cases fuel with
    | zero => omega
    | succ fuel =>
      obtain ⟨c₁, hread, -, -⟩ := readPgdata_common data hoff (hplace ▸ hend)
      rw [parseSegmentDescriptors, if_neg (by omega), hread, hplace]
      dsimp only
      rw [if_pos (by omega)]
      rfl
  | @next position avail n segments hend hlen hfit hinside hpage htwo _ ih =>
    cases fuel with
    | zero => omega
    | succ fuel =>
      obtain ⟨c₁, hread, hat, hlt⟩ := readPgdata_common data hoff (hplace ▸ hend)
      have hidx := idx_eq hlt
      rw [hat, hplace] at hidx
      obtain ⟨c₂, hdesc, hat₂, hoff₂, -⟩ := readPgdata_eq data n (Nat.le_of_lt hlt) (hidx ▸ hpage)
        (by omega) (by rw [hidx]; omega)
      have hlength : ((descLength ((data.drop position).take 8) : Nat) : Int) - 4 = n := by omega
      have havail : (avail : Int) - 8 - (n : Int) = ((avail - (8 + n) : Nat) : Int) := by omega
      rw [parseSegmentDescriptors, if_neg (by omega), hread, hplace]
      dsimp only
      rw [hlength, if_neg (by omega), hdesc]
      dsimp only
      rw [havail, ih hoff₂ (by omega) (by omega), hat, hplace]
      cases segments <;> rfl

theorem segments_of_parseSegmentDescriptors (hoff : c.offset ≤ 4096)
    (h : parseSegmentDescriptors data fuel c avail ≠ .fault) : ∃ segments, Segments data (place c) avail segments := by
  induction fuel generalizing c avail with
  | zero => exact absurd rfl h
  | succ fuel ih =>
    rw [parseSegmentDescriptors] at h
    split at h
    · obtain rfl : avail = 0 := by omega
      exact ⟨_, .done⟩
    · cases hread : readPgdata data c 8 with
      | none => simp [hread] at h
      | some r =>
        obtain ⟨common, c₁⟩ := r
        obtain ⟨k, hk, -, hend, -, rfl, hat, -, hlt⟩ := readPgdata_some hoff hread
        obtain rfl : k = 8 := by omega
        have hlt := hlt (by decide) (by decide)
        rw [hread] at h
        dsimp only at h
        split at h
        · exact ⟨_, .tooLong (by omega) (by omega) (by omega)⟩
        · rename_i hfit
          cases hdesc : readPgdata data c₁ ((descLength ((data.drop (place c)).take 8) : Int) - 4) with
          | none => simp [hdesc] at h
          | some r =>
            obtain ⟨desc, c₂⟩ := r
            obtain ⟨n, hn, hidx, hinside, htwo, -, hat₂, hoff₂, -⟩ := readPgdata_some (Nat.le_of_lt hlt) hdesc
            have havail : (avail : Int) - 8 - (n : Int) = ((avail - (8 + n) : Nat) : Int) := by omega
            rw [hdesc, hn, havail] at h
            obtain ⟨segments, hsegments⟩ := ih hoff₂ fun hfault => h (congrArg (Result.map _) hfault)
            have hpage := idx_eq hlt
            rw [hat] at hpage
            rw [hat₂, hat] at hsegments
            rw [hpage] at hidx htwo
            exact ⟨_, .next (by omega) (by omega) (by omega) (by omega) hidx (by omega) hsegments⟩

theorem Segments.bytes {list : List SegmentDescriptor}
    (h : Segments data position avail segments) (hlist : segments = some list) (hpos : position ≤ data.length) :
    position + avail ≤ data.length ∧ (list.map fun s => s.common ++ s.desc).flatten = (data.drop position).take avail ∧
      ∀ s ∈ list, descLength s.common = 4 + s.desc.length := by
  induction h generalizing list with
  | done =>
    cases hlist
    simp [hpos]
  | tooLong => cases hlist
  | @next position avail n segments hend hlen hfit hinside hpage htwo _ ih =>
    cases segments with
    | none => cases hlist
    | some rest =>
      obtain ⟨hle, hbytes, hdesc⟩ := ih rfl hinside
      obtain ⟨k, rfl⟩ := Nat.exists_eq_add_of_le hfit
      cases hlist
      refine ⟨by omega, ?_, ?_⟩
      · rw [map_cons, flatten_cons, hbytes, Nat.add_sub_cancel_left, append_assoc, Nat.add_assoc 8,
          take_add, take_add, drop_drop, drop_drop]
      · refine forall_mem_cons.2 ⟨?_, hdesc⟩
        simp only [length_take, length_drop, hlen]
        omega

theorem parseTargetDescriptors_header (hmod : targetDescLength data % 32 = 0)
    (hlen : 16 + targetDescLength data ≤ data.length) :
    ∃ targets c, parseTargetDescriptors data (targetDescLength data / 32) 0 ⟨0, 16⟩ [] = some (targets, c) ∧
      place c = 16 + targetDescLength data ∧ c.offset = (16 + targetDescLength data) % 4096 ∧
      (targets.reverse.map TargetDescriptor.bytes).flatten = (data.drop 16).take (targetDescLength data) ∧
      targets.reverse.map TargetDescriptor.id = List.range (targetDescLength data / 32) := by
  have hwhole : 32 * (targetDescLength data / 32) = targetDescLength data := by omega
  have hstart : place ⟨0, 16⟩ = 16 := rfl
  obtain ⟨targets, c, hrun, hplace, hoff, hbytes, hids⟩ := @parseTargetDescriptors_eq data ⟨0, 16⟩
    (targetDescLength data / 32) 0 [] (by decide) (by omega)
  rw [hwhole, hstart] at hplace hbytes
  refine ⟨targets, c, by simpa using hrun, hplace, ?_, hbytes, by rw [hids, range_eq_range']⟩
  rw [← hplace, place]
  omega

theorem parse_of_header (hmod : targetDescLength data % 32 = 0) (hlen : 16 + targetDescLength data ≤ data.length)
    (hsegment : segmentDescLength data = data.length - (16 + targetDescLength data) % 4096) :
    ∃ targets c, tdiskParseExtendedCopyParam data =
        (parseSegmentDescriptors data (data.length + 1) c (segmentDescLength data)).map (⟨data.getD 0 0, targets, ·⟩) ∧
      place c = 16 + targetDescLength data ∧ c.offset ≤ 4096 ∧
      (targets.reverse.map TargetDescriptor.bytes).flatten = (data.drop 16).take (targetDescLength data) ∧
      targets.reverse.map TargetDescriptor.id = List.range (targetDescLength data / 32) := by
  obtain ⟨targets, c, hrun, hplace, hoff, hbytes, hids⟩ := parseTargetDescriptors_header hmod hlen
  have havail : (data.length : Int) - c.offset = segmentDescLength data := by omega
  refine ⟨targets, c, ?_, hplace, by omega, hbytes, hids⟩
  rw [tdiskParseExtendedCopyParam, if_neg (by omega), if_neg (by omega), hrun]
  dsimp only
  rw [havail, if_neg (not_not.2 rfl)]

theorem parse_headerInvalid (h : HeaderInvalid data) : tdiskParseExtendedCopyParam data = .invalid := by
  rw [tdiskParseExtendedCopyParam]
  by_cases hmod : targetDescLength data % 32 = 0
  · by_cases hlen : data.length < 16 + targetDescLength data
    · rw [if_neg (not_not.2 hmod), if_pos hlen]
    · obtain ⟨targets, c, hrun, -, hoff, -, -⟩ := parseTargetDescriptors_header hmod (Nat.not_lt.1 hlen)
      have hsegment : segmentDescLength data ≠ data.length - (16 + targetDescLength data) % 4096 := by
        rcases h with h | h | h
        · exact absurd hmod h
        · exact absurd h hlen
        · exact h
      rw [if_neg (not_not.2 hmod), if_neg hlen, hrun]
      exact if_pos (by omega)
  · exact if_pos hmod

/-- Parsing is safe, and what it accepts is right, for exactly the lists the parser can cope with. -/
theorem copy_param_safe_iff (data : List UInt8) : Safe data (tdiskCmdExtendedCopyRead data) ↔ Parsable data := by
  rw [tdiskCmdExtendedCopyRead, Parsable]
  by_cases hshort : data.length < 16
  · rw [if_pos hshort]
    exact iff_of_true trivial (.inl hshort)
  rw [if_neg hshort]
  by_cases hheader : HeaderInvalid data
  · rw [parse_headerInvalid hheader]
    exact iff_of_true trivial (.inr (.inl hheader))
  obtain ⟨hmod, hlen, hsegment⟩ : targetDescLength data % 32 = 0 ∧ 16 + targetDescLength data ≤ data.length ∧
      segmentDescLength data = data.length - (16 + targetDescLength data) % 4096 := by
    simpa [HeaderInvalid] using hheader
  obtain ⟨targets, c, hparse, hplace, hoff, hbytes, hids⟩ := parse_of_header hmod hlen hsegment
  have hrun : ∀ segments, Segments data (16 + targetDescLength data) (segmentDescLength data) segments →
      tdiskParseExtendedCopyParam data = segments.elim .invalid (.done ⟨data.getD 0 0, targets, ·⟩) := by
    intro segments h
    rw [hparse, parseSegmentDescriptors_of_segments h hoff hplace (by omega)]
    cases segments <;> rfl
  constructor
  · intro hsafe
    have hnot : parseSegmentDescriptors data (data.length + 1) c (segmentDescLength data) ≠ .fault := by
      intro hfault
      rw [hparse, hfault] at hsafe
      exact hsafe
    obtain ⟨segments, h⟩ := segments_of_parseSegmentDescriptors hoff hnot
    rw [hplace] at h
    refine .inr (.inr ⟨segments, h, fun list hlist s hs htype => ?_⟩)
    rw [hrun segments h, hlist] at hsafe
    have hdesc := (h.bytes hlist hlen).2.2 s hs
    have hb2b := hsafe.b2b s hs htype
    omega
  · rintro (hbad | hbad | ⟨segments, h, hb2b⟩)
    · exact absurd hbad hshort
    · exact absurd hbad hheader
    · rw [hrun segments h]
      cases segments with
      | none => trivial
      | some list =>
        obtain ⟨hle, hsegments, hdesc⟩ := h.bytes rfl hlen
        -- all that was announced is there, so the targets end on the first page
        have htotal : 16 + targetDescLength data + segmentDescLength data = data.length := by omega
        refine ⟨?_, hids, htotal, fun s hs htype => ?_⟩
        · have hall : (data.drop (16 + targetDescLength data)).take (segmentDescLength data) =
              data.drop (16 + targetDescLength data) := take_of_length_le (by rw [length_drop]; omega)
          rw [hbytes, hsegments, hall, ← drop_drop, take_append_drop]
        · have hfields := hb2b list rfl s hs htype
          have := hdesc s hs
          omega

/-- With a length of 0 a negative length is copied, with a length of 4 a segment without fields is accepted. -/
theorem short_segments :
    tdiskCmdExtendedCopyRead [0, 0, 0, 0, 0, 0, 0, 0, 0, 0, 0, 8, 0, 0, 0, 0, 2, 0, 0, 0, 0, 0, 0, 0] = .fault ∧
    tdiskCmdExtendedCopyRead [0, 0, 0, 0, 0, 0, 0, 0, 0, 0, 0, 8, 0, 0, 0, 0, 2, 0, 0, 4, 0, 0, 0, 0] =
      .done ⟨0, [], [⟨[2, 0, 0, 4, 0, 0, 0, 0], []⟩]⟩ ∧
    ¬ ExtendedCopy.Faithful [0, 0, 0, 0, 0, 0, 0, 0, 0, 0, 0, 8, 0, 0, 0, 0, 2, 0, 0, 4, 0, 0, 0, 0]
      ⟨0, [], [⟨[2, 0, 0, 4, 0, 0, 0, 0], []⟩]⟩ := by
  refine ⟨by decide, by decide, fun h => ?_⟩
  have hlen := h.b2b _ (mem_singleton.2 rfl) rfl
  revert hlen
  decide

end QuadStor.CopyParam
