import QuadStor.FcRules.Basic

/-!
# A rule decides for the port and the disk it names
-/

namespace QuadStor.FcRules

open Lib List

variable {l l' front back : List FcRule} {wwpn p : Port} {targetId d : UInt32} {config iter : FcRule} {found : Found}
  {rule : Rule}

theorem portEqual_iff {q : Port} : portEqual p q = true ↔ p = q := by
  cases p; cases q; simp [portEqual]

theorem matches_iff : iter.matches config = true ↔ iter.wwpn = config.wwpn ∧ iter.targetId = config.targetId := by
  simp [FcRule.matches, portEqual_iff]

theorem words_zero_iff : p.word0 = 0 ∧ p.word1 = 0 ↔ p = anyPort := by
  cases p; simp [anyPort]

theorem eq_of_matches (h : iter.matches config = true) : { iter with rule := config.rule } = config := by
  obtain ⟨hw, ht⟩ := matches_iff.1 h
  cases config; cases iter
  simp_all

theorem setRule_of_first (hfront : ∀ x ∈ front, x.matches config = false) (hm : iter.matches config = true) :
    setRule config (front ++ iter :: back) = some (front ++ config :: back) := by
  induction front with
  | nil => rw [nil_append, setRule, if_pos hm, eq_of_matches hm, nil_append]
  | cons x front ih =>
    have hx : ¬ x.matches config = true := by simp [hfront x mem_cons_self]
    rw [cons_append, setRule, if_neg hx, ih fun y hy => hfront y (mem_cons_of_mem _ hy)]
    rfl

theorem setRule_none (h : ∀ x ∈ l, x.matches config = false) : setRule config l = none := by
  induction l with
  | nil => rfl
  | cons x rest ih =>
    have hx : ¬ x.matches config = true := by simp [h x mem_cons_self]
    rw [setRule, if_neg hx, ih fun y hy => h y (mem_cons_of_mem _ hy)]
    rfl

theorem add_cases (l : List FcRule) (config : FcRule) :
    (∃ front iter back, l = front ++ iter :: back ∧ iter.matches config = true ∧
      targetAddFcRule l config = front ++ config :: back) ∨ (∀ iter ∈ l, iter.matches config = false) ∧
      (config.wwpn = anyPort ∧ targetAddFcRule l config = config :: l ∨
        config.wwpn ≠ anyPort ∧ targetAddFcRule l config = l ++ [config]) := by
  unfold targetAddFcRule
  cases hfind : l.find? (·.matches config) with
  | some iter =>
    obtain ⟨hm, front, back, rfl, hfront⟩ := find?_eq_some_iff_append.mp hfind
    exact .inl ⟨front, iter, back, rfl, hm, by rw [setRule_of_first (by simpa using hfront) hm]⟩
  | none =>
    have hnone : ∀ iter ∈ l, iter.matches config = false := by simpa using hfind
    refine .inr ⟨hnone, ?_⟩
    rw [setRule_none hnone]
    by_cases hany : config.wwpn = anyPort
    · exact .inl ⟨hany, if_pos (words_zero_iff.2 hany)⟩
    · exact .inr ⟨hany, if_neg (mt words_zero_iff.1 hany)⟩

structure Listed (l : List FcRule) : Prop where
  distinct : l.Pairwise fun a b => a.matches b = false
  anyFirst : l.Pairwise fun a b => b.wwpn = anyPort → a.wwpn = anyPort

theorem matches_comm (a b : FcRule) : a.matches b = b.matches a := by
  rw [Bool.eq_iff_iff, matches_iff, matches_iff]
  constructor <;> rintro ⟨h₁, h₂⟩ <;> exact ⟨h₁.symm, h₂.symm⟩

theorem Listed.sublist (h : Listed l) (hs : l'.Sublist l) : Listed l' :=
  ⟨h.distinct.sublist hs, h.anyFirst.sublist hs⟩

theorem matches_congr (h : iter.matches config = true) (x : FcRule) : config.matches x = iter.matches x := by
  obtain ⟨hw, ht⟩ := matches_iff.1 h
  rw [FcRule.matches, FcRule.matches, hw, ht]

theorem matches_congr_right (h : iter.matches config = true) (x : FcRule) : x.matches config = x.matches iter := by
  rw [matches_comm, matches_congr h, matches_comm]

theorem add_of_listed (h : Listed (front ++ iter :: back)) (hm : iter.matches config = true) :
    targetAddFcRule (front ++ iter :: back) config = front ++ config :: back := by
  have hfront : ∀ x ∈ front, x.matches config = false := by
    intro x hx
    rw [matches_congr_right hm]
    exact (pairwise_append.mp h.distinct).2.2 x hx iter mem_cons_self
  rw [targetAddFcRule, setRule_of_first hfront hm]

theorem Listed.add (h : Listed l) (config : FcRule) : Listed (targetAddFcRule l config) := by
  rcases add_cases l config with ⟨front, iter, back, rfl, hm, hadd⟩ | ⟨hfresh, hadd⟩
  · rw [hadd]
    obtain ⟨hd, hf⟩ := h
    have hw := (matches_iff.1 hm).1
    constructor
    · simpa only [pairwise_append, pairwise_cons, mem_cons, forall_eq_or_imp,
        matches_congr hm, matches_congr_right hm] using hd
    · simpa only [pairwise_append, pairwise_cons, mem_cons, forall_eq_or_imp, hw] using hf
  · rcases hadd with ⟨hany, hadd⟩ | ⟨hany, hadd⟩
    · rw [hadd]
      constructor
      · exact pairwise_cons.mpr ⟨fun x hx => matches_comm _ _ ▸ hfresh x hx, h.distinct⟩
      · exact pairwise_cons.mpr ⟨fun _ _ _ => hany, h.anyFirst⟩
    · rw [hadd]
      constructor
      · refine pairwise_append.mpr ⟨h.distinct, pairwise_singleton _ _, ?_⟩
        simpa using hfresh
      · refine pairwise_append.mpr ⟨h.anyFirst, pairwise_singleton _ _, ?_⟩
        simp [hany]

theorem listed_invariant : system.Invariant Listed where
  init := by rintro _ rfl; exact ⟨.nil, .nil⟩
  step := by
    rintro l op _ h rfl
    cases op with
    | add config => exact h.add config
    | remove config => exact h.sublist eraseP_sublist
    | clear targetId => exact h.sublist filter_sublist

theorem scan_eq (found : Found) : scan wwpn targetId found l =
      (lookup l wwpn targetId).getD (l.foldl (Found.note wwpn targetId) found).decision := by
  induction l generalizing found with
  | nil => rfl
  | cons iter rest ih =>
    by_cases h : iter.wwpn = wwpn ∧ iter.targetId = targetId
    · simp [scan, lookup, h, portEqual_iff]
    · rw [scan, if_neg (by simpa [portEqual_iff] using h), ih]
      simp [lookup, h]

theorem fcInitiatorCheck_eq : fcInitiatorCheck l wwpn targetId =
      (lookup l wwpn targetId).getD (l.foldl (Found.note wwpn targetId) .nothing).decision := by
  cases l with
  | nil => rfl
  | cons iter rest => exact scan_eq _

theorem lookup_eq_none_iff : lookup l p d = none ↔ ∀ iter ∈ l, ¬ (iter.wwpn = p ∧ iter.targetId = d) := by
  simp [lookup]

theorem lookup_append : lookup (l ++ l') p d = (lookup l p d).or (lookup l' p d) := by
  simp only [lookup, find?_append, Option.map_or]

theorem lookup_cons_of_not (h : ¬ (iter.wwpn = p ∧ iter.targetId = d)) : lookup (iter :: l) p d = lookup l p d := by
  simp [lookup, h]

theorem note_ruleWwpn (found : Found) (iter : FcRule) : (found.note wwpn targetId iter).ruleWwpn =
      if iter.wwpn = wwpn ∧ iter.targetId = anyDisk then some iter.rule else found.ruleWwpn := by
  by_cases h : iter.wwpn = wwpn ∧ iter.targetId = anyDisk
  · simp [Found.note, portEqual_iff, h, anyDisk]
  · rw [if_neg h, Found.note, if_neg (by simpa [portEqual_iff, anyDisk] using h)]
    split_ifs <;> rfl

theorem foldl_ruleWwpn (h : Listed l) (wwpn : Port) (targetId : UInt32) (found : Found) :
    (l.foldl (Found.note wwpn targetId) found).ruleWwpn = (lookup l wwpn anyDisk).or found.ruleWwpn := by
  induction l generalizing found with
  | nil => rfl
  | cons iter rest ih =>
    obtain ⟨hhead, -⟩ := pairwise_cons.mp h.distinct
    rw [foldl_cons, ih (h.sublist (sublist_cons_self _ _)), note_ruleWwpn]
    by_cases hi : iter.wwpn = wwpn ∧ iter.targetId = anyDisk
    · have hrest : lookup rest wwpn anyDisk = none := by
        rw [lookup_eq_none_iff]
        intro x hx hxi
        have hne := hhead x hx
        rw [matches_iff.2 ⟨hi.1.trans hxi.1.symm, hi.2.trans hxi.2.symm⟩] at hne
        cases hne
      rw [hrest, if_pos hi]
      simp [lookup, hi]
    · rw [if_neg hi, lookup_cons_of_not hi]

theorem note_ruleTarget_of_eq (hw : iter.wwpn ≠ wwpn)
    (ht : iter.targetId = targetId) : (found.note wwpn targetId iter).ruleTarget = some iter.rule := by
  rw [Found.note, if_neg (by simp [portEqual_iff, hw]), if_pos ht]

theorem note_ruleTarget_of_ne (ht : iter.targetId ≠ targetId) :
    (found.note wwpn targetId iter).ruleTarget = found.ruleTarget := by
  rw [Found.note, if_neg ht]
  split_ifs <;> rfl

theorem foldl_ruleTarget_of_ne (h : ∀ iter ∈ l, iter.targetId ≠ targetId) :
    (l.foldl (Found.note wwpn targetId) found).ruleTarget = found.ruleTarget := by
  induction l generalizing found with
  | nil => rfl
  | cons iter rest ih =>
    rw [foldl_cons, ih fun x hx => h x (mem_cons_of_mem _ hx),
      note_ruleTarget_of_ne (h iter mem_cons_self)]

def Named (l : List FcRule) (wwpn : Port) (targetId : UInt32) : Prop :=
  ∃ rule ∈ l, rule.wwpn = wwpn ∧ (rule.targetId = targetId ∨ rule.targetId = anyDisk)

theorem not_named_iff : ¬ Named l wwpn targetId ↔ lookup l wwpn targetId = none ∧ lookup l wwpn anyDisk = none := by
  rw [lookup_eq_none_iff, lookup_eq_none_iff]
  constructor
  · intro h
    exact ⟨fun x hx hx' => h ⟨x, hx, hx'.1, .inl hx'.2⟩, fun x hx hx' => h ⟨x, hx, hx'.1, .inr hx'.2⟩⟩
  · rintro ⟨h₁, h₂⟩ ⟨x, hx, hw, ht | ht⟩
    · exact h₁ x hx ⟨hw, ht⟩
    · exact h₂ x hx ⟨hw, ht⟩

theorem decision_of_ruleWwpn (h : found.ruleWwpn = some rule) : found.decision = rule := by
  simp [Found.decision, h]

theorem decision_of_ruleTarget (hw : found.ruleWwpn = none)
    (ht : found.ruleTarget = some rule) : found.decision = rule := by
  simp [Found.decision, hw, ht]

theorem fcInitiatorCheck_of_named (h : Listed l) (hn : Named l wwpn targetId) :
    (lookup l wwpn targetId).or (lookup l wwpn anyDisk) = some (fcInitiatorCheck l wwpn targetId) := by
  rw [fcInitiatorCheck_eq]
  cases hdisk : lookup l wwpn targetId with
  | some rule => rfl
  | none =>
    cases hany : lookup l wwpn anyDisk with
    | some rule =>
      have hfound := foldl_ruleWwpn h wwpn targetId .nothing
      rw [hany] at hfound
      exact congrArg some (decision_of_ruleWwpn hfound).symm
    | none => exact absurd hn (not_named_iff.2 ⟨hdisk, hany⟩)

theorem lookup_add (h : ¬ (config.wwpn = p ∧ config.targetId = d)) :
    lookup (targetAddFcRule l config) p d = lookup l p d := by
  rcases add_cases l config with ⟨front, iter, back, rfl, hm, hadd⟩ | ⟨-, ⟨-, hadd⟩ | ⟨-, hadd⟩⟩
  · obtain ⟨hw, ht⟩ := matches_iff.1 hm
    have hiter : ¬ (iter.wwpn = p ∧ iter.targetId = d) := by rwa [hw, ht]
    rw [hadd, lookup_append, lookup_append, lookup_cons_of_not h, lookup_cons_of_not hiter]
  · rw [hadd, lookup_cons_of_not h]
  · rw [hadd, lookup_append, lookup_cons_of_not h]
    exact Option.or_none

theorem lookup_remove (h : ¬ (config.wwpn = p ∧ config.targetId = d)) :
    lookup (targetRemoveFcRule l config) p d = lookup l p d := by
  unfold targetRemoveFcRule
  induction l with
  | nil => rfl
  | cons iter rest ih =>
    by_cases hm : iter.matches config = true
    · obtain ⟨hw, ht⟩ := matches_iff.1 hm
      simp only [eraseP_cons, hm, cond_true]
      rw [lookup_cons_of_not (by rwa [hw, ht])]
    · simp only [eraseP_cons, hm, cond_false]
      by_cases hi : iter.wwpn = p ∧ iter.targetId = d
      · simp [lookup, hi]
      · rw [lookup_cons_of_not hi, lookup_cons_of_not hi, ih]

theorem not_names_of_not_applies (h : ¬ config.Applies wwpn targetId)
    (hd : d = targetId ∨ d = anyDisk) : ¬ (config.wwpn = wwpn ∧ config.targetId = d) := by
  rintro ⟨hw, ht⟩
  exact h ⟨.inl hw, hd.imp ht.trans ht.trans⟩

def Agree (l l' : List FcRule) (wwpn : Port) (targetId : UInt32) : Prop :=
  ∀ d, d = targetId ∨ d = anyDisk → lookup l' wwpn d = lookup l wwpn d

theorem agree_add (h : ¬ config.Applies wwpn targetId) : Agree l (targetAddFcRule l config) wwpn targetId :=
  fun _ hd => lookup_add (not_names_of_not_applies h hd)

theorem Agree.named_iff (h : Agree l l' wwpn targetId) : Named l' wwpn targetId ↔ Named l wwpn targetId := by
  apply not_iff_not.mp
  rw [not_named_iff, not_named_iff, h targetId (.inl rfl), h anyDisk (.inr rfl)]

theorem Agree.fcInitiatorCheck_eq (hagree : Agree l l' wwpn targetId)
    (h : Listed l) (h' : Listed l') (hn : Named l wwpn targetId) :
    fcInitiatorCheck l' wwpn targetId = fcInitiatorCheck l wwpn targetId := by
  have hnew := fcInitiatorCheck_of_named h' (hagree.named_iff.mpr hn)
  rw [hagree targetId (.inl rfl), hagree anyDisk (.inr rfl), fcInitiatorCheck_of_named h hn] at hnew
  exact (Option.some.inj hnew).symm

theorem isolated_of_named (h : Listed l) (hn : Named l wwpn targetId) : Isolated l wwpn targetId where
  add rule hrule := (agree_add hrule).fcInitiatorCheck_eq h (h.add rule) hn
  remove rule hrule := Agree.fcInitiatorCheck_eq (fun _ hd => lookup_remove (not_names_of_not_applies hrule hd)) h
    (h.sublist eraseP_sublist) hn
  precedence := by
    simp [mostSpecific, ← Option.or_assoc, fcInitiatorCheck_of_named h hn]

def Rule.other : Rule → Rule
  | .allow => .disallow
  | .disallow => .allow

theorem Rule.other_ne (rule : Rule) : rule.other ≠ rule := by
  cases rule <;> decide

theorem fcInitiatorCheck_of_last
    (h : Listed (front ++ config :: back)) (hn : ¬ Named (front ++ config :: back) wwpn targetId)
    (ht : config.targetId = targetId) (hback : ∀ iter ∈ back, iter.targetId ≠ targetId) :
    fcInitiatorCheck (front ++ config :: back) wwpn targetId = config.rule := by
  obtain ⟨hdisk, hany⟩ := not_named_iff.1 hn
  have hw : config.wwpn ≠ wwpn := fun hw => hn ⟨config, by simp, hw, .inl ht⟩
  rw [fcInitiatorCheck_eq, hdisk]
  apply decision_of_ruleTarget
  · rw [foldl_ruleWwpn h, hany]
    rfl
  · rw [foldl_append, foldl_cons, foldl_ruleTarget_of_ne hback, note_ruleTarget_of_eq hw ht]

theorem exists_last {p : FcRule → Bool} (h : ∃ x ∈ l, p x = true) :
    ∃ front x back, l = front ++ x :: back ∧ p x = true ∧ ∀ y ∈ back, p y = false := by
  obtain ⟨x, hx⟩ := Option.isSome_iff_exists.mp (find?_isSome.mpr (by simpa using h) : (l.reverse.find? p).isSome)
  obtain ⟨hp, back, front, hl, hback⟩ := find?_eq_some_iff_append.mp hx
  exact ⟨front.reverse, x, back.reverse, by simpa using congrArg reverse hl, hp, by simpa using hback⟩

theorem exists_other_port (wwpn : Port) : ∃ p : Port, p ≠ wwpn ∧ p ≠ anyPort := by
  by_cases h : wwpn = ⟨1, 0⟩
  · exact ⟨⟨2, 0⟩, by rw [h]; decide, by decide⟩
  · exact ⟨⟨1, 0⟩, Ne.symm h, by decide⟩

theorem exists_leak (h : Listed l) (hn : ¬ Named l wwpn targetId) : ∃ rule : FcRule, ¬ rule.Applies wwpn targetId ∧
      fcInitiatorCheck (targetAddFcRule l rule) wwpn targetId ≠ fcInitiatorCheck l wwpn targetId := by
  by_cases hother : ∃ x ∈ l, decide (x.targetId = targetId ∧ x.wwpn ≠ anyPort) = true
  · -- another port already has a rule for the disk: turn the last such rule over
    obtain ⟨front, x, back, rfl, hx, hback⟩ := exists_last hother
    obtain ⟨ht, hany⟩ := of_decide_eq_true hx
    have hlast : ∀ iter ∈ back, iter.targetId ≠ targetId := by
      intro iter hiter hid
      have hnamed : iter.wwpn = anyPort := by
        simpa [hid] using hback iter hiter
      have hfirst := (pairwise_cons.mp (pairwise_append.mp h.anyFirst).2.1).1
      exact hany (hfirst iter hiter hnamed)
    have hw : x.wwpn ≠ wwpn := fun hw => hn ⟨x, by simp, hw, .inl ht⟩
    have hout : ¬ FcRule.Applies ⟨x.wwpn, targetId, x.rule.other⟩ wwpn targetId :=
      fun happ => happ.1.elim hw hany
    have hadd : targetAddFcRule (front ++ x :: back) ⟨x.wwpn, targetId, x.rule.other⟩ =
        front ++ ⟨x.wwpn, targetId, x.rule.other⟩ :: back :=
      add_of_listed h (matches_iff.2 ⟨rfl, ht⟩)
    refine ⟨⟨x.wwpn, targetId, x.rule.other⟩, hout, ?_⟩
    have hn' := mt (agree_add hout).named_iff.mp hn
    have h' := h.add ⟨x.wwpn, targetId, x.rule.other⟩
    rw [hadd] at hn' h' ⊢
    rw [fcInitiatorCheck_of_last h' hn' rfl hlast, fcInitiatorCheck_of_last h hn ht hlast]
    exact x.rule.other_ne
  · -- no named port has a rule for the disk: enter one at the tail
    obtain ⟨p, hw, hany⟩ := exists_other_port wwpn
    let rule : FcRule := ⟨p, targetId, (fcInitiatorCheck l wwpn targetId).other⟩
    have hout : ¬ rule.Applies wwpn targetId := fun happ => happ.1.elim hw hany
    have hadd : targetAddFcRule l rule = l ++ [rule] := by
      rcases add_cases l rule with ⟨front, iter, back, rfl, hm, -⟩ | ⟨-, ⟨hp, -⟩ | ⟨-, hadd⟩⟩
      · obtain ⟨hp, ht⟩ := matches_iff.1 hm
        exact absurd ⟨iter, by simp, decide_eq_true ⟨ht, hp ▸ hany⟩⟩ hother
      · exact absurd hp hany
      · exact hadd
    refine ⟨rule, hout, ?_⟩
    have hn' := mt (agree_add hout).named_iff.mp hn
    have h' := h.add rule
    rw [hadd] at hn' h' ⊢
    rw [fcInitiatorCheck_of_last h' hn' rfl (by simp)]
    exact Rule.other_ne _

/-- In every list that operations build, the decision for a port and a disk is safe from rules about others, and follows
the order of precedence, exactly when a rule names the port for that disk or for any disk. -/
theorem isolated_iff_named (h : system.Reachable l) (wwpn : Port) (targetId : UInt32) : Isolated l wwpn targetId ↔
      ∃ rule ∈ l, rule.wwpn = wwpn ∧ (rule.targetId = targetId ∨ rule.targetId = anyDisk) := by
  have hl := listed_invariant.reachable h
  constructor
  · intro hiso
    by_contra hn
    obtain ⟨rule, hrule, hleak⟩ := exists_leak hl hn
    exact hleak (hiso.add rule hrule)
  · intro hn
    exact isolated_of_named hl hn

theorem isolated_own_rule : Isolated (targetAddFcRule [] ⟨⟨1, 0⟩, 5, .disallow⟩) ⟨1, 0⟩ 5 :=
  (isolated_iff_named (.step (a := .add ⟨⟨1, 0⟩, 5, .disallow⟩) (.init rfl) rfl) ⟨1, 0⟩ 5).mpr (by decide)

theorem other_port_locked_out : system.Reachable [] ∧ ¬ FcRule.Applies ⟨⟨2, 0⟩, 5, .disallow⟩ ⟨1, 0⟩ 5 ∧
      fcInitiatorCheck [] ⟨1, 0⟩ 5 = .allow ∧
      fcInitiatorCheck (targetAddFcRule [] ⟨⟨2, 0⟩, 5, .disallow⟩) ⟨1, 0⟩ 5 = .disallow :=
  ⟨.init rfl, by decide, by decide, by decide⟩

end QuadStor.FcRules
