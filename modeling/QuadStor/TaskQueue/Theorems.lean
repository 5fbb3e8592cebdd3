import QuadStor.TaskQueue.Basic

/-!
# Which commands overtake which, and what the counters say
-/

namespace QuadStor.TaskQueue

open Lib List

variable {h : List Event} {task : Task} {c : Ctio}

theorem StartOk.mono {h' : List Event} (hok : StartOk h task)
    (harr : ∀ earlier, .arrived earlier ∈ h' → earlier.tag < task.tag → .arrived earlier ∈ h)
    (hcompl : ∀ earlier, .completed earlier ∈ h → .completed earlier ∈ h') : StartOk h' task where
  afterEarlier ho earlier ha hlt :=
    hcompl earlier (hok.afterEarlier ho earlier (harr earlier ha hlt) hlt)
  notOvertaking hn earlier ho ha hlt :=
    hcompl earlier (hok.notOvertaking hn earlier ho (harr earlier ha hlt) hlt)

theorem inOrder_concat {e : Event} : InOrder (h ++ [e]) ↔ InOrder h ∧ ∀ task, e = .started task → StartOk h task := by
  constructor
  · intro hord
    refine ⟨?_, ?_⟩
    · intro before task after heq
      exact hord before task (after ++ [e]) (by rw [heq, append_assoc, cons_append])
    · rintro task rfl
      exact hord h task [] rfl
  · rintro ⟨hord, hlast⟩ before task after heq
    rcases eq_nil_or_concat after with rfl | ⟨front, x, rfl⟩
    · obtain ⟨rfl, hx⟩ := append_inj' heq rfl
      exact hlast task (List.cons.inj hx).1
    · rw [concat_eq_append, ← cons_append, ← append_assoc] at heq
      exact hord before task front (append_inj' heq rfl).1

theorem inOrder_append_started {tasks : List Task} (hord : InOrder h)
    (hok : ∀ task ∈ tasks, StartOk h task) : InOrder (h ++ tasks.map .started) := by
  induction tasks generalizing h with
  | nil => simpa using hord
  | cons t rest ih =>
    rw [map_cons, append_cons]
    apply ih
    · refine inOrder_concat.2 ⟨hord, ?_⟩
      rintro _ ⟨⟩
      exact hok t mem_cons_self
    · intro x hx
      apply (hok x (mem_cons_of_mem _ hx)).mono
      · intro earlier ha _
        simpa using ha
      · simp +contextual

/-! ## The loop of the completion path -/

def running (p : Task → Bool) (l : List Ctio) : Nat :=
  l.countP fun c => c.queued && p c.toTask

variable {l : List Ctio}

theorem rescan_spec (o q : Nat) (l : List Ctio) : (rescan o q l).1.map Ctio.toTask = l.map Ctio.toTask ∧
    (∀ p, running p (rescan o q l).1 = running p l + (rescan o q l).2.countP p) ∧
    ((∀ c ∈ l, c.taskAttr = .headOfQueue → c.queued = true) →
      ∀ c ∈ (rescan o q l).1, c.taskAttr = .headOfQueue → c.queued = true) := by
  unfold running
  fun_induction rescan o q l with
  | case1 | case3 | case5 | case6 | case8 => exact ⟨rfl, fun _ => rfl, id⟩
  | case2 o q iter rest _ ih =>
    obtain ⟨htasks, hrun, hhead⟩ := ih
    refine ⟨by simp only [Scanned.pass, map_cons, htasks], fun p => ?_, fun h => ?_⟩
    · simp only [Scanned.pass, countP_cons, hrun p]
      omega
    · obtain ⟨hiter, hrest⟩ := forall_mem_cons.mp h
      exact forall_mem_cons.mpr ⟨hiter, hhead hrest⟩
  | case4 o q iter rest hq _ _ ih | case7 o q iter rest hq _ _ ih | case9 o q iter rest hq _ _ ih =>
    obtain ⟨htasks, hrun, hhead⟩ := ih
    refine ⟨by simp only [Scanned.start, map_cons, htasks], fun p => ?_, fun h => ?_⟩
    · simp only [Scanned.start, countP_cons, hrun p, Bool.eq_false_iff.mpr hq, Bool.true_and, Bool.false_and,
        Bool.false_eq_true, if_false]
      omega
    · exact forall_mem_cons.mpr ⟨fun _ => rfl, hhead (forall_mem_cons.mp h).2⟩

theorem rescan_waiting : (rescan 0 0 l).1.countP (fun c => !c.queued) + (rescan 0 0 l).2.length =
    l.countP fun c => !c.queued := by
  obtain ⟨htasks, hrun, -⟩ := rescan_spec 0 0 l
  have hlen : (rescan 0 0 l).1.length = l.length := by simpa using congrArg List.length htasks
  have hrun := hrun fun _ => true
  rw [length_eq_countP_add_countP (·.queued), length_eq_countP_add_countP (·.queued)] at hlen
  simp only [running, Bool.and_true, countP_true] at hrun
  simp only [Bool.not_eq_true, Bool.decide_eq_false] at hlen
  omega

def StartsIn (o q : Nat) (l : List Ctio) (task : Task) : Prop :=
  ∃ front back, l.map Ctio.toTask = front ++ task :: back ∧ task.taskAttr ≠ .headOfQueue ∧
    (task.isOrdered = true → q = 0 ∧ front = []) ∧
    (task.isOrdered = false → o = 0 ∧ ∀ x ∈ front, x.taskAttr = .simple)

theorem StartsIn.cons {o o' q q' : Nat} {iter : Ctio} (h : StartsIn o (q + 1) l task)
    (hiter : o = 0 → iter.taskAttr = .simple ∧ o' = 0) : StartsIn o' q' (iter :: l) task := by
  obtain ⟨front, back, hl, hattr, hord, hsimple⟩ := h
  refine ⟨iter.toTask :: front, back, by simp [hl], hattr, ?_, ?_⟩
  · intro ho
    exact absurd (hord ho).1 (Nat.succ_ne_zero q)
  · intro ho
    obtain ⟨hzero, hfront⟩ := hsimple ho
    exact ⟨(hiter hzero).2, forall_mem_cons.mpr ⟨(hiter hzero).1, hfront⟩⟩

theorem rescan_starts (o q : Nat) (l : List Ctio) : ∀ task ∈ (rescan o q l).2, StartsIn o q l task := by
  fun_induction rescan o q l with
  | case1 | case3 | case5 | case6 | case8 => simp
  | case2 o q iter rest _ ih =>
    intro task htask
    exact (ih task htask).cons (by split <;> simp_all)
  | case4 o q iter rest _ hattr ho ih =>
    refine forall_mem_cons.mpr ⟨⟨[], rest.map Ctio.toTask, rfl, by simp [hattr], ?_, ?_⟩, ?_⟩
    · simp [Task.isOrdered, hattr]
    · simpa using fun _ => ho
    · exact fun task htask => (ih task htask).cons fun hzero => ⟨hattr, hzero⟩
  | case7 o q iter rest _ hattr hq ih | case9 o q iter rest _ hattr hq ih =>
    refine forall_mem_cons.mpr ⟨⟨[], rest.map Ctio.toTask, rfl, by simp [hattr], ?_, ?_⟩, ?_⟩
    · simpa using fun _ => hq
    · simp [Task.isOrdered, hattr]
    · exact fun task htask => (ih task htask).cons (by simp)

theorem rescan_first {l : List Ctio} (hhead : c.taskAttr = .headOfQueue → c.queued = true) :
    ∃ c' l', (rescan 0 0 (c :: l)).1 = c' :: l' ∧ c'.queued = true := by
  cases hq : c.queued with
  | true =>
    refine ⟨c, (rescan (if c.taskAttr = .simple then 0 else 1) 1 l).1, ?_, hq⟩
    rw [rescan, if_pos hq]
    rfl
  | false =>
    refine ⟨{ c with queued := true }, ?_⟩
    cases hattr : c.taskAttr with
    | headOfQueue => rw [hhead hattr] at hq; cases hq
    | simple | ordered | aca => simp [rescan, hq, hattr, Scanned.start]

def isHead (task : Task) : Bool := task.taskAttr = .headOfQueue

/-- The counters are those of the list, head-of-queue commands never wait, and neither does the
first command of the list. -/
structure Counted (istate : Istate) : Prop where
  queued : istate.queued = running (fun _ => true) istate.queueList
  ordered : istate.ordered = running Task.isOrdered istate.queueList
  head : istate.head = running isHead istate.queueList
  pending : istate.queueList.countP (fun c => !c.queued) ≤ istate.pending
  headStarted : ∀ c ∈ istate.queueList, c.taskAttr = .headOfQueue → c.queued = true
  firstStarted : ∀ c l, istate.queueList = c :: l → c.queued = true

variable {istate : Istate}

theorem Counted.nil_of_queued (h : Counted istate) (hq : istate.queued = 0) : istate.queueList = [] := by
  cases hl : istate.queueList with
  | nil => rfl
  | cons c l =>
    have hfirst := h.firstStarted c l hl
    rw [h.queued, hl, running] at hq
    simp [hfirst] at hq

theorem Counted.not_started_of_ordered (h : Counted istate) (ho : istate.ordered = 0) :
    ∀ c ∈ istate.queueList, c.queued = true → c.isOrdered = false := by
  intro c hc hq
  rw [h.ordered, running, countP_eq_zero] at ho
  simpa [hq] using ho c hc

theorem running_append (p : Task → Bool) (l : List Ctio) (c : Ctio) :
    running p (l ++ [c]) = running p l + if c.queued && p c.toTask then 1 else 0 := by
  simp [running, countP_append, countP_cons]

theorem running_erase (p : Task → Bool) {l : List Ctio} (hc : c ∈ l) :
    running p (l.erase c) = running p l - if c.queued && p c.toTask then 1 else 0 := by
  simp [running, countP_erase, hc]

theorem Counted.queueCmd (h : Counted istate) (task : Task) : Counted (istateQueueCmd istate task) where
  queued := by
    simp only [istateQueueCmd, running_append, ← h.queued, Bool.and_true]
    split <;> rfl
  ordered := by
    simp only [istateQueueCmd, running_append, ← h.ordered]
    split <;> rfl
  head := by
    simp only [istateQueueCmd, running_append, ← h.head, isHead]
    by_cases hattr : task.taskAttr = .headOfQueue <;> simp [hattr, mayStart]
  pending := by
    have hp := h.pending
    simp only [istateQueueCmd, countP_append, countP_singleton]
    cases mayStart istate task.taskAttr <;> simpa using hp
  headStarted := by
    intro c hc
    rcases mem_append.mp hc with hc | hc
    · exact h.headStarted c hc
    · rw [mem_singleton.mp hc]
      intro hattr
      rw [hattr]; rfl
  firstStarted := by
    intro c l heq
    simp only [istateQueueCmd] at heq
    cases hl : istate.queueList with
    | cons c' l' =>
      rw [hl] at heq
      cases heq
      exact h.firstStarted c l' hl
    | nil =>
      rw [hl] at heq
      cases heq
      have hzero : istate.queued = 0 ∧ istate.ordered = 0 ∧ istate.head = 0 := by
        rw [h.queued, h.ordered, h.head, hl]; exact ⟨rfl, rfl, rfl⟩
      cases hattr : task.taskAttr <;> simp [mayStart, hzero]

@[simp] theorem uncount_pending (istate : Istate) (c : Ctio) : (uncount istate c).pending = istate.pending := by
  unfold uncount; split <;> rfl

theorem foldl_count (tasks : List Task) (i : Istate) : (tasks.foldl count i).queued = i.queued + tasks.length ∧
      (tasks.foldl count i).ordered = i.ordered + tasks.countP Task.isOrdered ∧
      (tasks.foldl count i).head = i.head ∧
      (tasks.foldl count i).pending = i.pending - tasks.length := by
  induction tasks generalizing i with
  | nil => simp
  | cons t rest ih =>
    obtain ⟨hq, ho, hh, hp⟩ := ih (count i t)
    rw [foldl_cons, hq, ho, hh, hp]
    simp only [count, length_cons, countP_cons]
    refine ⟨by omega, ?_, trivial, by omega⟩
    split <;> omega

theorem Counted.uncount (h : Counted istate) (hc : c ∈ istate.queueList) :
    (uncount istate c).queued = running (fun _ => true) (istate.queueList.erase c) ∧
      (uncount istate c).ordered = running Task.isOrdered (istate.queueList.erase c) ∧
      (uncount istate c).head = running isHead (istate.queueList.erase c) := by
  rw [running_erase _ hc, running_erase _ hc, running_erase _ hc, ← h.queued, ← h.ordered, ← h.head, TaskQueue.uncount]
  cases c.queued with
  | false => simp
  | true =>
    refine ⟨rfl, ?_, ?_⟩
    · simp only [if_true, Bool.true_and]; split <;> rfl
    · simp only [if_true, Bool.true_and, isHead, decide_eq_true_eq]; split <;> rfl

theorem Counted.removeCmd (h : Counted istate) (hc : c ∈ istate.queueList) : Counted (istateRemoveCmd istate c).1 := by
  obtain ⟨hqueued, hordered, hhead⟩ := h.uncount hc
  have hwait : (istate.queueList.erase c).countP (fun c => !c.queued) ≤ istate.pending :=
    Nat.le_trans erase_sublist.countP_le h.pending
  have hstarted : ∀ x ∈ istate.queueList.erase c, x.taskAttr = .headOfQueue → x.queued = true :=
    fun x hx => h.headStarted x (mem_of_mem_erase hx)
  unfold istateRemoveCmd
  simp only [uncount_pending]
  split
  case isTrue hstop =>
    refine ⟨hqueued, hordered, hhead, by simpa using hwait, hstarted, ?_⟩
    intro x l hl
    simp only at hl
    rcases hstop with hzero | hnot
    · -- nothing waits
      have hnone := countP_eq_zero.mp (Nat.le_zero.mp (hzero ▸ hwait))
      simpa using hnone x (hl ▸ mem_cons_self)
    · -- the first command stays
      cases hlist : istate.queueList with
      | nil => simp [hlist] at hl
      | cons y rest =>
        have hne : y ≠ c := by simpa [hlist] using hnot
        rw [hlist, erase_cons_tail (by simpa using hne)] at hl
        cases hl
        exact h.firstStarted _ rest hlist
  case isFalse hgo =>
    obtain ⟨hq, ho, hh, hp⟩ :=
      foldl_count (rescan 0 0 (istate.queueList.erase c)).2 (TaskQueue.uncount istate c)
    obtain ⟨-, hrun, hheads⟩ := rescan_spec 0 0 (istate.queueList.erase c)
    refine ⟨?_, ?_, ?_, ?_, hheads hstarted, ?_⟩
    · rw [hrun, hq, hqueued, countP_true]
    · rw [hrun, ho, hordered]
    · have hnone : (rescan 0 0 (istate.queueList.erase c)).2.countP isHead = 0 := by
        rw [countP_eq_zero]
        intro task htask
        obtain ⟨_, _, _, hne, _⟩ := rescan_starts 0 0 _ task htask
        simpa [isHead] using hne
      rw [hrun, hh, hhead, hnone, Nat.add_zero]
    · have hwaiting := rescan_waiting (l := istate.queueList.erase c)
      simp only [hp, uncount_pending]
      omega
    · intro x l' hl
      cases hrest : istate.queueList.erase c with
      | nil => simp [hrest, rescan] at hl
      | cons y rest =>
        have hy := hstarted y (hrest ▸ mem_cons_self)
        obtain ⟨c', l'', hfirst, hqueued'⟩ := rescan_first (l := rest) hy
        simp only [hrest, hfirst] at hl
        cases hl
        exact hqueued'

/-! ## The queue and the history -/

def Istate.tasks (istate : Istate) : List Task := istate.queueList.map Ctio.toTask

/-- The list holds the commands that have arrived and not completed, in order of arrival. -/
structure Recorded (s : State) : Prop where
  sorted : s.istate.tasks.Pairwise fun a b => a.tag < b.tag
  arrivedIff : ∀ t, .arrived t ∈ s.history ↔ t ∈ s.istate.tasks ∨ .completed t ∈ s.history
  notCompleted : ∀ t ∈ s.istate.tasks, .completed t ∉ s.history
  fresh : ∀ t, .arrived t ∈ s.history → t.tag < s.arrived

variable {s : State}

theorem tasks_queueCmd (istate : Istate) (task : Task) :
    (istateQueueCmd istate task).tasks = istate.tasks ++ [task] := by
  simp [istateQueueCmd, Istate.tasks]

theorem tasks_removeCmd (istate : Istate) (c : Ctio) :
    (istateRemoveCmd istate c).1.tasks = (istate.queueList.erase c).map Ctio.toTask := by
  simp only [istateRemoveCmd, Istate.tasks]
  split
  · rfl
  · exact (rescan_spec 0 0 _).1

theorem started_removeCmd (hstart : task ∈ (istateRemoveCmd istate c).2) :
    ∃ rest, istate.queueList = c :: rest ∧ istate.queueList.erase c = rest ∧ task ∈ (rescan 0 0 rest).2 := by
  simp only [istateRemoveCmd] at hstart
  split at hstart
  case isTrue => cases hstart
  case isFalse hgo =>
    have hfirst : istate.queueList.head? = some c := by
      by_contra hne
      exact hgo (.inr hne)
    cases hl : istate.queueList with
    | nil => simp [hl] at hfirst
    | cons x rest =>
      rw [hl] at hfirst hstart
      cases hfirst
      rw [erase_cons_head] at hstart ⊢
      exact ⟨rest, rfl, rfl, hstart⟩

theorem startOk_of_tasks (front back : List Task) (hsorted : (front ++ task :: back).Pairwise fun a b => a.tag < b.tag)
    (hrec : ∀ t, .arrived t ∈ h → t ∈ front ++ task :: back ∨ .completed t ∈ h)
    (hord : task.isOrdered = true → front = []) (hfront : ∀ x ∈ front, x.isOrdered = false) : StartOk h task := by
  have hahead : ∀ t, .arrived t ∈ h → t.tag < task.tag → t ∈ front ∨ .completed t ∈ h := by
    intro t ha hlt
    rcases hrec t ha with hmem | hcompl
    · obtain ⟨-, hback, -⟩ := pairwise_append.mp hsorted
      rcases mem_append.mp hmem with hmem | hmem
      · exact .inl hmem
      · rcases mem_cons.mp hmem with rfl | hmem
        · exact absurd hlt (Nat.lt_irrefl _)
        · have := (pairwise_cons.mp hback).1 t hmem
          omega
    · exact .inr hcompl
  constructor
  · intro ho t ha hlt
    rcases hahead t ha hlt with hmem | hcompl
    · rw [hord ho] at hmem
      cases hmem
    · exact hcompl
  · intro _ t ht ha hlt
    rcases hahead t ha hlt with hmem | hcompl
    · rw [hfront t hmem] at ht
      cases ht
    · exact hcompl

@[simp] theorem completed_mem_arrive (s : State) (attr : TaskAttr) (t : Task) :
    .completed t ∈ (s.arrive attr).history ↔ .completed t ∈ s.history := by
  simp only [State.arrive]
  split <;> simp

@[simp] theorem arrived_mem_arrive (s : State) (attr : TaskAttr) (t : Task) :
    .arrived t ∈ (s.arrive attr).history ↔ .arrived t ∈ s.history ∨ t = ⟨s.arrived, attr⟩ := by
  simp only [State.arrive]
  split <;> simp

@[simp] theorem completed_mem_complete (s : State) (c : Ctio) (t : Task) :
    .completed t ∈ (s.complete c).history ↔ .completed t ∈ s.history ∨ t = c.toTask := by
  simp [State.complete]

@[simp] theorem arrived_mem_complete (s : State) (c : Ctio) (t : Task) :
    .arrived t ∈ (s.complete c).history ↔ .arrived t ∈ s.history := by
  simp [State.complete]

section

variable (hr : Recorded s)
include hr

theorem Recorded.lt_arrived {t : Task} (ht : t ∈ s.istate.tasks) : t.tag < s.arrived :=
  hr.fresh t ((hr.arrivedIff t).mpr (.inl ht))

theorem Recorded.sorted_concat (attr : TaskAttr) :
    (s.istate.tasks ++ [(⟨s.arrived, attr⟩ : Task)]).Pairwise fun a b => a.tag < b.tag := by
  refine pairwise_append.mpr ⟨hr.sorted, pairwise_singleton _ _, ?_⟩
  intro a ha b hb
  rw [mem_singleton.mp hb]
  exact hr.lt_arrived ha

theorem Recorded.arrive (attr : TaskAttr) : Recorded (s.arrive attr) where
  sorted := by
    rw [State.arrive, tasks_queueCmd]
    exact hr.sorted_concat attr
  arrivedIff t := by
    rw [arrived_mem_arrive, completed_mem_arrive, hr.arrivedIff, State.arrive, tasks_queueCmd]
    simp only [mem_append, mem_singleton]
    tauto
  notCompleted t ht := by
    rw [completed_mem_arrive]
    rw [State.arrive, tasks_queueCmd] at ht
    rcases mem_append.mp ht with ht | ht
    · exact hr.notCompleted t ht
    · intro hcompl
      have := hr.fresh t ((hr.arrivedIff t).mpr (.inr hcompl))
      rw [mem_singleton.mp ht] at this
      exact Nat.lt_irrefl _ this
  fresh t ht := by
    rcases (arrived_mem_arrive s attr t).mp ht with ht | rfl
    · exact Nat.lt_succ_of_lt (hr.fresh t ht)
    · exact Nat.lt_succ_self _

theorem Recorded.complete (hc : c ∈ s.istate.queueList) : Recorded (s.complete c) := by
  obtain ⟨front, back, -, hlist, herase⟩ := exists_erase_eq hc
  have htasks : s.istate.tasks = front.map Ctio.toTask ++ c.toTask :: back.map Ctio.toTask := by
    simp [Istate.tasks, hlist]
  have htasks' : (s.complete c).istate.tasks = front.map Ctio.toTask ++ back.map Ctio.toTask := by
    simp [State.complete, tasks_removeCmd, herase]
  have hsorted := htasks ▸ hr.sorted
  have hsub : (s.complete c).istate.tasks.Sublist s.istate.tasks := by
    rw [htasks, htasks']
    exact (List.Sublist.refl _).append (sublist_cons_self _ _)
  refine ⟨hr.sorted.sublist hsub, ?_, ?_, ?_⟩
  · intro t
    rw [arrived_mem_complete, completed_mem_complete, hr.arrivedIff, htasks, htasks']
    simp only [mem_append, mem_cons]
    tauto
  · intro t ht hcompl
    rcases (completed_mem_complete s c t).mp hcompl with hcompl | rfl
    · exact hr.notCompleted t (hsub.subset ht) hcompl
    · rw [htasks'] at ht
      obtain ⟨-, hback, hfront⟩ := pairwise_append.mp hsorted
      rcases mem_append.mp ht with ht | ht
      · exact Nat.lt_irrefl _ (hfront _ ht _ mem_cons_self)
      · exact Nat.lt_irrefl _ ((pairwise_cons.mp hback).1 _ ht)
  · intro t ht
    exact hr.fresh t ((arrived_mem_complete s c t).mp ht)

end

def Ok (s : State) : Prop := Counted s.istate ∧ Recorded s

theorem ok_invariant : system.Invariant Ok where
  init := by
    rintro _ rfl
    refine ⟨⟨rfl, rfl, rfl, Nat.le_refl _, by simp [State.initial], by simp [State.initial]⟩, ?_⟩
    exact ⟨.nil, by simp [State.initial, Istate.tasks], by simp [State.initial, Istate.tasks],
      by simp [State.initial]⟩
  step := by
    rintro _ _ _ ⟨hcounted, hr⟩ hstep
    cases hstep with
    | arrive attr => exact ⟨hcounted.queueCmd _, hr.arrive attr⟩
    | complete c hc => exact ⟨hcounted.removeCmd hc, hr.complete hc⟩

theorem inOrder_complete (hr : Recorded s) (c : Ctio) (hord : InOrder s.history) : InOrder (s.complete c).history := by
  rw [State.complete, append_cons]
  apply inOrder_append_started
  · exact inOrder_concat.2 ⟨hord, by simp⟩
  · intro t ht
    obtain ⟨rest, hlist, -, ht⟩ := started_removeCmd ht
    obtain ⟨front, back, hrest, -, hfirst, hsimple⟩ := rescan_starts 0 0 rest t ht
    have htasks : s.istate.tasks = c.toTask :: (front ++ t :: back) := by
      rw [Istate.tasks, hlist, map_cons, hrest]
    apply startOk_of_tasks front back
    · exact (pairwise_cons.mp (htasks ▸ hr.sorted)).2
    · intro x hx
      have hx : .arrived x ∈ s.history := by simpa using hx
      rw [hr.arrivedIff, htasks, mem_cons] at hx
      simp only [mem_append, mem_singleton, Event.completed.injEq] at hx ⊢
      tauto
    · exact fun ho => (hfirst ho).2
    · intro x hx
      cases ho : t.isOrdered with
      | true => rw [(hfirst ho).2] at hx; cases hx
      | false => simp [Task.isOrdered, (hsimple ho).2 x hx]

theorem startOk_arrive_iff (hr : Recorded s) {attr : TaskAttr} (hattr : attr ≠ .headOfQueue) :
    StartOk (s.history ++ [.arrived ⟨s.arrived, attr⟩]) ⟨s.arrived, attr⟩ ↔
      (Task.isOrdered ⟨s.arrived, attr⟩ = true → s.istate.tasks = []) ∧ ∀ t ∈ s.istate.tasks, t.isOrdered = false := by
  have harr {t : Task} (ht : t ∈ s.istate.tasks) : .arrived t ∈ s.history ++ [Event.arrived ⟨s.arrived, attr⟩] :=
    mem_append_left _ ((hr.arrivedIff t).mpr (.inl ht))
  have hopen {t : Task} (ht : t ∈ s.istate.tasks) : .completed t ∉ s.history ++ [Event.arrived ⟨s.arrived, attr⟩] := by
    simpa using hr.notCompleted t ht
  constructor
  · intro hok
    refine ⟨?_, ?_⟩
    · intro ho
      apply eq_nil_iff_forall_not_mem.mpr
      intro t ht
      exact hopen ht (hok.afterEarlier ho t (harr ht) (hr.lt_arrived ht))
    · intro t ht
      apply eq_false_of_ne_true
      intro hto
      exact hopen ht (hok.notOvertaking hattr t hto (harr ht) (hr.lt_arrived ht))
  · rintro ⟨hord, hfront⟩
    apply startOk_of_tasks s.istate.tasks [] (hr.sorted_concat attr)
    · intro t ht
      simp only [mem_append, mem_singleton, Event.arrived.injEq, hr.arrivedIff] at ht ⊢
      tauto
    · exact hord
    · exact hfront

theorem inOrder_arrive_iff (hcounted : Counted s.istate) (hr : Recorded s)
    (hord : InOrder s.history) (attr : TaskAttr) : InOrder (s.arrive attr).history ↔ Allowed s (.arrive attr) := by
  have harrived : InOrder (s.history ++ [.arrived ⟨s.arrived, attr⟩]) :=
    inOrder_concat.2 ⟨hord, by simp⟩
  cases hstart : mayStart s.istate attr with
  | false =>
    have hhist : (s.arrive attr).history = s.history ++ [.arrived ⟨s.arrived, attr⟩] := by
      simp [State.arrive, hstart]
    rw [hhist]
    refine iff_of_true harrived ?_
    cases attr with
    | simple =>
      intro ho hh
      simp [mayStart, ho, hh] at hstart
    | headOfQueue | ordered | aca => trivial
  | true =>
    have hhist : (s.arrive attr).history =
        (s.history ++ [.arrived ⟨s.arrived, attr⟩]) ++ [.started ⟨s.arrived, attr⟩] := by
      simp [State.arrive, hstart]
    rw [hhist, inOrder_concat]
    simp only [harrived, true_and, Event.started.injEq, forall_eq']
    have hempty (hq : s.istate.queued = 0) : s.istate.tasks = [] := by
      rw [Istate.tasks, hcounted.nil_of_queued hq, map_nil]
    cases attr with
    | simple =>
      obtain ⟨ho, hh⟩ : s.istate.ordered = 0 ∧ s.istate.head = 0 := by
        simpa [mayStart] using hstart
      rw [startOk_arrive_iff hr (by decide)]
      constructor
      · rintro ⟨-, hnone⟩ _ _ c hc hco
        have := hnone c.toTask (mem_map_of_mem hc)
        rw [hco] at this
        cases this
      · intro hall
        refine ⟨by simp [Task.isOrdered], ?_⟩
        intro t ht
        obtain ⟨c, hc, rfl⟩ := List.mem_map.mp ht
        apply eq_false_of_ne_true
        intro hco
        have := hcounted.not_started_of_ordered ho c hc (hall ho hh c hc hco)
        rw [hco] at this
        cases this
    | headOfQueue =>
      refine iff_of_true ⟨by simp [Task.isOrdered], by simp⟩ trivial
    | ordered | aca =>
      refine iff_of_true ((startOk_arrive_iff hr (by decide)).mpr ?_) trivial
      simp [hempty (by simpa [mayStart] using hstart)]

theorem inOrder_step_iff {a : Action} {t : State} (hs : system.Reachable s)
    (hord : InOrder s.history) (hstep : system.step s a t) : InOrder t.history ↔ Allowed s a := by
  obtain ⟨hcounted, hr⟩ := ok_invariant.reachable hs
  cases hstep with
  | arrive attr => exact inOrder_arrive_iff hcounted hr hord attr
  | complete c => exact iff_of_true (inOrder_complete hr c hord) trivial

/-- Ordered commands are not overtaken in any run in which no simple command arrives while an ordered one waits and
neither an ordered nor a head-of-queue command runs. Each arrival of that kind breaks the order: `istate_queue_cmd`
looks only at the counters of started commands. -/
theorem in_order_of_allowed (hs : (system.restrict Allowed).Reachable s) : InOrder s.history ∧
      ∀ a t, system.step s a t → (InOrder t.history ↔ Allowed s a) := by
  have hord : InOrder s.history := by
    induction hs with
    | init hi =>
      cases hi
      intro before task after heq
      simp [State.initial] at heq
    | step hs hst ih => exact (inOrder_step_iff hs.of_restrict ih hst.2).mpr hst.1
  exact ⟨hord, fun a t hstep => inOrder_step_iff hs.of_restrict hord hstep⟩

section

variable {P : State → Action → Prop} (hs : (system.restrict P).Reachable s)
include hs

theorem reachable_arrive (attr : TaskAttr) (hp : P s (.arrive attr)) : (system.restrict P).Reachable (s.arrive attr) :=
  .step hs ⟨hp, .arrive _ _⟩

theorem reachable_complete (hc : c ∈ s.istate.queueList) (hp : P s (.complete c)) :
    (system.restrict P).Reachable (s.complete c) :=
  .step hs ⟨hp, .complete _ _ hc⟩

end

theorem in_order_waiting : InOrder [.arrived ⟨0, .simple⟩, .started ⟨0, .simple⟩, .arrived ⟨1, .ordered⟩,
      .completed ⟨0, .simple⟩, .started ⟨1, .ordered⟩, .arrived ⟨2, .simple⟩] := by
  have h₁ : (system.restrict Allowed).Reachable _ := reachable_arrive (.init rfl) .simple (by simp [Allowed, State.initial])
  have h₂ := reachable_arrive h₁ .ordered trivial
  have h₃ := reachable_complete h₂ (c := ⟨⟨0, .simple⟩, true⟩) (by decide) trivial
  have h₄ := reachable_arrive h₃ .simple fun h => absurd h (by decide)
  exact (in_order_of_allowed h₄).1

theorem simple_overtakes : ∃ s, system.Reachable s ∧
      s.history = [.arrived ⟨0, .simple⟩, .started ⟨0, .simple⟩, .arrived ⟨1, .ordered⟩,
        .arrived ⟨2, .simple⟩, .started ⟨2, .simple⟩] ∧ ¬ InOrder s.history := by
  have hrun : system.Reachable (((State.initial.arrive .simple).arrive .ordered).arrive .simple) :=
    .step (.step (.step (.init rfl) (.arrive _ _)) (.arrive _ _)) (.arrive _ _)
  refine ⟨_, hrun, by decide, ?_⟩
  intro hord
  have hstart := hord [.arrived ⟨0, .simple⟩, .started ⟨0, .simple⟩, .arrived ⟨1, .ordered⟩,
    .arrived ⟨2, .simple⟩] ⟨2, .simple⟩ [] (by decide)
  have hdone := hstart.notOvertaking (by decide) ⟨1, .ordered⟩ rfl (by decide) (by decide)
  revert hdone
  decide

def waiting (l : List Ctio) : Nat := l.countP fun c => !c.queued

def CompletesStarted (_ : State) : Action → Prop
  | .arrive _ => True
  | .complete ctio => ctio.queued = true

theorem pending_queueCmd (h : istate.pending = waiting istate.queueList) (task : Task) :
    (istateQueueCmd istate task).pending = waiting (istateQueueCmd istate task).queueList := by
  simp only [istateQueueCmd, waiting, countP_append, countP_singleton, h]
  cases mayStart istate task.taskAttr <;> rfl

theorem pending_removeCmd (h : istate.pending = waiting istate.queueList) (hq : c.queued = true) :
    (istateRemoveCmd istate c).1.pending = waiting (istateRemoveCmd istate c).1.queueList := by
  have herase : waiting (istate.queueList.erase c) = waiting istate.queueList := by
    simp [waiting, countP_erase, hq]
  unfold istateRemoveCmd
  simp only [uncount_pending]
  split
  · simp only [herase, h]
  · have hscan := rescan_waiting (l := istate.queueList.erase c)
    have hpending := (foldl_count (rescan 0 0 (istate.queueList.erase c)).2 (uncount istate c)).2.2.2
    simp only [hpending, uncount_pending, h, ← herase]
    unfold waiting
    omega

/-- However commands arrive, and in whatever order the started ones complete, the counters are exact and the first
command of the list has been started. Only the started ordered commands are counted. -/
theorem counters_exact (hs : (system.restrict CompletesStarted).Reachable s) :
    s.istate.queued = s.istate.queueList.countP (·.queued) ∧ s.istate.pending = waiting s.istate.queueList ∧
      s.istate.ordered = s.istate.queueList.countP (fun c => c.queued && c.isOrdered) ∧
      s.istate.head = s.istate.queueList.countP (fun c => isHead c.toTask) ∧
      ∀ c l, s.istate.queueList = c :: l → c.queued = true := by
  obtain ⟨hcounted, -⟩ := System.Invariant.reachable ok_invariant hs.of_restrict
  refine ⟨by simpa [running] using hcounted.queued, ?_, hcounted.ordered, hcounted.head.trans ?_, hcounted.firstStarted⟩
  · induction hs with
    | init hi =>
      cases hi
      rfl
    | @step s a t hs hst ih =>
      obtain ⟨ha, hst⟩ := hst
      have ih := ih (System.Invariant.reachable ok_invariant hs.of_restrict).1
      cases hst with
      | arrive attr => exact pending_queueCmd ih _
      | complete c => exact pending_removeCmd ih ha
  · refine countP_congr fun c hc => ?_
    simpa [isHead] using hcounted.headStarted c hc

theorem counters_exact_waiting : let s := ((State.initial.arrive .simple).arrive .ordered).complete ⟨⟨0, .simple⟩, true⟩
    s.istate.ordered = 1 ∧ s.istate.pending = waiting s.istate.queueList := by
  have h₂ : (system.restrict CompletesStarted).Reachable _ :=
    reachable_arrive (reachable_arrive (.init rfl) .simple trivial) .ordered trivial
  exact ⟨by decide, (counters_exact (reachable_complete h₂ (c := ⟨⟨0, .simple⟩, true⟩) (by decide) rfl)).2.1⟩

/-- An ordered command that waits behind a simple one is not counted. -/
theorem ordered_waiting_not_counted : ∃ s, (system.restrict CompletesStarted).Reachable s ∧ s.istate.ordered = 0 ∧
      s.istate.queueList.countP (fun c => c.isOrdered) = 1 :=
  ⟨_, reachable_arrive (reachable_arrive (.init rfl) .simple trivial) .ordered trivial, by decide, by decide⟩

/-- As long as no command arrives, and whichever started ones complete, there is a next one to complete until the queue
is empty. -/
inductive Drains : State → Prop
  | empty {s : State} : s.istate.queueList = [] → Drains s
  | complete {s : State} : (∃ c ∈ s.istate.queueList, c.queued = true) →
    (∀ c ∈ s.istate.queueList, c.queued = true → Drains (s.complete c)) → Drains s

theorem queue_drains (hs : system.Reachable s) : Drains s := by
  -- on the number of commands; the first of them has been started
  induction hn : s.istate.queueList.length generalizing s with
  | zero => exact .empty (length_eq_zero_iff.mp hn)
  | succ n ih =>
    obtain ⟨c, rest, hl⟩ := exists_cons_of_length_eq_add_one hn
    have hfirst : c.queued = true := (System.Invariant.reachable ok_invariant hs).1.firstStarted c rest hl
    refine .complete ⟨c, hl ▸ mem_cons_self, hfirst⟩ fun c hc _ => ih (.step hs (.complete s c hc)) ?_
    have hlen := congrArg List.length (tasks_removeCmd s.istate c)
    rw [Istate.tasks, length_map, length_map, length_erase_of_mem hc, hn] at hlen
    exact hlen

theorem queue_drains_ordered : Drains ((State.initial.arrive .simple).arrive .ordered) :=
  queue_drains (.step (.step (.init rfl) (.arrive _ _)) (.arrive _ _))

end QuadStor.TaskQueue
