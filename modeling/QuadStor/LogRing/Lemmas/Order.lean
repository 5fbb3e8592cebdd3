import QuadStor.LogRing.Lemmas.Pages

/-!
# Metadata is logged before what relies on it
-/

namespace QuadStor.LogRing

open Lib List Function

variable {N lba : Nat} {s : State N} {w : Fin N} {o : Obj} {flags : Obj → Option Flags} {x : Writer} {round : Round}

def Relies : Entry → Entry → Prop
  | .data target lba, .made o => o = tableOf target lba ∨ o = amapOf target lba
  | _, _ => False

def Settled (flags : Obj → Option Flags) (o : Obj) : Prop :=
  ∃ f, flags o = some f ∧ (f.isNew = false ∨ f.logDone = true)

@[simp] def Phase.unchecked (sync : List Nat) : Round → Phase → List Nat
  | _, .idle | _, .scanning | _, .before .tables | _, .logging .tables => sync
  | .tables, .checking .tables todo => todo
  | .tables, _ => []
  | _, .before .amaps | _, .logging .amaps | _, .checking .tables _ => sync
  | _, .checking _ todo => todo
  | _, _ => []

@[simp] def Phase.mayWait : Phase → Obj → Bool
  | .idle, _ | .scanning, _ | .before .tables, _ | .logging .tables, _ => true
  | .checking .tables _, o | .before .amaps, o | .logging .amaps, o => !o.isTable
  | _, _ => false

structure WriterOk (flags : Obj → Option Flags) (x : Writer) : Prop where
  nodup : x.unlogged.Nodup
  unlogged_made : ∀ o ∈ x.unlogged, o ∈ x.made
  unlogged_new : ∀ o ∈ x.unlogged, flags o = some ⟨true, false⟩
  made_settled : ∀ o ∈ x.made, o ∉ x.unlogged → Settled flags o
  waiting : ∀ o ∈ x.unlogged, x.phase.mayWait o = true
  checked : ∀ round, round ≠ .pages → ∀ l ∈ x.sync, l ∉ x.phase.unchecked x.sync round →
    Settled flags (round.obj x.req.target l)
  updates : ∀ lba ∈ x.updates, ∃ l ∈ x.sync, amapId l = amapId lba
  last : ∀ todo, x.phase ≠ .checking .pages todo

structure State.Ok (s : State N) : Prop where
  ring : s.ring.Ok
  writer : ∀ w, WriterOk s.flags (s.writer w)
  apart : ∀ w w' o, o ∈ (s.writer w).unlogged → o ∈ (s.writer w').unlogged → w = w'
  relied : ∀ a ∈ s.ring.history, ∀ target lba, a.entry = .data target lba →
    Settled s.flags (tableOf target lba) ∧ Settled s.flags (amapOf target lba)
  order : s.ring.history.Pairwise fun a b => ¬ Relies a.entry b.entry

theorem not_settled_of_new (h : flags o = some ⟨true, false⟩) : ¬ Settled flags o := by
  rintro ⟨f, hf, hs⟩
  cases h.symm.trans hf
  simp at hs

theorem Settled.update {o' : Obj} (h : Settled flags o') (ho : ¬ Settled flags o) (v : Option Flags) :
    Settled (update flags o v) o' := by
  have hne : o' ≠ o := by
    rintro rfl
    exact ho h
  obtain ⟨f, hf, hs⟩ := h
  exact ⟨f, by rw [update_of_ne hne, hf], hs⟩

theorem WriterOk.mono {flags' : Obj → Option Flags} (h : WriterOk flags x)
    (hmono : ∀ o, Settled flags o → Settled flags' o)
    (hnew : ∀ o ∈ x.unlogged, flags' o = some ⟨true, false⟩) : WriterOk flags' x :=
  { h with
    unlogged_new := hnew
    made_settled := fun o ho hn => hmono o (h.made_settled o ho hn)
    checked := fun round hr l hl hn => hmono _ (h.checked round hr l hl hn) }

theorem State.Ok.of_ring (h : s.Ok) {r : Ring} (hr : r.Ok) (hhist : r.history = s.ring.history) :
    ({ s with ring := r } : State N).Ok :=
  { h with ring := hr, relied := hhist ▸ h.relied, order := hhist ▸ h.order }

theorem State.Ok.of_flags (h : s.Ok) (hmono : ∀ o, Settled s.flags o → Settled flags o)
    (hnew : ∀ o, s.flags o = some ⟨true, false⟩ → flags o = some ⟨true, false⟩) :
    ({ s with flags } : State N).Ok :=
  { h with
    writer := fun w => (h.writer w).mono hmono fun o ho => hnew o ((h.writer w).unlogged_new o ho)
    relied := fun a ha target lba he =>
      ⟨hmono _ (h.relied a ha target lba he).1, hmono _ (h.relied a ha target lba he).2⟩ }

theorem State.Ok.of_writer (h : s.Ok) (hmono : ∀ o, Settled s.flags o → Settled flags o)
    (hnew : ∀ w', w ≠ w' → ∀ o ∈ (s.writer w').unlogged, flags o = some ⟨true, false⟩) (hx : WriterOk flags x)
    (hapart : ∀ w' o, o ∈ x.unlogged → o ∈ (s.writer w').unlogged → w = w') :
    (State.setWriter { s with flags } w x).Ok where
  ring := h.ring
  writer := (forall_update_iff s.writer fun _ => WriterOk flags).2
    ⟨hx, fun w' hw => (h.writer w').mono hmono (hnew w' (Ne.symm hw))⟩
  apart a b o ha hb := by
    simp only [State.setWriter, update_apply] at ha hb
    split_ifs at ha hb with haw hbw hbw
    · rw [haw, hbw]
    · rw [haw, hapart b o ha hb]
    · rw [hbw, hapart a o hb ha]
    · exact h.apart a b o ha hb
  relied a ha target lba he :=
    ⟨hmono _ (h.relied a ha target lba he).1, hmono _ (h.relied a ha target lba he).2⟩
  order := h.order

theorem State.Ok.of_phase (h : s.Ok) (hx : WriterOk s.flags x)
    (hsub : ∀ o ∈ x.unlogged, o ∈ (s.writer w).unlogged) : (s.setWriter w x).Ok :=
  h.of_writer (fun _ ho => ho) (fun w' _ => (h.writer w').unlogged_new) hx
    fun w' o ho ho' => h.apart w w' o (hsub o ho) ho'

theorem writerOk_idle (flags : Obj → Option Flags) : WriterOk flags .idle := by
  constructor <;> simp [Writer.idle]

theorem State.Ok.make (h : s.Ok) (hphase : (s.writer w).phase = .scanning) (ho : s.flags o = none) :
    (s.make w o).Ok := by
  have hw := h.writer w
  have hmono : ∀ o', Settled s.flags o' → Settled (update s.flags o (some ⟨true, false⟩)) o' := fun o' ho' =>
    ho'.update (by simp [Settled, ho]) _
  have hnew : ∀ w', ∀ o' ∈ (s.writer w').unlogged, update s.flags o (some ⟨true, false⟩) o' = some ⟨true, false⟩ :=
    fun w' o' ho' => by
      rw [update_apply, (h.writer w').unlogged_new o' ho', ite_self]
  have hfree : ∀ w', o ∉ (s.writer w').unlogged := fun w' ho' => by
    simpa [ho] using (h.writer w').unlogged_new o ho'
  refine h.of_writer hmono (fun w' _ => hnew w') ?_ fun w' o' ho' ho'' => ?_
  · refine ⟨?_, fun o' ho' => ?_, ?_, fun o' ho' hn => ?_, ?_, fun round hr l hl hn => ?_, hw.updates, hw.last⟩
    · refine nodup_append.mpr ⟨hw.nodup, nodup_singleton o, ?_⟩
      rintro a ha b hb rfl
      cases mem_singleton.mp hb
      exact hfree w ha
    · simp only [mem_append, mem_singleton] at ho' ⊢
      exact ho'.imp_left (hw.unlogged_made o')
    · exact forall_mem_append.2 ⟨hnew w, forall_mem_singleton.2 (update_self _ _ _)⟩
    · simp only [mem_append, mem_singleton, not_or] at ho' hn
      exact hmono o' (hw.made_settled o' (ho'.resolve_right hn.2) hn.1)
    · simp [hphase]
    · cases round <;> simp_all
  · obtain ho' | ho' := mem_append.mp ho'
    · exact h.apart w w' o' ho' ho''
    · cases mem_singleton.mp ho'
      exact absurd ho'' (hfree w')

theorem WriterOk.addSync (h : WriterOk flags x) (hphase : x.phase = .scanning) (lba : Nat) :
    WriterOk flags { x with sync := lba :: x.sync } :=
  { h with
    checked := fun round hr l hl hn => by cases round <;> simp_all
    updates := fun l hl => by
      obtain ⟨l', hl', hdiv⟩ := h.updates l hl
      exact ⟨l', mem_cons_of_mem _ hl', hdiv⟩ }

/-- The turns of `tdisk_handle_meta_log` -/
inductive Goes (flags : Obj → Option Flags) (x : Writer) : Phase → Prop
  | log {round : Round} : x.phase = .before round → Goes flags x (.logging round)
  | check {round : Round} : x.phase = .before round ∨ x.phase = .logging round → round ≠ .pages →
    x.nextEntry round = none → Goes flags x (.checking round x.sync)
  | pass {round : Round} {lba : Nat} {todo : List Nat} : x.phase = .checking round (lba :: todo) → round ≠ .pages →
    Settled flags (round.obj x.req.target lba) → Goes flags x (.checking round todo)
  | amaps : x.phase = .checking .tables [] → Goes flags x (.before .amaps)
  | pages (failed : Bool) : x.phase = .checking .amaps [] → Goes flags x (if failed then .logged else .before .pages)
  | done : x.phase = .logging .pages → Goes flags x .logged

theorem WriterOk.goes {p : Phase} (h : WriterOk flags x) (hp : Goes flags x p) : WriterOk flags { x with phase := p } := by
  refine { h with waiting := fun o ho => ?_, checked := fun round' hr l hl hn => ?_, last := fun todo heq => ?_ }
  · have hwait := h.waiting o ho
    cases hp with
    | @log round hphase => cases round <;> simp_all
    | @check round hphase hround hnext =>
      cases round <;> simp_all [Writer.nextEntry]
      have := hnext o ho
      rcases hphase with hphase | hphase <;> simp_all
    | @pass round _ _ hphase hround => cases round <;> simp_all
    | amaps hphase => simpa [hphase] using hwait
    | pages failed hphase | done hphase => simp [hphase] at hwait
  · have hcheck := h.checked round' hr l hl
    cases hp with
    | @log round hphase => cases round <;> cases round' <;> simp_all
    | @check round hphase hround hnext =>
      cases round <;> cases round' <;> rcases hphase with hphase | hphase <;> simp_all
    | @pass round lba todo hphase hround hset =>
      by_cases heq : round' = round ∧ l = lba
      · obtain ⟨rfl, rfl⟩ := heq
        exact hset
      · cases round <;> cases round' <;> simp_all
    | amaps hphase => cases round' <;> simp_all
    | pages failed hphase | done hphase => cases round' <;> simp_all
  · cases hp with
    | check hphase hround | pass hphase hround => simp_all
    | pages failed => cases failed <;> cases heq
    | log | amaps | done => cases heq

theorem State.Passes.settled (h : s.Passes w o) (hw : WriterOk s.flags (s.writer w))
    (hun : o ∉ (s.writer w).unlogged) : Settled s.flags o := by
  obtain ⟨f, hf, hnew | hmade | hdone⟩ := h
  · exact ⟨f, hf, .inl hnew⟩
  · exact hw.made_settled o hmade hun
  · exact ⟨f, hf, .inr hdone⟩

def Action.Turns (w : Fin N) : Action N → Prop
  | .skip w' | .lock w' | .unlock w' | .check w' => w' = w
  | _ => False

theorem State.run_turn {a : Action N} (hw : WriterOk s.flags (s.writer w)) (ha : s.allowed a) (hturn : a.Turns w) :
    ∃ holder p, s.run a = State.setPhase { s with holder } w p ∧ Goes s.flags (s.writer w) p := by
  cases a with
  | skip w' =>
    obtain rfl := hturn
    obtain ⟨round, hp, hr, hn⟩ := ha
    exact ⟨s.holder, .checking round (s.writer w').sync, by simp only [State.run, hp], .check (.inl hp) hr hn⟩
  | lock w' =>
    obtain rfl := hturn
    obtain ⟨round, hp, -, -⟩ := ha
    exact ⟨some w', .logging round, by simp only [State.run, hp], .log hp⟩
  | unlock w' =>
    obtain rfl := hturn
    obtain ⟨round, hp, hn⟩ := ha
    cases round with
    | tables | amaps => exact ⟨none, _, by simp only [State.run, hp], .check (.inr hp) (by simp) hn⟩
    | pages => exact ⟨none, .logged, by simp only [State.run, hp], .done hp⟩
  | check w' =>
    obtain rfl := hturn
    obtain ⟨round, hp | ⟨lba, todo, hp, hpass⟩⟩ := ha
    · cases round with
      | tables => exact ⟨s.holder, .before .amaps, by simp only [State.run, hp], .amaps hp⟩
      | amaps => exact ⟨s.holder, _, by simp only [State.run, hp]; rfl, .pages _ hp⟩
      | pages => exact absurd hp (hw.last _)
    · have hr : round ≠ .pages := by
        rintro rfl
        exact hw.last _ hp
      refine ⟨s.holder, .checking round todo, by simp only [State.run, hp], .pass hp hr (hpass.settled hw fun ho => ?_)⟩
      have hwait := hw.waiting _ ho
      cases round <;> simp_all [Round.obj, tableOf, Obj.isTable]
  | _ => exact hturn.elim

theorem State.run_insert (hp : (s.writer w).phase = .logging round) (hn : (s.writer w).nextEntry round ≠ none) :
    (∃ o ∈ (s.writer w).unlogged,
      s.run (.insert w) = (s.insertEntry w (.made o)).setFlags o fun f => { f with logDone := true }) ∨
    ∃ lba rest, round = .pages ∧ (s.writer w).updates = lba :: rest ∧
      s.run (.insert w) = s.insertEntry w (.data (s.writer w).req.target lba) := by
  obtain ⟨e, he⟩ := Option.ne_none_iff_exists'.mp hn
  simp only [State.run, hp, he]
  cases round with
  | tables | amaps =>
    obtain ⟨o, ho, rfl⟩ := Option.map_eq_some_iff.mp he
    exact .inl ⟨o, mem_of_find?_eq_some ho, rfl⟩
  | pages =>
    obtain ⟨lba, hlba, rfl⟩ := Option.map_eq_some_iff.mp he
    obtain ⟨rest, hrest⟩ := head?_eq_some_iff.mp hlba
    exact .inr ⟨lba, rest, rfl, hrest, rfl⟩

theorem State.Ok.append (h : s.Ok) {e : Entry} (hidx : s.ring.freeIdx < v2LogEntries)
    (hrelied : ∀ target lba, e = .data target lba →
      Settled s.flags (tableOf target lba) ∧ Settled s.flags (amapOf target lba))
    (horder : ∀ a ∈ s.ring.history, ¬ Relies a.entry e) : ({ s with ring := s.ring.insert e } : State N).Ok := by
  refine { h with ring := h.ring.insert hidx e, relied := ?_, order := ?_ }
  · exact forall_mem_append.2 ⟨h.relied, forall_mem_singleton.2 hrelied⟩
  · refine pairwise_append.mpr ⟨h.order, pairwise_singleton _ _, fun a ha b hb => ?_⟩
    cases mem_singleton.mp hb
    exact horder a ha

theorem State.Ok.insertMade (h : s.Ok) (hidx : s.ring.freeIdx < v2LogEntries) (ho : o ∈ (s.writer w).unlogged) :
    ((s.insertEntry w (.made o)).setFlags o fun f => { f with logDone := true }).Ok := by
  have hw := h.writer w
  have hflags := hw.unlogged_new o ho
  have hnot := not_settled_of_new hflags
  -- nothing that is logged relies on it, since that would be settled
  have horder : ∀ a ∈ s.ring.history, ¬ Relies a.entry (.made o) := fun a ha hr => by
    cases he : a.entry with
    | made o' => simp [he, Relies] at hr
    | data target lba =>
      obtain ⟨ht, hm⟩ := h.relied a ha target lba he
      rw [he] at hr
      obtain rfl | rfl := hr
      · exact hnot ht
      · exact hnot hm
  have hself : update s.flags o ((s.flags o).map fun f => { f with logDone := true }) o =
      some ⟨true, true⟩ := by simp [hflags]
  have hmono : ∀ o', Settled s.flags o' →
      Settled (update s.flags o ((s.flags o).map fun f => { f with logDone := true })) o' :=
    fun o' ho' => ho'.update hnot _
  have hother : ∀ o', o' ≠ o → s.flags o' = some ⟨true, false⟩ →
      update s.flags o ((s.flags o).map fun f => { f with logDone := true }) o' = some ⟨true, false⟩ :=
    fun o' hne hf => by rw [update_of_ne hne, hf]
  have happ := h.append hidx (e := .made o) (by simp) horder
  refine happ.of_writer hmono (fun w' hne o' ho' => hother o' ?_ ((h.writer w').unlogged_new o' ho')) ?_
    fun w' o' ho' => h.apart w w' o' (mem_of_mem_erase ho')
  · rintro rfl
    exact hne (h.apart w w' o' ho ho')
  · exact { hw with
      nodup := hw.nodup.erase o
      unlogged_made := fun o' ho' => hw.unlogged_made o' (mem_of_mem_erase ho')
      unlogged_new := fun o' ho' => by
        obtain ⟨hne, hmem⟩ := hw.nodup.mem_erase_iff.mp ho'
        exact hother o' hne (hw.unlogged_new o' hmem)
      made_settled := fun o' ho' hn => by
        by_cases heq : o' = o
        · subst heq
          exact ⟨⟨true, true⟩, hself, .inr rfl⟩
        · exact hmono o' (hw.made_settled o' ho' fun hmem => hn (hw.nodup.mem_erase_iff.mpr ⟨heq, hmem⟩))
      waiting := fun o' ho' => hw.waiting o' (mem_of_mem_erase ho')
      checked := fun round hr l hl hn => hmono _ (hw.checked round hr l hl hn) }

theorem tableOf_eq {target l : Nat} (h : amapId l = amapId lba) : tableOf target l = tableOf target lba := by
  rw [tableOf, tableOf, ← tableId_amapId, ← tableId_amapId, h]

theorem State.Ok.insertData {rest : List Nat} (h : s.Ok) (hidx : s.ring.freeIdx < v2LogEntries)
    (hphase : (s.writer w).phase = .logging .pages) (hup : (s.writer w).updates = lba :: rest) :
    (s.insertEntry w (.data (s.writer w).req.target lba)).Ok := by
  have hw := h.writer w
  obtain ⟨l, hl, hdiv⟩ := hw.updates lba (by simp [hup])
  have htable := hw.checked .tables (by simp) l hl (by simp [hphase])
  have hamap := hw.checked .amaps (by simp) l hl (by simp [hphase])
  have happ := h.append hidx (e := .data (s.writer w).req.target lba) (fun target lba' he => by
      cases he
      rw [← tableOf_eq hdiv, amapOf, ← hdiv]
      exact ⟨htable, hamap⟩)
    fun a _ hr => by cases he : a.entry <;> simp [he, Relies] at hr
  refine happ.of_phase ?_ fun _ ho => ho
  exact { hw with updates := fun lba' hmem => hw.updates lba' (mem_of_mem_tail hmem) }

theorem State.Ok.setFlags (h : s.Ok) {f : Flags → Flags} (ho : Settled s.flags o)
    (hf : ∀ x, s.flags o = some x → (f x).isNew = false ∨ (f x).logDone = true) : (s.setFlags o f).Ok := by
  refine h.of_flags (fun o' ho' => ?_) fun o' ho' => ?_
  · by_cases heq : o' = o
    · subst heq
      obtain ⟨x, hx, -⟩ := ho
      exact ⟨f x, by simp [hx], hf x hx⟩
    · obtain ⟨x, hx, hs⟩ := ho'
      exact ⟨x, by rw [update_of_ne heq, hx], hs⟩
  · have heq : o' ≠ o := by
      rintro rfl
      exact not_settled_of_new ho' ho
    rw [update_of_ne heq, ho']

theorem State.Ok.endScan (h : s.Ok) {updates : List Nat} {failed : Bool}
    (hup : ∀ lba ∈ updates, ∃ l ∈ (s.writer w).sync, amapId l = amapId lba) : (s.run (.endScan w updates failed)).Ok := by
  have hw := h.writer w
  simp only [State.run]
  split
  · rename_i hnone
    simp only [Bool.and_eq_true, List.isEmpty_iff] at hnone
    have hun := eq_nil_iff_forall_not_mem.mpr fun o ho => by
      simpa [hnone.1] using hw.unlogged_made o ho
    refine h.of_phase ?_ fun _ ho => ho
    exact { hw with
      waiting := by simp [hun]
      checked := by simp
      updates := by simp [hnone.2]
      last := by simp }
  · refine h.of_phase ?_ fun _ ho => ho
    exact { hw with
      waiting := by simp
      checked := fun round hr l hl hn => by cases round <;> simp_all
      updates := hup
      last := by simp }

theorem State.Ok.step {a : Action N} (h : s.Ok) (ha : s.allowed a) : (s.run a).Ok := by
  cases a with
  | reserve w req =>
    have h' : ({ s with reserved := s.reserved + req.logEntries } : State N).Ok := { h with }
    refine h'.of_phase ?_ (by simp [Writer.idle])
    constructor <;> simp [Writer.idle]
  | makeTable w lba => exact h.make ha.1 ha.2.2
  | makeAmap w lba => exact h.make ha.1 ha.2.2.2
  | useAmap w lba =>
    simp only [State.run]
    split
    · exact h
    · exact h.of_phase ((h.writer w).addSync ha.1 lba) fun _ ho => ho
  | endScan w updates failed => exact h.endScan fun lba hl => (ha.2.2.2 lba hl).2
  | skip w | lock w | unlock w | check w =>
    obtain ⟨holder, p, hrun, hp⟩ := State.run_turn (h.writer w) ha rfl
    have h' : ({ s with holder } : State N).Ok := { h with }
    rw [hrun]
    exact h'.of_phase ((h.writer w).goes hp) fun _ ho => ho
  | rotate w => exact h.of_ring (h.ring.setup _) rfl
  | leave w => exact h.of_ring h.ring.leave rfl
  | insert w =>
    obtain ⟨round, hp, hn, hidx⟩ := ha
    obtain ⟨o, ho, hrun⟩ | ⟨lba, rest, rfl, hu, hrun⟩ := State.run_insert hp hn
    · rw [hrun]
      exact h.insertMade hidx ho
    · rw [hrun]
      exact h.insertData hidx hp hu
  | clearNew w lba o =>
    obtain ⟨hp, -, hl, ho⟩ := ha
    have hw := h.writer w
    refine h.setFlags ?_ fun _ _ => .inl rfl
    obtain rfl | rfl := ho
    · exact hw.checked .tables (by simp) lba hl (by simp [hp])
    · exact hw.checked .amaps (by simp) lba hl (by simp [hp])
  | forget o =>
    obtain ⟨f, hf, hnew⟩ := ha
    exact h.setFlags ⟨f, hf, .inl hnew⟩ fun x hx => by
      cases hf.symm.trans hx
      exact .inl hnew
  | flush p => exact h.of_ring (h.ring.flush p) rfl
  | put w p error =>
    have hw := h.writer w
    have hring : ∀ r : Ring, r.Ok → r.history = s.ring.history →
        (State.setWriter { s with ring := r } w { s.writer w with placed := (s.writer w).placed.erase p }).Ok :=
      fun r hr hh => (h.of_ring hr hh).of_phase { hw with } fun _ ho => ho
    simp only [State.run]
    split
    · exact hring _ ((h.ring.clear _ _).put _) rfl
    · exact hring _ (h.ring.put _) rfl
  | release w =>
    have h' : ({ s with reserved := s.reserved - (s.writer w).logReserved } : State N).Ok := { h with }
    exact h'.of_phase (writerOk_idle _) (by simp [Writer.idle])

end QuadStor.LogRing
