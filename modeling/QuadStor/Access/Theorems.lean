import QuadStor.Access.Basic
import QuadStor.ExtendedCopy.Theorems

/-!
# What the access check keeps out
-/

namespace QuadStor.Access

open Lib QuadStor.Command Reservations List
open Token (Sound tdiskCmdWrite_writes volume_of_keeps volume_of_not_served)
open ExtendedCopy (Segment CopySegment ExtendedCopyRun extendedCopyGetTdisks)

variable {disks : Nat → Settings} {s s' : State disks} {store store' : Token.State disks} {r : Reservation} {n : Nexus}
  {rs : Nat → Reservation} {op : Opcode} {c : Command} {path : Path} {disk e : Nat} {targets : List (Option Nat)}
  {calls : List WriteCall} {io : Token.CopyIo}

def Opcode.changes : Opcode → Bool
  | .write6 | .write10 | .write12 | .write16 | .writeSame | .writeSame16 | .unmap | .compareAndWrite
  | .extendedCopy => true
  | _ => false

theorem reserveAccessOk_of_changes (h : op.changes = true) : reserveAccessOk op = false := by
  cases op <;> first | rfl | cases h

theorem persistentAccessOk_of_changes (h : op.changes = true) (we ea wero earo registered : Bool) :
    persistentAccessOk we ea wero earo registered op = (!(we || ea) && !((wero || earo) && !registered)) := by
  cases op <;> first | rfl | cases h

theorem accessOk_iff (h : op.changes = true) : tdiskCmdAccessOk r n op = true ↔ ¬ Barred r n := by
  unfold tdiskCmdAccessOk Barred
  cases hdev : deviceReserved r n with
  | false => simp
  | true =>
    by_cases htype : r.type = .reserve
    · simp [htype, reserveAccessOk_of_changes h]
    · have hkind : (r.persistentType = writeExclusiveRO ∨ r.persistentType = writeExclusiveAR) ∨
          r.persistentType = exclusiveAccessRO ∨ r.persistentType = exclusiveAccessAR ↔
          registrantsType r.persistentType = true := by
        simp only [registrantsType, allRegistrantsType, Bool.or_eq_true, decide_eq_true_eq]
        tauto
      simp only [Bool.not_true, Bool.false_eq_true, if_false, htype, persistentAccessOk_of_changes h, true_and,
        false_or, Bool.and_eq_true, Bool.not_eq_true', Bool.or_eq_false_iff, Bool.and_eq_false_iff,
        decide_eq_false_iff_not, ← hkind, not_or, not_and, Bool.not_eq_false', Bool.not_eq_false]
      tauto

theorem barred_iff_of_excluded (h : Excluded r n) : Barred r n ↔ r.nexus ≠ n ∧ n.initInt ≠ targetIntMirror := by
  obtain ⟨hheld, hsupported, -, hregistered⟩ := h
  have hdevice : deviceReserved r n = true ↔ r.nexus ≠ n ∧ n.initInt ≠ targetIntMirror := by
    simp [deviceReserved, hheld.1]
  rw [Barred, hdevice, and_iff_left]
  simp only [supportedType, singleHolderType, Bool.or_eq_true, decide_eq_true_eq] at hsupported
  simp only [registrantsType, Bool.or_eq_true, decide_eq_true_eq] at hregistered ⊢
  tauto

theorem accessOk_reserve : tdiskCmdAccessOk r n .reserve = Reservations.tdiskCmdAccessOk r n := by
  unfold tdiskCmdAccessOk Reservations.tdiskCmdAccessOk
  cases deviceReserved r n with
  | false => rfl
  | true =>
    simp only [Bool.not_true, Bool.false_eq_true, if_false]
    split <;> rfl

/-! ## What a command leaves alone -/

theorem Writes.sound (hrun : Writes disk store calls store') (h : Sound store) : Sound store' := by
  induction hrun with
  | nil => exact h
  | cons hwrite _ ih => exact ih (h.write hwrite)

theorem Writes.volume (hrun : Writes disk store calls store') (h : Sound store)
    (hne : e ≠ disk) : store'.volume e = store.volume e := by
  induction hrun with
  | nil => rfl
  | cons hwrite _ ih =>
    rw [ih (h.write hwrite)]
    exact volume_of_keeps (tdiskCmdWrite_writes hwrite h.counted).keeps hne

theorem volume_copySegment {seg : Segment}
    {outcome : ExtendedCopy.Outcome} (hrun : CopySegment io store targets seg store' outcome) (h : Sound store)
    (hne : segmentDest disks targets seg ≠ some e) : store'.volume e = store.volume e := by
  cases hrun with
  | write htype htdisks hblocks _ hwrite =>
    apply volume_of_keeps (tdiskCmdWrite_writes hwrite h.counted).keeps
    rintro rfl
    exact hne (by simp [segmentDest, htype, hblocks, htdisks])
  | _ => rfl

theorem volume_extendedCopy {segments : List (Token.CopyIo × Segment)} {good : Bool}
    (hrun : ExtendedCopyRun targets store segments store' good) (h : Sound store)
    (hne : ∀ p ∈ segments, segmentDest disks targets p.2 ≠ some e) : store'.volume e = store.volume e := by
  induction hrun with
  | nil => rfl
  | next hseg _ ih =>
    rw [ih (ExtendedCopy.sound_segment h hseg) fun p hp => hne p (mem_cons_of_mem _ hp)]
    exact volume_copySegment hseg h (hne _ mem_cons_self)
  | good hseg | check hseg => exact volume_copySegment hseg h (hne _ mem_cons_self)

theorem volume_populateToken {io : Token.RefIo} {src rod : Nat} {descriptors : List Token.Descriptor} (h : Sound store) :
    (store.populateToken io src rod descriptors).volume e = store.volume e := by
  unfold Token.State.populateToken
  split
  · split_ifs
    · rfl
    · apply volume_of_not_served (Shared.keeps_moves h.counted)
      rintro i ⟨j, hj⟩
      cases hj
    · rfl
    · rfl
  · rfl

theorem Effect.volume {op : Operation} (heffect : Effect store disk op store') (h : Sound store)
    (hne : ∀ path ∈ op.paths disks, path.dest disk ≠ e) : store'.volume e = store.volume e := by
  cases heffect with
  | write hwrites => exact hwrites.volume h (hne .direct mem_cons_self).symm
  | populateToken _ => exact volume_populateToken h
  | writeUsingToken _ hrun =>
    cases hrun with
    | failed _ hwrite | written _ hwrite =>
      exact volume_of_keeps (tdiskCmdWrite_writes hwrite h.counted).keeps (hne .direct mem_cons_self).symm
    | _ => rfl
  | extendedCopy hrun =>
    apply volume_extendedCopy hrun h
    intro p hp hdest
    refine hne (.copy e) (List.mem_map.mpr ⟨e, mem_filterMap.mpr ⟨p, hp, hdest⟩, rfl⟩) rfl

theorem Effect.sound {op : Operation} (heffect : Effect store disk op store') (h : Sound store) : Sound store' := by
  cases heffect with
  | write hwrites => exact hwrites.sound h
  | populateToken _ => exact h.populate
  | writeUsingToken hstatus hrun =>
    exact Token.sound_invariant.step (a := .writeUsingToken _ _) h ⟨_, _, hstatus, hrun⟩
  | extendedCopy hrun => exact ExtendedCopy.sound_run hrun h

theorem sound_invariant : (system disks).Invariant fun s => Sound s.store where
  init h := Token.sound_invariant.init h
  step h hstep := by
    cases hstep with
    | effect _ heffect => exact heffect.sound h
    | rodTokenErrorFree => exact h.free
    | _ => exact h

theorem changes_of_path {op : Operation} (h : path ∈ op.paths disks) : op.opcode.changes = true := by
  cases op with
  | write opcode calls => cases opcode <;> rfl
  | writeUsingToken io rod offset descriptors | extendedCopy targets segments => rfl
  | _ => simp [Operation.paths] at h

theorem protects_of_barred (h : Barred (rs disk) n) : Protects rs n disk path := by
  intro disks s s' c hs hrs hn hdisk hpath hstep
  cases hstep with
  | effect hok _ =>
    rw [hrs, hn, hdisk, accessOk_iff (changes_of_path hpath)] at hok
    exact absurd h hok
  | _ => rfl

open ExtendedCopy (ones onesBlock equalDisks emptyPool emptyPool_counted segmentIo)

theorem ones_ne_zeroPage : ones.1 ≠ Read.zeroPage := by
  intro h
  exact absurd (congrArg head? h) (by decide)

theorem ne_of_page {v w : Volume} (hv : v.page 0 = ones.1) (hw : w.page 0 = Read.zeroPage) : v ≠ w := by
  rintro rfl
  exact ones_ne_zeroPage (hv.symm.trans hw)

def emptyStore : Token.State equalDisks := ⟨emptyPool, fun _ => none⟩

def writeOnes : Operation := .write .write16 [⟨quickIo, 0, 1, [⟨false, ones.1, ones.2⟩]⟩]

def onesWritten (disk : Nat) : Token.State equalDisks :=
  ⟨(emptyPool.store onesBlock ones).move (.page disk 0) (some onesBlock), fun _ => none⟩

theorem writeOnes_effect (disk : Nat) : Effect emptyStore disk writeOnes (onesWritten disk) := by
  have hwrite : emptyStore.TdiskCmdWrite quickIo disk 0 1 [⟨false, ones.1, ones.2⟩] (onesWritten disk) true :=
    ⟨rfl, rfl, .put (.fresh rfl) .nil⟩
  exact .write (.cons hwrite .nil)

theorem page_onesWritten (disk : Nat) : ((onesWritten disk).volume disk).page 0 = ones.1 := by
  simp [onesWritten, Token.State.volume, Shared.read, Shared.get, Shared.move, Shared.store]

def oneBlock : Segment := { ExtendedCopy.oneSector with srcLba := 0, destLba := 0 }

def copyZero (dest : Nat) : Operation := .extendedCopy [some (dest + 1), some dest] [(segmentIo false, oneBlock)]

def zeroWritten (dest : Nat) : Token.State equalDisks :=
  ⟨(onesWritten dest).pool.move (.page dest 0) none, fun _ => none⟩

theorem copyZero_effect (disk dest : Nat) : Effect (onesWritten dest) disk (copyZero dest) (zeroWritten dest) := by
  have hname : (onesWritten dest).pool.name (.page (dest + 1) 0) = none := by
    simp [onesWritten, Shared.move, Shared.store, emptyPool]
  have hplan : ExtendedCopy.plan (segmentIo false) (onesWritten dest) (dest + 1) dest oneBlock =
      .write [Pgdata.unmapped] := by
    have hpages : (onesWritten dest).refPages (segmentIo false) (dest + 1) dest 0 1 = [Pgdata.unmapped] := by
      show [Token.rodPage _ ((onesWritten dest).pool.name (.page (dest + 1) 0))] = _
      rw [hname]
      rfl
    exact congrArg ExtendedCopy.Plan.write hpages
  have hwrite : (onesWritten dest).TdiskCmdWrite (segmentIo false).write dest 0 1 [Pgdata.unmapped] (zeroWritten dest)
      true := ⟨rfl, rfl, .put (.blank rfl) .nil⟩
  have htdisks : extendedCopyGetTdisks equalDisks [some (dest + 1), some dest] oneBlock = some (dest + 1, dest) := rfl
  have hsegment := CopySegment.write rfl htdisks (by decide) hplan hwrite
  exact .extendedCopy (.next hsegment .nil)

theorem page_zeroWritten (dest : Nat) : ((zeroWritten dest).volume dest).page 0 = Read.zeroPage := by
  simp [zeroWritten, Token.State.volume, Shared.read, Shared.get, Shared.move, Token.blank]

theorem not_protects_direct (h : ¬ Barred (rs disk) n) : ¬ Protects rs n disk .direct := by
  intro hprotects
  have hs : (system equalDisks).Reachable ⟨rs, emptyStore⟩ := .init ⟨emptyPool_counted, fun _ => rfl⟩
  have hstep : Step ⟨rs, emptyStore⟩ (.command ⟨n, disk, writeOnes⟩) ⟨rs, onesWritten disk⟩ :=
    .effect ((accessOk_iff rfl).mpr h) (writeOnes_effect disk)
  have hsame := hprotects hs rfl rfl rfl mem_cons_self hstep
  exact ne_of_page (page_onesWritten disk) rfl hsame

theorem not_protects_copy {dest : Nat} (h : ¬ Barred (rs disk) n) : ¬ Protects rs n disk (.copy dest) := by
  intro hprotects
  have hcounted : (onesWritten dest).pool.Counted := by
    exact Shared.Counted.move emptyPool_counted _ _
  have hs : (system equalDisks).Reachable ⟨rs, onesWritten dest⟩ := .init ⟨hcounted, fun _ => rfl⟩
  have hstep : Step ⟨rs, onesWritten dest⟩ (.command ⟨n, disk, copyZero dest⟩) ⟨rs, zeroWritten dest⟩ :=
    .effect ((accessOk_iff rfl).mpr h) (copyZero_effect disk dest)
  have hsame := hprotects hs rfl rfl rfl mem_cons_self hstep
  exact ne_of_page (page_onesWritten dest) (page_zeroWritten dest) hsame.symm

/-- A disk that excludes a nexus is protected, on the path by which a command comes to it, if and only if the disk the
command was sent to bars the nexus. No disk changes that is on no path. -/
theorem reservations_enforced_iff (rs : Nat → Reservation) (n : Nexus) (disk : Nat) (path : Path) :
    ((Excluded (rs (path.dest disk)) n → Protects rs n disk path) ↔
        (Excluded (rs (path.dest disk)) n → Barred (rs disk) n)) ∧
      ∀ {disks : Nat → Settings} {s s' : State disks} {c : Command} {e : Nat}, (system disks).Reachable s →
        (∀ path ∈ c.op.paths disks, path.dest c.disk ≠ e) → Step s (.command c) s' →
        s'.store.volume e = s.store.volume e := by
  constructor
  · constructor
    · intro h hexcluded
      by_contra hbarred
      cases path with
      | direct => exact not_protects_direct hbarred (h hexcluded)
      | copy dest => exact not_protects_copy hbarred (h hexcluded)
    · intro h hexcluded
      exact protects_of_barred (h hexcluded)
  · intro disks s s' c e hs hne hstep
    cases hstep with
    | effect _ heffect => exact heffect.volume (sound_invariant.reachable hs) hne
    | _ => rfl

def holder : Nexus := ⟨(1, 0), (1, 0), 0⟩

def stranger : Nexus := ⟨(2, 0), (1, 0), 0⟩

def prout (n : Nexus) (serviceAction : Fin 32) (type : Fin 16) (key serviceActionKey : Nat) : Reservations.Command :=
  .persistentReserveOut (.short n 1 "" serviceAction type key serviceActionKey)

def heldReservation : Reservation := [prout holder 0 0 0 5, prout holder 1 writeExclusive 5 0].foldl execute .empty

def leftCommands : List Reservations.Command :=
  [prout holder 0 0 0 5, prout stranger 0 0 0 6, prout holder 1 writeExclusiveAR 5 0, prout holder 0 0 5 0]

def leftReservation : Reservation :=
  leftCommands.foldl execute .empty

def oneReserved : Nat → Reservation := fun disk => if disk = 1 then heldReservation else .empty

theorem heldReservation_excludes : Excluded heldReservation stranger := by
  refine ⟨⟨by decide, by decide⟩, by decide, by decide, by decide⟩

theorem leftReservation_excludes : Excluded leftReservation holder := by
  refine ⟨⟨by decide, by decide⟩, by decide, by decide, by decide⟩

/-- An excluded nexus writes to disk 1 by an EXTENDED COPY that is sent to disk 0, and one that has unregistered to a
disk that all registrants hold. -/
theorem copy_to_reserved_disk :
    Excluded (oneReserved 1) stranger ∧ (system equalDisks).Reachable ⟨oneReserved, onesWritten 1⟩ ∧
      Step ⟨oneReserved, onesWritten 1⟩ (.command ⟨stranger, 0, copyZero 1⟩) ⟨oneReserved, zeroWritten 1⟩ ∧
      (zeroWritten 1).volume 1 ≠ (onesWritten 1).volume 1 ∧
    Reservations.system.Reachable leftReservation ∧ Excluded leftReservation holder ∧
      ¬ Protects (fun _ => leftReservation) holder 0 .direct := by
  have hcounted : (onesWritten 1).pool.Counted := Shared.Counted.move emptyPool_counted _ _
  have hopen : tdiskCmdAccessOk (oneReserved 0) stranger .extendedCopy = true := by decide
  have hall : System.Along (fun _ _ => True) execute .empty leftCommands := by simp [System.Along, leftCommands]
  have hleft : Reservations.system.Reachable leftReservation := (System.Reachable.init rfl).foldl (fun _ => rfl) hall
  refine ⟨heldReservation_excludes, .init ⟨hcounted, fun _ => rfl⟩, .effect hopen (copyZero_effect 0 1), ?_, hleft,
    leftReservation_excludes, ?_⟩
  · exact (ne_of_page (page_onesWritten 1) (page_zeroWritten 1)).symm
  · apply not_protects_direct
    rw [barred_iff_of_excluded leftReservation_excludes]
    decide

end QuadStor.Access
