import QuadStor.Cloning.Basic

/-!
# Where the maps are
-/

namespace QuadStor.Cloning

variable {α : Type}

inductive Place (α : Type) where
  | ahead
  | storing (metadata : Option α)
  | behind
  | settled
  | freed

def Pc.place (n : Nat) : Pc α → Place α
  | .table t => if groupId n < t / amapTablePerGroup then .freed else if tableId n < t then .settled else .ahead
  | .amap m | .claim m =>
    if groupId n < groupId m then .freed else if tableId n < tableId m then .settled
    else if n < m then .behind else .ahead
  | .store m metadata =>
    if groupId n < groupId m then .freed else if tableId n < tableId m then .settled
    else if n < m then .behind else if n = m then .storing metadata else .ahead
  | .advance m =>
    if groupId n < groupId m then .freed else if tableId n < tableId m then .settled
    else if n ≤ m then .behind else .ahead
  | .endTable t =>
    if groupId n < t / amapTablePerGroup then .freed else if tableId n < t then .settled
    else if tableId n = t then .behind else .ahead
  | .free g => if groupId n < g then .freed else if groupId n = g then .settled else .ahead
  | .done => .freed

@[simp] def Writer.Calm (w : Writer) : Prop := w = .idle ∨ w = .checking false ∨ w = .ready

section Map

variable (a : α) (amap : Option α) (w : Writer) (set low changed : Prop) (clone : List α)

@[simp] def Untouched : Prop :=
  (w = .idle ∨ w = .checking false) ∧ ¬set ∧ ¬changed ∧ clone = [] ∧ amap = some a

@[simp] def Copying : Prop := w = .copying ∧ set ∧ clone = [] ∧ amap = some a

@[simp] def Copied : Prop := w.Calm ∧ set ∧ clone = [a]

@[simp] def Kept : Place α → Prop
  | .ahead => Untouched a amap w set changed clone ∨ Copying a amap w set clone ∨ Copied a w set clone
  | .storing metadata => metadata = some a ∧ w.Calm ∧ set ∧ clone = []
  | .behind => Copying a amap w set clone ∨ Copied a w set clone
  | .settled => Copied a w set clone
  | .freed => w.Calm ∧ clone = [a]

structure Made (p : Place α) : Prop where
  clone : clone = []
  writer : w ≠ .copying
  place : ∀ metadata, p ≠ .storing metadata
  absent : amap = none → w = .idle
  checking : w = .checking false → set ∨ p = .freed
  present : amap ≠ none → w = .checking true ∨ set ∨ (low ∧ p ≠ .ahead) ∨ p = .freed

def MapOk (start : Option α) (p : Place α) : Prop :=
  match start with
  | some a => amap ≠ none ∧ Kept a amap w set changed clone p
  | none => Made amap w set low clone p

end Map

structure WfAt (geo : Geometry) (s : State α) (n : Nat) : Prop where
  amap : s.amap n ≠ none → n < geo.amapMax ∧ s.table (tableId n) = true
  entered : s.entered n = true → s.amap n ≠ none ∧ s.writer n ≠ .checking true
  writer : s.writer n ≠ .idle → s.amap n ≠ none
  lock : s.cloneLock = some n ↔ s.writer n = .copying ∨ ∃ isnew, s.writer n = .checking isnew
  busy : s.writer n = .copying → s.cloneBusy ≠ 0

structure Wf (geo : Geometry) (s : State α) : Prop where
  wfAt : ∀ n, WfAt geo s n
  bmaps : s.bmaps.Ok
  unlocked : s.inCloning = false → s.cloneLock = none

def PcOk (geo : Geometry) (s : State α) : Pc α → Prop
  | .table t => t < geo.tableMax
  | .amap n => n < geo.amapMax
  | .claim n | .store n _ => n < geo.amapMax ∧ s.entered n = true
  | .advance n => n < geo.amapMax
  | .endTable t => t < geo.tableMax
  | .free g => g * amapTablePerGroup < geo.tableMax
  | .done => True

def BmapOk (s : State α) (bmap : Option (Nat × Nat)) : Pc α → Prop
  | .amap n | .claim n | .store n _ | .advance n => ∀ x, bmap = some x → x ∈ s.bmaps.list (groupId n)
  | _ => True

def State.MapAt (s : State α) (n : Nat) (p : Place α) : Prop :=
  MapOk (s.amap n) (s.writer n) (s.bmaps.IsSet n) (n ≤ s.cloneAmapId) (s.changed n) (s.clone n) (s.start n) p

def Place.Passed : Place α → Prop
  | .ahead | .storing _ => False
  | _ => True

structure Running (geo : Geometry) (s : State α) (pc : Pc α) (bmap : Option (Nat × Nat)) : Prop where
  pcOk : PcOk geo s pc
  maps : ∀ n < geo.amapMax, s.MapAt n (pc.place n)
  /-- The ids up to the one the thread has set are behind it; the first one is also the initial value. -/
  low : ∀ n < geo.amapMax, n ≠ 0 → n ≤ s.cloneAmapId → (pc.place n).Passed
  start : ∀ n, s.start n ≠ none → n < geo.amapMax ∧ s.entered n = true ∧ s.tableBmap (tableId n) = false
  beyond : ∀ n, geo.amapMax ≤ n → s.clone n = []
  bmapOk : BmapOk s bmap pc

structure Idle (s : State α) : Prop where
  cloneAmapId : s.cloneAmapId = 0
  bmaps : s.bmaps = .empty
  tableBmap : ∀ t, s.tableBmap t = false
  clone : ∀ n, s.clone n = []

def PhaseOk (geo : Geometry) (s : State α) : Prop :=
  match s.phase with
  | .idle => Idle s
  | .running pc bmap => Running geo s pc bmap
  | .finished => ∀ n, s.clone n = (s.start n).toList

structure Inv (geo : Geometry) (s : State α) : Prop where
  wf : Wf geo s
  phaseOk : s.cloneError = false → PhaseOk geo s

/-! ## What a writer does to its map -/

section Map

variable {a : α} {amap start : Option α} {w : Writer} {set low changed : Prop} {clone : List α} {p : Place α}

theorem MapOk.step {amap' : Option α} {w' : Writer} {set' changed' : Prop} {clone' : List α}
    (h : MapOk amap w set low changed clone start p) (hmap : amap ≠ none → amap' ≠ none)
    (hmade : Made amap w set low clone p → Made amap' w' set' low clone' p)
    (hkept : ∀ a, Kept a amap w set changed clone p → Kept a amap' w' set' changed' clone' p) :
    MapOk amap' w' set' low changed' clone' start p := by
  cases start with
  | none => exact hmade h
  | some a => exact ⟨hmap h.1, hkept a h.2⟩

theorem MapOk.look_low (h : MapOk amap .idle set low changed clone start p) (hmap : amap ≠ none)
    (hp : p ≠ .ahead) : MapOk amap .ready set low changed clone start p := by
  refine h.step id (fun h => ?_) fun a h => by cases p <;> simp_all
  exact ⟨h.clone, by simp, h.place, fun hn => absurd hn hmap, by simp, fun hn => by simpa using h.present hn⟩

theorem MapOk.look (h : MapOk amap .idle set low changed clone start p) (hmap : amap ≠ none) (hlow : ¬low) :
    MapOk amap (.checking false) set low changed clone start p := by
  refine h.step id (fun h => ?_) fun a h => by cases p <;> simp_all
  refine ⟨h.clone, by simp, h.place, fun hn => absurd hn hmap, fun _ => ?_, fun hn => ?_⟩
  all_goals simpa [hlow] using h.present hmap

theorem MapOk.create (h : MapOk none w set low changed clone start p) (hplace : low → p ≠ .ahead) (m : α) :
    start = none ∧ (low → MapOk (some m) .idle set low changed clone start p) ∧
      MapOk (some m) (.checking true) set low changed clone start p := by
  cases start with
  | none =>
    exact ⟨rfl, fun hlow => ⟨h.clone, by simp, h.place, by simp, by simp, fun _ => .inr (.inr (.inl ⟨hlow, hplace hlow⟩))⟩,
      h.clone, by simp, h.place, by simp, by simp, fun _ => .inl rfl⟩
  | some a => exact absurd rfl h.1

theorem MapOk.found {isnew : Bool} (h : MapOk amap (.checking isnew) set low changed clone start p) (hset : set) :
    MapOk amap (checked isnew) set low changed clone start p := by
  refine h.step id (fun h => ?_) fun a h => by cases isnew <;> cases p <;> simp_all [checked]
  refine ⟨h.clone, ?_, h.place, fun hn => absurd (h.absent hn) nofun, ?_, fun _ => .inr (.inl hset)⟩ <;>
    cases isnew <;> simp [checked]

theorem MapOk.claim (h : MapOk amap (.checking false) set low changed clone start p) (hset : ¬set) (hp : p ≠ .freed) :
    MapOk amap .copying True low changed clone start p :=
  h.step id (fun h => absurd (h.checking rfl) (by simp [hset, hp])) fun a h => by cases p <;> simp_all

theorem MapOk.markNew (h : MapOk amap (.checking true) set low changed clone start p) :
    MapOk amap .idle True low changed clone start p := by
  refine h.step id (fun h => ?_) fun a h => by cases p <;> simp_all
  exact ⟨h.clone, by simp, h.place, fun _ => rfl, by simp, fun _ => .inr (.inl trivial)⟩

theorem MapOk.copy (h : MapOk amap .copying set low changed clone start p) :
    MapOk amap .ready set low changed (clone ++ amap.toList) start p :=
  h.step id (fun h => absurd rfl h.writer) fun a h => by cases p <;> simp_all

theorem MapOk.change {changed' : Prop} (h : MapOk amap .ready set low changed clone start p) (m : α) :
    MapOk (some m) .idle set low changed' clone start p := by
  refine h.step (by simp) (fun h => ?_) fun a h => by cases p <;> simp_all
  have hmap : amap ≠ none := fun hn => by cases h.absent hn
  exact ⟨h.clone, by simp, h.place, by simp, by simp, fun _ => by simpa using h.present hmap⟩

theorem MapOk.undo (h : MapOk amap .idle set low changed clone start p) (hmap : amap ≠ none) (hchanged : changed)
    (m : α) : MapOk (some m) .idle set low changed clone start p := by
  refine h.step (by simp) (fun h => ?_) fun a h => by cases p <;> simp_all
  exact ⟨h.clone, by simp, h.place, by simp, by simp, fun _ => h.present hmap⟩

theorem MapOk.mono_low {low' : Prop} (h : MapOk amap w set low changed clone start p) (hlow : low → low') :
    MapOk amap w set low' changed clone start p := by
  cases start with
  | none => exact ⟨h.clone, h.writer, h.place, h.absent, h.checking, fun hn => by have := h.present hn; tauto⟩
  | some a => exact h

theorem MapOk.pass (h : MapOk amap w set low changed clone start .ahead) (hset : start ≠ none → set) :
    MapOk amap w set low changed clone start .behind := by
  cases start with
  | none =>
    refine ⟨h.clone, h.writer, by simp, h.absent, fun hw => ?_, fun hn => ?_⟩
    · simpa using h.checking hw
    · have := h.present hn
      tauto
  | some a =>
    obtain ⟨hmap, h⟩ := h
    refine ⟨hmap, ?_⟩
    simp_all

theorem MapOk.read (h : MapOk amap w set low changed clone (some a) .ahead) (hset : ¬set) :
    amap = some a ∧ MapOk amap w True low changed clone (some a) (.storing (some a)) := by
  obtain ⟨hmap, h⟩ := h
  obtain ⟨hw, -, -, hclone, hamap⟩ | h | h := h
  · refine ⟨hamap, hmap, rfl, ?_, trivial, hclone⟩
    tauto
  all_goals exact absurd h.2.1 hset

theorem MapOk.store {m : Option α} (h : MapOk amap w set low changed clone start (.storing m)) :
    MapOk amap w set low changed (clone ++ m.toList) start .behind := by
  cases start with
  | none => exact absurd rfl (h.place m)
  | some a =>
    obtain ⟨hmap, rfl, hw, hset, rfl⟩ := h
    exact ⟨hmap, .inr ⟨hw, hset, rfl⟩⟩

theorem MapOk.settle (h : MapOk amap w set low changed clone start .behind) (hw : w ≠ .copying) :
    MapOk amap w set low changed clone start .settled := by
  cases start with
  | none =>
    refine ⟨h.clone, h.writer, by simp, h.absent, fun hw => ?_, fun hn => ?_⟩
    · simpa using h.checking hw
    · simpa using h.present hn
  | some a =>
    obtain ⟨hmap, h⟩ := h
    refine ⟨hmap, ?_⟩
    obtain h | h := h
    · exact absurd h.1 hw
    · exact h

theorem MapOk.skip (h : MapOk amap w set low changed clone none .ahead) :
    MapOk amap w set low changed clone none .settled := by
  have hpass := h.pass (by simp)
  exact hpass.settle hpass.writer

theorem MapOk.free {set' : Prop} (h : MapOk amap w set low changed clone start .settled) :
    MapOk amap w set' low changed clone start .freed := by
  cases start with
  | none =>
    exact ⟨h.clone, h.writer, by simp, h.absent, fun _ => .inr rfl, fun _ => .inr (.inr (.inr rfl))⟩
  | some a =>
    obtain ⟨hmap, h⟩ := h
    exact ⟨hmap, h.1, h.2.2⟩

end Map

end QuadStor.Cloning
