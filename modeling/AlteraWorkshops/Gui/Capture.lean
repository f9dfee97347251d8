import AlteraWorkshops.Gui.Display
import Mathlib.Algebra.Order.Ring.Rat

/-! The capture thread of the viewers, cycle by cycle: what it puts in the queue for the display.
The two viewers run the same code with their own sizes. -/

namespace AlteraWorkshops.Gui

/-- The sizes that a viewer is written with: those of `load_rgb_image` and the shape of its black
images. -/
structure Viewer where
  width : ℕ
  height : ℕ
  blackRows : ℕ
  blackColumns : ℕ

def mipi : Viewer := ⟨320, 200, 320, 200⟩

def oneWare : Viewer := ⟨128, 128, 128, 128⟩

/-! ### A cycle -/

inductive Answer
  | yes
  | no
  | raises
  deriving DecidableEq

/-- What `load_rgb_image` finds. The time of an unreadable file may have been read before. -/
inductive RgbFile
  | missing
  | unreadable (mtime : ℚ)
  | content (mtime : ℚ) (data : List (BitVec 8))

structure CaptureCycle where
  exported : Answer
  status : Answer
  file : RgbFile
  time : ℚ
  cleanupRaises : Bool
  reinitialized : Answer
  restarted : Answer

/-- The attributes of `load_rgb_image` and `capture_thread`, and the local variable
`current_time_seconds`. -/
structure Capture where
  loadedMtime : Option ℚ
  lastFileMtime : Option ℚ
  fileStaleSince : Option ℚ
  currentTimeSeconds : Option ℚ
  lastImageHash : Option ℤ
  imageUnchangedSince : Option ℚ
  restartCount : Option ℕ

def Capture.fresh : Capture := ⟨none, none, none, none, none, none, none⟩

/-- How the `try` block goes on: with its next statement, with `continue` or with the handler. -/
inductive Jump
  | next
  | again
  | raised
  deriving DecidableEq

/-- Step 1, up to `load_rgb_image`. -/
def CaptureCycle.connect (c : CaptureCycle) : Jump :=
  match c.exported with
  | .yes => .next
  | .raises => .raised
  | .no =>
    match c.status with
    | .yes => .next
    | .raises => .raised
    | .no => if c.cleanupRaises then .raised else .again

namespace Capture

def load (v : Viewer) (s : Capture) : RgbFile → Option (RgbImage v.height v.width) × Capture
  | .missing => (none, s)
  | .unreadable mtime => (none, { s with loadedMtime := some mtime })
  | .content mtime data =>
    (loadRgbImage (some data) v.width v.height, { s with loadedMtime := some mtime })

/-- The check whether the file has been updated, which restarts the System Console if it has not
been for more than 3 seconds. -/
def checkFile (s : Capture) (c : CaptureCycle) : Jump × Capture :=
  match s.loadedMtime with
  | none => (.next, s)
  | some currentFileMtime =>
    match s.lastFileMtime with
    | none => (.next, { s with lastFileMtime := some currentFileMtime })
    | some lastFileMtime =>
      if currentFileMtime = lastFileMtime then
        match s.fileStaleSince, s.currentTimeSeconds with
        -- `current_time_seconds` is read before it is assigned
        | _, none => (.raised, s)
        | none, some now => (.next, { s with fileStaleSince := some now })
        | some since, some now =>
          if now - since > 3 then (if c.cleanupRaises then .raised else .again, s) else (.next, s)
      else (.next, { s with lastFileMtime := some currentFileMtime, fileStaleSince := none })

/-- The image has not changed, and the System Console is restarted after 8 seconds, or everything
if that has not helped twice. -/
def imageUnchanged (s : Capture) (c : CaptureCycle) : Jump × Capture :=
  match s.imageUnchangedSince with
  | none => (.next, { s with imageUnchangedSince := some c.time })
  | some since =>
    if c.time - since > 8 then
      let restartCount := s.restartCount.getD 0 + 1
      let s := { s with restartCount := some restartCount }
      if restartCount ≤ 2 then
        if c.cleanupRaises then (.raised, s)
        else
          match c.reinitialized with
          | .yes => (.next, { s with imageUnchangedSince := some c.time })
          | .no => (.next, s)
          | .raises => (.raised, s)
      else
        match c.restarted with
        | .yes => (.next, { s with restartCount := some 0, imageUnchangedSince := some c.time })
        | .no => (.next, s)
        | .raises => (.raised, s)
    else (.next, s)

/-- The check whether the image has changed, up to `image_queue.put`. -/
def checkImage (s : Capture) (c : CaptureCycle) (imageHash : ℤ) : Jump × Capture :=
  let s := { s with currentTimeSeconds := some c.time }
  let checked :=
    match s.lastImageHash with
    | none => (.next, s)
    | some lastImageHash =>
      if imageHash = lastImageHash then s.imageUnchanged c
      else (.next, { s with
        imageUnchangedSince := none
        restartCount := s.restartCount.map fun _ => 0 })
  if checked.1 = .next then (.next, { checked.2 with lastImageHash := some imageHash }) else checked

end Capture

/-- An image in the queue, with what its title adds to the time. -/
structure Frame where
  rows : ℕ
  columns : ℕ
  image : RgbImage rows columns
  note : String

/-- `np.zeros((blackRows, blackColumns, 3))` -/
def blackImage (v : Viewer) (note : String) : Frame where
  rows := v.blackRows
  columns := v.blackColumns
  image := ⟨List.replicate (v.blackRows * v.blackColumns * 3) 0, List.length_replicate ..⟩
  note := note

variable (v : Viewer) (hash : List (BitVec 8) → ℤ)

def Capture.cycle (s : Capture) (c : CaptureCycle) : List Frame × Capture :=
  match c.connect with
  | .again => ([], s)
  | .raised => ([blackImage v " (Error)"], s)
  | .next =>
    let s' := (s.load v c.file).2
    match (s.load v c.file).1 with
    | none => ([blackImage v " (No RGB file)"], s')
    | some image =>
      match (s'.checkFile c).1 with
      | .again => ([], (s'.checkFile c).2)
      | .raised => ([blackImage v " (Error)"], (s'.checkFile c).2)
      | .next =>
        let checked := (s'.checkFile c).2.checkImage c (hash image.data)
        if checked.1 = .next then ([⟨v.height, v.width, image, ""⟩], checked.2)
        else ([blackImage v " (Error)"], checked.2)

def Capture.run (s : Capture) (l : List CaptureCycle) : Capture :=
  l.foldl (fun s c => (s.cycle v hash c).2) s

def Capture.queue (s : Capture) : List CaptureCycle → List Frame
  | [] => []
  | c :: l => (s.cycle v hash c).1 ++ Capture.queue (s.cycle v hash c).2 l

/-! ### The shape of what is shown -/

def Frame.Displayable (f : Frame) : Prop := f.rows = v.height ∧ f.columns = v.width

/-- The cycle gets as far as the file, and there is no file that can be read. -/
def CaptureCycle.NoFile (c : CaptureCycle) : Prop :=
  c.connect = .next ∧ ∀ mtime data, c.file ≠ .content mtime data

def Capture.Raises (s : Capture) (c : CaptureCycle) : Prop :=
  c.connect = .raised ∨ c.connect = .next ∧ ∃ image, (s.load v c.file).1 = some image ∧
    (((s.load v c.file).2.checkFile c).1 = .raised ∨
      ((s.load v c.file).2.checkFile c).1 = .next ∧
        (((s.load v c.file).2.checkFile c).2.checkImage c (hash image.data)).1 ≠ .next)

variable {v hash} {s : Capture} {c : CaptureCycle}

theorem load_eq_none_iff (s : Capture) (file : RgbFile) :
    (s.load v file).1 = none ↔ ∀ mtime data, file ≠ .content mtime data := by
  cases file with
  | missing => simp [Capture.load]
  | unreadable mtime => simp [Capture.load]
  | content mtime data =>
    obtain ⟨image, himage, -⟩ := loadRgbImage_some data v.width v.height
    simp [Capture.load, himage]

theorem not_noFile {image : RgbImage v.height v.width} (hload : (s.load v c.file).1 = some image) :
    ¬c.NoFile := by
  rintro ⟨-, hnone⟩
  cases hload.symm.trans ((load_eq_none_iff s c.file).mpr hnone)

theorem raises_iff (hconnect : c.connect = .next) {image : RgbImage v.height v.width}
    (hload : (s.load v c.file).1 = some image) : s.Raises v hash c ↔
      ((s.load v c.file).2.checkFile c).1 = .raised ∨
        ((s.load v c.file).2.checkFile c).1 = .next ∧
          (((s.load v c.file).2.checkFile c).2.checkImage c (hash image.data)).1 ≠ .next := by
  simp [Capture.Raises, hconnect, hload]

/-- A cycle shows a black image if it fails, and else nothing but the image of the file. -/
theorem cycle_queue (v : Viewer) (hash : List (BitVec 8) → ℤ) (s : Capture) (c : CaptureCycle) :
    ((c.NoFile ∨ s.Raises v hash c) ∧ ∃ note, (s.cycle v hash c).1 = [blackImage v note]) ∨
      (¬c.NoFile ∧ ¬s.Raises v hash c) ∧ ∀ f ∈ (s.cycle v hash c).1, f.Displayable v := by
  unfold Capture.cycle
  cases hconnect : c.connect with
  | again =>
    refine .inr ⟨⟨fun h => ?_, fun h => ?_⟩, fun f hf => absurd hf List.not_mem_nil⟩
    · cases hconnect.symm.trans h.1
    · rcases h with h | ⟨h, -⟩ <;> cases hconnect.symm.trans h
  | raised => exact .inl ⟨.inr (.inl hconnect), _, rfl⟩
  | next =>
    dsimp only
    cases hload : (s.load v c.file).1 with
    | none => exact .inl ⟨.inl ⟨hconnect, (load_eq_none_iff s c.file).mp hload⟩, _, rfl⟩
    | some image =>
      have hfile : ¬c.NoFile := not_noFile hload
      have hraises : s.Raises v hash c ↔ _ := raises_iff hconnect hload
      dsimp only
      cases hcheck : ((s.load v c.file).2.checkFile c).1 with
      | again =>
        refine .inr ⟨⟨hfile, fun h => ?_⟩, fun f hf => absurd hf List.not_mem_nil⟩
        rcases hraises.mp h with h | ⟨h, -⟩ <;> cases hcheck.symm.trans h
      | raised => exact .inl ⟨.inr (hraises.mpr (.inl hcheck)), _, rfl⟩
      | next =>
        dsimp only
        split_ifs with himage
        · refine .inr ⟨⟨hfile, fun h => ?_⟩, ?_⟩
          · rcases hraises.mp h with h | ⟨-, h⟩
            · cases hcheck.symm.trans h
            · exact h himage
          · intro f hf
            rw [List.mem_singleton.mp hf]
            exact ⟨rfl, rfl⟩
        · exact .inl ⟨.inr (hraises.mpr (.inr ⟨hcheck, himage⟩)), _, rfl⟩

theorem queue_displayable (hrows : v.blackRows = v.height) (hcolumns : v.blackColumns = v.width)
    (s : Capture) (l : List CaptureCycle) : ∀ f ∈ s.queue v hash l, f.Displayable v := by
  induction l generalizing s with
  | nil => exact fun f hf => absurd hf List.not_mem_nil
  | cons c l ih =>
    intro f hf
    rcases List.mem_append.mp hf with hf | hf
    · rcases cycle_queue v hash s c with ⟨-, note, hblack⟩ | ⟨-, hshown⟩
      · rw [hblack, List.mem_singleton] at hf
        rw [hf]
        exact ⟨hrows, hcolumns⟩
      · exact hshown f hf
    · exact ih _ f hf

theorem oneWare_queue (hash : List (BitVec 8) → ℤ) (s : Capture) (l : List CaptureCycle) :
    ∀ f ∈ s.queue oneWare hash l, f.rows = 128 ∧ f.columns = 128 :=
  queue_displayable (v := oneWare) rfl rfl s l

theorem cycle_displayable_iff (hblack : ¬(v.blackRows = v.height ∧ v.blackColumns = v.width)) :
    (∀ f ∈ (s.cycle v hash c).1, f.Displayable v) ↔ ¬c.NoFile ∧ ¬s.Raises v hash c := by
  rcases cycle_queue v hash s c with ⟨hfails, note, hframes⟩ | ⟨hworks, hshown⟩
  · refine iff_of_false (fun h => hblack ?_) fun h => hfails.elim h.1 h.2
    exact h (blackImage v note) (hframes ▸ List.mem_singleton_self _)
  · exact iff_of_true hshown hworks

theorem queue_displayable_iff (hblack : ¬(v.blackRows = v.height ∧ v.blackColumns = v.width))
    (s : Capture) (l : List CaptureCycle) : (∀ f ∈ s.queue v hash l, f.Displayable v) ↔
      ∀ a c b, l = a ++ c :: b → ¬c.NoFile ∧ ¬(s.run v hash a).Raises v hash c := by
  induction l generalizing s with
  | nil => simp [Capture.queue]
  | cons c l ih =>
    rw [Capture.queue, List.forall_mem_append, cycle_displayable_iff hblack, ih]
    constructor
    · rintro ⟨hfirst, hrest⟩ a c' b hsplit
      cases a with
      | nil =>
        obtain ⟨rfl, rfl⟩ := List.cons.inj hsplit
        exact hfirst
      | cons c'' a =>
        obtain ⟨rfl, rfl⟩ := List.cons.inj hsplit
        exact hrest a c' b rfl
    · intro h
      refine ⟨h [] c l rfl, fun a c' b hsplit => ?_⟩
      exact h (c :: a) c' b (congrArg (List.cons c) hsplit)

/-- The viewer of the MIPI lab shows images of its shape exactly in the runs without a missing
file and without an exception. -/
theorem mipi_queue_iff (hash : List (BitVec 8) → ℤ) (l : List CaptureCycle) :
    (∀ f ∈ Capture.fresh.queue mipi hash l, f.rows = 200 ∧ f.columns = 320) ↔
      ∀ a c b, l = a ++ c :: b → ¬c.NoFile ∧ ¬(Capture.fresh.run mipi hash a).Raises mipi hash c :=
  queue_displayable_iff (v := mipi) (by decide) Capture.fresh l

theorem mipi_missing_file : ¬∀ (hash : List (BitVec 8) → ℤ) (l : List CaptureCycle),
    ∀ f ∈ Capture.fresh.queue mipi hash l, f.rows = 200 ∧ f.columns = 320 := by
  intro h
  let cycle : CaptureCycle := ⟨.yes, .yes, .missing, 0, false, .yes, .yes⟩
  have hshape := h (fun _ => 0) [cycle] (blackImage mipi " (No RGB file)") (.head _)
  exact absurd hshape.1 (by decide)

end AlteraWorkshops.Gui
