import AlteraWorkshops.Lab.Console

/-! The paint application: its mode, its pixel buffer, the file it saves and the
hardware its console commands reach. The mode agrees with the hardware exactly after
the event sequences whose last command fits the last mode button. -/

namespace AlteraWorkshops.Gui

open Lab (Hardware PaintConfig CameraConfig)

/-! ### The application -/

def width : ℕ := 128
def height : ℕ := 128
def scale : ℤ := 4

def palette : List String := ["#000000", "#FF0000", "#00FF00", "#0000FF", "#FFFFFF"]

def brushWidth : ℕ := 3
def brushRadius : ℕ := brushWidth / 2

inductive Mode
  | paint | camera
  deriving DecidableEq, Repr

/-- R, G, B of every pixel, row by row. -/
abbrev Pixels := Vector (BitVec 8) (width * height * 3)

/-- The fill colour of every rectangle of the canvas, row by row. -/
abbrev Fills := Vector String (width * height)

structure ImageSourceApp where
  mode : Mode
  pixels : Pixels
  fills : Fills
  currentColorIndex : ℕ
  lastCenter : Option (ℤ × ℤ)

def defaultBg : String := "#FFFFFF"

def white : Pixels := Vector.replicate _ 255

def hexDigit (c : Char) : ℕ := if c.isDigit then c.toNat - '0'.toNat else c.toNat - 'A'.toNat + 10

/-- Two hexadecimal digits of a colour, as `int(color[1 + 2k : 3 + 2k], 16)`. -/
def channel (color : String) (k : ℕ) : BitVec 8 :=
  BitVec.ofNat 8 (((color.toList.drop (1 + 2 * k)).take 2).foldl (fun n c => 16 * n + hexDigit c) 0)

def ImageSourceApp.currentColor (app : ImageSourceApp) : String :=
  palette.getD app.currentColorIndex ""

/-- One pixel of the brush, if it is on the canvas. -/
def ImageSourceApp.setPixel (app : ImageSourceApp) (x y : ℤ) : ImageSourceApp :=
  if 0 ≤ x ∧ x < width ∧ 0 ≤ y ∧ y < height then
    let rect := y.toNat * width + x.toNat
    let idx := rect * 3
    { app with
      pixels := ((app.pixels.setIfInBounds idx (channel app.currentColor 0)).setIfInBounds
        (idx + 1) (channel app.currentColor 1)).setIfInBounds (idx + 2)
        (channel app.currentColor 2)
      fills := app.fills.setIfInBounds rect app.currentColor }
  else app

def brushOffsets : List ℤ := (List.range (2 * brushRadius + 1)).map fun n => (n : ℤ) - brushRadius

def ImageSourceApp.brush (app : ImageSourceApp) (cx cy : ℤ) : ImageSourceApp :=
  brushOffsets.foldl (fun app dy =>
    brushOffsets.foldl (fun app dx => app.setPixel (cx + dx) (cy + dy)) app) app

def ImageSourceApp.paintAtEvent (app : ImageSourceApp) (x y : ℤ) : ImageSourceApp :=
  if app.mode ≠ .paint then app
  else
    let cx := x / scale
    let cy := y / scale
    if cx < 0 ∨ cx ≥ width ∨ cy < 0 ∨ cy ≥ height then app
    else if app.lastCenter = some (cx, cy) then app
    else { app with lastCenter := some (cx, cy) }.brush cx cy

/-! ### Handlers -/

/-- The application, its files and the hardware behind the console. -/
structure Session where
  app : ImageSourceApp
  digitBin : List (BitVec 8)
  vfbContent : Option (List (BitVec 8))
  hardware : Hardware

namespace Session

def executePaint (s : Session) : Session :=
  { s with hardware := s.hardware.perform (Lab.paint s.digitBin) }

def executeCamera (s : Session) : Session :=
  { s with hardware := s.hardware.perform Lab.camera }

def updateCursor (s : Session) : Session := { s with app := { s.app with lastCenter := none } }

def onSave (s : Session) : Session := { s with digitBin := s.app.pixels.toList }.executePaint

def onClear (s : Session) : Session :=
  { s with app := { s.app with
      pixels := white, fills := Vector.replicate _ defaultBg, lastCenter := none } }.onSave

def onCameraPressed (s : Session) : Session :=
  { s with app := { s.app with mode := .camera } }.updateCursor.onClear.executeCamera

def onPaintPressed (s : Session) : Session :=
  { s with app := { s.app with mode := .paint } }.updateCursor.executePaint

def onLeftUp (s : Session) : Session := { s with app := { s.app with lastCenter := none } }

def onRightClick (s : Session) : Session :=
  { s with app := { s.app with
      currentColorIndex := (s.app.currentColorIndex + 1) % palette.length } }

end Session

/-- The end of `__init__`, with the files and the hardware as they were before. -/
def construct (digitBin : List (BitVec 8)) (vfbContent : Option (List (BitVec 8)))
    (hardware : Hardware) : Session :=
  Session.executeCamera <| Session.onPaintPressed <| Session.onClear
    ⟨⟨.paint, white, Vector.replicate _ defaultBg, 0, none⟩, digitBin, vfbContent, hardware⟩

inductive Event
  | cameraSource | paintSource | save | clear
  | leftDown (x y : ℤ) | leftDrag (x y : ℤ) | leftUp | rightClick
  deriving DecidableEq, Repr

def Session.handle (s : Session) : Event → Session
  | .cameraSource => s.onCameraPressed
  | .paintSource => s.onPaintPressed
  | .save => s.onSave
  | .clear => s.onClear
  | .leftDown x y | .leftDrag x y => { s with app := s.app.paintAtEvent x y }
  | .leftUp => s.onLeftUp
  | .rightClick => s.onRightClick

def Session.handleAll (s : Session) (events : List Event) : Session := events.foldl Session.handle s

/-! ### Mode and hardware -/

/-- The mode names the configuration of the hardware. -/
def Session.Agrees (s : Session) : Prop :=
  (s.app.mode = .paint ↔ PaintConfig s.hardware) ∧ (s.app.mode = .camera ↔ CameraConfig s.hardware)

/-- The hardware is configured for mode `m`. -/
def Configured (m : Mode) (h : Hardware) : Prop :=
  match m with
  | .paint => PaintConfig h
  | .camera => CameraConfig h

def Event.isModeButton : Event → Bool
  | .cameraSource | .paintSource => true
  | _ => false

/-- The events whose handlers send commands. -/
def Event.isCommand : Event → Bool
  | .cameraSource | .paintSource | .save | .clear => true
  | _ => false

def lastCommand (events : List Event) : Option Event := events.reverse.find? Event.isCommand

def lastModeButton (events : List Event) : Option Event :=
  events.reverse.find? Event.isModeButton

/-- The last event with a command is Camera Source, or it is another one and the last
mode button is not Camera Source. -/
def CommandFitsButton (events : List Event) : Prop :=
  match lastCommand events with
  | none => False
  | some .cameraSource => True
  | some _ => lastModeButton events ≠ some .cameraSource

/-- The mode whose configuration the last command leaves; the constructor ends with
the camera command. -/
def configuredMode (events : List Event) : Mode :=
  match lastCommand events with
  | none | some .cameraSource => .camera
  | some _ => .paint

def selectedMode (events : List Event) : Mode :=
  if lastModeButton events = some .cameraSource then .camera else .paint

theorem Configured.agrees_iff {s : Session} {m : Mode} (h : Configured m s.hardware) :
    s.Agrees ↔ s.app.mode = m := by
  unfold Session.Agrees
  cases m with
  | paint =>
    have hp : PaintConfig s.hardware := h
    have hc : ¬CameraConfig s.hardware := hp.not_camera
    cases s.app.mode <;> simp [hp, hc]
  | camera =>
    have hc : CameraConfig s.hardware := h
    have hp : ¬PaintConfig s.hardware := fun hp => hp.not_camera hc
    cases s.app.mode <;> simp [hp, hc]

/-! ### One event -/

/-- A fold of changes that keep the mode keeps it. -/
theorem foldl_mode {α : Type*} {f : ImageSourceApp → α → ImageSourceApp}
    (hf : ∀ app x, (f app x).mode = app.mode) (l : List α) (app : ImageSourceApp) :
    (l.foldl f app).mode = app.mode := by
  induction l generalizing app with
  | nil => rfl
  | cons x l ih => rw [List.foldl_cons, ih, hf]

theorem setPixel_mode (app : ImageSourceApp) (x y : ℤ) : (app.setPixel x y).mode = app.mode := by
  unfold ImageSourceApp.setPixel
  split_ifs <;> rfl

theorem paintAtEvent_mode (app : ImageSourceApp) (x y : ℤ) :
    (app.paintAtEvent x y).mode = app.mode := by
  have hbrush : ∀ (app : ImageSourceApp) (cx cy : ℤ), (app.brush cx cy).mode = app.mode :=
    fun app cx cy => foldl_mode
      (fun app dy => foldl_mode (fun app dx => setPixel_mode ..) _ app) _ app
  simp only [ImageSourceApp.paintAtEvent]
  split_ifs <;> first | rfl | exact hbrush ..

theorem handle_mode (s : Session) (e : Event) :
    (s.handle e).app.mode =
      if e.isModeButton then if e = .cameraSource then .camera else .paint else s.app.mode := by
  cases e with
  | leftDown x y => exact paintAtEvent_mode s.app x y
  | leftDrag x y => exact paintAtEvent_mode s.app x y
  | _ => rfl

theorem executePaint_config (s : Session) : PaintConfig s.executePaint.hardware :=
  (Lab.perform_paint s.hardware s.digitBin).1

theorem executeCamera_config (s : Session) : CameraConfig s.executeCamera.hardware :=
  Lab.perform_camera s.hardware

theorem handle_config (s : Session) {e : Event} (he : e.isCommand = true) :
    Configured (if e = .cameraSource then .camera else .paint) (s.handle e).hardware := by
  cases e with
  | cameraSource => exact executeCamera_config _
  | paintSource => exact executePaint_config _
  | save => exact executePaint_config _
  | clear => exact executePaint_config _
  | _ => cases he

theorem handle_hardware (s : Session) {e : Event} (he : e.isCommand = false) :
    (s.handle e).hardware = s.hardware := by
  cases e <;> first | rfl | cases he

/-! ### Every event sequence -/

theorem handleAll_append (s : Session) (events : List Event) (e : Event) :
    s.handleAll (events ++ [e]) = (s.handleAll events).handle e := by
  simp [Session.handleAll]

theorem lastCommand_append (events : List Event) (e : Event) :
    lastCommand (events ++ [e]) = if e.isCommand then some e else lastCommand events := by
  cases h : e.isCommand <;> simp [lastCommand, h]

theorem lastModeButton_append (events : List Event) (e : Event) :
    lastModeButton (events ++ [e]) = if e.isModeButton then some e else lastModeButton events := by
  cases h : e.isModeButton <;> simp [lastModeButton, h]

/-- A mode button is a command: if the last command is one, it is the last mode button. -/
theorem lastModeButton_of_lastCommand (events : List Event) :
    (lastCommand events = none → lastModeButton events = none) ∧
      ∀ e, lastCommand events = some e → e.isModeButton = true →
        lastModeButton events = some e := by
  induction events using List.reverseRecOn with
  | nil => exact ⟨fun _ => rfl, fun e he => by cases he⟩
  | append_singleton events e ih =>
    rw [lastCommand_append, lastModeButton_append]
    cases hc : e.isCommand with
    | true =>
      refine ⟨fun hn => (nomatch hn), fun e' he' hb => ?_⟩
      obtain rfl : e = e' := Option.some.inj he'
      rw [if_pos hb]
    | false =>
      have hb : e.isModeButton = false := by cases e <;> first | rfl | cases hc
      rw [hb]
      exact ih

section Run

variable (digitBin : List (BitVec 8)) (vfbContent : Option (List (BitVec 8))) (hardware : Hardware)

/-- The session after the constructor and these events. -/
def after (events : List Event) : Session :=
  (construct digitBin vfbContent hardware).handleAll events

theorem after_mode (events : List Event) :
    (after digitBin vfbContent hardware events).app.mode = selectedMode events := by
  induction events using List.reverseRecOn with
  | nil => rfl
  | append_singleton events e ih =>
    rw [after, handleAll_append, handle_mode, selectedMode, lastModeButton_append]
    cases he : e.isModeButton with
    | true => simp
    | false => exact ih

theorem after_config (events : List Event) :
    Configured (configuredMode events) (after digitBin vfbContent hardware events).hardware := by
  induction events using List.reverseRecOn with
  | nil => exact executeCamera_config _
  | append_singleton events e ih =>
    rw [after, handleAll_append, configuredMode, lastCommand_append]
    cases he : e.isCommand with
    | true =>
      have hc := handle_config (after digitBin vfbContent hardware events) he
      cases e <;> exact hc
    | false =>
      rw [handle_hardware _ he]
      exact ih

/-- The mode agrees with the hardware exactly when the last command fits the last mode
button. -/
theorem mode_agrees_iff (events : List Event) :
    (after digitBin vfbContent hardware events).Agrees ↔ CommandFitsButton events := by
  rw [(after_config digitBin vfbContent hardware events).agrees_iff, after_mode]
  obtain ⟨hnone, hbutton⟩ := lastModeButton_of_lastCommand events
  unfold selectedMode configuredMode CommandFitsButton
  cases hc : lastCommand events with
  | none => simp [hnone hc]
  | some e =>
    cases e with
    | cameraSource => simp [hbutton _ hc rfl]
    | _ => simp

end Run

/-- Save in camera mode switches the hardware to paint. -/
theorem mode_disagrees_saved :
    ¬∀ digitBin vfbContent hardware events, events ≠ [] →
      (after digitBin vfbContent hardware events).Agrees := by
  intro h
  let hardware : Hardware := ⟨.initial, 0, fun _ => 0⟩
  have hagrees := (h [] none hardware [.cameraSource, .save] (by simp)).1
  have hpaint : PaintConfig (after [] none hardware [.cameraSource, .save]).hardware :=
    executePaint_config _
  cases hagrees.mpr hpaint

end AlteraWorkshops.Gui
