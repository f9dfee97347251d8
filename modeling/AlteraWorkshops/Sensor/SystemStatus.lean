import AlteraWorkshops.Sensor.Bus

/-! The system status command of the OneWare firmware. Its three reads share one buffer and
nobody looks at their status: where a read fails, the value printed is what the buffer held,
after a line that tells of the failure. -/

namespace AlteraWorkshops.Sensor

open Effects Script
open Camera (mira220ImagerStateReg mira220ImagerRunReg)

def mira220RegChipVer : BitVec 16 := 0x001D

variable (board : Board)

/-- The two hexadecimal digits of `rData[0]`. -/
def byte2ascii (value : BitVec 8) : List Char :=
  [hex2ascii (value >>> 4 &&& 0x0F), hex2ascii (value &&& 0x0F)]

/-- A label, the register that is read for it, and the end of the line. -/
def statusLine (addr : BitVec 16) (label ending : String) (rData0 : BitVec 8) :
    Firm (BitVec 8) := do
  let (_, rData0) ← peek board addr rData0
  putstr label
  emit (.put (byte2ascii rData0))
  putstr ending
  return rData0

/-- The 32-bit status of the frame writer, in two halves. -/
def vfwLine (offset : ℕ) (label ending : String) : Firm Unit := do
  let value ← iord board .vfw offset
  putstr label
  emit (.put (word2ascii (value.extractLsb' 16 16)))
  emit (.put (word2ascii (value.extractLsb' 0 16)))
  putstr ending

/-- The `S` command; `rData0` is what `rData[0]` holds before, the result what it holds
afterwards. -/
def systemStatus (rData0 : BitVec 8) : Firm (BitVec 8) := do
  putstr "=== System Status Check ===\r\n"
  let rData0 ← statusLine board mira220RegChipVer "Chip Version: 0x" "\r\n" rData0
  let rData0 ← statusLine board mira220ImagerStateReg "Imager State: 0x" "\r\n" rData0
  let rData0 ← statusLine board mira220ImagerRunReg "Imager Run: 0x" " (should be 01)\r\n" rData0
  vfwLine board 0x0104 "VFW IRQ Status: 0x" "\r\n"
  vfwLine board 0x016C "VFW Run: 0x" " (should be 01)\r\n"
  putstr "===========================\r\n"
  return rData0

/-! ### The output -/

/-- The register reads among some events, in order. -/
def Event.read : Event → Option (BitVec 16 × Option (BitVec 8))
  | .txRx addr data => some (addr, data)
  | _ => none

def reads (e : List Event) : List (BitVec 16 × Option (BitVec 8)) := e.filterMap Event.read

def Event.text : Event → List Char
  | .put text => text
  | _ => []

/-- All that is printed. -/
def console (e : List Event) : List Char := e.flatMap Event.text

/-- What a status line shows for a read with the answer `data`. -/
def lineText (label ending : String) (data : Option (BitVec 8)) (rData0 : BitVec 8) : List Char :=
  (if data = none then errorReading else []) ++ label.toList ++ byte2ascii (data.getD rData0) ++
    ending.toList

variable {board} {l : List Event}

@[simp] theorem reads_append (e e' : List Event) : reads (e ++ e') = reads e ++ reads e' :=
  List.filterMap_append

@[simp] theorem console_append (e e' : List Event) :
    console (e ++ e') = console e ++ console e' := List.flatMap_append

@[simp] theorem console_put (text : List Char) : console [.put text] = text := List.append_nil text

/-- A read that is acknowledged brings what the register holds. -/
theorem ends_peek (addr : BitVec 16) (rData0 : BitVec 8) :
    Ends (peek board addr rData0) l fun r e => ∃ data,
      (∀ value, data = some value → value = board.register l addr) ∧
      r = .ok (if data = none then 1 else 0, data.getD rData0) ∧ writes e = [] ∧
      reads e = [(addr, data)] ∧ console e = if data = none then errorReading else [] := by
  unfold peek
  apply Ends.ask_bind
  cases board.acknowledges l with
  | true => exact Ends.pure ⟨_, fun _ h => (Option.some.inj h).symm, rfl, rfl, rfl, rfl⟩
  | false => exact Ends.emit_bind (Ends.pure ⟨none, nofun, rfl, rfl, rfl, rfl⟩)

theorem ends_statusLine (addr : BitVec 16) (label ending : String) (rData0 : BitVec 8) :
    Ends (statusLine board addr label ending rData0) l fun r e => ∃ data,
      (∀ value, data = some value → value = board.register l addr) ∧
      r = .ok (data.getD rData0) ∧ writes e = [] ∧ reads e = [(addr, data)] ∧
      console e = lineText label ending data rData0 := by
  apply Ends.bind_of_isEmpty (ends_peek addr rData0)
  rintro _ e ⟨data, hvalue, ⟨⟩, hw, hr, hc⟩
  apply Ends.emit_bind
  apply Ends.emit_bind
  apply Ends.emit_bind
  refine Ends.pure ⟨data, hvalue, rfl, ?_, ?_, ?_⟩
  · simp only [writes_append, hw]
    rfl
  · simp only [reads_append, hr]
    rfl
  · simp only [console_append, console_put, hc, lineText, List.append_assoc, List.append_nil]

/-- What a line about the frame writer shows. -/
def vfwText (label ending : String) (value : BitVec 32) : List Char :=
  label.toList ++ word2ascii (value.extractLsb' 16 16) ++ word2ascii (value.extractLsb' 0 16) ++
    ending.toList

theorem ends_vfwLine (offset : ℕ) (label ending : String) :
    Ends (vfwLine board offset label ending) l fun _ e => ∃ value,
      writes e = [] ∧ reads e = [] ∧ console e = vfwText label ending value := by
  apply Ends.ask_bind
  apply Ends.emit_bind
  apply Ends.emit_bind
  apply Ends.emit_bind
  apply Ends.emit
  have hiord (value : BitVec 32) : console [.iord .vfw offset value] = [] := rfl
  refine ⟨board.component l .vfw offset, rfl, rfl, ?_⟩
  simp only [console_append, console_put, hiord, vfwText, List.append_assoc, List.nil_append]

/-! ### The command -/

theorem logged_statusLine (addr : BitVec 16) (label ending : String) (rData0 : BitVec 8) :
    Logged board (statusLine board addr label ending rData0) :=
  (Logged.peek addr rData0).bind fun _ => (Logged.put _).bind fun _ => (Logged.put _).bind fun _ =>
    (Logged.put _).bind fun _ => Logged.pure _

theorem logged_vfwLine (offset : ℕ) (label ending : String) :
    Logged board (vfwLine board offset label ending) :=
  (Logged.iord _ _).bind fun _ => (Logged.put _).bind fun _ => (Logged.put _).bind fun _ =>
    (Logged.put _).bind fun _ => Logged.put _

theorem logged_systemStatus (rData0 : BitVec 8) : Logged board (systemStatus board rData0) :=
  (Logged.put _).bind fun _ => (logged_statusLine _ _ _ _).bind fun _ =>
    (logged_statusLine _ _ _ _).bind fun _ => (logged_statusLine _ _ _ _).bind fun _ =>
      (logged_vfwLine _ _ _).bind fun _ => (logged_vfwLine _ _ _).bind fun _ =>
        (Logged.put _).bind fun _ => Logged.pure _

/-- Each read brings what the board answers after the events before it. A value is printed as
that of a register where the register was read; where the read failed, a line says so and the
value is that of the last read before, or what was in the buffer. -/
theorem system_status (board : Board) (rData0 : BitVec 8) (l : List Event) :
    Ends (systemStatus board rData0) l fun r e => board.Logs l e ∧
      ∃ version state run irqStatus vfwRun,
      (∀ value, version = some value → value = board.register l 0x001D) ∧
      (∀ value, state = some value → value = board.register l 0x1003) ∧
      (∀ value, run = some value → value = board.register l 0x10F0) ∧
      reads e = [(0x001D, version), (0x1003, state), (0x10F0, run)] ∧
      r = .ok (run.getD (state.getD (version.getD rData0))) ∧
      console e = "=== System Status Check ===\r\n".toList ++
        lineText "Chip Version: 0x" "\r\n" version rData0 ++
        lineText "Imager State: 0x" "\r\n" state (version.getD rData0) ++
        lineText "Imager Run: 0x" " (should be 01)\r\n" run
          (state.getD (version.getD rData0)) ++
        vfwText "VFW IRQ Status: 0x" "\r\n" irqStatus ++
        vfwText "VFW Run: 0x" " (should be 01)\r\n" vfwRun ++
        "===========================\r\n".toList := by
  refine (logged_systemStatus rData0 l).and ?_
  apply Ends.emit_bind
  apply Ends.bind_of_isEmpty (ends_statusLine _ _ _ _)
  rintro _ e₁ ⟨version, hversion, ⟨⟩, hw₁, hr₁, hc₁⟩
  apply Ends.bind_of_isEmpty (ends_statusLine _ _ _ _)
  rintro _ e₂ ⟨state, hstate, ⟨⟩, hw₂, hr₂, hc₂⟩
  apply Ends.bind_of_isEmpty (ends_statusLine _ _ _ _)
  rintro _ e₃ ⟨run, hrun, ⟨⟩, hw₃, hr₃, hc₃⟩
  apply Ends.bind_of_isEmpty (ends_vfwLine _ _ _)
  rintro _ e₄ ⟨irqStatus, hw₄, hr₄, hc₄⟩
  apply Ends.bind_of_isEmpty (ends_vfwLine _ _ _)
  rintro _ e₅ ⟨vfwRun, hw₅, hr₅, hc₅⟩
  apply Ends.emit_bind
  have hput (text : List Char) : writes [.put text] = [] := rfl
  simp only [Board.register_of_writes (hput _), Board.register_of_writes hw₁,
    Board.register_of_writes hw₂] at hversion hstate hrun
  refine Ends.pure ⟨version, state, run, irqStatus, vfwRun, hversion, hstate, hrun, ?_, rfl, ?_⟩
  · simp only [reads_append, hr₁, hr₂, hr₃, hr₄, hr₅]
    rfl
  · simp only [console_append, console_put, hc₁, hc₂, hc₃, hc₄, hc₅, List.append_assoc,
      List.append_nil]

/-- A sensor whose chip version is 0x30 and whose imager is in state 0x10, and which
acknowledges only the first read. -/
def firstRead : Board where
  acknowledges l := (reads l).isEmpty
  initial addr := if addr = 0x001D then 0x30 else 0x10
  component _ _ _ := 0

/-- The chip version is printed as the state of the imager. -/
theorem system_status_stale :
    ¬∀ (board : Board) (rData0 value : BitVec 8),
      "Imager State: 0x".toList ++ byte2ascii value ++ "\r\n".toList <:+:
        console (systemStatus board rData0 []).2 → value = board.register [] 0x1003 := by
  intro h
  have hevents : ∃ e e', (systemStatus firstRead 0 []).2 = e ++
      [.put "Imager State: 0x".toList, .put (byte2ascii 0x30), .put "\r\n".toList] ++ e' :=
    ⟨_ :: _ :: _ :: _ :: _ :: _ :: _ :: [], _, rfl⟩
  obtain ⟨e, e', he⟩ := hevents
  have hinfix : "Imager State: 0x".toList ++ byte2ascii 0x30 ++ "\r\n".toList <:+:
      console (systemStatus firstRead 0 []).2 := by
    refine ⟨console e, console e', ?_⟩
    rw [he, console_append, console_append]
    rfl
  exact absurd (h firstRead 0 0x30 hinfix) (by decide)

end AlteraWorkshops.Sensor
