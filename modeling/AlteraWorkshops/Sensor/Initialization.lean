import AlteraWorkshops.Sensor.Bus
import AlteraWorkshops.Sensor.ModeTable

/-! `init_MIRA220` of both firmwares against a sensor that may not answer. No call of `poke`
looks at the status: every write is made, in order, whatever became of those before, and the
status of the function is 0. What tells of a failed write is the console. -/

namespace AlteraWorkshops.Sensor

open Effects Script
open Camera (Mira220Reg expTime highByte lowByte mira220RegExposure mira220ImagerStateReg
  mira220MasterExposure mira220ImagerRunReg mira220ImagerRunStart mira220MipiSoftResetReg
  mira220MipiSoftResetDphy mira220MipiSoftResetNone full1500mbps1280x720Reg)

variable (board : Board)

/-! ### Shared pieces -/

def iowrAll : List (Component × ℕ × BitVec 32) → Firm Unit
  | [] => pure ()
  | (component, offset, value) :: rest => do
    iowr component offset value
    iowrAll rest

def softReset : Firm Unit := do
  let _ ← poke board mira220MipiSoftResetReg mira220MipiSoftResetDphy
  let _ ← poke board mira220MipiSoftResetReg mira220MipiSoftResetNone

/-- The loop over a mode table. -/
def upload : List Mira220Reg → Firm Unit
  | [] => pure ()
  | reg :: rest => do
    let _ ← poke board reg.address reg.val
    upload rest

/-- The low byte of one exposure time and the high byte of another. -/
def setExposure (low high : BitVec 16) : Firm Unit := do
  let _ ← poke board mira220RegExposure (lowByte low)
  let _ ← poke board (mira220RegExposure + 1) (highByte high)

def startImager : Firm Unit := do
  let _ ← poke board mira220ImagerStateReg mira220MasterExposure
  let _ ← poke board mira220ImagerRunReg mira220ImagerRunStart

/-! ### The OneWare firmware -/

namespace OneWare

/-- The video components, 512x512 scaled to 128x128 in two buffers. -/
def video : List (Component × ℕ × BitVec 32) :=
  [(.demosaic, 0x120, 512), (.demosaic, 0x124, 512), (.demosaic, 0x14C, 0x04),
    (.wbc, 0x14C, 0x03 <<< 1), (.wbc, 0x120, 512), (.wbc, 0x124, 512),
    (.wbc, 0x150, 2048 + 1536), (.wbc, 0x154, 2048 + 4096), (.wbc, 0x158, 2048 + 4096),
    (.wbc, 0x15C, 2048 + 3072), (.wbc, 0x148, 0x01),
    (.scaler, 0x120, 512), (.scaler, 0x124, 512), (.scaler, 0x148, 128), (.scaler, 0x14C, 128),
    (.vfw, 0x120, 128 * 3), (.vfw, 0x124, 128), (.vfw, 0x170, 0x02), (.vfw, 0x174, 0x80000),
    (.vfw, 0x178, 50000), (.vfw, 0x17C, 128 * 3), (.vfw, 0x16C, 0x01), (.vfw, 0x164, 0x01),
    (.pioMipi, 0, 0x01)]

/-- `init_MIRA220`, with the exposure index `index`; sleeps and the set-up of the interrupt are
left out. -/
def initMira220 (past : BitVec 16) (index : BitVec 8) : Firm (BitVec 8) := do
  iowrAll video
  softReset board
  putstr "\r\nInitializing MIRA220 for 1600x900 Mode Registers "
  upload board full512x512Reg
  setExposure board (expTime past index) (expTime past index)
  putstr "\r\n"
  startImager board
  return 0

end OneWare

/-! ### The MIPI firmware -/

namespace Mipi

/-- The video components, 1280x720 scaled to 320x200 in one buffer at `frameBuf`. -/
def video (frameBuf : BitVec 32) : List (Component × ℕ × BitVec 32) :=
  [(.wbc, 0x14C, 0x03 <<< 1), (.wbc, 0x120, 1280), (.wbc, 0x124, 720),
    (.wbc, 0x150, 2048 * 111 / 100), (.wbc, 0x154, 2048 * 110 / 100),
    (.wbc, 0x158, 2048 * 110 / 100), (.wbc, 0x15C, 2048 * 108 / 100), (.wbc, 0x148, 0x01),
    (.demosaic, 0x120, 1280), (.demosaic, 0x124, 720), (.demosaic, 0x14C, 0x02),
    (.scaler, 0x120, 1280), (.scaler, 0x124, 720), (.scaler, 0x148, 320), (.scaler, 0x14C, 200),
    (.vfw, 0x120, 320 * 3), (.vfw, 0x124, 200), (.vfw, 0x170, 0x01), (.vfw, 0x174, frameBuf),
    (.vfw, 0x178, 0x30000), (.vfw, 0x17C, 320 * 3), (.vfw, 0x100, 0x01), (.vfw, 0x16C, 0x01),
    (.vfw, 0x164, 0x01), (.vfw, 0x168, 0x00), (.pioMipi, 0, 0x01)]

/-- `init_MIRA220`. The push button may change the exposure index between the two reads of
it; sleeps and the set-up of the interrupt are left out. -/
def initMira220 (past : BitVec 16) (frameBuf : BitVec 32) (indexLow indexHigh : BitVec 8) :
    Firm (BitVec 8) := do
  iowrAll (video frameBuf)
  softReset board
  putstr "\r\nInitializing MIRA220 for 1280x720 Mode Registers "
  upload board full1500mbps1280x720Reg
  setExposure board (expTime past indexLow) (expTime past indexHigh)
  startImager board
  return 0

end Mipi

/-! ### What is written -/

variable {board} {l : List Event} {α β : Type} {ws ws' : List (BitVec 16 × BitVec 8)}

/-- After `l` some events make the writes `ws`, each answered as the board answers after the
events before it, with one line on the console for each that was not acknowledged. -/
structure Sent (board : Board) (l : List Event) (ws : List (BitVec 16 × BitVec 8))
    (e : List Event) : Prop where
  requests : (writes e).map Write.request = ws
  answers : board.Logs l e
  errors : e.count (.put errorWriting) = (writes e).countP fun w => !w.success

theorem Sent.append {e e' : List Event} (h : Sent board l ws e)
    (h' : Sent board (l ++ e) ws' e') : Sent board l (ws ++ ws') (e ++ e') where
  requests := by rw [writes_append, List.map_append, h.requests, h'.requests]
  answers := h.answers.append h'.answers
  errors := by rw [writes_append, List.count_append, List.countP_append, h.errors, h'.errors]

/-- Whatever happened before, a program makes the writes `ws`. -/
def Sends (board : Board) (ws : List (BitVec 16 × BitVec 8)) (m : Firm α) : Prop :=
  ∀ l, Ends m l fun _ e => Sent board l ws e

namespace Sends

theorem pure (a : α) : Sends board [] (Pure.pure a : Firm α) := fun l =>
  Ends.pure ⟨rfl, .nil l, rfl⟩

theorem emit {x : Event} (hw : x.write = none) (hlog : ∀ l, board.Answers l x)
    (hx : x ≠ .put errorWriting) : Sends board [] (Script.emit x : Firm Unit) := fun l => by
  have hwrites : writes [x] = [] := List.filterMap_eq_nil_iff.mpr (by simpa using hw)
  refine Ends.emit ⟨by rw [hwrites]; rfl, .cons (hlog l) (.nil _), ?_⟩
  rw [hwrites, List.count_singleton, beq_false_of_ne hx]
  rfl

theorem bind {m : Firm α} {f : α → Firm β} (h : Sends board ws m)
    (hf : ∀ a, Sends board ws' (f a)) : Sends board (ws ++ ws') (m >>= f) := fun l =>
  Ends.bind_of_isEmpty (h l) fun a e he => (hf a (l ++ e)).mono fun _ _ he' => he.append he'

theorem poke (addr : BitVec 16) (val : BitVec 8) :
    Sends board [(addr, val)] (poke board addr val) := fun l => by
  apply ((ends_poke addr val).and (Logged.poke addr val l)).mono
  rintro _ _ ⟨⟨-, rfl⟩, hlog⟩
  cases h : board.acknowledges l with
  | true =>
    rw [h] at hlog
    exact ⟨rfl, hlog, rfl⟩
  | false =>
    rw [h] at hlog
    have hne : Event.tx addr val false ≠ .put errorWriting := nofun
    exact ⟨rfl, hlog, (List.count_cons_of_ne hne).trans List.count_singleton_self⟩

theorem iowrAll (rows : List (Component × ℕ × BitVec 32)) : Sends board [] (iowrAll rows) := by
  induction rows with
  | nil => exact pure ()
  | cons row rows ih =>
    have hne : Event.iowr row.1 row.2.1 row.2.2 ≠ .put errorWriting := nofun
    have hlog (l : List Event) : board.Answers l (.iowr row.1 row.2.1 row.2.2) := trivial
    exact (emit rfl hlog hne).bind fun _ => ih

theorem putstr {text : String} (h : text.toList ≠ errorWriting) :
    Sends board [] (putstr text) :=
  emit rfl (fun _ => trivial) fun heq => h (Event.put.inj heq)

theorem softReset : Sends board [(0x5004, 0x01), (0x5004, 0x00)] (softReset board) :=
  (poke _ _).bind fun _ => (poke _ _).bind fun _ => pure ()

theorem upload (table : List Mira220Reg) :
    Sends board (table.map fun reg => (reg.address, reg.val)) (upload board table) := by
  induction table with
  | nil => exact pure ()
  | cons reg table ih => exact (poke reg.address reg.val).bind fun _ => ih

theorem setExposure (low high : BitVec 16) :
    Sends board [(0x100C, lowByte low), (0x100D, highByte high)] (setExposure board low high) :=
  (poke _ _).bind fun _ => (poke _ _).bind fun _ => pure ()

theorem startImager : Sends board [(0x1003, 0x10), (0x10F0, 0x01)] (startImager board) :=
  (poke _ _).bind fun _ => (poke _ _).bind fun _ => pure ()

end Sends

/-- All the writes of an initialization: the soft reset, the mode table, the exposure, the
state of the imager and its start. -/
def initWrites (table : List Mira220Reg) (low high : BitVec 16) :
    List (BitVec 16 × BitVec 8) :=
  [(0x5004, 0x01), (0x5004, 0x00)] ++ table.map (fun reg => (reg.address, reg.val)) ++
    [(0x100C, lowByte low), (0x100D, highByte high), (0x1003, 0x10), (0x10F0, 0x01)]

theorem initWrites_eq (table : List Mira220Reg) (low high : BitVec 16) :
    [(0x5004, 0x01), (0x5004, 0x00)] ++ (table.map (fun reg => (reg.address, reg.val)) ++
      ([(0x100C, lowByte low), (0x100D, highByte high)] ++ [(0x1003, 0x10), (0x10F0, 0x01)])) =
      initWrites table low high := (List.append_assoc _ _ _).symm

theorem OneWare.sends_initMira220 (past : BitVec 16) (index : BitVec 8) :
    Sends board (initWrites full512x512Reg (expTime past index) (expTime past index))
      (OneWare.initMira220 board past index) := by
  rw [← initWrites_eq]
  refine (Sends.iowrAll _).bind fun _ => ?_
  refine Sends.softReset.bind fun _ => ?_
  refine (Sends.putstr (by decide)).bind fun _ => ?_
  refine (Sends.upload _).bind fun _ => ?_
  refine (Sends.setExposure _ _).bind fun _ => ?_
  refine (Sends.putstr (by decide)).bind fun _ => ?_
  exact Sends.startImager.bind fun _ => Sends.pure _

theorem Mipi.sends_initMira220 (past : BitVec 16) (frameBuf : BitVec 32)
    (indexLow indexHigh : BitVec 8) :
    Sends board
      (initWrites full1500mbps1280x720Reg (expTime past indexLow) (expTime past indexHigh))
      (Mipi.initMira220 board past frameBuf indexLow indexHigh) := by
  rw [← initWrites_eq]
  refine (Sends.iowrAll _).bind fun _ => ?_
  refine Sends.softReset.bind fun _ => ?_
  refine (Sends.putstr (by decide)).bind fun _ => ?_
  refine (Sends.upload _).bind fun _ => ?_
  refine (Sends.setExposure _ _).bind fun _ => ?_
  exact Sends.startImager.bind fun _ => Sends.pure _

/-- The call of `poke` in a piece of `init_MIRA220`, seen statement by statement. -/
def request (exposure : BitVec 16) : Camera.Piece → Option (BitVec 16 × BitVec 8)
  | .other => none
  | .poke addr val => some (addr, val.eval exposure)

/-- The statements of the MIPI firmware call `poke` for the same writes. -/
theorem filterMap_request_initWith (table : List Mira220Reg) (exposure : BitVec 16) :
    (Camera.initWith table).filterMap (request exposure) = initWrites table exposure exposure := by
  have hrows : (table.flatMap fun reg =>
      [.other, .poke reg.address (.const reg.val), .other]).filterMap (request exposure) =
        table.map fun reg => (reg.address, reg.val) := by
    rw [List.filterMap_flatMap, List.map_eq_flatMap]
    rfl
  have hreset : Camera.softReset.filterMap (request exposure) =
      [(0x5004, 0x01), (0x5004, 0x00)] := by rfl
  rw [Camera.initWith, List.filterMap_append, List.filterMap_append, List.filterMap_append, hreset,
    Camera.upload, List.filterMap_append, List.filterMap_cons_none rfl, hrows, ← initWrites_eq]
  simp only [List.append_assoc]
  rfl

/-! ### The status -/

theorem OneWare.initMira220_result (past : BitVec 16) (index : BitVec 8) :
    Ends (OneWare.initMira220 board past index) l fun r _ => r = .ok 0 := by
  refine ends_result_of_last fun _ _ => ends_result_of_last fun _ _ => ?_
  refine ends_result_of_last fun _ _ => ends_result_of_last fun _ _ => ?_
  refine ends_result_of_last fun _ _ => ends_result_of_last fun _ _ => ?_
  exact ends_result_of_last fun _ _ => Ends.pure rfl

theorem Mipi.initMira220_result (past : BitVec 16) (frameBuf : BitVec 32)
    (indexLow indexHigh : BitVec 8) :
    Ends (Mipi.initMira220 board past frameBuf indexLow indexHigh) l fun r _ => r = .ok 0 := by
  refine ends_result_of_last fun _ _ => ends_result_of_last fun _ _ => ?_
  refine ends_result_of_last fun _ _ => ends_result_of_last fun _ _ => ?_
  refine ends_result_of_last fun _ _ => ?_
  exact ends_result_of_last fun _ _ => Ends.pure rfl

/-- Whatever the sensor acknowledges, both firmwares make all writes of the initialization in
order and report success, and the console has one line for each write that failed. -/
theorem init_mira220_status (board : Board) (past : BitVec 16) (l : List Event) :
    (∀ index, Ends (OneWare.initMira220 board past index) l fun r e => r = .ok 0 ∧
      Sent board l (initWrites full512x512Reg (expTime past index) (expTime past index)) e) ∧
    ∀ frameBuf indexLow indexHigh,
      Ends (Mipi.initMira220 board past frameBuf indexLow indexHigh) l fun r e => r = .ok 0 ∧
        Sent board l (initWrites full1500mbps1280x720Reg (expTime past indexLow)
          (expTime past indexHigh)) e :=
  ⟨fun index => (OneWare.initMira220_result past index).and
      (OneWare.sends_initMira220 past index l),
    fun frameBuf i j => (Mipi.initMira220_result past frameBuf i j).and
      (Mipi.sends_initMira220 past frameBuf i j l)⟩

/-- A sensor that never answers. -/
def silent : Board := ⟨fun _ => false, fun _ => 0, fun _ _ _ => 0⟩

theorem Sent.not_success {table : List Mira220Reg} {low high : BitVec 16} {e : List Event}
    (h : Sent silent l (initWrites table low high) e) : ¬∀ w ∈ writes e, w.success = true := by
  intro hall
  have hmem : ((0x5004, 0x01) : BitVec 16 × BitVec 8) ∈ (writes e).map Write.request := by
    rw [h.requests]
    exact List.mem_cons_self
  obtain ⟨w, hw, -⟩ := List.mem_map.mp hmem
  obtain ⟨x, hx, hxw⟩ := List.mem_filterMap.mp hw
  obtain ⟨e₁, e₂, he⟩ := List.append_of_mem hx
  have hanswer := h.answers e₁ x e₂ he
  cases x with
  | tx addr val success =>
    obtain rfl := Option.some.inj hxw
    exact Bool.false_ne_true (hanswer.symm.trans (hall _ hw))
  | _ => cases hxw

/-- No write is acknowledged, and the status is 0. -/
theorem init_mira220_status_untrue :
    (¬∀ (board : Board) (past : BitVec 16) (index : BitVec 8),
      (OneWare.initMira220 board past index []).1 = .ok 0 ↔
        ∀ w ∈ writes (OneWare.initMira220 board past index []).2, w.success = true) ∧
    ¬∀ (board : Board) (past : BitVec 16) (frameBuf : BitVec 32) (indexLow indexHigh : BitVec 8),
      (Mipi.initMira220 board past frameBuf indexLow indexHigh []).1 = .ok 0 ↔
        ∀ w ∈ writes (Mipi.initMira220 board past frameBuf indexLow indexHigh []).2,
          w.success = true := by
  constructor
  · intro h
    exact (OneWare.sends_initMira220 0 6 []).holds.not_success
      ((h silent 0 6).mp (OneWare.initMira220_result 0 6).holds)
  · intro h
    exact (Mipi.sends_initMira220 0 0 6 6 []).holds.not_success
      ((h silent 0 0 6 6).mp (Mipi.initMira220_result 0 0 6 6).holds)

end AlteraWorkshops.Sensor
