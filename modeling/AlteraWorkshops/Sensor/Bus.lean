import AlteraWorkshops.Camera.Firmware
import AlteraWorkshops.Effects.Script

/-! What both firmwares do over I2C and on the console, seen from outside. Each transfer is
acknowledged or not, depending on anything that happened before; a write that is not
acknowledged leaves the sensor as it was, and a read that is not leaves the buffer. -/

namespace AlteraWorkshops.Sensor

open Effects Script

/-! ### Events -/

/-- The components that are written and read directly. -/
inductive Component
  | wbc | demosaic | scaler | vfw | pioMipi
  deriving DecidableEq

inductive Event
  | iowr (component : Component) (offset : ℕ) (value : BitVec 32)
  | iord (component : Component) (offset : ℕ) (value : BitVec 32)
  /-- `alt_avalon_i2c_master_tx` of a register address and a value. -/
  | tx (addr : BitVec 16) (val : BitVec 8) (success : Bool)
  /-- `alt_avalon_i2c_master_tx_rx` of one byte, which is there when it is acknowledged. -/
  | txRx (addr : BitVec 16) (data : Option (BitVec 8))
  /-- `alt_putstr` and `alt_putchar` -/
  | put (text : List Char)
  deriving DecidableEq

/-- The board: which transfer is acknowledged, what the registers of the sensor hold in the
beginning, and what the components answer. -/
structure Board where
  acknowledges : List Event → Bool
  initial : BitVec 16 → BitVec 8
  component : List Event → Component → ℕ → BitVec 32

/-- Nothing stops the firmware. -/
abbrev Firm := Script Event Empty

/-- What a register holds when it held `val`. -/
def Event.held (addr : BitVec 16) (val : BitVec 8) : Event → BitVec 8
  | .tx a v success => if a = addr ∧ success then v else val
  | _ => val

variable (board : Board)

/-- What a register of the sensor holds after some events. -/
def Board.register (l : List Event) (addr : BitVec 16) : BitVec 8 :=
  l.foldl (Event.held addr) (board.initial addr)

def putstr (text : String) : Firm Unit := emit (.put text.toList)

def iowr (component : Component) (offset : ℕ) (value : BitVec 32) : Firm Unit :=
  emit (.iowr component offset value)

def iord (component : Component) (offset : ℕ) : Firm (BitVec 32) :=
  ask (fun l => board.component l component offset) (.iord component offset)

/-! ### The driver functions -/

def errorWriting : List Char := "Error Writing to MIRA220\r\n".toList

def errorReading : List Char := "Error Reading from MIRA220\r\n".toList

/-- The address and the value go through `wData`; in the MIPI firmware this is a call that
`PB_isr`, which writes there too, does not interrupt. -/
def poke (addr : BitVec 16) (val : BitVec 8) : Firm (BitVec 8) := do
  let success ← ask board.acknowledges (.tx addr (val &&& 0xFF))
  if success then return 0
  else do
    emit (.put errorWriting)
    return 1

/-- One byte into `rData[0]`: the status, and what `rData[0]` holds afterwards. -/
def peek (addr : BitVec 16) (rData0 : BitVec 8) : Firm (BitVec 8 × BitVec 8) := do
  let data ← ask (fun l => if board.acknowledges l then some (board.register l addr) else none)
    (.txRx addr)
  match data with
  | some value => return (0, value)
  | none => do
    emit (.put errorReading)
    return (1, rData0)

/-! ### Number printers -/

/-- `HEX2ASCII`, whose sum is that of a `char`. -/
def hex2ascii (hexIn : BitVec 8) : Char :=
  if hexIn = 0x0A then 'A'
  else if hexIn = 0x0B then 'B'
  else if hexIn = 0x0C then 'C'
  else if hexIn = 0x0D then 'D'
  else if hexIn = 0x0E then 'E'
  else if hexIn = 0x0F then 'F'
  else Char.ofNat (0x30 + hexIn).toNat

def byte2bcd (value : BitVec 8) : List Char :=
  let bcd2 := value / 100
  let rem2 := value % 100
  let bcd1 := rem2 / 10
  let bcd0 := rem2 % 10
  (if bcd2 ≠ 0 then [hex2ascii bcd2] else []) ++
    (if bcd1 ≠ 0 then [hex2ascii bcd1] else []) ++ [hex2ascii bcd0]

def word2ascii (value : BitVec 16) : List Char :=
  [hex2ascii ((value >>> 12).setWidth 8), hex2ascii ((value >>> 8 &&& 0x0F).setWidth 8),
    hex2ascii ((value >>> 4 &&& 0x0F).setWidth 8), hex2ascii ((value &&& 0x0F).setWidth 8)]

/-! ### Writes of the sensor -/

structure Write where
  addr : BitVec 16
  val : BitVec 8
  success : Bool
  deriving DecidableEq

def Event.write : Event → Option Write
  | .tx addr val success => some ⟨addr, val, success⟩
  | _ => none

/-- The writes among some events, in order. -/
def writes (e : List Event) : List Write := e.filterMap Event.write

def Write.request (w : Write) : BitVec 16 × BitVec 8 := (w.addr, w.val)

@[simp] theorem writes_nil : writes [] = [] := rfl

@[simp] theorem writes_append (e e' : List Event) : writes (e ++ e') = writes e ++ writes e' :=
  List.filterMap_append

variable {board : Board} {l : List Event}

theorem Board.register_append (l e : List Event) (addr : BitVec 16) :
    board.register (l ++ e) addr = e.foldl (Event.held addr) (board.register l addr) :=
  List.foldl_append

def Write.held (addr : BitVec 16) (val : BitVec 8) (w : Write) : BitVec 8 :=
  if w.addr = addr ∧ w.success then w.val else val

/-- Only writes change a register. -/
theorem foldl_held (addr : BitVec 16) (e : List Event) (val : BitVec 8) :
    e.foldl (Event.held addr) val = (writes e).foldl (Write.held addr) val := by
  induction e generalizing val with
  | nil => rfl
  | cons x e ih =>
    rw [List.foldl_cons, ih]
    cases x <;> rfl

theorem Board.register_of_writes {e : List Event} (h : writes e = []) (l : List Event)
    (addr : BitVec 16) : board.register (l ++ e) addr = board.register l addr := by
  rw [Board.register_append, foldl_held, h]
  rfl

/-! ### The answers of the board -/

/-- After the events `l` an event brings what the board answers then. -/
def Board.Answers (board : Board) (l : List Event) : Event → Prop
  | .tx _ _ success => success = board.acknowledges l
  | .txRx addr data =>
    data = if board.acknowledges l then some (board.register l addr) else none
  | .iord component offset value => value = board.component l component offset
  | .iowr _ _ _ => True
  | .put _ => True

/-- Each of the events `e`, which follow `l`, brings what the board answers after those before
it. -/
def Board.Logs (board : Board) (l e : List Event) : Prop :=
  ∀ e₁ x e₂, e = e₁ ++ x :: e₂ → board.Answers (l ++ e₁) x

theorem Board.Logs.nil (l : List Event) : board.Logs l [] := fun _ _ _ h =>
  absurd h.symm (List.append_ne_nil_of_right_ne_nil _ (List.cons_ne_nil _ _))

theorem Board.Logs.cons {x : Event} {e : List Event} (hx : board.Answers l x)
    (h : board.Logs (l ++ [x]) e) : board.Logs l (x :: e) := by
  rintro (_ | ⟨y, e₁⟩) z e₂ heq
  · obtain ⟨rfl, -⟩ := List.cons.inj heq
    rwa [List.append_nil]
  · obtain ⟨rfl, he⟩ := List.cons.inj heq
    have hz := h e₁ z e₂ he
    rwa [List.append_assoc] at hz

theorem Board.Logs.append {e e' : List Event} (h : board.Logs l e)
    (h' : board.Logs (l ++ e) e') : board.Logs l (e ++ e') := by
  intro e₁ x e₂ heq
  rcases List.append_eq_append_iff.mp heq with ⟨t, rfl, ht⟩ | ⟨t, rfl, ht⟩
  · rw [← List.append_assoc]
    exact h' t x e₂ ht
  · cases t with
    | nil =>
      have hx := h' [] x e₂ ht.symm
      rwa [List.append_nil, List.append_nil] at hx
    | cons y t =>
      obtain ⟨rfl, -⟩ := List.cons.inj ht
      exact h e₁ x t rfl

/-- Whatever happened before, the events of a program are what the board answers. -/
def Logged {α : Type} (board : Board) (m : Firm α) : Prop :=
  ∀ l, Ends m l fun _ e => board.Logs l e

namespace Logged

variable {α β : Type}

theorem pure (a : α) : Logged board (Pure.pure a : Firm α) := fun l => Ends.pure (.nil l)

theorem emit {x : Event} (h : ∀ l, board.Answers l x) :
    Logged board (Script.emit x : Firm Unit) := fun l => Ends.emit (.cons (h l) (.nil _))

theorem ask {answer : List Event → α} {event : α → Event}
    (h : ∀ l, board.Answers l (event (answer l))) : Logged board (Script.ask answer event) :=
  fun l => Ends.ask (.cons (h l) (.nil _))

theorem bind {m : Firm α} {f : α → Firm β} (h : Logged board m)
    (hf : ∀ a, Logged board (f a)) : Logged board (m >>= f) := fun l =>
  Ends.bind_of_isEmpty (h l) fun a e he => (hf a (l ++ e)).mono fun _ _ he' => he.append he'

theorem put (text : List Char) : Logged board (Script.emit (.put text) : Firm Unit) :=
  emit fun _ => trivial

theorem iord (component : Component) (offset : ℕ) : Logged board (iord board component offset) :=
  ask fun _ => rfl

theorem poke (addr : BitVec 16) (val : BitVec 8) : Logged board (poke board addr val) := by
  refine bind (ask fun _ => rfl) ?_
  rintro (_ | _)
  · exact (put _).bind fun _ => pure 1
  · exact pure 0

theorem peek (addr : BitVec 16) (rData0 : BitVec 8) : Logged board (peek board addr rData0) := by
  refine bind (ask fun _ => rfl) ?_
  rintro (_ | value)
  · exact (put _).bind fun _ => pure (1, rData0)
  · exact pure (0, value)

end Logged

/-! ### One write -/

theorem and_ff (val : BitVec 8) : val &&& 0xFF = val := BitVec.and_allOnes

/-- Only the last program gives the result. -/
theorem ends_result_of_last {α β : Type} {m : Firm α} {f : α → Firm β} {b : β}
    (h : ∀ a l, Ends (f a) l fun r _ => r = .ok b) : Ends (m >>= f) l fun r _ => r = .ok b :=
  Ends.bind_of_isEmpty (R := fun _ _ => True) ⟨trivial⟩ fun a e _ => h a (l ++ e)

/-- A write, and a message where it is not acknowledged. -/
theorem ends_poke (addr : BitVec 16) (val : BitVec 8) :
    Ends (poke board addr val) l fun r e =>
      r = .ok (if board.acknowledges l then 0 else 1) ∧
        e = .tx addr val (board.acknowledges l) ::
          if board.acknowledges l then [] else [.put errorWriting] := by
  unfold poke
  rw [and_ff]
  apply Ends.ask_bind
  cases board.acknowledges l with
  | true => exact Ends.pure ⟨rfl, rfl⟩
  | false => exact Ends.emit_bind (Ends.pure ⟨rfl, rfl⟩)

end AlteraWorkshops.Sensor
