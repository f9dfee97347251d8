import AlteraWorkshops.Sensor.Initialization
import AlteraWorkshops.Camera.Upload
import AlteraWorkshops.Text.Numeral

/-! The exposure commands: the keys `I` and `D` of the OneWare firmware and the push button of
the MIPI firmware. The index goes up to 12, one past the end of the table. It follows the
commands whatever the sensor acknowledges, and each of the two exposure registers follows the
writes that it acknowledged. -/

namespace AlteraWorkshops.Sensor

open Effects Script Text
open Camera (expTime highByte lowByte)

/-! ### The commands -/

/-- `exp_time` -/
def expTimes : List (BitVec 16) :=
  [0x016C, 0x02D8, 0x0445, 0x05B1, 0x071D, 0x0889, 0x09F5, 0x0B61, 0x0CCE, 0x0E3A, 0x0FA6, 0x10C9]

theorem expTime_eq (past : BitVec 16) (index : BitVec 8) :
    expTime past index = expTimes.getD index.toNat past := rfl

/-- `I` or `i`, `D` or `d`. -/
inductive Command
  | increase | decrease
  deriving DecidableEq

variable (board : Board) (past : BitVec 16)

def increaseExposure (expTimeIndex : BitVec 8) : Firm (BitVec 8) :=
  if expTimeIndex ≠ 12 then do
    let expTimeIndex := expTimeIndex + 1
    setExposure board (expTime past expTimeIndex) (expTime past expTimeIndex)
    return expTimeIndex
  else return expTimeIndex

def decreaseExposure (expTimeIndex : BitVec 8) : Firm (BitVec 8) :=
  if expTimeIndex ≠ 0 then do
    let expTimeIndex := expTimeIndex - 1
    setExposure board (expTime past expTimeIndex) (expTime past expTimeIndex)
    return expTimeIndex
  else return expTimeIndex

def printIndex (expTimeIndex : BitVec 8) : Firm Unit := do
  putstr "Exposure Index is : "
  emit (.put (byte2bcd expTimeIndex))
  putstr "\r\n"

def Command.change : Command → BitVec 8 → Firm (BitVec 8)
  | .increase, expTimeIndex => increaseExposure board past expTimeIndex
  | .decrease, expTimeIndex => decreaseExposure board past expTimeIndex

/-- One round of the command loop, without the echo of the key and the prompt. -/
def Command.run (c : Command) (expTimeIndex : BitVec 8) : Firm (BitVec 8) := do
  let expTimeIndex ← c.change board past expTimeIndex
  printIndex expTimeIndex
  return expTimeIndex

def runCommands : List Command → BitVec 8 → Firm (BitVec 8)
  | [], expTimeIndex => pure expTimeIndex
  | c :: cs, expTimeIndex => do
    let expTimeIndex ← c.run board past expTimeIndex
    runCommands cs expTimeIndex

/-! ### What the commands ask for -/

/-- The index that a command leads to. -/
def Command.move : Command → BitVec 8 → BitVec 8
  | .increase, index => if index ≠ 12 then index + 1 else index
  | .decrease, index => if index ≠ 0 then index - 1 else index

/-- A command that changed the index, and which of its writes were acknowledged. -/
structure Move where
  index : BitVec 8
  low : Bool
  high : Bool

def Move.writes (m : Move) : List Write :=
  [⟨0x100C, lowByte (expTime past m.index), m.low⟩,
    ⟨0x100D, highByte (expTime past m.index), m.high⟩]

/-- The index after a command that changes it. -/
def Command.moved (c : Command) (index : BitVec 8) : List (BitVec 8) :=
  if c.move index = index then [] else [c.move index]

/-- The indices after those commands that change it. -/
def movedIndices : List Command → BitVec 8 → List (BitVec 8)
  | [], _ => []
  | c :: cs, index => c.moved index ++ movedIndices cs (c.move index)

/-- The index after each command. -/
def indices : List Command → BitVec 8 → List (BitVec 8)
  | [], _ => []
  | c :: cs, index => c.move index :: indices cs (c.move index)

def Event.message : Event → Option (List Char)
  | .put text => if text = errorWriting then none else some text
  | _ => none

/-- The text on the console besides the error lines. -/
def messages (e : List Event) : List (List Char) := e.filterMap Event.message

def indexMessage (index : BitVec 8) : List (List Char) :=
  ["Exposure Index is : ".toList, byte2bcd index, "\r\n".toList]

/-! ### A run of commands -/

variable {board past} {l : List Event} {index : BitVec 8}

@[simp] theorem messages_append (e e' : List Event) :
    messages (e ++ e') = messages e ++ messages e' := List.filterMap_append

/-- A write shows on the console only where it fails. -/
theorem ends_poke_writes (addr : BitVec 16) (val : BitVec 8) :
    Ends (poke board addr val) l fun _ e => ∃ success,
      writes e = [⟨addr, val, success⟩] ∧ messages e = [] := by
  apply (ends_poke addr val).mono
  rintro _ _ ⟨-, rfl⟩
  cases board.acknowledges l with
  | true => exact ⟨true, rfl, rfl⟩
  | false => exact ⟨false, rfl, rfl⟩

theorem ends_setExposure (low high : BitVec 16) :
    Ends (setExposure board low high) l fun _ e => ∃ s s',
      writes e = [⟨0x100C, lowByte low, s⟩, ⟨0x100D, highByte high, s'⟩] ∧ messages e = [] := by
  apply Ends.bind_of_isEmpty (ends_poke_writes _ _)
  rintro _ e ⟨s, hw, hm⟩
  apply Ends.bind_of_isEmpty (ends_poke_writes _ _)
  rintro _ e' ⟨s', hw', hm'⟩
  refine Ends.pure ⟨s, s', ?_, ?_⟩
  · rw [writes_append, writes_append, hw, hw']
    rfl
  · rw [messages_append, messages_append, hm, hm']
    rfl

/-- What changing the index does: one move at most, and nothing on the console. -/
def Command.Changes (past : BitVec 16) (c : Command) (index : BitVec 8)
    (r : Except Empty (BitVec 8)) (e : List Event) : Prop :=
  r = .ok (c.move index) ∧ ∃ ms : List Move, ms.map Move.index = c.moved index ∧
    writes e = ms.flatMap (Move.writes past) ∧ messages e = []

/-- Where a command leads to another index, both bytes of its exposure time are written. -/
theorem ends_setExposure_move {c : Command} {i : BitVec 8} (hmove : c.move index = i)
    (hne : i ≠ index) :
    Ends (setExposure board (expTime past i) (expTime past i) >>= fun _ => pure i) l
      (c.Changes past index) := by
  apply Ends.bind_of_isEmpty (ends_setExposure _ _)
  rintro _ e ⟨s, s', hw, hm⟩
  refine Ends.pure ⟨by rw [hmove], [⟨i, s, s'⟩], ?_, ?_, ?_⟩
  · rw [Command.moved, hmove, if_neg hne]
    rfl
  · rw [List.append_nil, hw]
    rfl
  · rw [List.append_nil, hm]

theorem ends_stay {c : Command} (hmove : c.move index = index) :
    Ends (pure index : Firm (BitVec 8)) l (c.Changes past index) :=
  Ends.pure ⟨by rw [hmove], [], by rw [Command.moved, if_pos hmove]; rfl, rfl, rfl⟩

theorem ends_change (c : Command) (index : BitVec 8) :
    Ends (c.change board past index) l (c.Changes past index) := by
  cases c with
  | increase =>
    change Ends (increaseExposure board past index) l _
    unfold increaseExposure
    split_ifs with h
    · exact ends_setExposure_move (if_pos h) (by bv_omega)
    · exact ends_stay (if_neg h)
  | decrease =>
    change Ends (decreaseExposure board past index) l _
    unfold decreaseExposure
    split_ifs with h
    · exact ends_setExposure_move (if_pos h) (by bv_omega)
    · exact ends_stay (if_neg h)

theorem messages_put {text : List Char} (h : text ≠ errorWriting) :
    messages [.put text] = [text] := by
  have hmessage : Event.message (.put text) = some text := if_neg h
  rw [messages, List.filterMap_cons_some hmessage]
  rfl

theorem byte2bcd_ne_errorWriting (value : BitVec 8) : byte2bcd value ≠ errorWriting := by
  have hlen : (byte2bcd value).length ≤ 3 := by
    simp only [byte2bcd]
    split_ifs <;> simp
  intro h
  rw [h] at hlen
  exact absurd hlen (by decide)

theorem ends_printIndex (index : BitVec 8) :
    Ends (printIndex index) l fun _ e => writes e = [] ∧ messages e = indexMessage index := by
  apply Ends.emit_bind
  apply Ends.emit_bind
  apply Ends.emit
  have hlabel : messages [.put "Exposure Index is : ".toList] = ["Exposure Index is : ".toList] :=
    messages_put (by decide)
  have hend : messages [.put "\r\n".toList] = ["\r\n".toList] := messages_put (by decide)
  refine ⟨rfl, ?_⟩
  rw [messages_append, messages_append, hlabel, messages_put (byte2bcd_ne_errorWriting index), hend]
  rfl

theorem ends_run (c : Command) (index : BitVec 8) :
    Ends (c.run board past index) l fun r e => r = .ok (c.move index) ∧ ∃ ms : List Move,
      ms.map Move.index = c.moved index ∧ writes e = ms.flatMap (Move.writes past) ∧
        messages e = indexMessage (c.move index) := by
  apply Ends.bind_of_isEmpty (ends_change c index)
  rintro _ e ⟨⟨⟩, ms, hindex, hw, hm⟩
  apply Ends.bind_of_isEmpty (ends_printIndex _)
  rintro _ e' ⟨hw', hm'⟩
  refine Ends.pure ⟨rfl, ms, hindex, ?_, ?_⟩
  · rw [writes_append, writes_append, hw, hw']
    simp
  · rw [messages_append, messages_append, hm, hm']
    rfl

theorem ends_runCommands (cs : List Command) (index : BitVec 8) :
    Ends (runCommands board past cs index) l fun r e =>
      r = .ok (cs.foldl (fun i c => c.move i) index) ∧ ∃ ms : List Move,
        ms.map Move.index = movedIndices cs index ∧ writes e = ms.flatMap (Move.writes past) ∧
          messages e = (indices cs index).flatMap indexMessage := by
  induction cs generalizing index l with
  | nil => exact Ends.pure ⟨rfl, [], rfl, rfl, rfl⟩
  | cons c cs ih =>
    apply Ends.bind_of_isEmpty (ends_run c index)
    rintro _ e ⟨⟨⟩, ms, hindex, hw, hm⟩
    apply (ih (c.move index)).mono
    rintro r e' ⟨hr, ms', hindex', hw', hm'⟩
    refine ⟨hr, ms ++ ms', ?_, ?_, ?_⟩
    · rw [List.map_append, hindex, hindex']
      rfl
    · rw [writes_append, hw, hw', List.flatMap_append]
    · rw [messages_append, hm, hm']
      rfl

theorem logged_setExposure (low high : BitVec 16) : Logged board (setExposure board low high) :=
  (Logged.poke _ _).bind fun _ => (Logged.poke _ _).bind fun _ => Logged.pure _

theorem logged_change (c : Command) (index : BitVec 8) :
    Logged board (c.change board past index) := by
  cases c with
  | increase =>
    change Logged board (increaseExposure board past index)
    unfold increaseExposure
    split_ifs
    · exact (logged_setExposure _ _).bind fun _ => Logged.pure _
    · exact Logged.pure _
  | decrease =>
    change Logged board (decreaseExposure board past index)
    unfold decreaseExposure
    split_ifs
    · exact (logged_setExposure _ _).bind fun _ => Logged.pure _
    · exact Logged.pure _

theorem logged_runCommands (cs : List Command) (index : BitVec 8) :
    Logged board (runCommands board past cs index) := by
  induction cs generalizing index with
  | nil => exact Logged.pure _
  | cons c cs ih =>
    have hprint (i : BitVec 8) : Logged board (printIndex i) :=
      (Logged.put _).bind fun _ => (Logged.put _).bind fun _ => Logged.put _
    exact ((logged_change c index).bind fun i => (hprint i).bind fun _ => Logged.pure i).bind ih

/-! ### The table -/

/-- Inside the table the test for 12 does not keep the index from going up, and the last entry
is the one that it leaves the table from. -/
theorem add_one_lt {i : BitVec 8} (hi : i.toNat < expTimes.length) :
    i ≠ 12 ∧ ((i + 1).toNat < expTimes.length ↔ i ≠ 11) := by
  have hlen : expTimes.length = 12 := rfl
  rw [hlen] at hi ⊢
  constructor <;> bv_omega

/-- A command leads from a place inside the table to one outside only where it increases the
last index. -/
theorem Command.move_lt (c : Command) {i : BitVec 8} (hi : i.toNat < expTimes.length) :
    (c.move i).toNat < expTimes.length ↔ ¬(c = .increase ∧ i = 11) := by
  obtain ⟨hne, hlt⟩ := add_one_lt hi
  cases c with
  | increase =>
    have hmove : Command.increase.move i = i + 1 := if_pos hne
    rw [hmove, hlt]
    simp only [true_and, ne_eq]
  | decrease =>
    have hle : (Command.decrease.move i).toNat ≤ i.toNat := by
      change (if i ≠ 0 then i - 1 else i).toNat ≤ i.toNat
      split_ifs <;> bv_omega
    exact iff_of_true (hle.trans_lt hi) nofun

theorem nextIndex_lt {i : BitVec 8} (hi : i.toNat < expTimes.length) (pressed : Bool) :
    (if pressed then Camera.nextIndex i else i).toNat < expTimes.length ↔
      ¬(pressed = true ∧ i = 11) := by
  obtain ⟨hne, hlt⟩ := add_one_lt hi
  cases pressed with
  | true =>
    rw [if_pos rfl, Camera.nextIndex, if_pos hne, hlt]
    simp only [true_and, ne_eq]
  | false => exact iff_of_true hi nofun

/-- A run stays where it is good exactly when it never goes `up` from the `last` good place, if
that is the only way out. -/
theorem foldl_stays_iff {σ α : Type} (step : σ → α → σ) (good : σ → Prop) {last : σ} {up : α}
    (hstep : ∀ s a, good s → (good (step s a) ↔ ¬(a = up ∧ s = last))) {s : σ} (hs : good s)
    (l : List α) :
    (∀ p, p <+: l → good (p.foldl step s)) ↔ ∀ p, p ++ [up] <+: l → p.foldl step s ≠ last := by
  constructor
  · intro h p hp hlast
    have hgood := h (p ++ [up]) hp
    rw [List.foldl_append] at hgood
    exact (hstep _ up (h p ((List.prefix_append p [up]).trans hp))).mp hgood ⟨rfl, hlast⟩
  · intro h p
    induction p using List.reverseRecOn with
    | nil => exact fun _ => hs
    | append_singleton p a ih =>
      intro hp
      rw [List.foldl_append]
      apply (hstep _ a (ih ((List.prefix_append p [a]).trans hp))).mpr
      rintro ⟨rfl, hlast⟩
      exact h p hp hlast

/-- The index after some commands of the OneWare firmware. -/
theorem runCommands_result (cs : List Command) :
    (runCommands board past cs 6 []).1 = .ok (cs.foldl (fun i c => c.move i) 6) :=
  (ends_runCommands cs 6).holds.1

/-- In both firmwares the index stays inside the table exactly as long as it is not increased
at its last entry. -/
theorem exp_time_index_in_table_iff (past : BitVec 16) :
    (∀ (board : Board) (cs : List Command),
      (∀ p, p <+: cs → ∃ i, (runCommands board past p 6 []).1 = .ok i ∧
        i.toNat < expTimes.length) ↔
      ∀ p, p ++ [.increase] <+: cs → (runCommands board past p 6 []).1 ≠ .ok 11) ∧
    ∀ (w0 w1 w2 : BitVec 8) (presses : List Bool),
      (∀ p, p <+: presses →
        ((Camera.Machine.start w0 w1 w2).interrupts past p).expTimeIndex.toNat < expTimes.length) ↔
      ∀ p, p ++ [true] <+: presses →
        ((Camera.Machine.start w0 w1 w2).interrupts past p).expTimeIndex ≠ 11 := by
  have hstart : (6 : BitVec 8).toNat < expTimes.length := by decide
  constructor
  · intro board cs
    simp only [runCommands_result, Except.ok.injEq, exists_eq_left', ne_eq]
    exact foldl_stays_iff (fun i (c : Command) => c.move i) (·.toNat < expTimes.length)
      (fun i c hi => c.move_lt hi) hstart cs
  · intro w0 w1 w2 presses
    simp only [Camera.Machine.interrupts_expTimeIndex]
    exact foldl_stays_iff (fun i pressed => if pressed then Camera.nextIndex i else i)
      (·.toNat < expTimes.length) (fun i b hi => nextIndex_lt hi b) hstart presses

/-- Six increases, or six presses, from the middle of the table. -/
theorem exp_time_index_past_table :
    (runCommands silent 0 (List.replicate 6 .increase) 6 []).1 = .ok 12 ∧
      ((Camera.Machine.start 0 0 0).interrupts 0 (List.replicate 6 true)).expTimeIndex = 12 ∧
      ¬(12 : BitVec 8).toNat < expTimes.length := by
  refine ⟨?_, ?_, by decide⟩
  · rw [runCommands_result]
    rfl
  · rw [Camera.Machine.interrupts_expTimeIndex]
    rfl

/-! ### The exposure registers -/

/-- A register that each move writes to `value`, where `ok` says whether that is acknowledged,
holds the value of the last move for which it was. -/
theorem foldl_held_moves {addr : BitVec 16} {ok : Move → Bool} {value : Move → BitVec 8}
    (hmove : ∀ m v, (Move.writes past m).foldl (Write.held addr) v = if ok m then value m else v)
    (ms : List Move) (v : BitVec 8) :
    (ms.flatMap (Move.writes past)).foldl (Write.held addr) v =
      (ms.filter ok).getLast?.elim v value := by
  induction ms using List.reverseRecOn with
  | nil => rfl
  | append_singleton ms m ih =>
    rw [List.flatMap_append, List.flatMap_singleton, List.foldl_append, ih, hmove,
      List.filter_append]
    cases hok : ok m with
    | true =>
      rw [List.filter_cons_of_pos hok, List.getLast?_append]
      rfl
    | false =>
      rw [List.filter_cons_of_neg (by rw [hok]; exact Bool.false_ne_true), List.filter_nil,
        List.append_nil]
      rfl

theorem held_low (m : Move) (v : BitVec 8) :
    (Move.writes past m).foldl (Write.held 0x100C) v =
      if m.low then lowByte (expTime past m.index) else v := by
  simp [Move.writes, Write.held]

theorem held_high (m : Move) (v : BitVec 8) :
    (Move.writes past m).foldl (Write.held 0x100D) v =
      if m.high then highByte (expTime past m.index) else v := by
  simp [Move.writes, Write.held]

/-- The last index that the commands led to is the one they end with. -/
theorem getLast?_movedIndices (cs : List Command) (index : BitVec 8) :
    ((movedIndices cs index).getLast?).getD index = cs.foldl (fun i c => c.move i) index := by
  induction cs generalizing index with
  | nil => rfl
  | cons c cs ih =>
    rw [List.foldl_cons, ← ih, movedIndices, List.getLast?_append, Command.moved]
    split_ifs with h
    · rw [h]
      cases (movedIndices cs index).getLast? <;> rfl
    · cases (movedIndices cs (c.move index)).getLast? <;> rfl

theorem move_le (c : Command) {i : BitVec 8} (hi : i.toNat ≤ 12) : (c.move i).toNat ≤ 12 := by
  cases c with
  | increase =>
    change (if i ≠ 12 then i + 1 else i).toNat ≤ 12
    split_ifs <;> bv_omega
  | decrease =>
    change (if i ≠ 0 then i - 1 else i).toNat ≤ 12
    split_ifs <;> bv_omega

theorem byte2bcd_of_le {i : BitVec 8} (hi : i.toNat ≤ 12) : byte2bcd i = decimal i.toNat := by
  obtain ⟨k, hk, rfl⟩ : ∃ k ≤ 12, i = BitVec.ofNat 8 k := ⟨i.toNat, hi, by simp⟩
  interval_cases k <;> simp [decimal, digitBuffer] <;> decide

/-- Every printed index is a numeral of one or two digits. -/
theorem indices_messages (cs : List Command) {index : BitVec 8} (h : index.toNat ≤ 12) :
    (indices cs index).flatMap indexMessage = (indices cs index).flatMap fun i =>
      ["Exposure Index is : ".toList, decimal i.toNat, "\r\n".toList] := by
  induction cs generalizing index with
  | nil => rfl
  | cons c cs ih =>
    have hle := move_le c h
    rw [indices, List.flatMap_cons, List.flatMap_cons, ih hle, indexMessage, byte2bcd_of_le hle]

/-- Whatever the board answers to the writes, each after the events before it, the index
follows the commands and each command prints it; a command that changes it writes both bytes
of the new exposure time, and each register holds the byte of the last of these writes that
was acknowledged. Where both were for the last change, the registers hold the exposure time
of the index. -/
theorem exposure_commands (board : Board) (past : BitVec 16) (cs : List Command) :
    Ends (runCommands board past cs 6) [] fun r e => board.Logs [] e ∧ ∃ ms : List Move,
      r = .ok (cs.foldl (fun i c => c.move i) 6) ∧
      ms.map Move.index = movedIndices cs 6 ∧
      writes e = ms.flatMap (Move.writes past) ∧
      messages e = ((indices cs 6).flatMap fun i =>
        ["Exposure Index is : ".toList, decimal i.toNat, "\r\n".toList]) ∧
      board.register e 0x100C = ((ms.filter Move.low).getLast?.elim (board.initial 0x100C)
        fun m => lowByte (expTime past m.index)) ∧
      board.register e 0x100D = ((ms.filter Move.high).getLast?.elim (board.initial 0x100D)
        fun m => highByte (expTime past m.index)) ∧
      ∀ m, ms.getLast? = some m → m.low = true → m.high = true → r = .ok m.index ∧
        board.register e 0x100C = lowByte (expTime past m.index) ∧
        board.register e 0x100D = highByte (expTime past m.index) := by
  apply ((logged_runCommands cs 6 []).and (ends_runCommands cs 6)).mono
  rintro r e ⟨hlogs, hr, ms, hindex, hw, hm⟩
  have hlow : board.register e 0x100C = ((ms.filter Move.low).getLast?.elim
      (board.initial 0x100C) fun m => lowByte (expTime past m.index)) := by
    rw [Board.register, foldl_held, hw]
    exact foldl_held_moves held_low ms _
  have hhigh : board.register e 0x100D = ((ms.filter Move.high).getLast?.elim
      (board.initial 0x100D) fun m => highByte (expTime past m.index)) := by
    rw [Board.register, foldl_held, hw]
    exact foldl_held_moves held_high ms _
  rw [indices_messages cs (by decide)] at hm
  refine ⟨hlogs, ms, hr, hindex, hw, hm, hlow, hhigh, fun m hlast hl hh => ?_⟩
  obtain ⟨init, rfl⟩ := List.getLast?_eq_some_iff.mp hlast
  refine ⟨?_, ?_, ?_⟩
  · rw [hr, ← getLast?_movedIndices, ← hindex]
    simp
  · rw [hlow]
    simp [hl]
  · rw [hhigh]
    simp [hh]

/-- A sensor that holds the exposure time of index 6 and acknowledges only its first write. -/
def firstOnly : Board where
  acknowledges l := l.isEmpty
  initial addr := if addr = 0x100C then 0xF5 else 0x09
  component _ _ _ := 0

/-- After a half write the registers hold 0x0961: neither the exposure time of index 7, which
the command went to and printed, nor the one before. -/
theorem exposure_command_half_written :
    ¬∀ (board : Board) (past : BitVec 16) (cs : List Command) (c : Command),
      (∀ p, p <+: cs ++ [c] →
        (p.foldl (fun i c => Command.move c i) 6).toNat < expTimes.length) →
      ∀ i, (runCommands board past (cs ++ [c]) 6 []).1 = .ok i →
      (board.register (runCommands board past (cs ++ [c]) 6 []).2 0x100C =
          lowByte (expTime past i) ∧
        board.register (runCommands board past (cs ++ [c]) 6 []).2 0x100D =
          highByte (expTime past i)) ∨
      ((runCommands board past cs 6 []).1 = .ok i ∧
        ∀ addr ∈ [(0x100C : BitVec 16), 0x100D],
          board.register (runCommands board past (cs ++ [c]) 6 []).2 addr =
            board.register (runCommands board past cs 6 []).2 addr) := by
  intro h
  have hinside (p : List Command) (hp : p <+: [] ++ [.increase]) :
      (p.foldl (fun i c => Command.move c i) 6).toNat < expTimes.length := by
    obtain ⟨t, ht⟩ := hp
    cases p with
    | nil => decide
    | cons c p =>
      obtain ⟨rfl, hp⟩ := List.cons.inj ht
      rw [(List.append_eq_nil_iff.mp hp).1]
      decide
  have hhigh : firstOnly.register (runCommands firstOnly 0 [.increase] 6 []).2 0x100D = 0x09 := by
    rfl
  rcases h firstOnly 0 [] .increase hinside 7 rfl with ⟨-, hhigh'⟩ | ⟨hindex, -⟩
  · rw [List.nil_append, hhigh] at hhigh'
    exact absurd hhigh' (by decide)
  · cases hindex

end AlteraWorkshops.Sensor
