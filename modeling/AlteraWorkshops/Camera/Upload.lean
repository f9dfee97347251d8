import AlteraWorkshops.Camera.Firmware

/-! What `init_MIRA220` really transmits under a schedule of button presses. A press
while a `poke` is being filled in leaves the bytes of the interrupt's last `poke` in
those places of `wData` that were already assigned. -/

namespace AlteraWorkshops.Camera

variable {past : BitVec 16} {schedule : ℕ → List Bool} {m : Machine} {l : List Bool}

/-! ### Interrupts -/

/-- The index after a sequence of interrupts. -/
def advance (l : List Bool) (index : BitVec 8) : BitVec 8 :=
  l.foldl (fun i pressed => if pressed then nextIndex i else i) index

/-- Some interrupt in front of statement `k` finds the button pressed. -/
def pressedAt (schedule : ℕ → List Bool) (k : ℕ) : Bool := (schedule k).any id

theorem Machine.interrupts_cons (b : Bool) :
    m.interrupts past (b :: l) = (m.pbIsr past b).interrupts past l := rfl

theorem advance_cons (b : Bool) (i : BitVec 8) :
    advance (b :: l) i = advance l (if b then nextIndex i else i) := rfl

theorem Machine.pbIsr_expTimeIndex (b : Bool) :
    (m.pbIsr past b).expTimeIndex = if b then nextIndex m.expTimeIndex else m.expTimeIndex := by
  cases b <;> rfl

@[simp] theorem Machine.interrupts_expTimeIndex :
    (m.interrupts past l).expTimeIndex = advance l m.expTimeIndex := by
  induction l generalizing m with
  | nil => rfl
  | cons b l ih => rw [Machine.interrupts_cons, ih, Machine.pbIsr_expTimeIndex, advance_cons]

/-- The arguments of an interrupted `poke` are its own. -/
@[simp] theorem Machine.interrupts_addr : (m.interrupts past l).addr = m.addr := by
  induction l generalizing m with
  | nil => rfl
  | cons b l ih =>
    rw [Machine.interrupts_cons, ih]
    cases b <;> rfl

@[simp] theorem Machine.interrupts_val : (m.interrupts past l).val = m.val := by
  induction l generalizing m with
  | nil => rfl
  | cons b l ih =>
    rw [Machine.interrupts_cons, ih]
    cases b <;> rfl

theorem Machine.own_pbIsr (b : Bool) : (m.pbIsr past b).own = m.own := by
  cases b with
  | false => rfl
  | true => simp [Machine.pbIsr, Machine.isrPoke, Machine.own]

@[simp] theorem Machine.interrupts_own : (m.interrupts past l).own = m.own := by
  induction l generalizing m with
  | nil => rfl
  | cons b l ih => rw [Machine.interrupts_cons, ih, Machine.own_pbIsr]

theorem and_ff (x : BitVec 8) : x &&& 0xFF = x := BitVec.and_allOnes

theorem advance_of_not_pressed (h : l.any id = false) (i : BitVec 8) : advance l i = i := by
  induction l with
  | nil => rfl
  | cons b l ih =>
    rw [List.any_cons, Bool.or_eq_false_iff] at h
    obtain ⟨rfl, h⟩ := h
    exact ih h

/-- A press leaves the interrupt's second `poke` in the buffer. -/
theorem Machine.interrupts_wData :
    ((m.interrupts past l).wData0, (m.interrupts past l).wData1, (m.interrupts past l).wData2) =
      if l.any id then
        (highByte (mira220RegExposure + 1), lowByte (mira220RegExposure + 1),
          highByte (expTime past (advance l m.expTimeIndex)))
      else (m.wData0, m.wData1, m.wData2) := by
  induction l generalizing m with
  | nil => rfl
  | cons b l ih =>
    rw [Machine.interrupts_cons, ih, Machine.pbIsr_expTimeIndex, advance_cons, List.any_cons]
    cases b with
    | false => rfl
    | true =>
      by_cases hl : l.any id = true
      · simp only [hl, ↓reduceIte, id_eq, Bool.true_or]
      · have hadv := advance_of_not_pressed (Bool.eq_false_iff.mpr hl) (nextIndex m.expTimeIndex)
        simp only [hl, Bool.false_eq_true, ↓reduceIte, id_eq, Bool.true_or, hadv]
        simp only [Machine.pbIsr, Machine.isrPoke, ↓reduceIte, and_ff]

theorem Machine.interrupts_wData0 :
    (m.interrupts past l).wData0 =
      if l.any id then highByte (mira220RegExposure + 1) else m.wData0 := by
  have h := congrArg Prod.fst (@Machine.interrupts_wData past m l)
  rwa [apply_ite Prod.fst] at h

theorem Machine.interrupts_wData1 :
    (m.interrupts past l).wData1 =
      if l.any id then lowByte (mira220RegExposure + 1) else m.wData1 := by
  have h := congrArg (fun t => t.2.1) (@Machine.interrupts_wData past m l)
  rwa [apply_ite fun t : Triple => t.2.1] at h

theorem Machine.interrupts_wData2 :
    (m.interrupts past l).wData2 =
      if l.any id then highByte (expTime past (advance l m.expTimeIndex)) else m.wData2 := by
  have h := congrArg (fun t => t.2.2) (@Machine.interrupts_wData past m l)
  rwa [apply_ite fun t : Triple => t.2.2] at h

/-! ### Calls -/

/-- A `poke` call of `init_MIRA220`: the position of its first statement and its
arguments. -/
structure Call where
  position : ℕ
  addr : BitVec 16
  val : ValArg

/-- The `poke` calls of a part of the function that starts at position `k`. -/
def calls : ℕ → List Piece → List Call
  | _, [] => []
  | k, .other :: l => calls (k + 1) l
  | k, .poke addr val :: l => ⟨k, addr, val⟩ :: calls (k + 6) l

/-- The exposure index before the interrupts in front of statement `k`. -/
def indexBefore (schedule : ℕ → List Bool) : ℕ → BitVec 8
  | 0 => 6
  | k + 1 => advance (schedule k) (indexBefore schedule k)

/-- The exposure time that statement `k` finds selected. -/
def exposureAt (past : BitVec 16) (schedule : ℕ → List Bool) (k : ℕ) : BitVec 16 :=
  expTime past (indexBefore schedule (k + 1))

/-- What a call transmits: each byte is its own unless a press comes between its
assignment and the transmission, which is the statement at distance 4. -/
def sentTriple (past : BitVec 16) (schedule : ℕ → List Bool) (c : Call) : Triple :=
  (if pressedAt schedule (c.position + 2) || pressedAt schedule (c.position + 3) ||
      pressedAt schedule (c.position + 4) then highByte (mira220RegExposure + 1)
    else highByte c.addr,
    if pressedAt schedule (c.position + 3) || pressedAt schedule (c.position + 4) then
      lowByte (mira220RegExposure + 1)
    else lowByte c.addr,
    if pressedAt schedule (c.position + 4) then
      highByte (exposureAt past schedule (c.position + 4))
    else c.val.eval (exposureAt past schedule c.position))

theorem Machine.own_tx (m : Machine) (past : BitVec 16) :
    (m.step past .tx).own = m.own ++ [(m.wData0, m.wData1, m.wData2)] := by
  simp [Machine.step, Machine.own]

theorem Machine.run_cons (k : ℕ) (s : Statement) (rest : List Statement) :
    Machine.run past schedule k (s :: rest) m =
      Machine.run past schedule (k + 1) rest ((m.interrupts past (schedule k)).step past s) := rfl

/-- Only a transmission is recorded. -/
theorem Machine.own_step {s : Statement} (hs : s ≠ .tx) : (m.step past s).own = m.own := by
  cases s <;> first | rfl | exact absurd rfl hs

/-- One `poke` from its call to its last statement. -/
theorem Machine.run_poke (k : ℕ) (addr : BitVec 16) (val : ValArg) (rest : List Statement)
    (h : m.expTimeIndex = indexBefore schedule k) :
    ∃ m', Machine.run past schedule k (poke addr val ++ rest) m =
        Machine.run past schedule (k + 6) rest m' ∧
      m'.expTimeIndex = indexBefore schedule (k + 6) ∧
      m'.own = m.own ++ [sentTriple past schedule ⟨k, addr, val⟩] := by
  simp only [poke, List.cons_append, List.nil_append, Machine.run_cons]
  refine ⟨_, rfl, ?_, ?_⟩
  · simp only [Machine.step, Machine.interrupts_expTimeIndex, h]
    rfl
  · simp only [Machine.own_step, Machine.own_tx, Machine.interrupts_own, ne_eq, reduceCtorEq,
      not_false_eq_true]
    simp only [Machine.step, Machine.interrupts_wData0, Machine.interrupts_wData1,
      Machine.interrupts_wData2, Machine.interrupts_addr, Machine.interrupts_val,
      Machine.interrupts_expTimeIndex, and_ff, h]
    unfold sentTriple pressedAt exposureAt
    simp only [Nat.add_assoc, Nat.reduceAdd]
    -- the places of `wData` that a press leaves alone
    cases (schedule (k + 2)).any id <;> cases (schedule (k + 3)).any id <;>
      cases (schedule (k + 4)).any id <;> rfl

/-- The own transmissions of a run are those of its calls. -/
theorem Machine.own_run (k : ℕ) (l : List Piece) (h : m.expTimeIndex = indexBefore schedule k) :
    (Machine.run past schedule k (statements l) m).own =
      m.own ++ (calls k l).map (sentTriple past schedule) := by
  induction l generalizing k m with
  | nil =>
    show (m.interrupts past (schedule k)).own = m.own ++ []
    rw [Machine.interrupts_own, List.append_nil]
  | cons piece l ih =>
    cases piece with
    | other =>
      have hindex : (m.interrupts past (schedule k)).expTimeIndex =
          indexBefore schedule (k + 1) := by
        rw [Machine.interrupts_expTimeIndex, h]
        rfl
      have hrest := ih (k + 1) hindex
      rwa [Machine.interrupts_own] at hrest
    | poke addr val =>
      obtain ⟨m', hrun, hindex, hown⟩ := Machine.run_poke k addr val (statements l) h
      show (Machine.run past schedule k (poke addr val ++ statements l) m).own = _
      rw [hrun, ih (k + 6) hindex, hown, List.append_assoc]
      rfl

/-! ### The upload -/

/-- What a call transmits by itself when the exposure time is `exposure`. -/
def Call.triple (exposure : BitVec 16) (c : Call) : Triple :=
  (highByte c.addr, lowByte c.addr, c.val.eval exposure)

/-- A call that transmits what it was called for: presses that come after the
assignment of a byte and before the transmission leave the very same byte there, and
the value is the one of `exposure`. -/
structure CallKept (past : BitVec 16) (schedule : ℕ → List Bool) (exposure : BitVec 16)
    (c : Call) : Prop where
  high : (pressedAt schedule (c.position + 2) || pressedAt schedule (c.position + 3) ||
    pressedAt schedule (c.position + 4)) = true →
      highByte c.addr = highByte (mira220RegExposure + 1)
  low : (pressedAt schedule (c.position + 3) || pressedAt schedule (c.position + 4)) = true →
      lowByte c.addr = lowByte (mira220RegExposure + 1)
  value : (if pressedAt schedule (c.position + 4) then
      highByte (exposureAt past schedule (c.position + 4))
    else c.val.eval (exposureAt past schedule c.position)) = c.val.eval exposure

theorem sentTriple_eq_iff {exposure : BitVec 16} {c : Call} :
    sentTriple past schedule c = c.triple exposure ↔ CallKept past schedule exposure c := by
  unfold sentTriple Call.triple
  rw [Prod.mk.injEq, Prod.mk.injEq]
  constructor
  · rintro ⟨hhigh, hlow, hvalue⟩
    refine ⟨fun hp => ?_, fun hp => ?_, hvalue⟩
    · rw [if_pos hp] at hhigh
      exact hhigh.symm
    · rw [if_pos hp] at hlow
      exact hlow.symm
  · intro h
    refine ⟨?_, ?_, h.value⟩
    · split_ifs with hp
      · exact (h.high hp).symm
      · rfl
    · split_ifs with hp
      · exact (h.low hp).symm
      · rfl

/-- A register address and a value as they go over the bus. -/
def bytes (addr : BitVec 16) (val : BitVec 8) : Triple := (highByte addr, lowByte addr, val)

/-- The sequence that sets up the sensor: soft reset, register table, the two bytes of
the exposure time, imager state and run. -/
def setUp (table : List Mira220Reg) (exposure : BitVec 16) : List Triple :=
  [bytes mira220MipiSoftResetReg mira220MipiSoftResetDphy,
    bytes mira220MipiSoftResetReg mira220MipiSoftResetNone] ++
  table.map (fun reg => bytes reg.address reg.val) ++
  [bytes mira220RegExposure (lowByte exposure),
    bytes (mira220RegExposure + 1) (highByte exposure)] ++
  [bytes mira220ImagerStateReg mira220MasterExposure,
    bytes mira220ImagerRunReg mira220ImagerRunStart]

/-- The triple of a piece that is a call. -/
def Piece.triple (exposure : BitVec 16) : Piece → Option Triple
  | .other => none
  | .poke addr val => some (bytes addr (val.eval exposure))

theorem calls_triple (exposure : BitVec 16) (k : ℕ) (l : List Piece) :
    (calls k l).map (Call.triple exposure) = l.filterMap (Piece.triple exposure) := by
  induction l generalizing k with
  | nil => rfl
  | cons piece l ih =>
    cases piece with
    | other => exact ih (k + 1)
    | poke addr val => exact congrArg (bytes addr (val.eval exposure) :: ·) (ih (k + 6))

theorem upload_triple (table : List Mira220Reg) (exposure : BitVec 16) :
    (upload table).filterMap (Piece.triple exposure) =
      table.map fun reg => bytes reg.address reg.val := by
  have hloop : (table.flatMap fun reg =>
      [Piece.other, .poke reg.address (.const reg.val), .other]).filterMap
        (Piece.triple exposure) = table.map fun reg => bytes reg.address reg.val := by
    induction table with
    | nil => rfl
    | cons reg table ih =>
      rw [List.flatMap_cons, List.filterMap_append, ih]
      rfl
  rw [upload, List.filterMap_append]
  show List.filterMap _ _ ++ [] = _
  rw [List.append_nil]
  exact hloop

theorem initWith_triple (table : List Mira220Reg) (exposure : BitVec 16) (k : ℕ) :
    (calls k (initWith table)).map (Call.triple exposure) = setUp table exposure := by
  rw [calls_triple, initWith, List.filterMap_append, List.filterMap_append,
    List.filterMap_append, upload_triple]
  rfl

/-- The exposure time selected when the first exposure call is made. -/
def setUpExposure (past : BitVec 16) (schedule : ℕ → List Bool) : BitVec 16 :=
  exposureAt past schedule (statements (softReset ++ upload full1500mbps1280x720Reg)).length

theorem own_initWith (table : List Mira220Reg) (w0 w1 w2 : BitVec 8) (exposure : BitVec 16) :
    (Machine.run past schedule 0 (statements (initWith table)) (.start w0 w1 w2)).own =
        setUp table exposure ↔
      ∀ c ∈ calls 0 (initWith table), CallKept past schedule exposure c := by
  have hown : (Machine.run past schedule 0 (statements (initWith table)) (.start w0 w1 w2)).own =
    _ := Machine.own_run 0 (initWith table) rfl
  have hstart : (Machine.start w0 w1 w2).own = [] := rfl
  rw [hown, hstart, List.nil_append, ← initWith_triple table exposure 0, List.map_inj_left]
  exact forall_congr' fun c => imp_congr_right fun _ => sentTriple_eq_iff

/-- The calls of `init_MIRA220` transmit exactly the set-up sequence, with the exposure
time selected at the first exposure call, exactly when every one of them is kept. -/
theorem init_sent_iff (past : BitVec 16) (schedule : ℕ → List Bool) (w0 w1 w2 : BitVec 8) :
    (Machine.run past schedule 0 (statements initMira220) (.start w0 w1 w2)).own =
        setUp full1500mbps1280x720Reg (setUpExposure past schedule) ↔
      ∀ c ∈ calls 0 initMira220, CallKept past schedule (setUpExposure past schedule) c :=
  own_initWith full1500mbps1280x720Reg w0 w1 w2 _

/-- One press in front of the very first transmission: it sends a byte of the exposure
time to 0x100D and the soft reset is not asserted. -/
theorem init_sent_corrupted :
    ¬∀ (past : BitVec 16) (schedule : ℕ → List Bool) (w0 w1 w2 : BitVec 8),
      (Machine.run past schedule 0 (statements initMira220) (.start w0 w1 w2)).own =
        setUp full1500mbps1280x720Reg (setUpExposure past schedule) := by
  intro h
  let schedule : ℕ → List Bool := fun k => if k = 32 then [true] else []
  have hkept := (own_initWith full1500mbps1280x720Reg 0 0 0 _).mp (h 0 schedule 0 0 0)
  have hfirst : ⟨28, mira220MipiSoftResetReg, .const mira220MipiSoftResetDphy⟩ ∈
      calls 0 (initWith full1500mbps1280x720Reg) := List.mem_cons_self
  exact absurd ((hkept _ hfirst).high (by decide)) (by decide)

end AlteraWorkshops.Camera
