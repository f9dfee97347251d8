import AlteraWorkshops.OneAi.Transfers
import AlteraWorkshops.Shared.Cursor

/-! The two clients that print the CNN values: `display_ai_status` of the firmware
and `display_ai_status` of the System Console script. Both select class 0 and then
read 0x04 ten times, and nothing keeps one of them off the bus while the other is
reading: the class register is a cursor that they share. -/

namespace AlteraWorkshops.OneAi

open Shared (Move Cursor Allowed Ordered OwnItems Uninterrupted)

variable {g : Generics} {s : State} {d : OutputData} {c : Bool} {k : Cursor}

/-! ### The two scripts -/

/-- The bus address is in bytes, the interface expects the register offset. -/
def slaveAddress (offset : ℕ) : BitVec 8 := BitVec.ofNat 8 (offset / 4)

/-- One bus access of a client. The word of `readData i` is printed after the label
`Data i`; it is read from `ONE_AI_OUTPUT_READ_AUTO`. -/
inductive Access
  | readRegister (regAddr : ℕ)
  | write (offset : ℕ) (data : BitVec 32)
  | readData (i : ℕ)
  deriving DecidableEq

/-- `read_ai_register` reads four times the register address. -/
def Access.op : Access → BusOp
  | .readRegister regAddr => .read (slaveAddress (regAddr * 4))
  | .write offset data => .write (slaveAddress offset) data
  | .readData _ => .read (slaveAddress (0x04 * 4))

/-- `display_ai_status` of the firmware. -/
def firmwareScript : List Access :=
  [.readRegister 0x00, .readRegister 0x01, .readRegister 0x02, .readRegister 0x10,
    .readRegister 0x20, .write (0x20 * 4) 0] ++ (List.range 10).map .readData

/-- `display_ai_status` of the System Console script. -/
def consoleScript : List Access :=
  [.readRegister 0x00, .readRegister 0x01, .readRegister 0x02, .write 0x80 0x00000000,
    .readData 0, .readData 1, .readData 2, .readData 3, .readData 4, .readData 5, .readData 6,
    .readData 7, .readData 8, .readData 9]

def firmware : Bool := false

def console : Bool := true

def script (c : Bool) : List Access := if c = firmware then firmwareScript else consoleScript

/-! ### Interleavings -/

/-- The accesses of one client in an interleaving. -/
def projection (c : Bool) (m : List (Bool × Access)) : List Access :=
  m.filterMap fun e => if e.1 = c then some e.2 else none

/-- Both scripts, merged in any order. -/
def Interleaving (m : List (Bool × Access)) : Prop := ∀ c, projection c m = script c

/-- What a client prints after `Data i` is the entry of class `i`. -/
def LabelsRight (d : OutputData) (m : List (Bool × Access)) (vs : List (Option (BitVec 32))) :
    Prop :=
  List.Forall₂ (fun e v => ∀ i : Fin 10, e.2 = .readData i → v = some (BitVec.ofNat 32 (d i).val))
    m vs

/-- What an access does to the class register. -/
def Access.move : Access → Option Move
  | .readRegister _ => none
  | .write _ _ => some .rewind
  | .readData _ => some .take

def pointerMoves (m : List (Bool × Access)) : List (Bool × Move) :=
  m.filterMap fun e => e.2.move.map fun move => (e.1, move)

/-- No client writes 0x20 or reads 0x04 while the other one has read some, but not
all, of its ten values. -/
def UninterruptedReads (m : List (Bool × Access)) : Prop :=
  Uninterrupted 10 ⟨0, fun _ => none⟩ (pointerMoves m)

instance : DecidablePred UninterruptedReads :=
  fun m => inferInstanceAs (Decidable (Uninterrupted 10 _ (pointerMoves m)))

theorem projection_cons_self (c : Bool) (a : Access) (m : List (Bool × Access)) :
    projection c ((c, a) :: m) = a :: projection c m := by
  simp [projection]

theorem projection_cons_other (c : Bool) (a : Access) (m : List (Bool × Access)) :
    projection (!c) ((c, a) :: m) = projection (!c) m := by
  have hne : c ≠ !c := by cases c <;> decide
  simp [projection, hne]

/-! ### Scripts as cursor clients -/

/-- The rest of a script whose client has taken `k` values: status registers at any
time, one write of zero to 0x20, then the ten values in order under their labels. -/
def Script : Option ℕ → List Access → Prop
  | k, [] => k = some 10
  | k, .readRegister regAddr :: l => slaveAddress (regAddr * 4) ≠ 4 ∧ Script k l
  | k, .write offset data :: l =>
    (k = none ∧ slaveAddress offset = 0x20 ∧ data = 0) ∧ Script (some 0) l
  | k, .readData i :: l => (k = some i ∧ i < 10) ∧ Script (some (i + 1)) l

instance decidableScript : (k : Option ℕ) → (l : List Access) → Decidable (Script k l)
  | k, [] => inferInstanceAs (Decidable (k = some 10))
  | k, .readRegister regAddr :: l =>
    have := decidableScript k l
    inferInstanceAs (Decidable (slaveAddress (regAddr * 4) ≠ 4 ∧ Script k l))
  | k, .write offset data :: l =>
    have := decidableScript (some 0) l
    inferInstanceAs
      (Decidable ((k = none ∧ slaveAddress offset = 0x20 ∧ data = 0) ∧ Script (some 0) l))
  | k, .readData i :: l =>
    have := decidableScript (some (i + 1)) l
    inferInstanceAs (Decidable ((k = some i ∧ i < 10) ∧ Script (some (i + 1)) l))

theorem script_script (c : Bool) : Script none (script c) := by cases c <;> decide

/-- Both clients have the rest of a script before them. -/
def Scripts (k : Cursor) (m : List (Bool × Access)) : Prop :=
  ∀ c, Script (k.taken c) (projection c m)

theorem Interleaving.scripts {m : List (Bool × Access)} (h : Interleaving m) (p : ℕ) :
    Scripts ⟨p, fun _ => none⟩ m := fun c => by
  rw [h c]
  exact script_script c

theorem Scripts.head {a : Access} {m : List (Bool × Access)} (h : Scripts k ((c, a) :: m)) :
    Script (k.taken c) (a :: projection c m) := by
  rw [← projection_cons_self]
  exact h c

/-- What is left after the first access, given what it left its own client. -/
theorem Scripts.tail {a : Access} {m : List (Bool × Access)} {k' : Cursor}
    (h : Scripts k ((c, a) :: m)) (hself : Script (k'.taken c) (projection c m))
    (hother : k'.taken (!c) = k.taken !c) : Scripts k' m := fun b => by
  rcases Shared.eq_or_eq_not b c with rfl | rfl
  · exact hself
  · rw [hother, ← projection_cons_other]
    exact h !c

theorem Scripts.readRegister {r : ℕ} {m : List (Bool × Access)}
    (h : Scripts k ((c, .readRegister r) :: m)) : Scripts k m := h.tail h.head.2 rfl

theorem Scripts.write {offset : ℕ} {data : BitVec 32} {m : List (Bool × Access)}
    (h : Scripts k ((c, .write offset data) :: m)) : Scripts (k.move 10 c .rewind) m := by
  refine h.tail ?_ Cursor.move_other
  rw [Cursor.move_rewind_taken]
  exact h.head.2

theorem Scripts.readData {i : ℕ} {m : List (Bool × Access)}
    (h : Scripts k ((c, .readData i) :: m)) : Scripts (k.move 10 c .take) m := by
  refine h.tail ?_ Cursor.move_other
  rw [Cursor.move_take_taken, h.head.1.1]
  exact h.head.2

theorem Scripts.ordered {m : List (Bool × Access)} (h : Scripts k m) :
    Ordered 10 k (pointerMoves m) := by
  induction m generalizing k with
  | nil => exact fun c => h c
  | cons e m ih =>
    obtain ⟨c, a⟩ := e
    cases a with
    | readRegister r => exact ih h.readRegister
    | write offset data => exact ⟨h.head.1.1, ih h.write⟩
    | readData i => exact ⟨⟨i, h.head.1⟩, ih h.readData⟩

/-! ### The class register as the cursor -/

/-- The class register is the cursor's position once a client has selected class 0. -/
structure Coupled (k : Cursor) (s : State) : Prop where
  released : s.Released
  classes : (∃ c, k.taken c ≠ none) → s.classes.toNat = k.position ∧ k.position < 10

theorem Coupled.idle {i : Ports} (h : Coupled k s) (hi : i.Idles) : Coupled k (step g s i) where
  released := released_of_noRead hi.resetN hi.noRead
  classes hc := by
    rw [classes_idle hi]
    exact h.classes hc

theorem Coupled.readRegister {i₁ i₂ i₃ : Ports} {a : BitVec 8} (h : Coupled k s) (ha : a ≠ 4)
    (h₁ : i₁.ReadsAt a) (h₂ : i₂.ReadsAt a) (h₃ : i₃.Idles) :
    Coupled k (step g (step g (step g s i₁) i₂) i₃) := by
  obtain ⟨hclasses, hreleased⟩ := transfer_read (g := g) (s := s) ha h₁ h₂ h₃
  refine ⟨hreleased, fun hc => ?_⟩
  rw [hclasses]
  exact h.classes hc

theorem Coupled.write {i : Ports} (c : Bool) (hi : i.WritesAt 0x20 0) :
    Coupled (k.move 10 c .rewind) (step g s i) := by
  obtain ⟨hclasses, hreleased⟩ := transfer_reset (g := g) (s := s) hi
  refine ⟨hreleased, fun _ => ?_⟩
  rw [hclasses]
  exact ⟨rfl, Nat.zero_lt_succ 9⟩

/-- A read of 0x04 samples the entry at the cursor and moves the cursor on. -/
theorem Coupled.readData {i₁ i₂ i₃ : Ports} (h : Coupled k s) (hc : k.taken c ≠ none)
    (h₁ : i₁.ReadsAt 4) (h₂ : i₂.ReadsAt 4) (h₃ : i₃.Idles) :
    (∃ hlt : k.position < 10, (step g s i₁).slave.avsReaddata =
        BitVec.ofNat 32 (s.result.outputData ⟨k.position, hlt⟩).val) ∧
      Coupled (k.move 10 c .take) (step g (step g (step g s i₁) i₂) i₃) := by
  obtain ⟨hword, hclasses, hreleased⟩ := transfer_auto (g := g) h.released h₁ h₂ h₃
  obtain ⟨hpos, hlt⟩ := h.classes ⟨c, hc⟩
  constructor
  · have hlt' : s.slave.currentUserPosition.value.currentClasses < 10 := by
      rw [← hpos] at hlt
      exact hlt
    have hidx : (⟨_, hlt'⟩ : Fin 10) = ⟨k.position, hlt⟩ := Fin.ext hpos
    refine ⟨hlt, hword.trans ((dif_pos hlt').trans ?_)⟩
    rw [hidx]
  · refine ⟨hreleased, fun _ => ?_⟩
    have hmove : (k.move 10 c .take).position = (k.position + 1) % 10 := rfl
    rw [hclasses, hmove, nextClass_toNat (by omega), hpos]
    exact ⟨rfl, Nat.mod_lt _ (by decide)⟩

/-- Entries that are equal as bus words are equal. -/
theorem word_inj {u v : CnnValue} (h : BitVec.ofNat 32 u.val = BitVec.ofNat 32 v.val) : u = v := by
  have h' := congrArg BitVec.toNat h
  rw [BitVec.toNat_ofNat, BitVec.toNat_ofNat] at h'
  exact Fin.ext (by omega)

/-! ### Labels -/

/-- The labels are right when every client takes its own items, and only then if the
entries differ. -/
def Labelled (d : OutputData) (k : Cursor) (m : List (Bool × Access))
    (vs : List (Option (BitVec 32))) : Prop :=
  (OwnItems 10 k (pointerMoves m) → LabelsRight d m vs) ∧
    (Function.Injective d → LabelsRight d m vs → OwnItems 10 k (pointerMoves m))

section Labelled

variable {m : List (Bool × Access)} {vs : List (Option (BitVec 32))} {v : Option (BitVec 32)}

theorem labelsRight_cons {a : Access} :
    LabelsRight d ((c, a) :: m) (v :: vs) ↔
      (∀ i : Fin 10, a = .readData i → v = some (BitVec.ofNat 32 (d i).val)) ∧
        LabelsRight d m vs := List.forall₂_cons

theorem Labelled.readRegister {r : ℕ} (h : Labelled d k m vs) :
    Labelled d k ((c, .readRegister r) :: m) (v :: vs) := by
  unfold Labelled
  rw [labelsRight_cons]
  exact ⟨fun hown => ⟨fun i hi => (by cases hi), h.1 hown⟩, fun hinj hl => h.2 hinj hl.2⟩

theorem Labelled.write {offset : ℕ} {data : BitVec 32}
    (h : Labelled d (k.move 10 c .rewind) m vs) :
    Labelled d k ((c, .write offset data) :: m) (v :: vs) := by
  unfold Labelled
  rw [labelsRight_cons]
  exact ⟨fun hown => ⟨fun i hi => (by cases hi), h.1 hown.2⟩,
    fun hinj hl => ⟨fun hm => (by cases hm), h.2 hinj hl.2⟩⟩

/-- The word is the entry at the cursor: the client's own item or, if the entries
differ, not the one under the label. -/
theorem Labelled.readData {i : ℕ} (hi : k.taken c = some i) (hlt : i < 10)
    (hpos : k.position < 10)
    (h : Labelled d (k.move 10 c .take) m vs) :
    Labelled d k ((c, .readData i) :: m)
      (some (BitVec.ofNat 32 (d ⟨k.position, hpos⟩).val) :: vs) := by
  unfold Labelled
  rw [labelsRight_cons]
  constructor
  · intro hown
    refine ⟨fun j hj => ?_, h.1 hown.2⟩
    have hij : i = j.val := by simpa using hj
    have hip : i = k.position := by simpa [hi] using hown.1 rfl
    have hindex : (⟨k.position, hpos⟩ : Fin 10) = j := Fin.ext (hip.symm.trans hij)
    rw [hindex]
  · intro hinj hl
    have hword := Option.some.inj (hl.1 ⟨i, hlt⟩ rfl)
    have hindex : k.position = i := congrArg Fin.val (hinj (word_inj hword))
    exact ⟨fun _ => by rw [hi, hindex], h.2 hinj hl.2⟩

end Labelled

theorem labelled_of_performs {m : List (Bool × Access)} {ops : List BusOp}
    {vs : List (Option (BitVec 32))} (hp : Performs g d s ops vs)
    (hops : ops = m.map fun e => e.2.op) (hm : Scripts k m) (hk : Coupled k s) :
    Labelled d k m vs := by
  induction hp generalizing m k with
  | done s =>
    obtain rfl : m = [] := List.map_eq_nil_iff.mp hops.symm
    exact ⟨fun _ => .nil, fun _ _ => trivial⟩
  | idle hi _ ih => exact ih hops hm (hk.idle hi)
  | read hd h₁ h₂ h₃ _ ih =>
    cases m with
    | nil => cases hops
    | cons e m =>
      obtain ⟨c, a⟩ := e
      simp only [List.map_cons, List.cons.injEq] at hops
      obtain ⟨hop, hops⟩ := hops
      cases a with
      | write => cases hop
      | readRegister r =>
        obtain rfl : _ = slaveAddress (r * 4) := by simpa [Access.op] using hop
        exact (ih hops hm.readRegister (hk.readRegister hm.head.1 h₁ h₂ h₃)).readRegister
      | readData i =>
        obtain rfl : _ = slaveAddress (0x04 * 4) := by simpa [Access.op] using hop
        obtain ⟨hi, hlt⟩ := hm.head.1
        obtain ⟨⟨hpos, hword⟩, hk'⟩ := hk.readData (c := c) (by simp [hi]) h₁ h₂ h₃
        rw [hword, hd]
        exact (ih hops hm.readData hk').readData hi hlt hpos
  | write hi _ ih =>
    cases m with
    | nil => cases hops
    | cons e m =>
      obtain ⟨c, a⟩ := e
      simp only [List.map_cons, List.cons.injEq] at hops
      obtain ⟨hop, hops⟩ := hops
      cases a with
      | readRegister => cases hop
      | readData => cases hop
      | write offset data =>
        obtain ⟨-, haddr, hdata⟩ := hm.head.1
        obtain ⟨rfl, rfl⟩ : _ = slaveAddress offset ∧ _ = data := by simpa [Access.op] using hop
        rw [haddr, hdata] at hi
        exact (ih hops hm.write (Coupled.write c hi)).write

/-- Before the scripts start nothing is coupled yet. -/
theorem coupled_start (hs : s.Released) : Coupled ⟨0, fun _ => none⟩ s where
  released := hs
  classes h := by
    obtain ⟨_, h⟩ := h
    exact absurd rfl h

/-- In an interleaving without interruptions both clients print every entry under
its label. If the ten entries differ, no other interleaving does that. -/
theorem labels_right_iff (g : Generics) (inp : ℕ → Ports) (t : ℕ) (d : OutputData)
    (m : List (Bool × Access)) (vs : List (Option (BitVec 32)))
    (hs : (run g inp t).Released) (hm : Interleaving m)
    (hp : Performs g d (run g inp t) (m.map fun e => e.2.op) vs) :
    (UninterruptedReads m → LabelsRight d m vs) ∧
      (Function.Injective d → LabelsRight d m vs → UninterruptedReads m) := by
  obtain ⟨h₁, h₂⟩ := labelled_of_performs hp rfl (hm.scripts 0) (coupled_start hs)
  have hiff := Shared.ownItems_iff_uninterrupted (hm.scripts 0).ordered
  exact ⟨fun hu => h₁ (hiff.mpr hu), fun hinj h => hiff.mp (h₂ hinj h)⟩

/-! ### Two interleavings

Class `c` holds the value `c`. -/

/-- The CNN delivers the ten classes in cycles 0 to 9. -/
def loadPorts (t : ℕ) : Ports :=
  { Ports.silent with
    oDataValid := t < 10, oData1 := ⟨t % 128, Nat.mod_lt _ (by decide)⟩, oCycle1 := t }

def loaded (c : Fin 10) : CnnValue := ⟨c.val, by omega⟩

theorem loaded_injective : Function.Injective loaded := by
  unfold Function.Injective
  decide

theorem run_loaded (g : Generics) : (run g loadPorts 10).result.outputData = loaded := by
  funext c
  fin_cases c <;> rfl

/-- One client, then the other. -/
def oneAfterTheOther : List (Bool × Access) :=
  firmwareScript.map (firmware, ·) ++ consoleScript.map (console, ·)

/-- The console runs between the firmware's first and second value. -/
def consoleInBetween : List (Bool × Access) :=
  (firmwareScript.take 7).map (firmware, ·) ++ consoleScript.map (console, ·) ++
    (firmwareScript.drop 7).map (firmware, ·)

theorem labels_right_one_after_the_other :
    let g : Generics := ⟨0x80000, fun _ => 0⟩
    ∃ vs, Performs g loaded (run g loadPorts 10) (oneAfterTheOther.map fun e => e.2.op) vs ∧
      UninterruptedReads oneAfterTheOther ∧
      (UninterruptedReads oneAfterTheOther → LabelsRight loaded oneAfterTheOther vs) ∧
      (Function.Injective loaded → LabelsRight loaded oneAfterTheOther vs →
        UninterruptedReads oneAfterTheOther) := by
  intro g
  obtain ⟨vs, hp⟩ := exists_performs g (run g loadPorts 10) (oneAfterTheOther.map fun e => e.2.op)
  rw [run_loaded] at hp
  exact ⟨vs, hp, by decide, labels_right_iff g loadPorts 10 loaded oneAfterTheOther vs rfl
    (fun c => by cases c <;> rfl) hp⟩

/-- The firmware's second value is then the entry of class 0. -/
theorem labels_wrong_in_between :
    ¬∀ (g : Generics) (inp : ℕ → Ports) (t : ℕ) (d : OutputData) (m : List (Bool × Access))
      (vs : List (Option (BitVec 32))), (run g inp t).Released → Interleaving m →
      Performs g d (run g inp t) (m.map fun e => e.2.op) vs → LabelsRight d m vs := by
  intro h
  let g : Generics := ⟨0x80000, fun _ => 0⟩
  have hm : Interleaving consoleInBetween := fun c => by cases c <;> rfl
  obtain ⟨vs, hp⟩ := exists_performs g (run g loadPorts 10) (consoleInBetween.map fun e => e.2.op)
  rw [run_loaded] at hp
  have hright := h g loadPorts 10 loaded consoleInBetween vs rfl hm hp
  have hown := (labelled_of_performs hp rfl (hm.scripts 0) (coupled_start rfl)).2
    loaded_injective hright
  exact absurd (Shared.uninterrupted_of_ownItems (hm.scripts 0).ordered hown) (by decide)

end AlteraWorkshops.OneAi
