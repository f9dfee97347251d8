import AlteraWorkshops.Clocked.Latch
import AlteraWorkshops.ImageSource.Pulse

/-! The interrupt status register over whole runs. Both bits are latches in which the
set wins over the clear. Bit 1 remembers the edges of the synchronized `irq_in`, bit 0
those of the pulse generator: the software bit never reaches it. The interrupt output
follows the live sources and not the status bits. -/

namespace AlteraWorkshops.ImageSource

open Clocked

variable {inp : ℕ → Ports} {s : State} {i : Ports} {k t : ℕ}

/-! ### Writes -/

/-- An effective write of byte 0 of the register at `address`. -/
def Ports.writes (i : Ports) (address : BitVec 2) : Bool :=
  i.csW && i.s0Byteenable.getLsbD 0 && i.s0Address == address

/-- A write-1-to-clear of status bit `k`. -/
def Ports.clears (i : Ports) (k : ℕ) : Bool := i.writes 2 && i.s0Writedata.getLsbD k

theorem address_cases (a : BitVec 2) : a = 0 ∨ a = 1 ∨ a = 2 ∨ a = 3 := by
  revert a
  decide

/-- Each register takes what is written to its own address. -/
theorem write_eq : write s i = { s with
    pioBit := if i.writes 0 then i.s0Writedata.getLsbD 0 else s.pioBit
    irqEn := if i.writes 1 then i.s0Writedata.extractLsb' 0 2 else s.irqEn
    irqStatus := if i.writes 2 then s.irqStatus &&& ~~~i.s0Writedata.extractLsb' 0 2
      else s.irqStatus } := by
  unfold write Ports.writes
  by_cases hw : (i.csW && i.s0Byteenable.getLsbD 0) = true
  · rw [if_pos hw, hw]
    rcases address_cases i.s0Address with ha | ha | ha | ha <;> rw [ha] <;> rfl
  · rw [if_neg hw, Bool.eq_false_iff.mpr hw]
    rfl

theorem write_irqStatus (hk : k < 2) :
    (write s i).irqStatus.getLsbD k = (s.irqStatus.getLsbD k && !i.clears k) := by
  rw [write_eq, Ports.clears]
  cases i.writes 2 <;> simp [hk]

theorem write_pioBit :
    (write s i).pioBit = if i.writes 0 then i.s0Writedata.getLsbD 0 else s.pioBit := by
  rw [write_eq]

theorem write_irqEn :
    (write s i).irqEn = if i.writes 1 then i.s0Writedata.extractLsb' 0 2 else s.irqEn := by
  rw [write_eq]

/-! ### One edge -/

theorem irqEn_step (hn : i.resetN = true) :
    (step s i).irqEn = if i.writes 1 then i.s0Writedata.extractLsb' 0 2 else s.irqEn := by
  simp only [step, hn, Bool.not_true, Bool.false_eq_true, ↓reduceIte]
  exact write_irqEn

theorem pioBit_step (hn : i.resetN = true) :
    (step s i).pioBit = if i.writes 0 then i.s0Writedata.getLsbD 0 else s.pioBit := by
  simp only [step, hn, Bool.not_true, Bool.false_eq_true, ↓reduceIte]
  exact write_pioBit

/-- What a write leaves in DATA and IRQ_EN is read back in the next cycle. -/
theorem readdata_written {j : Ports} (hn : i.resetN = true) (hj : j.s0Address = i.s0Address) :
    (i.writes 0 = true → s0Readdata (step s i) j =
        (BitVec.ofBool (i.s0Writedata.getLsbD 0)).setWidth 32) ∧
      (i.writes 1 = true → s0Readdata (step s i) j =
        (i.s0Writedata.extractLsb' 0 2).setWidth 32) := by
  refine ⟨fun hw => ?_, fun hw => ?_⟩
  · have ha : i.s0Address = 0 := beq_iff_eq.mp (Bool.and_eq_true _ _ ▸ hw).2
    rw [s0Readdata, hj, ha, pioBit_step hn, if_pos hw]
    rfl
  · have ha : i.s0Address = 1 := beq_iff_eq.mp (Bool.and_eq_true _ _ ▸ hw).2
    rw [s0Readdata, hj, ha, irqEn_step hn, if_pos hw]
    rfl

def pulseRise (s : State) : Bool := !s.pioBitQ && s.pg.pulseOut

theorem pioPending_step (hn : i.resetN = true) :
    (step s i).irqStatus.getLsbD 0 = (pulseRise s || (s.irqStatus.getLsbD 0 && !i.clears 0)) := by
  have hw := write_irqStatus (s := s) (i := i) (k := 0) (by decide)
  simp only [step, hn, Bool.not_true, Bool.false_eq_true, ↓reduceIte]
  rw [← hw]
  unfold pulseRise
  cases !s.pioBitQ && s.pg.pulseOut <;> cases extRise s <;> simp

theorem extPending_step (hn : i.resetN = true) :
    (step s i).irqStatus.getLsbD 1 = (extRise s || (s.irqStatus.getLsbD 1 && !i.clears 1)) := by
  have hw := write_irqStatus (s := s) (i := i) (k := 1) (by decide)
  simp only [step, hn, Bool.not_true, Bool.false_eq_true, ↓reduceIte]
  rw [← hw]
  cases !s.pioBitQ && s.pg.pulseOut <;> cases extRise s <;> simp

/-! ### Edges in a run -/

section Run

variable (hn : ∀ u, (inp u).resetN = true)
include hn

/-- The synchronizer is `irq_in` one, two and three cycles late. -/
theorem sync_delayed :
    (fun t => (run inp t).extMeta) = delayed 1 false (fun t => (inp t).irqIn) ∧
      (fun t => (run inp t).extSync) = delayed 2 false (fun t => (inp t).irqIn) ∧
      (fun t => (run inp t).extQ) = delayed 3 false (fun t => (inp t).irqIn) := by
  have hmeta : (fun t => (run inp t).extMeta) = delayed 1 false (fun t => (inp t).irqIn) := by
    apply delayed_of_register rfl
    intro t
    simp only [run_succ, step, hn t, Bool.not_true, Bool.false_eq_true, ↓reduceIte]
  have hsync : (fun t => (run inp t).extSync) = delayed 2 false (fun t => (inp t).irqIn) := by
    rw [← delayed_delayed, ← hmeta]
    apply delayed_of_register rfl
    intro t
    simp only [run_succ, step, hn t, Bool.not_true, Bool.false_eq_true, ↓reduceIte]
  refine ⟨hmeta, hsync, ?_⟩
  rw [← delayed_delayed, ← hsync]
  apply delayed_of_register rfl
  intro t
  simp only [run_succ, step, hn t, Bool.not_true, Bool.false_eq_true, ↓reduceIte]

/-- An edge of `irq_in` gets to the detector two cycles after its sample. -/
theorem extRise_iff (t : ℕ) :
    extRise (run inp t) = true ↔ ∃ s, t = s + 2 ∧ Rises (fun u => (inp u).irqIn) s := by
  obtain ⟨-, hsync, hq⟩ := sync_delayed hn
  rw [← rise_delayed, ← hsync, ← hq]
  rfl

/-- An edge of the pulse is latched in its own cycle. -/
theorem pulseRise_iff (t : ℕ) : pulseRise (run inp t) = true ↔ t % periodCycles = 1 := by
  have hq : (fun t => (run inp t).pioBitQ) = delayed 1 false fun t => (run inp t).pg.pulseOut := by
    apply delayed_of_register rfl
    intro t
    simp only [run_succ, step, hn t, Bool.not_true, Bool.false_eq_true, ↓reduceIte]
  have hrise := rise_delayed (x := fun t => (run inp t).pg.pulseOut) (d := 0) (t := t)
  rw [← hq, delayed_zero] at hrise
  rw [← pulse_rises_iff hn]
  refine hrise.trans ⟨?_, fun h => ⟨t, rfl, h⟩⟩
  rintro ⟨s, rfl, hs⟩
  exact hs

/-- No write clears bit `k` after cycle `e` and before cycle `t`. -/
def Uncleared (inp : ℕ → Ports) (k e t : ℕ) : Prop :=
  ∀ u, e < u → u < t → (inp u).clears k = false

/-- A latched bit is set by an edge that nothing cleared since. -/
theorem extPending_iff (t : ℕ) :
    (run inp t).irqStatus.getLsbD 1 = true ↔
      ∃ s, Rises (fun u => (inp u).irqIn) s ∧ s + 2 < t ∧ Uncleared inp 1 (s + 2) t := by
  have hlatch := setDominant_iff (q := fun u => (run inp u).irqStatus.getLsbD 1) (Nat.zero_le t)
    fun u _ _ => extPending_step (s := run inp u) (hn u)
  refine hlatch.trans ⟨?_, ?_⟩
  · rintro (⟨u, -, hu, hset, hclr⟩ | ⟨h0, -⟩)
    · obtain ⟨s, rfl, hs⟩ := (extRise_iff hn u).mp hset
      exact ⟨s, hs, hu, hclr⟩
    · exact absurd (show (0 : BitVec 2).getLsbD 1 = true from h0) (by decide)
  · rintro ⟨s, hs, hst, hclr⟩
    exact .inl ⟨s + 2, Nat.zero_le _, hst, (extRise_iff hn _).mpr ⟨s, rfl, hs⟩, hclr⟩

theorem pioPending_iff (t : ℕ) :
    (run inp t).irqStatus.getLsbD 0 = true ↔
      ∃ e, e % periodCycles = 1 ∧ e < t ∧ Uncleared inp 0 e t := by
  have hlatch := setDominant_iff (q := fun u => (run inp u).irqStatus.getLsbD 0) (Nat.zero_le t)
    fun u _ _ => pioPending_step (s := run inp u) (hn u)
  refine hlatch.trans ⟨?_, ?_⟩
  · rintro (⟨e, -, he, hset, hclr⟩ | ⟨h0, -⟩)
    · exact ⟨e, (pulseRise_iff hn e).mp hset, he, hclr⟩
    · exact absurd (show (0 : BitVec 2).getLsbD 0 = true from h0) (by decide)
  · rintro ⟨e, hphase, he, hclr⟩
    exact .inl ⟨e, Nat.zero_le _, he, (pulseRise_iff hn e).mpr hphase, hclr⟩

end Run

/-! ### The interrupt register against its documentation -/

def Ports.unwritten (i : Ports) : Ports := { i with s0Write := false }

/-- Every external edge is latched two cycles after its sample and kept until a clear
that comes strictly later; nothing else touches the bit. -/
theorem ext_status (inp : ℕ → Ports) (hn : ∀ u, (inp u).resetN = true) :
    (∀ t, (run inp t).irqStatus.getLsbD 1 = true ↔
        ∃ s, Rises (fun u => (inp u).irqIn) s ∧ s + 2 < t ∧ Uncleared inp 1 (s + 2) t) ∧
      (∀ s, Rises (fun u => (inp u).irqIn) s → (run inp (s + 3)).irqStatus.getLsbD 1 = true) ∧
      ∀ t, (inp t).clears 1 = false →
        (run inp (t + 1)).irqStatus.getLsbD 1 =
          (step (run inp t) (inp t).unwritten).irqStatus.getLsbD 1 := by
  refine ⟨extPending_iff hn, fun s hs => ?_, fun t hc => ?_⟩
  · exact (extPending_iff hn (s + 3)).mpr ⟨s, hs, by omega, fun u h1 h2 => by omega⟩
  · have hidle : (inp t).unwritten.clears 1 = false := by
      simp [Ports.unwritten, Ports.clears, Ports.writes, Ports.csW]
    have hstep := extPending_step (s := run inp t) (i := (inp t).unwritten) (hn t)
    rw [run_succ, extPending_step (hn t), hstep, hc, hidle]

/-- Nothing on the bus; `irq_in` is high in cycle 1. -/
theorem ext_status_one :
    let inp : ℕ → Ports := fun t => { Ports.silent with irqIn := t == 1 }
    (∀ t, (run inp t).irqStatus.getLsbD 1 = true ↔
        ∃ s, Rises (fun u => (inp u).irqIn) s ∧ s + 2 < t ∧ Uncleared inp 1 (s + 2) t) ∧
      (∀ s, Rises (fun u => (inp u).irqIn) s → (run inp (s + 3)).irqStatus.getLsbD 1 = true) ∧
      ∀ t, (inp t).clears 1 = false →
        (run inp (t + 1)).irqStatus.getLsbD 1 =
          (step (run inp t) (inp t).unwritten).irqStatus.getLsbD 1 :=
  ext_status (fun t => { Ports.silent with irqIn := t == 1 }) fun _ => rfl

def DataRises (inp : ℕ → Ports) (e : ℕ) : Prop :=
  (inp e).writes 0 = true ∧ (inp e).s0Writedata.getLsbD 0 = true ∧ (run inp e).pioBit = false

/-- What the register map says of bit 0: it remembers the rises of DATA bit 0. -/
def DocumentedPio (inp : ℕ → Ports) (t : ℕ) : Prop :=
  ∃ e, DataRises inp e ∧ e < t ∧ Uncleared inp 0 e t

/-- What the block remembers: the starts of its own pulse. -/
def PulsePending (inp : ℕ → Ports) (t : ℕ) : Prop :=
  ∃ e, e % periodCycles = 1 ∧ e < t ∧ Uncleared inp 0 e t

def ExtPending (inp : ℕ → Ports) (t : ℕ) : Prop :=
  ∃ s, Rises (fun u => (inp u).irqIn) s ∧ s + 2 < t ∧ Uncleared inp 1 (s + 2) t

/-- Bit 0 is as documented in a cycle exactly when, since the last clear, a pulse has
started if and only if DATA bit 0 has risen. -/
theorem pio_status_iff (inp : ℕ → Ports) (hn : ∀ u, (inp u).resetN = true) (t : ℕ) :
    ((run inp t).irqStatus.getLsbD 0 = true ↔ DocumentedPio inp t) ↔
      (PulsePending inp t ↔ DocumentedPio inp t) :=
  iff_congr (pioPending_iff hn t) Iff.rfl

/-- DATA is written 1 in cycle 2, STATUS bit 0 is cleared in cycle 5, and DATA is
written 0 and 1 again in the cycles 6 and 7. -/
def pioPorts (t : ℕ) : Ports :=
  { Ports.silent with
    s0Address := if t = 5 then 2 else 0
    s0Write := t == 2 || t == 5 || t == 6 || t == 7, s0Chipselect := true
    s0Writedata := if t = 6 then 0 else 1, s0Byteenable := 0xF }

/-- In cycle 9 the pulse was cleared and the second rise of DATA was not. -/
theorem pio_status_cleared :
    (((run pioPorts 9).irqStatus.getLsbD 0 = true ↔ DocumentedPio pioPorts 9) ↔
        (PulsePending pioPorts 9 ↔ DocumentedPio pioPorts 9)) ∧
      ¬PulsePending pioPorts 9 ∧ DocumentedPio pioPorts 9 := by
  refine ⟨pio_status_iff pioPorts (fun _ => rfl) 9, ?_, ?_⟩
  · rintro ⟨e, hphase, hlt, hclr⟩
    obtain rfl : e = 1 := by simp only [periodCycles] at hphase; omega
    exact absurd (hclr 5 (by decide) (by decide)) (by decide)
  · have hlow : (run pioPorts 7).pioBit = false :=
      (pioBit_step (s := run pioPorts 6) (i := pioPorts 6) rfl).trans (by decide)
    refine ⟨7, ⟨rfl, rfl, hlow⟩, by decide, fun u h1 h2 => ?_⟩
    obtain rfl : u = 8 := by omega
    rfl

/-- Without a write to DATA the bit is set in cycle 2. -/
theorem pio_status_unwritten :
    ¬∀ inp : ℕ → Ports, (∀ u, (inp u).resetN = true) →
      (∀ t, (run inp t).irqStatus.getLsbD 0 = true ↔ DocumentedPio inp t) ∧
        ((∀ u, (inp u).writes 0 = false) → ∀ t, (run inp t).irqStatus.getLsbD 0 = false) := by
  intro h
  have hzero := (h (fun _ => Ports.silent) fun _ => rfl).2 (fun _ => rfl) 2
  have hone : (run (fun _ => Ports.silent) 2).irqStatus.getLsbD 0 = true :=
    (pioPending_iff (fun _ => rfl) 2).mpr ⟨1, rfl, by decide, fun u h1 h2 => by omega⟩
  rw [hone] at hzero
  cases hzero

def documentedIrq (s : State) : Bool :=
  s.irqEn.getLsbD 0 && s.irqStatus.getLsbD 0 || s.irqEn.getLsbD 1 && s.irqStatus.getLsbD 1

/-- The output is as documented in a cycle exactly when an enabled source is live, the
pulse by its phase and the external one by its level, if and only if an enabled source
has an edge that was latched and not cleared since. -/
theorem irq_documented_iff (inp : ℕ → Ports) (hn : ∀ u, (inp u).resetN = true) (t : ℕ) :
    irq (run inp t) (inp t) = documentedIrq (run inp t) ↔
      (((run inp t).irqEn.getLsbD 0 = true ∧ pulseHigh t ∨
          (run inp t).irqEn.getLsbD 1 = true ∧ (inp t).irqIn = true) ↔
        ((run inp t).irqEn.getLsbD 0 = true ∧ PulsePending inp t ∨
          (run inp t).irqEn.getLsbD 1 = true ∧ ExtPending inp t)) := by
  have hlive : irq (run inp t) (inp t) = true ↔
      (run inp t).irqEn.getLsbD 0 = true ∧ pulseHigh t ∨
        (run inp t).irqEn.getLsbD 1 = true ∧ (inp t).irqIn = true := by
    simp only [irq, Bool.or_eq_true, Bool.and_eq_true, pg_pulseOut hn, decide_eq_true_eq]
  have hdoc : documentedIrq (run inp t) = true ↔
      (run inp t).irqEn.getLsbD 0 = true ∧ PulsePending inp t ∨
        (run inp t).irqEn.getLsbD 1 = true ∧ ExtPending inp t := by
    simp only [documentedIrq, Bool.or_eq_true, Bool.and_eq_true, pioPending_iff hn,
      extPending_iff hn]
    rfl
  rw [← hlive, ← hdoc, Bool.eq_iff_iff]

/-- IRQ_EN = 1 is written in cycle 0. -/
def enablePorts (t : ℕ) : Ports :=
  { Ports.silent with
    s0Address := 1, s0Write := t == 0, s0Chipselect := t == 0, s0Writedata := 1
    s0Byteenable := 0xF }

/-- IRQ_EN = 3 is written in cycle 0, `irq_in` rises in cycle 4, and STATUS bit 0 is
cleared in cycle 5. -/
def eventPorts (t : ℕ) : Ports :=
  { Ports.silent with
    s0Address := if t = 0 then 1 else 2, s0Write := t == 0 || t == 5, s0Chipselect := true
    s0Writedata := if t = 0 then 3 else 1, s0Byteenable := 0xF
    irqIn := decide (4 ≤ t ∧ t < 8) }

/-- In cycle 10 the pulse was cleared and the external edge is pending. -/
theorem irq_documented_cleared :
    (irq (run eventPorts 10) (eventPorts 10) = documentedIrq (run eventPorts 10) ↔
        (((run eventPorts 10).irqEn.getLsbD 0 = true ∧ pulseHigh 10 ∨
            (run eventPorts 10).irqEn.getLsbD 1 = true ∧ (eventPorts 10).irqIn = true) ↔
          ((run eventPorts 10).irqEn.getLsbD 0 = true ∧ PulsePending eventPorts 10 ∨
            (run eventPorts 10).irqEn.getLsbD 1 = true ∧ ExtPending eventPorts 10))) ∧
      ¬PulsePending eventPorts 10 ∧ ExtPending eventPorts 10 := by
  refine ⟨irq_documented_iff eventPorts (fun _ => rfl) 10, ?_, ?_⟩
  · rintro ⟨e, hphase, hlt, hclr⟩
    obtain rfl : e = 1 := by simp only [periodCycles] at hphase; omega
    exact absurd (hclr 5 (by decide) (by decide)) (by decide)
  · refine ⟨4, ⟨rfl, fun u hu => ?_⟩, by decide, fun u h1 h2 => ?_⟩
    · obtain rfl : u = 3 := by omega
      rfl
    · obtain rfl | rfl | rfl : u = 7 ∨ u = 8 ∨ u = 9 := by omega
      all_goals rfl

/-- In cycle 1 the output is the pulse, which is latched one cycle later. -/
theorem irq_not_documented :
    ¬∀ inp : ℕ → Ports, (∀ u, (inp u).resetN = true) →
      ∀ t, irq (run inp t) (inp t) = documentedIrq (run inp t) := by
  intro h
  have heq := h enablePorts (fun _ => rfl) 1
  have hpending : (run enablePorts 1).irqStatus.getLsbD 0 = false := by
    rw [Bool.eq_false_iff, ne_eq, pioPending_iff fun _ => rfl]
    rintro ⟨e, he, hlt, -⟩
    obtain rfl : e = 0 := by omega
    cases he
  have henable : (run enablePorts 1).irqEn = 1 :=
    (irqEn_step (s := .initial) (i := enablePorts 0) rfl).trans (by decide)
  have hpulse : (run enablePorts 1).pg.pulseOut = true :=
    (pg_pulseOut (fun _ => rfl) 1).trans (by decide)
  rw [irq, documentedIrq, henable, hpending, hpulse] at heq
  exact absurd heq (by decide)

end AlteraWorkshops.ImageSource
