import AlteraWorkshops.OneAi.Interface
import Mathlib.Tactic

/-! What one clock edge can do to the pixel reader, said once. Facts about the
reader over whole runs are case analyses on `PixelEdge`. -/

namespace AlteraWorkshops.OneAi

open Clocked

@[simp] theorem step_pixel (g : Generics) (s : State) (i : Ports) :
    (step g s i).pixel = pixelProcess g s i := rfl

theorem run_succ (g : Generics) (inp : ℕ → Ports) (t : ℕ) :
    run g inp (t + 1) = step g (run g inp t) (inp t) := rfl

/-- Everything one edge can do to the pixel reader, by the case that decides it. -/
inductive PixelEdge (g : Generics) (s : State) (i : Ports) : PixelRegs → Prop
  | reset (hn : i.resetN = false) : PixelEdge g s i .initial
  | idle (hs : s.pixel.state = .idleState) (hf : s.irq.newFrameAvailable = false) :
    PixelEdge g s i { s.pixel with pixelValid := false }
  | start (hs : s.pixel.state = .idleState) (hf : s.irq.newFrameAvailable = true) :
    PixelEdge g s i { s.pixel with
      pixelValid := false, pixelAddr := 0, cycleCounter := 0, cacheState := 0
      wordAddr := g.bufferBaseAddr, avmAddress := g.bufferBaseAddr
      avmRead := true, state := .readWordState }
  | wait (hs : s.pixel.state = .readWordState) (hr : s.pixel.avmRead = true)
    (hw : i.avmWaitrequest = true) : PixelEdge g s i { s.pixel with pixelValid := false }
  | accept (hs : s.pixel.state = .readWordState) (hr : s.pixel.avmRead = true)
    (hw : i.avmWaitrequest = false) :
    PixelEdge g s i { s.pixel with
      pixelValid := false, avmRead := false, currentWord := i.avmReaddata }
  | leave (hs : s.pixel.state = .readWordState) (hr : s.pixel.avmRead = false)
    (hw : i.avmWaitrequest = true) :
    PixelEdge g s i { s.pixel with pixelValid := false, state := .extractPixelState }
  | recapture (hs : s.pixel.state = .readWordState) (hr : s.pixel.avmRead = false)
    (hw : i.avmWaitrequest = false) :
    PixelEdge g s i { s.pixel with
      pixelValid := false, avmRead := false, currentWord := i.avmReaddata
      state := .extractPixelState }
  | extract (hs : s.pixel.state = .extractPixelState) :
    PixelEdge g s i { extractBytes { s.pixel with pixelValid := false } with
      pixelColumn := s.pixel.pixelAddr.toNat % frameWidth
      pixelRow := s.pixel.pixelAddr.toNat / frameWidth
      cycleCounter := 0, state := .pixelDelayState }
  | delay (hs : s.pixel.state = .pixelDelayState)
    (hc : s.pixel.cycleCounter < pixelDelayCycles) :
    PixelEdge g s i { s.pixel with
      pixelValid := false, cycleCounter := s.pixel.cycleCounter + 1 }
  | emitLast (hs : s.pixel.state = .pixelDelayState)
    (hc : pixelDelayCycles ≤ s.pixel.cycleCounter) (ha : s.pixel.pixelAddr = lastPixel) :
    PixelEdge g s i { s.pixel with
      pixelR := s.pixel.pixelRReg.toNat / 2, pixelG := s.pixel.pixelGReg.toNat / 2
      pixelB := s.pixel.pixelBReg.toNat / 2, pixelValid := true, state := .idleState }
  | emitCached (hs : s.pixel.state = .pixelDelayState)
    (hc : pixelDelayCycles ≤ s.pixel.cycleCounter) (ha : s.pixel.pixelAddr ≠ lastPixel)
    (h3 : s.pixel.cacheState = 3) :
    PixelEdge g s i { s.pixel with
      pixelR := s.pixel.pixelRReg.toNat / 2, pixelG := s.pixel.pixelGReg.toNat / 2
      pixelB := s.pixel.pixelBReg.toNat / 2, pixelValid := true
      pixelAddr := s.pixel.pixelAddr + 1, state := .extractPixelState }
  | emitRead (hs : s.pixel.state = .pixelDelayState)
    (hc : pixelDelayCycles ≤ s.pixel.cycleCounter) (ha : s.pixel.pixelAddr ≠ lastPixel)
    (h3 : s.pixel.cacheState ≠ 3) :
    PixelEdge g s i { s.pixel with
      pixelR := s.pixel.pixelRReg.toNat / 2, pixelG := s.pixel.pixelGReg.toNat / 2
      pixelB := s.pixel.pixelBReg.toNat / 2, pixelValid := true
      pixelAddr := s.pixel.pixelAddr + 1, wordAddr := s.pixel.wordAddr + 4
      avmAddress := s.pixel.wordAddr + 4, avmRead := true, state := .readWordState }

theorem pixelProcess_edge (g : Generics) (s : State) (i : Ports) :
    PixelEdge g s i (pixelProcess g s i) := by
  unfold pixelProcess
  cases hn : i.resetN with
  | false => simpa using PixelEdge.reset hn
  | true =>
    simp only [Bool.not_true, Bool.false_eq_true, ↓reduceIte]
    cases hs : s.pixel.state with
    | idleState =>
      dsimp only
      split_ifs with hf
      · simpa only [hs] using PixelEdge.start (g := g) (i := i) hs hf
      · simpa only [hs] using PixelEdge.idle (g := g) (i := i) hs (Bool.eq_false_of_not_eq_true hf)
    | readWordState =>
      cases hr : s.pixel.avmRead <;> cases hw : i.avmWaitrequest <;>
        simp only [Bool.not_true, Bool.not_false, Bool.false_eq_true, ↓reduceIte]
      · simpa only [hs, hr] using PixelEdge.recapture (g := g) hs hr hw
      · simpa only [hs, hr] using PixelEdge.leave (g := g) hs hr hw
      · simpa only [hs, hr] using PixelEdge.accept (g := g) hs hr hw
      · simpa only [hs, hr] using PixelEdge.wait (g := g) hs hr hw
    | extractPixelState =>
      simpa only [hs] using PixelEdge.extract (g := g) (i := i) hs
    | pixelDelayState =>
      dsimp only
      split_ifs with hc ha h3
      · simpa only [hs] using PixelEdge.emitLast (g := g) (i := i) hs hc ha
      · simpa only [hs] using PixelEdge.emitCached (g := g) (i := i) hs hc ha h3
      · simpa only [hs] using PixelEdge.emitRead (g := g) (i := i) hs hc ha h3
      · simpa only [hs] using PixelEdge.delay (g := g) (i := i) hs (Nat.lt_of_not_le hc)

/-- What every edge keeps holds of the pixel reader in every cycle. -/
theorem pixel_invariant {g : Generics} {inp : ℕ → Ports} {P : PixelRegs → Prop}
    (hinit : P .initial) (hedge : ∀ s i r, PixelEdge g s i r → P s.pixel → P r) (t : ℕ) :
    P (run g inp t).pixel :=
  trace_invariant (P := fun s : State => P s.pixel) hinit
    (fun _ ih => hedge _ _ _ (pixelProcess_edge g _ _) ih) t

theorem extractBytes_frame (r : PixelRegs) :
    (extractBytes r).avmRead = r.avmRead ∧ (extractBytes r).pixelAddr = r.pixelAddr ∧
      (extractBytes r).wordAddr = r.wordAddr ∧ (extractBytes r).pixelValid = r.pixelValid := by
  unfold extractBytes
  split <;> exact ⟨rfl, rfl, rfl, rfl⟩

/-- The slave accepts the master's read in this cycle. -/
def accepts (s : State) (i : Ports) : Bool := s.pixel.avmRead && !i.avmWaitrequest

/-- The master only reads in the read state. -/
theorem avmRead_state (g : Generics) (inp : ℕ → Ports) (t : ℕ)
    (h : (run g inp t).pixel.avmRead = true) : (run g inp t).pixel.state = .readWordState := by
  revert h
  refine pixel_invariant (P := fun r => r.avmRead = true → r.state = .readWordState)
    (by simp [PixelRegs.initial]) (fun s i r he ih => ?_) t
  cases he with
  | reset | accept | recapture => intro h; cases h
  | idle hs | leave hs hr => intro h; simp_all
  | wait hs => exact fun _ => hs
  | start | emitRead => exact fun _ => rfl
  | extract hs =>
    intro h
    dsimp only at h
    rw [(extractBytes_frame _).1] at h
    have hr := ih h
    rw [hs] at hr
    cases hr
  | delay hs | emitLast hs | emitCached hs =>
    intro h
    have hr := ih h
    rw [hs] at hr
    cases hr

end AlteraWorkshops.OneAi
