import AlteraWorkshops.OneAi.PixelEdge

/-! How far apart the pixels of a frame come, whatever the memory answers and when. The
delay of a pixel starts at its extraction, so the time between two pulses is that of the
delay and of what goes before it: nothing for a pixel whose bytes are all cached, and the
read of a word for every other one. -/

namespace AlteraWorkshops.OneAi

open Clocked

variable {g : Generics} {inp : ℕ → Ports} {s : State} {i : Ports} {a c t u u' : ℕ}

/-- Two pulses of one frame with no pulse between them. -/
structure NextPulse (g : Generics) (inp : ℕ → Ports) (u u' : ℕ) : Prop where
  lt : u < u'
  first : (run g inp u).pixel.pixelValid = true
  next : (run g inp u').pixel.pixelValid = true
  none : ∀ t, u < t → t < u' → (run g inp t).pixel.pixelValid = false
  frame : ∀ t, u ≤ t → t < u' → (run g inp t).pixel.state ≠ .idleState

theorem run_pixel_succ (g : Generics) (inp : ℕ → Ports) (t : ℕ) :
    (run g inp (t + 1)).pixel = pixelProcess g (run g inp t) (inp t) := rfl

/-- A cycle without a pulse is not the one of the later pulse. -/
theorem NextPulse.lt_of_silent (h : NextPulse g inp u u') (htu : t ≤ u')
    (hsilent : (run g inp t).pixel.pixelValid = false) : t < u' := by
  apply lt_of_le_of_ne htu
  rintro rfl
  rw [h.next] at hsilent
  cases hsilent

/-- A reset ends the frame, and no pulse comes with it. -/
theorem NextPulse.resetN (h : NextPulse g inp u u') (hut : u ≤ t) (htu : t < u') :
    (inp t).resetN = true := by
  by_contra hn
  have hreset : (run g inp (t + 1)).pixel = .initial := by
    rw [run_pixel_succ]
    simp [pixelProcess, hn]
  have hlt : t + 1 < u' := h.lt_of_silent htu (by rw [hreset]; rfl)
  exact h.frame (t + 1) (by omega) hlt (by rw [hreset]; rfl)

/-! ### The pixel number and the cache -/

/-- The cache phase follows the pixel number, and is one ahead of it from the extraction to
the pulse. -/
def InPhase (r : PixelRegs) : Prop :=
  match r.state with
  | .idleState => True
  | .readWordState | .extractPixelState => r.cacheState = r.pixelAddr.setWidth 2
  | .pixelDelayState => r.cacheState = (r.pixelAddr + 1).setWidth 2

theorem extractBytes_cacheState (r : PixelRegs) :
    (extractBytes r).cacheState = r.cacheState + 1 := by
  unfold extractBytes
  split <;> simp_all

theorem setWidth_succ (x : BitVec 14) : (x + 1).setWidth 2 = x.setWidth 2 + 1 := by
  rw [BitVec.setWidth_add _ _ (by decide)]
  rfl

theorem inPhase_run (g : Generics) (inp : ℕ → Ports) (t : ℕ) : InPhase (run g inp t).pixel := by
  refine pixel_invariant (P := InPhase) trivial (fun s i r he ih => ?_) t
  cases he with
  | reset | emitLast => trivial
  | start => rfl
  | idle hs =>
    unfold InPhase
    simp only [hs]
  | wait hs | accept hs | leave hs | recapture hs =>
    simp only [InPhase, hs] at ih ⊢
    exact ih
  | extract hs =>
    simp only [InPhase, hs] at ih ⊢
    rw [extractBytes_cacheState, (extractBytes_frame _).2.1, setWidth_succ]
    exact congrArg (· + 1) ih
  | delay hs | emitCached hs | emitRead hs =>
    simp only [InPhase, hs] at ih ⊢
    exact ih

theorem cacheState_eq_three_iff {r : PixelRegs} (h : r.cacheState = r.pixelAddr.setWidth 2) :
    r.cacheState = 3 ↔ r.pixelAddr.toNat % 4 = 3 := by
  rw [h, ← BitVec.toNat_inj, BitVec.toNat_setWidth]
  rfl

/-- Behind a pulse that does not end the frame, the next pixel is extracted at once if its
bytes are cached, and its word is requested if they are not. -/
theorem pulse_next_state (hvalid : (run g inp t).pixel.pixelValid = true)
    (hbusy : (run g inp t).pixel.state ≠ .idleState) :
    (run g inp t).pixel.state = .extractPixelState ∧
        (run g inp t).pixel.pixelAddr.toNat % 4 = 3 ∨
      (run g inp t).pixel.state = .readWordState ∧ (run g inp t).pixel.avmRead = true ∧
        (run g inp t).pixel.pixelAddr.toNat % 4 ≠ 3 := by
  have hphase := inPhase_run g inp t
  cases t with
  | zero => cases hvalid
  | succ t =>
    have he := pixelProcess_edge g (run g inp t) (inp t)
    rw [← run_pixel_succ] at he
    generalize (run g inp (t + 1)).pixel = r at he hvalid hbusy hphase
    have hold : ∀ r' : PixelRegs, (extractBytes r').pixelValid = r'.pixelValid :=
      fun r' => (extractBytes_frame r').2.2.2
    cases he with
    | reset | emitLast => exact absurd rfl hbusy
    | idle | start | wait | accept | leave | recapture | delay => cases hvalid
    | extract => rw [hold] at hvalid; cases hvalid
    | emitCached _ _ _ h3 =>
      exact .inl ⟨rfl, (cacheState_eq_three_iff hphase).mp h3⟩
    | emitRead _ _ _ h3 =>
      exact .inr ⟨rfl, rfl, mt (cacheState_eq_three_iff hphase).mpr h3⟩

/-! ### Edges on the way to a pulse -/

theorem wait_next (hn : i.resetN = true) (hs : s.pixel.state = .readWordState)
    (hr : s.pixel.avmRead = true) (hw : i.avmWaitrequest = true) :
    pixelProcess g s i = { s.pixel with pixelValid := false } := by
  simp [pixelProcess, hn, hs, hr, hw]

theorem accept_pixel (hn : i.resetN = true) (hs : s.pixel.state = .readWordState)
    (hr : s.pixel.avmRead = true) (hw : i.avmWaitrequest = false) :
    pixelProcess g s i =
      { s.pixel with pixelValid := false, avmRead := false, currentWord := i.avmReaddata } := by
  simp [pixelProcess, hn, hs, hr, hw]

theorem withdrawn_pixel (hn : i.resetN = true) (hs : s.pixel.state = .readWordState)
    (hr : s.pixel.avmRead = false) :
    (pixelProcess g s i).state = .extractPixelState ∧
      (pixelProcess g s i).pixelAddr = s.pixel.pixelAddr ∧
      (pixelProcess g s i).pixelValid = false := by
  cases hw : i.avmWaitrequest <;> simp [pixelProcess, hn, hs, hr, hw]

theorem extract_next (hn : i.resetN = true) (hs : s.pixel.state = .extractPixelState) :
    (pixelProcess g s i).state = .pixelDelayState ∧ (pixelProcess g s i).cycleCounter = 0 ∧
      (pixelProcess g s i).pixelAddr = s.pixel.pixelAddr ∧
      (pixelProcess g s i).pixelValid = false := by
  simp [pixelProcess, hn, hs, extractBytes_frame]

theorem delay_next (hn : i.resetN = true) (hs : s.pixel.state = .pixelDelayState)
    (hc : s.pixel.cycleCounter < pixelDelayCycles) :
    pixelProcess g s i =
      { s.pixel with pixelValid := false, cycleCounter := s.pixel.cycleCounter + 1 } := by
  simp [pixelProcess, hn, hs, Nat.not_le.mpr hc]

/-- The end of the delay: a pulse, and the next pixel unless this one is the last. -/
theorem emit_next (hn : i.resetN = true) (hs : s.pixel.state = .pixelDelayState)
    (hc : s.pixel.cycleCounter = pixelDelayCycles) :
    (pixelProcess g s i).pixelValid = true ∧
      ((pixelProcess g s i).state ≠ .idleState ↔ s.pixel.pixelAddr ≠ lastPixel) ∧
      (s.pixel.pixelAddr ≠ lastPixel →
        (pixelProcess g s i).pixelAddr = s.pixel.pixelAddr + 1) := by
  simp only [pixelProcess, hn, hs, hc, le_refl, Bool.not_true, Bool.false_eq_true, ↓reduceIte]
  split_ifs with hlast hcached <;> simp [hlast]

/-! ### From the extraction to the pulse -/

/-- `c` cycles of the delay have passed since the extraction in cycle `a`. -/
theorem delay_run (hs : (run g inp a).pixel.state = .extractPixelState)
    (hc : c ≤ pixelDelayCycles) (hn : ∀ t, a ≤ t → t < a + 1 + c → (inp t).resetN = true) :
    (run g inp (a + 1 + c)).pixel.state = .pixelDelayState ∧
      (run g inp (a + 1 + c)).pixel.cycleCounter = c ∧
      (run g inp (a + 1 + c)).pixel.pixelAddr = (run g inp a).pixel.pixelAddr ∧
      (run g inp (a + 1 + c)).pixel.pixelValid = false := by
  induction c with
  | zero => exact extract_next (hn a le_rfl (by omega)) hs
  | succ c ih =>
    obtain ⟨hstate, hcount, haddr, -⟩ := ih (by omega) fun t hat htc => hn t hat (by omega)
    have hnext := delay_next (g := g) (hn (a + 1 + c) (by omega) (by omega)) hstate (by omega)
    have hpixel : (run g inp (a + 1 + (c + 1))).pixel = _ := hnext
    rw [hpixel]
    exact ⟨hstate, by rw [hcount], haddr, rfl⟩

/-- The pulse after an extraction in cycle `a`, if the frame goes on until then. -/
theorem pulse_of_extract (hs : (run g inp a).pixel.state = .extractPixelState)
    (hn : ∀ t, a ≤ t → t < a + 109 → (inp t).resetN = true) :
    (∀ t, a < t → t < a + 109 → (run g inp t).pixel.pixelValid = false ∧
      (run g inp t).pixel.state = .pixelDelayState) ∧
      (run g inp (a + 109)).pixel.pixelValid = true ∧
      ((run g inp (a + 109)).pixel.state ≠ .idleState ↔
        (run g inp a).pixel.pixelAddr ≠ lastPixel) ∧
      ((run g inp a).pixel.pixelAddr ≠ lastPixel →
        (run g inp (a + 109)).pixel.pixelAddr = (run g inp a).pixel.pixelAddr + 1) := by
  constructor
  · intro t hat hta
    have h := delay_run (c := t - (a + 1)) hs (by unfold pixelDelayCycles; omega)
      fun u hau hut => hn u hau (by omega)
    rw [show a + 1 + (t - (a + 1)) = t by omega] at h
    exact ⟨h.2.2.2, h.1⟩
  · obtain ⟨hstate, hcount, haddr, -⟩ := delay_run (c := pixelDelayCycles) hs le_rfl
      fun t hat hta => hn t hat (by unfold pixelDelayCycles at hta; omega)
    rw [← haddr]
    exact emit_next (hn (a + 108) (by omega) (by omega)) hstate hcount

/-! ### From one pulse to the next -/

/-- A pending request stands until it is accepted, without a pulse. -/
theorem wait_run (hs : (run g inp u).pixel.state = .readWordState)
    (hr : (run g inp u).pixel.avmRead = true) (hut : u ≤ t)
    (hn : ∀ v, u ≤ v → v < t → (inp v).resetN = true)
    (hw : ∀ v, u ≤ v → v < t → (inp v).avmWaitrequest = true) :
    (run g inp t).pixel.state = .readWordState ∧ (run g inp t).pixel.avmRead = true ∧
      (run g inp t).pixel.pixelAddr = (run g inp u).pixel.pixelAddr ∧
      (u < t → (run g inp t).pixel.pixelValid = false) := by
  induction t, hut using Nat.le_induction with
  | base => exact ⟨hs, hr, rfl, fun h => absurd h (lt_irrefl u)⟩
  | succ t hut ih =>
    obtain ⟨hstate, hread, haddr, -⟩ :=
      ih (fun v huv hvt => hn v huv (by omega)) fun v huv hvt => hw v huv (by omega)
    rw [run_pixel_succ, wait_next (hn t hut (by omega)) hstate hread (hw t hut (by omega))]
    exact ⟨hstate, hread, haddr, fun _ => rfl⟩

/-- Two pulses that are both the first one after `a` are the same. -/
theorem NextPulse.eq_of_pulse (h : NextPulse g inp u u') (hua : u ≤ a) (hau : a < u')
    (hs : (run g inp a).pixel.state = .extractPixelState) :
    u' = a + 109 ∧ ((run g inp u').pixel.state ≠ .idleState →
      (run g inp u').pixel.pixelAddr = (run g inp a).pixel.pixelAddr + 1) := by
  have hbefore : a + 109 ≤ u' := by
    by_contra hlt
    have hrun := delay_run (c := u' - (a + 1)) hs (by unfold pixelDelayCycles; omega)
      fun t hat htu => h.resetN (by omega) (by omega)
    rw [show a + 1 + (u' - (a + 1)) = u' by omega] at hrun
    exact (h.lt_of_silent le_rfl hrun.2.2.2).false
  obtain ⟨-, hvalid, hbusy, haddr⟩ :=
    pulse_of_extract hs fun t hat hta => h.resetN (by omega) (by omega)
  have heq : u' = a + 109 := by
    by_contra hne
    have hnone := h.none (a + 109) (by omega) (by omega)
    rw [hvalid] at hnone
    cases hnone
  rw [heq]
  exact ⟨rfl, fun hne => haddr (hbusy.mp hne)⟩

/-- The extraction between two pulses: at the first one if the next pixel is cached, and two
cycles after the read is accepted if not. -/
theorem NextPulse.exists_extract (h : NextPulse g inp u u') :
    ∃ a, u ≤ a ∧ a < u' ∧ (run g inp a).pixel.state = .extractPixelState ∧
      (run g inp a).pixel.pixelAddr = (run g inp u).pixel.pixelAddr ∧
      ((run g inp u).pixel.pixelAddr.toNat % 4 = 3 → a = u) ∧
      ((run g inp u).pixel.pixelAddr.toNat % 4 ≠ 3 →
        u + 2 ≤ a ∧ (a = u + 2 ↔ (inp u).avmWaitrequest = false)) := by
  rcases pulse_next_state h.first (h.frame u le_rfl h.lt) with ⟨hs, hphase⟩ | ⟨hs, hr, hphase⟩
  · exact ⟨u, le_rfl, h.lt, hs, rfl, fun _ => rfl, fun hne => absurd hphase hne⟩
  · have hno (hall : ∀ v, u ≤ v → v < u' → (inp v).avmWaitrequest = true) : False := by
      obtain ⟨-, -, -, hsilent⟩ := wait_run hs hr h.lt.le (fun v huv hvu => h.resetN huv hvu) hall
      exact (h.lt_of_silent le_rfl (hsilent h.lt)).false
    have haccepted : ∃ v, u ≤ v ∧ (v < u' ∧ (inp v).avmWaitrequest = false) := by
      by_contra hnone
      apply hno
      intro v huv hvu
      by_contra hw
      exact hnone ⟨v, huv, hvu, Bool.eq_false_of_not_eq_true hw⟩
    obtain ⟨v, huv, ⟨hvu, hw⟩, hfirst⟩ := exists_first haccepted
    have hwait : ∀ t, u ≤ t → t < v → (inp t).avmWaitrequest = true := fun t hut htv => by
      simpa [htv.trans hvu] using hfirst t hut htv
    obtain ⟨hsv, hrv, haddr, -⟩ := wait_run hs hr huv
      (fun t hut htv => h.resetN hut (htv.trans hvu)) hwait
    have hpixel : (run g inp (v + 1)).pixel = _ :=
      accept_pixel (g := g) (h.resetN huv hvu) hsv hrv hw
    have hone : v + 1 < u' := h.lt_of_silent hvu (by rw [hpixel])
    obtain ⟨hsx, haddrx, hvalidx⟩ := withdrawn_pixel (g := g) (s := run g inp (v + 1))
      (h.resetN (by omega) hone) (by rw [hpixel]; exact hsv) (by rw [hpixel])
    have htwo : v + 2 < u' := h.lt_of_silent hone hvalidx
    refine ⟨v + 2, by omega, htwo, hsx, ?_, fun h3 => absurd h3 hphase, fun _ => ⟨by omega, ?_⟩⟩
    · exact haddrx.trans ((congrArg PixelRegs.pixelAddr hpixel).trans haddr)
    · constructor
      · intro heq
        rwa [show v = u by omega] at hw
      · intro hfree
        by_contra hne
        exact absurd ((hwait u le_rfl (by omega)).symm.trans hfree) (by decide)

/-- Between two pulses of a frame go 109 cycles when the next pixel is cached, 111 when its
word is accepted at once, and more when its read has to wait. -/
theorem NextPulse.distance (h : NextPulse g inp u u') :
    ((run g inp u).pixel.pixelAddr.toNat % 4 = 3 → u' = u + 109) ∧
      ((run g inp u).pixel.pixelAddr.toNat % 4 ≠ 3 →
        u + 111 ≤ u' ∧ (u' = u + 111 ↔ (inp u).avmWaitrequest = false)) ∧
      ((run g inp u').pixel.state ≠ .idleState →
        (run g inp u').pixel.pixelAddr = (run g inp u).pixel.pixelAddr + 1) := by
  obtain ⟨a, hua, hau, hs, haddr, hcached, hread⟩ := h.exists_extract
  obtain ⟨rfl, hnext⟩ := h.eq_of_pulse hua hau hs
  refine ⟨fun h3 => by rw [hcached h3], fun h3 => ?_, fun hbusy => by rw [hnext hbusy, haddr]⟩
  obtain ⟨hle, hiff⟩ := hread h3
  refine ⟨by omega, ?_⟩
  rw [← hiff]
  omega

/-- Two pulses of a frame are the promised 112 cycles apart exactly when the later pixel
needs a word, so is not the last of four, and the read of that word has to wait. -/
theorem pixel_spacing_iff (h : NextPulse g inp u u') :
    112 ≤ u' - u ↔
      (run g inp u).pixel.pixelAddr.toNat % 4 ≠ 3 ∧ (inp u).avmWaitrequest = true := by
  obtain ⟨hcached, hread, -⟩ := h.distance
  have hlt := h.lt
  by_cases h3 : (run g inp u).pixel.pixelAddr.toNat % 4 = 3
  · have heq := hcached h3
    simp only [h3, ne_eq, not_true_eq_false, false_and, iff_false]
    omega
  · obtain ⟨hle, hiff⟩ := hread h3
    have hwait : (inp u).avmWaitrequest = true ↔ u' ≠ u + 111 := by
      rw [ne_eq, hiff, Bool.not_eq_false]
    rw [hwait]
    omega

/-- No frame keeps the promise: among any five pulses in a row two are 109 cycles apart. -/
theorem exists_short_spacing {p : ℕ → ℕ} (h : ∀ n < 4, NextPulse g inp (p n) (p (n + 1))) :
    ∃ n < 4, p (n + 1) = p n + 109 := by
  have haddr : ∀ n < 4, (run g inp (p n)).pixel.pixelAddr =
      (run g inp (p 0)).pixel.pixelAddr + BitVec.ofNat 14 n := by
    intro n
    induction n with
    | zero => simp
    | succ n ih =>
      intro hn
      rw [(h n (by omega)).distance.2.2 ((h (n + 1) hn).frame _ le_rfl (h (n + 1) hn).lt),
        ih (by omega), BitVec.ofNat_add, ← BitVec.add_assoc]
      rfl
  obtain ⟨n, hn, hphase⟩ : ∃ n < 4, ((run g inp (p 0)).pixel.pixelAddr.toNat + n) % 4 = 3 :=
    ⟨3 - (run g inp (p 0)).pixel.pixelAddr.toNat % 4, by omega, by omega⟩
  refine ⟨n, hn, (h n hn).distance.1 ?_⟩
  rw [haddr n hn, BitVec.toNat_add, BitVec.toNat_ofNat]
  omega

/-! ### A memory that never waits -/

/-- A pulse whose next pixel needs a word that is there at once. -/
theorem nextPulse_of_free (hvalid : (run g inp u).pixel.pixelValid = true)
    (hbusy : (run g inp u).pixel.state ≠ .idleState)
    (hphase : (run g inp u).pixel.pixelAddr.toNat % 4 ≠ 3)
    (hn : ∀ t, u ≤ t → (inp t).resetN = true) (hw : (inp u).avmWaitrequest = false) :
    NextPulse g inp u (u + 111) := by
  obtain ⟨hs, hr, -⟩ := (pulse_next_state hvalid hbusy).resolve_left fun h => hphase h.2
  have hpixel : (run g inp (u + 1)).pixel = _ := accept_pixel (g := g) (hn u le_rfl) hs hr hw
  obtain ⟨hsx, -, hvalidx⟩ := withdrawn_pixel (g := g) (s := run g inp (u + 1))
    (hn (u + 1) (by omega)) (by rw [hpixel]; exact hs) (by rw [hpixel])
  obtain ⟨hbetween, hnext, -⟩ := pulse_of_extract (a := u + 2) hsx fun t hat _ => hn t (by omega)
  refine ⟨by omega, hvalid, hnext, fun t hut htu => ?_, fun t hut htu => ?_⟩
  · rcases (show t = u + 1 ∨ t = u + 2 ∨ u + 2 < t by omega) with rfl | rfl | hlt
    · rw [hpixel]
    · exact hvalidx
    · exact (hbetween t hlt (by omega)).1
  · rcases (show t = u ∨ t = u + 1 ∨ t = u + 2 ∨ u + 2 < t by omega) with rfl | rfl | rfl | hlt
    · exact hbusy
    · rw [hpixel]
      exact fun hidle => absurd (hs.symm.trans hidle) (by decide)
    · exact fun hidle => absurd (hsx.symm.trans hidle) (by decide)
    · exact fun hidle => absurd ((hbetween t hlt (by omega)).2.symm.trans hidle) (by decide)

/-- One trigger in cycle 0, and a memory that answers at once. -/
def freePorts (t : ℕ) : Ports := { Ports.silent with frameWriterIrq := t == 0 }

theorem nextPulse_free (g : Generics) : NextPulse g freePorts 113 224 := by
  have hextract : (run g freePorts 4).pixel.state = .extractPixelState := rfl
  have hfirst : (run g freePorts 4).pixel.pixelAddr = 0 := rfl
  have hn : ∀ t, (freePorts t).resetN = true := fun t => rfl
  obtain ⟨-, hvalid, hbusy, haddr⟩ := pulse_of_extract hextract fun t _ _ => hn t
  have hlast : (run g freePorts 4).pixel.pixelAddr ≠ lastPixel := by
    rw [hfirst]
    decide
  refine nextPulse_of_free hvalid (hbusy.mpr hlast) ?_ (fun t _ => hn t) rfl
  rw [haddr hlast, hfirst]
  decide

theorem pixel_spacing_iff_free :
    112 ≤ 224 - 113 ↔
      (run ⟨0x80000, fun _ => 0⟩ freePorts 113).pixel.pixelAddr.toNat % 4 ≠ 3 ∧
        (freePorts 113).avmWaitrequest = true :=
  pixel_spacing_iff (nextPulse_free _)

/-- The first two pixels are 111 cycles apart. -/
theorem pixel_spacing_short :
    ¬∀ (g : Generics) (inp : ℕ → Ports) (u u' : ℕ), NextPulse g inp u u' → 112 ≤ u' - u :=
  fun h => absurd (h ⟨0x80000, fun _ => 0⟩ freePorts 113 224 (nextPulse_free _)) (by decide)

end AlteraWorkshops.OneAi
