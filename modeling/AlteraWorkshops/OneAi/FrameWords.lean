import AlteraWorkshops.OneAi.WordCapture
import AlteraWorkshops.OneAi.PixelPhases

/-! One frame of the pixel reader behind any slave that accepts every read: the reads
it issues, the pixels it emits, the words it takes for them and the time it needs. Legs
of a run, with the reads and pixels observed on the way, are composed from the edges
of one pixel. Nothing is assumed about the data bus: the pixels are those of the
buffer that the words taken make up. -/

namespace AlteraWorkshops.OneAi

open Clocked

/-! ### Legs of a run -/

section Run

variable (g : Generics) (buf : ℕ → BitVec 8) (s : ℕ → State) (inp : ℕ → Ports)

/-- The address of the read that the slave accepts in cycle `t`, if it does. -/
def acceptedRead (t : ℕ) : Option (BitVec 32) :=
  if accepts (s t) (inp t) then some (s t).pixel.avmAddress else none

def pulse (t : ℕ) : Option Pixel :=
  if (s (t + 1)).pixel.pixelValid then some (s (t + 1)).pixel.output else none

/-- A stretch of a run inside one frame, with the reads accepted and the pixels
emitted on the way. -/
structure Leg (a b : ℕ) (reads : List (BitVec 32)) (pixels : List Pixel) : Prop where
  reads : Observed (acceptedRead s inp) a b reads
  pixels : Observed (pulse s) a b pixels
  busy : ∀ t, a < t → t ≤ b → (s t).pixel.state ≠ .idleState

/-- The first `n` words of `buf` are what the extraction took for the reads accepted
between the cycles `a` and `b`, two cycles after each acceptance. -/
def Words (a b n : ℕ) : Prop :=
  ∀ j < n, ∃ t, a ≤ t ∧ t + 2 ≤ b ∧ accepts (s t) (inp t) = true ∧
    (s t).pixel.avmAddress = wordAddress g j ∧ bufferWord buf j = (s (t + 2)).pixel.currentWord

/-- From cycle `t₀` on the reader is out of reset and every read is accepted, within
`W` wait cycles if `W` is given. -/
structure Accepting (W : Option ℕ) (t₀ : ℕ) : Prop where
  resetN : ∀ t, t₀ ≤ t → (inp t).resetN = true
  accepts : ∀ t, t₀ ≤ t → (s t).pixel.avmRead = true →
    ∃ u, t ≤ u ∧ (inp u).avmWaitrequest = false ∧ ∀ w ∈ W, u ≤ t + w

variable {g buf s inp} {W : Option ℕ} {a b c k t₀ : ℕ}

theorem Leg.refl (a : ℕ) : Leg s inp a a [] [] :=
  ⟨.refl _ a, .refl _ a, fun t h1 h2 => by omega⟩

theorem Leg.trans {l l' : List (BitVec 32)} {m m' : List Pixel} (h : Leg s inp a b l m)
    (h' : Leg s inp b c l' m') : Leg s inp a c (l ++ l') (m ++ m') := by
  refine ⟨h.reads.trans h'.reads, h.pixels.trans h'.pixels, fun t h1 h2 => ?_⟩
  rcases le_or_gt t b with hb | hb
  · exact h.busy t h1 hb
  · exact h'.busy t hb h2

/-- One edge that emits no pixel and does not return to idle. -/
theorem Leg.edge {o : Option (BitVec 32)} (hr : acceptedRead s inp a = o)
    (hv : (s (a + 1)).pixel.pixelValid = false) (hb : (s (a + 1)).pixel.state ≠ .idleState) :
    Leg s inp a (a + 1) o.toList [] := by
  refine ⟨hr ▸ .step _ a, ?_, fun t h1 h2 => ?_⟩
  · simpa [pulse, hv] using Observed.step (pulse s) a
  · rwa [show t = a + 1 by omega]

theorem acceptedRead_eq_none (h : (s a).pixel.avmRead = false) : acceptedRead s inp a = none := by
  simp [acceptedRead, accepts, h]

theorem Words.mono {buf' : ℕ → BitVec 8} {a' b' n : ℕ} (h : Words g buf s inp a b n)
    (ha : a' ≤ a) (hb : b ≤ b') (hbuf : ∀ o < 4 * n, buf' o = buf o) :
    Words g buf' s inp a' b' n := by
  intro j hj
  obtain ⟨t, h1, h2, hacc, haddr, hword⟩ := h j hj
  exact ⟨t, by omega, by omega, hacc, haddr,
    (bufferWord_congr hbuf (by omega)).trans hword⟩

theorem Words.succ {n t : ℕ} (h : Words g buf s inp a b n) (ha : a ≤ t) (hb : t + 2 ≤ b)
    (hacc : accepts (s t) (inp t) = true) (haddr : (s t).pixel.avmAddress = wordAddress g n)
    (hword : bufferWord buf n = (s (t + 2)).pixel.currentWord) :
    Words g buf s inp a b (n + 1) := by
  intro j hj
  rcases Nat.lt_succ_iff_lt_or_eq.mp hj with hlt | rfl
  · exact h j hlt
  · exact ⟨t, ha, hb, hacc, haddr, hword⟩

theorem map_range_wordIndex (k : ℕ) :
    (List.range (wordIndex (k + 1) + 1)).map (wordAddress g) =
      (List.range (wordIndex k + 1)).map (wordAddress g) ++
        if (k + 1) % 4 = 3 then [] else [wordAddress g (wordIndex (k + 1))] := by
  rw [wordIndex_succ]
  split_ifs with h
  · simp
  · rw [List.range_succ, List.map_append]
    rfl

variable (hstep : ∀ t, s (t + 1) = step g (s t) (inp t)) (hm : Accepting s inp W t₀)
include hstep hm

/-- A pending read waits for its acceptance, whose word then reaches the extraction. -/
theorem read_leg (ht : t₀ ≤ a) (h3 : k % 4 ≠ 3) (h : Reading g buf k (s a).pixel) :
    ∃ u, a ≤ u ∧ (∀ w ∈ W, u ≤ a + w) ∧ accepts (s u) (inp u) = true ∧
      (s u).pixel.avmAddress = wordAddress g (wordIndex k) ∧
      Extracting g (setWord buf (wordIndex k) (s (u + 2)).pixel.currentWord) k
        (s (u + 2)).pixel ∧
      Leg s inp a (u + 2) [wordAddress g (wordIndex k)] [] := by
  obtain ⟨v, hav, hvacc, hbound⟩ := hm.accepts a ht h.read
  obtain ⟨u, hau, hacc, hfirst⟩ :=
    exists_first (P := fun u => (inp u).avmWaitrequest = false) ⟨v, hav, hvacc⟩
  have huv : u ≤ v := by
    by_contra hlt
    exact hfirst v hav (by omega) hvacc
  -- up to the first cycle without waitrequest the request stands
  have hwait : ∀ n, a + n ≤ u →
      Reading g buf k (s (a + n)).pixel ∧ Leg s inp a (a + n) [] [] := by
    intro n
    induction n with
    | zero => exact fun _ => ⟨h, .refl a⟩
    | succ n ih =>
      intro hn
      obtain ⟨hr, hl⟩ := ih (by omega)
      have hw : (inp (a + n)).avmWaitrequest = true := by
        simpa using hfirst (a + n) (by omega) (by omega)
      have he := wait_edge (g := g) (hm.resetN (a + n) (by omega)) hr hw
      have hs : (s (a + (n + 1))).pixel = pixelProcess g (s (a + n)) (inp (a + n)) := by
        rw [← add_assoc, hstep]
        rfl
      rw [hs]
      refine ⟨he.1, hl.trans (Leg.edge (o := none) (by simp [acceptedRead, accepts, hw]) ?_ ?_)⟩
      · exact (congrArg _ hs).trans he.2
      · exact (congrArg _ hs).trans he.1.state ▸ by decide
  obtain ⟨hr, hl⟩ := hwait (u - a) (by omega)
  rw [show a + (u - a) = u by omega] at hr hl
  have hs1 : (s (u + 1)).pixel = pixelProcess g (s u) (inp u) := by rw [hstep]; rfl
  have hs2 : (s (u + 2)).pixel = pixelProcess g (s (u + 1)) (inp (u + 1)) := by
    rw [hstep]; rfl
  -- the word on the bus is the buffer's word by definition
  have hr' : Reading g (setWord buf (wordIndex k) (inp u).avmReaddata) k (s u).pixel :=
    hr.congr h3 fun o ho => setWord_of_lt _ ho
  have he1 := accept_edge (g := g) (hm.resetN u (by omega)) hr' hacc
    (bufferWord_setWord_self ..).symm
  rw [← hs1] at he1
  have he2 := captured_edge (g := g) (hm.resetN (u + 1) (by omega)) h3 he1.1
  rw [← hs2] at he2
  have hacc1 : acceptedRead s inp u = some (wordAddress g (wordIndex k)) := by
    simp [acceptedRead, accepts, hr.read, hacc, hr.address]
  refine ⟨u, hau, fun w hw => huv.trans (hbound w hw), by simp [accepts, hr.read, hacc], hr.address,
    ?_, ?_⟩
  · rw [← setWord_setWord buf (wordIndex k) (inp u).avmReaddata]
    exact he2.1
  · simpa using (hl.trans (Leg.edge hacc1 he1.2 (by rw [he1.1.state]; decide))).trans
      (Leg.edge (acceptedRead_eq_none he1.1.read) he2.2 (by rw [he2.1.state]; decide))

/-- From extraction to the end of the delay: no read, no pulse. -/
theorem delay_leg (ht : t₀ ≤ a) (hk : k < frameSize) (h : Extracting g buf k (s a).pixel) :
    Delaying g buf k pixelDelayCycles (s (a + 1 + pixelDelayCycles)).pixel ∧
      Leg s inp a (a + 1 + pixelDelayCycles) [] [] := by
  have hs : ∀ t, (s (t + 1)).pixel = pixelProcess g (s t) (inp t) := fun t => by rw [hstep]; rfl
  have he := extract_edge (g := g) (hm.resetN a ht) hk h
  rw [← hs] at he
  have hx : Leg s inp a (a + 1) [] [] :=
    Leg.edge (acceptedRead_eq_none h.read) he.2 (by rw [he.1.state]; decide)
  have hwait : ∀ c, c ≤ pixelDelayCycles →
      Delaying g buf k c (s (a + 1 + c)).pixel ∧ Leg s inp a (a + 1 + c) [] [] := by
    intro c
    induction c with
    | zero => exact fun _ => ⟨he.1, hx⟩
    | succ c ih =>
      intro hc
      obtain ⟨hd, hl⟩ := ih (by omega)
      have hn := delay_edge (g := g) (hm.resetN (a + 1 + c) (by omega)) hd (by omega)
      rw [← hs] at hn
      exact ⟨hn.1, hl.trans (Leg.edge (acceptedRead_eq_none hd.read) hn.2
        (by rw [hn.1.state]; decide))⟩
  exact hwait pixelDelayCycles le_rfl

/-- The edge that ends the delay emits the pixel and accepts no read. -/
theorem emit_observed (ht : t₀ ≤ a) (hk : k < frameSize)
    (h : Delaying g buf k pixelDelayCycles (s a).pixel) :
    Observed (acceptedRead s inp) a (a + 1) [] ∧
      Observed (pulse s) a (a + 1) [framePixel buf k] := by
  have hs : (s (a + 1)).pixel = pixelProcess g (s a) (inp a) := by rw [hstep]; rfl
  obtain ⟨hv, ho, -⟩ := emit_edge (g := g) (hm.resetN a ht) h hk
  rw [← hs] at hv ho
  refine ⟨?_, ?_⟩
  · simpa [acceptedRead_eq_none h.read] using Observed.step (acceptedRead s inp) a
  · simpa [pulse, hv, ho] using Observed.step (pulse s) a

/-- Cycles from one extraction to the next, the read apart. -/
def pixelCycles : ℕ := pixelDelayCycles + 2

/-- What was observed from the trigger at `t₀` up to the extraction of pixel `k`. -/
structure Progress (g : Generics) (buf : ℕ → BitVec 8) (s : ℕ → State) (inp : ℕ → Ports)
    (W : Option ℕ) (a b k : ℕ) : Prop where
  extracting : Extracting g buf k (s b).pixel
  leg : Leg s inp a b ((List.range (wordIndex k + 1)).map (wordAddress g))
    ((List.range k).map (framePixel buf))
  words : Words g buf s inp a b (wordIndex k + 1)
  time : ∀ w ∈ W, b ≤ a + pixelCycles * k + (w + 2) * (wordIndex k + 1)

theorem Progress.first (ht : t₀ ≤ a) (h : Reading g buf 0 (s a).pixel) :
    ∃ buf' b, a < b ∧ Progress g buf' s inp W a b 0 := by
  obtain ⟨u, hau, hbound, hacc, haddr, hx, hl⟩ := read_leg hstep hm ht (by decide) h
  refine ⟨_, u + 2, by omega, hx, by simpa [wordIndex] using hl, ?_, fun w hw => ?_⟩
  · have hnone : Words g (setWord buf (wordIndex 0) (s (u + 2)).pixel.currentWord) s inp a (u + 2)
        0 := fun j hj => absurd hj (Nat.not_lt_zero j)
    exact hnone.succ hau le_rfl hacc haddr (bufferWord_setWord_self ..)
  · have hwait := hbound w hw
    have hword : (w + 2) * (wordIndex 0 + 1) = w + 2 := Nat.mul_one _
    omega

/-- From one extraction to the next: the pixel is emitted, and the next word is read
unless the cache already holds all of the next pixel. -/
theorem Progress.next (ht : t₀ ≤ a) (hab : a < b) (hk : k + 1 < frameSize)
    (h : Progress g buf s inp W a b k) :
    ∃ buf' b', b < b' ∧ Progress g buf' s inp W a b' (k + 1) := by
  have hlast : k ≠ frameSize - 1 := by omega
  obtain ⟨hd, hl⟩ := delay_leg hstep hm (by omega) (by omega) h.extracting
  set e := b + 1 + pixelDelayCycles with he
  have hs : (s (e + 1)).pixel = pixelProcess g (s e) (inp e) := by rw [hstep]; rfl
  obtain ⟨hor, hop⟩ := emit_observed hstep hm (by omega) (by omega) hd
  obtain ⟨-, -, -, hcached, hread⟩ := emit_edge (g := g) (hm.resetN e (by omega)) hd (by omega)
  rw [← hs] at hcached hread
  have hemit : (s (e + 1)).pixel.state ≠ .idleState → Leg s inp e (e + 1) [] [framePixel buf k] :=
    fun hb => ⟨hor, hop, fun t h1 h2 => by rwa [show t = e + 1 by omega]⟩
  have hpixels : (List.range (k + 1)).map (framePixel buf) =
      (List.range k).map (framePixel buf) ++ ([] ++ [framePixel buf k]) := by
    rw [List.range_succ, List.map_append]
    rfl
  have hcycles : pixelCycles * (k + 1) = pixelCycles * k + pixelCycles := Nat.mul_succ ..
  have hpixel : pixelCycles = pixelDelayCycles + 2 := rfl
  by_cases hc : (k + 1) % 4 = 3
  · have hindex : wordIndex (k + 1) = wordIndex k := by rw [wordIndex_succ, if_pos hc]
    have hx := hcached hlast hc
    refine ⟨buf, e + 1, by omega, hx, ?_, ?_, fun w hw => ?_⟩
    · have hleg := h.leg.trans (hl.trans (hemit (by rw [hx.state]; decide)))
      rw [hindex, hpixels]
      simpa using hleg
    · rw [hindex]
      exact h.words.mono le_rfl (by omega) fun _ _ => rfl
    · have := h.time w hw
      rw [hindex]
      omega
  · have hindex : wordIndex (k + 1) = wordIndex k + 1 := by rw [wordIndex_succ, if_neg hc]
    have hr := hread hlast hc
    obtain ⟨u, hau, hbound, hacc, haddr, hx, hlr⟩ := read_leg hstep hm (by omega) hc hr
    have hbuf : ∀ o < 4 * wordIndex (k + 1),
        setWord buf (wordIndex (k + 1)) (s (u + 2)).pixel.currentWord o = buf o :=
      fun o ho => setWord_of_lt _ ho
    refine ⟨_, u + 2, by omega, hx, ?_, ?_, fun w hw => ?_⟩
    · have hleg := (h.leg.trans (hl.trans (hemit (by rw [hr.state]; decide)))).trans hlr
      have hold : (List.range (k + 1)).map
          (framePixel (setWord buf (wordIndex (k + 1)) (s (u + 2)).pixel.currentWord)) =
          (List.range (k + 1)).map (framePixel buf) := by
        apply List.map_congr_left
        intro i hi
        have hik := List.mem_range.mp hi
        exact framePixel_congr hbuf (by unfold wordIndex; omega)
      rw [hold, hpixels, map_range_wordIndex, if_neg hc]
      simpa using hleg
    · have hwords := h.words.mono (le_refl a) (show b ≤ u + 2 by omega) (hindex ▸ hbuf)
      rw [← hindex] at hwords
      exact hwords.succ (by omega) le_rfl hacc haddr (bufferWord_setWord_self ..)
    · have htime := h.time w hw
      have hwait := hbound w hw
      have hword : (w + 2) * (wordIndex (k + 1) + 1) = (w + 2) * (wordIndex k + 1) + (w + 2) := by
        rw [hindex, Nat.mul_succ]
      omega

/-- The reads, pixels, words and cycles from the trigger up to the extraction of
pixel `k`. -/
theorem exists_progress (ht : t₀ ≤ a) (h : Reading g buf 0 (s a).pixel) (hk : k < frameSize) :
    ∃ buf' b, a < b ∧ Progress g buf' s inp W a b k := by
  induction k with
  | zero => exact Progress.first hstep hm ht h
  | succ k ih =>
    obtain ⟨buf', b, hb, hp⟩ := ih (by omega)
    obtain ⟨buf'', c, hc, hp'⟩ := Progress.next hstep hm ht hb hk hp
    exact ⟨buf'', c, by omega, hp'⟩

def frameWords : ℕ := 12288

/-- The longest time from the trigger to the return to idle when every read is accepted
within `w` wait cycles. -/
def frameCycles (w : ℕ) : ℕ := 1 + pixelCycles * frameSize + (w + 2) * frameWords

/-- What one trigger in the idle state at `t₀` leads to: the frame that ends with the
return to idle at `T`, with the pixels of `buf`. -/
structure Frame (g : Generics) (buf : ℕ → BitVec 8) (s : ℕ → State) (inp : ℕ → Ports)
    (t₀ T : ℕ) : Prop where
  later : t₀ < T
  idle : (s T).pixel.state = .idleState
  busy : ∀ t, t₀ < t → t < T → (s t).pixel.state ≠ .idleState
  reads : collect (acceptedRead s inp) t₀ T = (List.range frameWords).map (wordAddress g)
  pixels : collect (pulse s) t₀ T = (List.range frameSize).map (framePixel buf)
  words : Words g buf s inp t₀ T frameWords
  last : (s T).pixel.pixelValid = true

/-- A trigger in the idle state runs one frame and returns to idle. -/
theorem frame_words (hidle : (s t₀).pixel.state = .idleState)
    (hread : (s t₀).pixel.avmRead = false) (htrigger : (s t₀).irq.newFrameAvailable = true) :
    ∃ buf T, Frame g buf s inp t₀ T ∧ ∀ w ∈ W, T ≤ t₀ + frameCycles w := by
  have hs : ∀ t, (s (t + 1)).pixel = pixelProcess g (s t) (inp t) := fun t => by rw [hstep]; rfl
  have hstart : Reading g (fun _ => 0) 0 (pixelProcess g (s t₀) (inp t₀)) ∧ _ :=
    start_edge (hm.resetN t₀ le_rfl) hidle htrigger
  rw [← hs] at hstart
  have hfirst : Leg s inp t₀ (t₀ + 1) [] [] :=
    Leg.edge (acceptedRead_eq_none hread) hstart.2 (by rw [hstart.1.state]; decide)
  obtain ⟨buf, b, hb, hp⟩ := exists_progress hstep hm (Nat.le_succ t₀) hstart.1
    (show frameSize - 1 < frameSize by decide)
  obtain ⟨hd, hl⟩ := delay_leg hstep hm (by omega) (by decide) hp.extracting
  set e := b + 1 + pixelDelayCycles with he
  obtain ⟨hor, hop⟩ := emit_observed hstep hm (by omega) (by decide) hd
  obtain ⟨hv, -, hend, -⟩ := emit_edge (g := g) (hm.resetN e (by omega)) hd (by decide)
  rw [← hs] at hv hend
  have hall := (hfirst.trans hp.leg).trans hl
  have hsize : frameSize = frameSize - 1 + 1 := by decide
  have hindex : wordIndex (frameSize - 1) + 1 = frameWords := by decide
  refine ⟨buf, e + 1, ⟨by omega, hend rfl, fun t h1 h2 => hall.busy t h1 (by omega), ?_, ?_, ?_,
    hv⟩, fun w hw => ?_⟩
  · rw [(hall.reads.trans hor).eq, hindex]
    simp
  · rw [(hall.pixels.trans hop).eq, hsize, List.range_succ, List.map_append]
    simp
  · rw [← hindex]
    exact hp.words.mono (by omega) (by omega) fun _ _ => rfl
  · have htime := hp.time w hw
    rw [hindex] at htime
    have hcycles : pixelCycles * frameSize = pixelCycles * (frameSize - 1) + pixelCycles := by
      decide
    have hpixel : pixelCycles = pixelDelayCycles + 2 := rfl
    unfold frameCycles
    omega

end Run

end AlteraWorkshops.OneAi
