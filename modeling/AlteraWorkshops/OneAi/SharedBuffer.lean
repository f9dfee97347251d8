import AlteraWorkshops.OneAi.FrameWords

/-! The pixel reader in front of a buffer that others write while it reads. Every word
of a frame is what the buffer holds in the cycle its read is accepted. Such a slave can
be attached to the reader for any contents over time and any wait states. -/

namespace AlteraWorkshops.OneAi

open Clocked

variable {g : Generics} {mem : ℕ → ℕ → BitVec 8} {inp : ℕ → Ports} {W : Option ℕ}
  {t t₀ T : ℕ} {buf : ℕ → BitVec 8}

/-- Little-endian word of the buffer at a bus address. -/
def slaveWord (g : Generics) (buf : ℕ → BitVec 8) (address : BitVec 32) : BitVec 32 :=
  let o := (address - g.bufferBaseAddr).toNat
  buf (o + 3) ++ buf (o + 2) ++ buf (o + 1) ++ buf o

theorem slaveWord_wordAddress {j : ℕ} (hj : 4 * j < 2 ^ 32) :
    slaveWord g buf (wordAddress g j) = bufferWord buf j := by
  have ho : (wordAddress g j - g.bufferBaseAddr).toNat = 4 * j := by
    rw [wordAddress, BitVec.add_comm, BitVec.add_sub_cancel, BitVec.toNat_ofNat,
      Nat.mod_eq_of_lt hj]
  simp only [slaveWord, bufferWord, ho]

/-- A slave that holds its data bus delivers to the extraction the word of the accept
cycle. -/
theorem currentWord_held (ha : accepts (run g inp t) (inp t) = true)
    (hn : (inp t).resetN = true) (hn' : (inp (t + 1)).resetN = true)
    (hh : (run g inp (t + 1)).pixel.avmRead = false →
      (inp (t + 1)).avmReaddata = (inp t).avmReaddata) :
    (run g inp (t + 2)).pixel.currentWord = (inp t).avmReaddata := by
  rw [currentWord_after_accept ha hn hn', hh (accept_next ha hn).2.1, ite_self]

theorem run_avmRead_idle (h : (run g inp t).pixel.state = .idleState) :
    (run g inp t).pixel.avmRead = false := by
  cases hr : (run g inp t).pixel.avmRead with
  | false => rfl
  | true =>
    rw [avmRead_state g inp t hr] at h
    cases h

/-- A frame is a frame of any buffer with the same words. -/
theorem Frame.congr {s : ℕ → State} {buf' : ℕ → BitVec 8} (hf : Frame g buf s inp t T)
    (hword : ∀ j < frameWords, bufferWord buf j = bufferWord buf' j) :
    Frame g buf' s inp t T := by
  have hpixel : ∀ k ∈ List.range frameSize, framePixel buf k = framePixel buf' k := by
    intro k hk
    have hlt : k < frameSize := List.mem_range.mp hk
    apply framePixel_congr (eq_of_bufferWord hword)
    simp only [frameSize, frameWidth, frameHeight] at hlt
    unfold frameWords
    omega
  refine ⟨hf.later, hf.idle, hf.busy, hf.reads, hf.pixels.trans (List.map_congr_left hpixel),
    fun j hj => ?_, hf.last⟩
  obtain ⟨u, h1, h2, hacc, haddr, hw⟩ := hf.words j hj
  exact ⟨u, h1, h2, hacc, haddr, (hword j hj).symm.trans hw⟩

/-- From cycle `t₀` on the slave returns the word at the address in the accept cycle,
of the buffer `mem t` in that cycle, and keeps the data bus until the next read. -/
structure ServesOver (g : Generics) (mem : ℕ → ℕ → BitVec 8) (s : ℕ → State) (inp : ℕ → Ports)
    (W : Option ℕ) (t₀ : ℕ) : Prop extends Accepting s inp W t₀ where
  data : ∀ t, t₀ ≤ t → (s t).pixel.avmRead = true → (inp t).avmWaitrequest = false →
    (inp t).avmReaddata = slaveWord g (mem t) (s t).pixel.avmAddress
  holds : ∀ t, t₀ ≤ t → (s (t + 1)).pixel.avmRead = false →
    (inp (t + 1)).avmReaddata = (inp t).avmReaddata

/-- Word `j` of `buf` is word `j` of the buffer in the cycle `r j`, in which its read
is accepted. -/
structure Sampled (g : Generics) (mem : ℕ → ℕ → BitVec 8) (inp : ℕ → Ports)
    (buf : ℕ → BitVec 8) (r : ℕ → ℕ) (a b : ℕ) : Prop where
  within : ∀ j < frameWords, a ≤ r j ∧ r j + 2 ≤ b
  accepted : ∀ j < frameWords, acceptedRead (run g inp) inp (r j) = some (wordAddress g j)
  word : ∀ j < frameWords, bufferWord buf j = bufferWord (mem (r j)) j

theorem ServesOver.later (hm : ServesOver g mem (run g inp) inp W t₀) (ht : t₀ ≤ t) :
    ServesOver g mem (run g inp) inp W t where
  resetN u hu := hm.resetN u (ht.trans hu)
  accepts u hu := hm.accepts u (ht.trans hu)
  data u hu := hm.data u (ht.trans hu)
  holds u hu := hm.holds u (ht.trans hu)

theorem Frame.sampled (hf : Frame g buf (run g inp) inp t T)
    (hm : ServesOver g mem (run g inp) inp W t) : ∃ r, Sampled g mem inp buf r t T := by
  have hword : ∀ j, ∃ u, j < frameWords → t ≤ u ∧ u + 2 ≤ T ∧
      acceptedRead (run g inp) inp u = some (wordAddress g j) ∧
      bufferWord buf j = bufferWord (mem u) j := by
    intro j
    by_cases hj : j < frameWords
    · obtain ⟨u, h1, h2, hacc, haddr, hw⟩ := hf.words j hj
      obtain ⟨hread, hwait⟩ := accepts_iff.mp hacc
      have hj32 : 4 * j < 2 ^ 32 := by
        unfold frameWords at hj
        omega
      refine ⟨u, fun _ => ⟨h1, h2, by rw [acceptedRead, if_pos hacc, haddr], ?_⟩⟩
      rw [hw, currentWord_held hacc (hm.resetN u h1) (hm.resetN (u + 1) (by omega))
        (hm.holds u h1), hm.data u h1 hread hwait, haddr, slaveWord_wordAddress hj32]
    · exact ⟨0, fun h => absurd h hj⟩
  choose r hr using hword
  exact ⟨r, fun j hj => ⟨(hr j hj).1, (hr j hj).2.1⟩, fun j hj => (hr j hj).2.2.1,
    fun j hj => (hr j hj).2.2.2⟩

/-- A trigger in the idle state reads one frame, word by word from the buffer. -/
theorem ServesOver.frame (hm : ServesOver g mem (run g inp) inp W t)
    (hidle : (run g inp t).pixel.state = .idleState)
    (htrigger : (run g inp t).irq.newFrameAvailable = true) :
    ∃ buf T r, Frame g buf (run g inp) inp t T ∧ Sampled g mem inp buf r t T ∧
      ∀ w ∈ W, T ≤ t + frameCycles w := by
  obtain ⟨buf, T, hf, hT⟩ := frame_words (run_succ g inp) hm.toAccepting hidle
    (run_avmRead_idle hidle) htrigger
  obtain ⟨r, hr⟩ := hf.sampled hm
  exact ⟨buf, T, r, hf, hr, hT⟩

/-! ### A slave for any contents -/

/-- The reader with the data bus of its slave. -/
structure Attached where
  reader : State
  readdata : BitVec 32

/-- The slave drives the word in the accept cycle and holds its data bus otherwise. -/
def Attached.drive (g : Generics) (p : Attached) (i : Ports × (ℕ → BitVec 8)) : Ports :=
  { i.1 with
    avmReaddata :=
      if accepts p.reader i.1 then slaveWord g i.2 p.reader.pixel.avmAddress else p.readdata }

def Attached.step (g : Generics) (p : Attached) (i : Ports × (ℕ → BitVec 8)) : Attached :=
  ⟨OneAi.step g p.reader (p.drive g i), (p.drive g i).avmReaddata⟩

/-- The reader behind `base`, with its data bus replaced by that of the slave. -/
def attached (g : Generics) (mem : ℕ → ℕ → BitVec 8) (base : ℕ → Ports) : ℕ → Attached :=
  trace (Attached.step g) ⟨.initial, 0⟩ fun t => (base t, mem t)

def attachedPorts (g : Generics) (mem : ℕ → ℕ → BitVec 8) (base : ℕ → Ports) (t : ℕ) : Ports :=
  (attached g mem base t).drive g (base t, mem t)

variable {base : ℕ → Ports}

theorem attached_reader (t : ℕ) :
    (attached g mem base t).reader = run g (attachedPorts g mem base) t := by
  induction t with
  | zero => rfl
  | succ t ih =>
    rw [run_succ, ← ih]
    rfl

theorem attachedPorts_readdata (t : ℕ) :
    (attachedPorts g mem base t).avmReaddata =
      if accepts (run g (attachedPorts g mem base) t) (base t) then
        slaveWord g (mem t) (run g (attachedPorts g mem base) t).pixel.avmAddress
      else (attached g mem base t).readdata := by
  rw [← attached_reader]
  rfl

/-- The attached slave serves the reader whenever the base ports accept its reads. -/
theorem servesOver_attached (hn : ∀ t, t₀ ≤ t → (base t).resetN = true)
    (hw : ∀ t, t₀ ≤ t → ∃ u, t ≤ u ∧ (base u).avmWaitrequest = false ∧ ∀ w ∈ W, u ≤ t + w) :
    ServesOver g mem (run g (attachedPorts g mem base)) (attachedPorts g mem base) W t₀ where
  resetN := hn
  accepts t ht _ := hw t ht
  data t _ hread hwait := by
    have hacc : accepts (run g (attachedPorts g mem base) t) (base t) = true :=
      accepts_iff.mpr ⟨hread, hwait⟩
    rw [attachedPorts_readdata, if_pos hacc]
  holds t _ hread := by
    have hacc : accepts (run g (attachedPorts g mem base) (t + 1)) (base (t + 1)) = false := by
      simp [accepts, hread]
    rw [attachedPorts_readdata, hacc]
    rfl

end AlteraWorkshops.OneAi
