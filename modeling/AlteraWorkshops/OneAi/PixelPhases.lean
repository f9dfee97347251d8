import AlteraWorkshops.OneAi.PixelEdge

/-! One pixel of the frame: the packed bytes it stands for, the phases the pixel
reader goes through to unpack and emit it, and the edges between the phases. The
phases tie the pixel counter, the cache phase, the word address and the cached
bytes to one pixel number. -/

namespace AlteraWorkshops.OneAi

/-! ### The frame in the buffer -/

/-- What the reader hands to the CNN with one `pixel_valid` pulse. -/
structure Pixel where
  column : ℕ
  row : ℕ
  r : ℕ
  g : ℕ
  b : ℕ
  deriving DecidableEq

/-- Pixel `k` of a buffer of packed RGB bytes, reduced to 7 bits per colour. -/
def framePixel (buf : ℕ → BitVec 8) (k : ℕ) : Pixel :=
  ⟨k % frameWidth, k / frameWidth, (buf (3 * k)).toNat / 2, (buf (3 * k + 1)).toNat / 2,
    (buf (3 * k + 2)).toNat / 2⟩

/-- Little-endian word `j` of the buffer. -/
def bufferWord (buf : ℕ → BitVec 8) (j : ℕ) : BitVec 32 :=
  buf (4 * j + 3) ++ buf (4 * j + 2) ++ buf (4 * j + 1) ++ buf (4 * j)

/-- The word that completes pixel `k`: three words carry four pixels. -/
def wordIndex (k : ℕ) : ℕ := 3 * (k / 4) + min (k % 4) 2

def wordAddress (g : Generics) (j : ℕ) : BitVec 32 := g.bufferBaseAddr + BitVec.ofNat 32 (4 * j)

theorem byteOf_bufferWord (buf : ℕ → BitVec 8) (j n : ℕ) (hn : n < 4) :
    byteOf (bufferWord buf j) n = buf (4 * j + n) := by
  apply BitVec.eq_of_getLsbD_eq
  intro m hm
  have h : n = 0 ∨ n = 1 ∨ n = 2 ∨ n = 3 := by omega
  rcases h with rfl | rfl | rfl | rfl <;> simp [byteOf, bufferWord] <;> grind

/-- The buffer with word `j` replaced. -/
def setWord (buf : ℕ → BitVec 8) (j : ℕ) (w : BitVec 32) (o : ℕ) : BitVec 8 :=
  if o / 4 = j then byteOf w (o % 4) else buf o

theorem setWord_of_lt {buf : ℕ → BitVec 8} {j o : ℕ} (w : BitVec 32) (h : o < 4 * j) :
    setWord buf j w o = buf o := if_neg (by omega)

theorem bufferWord_setWord_self (buf : ℕ → BitVec 8) (j : ℕ) (w : BitVec 32) :
    bufferWord (setWord buf j w) j = w := by
  have hbyte : ∀ n, n < 4 → setWord buf j w (4 * j + n) = byteOf w n := by
    intro n hn
    rw [setWord, if_pos (by omega)]
    congr 1
    omega
  rw [bufferWord, hbyte 3 (by decide), hbyte 2 (by decide), hbyte 1 (by decide),
    show setWord buf j w (4 * j) = byteOf w 0 from hbyte 0 (by decide)]
  apply BitVec.eq_of_getLsbD_eq
  intro m hm
  simp only [byteOf, BitVec.getLsbD_append, BitVec.getLsbD_extractLsb']
  grind

theorem setWord_setWord (buf : ℕ → BitVec 8) (j : ℕ) (w w' : BitVec 32) :
    setWord (setWord buf j w) j w' = setWord buf j w' := by
  funext o
  unfold setWord
  split_ifs <;> rfl

theorem bufferWord_ext {buf buf' : ℕ → BitVec 8} {j : ℕ}
    (h : ∀ n < 4, buf' (4 * j + n) = buf (4 * j + n)) : bufferWord buf' j = bufferWord buf j := by
  rw [bufferWord, bufferWord, h 3 (by decide), h 2 (by decide), h 1 (by decide),
    show buf' (4 * j) = buf (4 * j) from h 0 (by decide)]

theorem bufferWord_congr {buf buf' : ℕ → BitVec 8} {j n : ℕ} (h : ∀ o < n, buf' o = buf o)
    (hj : 4 * j + 3 < n) : bufferWord buf' j = bufferWord buf j :=
  bufferWord_ext fun m hm => h (4 * j + m) (by omega)

theorem byte_of_bufferWord {buf buf' : ℕ → BitVec 8} {o : ℕ}
    (h : bufferWord buf' (o / 4) = bufferWord buf (o / 4)) : buf' o = buf o := by
  have hbyte := congrArg (byteOf · (o % 4)) h
  simp only [byteOf_bufferWord _ _ _ (Nat.mod_lt o (by decide)), Nat.div_add_mod] at hbyte
  exact hbyte

/-- Buffers with the same words have the same bytes. -/
theorem eq_of_bufferWord {buf buf' : ℕ → BitVec 8} {n : ℕ}
    (h : ∀ j < n, bufferWord buf' j = bufferWord buf j) : ∀ o < 4 * n, buf' o = buf o :=
  fun o ho => byte_of_bufferWord (h (o / 4) (by omega))

theorem framePixel_congr {buf buf' : ℕ → BitVec 8} {k n : ℕ} (h : ∀ o < n, buf' o = buf o)
    (hk : 3 * k + 2 < n) : framePixel buf' k = framePixel buf k := by
  rw [framePixel, framePixel, h _ hk, h (3 * k + 1) (by omega), h (3 * k) (by omega)]

theorem wordIndex_succ (k : ℕ) :
    wordIndex (k + 1) = if (k + 1) % 4 = 3 then wordIndex k else wordIndex k + 1 := by
  unfold wordIndex
  split_ifs <;> omega

theorem wordAddress_succ (g : Generics) (j : ℕ) :
    wordAddress g j + 4 = wordAddress g (j + 1) := by
  rw [wordAddress, wordAddress, BitVec.add_assoc]
  congr 1
  rw [show 4 * (j + 1) = 4 * j + 4 by ring, BitVec.ofNat_add]
  rfl

theorem pixelAddr_toNat {k : ℕ} (hk : k < frameSize) : (BitVec.ofNat 14 k).toNat = k := by
  simp only [frameSize, frameWidth, frameHeight] at hk
  simp only [BitVec.toNat_ofNat]
  omega

theorem cacheState_eq {k j : ℕ} (h : k % 4 = j) : BitVec.ofNat 2 k = BitVec.ofNat 2 j := by
  apply BitVec.eq_of_toNat_eq
  simp only [BitVec.toNat_ofNat]
  omega

/-! ### Phases of one pixel -/

/-- Bytes of pixel `k` that the previous word already delivered. -/
structure Cached (buf : ℕ → BitVec 8) (k : ℕ) (r : PixelRegs) : Prop where
  red : k % 4 ≠ 0 → r.cachedR = buf (3 * k)
  green : 2 ≤ k % 4 → r.cachedG = buf (3 * k + 1)
  blue : k % 4 = 3 → r.cachedB = buf (3 * k + 2)

/-- The registers that stay in step from the request of pixel `k`'s word to its
extraction: pixel counter, cache phase, word address and cached bytes. -/
structure Carries (g : Generics) (buf : ℕ → BitVec 8) (k : ℕ) (r : PixelRegs) : Prop where
  addr : r.pixelAddr = BitVec.ofNat 14 k
  cache : r.cacheState = BitVec.ofNat 2 k
  word : r.wordAddr = wordAddress g (wordIndex k)
  cached : Cached buf k r

/-- The read of pixel `k`'s word is waiting to be accepted. -/
structure Reading (g : Generics) (buf : ℕ → BitVec 8) (k : ℕ) (r : PixelRegs) : Prop
    extends Carries g buf k r where
  state : r.state = .readWordState
  read : r.avmRead = true
  address : r.avmAddress = wordAddress g (wordIndex k)

/-- The word was accepted in the cycle before. -/
structure Captured (g : Generics) (buf : ℕ → BitVec 8) (k : ℕ) (r : PixelRegs) : Prop
    extends Carries g buf k r where
  state : r.state = .readWordState
  read : r.avmRead = false
  current : r.currentWord = bufferWord buf (wordIndex k)

/-- The bytes of pixel `k` are about to be extracted. -/
structure Extracting (g : Generics) (buf : ℕ → BitVec 8) (k : ℕ) (r : PixelRegs) : Prop
    extends Carries g buf k r where
  state : r.state = .extractPixelState
  read : r.avmRead = false
  current : k % 4 ≠ 3 → r.currentWord = bufferWord buf (wordIndex k)

/-- Pixel `k` is held for its delay, `c` cycles of which have passed. -/
structure Delaying (g : Generics) (buf : ℕ → BitVec 8) (k c : ℕ) (r : PixelRegs) : Prop where
  state : r.state = .pixelDelayState
  read : r.avmRead = false
  addr : r.pixelAddr = BitVec.ofNat 14 k
  cache : r.cacheState = BitVec.ofNat 2 (k + 1)
  word : r.wordAddr = wordAddress g (wordIndex k)
  cached : Cached buf (k + 1) r
  counter : r.cycleCounter = c
  red : r.pixelRReg = buf (3 * k)
  green : r.pixelGReg = buf (3 * k + 1)
  blue : r.pixelBReg = buf (3 * k + 2)
  column : r.pixelColumn = k % frameWidth
  row : r.pixelRow = k / frameWidth

/-- A pixel that waits for a word depends on the words before it only. -/
theorem Reading.congr {g : Generics} {buf buf' : ℕ → BitVec 8} {k : ℕ} {r : PixelRegs}
    (h : Reading g buf k r) (h3 : k % 4 ≠ 3) (hb : ∀ o < 4 * wordIndex k, buf' o = buf o) :
    Reading g buf' k r := by
  unfold wordIndex at hb
  refine ⟨⟨h.addr, h.cache, h.word, ⟨fun hk => ?_, fun hk => ?_, fun hk => absurd hk h3⟩⟩,
    h.state, h.read, h.address⟩
  · rw [h.cached.red hk, hb (3 * k) (by omega)]
  · rw [h.cached.green hk, hb (3 * k + 1) (by omega)]

/-! ### Edges between phases -/

section Edge

variable {g : Generics} {buf : ℕ → BitVec 8} {s : State} {i : Ports} {k c : ℕ}

/-- What the CNN stream carries when `pixel_valid` is high. -/
def PixelRegs.output (r : PixelRegs) : Pixel :=
  ⟨r.pixelColumn, r.pixelRow, r.pixelR, r.pixelG, r.pixelB⟩

theorem start_edge (hn : i.resetN = true) (hs : s.pixel.state = .idleState)
    (hf : s.irq.newFrameAvailable = true) :
    Reading g buf 0 (pixelProcess g s i) ∧ (pixelProcess g s i).pixelValid = false := by
  simp only [pixelProcess, hn, hs, hf, Bool.not_true, Bool.false_eq_true, ↓reduceIte, and_true]
  exact ⟨⟨rfl, rfl, by simp [wordIndex, wordAddress], ⟨by simp, by simp, by simp⟩⟩, rfl, rfl,
    by simp [wordIndex, wordAddress]⟩

theorem wait_edge (hn : i.resetN = true) (h : Reading g buf k s.pixel)
    (hw : i.avmWaitrequest = true) :
    Reading g buf k (pixelProcess g s i) ∧ (pixelProcess g s i).pixelValid = false := by
  simp only [pixelProcess, hn, h.state, h.read, hw, Bool.not_true, Bool.false_eq_true, ↓reduceIte,
    and_true]
  exact ⟨⟨h.addr, h.cache, h.word, ⟨h.cached.red, h.cached.green, h.cached.blue⟩⟩, rfl, rfl,
    h.address⟩

theorem accept_edge (hn : i.resetN = true) (h : Reading g buf k s.pixel)
    (hw : i.avmWaitrequest = false) (hd : i.avmReaddata = bufferWord buf (wordIndex k)) :
    Captured g buf k (pixelProcess g s i) ∧ (pixelProcess g s i).pixelValid = false := by
  simp only [pixelProcess, hn, h.state, h.read, hw, Bool.not_true, Bool.not_false,
    Bool.false_eq_true, ↓reduceIte, and_true]
  exact ⟨⟨h.addr, h.cache, h.word, ⟨h.cached.red, h.cached.green, h.cached.blue⟩⟩, rfl, rfl, hd⟩

/-- The reader leaves the read state one cycle after the acceptance, and takes
the data bus once more if `waitrequest` is low in that cycle. Whatever the bus holds
then, the extraction sees one word. -/
theorem captured_edge (hn : i.resetN = true) (h3 : k % 4 ≠ 3) (h : Captured g buf k s.pixel) :
    Extracting g (setWord buf (wordIndex k) (pixelProcess g s i).currentWord) k
        (pixelProcess g s i) ∧
      (pixelProcess g s i).pixelValid = false := by
  generalize hw : (pixelProcess g s i).currentWord = w
  have hword : bufferWord (setWord buf (wordIndex k) w) (wordIndex k) = w :=
    bufferWord_setWord_self ..
  have hold : ∀ o < 4 * wordIndex k, setWord buf (wordIndex k) w o = buf o :=
    fun o ho => setWord_of_lt w ho
  unfold wordIndex at hold
  have hcached : Cached (setWord buf (wordIndex k) w) k s.pixel := by
    refine ⟨fun hk => ?_, fun hk => ?_, fun hk => absurd hk h3⟩
    · rw [h.cached.red hk]
      exact (hold (3 * k) (by omega)).symm
    · rw [h.cached.green hk]
      exact (hold (3 * k + 1) (by omega)).symm
  cases hwait : i.avmWaitrequest <;>
    simp only [pixelProcess, hn, h.state, h.read, hwait, Bool.not_true, Bool.not_false,
      Bool.false_eq_true, ↓reduceIte, and_true] at hw ⊢ <;>
    exact ⟨⟨h.addr, h.cache, h.word, hcached.red, hcached.green, hcached.blue⟩, rfl, rfl,
      fun _ => hw.trans hword.symm⟩

/-- Which bytes the extraction takes for each cache phase. -/
theorem extractBytes_spec {r : PixelRegs} (h : Extracting g buf k r) :
    (extractBytes r).pixelRReg = buf (3 * k) ∧ (extractBytes r).pixelGReg = buf (3 * k + 1) ∧
      (extractBytes r).pixelBReg = buf (3 * k + 2) ∧
      (extractBytes r).cacheState = BitVec.ofNat 2 (k + 1) ∧
      Cached buf (k + 1) (extractBytes r) := by
  -- byte `n` of the current word is the buffer byte at offset `o`
  have hword : ∀ {n o : ℕ}, k % 4 ≠ 3 → n < 4 → 4 * wordIndex k + n = o →
      byteOf r.currentWord n = buf o := by
    rintro n o h3 hn rfl
    rw [h.current h3, byteOf_bufferWord buf _ n hn]
  have hcache : ∀ {j : ℕ}, k % 4 = j → r.cacheState = BitVec.ofNat 2 j :=
    fun hj => h.cache.trans (cacheState_eq hj)
  have hphase : k % 4 = 0 ∨ k % 4 = 1 ∨ k % 4 = 2 ∨ k % 4 = 3 := by omega
  rcases hphase with hp | hp | hp | hp <;>
    simp only [extractBytes, hcache hp]
  · have h3 : k % 4 ≠ 3 := by omega
    refine ⟨hword h3 (by omega) ?_, hword h3 (by omega) ?_, hword h3 (by omega) ?_,
      (cacheState_eq (k := k + 1) (j := 1) (by omega)).symm, fun _ => hword h3 (by omega) ?_,
      by omega, by omega⟩ <;>
      unfold wordIndex <;> omega
  · have h3 : k % 4 ≠ 3 := by omega
    refine ⟨h.cached.red (by omega), hword h3 (by omega) ?_, hword h3 (by omega) ?_,
      (cacheState_eq (k := k + 1) (j := 2) (by omega)).symm, fun _ => hword h3 (by omega) ?_,
      fun _ => hword h3 (by omega) ?_, by omega⟩ <;>
      unfold wordIndex <;> omega
  · have h3 : k % 4 ≠ 3 := by omega
    refine ⟨h.cached.red (by omega), h.cached.green (by omega), hword h3 (by omega) ?_,
      (cacheState_eq (k := k + 1) (j := 3) (by omega)).symm, fun _ => hword h3 (by omega) ?_,
      fun _ => hword h3 (by omega) ?_, fun _ => hword h3 (by omega) ?_⟩ <;>
      unfold wordIndex <;> omega
  · exact ⟨h.cached.red (by omega), h.cached.green (by omega), h.cached.blue hp,
      (cacheState_eq (k := k + 1) (j := 0) (by omega)).symm, by omega, by omega, by omega⟩

theorem extract_edge (hn : i.resetN = true) (hk : k < frameSize)
    (h : Extracting g buf k s.pixel) :
    Delaying g buf k 0 (pixelProcess g s i) ∧ (pixelProcess g s i).pixelValid = false := by
  let n : PixelRegs := { s.pixel with pixelValid := false, state := .extractPixelState }
  have hx : Extracting g buf k n :=
    ⟨⟨h.addr, h.cache, h.word, ⟨h.cached.red, h.cached.green, h.cached.blue⟩⟩, rfl, h.read,
      h.current⟩
  obtain ⟨hr, hg, hb, hc, hcached⟩ := extractBytes_spec hx
  obtain ⟨hread, haddr, hword, hvalid⟩ := extractBytes_frame n
  simp only [pixelProcess, hn, h.state, Bool.not_true, Bool.false_eq_true, ↓reduceIte]
  refine ⟨⟨rfl, hread.trans h.read, haddr.trans h.addr, hc, hword.trans h.word,
    ⟨hcached.red, hcached.green, hcached.blue⟩, rfl, hr, hg, hb, ?_, ?_⟩, hvalid⟩ <;>
    simp only [h.addr, pixelAddr_toNat hk]

theorem delay_edge (hn : i.resetN = true) (h : Delaying g buf k c s.pixel)
    (hc : c < pixelDelayCycles) :
    Delaying g buf k (c + 1) (pixelProcess g s i) ∧ (pixelProcess g s i).pixelValid = false := by
  have hlt : ¬pixelDelayCycles ≤ s.pixel.cycleCounter := by rw [h.counter]; omega
  simp only [pixelProcess, hn, h.state, hlt, Bool.not_true, Bool.false_eq_true, ↓reduceIte,
    and_true]
  exact ⟨rfl, h.read, h.addr, h.cache, h.word, ⟨h.cached.red, h.cached.green, h.cached.blue⟩,
    by rw [h.counter], h.red, h.green, h.blue, h.column, h.row⟩

/-- The end of the delay emits the pixel, and moves on to the next one unless the
frame is complete: straight to its extraction when all its bytes are cached. -/
theorem emit_edge (hn : i.resetN = true) (h : Delaying g buf k pixelDelayCycles s.pixel)
    (hk : k < frameSize) :
    (pixelProcess g s i).pixelValid = true ∧
      (pixelProcess g s i).output = framePixel buf k ∧
      (k = frameSize - 1 → (pixelProcess g s i).state = .idleState) ∧
      (k ≠ frameSize - 1 → (k + 1) % 4 = 3 → Extracting g buf (k + 1) (pixelProcess g s i)) ∧
      (k ≠ frameSize - 1 → (k + 1) % 4 ≠ 3 → Reading g buf (k + 1) (pixelProcess g s i)) := by
  have hge : pixelDelayCycles ≤ s.pixel.cycleCounter := h.counter.ge
  have hlast : s.pixel.pixelAddr = lastPixel ↔ k = frameSize - 1 := by
    rw [h.addr, lastPixel, ← BitVec.toNat_inj, pixelAddr_toNat hk, pixelAddr_toNat (by decide)]
  have hcache : s.pixel.cacheState = 3 ↔ (k + 1) % 4 = 3 := by
    rw [h.cache, show (3 : BitVec 2) = BitVec.ofNat 2 3 from rfl, ← BitVec.toNat_inj]
    simp only [BitVec.toNat_ofNat]
  have hnext : BitVec.ofNat 14 k + 1 = BitVec.ofNat 14 (k + 1) := by
    rw [BitVec.ofNat_add]
    rfl
  simp only [pixelProcess, hn, h.state, hge, Bool.not_true, Bool.false_eq_true, ↓reduceIte,
    hlast, hcache]
  refine ⟨?_, ?_, ?_, ?_, ?_⟩
  · split_ifs <;> rfl
  · split_ifs <;> simp [PixelRegs.output, framePixel, h.red, h.green, h.blue, h.column, h.row]
  · intro he
    simp [he]
  · intro he h3
    simp only [he, h3, ↓reduceIte]
    exact ⟨⟨by rw [h.addr, hnext], h.cache, by rw [wordIndex_succ, if_pos h3, h.word],
      ⟨h.cached.red, h.cached.green, h.cached.blue⟩⟩, rfl, h.read, fun h4 => absurd h3 h4⟩
  · intro he h3
    have hword : s.pixel.wordAddr + 4 = wordAddress g (wordIndex (k + 1)) := by
      rw [wordIndex_succ, if_neg h3, h.word, wordAddress_succ]
    simp only [he, h3, ↓reduceIte]
    exact ⟨⟨by rw [h.addr, hnext], h.cache, hword,
      ⟨h.cached.red, h.cached.green, h.cached.blue⟩⟩, rfl, rfl, hword⟩

end Edge

end AlteraWorkshops.OneAi
