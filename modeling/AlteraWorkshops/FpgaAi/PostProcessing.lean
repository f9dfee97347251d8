import AlteraWorkshops.Blocks.Tiling

/-! `streaming_post_processing.py`: the result file is turned round in blocks of 128 bits,
the words that only fill up a beat are taken out, and what is left is printed. Then what the
output streamer packs: each pixel in beats of eight words. -/

namespace AlteraWorkshops.FpgaAi

open Blocks

abbrev Byte := BitVec 8
abbrev Word := BitVec 16

/-! ### The script -/

/-- The byte order of the host, which `struct` uses when the format names none. -/
inductive ByteOrder
  | little | big

/-- `struct.error` -/
inductive StructError
  | wrongLength
  deriving DecidableEq

/-- A word from its two bytes in memory order. -/
def ByteOrder.word : ByteOrder → Byte → Byte → Word
  | .little, a, b => b ++ a
  | .big, a, b => a ++ b

/-- The two bytes of a word in memory order. -/
def ByteOrder.bytes : ByteOrder → Word → List Byte
  | .little, w => [w.extractLsb' 0 8, w.extractLsb' 8 8]
  | .big, w => [w.extractLsb' 8 8, w.extractLsb' 0 8]

def ByteOrder.words (host : ByteOrder) : List Byte → List Word
  | a :: b :: rest => host.word a b :: host.words rest
  | _ => []

/-- `struct.unpack` of `count` values of two bytes each. -/
def unpack (host : ByteOrder) (count : ℕ) (data : List Byte) : Except StructError (List Word) :=
  if data.length = 2 * count then .ok (host.words data) else .error .wrongLength

/-- `struct.pack` of values of two bytes each. -/
def pack (host : ByteOrder) (values : List Word) : List Byte := values.flatMap host.bytes

def flipEndianness128bit (data : List Byte) : List Byte :=
  let chunkSize := 16
  let numChunks := data.length / chunkSize
  (List.range numChunks).flatMap fun i =>
    let chunk := (data.take ((i + 1) * chunkSize)).drop (i * chunkSize)
    chunk.reverse

def removeInvalidFp16Values (host : ByteOrder) (data : List Byte) :
    Except StructError (List Byte) := do
  let valueToRemove : Word := 0xFFFF
  let fp16Values ← unpack host (data.length / 2) data
  let filteredValues := fp16Values.filter fun value => value ≠ valueToRemove
  return pack host filteredValues

/-- What `process_file` writes for what it reads. -/
def processFile (host : ByteOrder) (data : List Byte) : Except StructError (List Byte) :=
  removeInvalidFp16Values host (flipEndianness128bit data)

/-- What `bin_to_txt` writes, one entry for each call of `write`; `float16` prints a half
precision number. -/
def binToTxt (host : ByteOrder) (float16 : Word → String) (data : List Byte) :
    Except StructError (List String) := do
  let numFloats := data.length / 2
  let floatData ← unpack host numFloats data
  return floatData.zipIdx.map fun (value, idx) => s!"{idx}: {float16 value}\n"

/-! ### Words and bytes -/

variable {host : ByteOrder}

@[simp] theorem ByteOrder.length_bytes (w : Word) : (host.bytes w).length = 2 := by
  cases host <;> rfl

/-- The bytes of a word that was read are the bytes it was read from. -/
theorem ByteOrder.bytes_word (a b : Byte) : host.bytes (host.word a b) = [a, b] := by
  cases host <;> simp only [ByteOrder.bytes, ByteOrder.word, List.cons.injEq, and_true]
  · exact ⟨BitVec.extractLsb'_append_eq_right, BitVec.extractLsb'_append_eq_left⟩
  · exact ⟨BitVec.extractLsb'_append_eq_left, BitVec.extractLsb'_append_eq_right⟩

theorem ByteOrder.word_eq_ffff (a b : Byte) : host.word a b = 0xFFFF ↔ a = 0xFF ∧ b = 0xFF := by
  constructor
  · intro h
    have hff : host.bytes 0xFFFF = [0xFF, 0xFF] := by cases host <;> rfl
    have hbytes : [a, b] = [0xFF, 0xFF] := by rw [← hff, ← h, ByteOrder.bytes_word]
    simpa only [List.cons.injEq, and_true] using hbytes
  · rintro ⟨rfl, rfl⟩
    cases host <;> rfl

/-- Words that were stored are read again. -/
theorem words_pack (host : ByteOrder) (values : List Word) :
    host.words (pack host values) = values := by
  induction values with
  | nil => rfl
  | cons w values ih =>
    have hw : pack host (w :: values) = host.bytes w ++ pack host values := rfl
    rw [hw]
    cases host <;>
      simp only [ByteOrder.bytes, List.cons_append, List.nil_append, ByteOrder.words, ih,
        ByteOrder.word, List.cons.injEq, and_true] <;>
      exact (BitVec.extractLsb'_append_extractLsb'_eq_extractLsb' rfl).trans
        BitVec.extractLsb'_eq_self

theorem length_words (data : List Byte) : (host.words data).length = data.length / 2 := by
  induction data using ByteOrder.words.induct with
  | case1 a b rest ih =>
    simp only [ByteOrder.words, List.length_cons, ih]
    omega
  | case2 data hdata =>
    match data, hdata with
    | [], _ => rfl
    | [a], _ => simp [ByteOrder.words]
    | a :: b :: rest, hdata => exact absurd rfl (hdata a b rest)

theorem length_pack (values : List Word) : (pack host values).length = 2 * values.length :=
  length_flatMap_of_length fun w _ => ByteOrder.length_bytes w

/-! ### Taking words out -/

/-- The bytes without the pairs `FF FF`. -/
def withoutInvalid : List Byte → List Byte
  | a :: b :: rest =>
    if a = 0xFF ∧ b = 0xFF then withoutInvalid rest else a :: b :: withoutInvalid rest
  | _ => []

/-- Filtering the words filters the pairs of bytes, whatever the byte order. -/
theorem pack_filter_words (host : ByteOrder) (data : List Byte) :
    pack host ((host.words data).filter fun value => value ≠ 0xFFFF) = withoutInvalid data := by
  induction data using withoutInvalid.induct with
  | case1 a b rest hff ih =>
    have hword := (host.word_eq_ffff a b).mpr hff
    rw [ByteOrder.words, List.filter_cons_of_neg (by simp [hword]), ih, withoutInvalid, if_pos hff]
  | case2 a b rest hff ih =>
    have hword := mt (host.word_eq_ffff a b).mp hff
    rw [ByteOrder.words, List.filter_cons_of_pos (by simpa using hword), withoutInvalid, if_neg hff,
      ← ih, pack, List.flatMap_cons, ByteOrder.bytes_word]
    rfl
  | case3 data hdata =>
    match data, hdata with
    | [], _ => rfl
    | [a], _ => rfl
    | a :: b :: rest, hdata => exact absurd rfl (hdata a b rest)

/-- The words without `FFFF`. -/
theorem withoutInvalid_pack (values : List Word) :
    withoutInvalid (pack host values) = pack host (values.filter fun value => value ≠ 0xFFFF) := by
  rw [← pack_filter_words host, words_pack]

theorem removeInvalidFp16Values_eq {data : List Byte} (h : 2 ∣ data.length) :
    removeInvalidFp16Values host data = .ok (withoutInvalid data) := by
  have hunpack : unpack host (data.length / 2) data = .ok (host.words data) := by
    rw [unpack, if_pos (Nat.mul_div_cancel' h).symm]
  rw [← pack_filter_words host, removeInvalidFp16Values, hunpack]
  rfl

/-! ### Turning blocks round -/

theorem flipEndianness128bit_eq (data : List Byte) :
    flipEndianness128bit data = (blocks 16 data).flatMap List.reverse := by
  rw [blocks, List.flatMap_map]
  apply List.flatMap_congr
  intro j _
  show ((data.take ((j + 1) * 16)).drop (j * 16)).reverse = _
  rw [block, List.drop_take, Nat.add_mul, Nat.one_mul, Nat.add_sub_cancel_left]

/-- Only whole blocks come out. -/
theorem dvd_length_flip (data : List Byte) : 16 ∣ (flipEndianness128bit data).length := by
  have hblock : ∀ b ∈ blocks 16 data, b.reverse.length = 16 := fun b hb => by
    rw [List.length_reverse, length_of_mem_blocks hb]
  rw [flipEndianness128bit_eq, length_flatMap_of_length hblock]
  exact Nat.dvd_mul_right ..

theorem processFile_eq (data : List Byte) :
    processFile host data = .ok (withoutInvalid (flipEndianness128bit data)) :=
  removeInvalidFp16Values_eq (Nat.dvd_trans (by decide) (dvd_length_flip data))

/-! ### The output streamer -/

/-- A beat of 128 bits. -/
abbrev Beat := { words : List Word // words.length = 8 }

/-- A beat that carries nothing. -/
def idleBeat : Beat := ⟨List.replicate 8 0xFFFF, List.length_replicate⟩

/-- Words at the front of a beat, filled up with `FFFF`. -/
def padded (values : List Word) : Beat :=
  ⟨(values ++ List.replicate 8 0xFFFF).take 8, by
    rw [List.length_take, List.length_append, List.length_replicate]
    omega⟩

/-- The beats of one pixel. -/
def packPixel (pixel : List Word) : List Beat :=
  (List.range ((pixel.length + 7) / 8)).map fun j => padded (block 8 pixel j)

/-- Idle beats among others, anywhere. -/
inductive Padded : List Beat → List Beat → Prop
  | nil : Padded [] []
  | beat {l m : List Beat} (b : Beat) (h : Padded l m) : Padded (b :: l) (b :: m)
  | idle {l m : List Beat} (h : Padded l m) : Padded l (idleBeat :: m)

theorem Padded.refl (l : List Beat) : Padded l l := by
  induction l with
  | nil => exact .nil
  | cons b l ih => exact .beat b ih

/-- The 16 bytes of a beat in the result file, the last byte first. -/
def stored (b : Beat) : List Byte := (pack .little b.val).reverse

theorem length_stored (b : Beat) : (stored b).length = 16 := by
  rw [stored, List.length_reverse, length_pack, b.property]

/-- The words of beats, without `FFFF`. -/
def validWords (beats : List Beat) : List Word :=
  (beats.flatMap Subtype.val).filter fun value => value ≠ 0xFFFF

theorem validWords_padded {l m : List Beat} (h : Padded l m) : validWords m = validWords l := by
  induction h with
  | nil => rfl
  | beat b h ih =>
    unfold validWords at ih ⊢
    rw [List.flatMap_cons, List.flatMap_cons, List.filter_append, List.filter_append, ih]
  | idle h ih =>
    unfold validWords at ih ⊢
    rw [List.flatMap_cons, List.filter_append, ih]
    rfl

theorem filter_padded {values : List Word} (hlen : values.length ≤ 8)
    (h : ∀ w ∈ values, w ≠ 0xFFFF) :
    (padded values).val.filter (fun value => value ≠ 0xFFFF) = values := by
  have hvalues : values.filter (fun value => value ≠ 0xFFFF) = values :=
    List.filter_eq_self.mpr fun w hw => decide_eq_true (h w hw)
  show ((values ++ List.replicate 8 0xFFFF).take 8).filter (fun value => value ≠ 0xFFFF) = values
  rw [List.take_append, List.take_of_length_le hlen, List.take_replicate,
    List.filter_append, hvalues, List.filter_replicate_of_neg (by decide), List.append_nil]

/-- The words of a pixel come back from its beats. -/
theorem validWords_packPixel {pixel : List Word} (h : ∀ w ∈ pixel, w ≠ 0xFFFF) :
    validWords (packPixel pixel) = pixel := by
  have hbeat : ∀ j, (padded (block 8 pixel j)).val.filter (fun value => value ≠ 0xFFFF) =
      block 8 pixel j := by
    intro j
    refine filter_padded (by rw [length_block]; omega) fun w hw => h w ?_
    exact List.mem_of_mem_drop (List.mem_of_mem_take hw)
  rw [validWords, packPixel, List.flatMap_map, List.filter_flatMap]
  simp only [hbeat]
  exact flatMap_block_eq (by omega)

theorem validWords_pixels {pixels : List (List Word)}
    (h : ∀ pixel ∈ pixels, ∀ w ∈ pixel, w ≠ 0xFFFF) :
    validWords (pixels.flatMap packPixel) = pixels.flatten := by
  induction pixels with
  | nil => rfl
  | cons pixel pixels ih =>
    have hpixel := validWords_packPixel (h pixel List.mem_cons_self)
    have hrest := ih fun p hp => h p (List.mem_cons_of_mem pixel hp)
    unfold validWords at hpixel hrest ⊢
    rw [List.flatMap_cons, List.flatMap_append, List.filter_append, hpixel, hrest,
      List.flatten_cons]

/-- Turned round, the result file is the words of its beats. -/
theorem flip_stored (beats : List Beat) :
    flipEndianness128bit (beats.flatMap stored) = pack .little (beats.flatMap Subtype.val) := by
  rw [flipEndianness128bit_eq, blocks_flatMap (by decide) length_stored, List.flatMap_map, pack,
    List.flatMap_assoc]
  exact List.flatMap_congr fun b _ => List.reverse_reverse _

/-! ### The results -/

/-- The script undoes the packing, whatever the byte order of its host, and it raises no
error on any file; the text has one entry for every two bytes of the binary result. -/
theorem process_file_inverts (host : ByteOrder) (float16 : Word → String) :
    (∀ pixels : List (List Word), (∀ pixel ∈ pixels, ∀ w ∈ pixel, w ≠ 0xFFFF) →
      ∀ beats, Padded (pixels.flatMap packPixel) beats →
        processFile host (beats.flatMap stored) =
          .ok (pixels.flatten.flatMap ByteOrder.little.bytes)) ∧
    ∀ data, ∃ out entries, processFile host data = .ok out ∧
      binToTxt host float16 out = .ok entries ∧ out.length = 2 * entries.length := by
  refine ⟨fun pixels h beats hbeats => ?_, fun data => ?_⟩
  · have hwords : (beats.flatMap Subtype.val).filter (fun value => value ≠ 0xFFFF) =
        pixels.flatten := (validWords_padded hbeats).trans (validWords_pixels h)
    rw [processFile_eq, flip_stored, withoutInvalid_pack, hwords]
    rfl
  · have hout : processFile host data = .ok (withoutInvalid (flipEndianness128bit data)) :=
      processFile_eq data
    have heven : 2 ∣ (withoutInvalid (flipEndianness128bit data)).length := by
      rw [← pack_filter_words host, length_pack]
      exact Nat.dvd_mul_right ..
    generalize withoutInvalid (flipEndianness128bit data) = out at hout heven
    have hunpack : unpack host (out.length / 2) out = .ok (host.words out) := by
      rw [unpack, if_pos (Nat.mul_div_cancel' heven).symm]
    refine ⟨out, _, hout, by rw [binToTxt, hunpack]; rfl, ?_⟩
    rw [List.length_map, List.length_zipIdx, length_words, Nat.mul_div_cancel' heven]

/-- One pixel of ten channels. -/
def tenClasses : List (List Word) := [[0, 1, 2, 3, 4, 5, 6, 7, 8, 0x3C00]]

/-- Ten classes, with an idle beat in front. -/
theorem process_file_ten :
    processFile .little ((idleBeat :: tenClasses.flatMap packPixel).flatMap stored) =
      .ok (tenClasses.flatten.flatMap ByteOrder.little.bytes) := by
  have hvalid : ∀ pixel ∈ tenClasses, ∀ w ∈ pixel, w ≠ 0xFFFF := by simp [tenClasses]
  have h := process_file_inverts .little fun _ => "0.0"
  exact h.1 tenClasses hvalid _ (.idle (.refl _))

end AlteraWorkshops.FpgaAi
