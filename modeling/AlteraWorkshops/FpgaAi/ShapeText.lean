import AlteraWorkshops.FpgaAi.OptionSyntax

/-! The text of a shape, from the arguments it is spread over to its three numbers. The
pieces are put together again with the blanks they were split at. A comma turns into a
blank, so a comma and a blank make two, with an empty component between them. -/

namespace AlteraWorkshops.FpgaAi

open Loops Tcl

variable {a : Arguments} {first text : Text} {more rest : List Text} {C H W sep : Text}

/-! ### Pieces put together -/

theorem joined_eq_intercalate (first : Text) (more : List Text) :
    joined first more = [' '].intercalate (first :: more) := by
  induction more generalizing first with
  | nil => simp [joined, List.intercalate]
  | cons piece more ih =>
    rw [joined, ih]
    cases more <;> simp [List.intercalate]

theorem closesAt_congr {value : Text} (h : closesBracket value = closesBracket first) :
    closesAt value more = closesAt first more := by
  cases more with
  | nil => exact h
  | cons piece more => rw [closesAt, closesAt, h]

theorem first_prefix_joined (first : Text) (more : List Text) : first <+: joined first more := by
  induction more generalizing first with
  | nil => exact List.prefix_rfl
  | cons piece more ih => exact (List.prefix_append first _).trans (ih _)

/-- With one closing bracket, at the end of the text, the text is put together to its end. -/
theorem closesAt_of_joined (hjoin : joined first more = text ++ [']']) (hone : ']' ∉ text) :
    closesAt first more = true := by
  induction more generalizing first with
  | nil => exact closesBracket_iff.mpr ⟨text, hjoin⟩
  | cons piece more ih =>
    have hlonger : first ++ ' ' :: piece <+: text ++ [']'] := by
      rw [← hjoin]
      exact first_prefix_joined _ more
    have hfirst : closesBracket first = false := by
      rw [Bool.eq_false_iff]
      intro hcloses
      obtain ⟨init, rfl⟩ := closesBracket_iff.mp hcloses
      rcases List.prefix_concat_iff.mp ((List.prefix_append _ _).trans hlonger) with heq | hstart
      · rw [heq] at hlonger
        have hlen := hlonger.length_le
        rw [List.length_append, List.length_cons] at hlen
        omega
      · exact hone (hstart.subset (by simp))
    have hrest := ih hjoin
    rw [closesAt_congr (closesBracket_append first piece)] at hrest
    rw [closesAt, hfirst, hrest]
    rfl

/-! ### The three numbers -/

/-- Text without a meaning of its own in a shape. -/
structure IsToken (t : Text) : Prop where
  ne_nil : t ≠ []
  blank : ' ' ∉ t
  comma : ',' ∉ t
  opening : '[' ∉ t
  closing : ']' ∉ t
  backslash : '\\' ∉ t

/-- `C`, `H` and `W` with separators between them -/
def shapeInner (C H W sep : Text) : Text := C ++ sep ++ H ++ sep ++ W

def shapeText (C H W sep : Text) : Text := '[' :: shapeInner C H W sep ++ [']']

theorem IsToken.not_trimmed {t : Text} (ht : IsToken t) :
    ∀ c ∈ t, c ∉ ['\\', '[', '\\', ']'] := by
  intro c hc hmem
  simp only [List.mem_cons, List.not_mem_nil, or_false] at hmem
  rcases hmem with rfl | rfl | rfl | rfl
  · exact ht.backslash hc
  · exact ht.opening hc
  · exact ht.backslash hc
  · exact ht.closing hc

theorem IsToken.stringMap {t : Text} (ht : IsToken t) : stringMap ',' ' ' t = t := by
  refine (List.map_congr_left fun c hc => ?_).trans (List.map_id t)
  exact if_neg fun hcomma : c = ',' => ht.comma (hcomma ▸ hc)

variable (hC : IsToken C) (hH : IsToken H) (hW : IsToken W)

include hC hW in
theorem stringTrim_shapeText :
    stringTrim ['\\', '[', '\\', ']'] (shapeText C H W sep) = shapeInner C H W sep := by
  have hne : shapeInner C H W sep ≠ [] := by simp [shapeInner, hC.ne_nil]
  have hhead : ∀ c ∈ (shapeInner C H W sep).head?, c ∈ C := by
    intro c hc
    rw [shapeInner, List.append_assoc, List.append_assoc, List.append_assoc,
      List.head?_append_of_ne_nil _ hC.ne_nil] at hc
    exact List.mem_of_mem_head? hc
  have hlast : ∀ c ∈ (shapeInner C H W sep).getLast?, c ∈ W := by
    intro c hc
    rw [shapeInner, List.getLast?_append_of_ne_nil _ hW.ne_nil] at hc
    exact List.mem_of_getLast? hc
  exact stringTrim_of_ends (l := ['[']) (r := [']']) (by simp) (by simp) hne
    (fun c hc => hC.not_trimmed c (hhead c hc)) fun c hc => hW.not_trimmed c (hlast c hc)

include hC hH hW in
theorem stringMap_shapeInner :
    stringMap ',' ' ' (shapeInner C H W sep) = shapeInner C H W (stringMap ',' ' ' sep) := by
  have happend : ∀ s t : Text, stringMap ',' ' ' (s ++ t) =
      stringMap ',' ' ' s ++ stringMap ',' ' ' t := fun s t => List.map_append
  simp only [shapeInner, happend, hC.stringMap, hH.stringMap, hW.stringMap]

include hC hH hW in
/-- What is split. -/
theorem stringMap_stringTrim_shapeText :
    stringMap ',' ' ' (stringTrim ['\\', '[', '\\', ']'] (shapeText C H W sep)) =
      shapeInner C H W (stringMap ',' ' ' sep) := by
  rw [stringTrim_shapeText hC hW, stringMap_shapeInner hC hH hW]

include hC hH hW in
theorem split_one_blank : split (shapeInner C H W [' ']) ' ' = [C, H, W] := by
  have hinner : shapeInner C H W [' '] = C ++ ' ' :: (H ++ ' ' :: W) := by simp [shapeInner]
  rw [hinner, split_append hC.blank (by simp), split_append hH.blank hW.ne_nil,
    split_of_notMem hW.ne_nil hW.blank]

include hC hH hW in
theorem split_two_blanks :
    split (shapeInner C H W [' ', ' ']) ' ' = [C, [], H, [], W] := by
  have hinner : shapeInner C H W [' ', ' '] =
      C ++ ' ' :: ([] ++ ' ' :: (H ++ ' ' :: ([] ++ ' ' :: W))) := by simp [shapeInner]
  rw [hinner, split_append hC.blank (by simp), split_append (by simp) (by simp),
    split_append hH.blank (by simp), split_append (by simp) hW.ne_nil,
    split_of_notMem hW.ne_nil hW.blank]

include hC hH hW in
/-- A comma with a blank makes empty components. -/
theorem finish_of_two_blanks (h : a.outputShape = shapeText C H W [',', ' ']) :
    finish a = .usage := by
  have hsplit : split (stringMap ',' ' ' (stringTrim ['\\', '[', '\\', ']'] a.outputShape)) ' ' =
      [C, [], H, [], W] := by
    rw [h, stringMap_stringTrim_shapeText hC hH hW]
    exact split_two_blanks hC hH hW
  have hne : a.outputShape ≠ [] := by
    rw [h]
    exact List.cons_ne_nil _ _
  rw [finish, if_neg hne]
  simp only [hsplit]

include hC hH hW in
theorem finish_of_one_blank (hsep : sep = [','] ∨ sep = [' '])
    (h : a.outputShape = shapeText C H W sep) (hinput : a.inputFileName ≠ [])
    (harch : a.archPath ≠ []) :
    finish a = .returns ⟨a.systemPerformance, a.coreIpPerformance, a.functional, a.numInferences,
      C, H, W, a.inputFileName, a.archPath⟩ := by
  have hblank : stringMap ',' ' ' sep = [' '] := by
    rcases hsep with rfl | rfl <;> rfl
  have hsplit : split (stringMap ',' ' ' (stringTrim ['\\', '[', '\\', ']'] a.outputShape)) ' ' =
      [C, H, W] := by
    rw [h, stringMap_stringTrim_shapeText hC hH hW, hblank]
    exact split_one_blank hC hH hW
  have hne : a.outputShape ≠ [] := by
    rw [h]
    exact List.cons_ne_nil _ _
  have hparts : ¬(C = [] ∨ H = [] ∨ W = []) := by
    rintro (h | h | h)
    · exact hC.ne_nil h
    · exact hH.ne_nil h
    · exact hW.ne_nil h
  rw [finish, if_neg hne]
  simp only [hsplit]
  rw [if_neg hparts, if_neg hinput, if_neg harch]

/-! ### The whole run -/

/-- What some settings leave in the variables. -/
def settle (l : List ((Setting × Text) × OptionSyntax)) (a : Arguments) : Arguments :=
  l.foldl (fun a o => o.1.1.set o.1.2 a) a

def settingWords (l : List ((Setting × Text) × OptionSyntax)) : List Text :=
  l.flatMap fun o => o.1.1.words o.1.2 o.2

theorem halts_settingWords (l : List ((Setting × Text) × OptionSyntax)) (outcome : Outcome) :
    Halts parseStep (.options a (settingWords l ++ rest)) outcome ↔
      Halts parseStep (.options (settle l a) rest) outcome := by
  induction l generalizing a with
  | nil => rfl
  | cons o l ih =>
    have hwords : settingWords (o :: l) = o.1.1.words o.1.2 o.2 ++ settingWords l :=
      List.flatMap_cons
    rw [hwords, List.append_assoc, halts_setting, ih]
    rfl

/-- The settings do not look at the shape. -/
theorem settle_with_outputShape (l : List ((Setting × Text) × OptionSyntax)) (a : Arguments)
    (shape : Text) :
    settle l { a with outputShape := shape } = { settle l a with outputShape := shape } := by
  induction l generalizing a with
  | nil => rfl
  | cons o l ih =>
    obtain ⟨⟨k, value⟩, written⟩ := o
    refine Eq.trans ?_ (ih (k.set value a))
    cases k <;> rfl

include hC hH hW in
theorem pieces_of_shapeText (hsep : sep = [','] ∨ sep = [' '] ∨ sep = [',', ' '])
    (hpieces : [' '].intercalate (first :: more) = shapeText C H W sep) :
    opensBracket first = true ∧ closesAt first more = true ∧
      joined first more = shapeText C H W sep := by
  have hjoin : joined first more = shapeText C H W sep :=
    (joined_eq_intercalate first more).trans hpieces
  have hone : ']' ∉ '[' :: shapeInner C H W sep := by
    have hseparator : ']' ∉ sep := by
      rcases hsep with rfl | rfl | rfl <;> decide
    simp [shapeInner, hC.closing, hH.closing, hW.closing, hseparator]
  refine ⟨?_, closesAt_of_joined hjoin hone, hjoin⟩
  have hstart : first <+: shapeText C H W sep := hjoin ▸ first_prefix_joined first more
  cases first with
  | nil =>
    cases more with
    | nil => cases hjoin
    | cons piece more =>
      have hblank : ' ' :: piece <+: shapeText C H W sep := by
        rw [← hjoin]
        exact first_prefix_joined (' ' :: piece) more
      rw [shapeText, List.cons_append, List.cons_prefix_cons] at hblank
      exact absurd hblank.1 (by decide)
  | cons c first =>
    rw [shapeText, List.cons_append, List.cons_prefix_cons] at hstart
    exact opensBracket_iff.mpr ⟨first, by rw [hstart.1]⟩

/-- A shape is understood however it is spaced and split, unless a blank follows the comma. -/
theorem parse_args_shape_iff {C H W sep first : Text} {more : List Text}
    (hC : IsToken C) (hH : IsToken H) (hW : IsToken W)
    (hsep : sep = [','] ∨ sep = [' '] ∨ sep = [',', ' '])
    (hpieces : [' '].intercalate (first :: more) = shapeText C H W sep)
    (before after : List ((Setting × Text) × OptionSyntax)) (written : OptionSyntax)
    (hinput : (settle (before ++ after) {}).inputFileName ≠ [])
    (harch : (settle (before ++ after) {}).archPath ≠ []) :
    (∃ parsed, ParsesTo (settingWords before ++ (shapeWords first more written ++
        settingWords after)) (.returns parsed) ∧ parsed.C = C ∧ parsed.H = H ∧ parsed.W = W) ↔
      sep ≠ [',', ' '] := by
  obtain ⟨hopens, hcloses, hjoin⟩ := pieces_of_shapeText hC hH hW hsep hpieces
  have hfinal : settle after { settle before {} with outputShape := joined first more } =
      { settle (before ++ after) {} with outputShape := shapeText C H W sep } := by
    rw [settle_with_outputShape, hjoin, settle, settle, settle, List.foldl_append]
  have hrun : ∀ outcome, ParsesTo (settingWords before ++ (shapeWords first more written ++
      settingWords after)) outcome ↔ outcome =
        finish { settle (before ++ after) {} with outputShape := shapeText C H W sep } := by
    intro outcome
    rw [ParsesTo, halts_settingWords, halts_shapeWords hopens,
      (reaches_appendValue rfl hcloses).halts_iff, ← List.append_nil (settingWords after),
      halts_settingWords, hfinal]
    exact halts_done rfl
  simp only [hrun]
  constructor
  · rintro ⟨parsed, hparsed, -⟩ rfl
    rw [finish_of_two_blanks hC hH hW rfl] at hparsed
    cases hparsed
  · intro hne
    have hone : sep = [','] ∨ sep = [' '] := by
      rcases hsep with hsep | hsep | hsep
      · exact .inl hsep
      · exact .inr hsep
      · exact absurd hsep hne
    have hfinish := finish_of_one_blank (a := { settle (before ++ after) {} with
      outputShape := shapeText C H W sep }) hC hH hW hone rfl hinput harch
    exact ⟨_, hfinish.symm, rfl, rfl, rfl⟩

theorem parse_args_shape_blank :
    ∃ parsed, ParsesTo ["--input=a".toList, "--output_shape".toList, "[1".toList, "2 3]".toList,
      "--arch".toList, "b".toList] (.returns parsed) ∧
        parsed.C = ['1'] ∧ parsed.H = ['2'] ∧ parsed.W = ['3'] :=
  (parse_args_shape_iff (C := ['1']) (H := ['2']) (W := ['3'])
    (by constructor <;> decide) (by constructor <;> decide) (by constructor <;> decide)
    (.inr (.inl rfl)) (show [' '].intercalate ["[1".toList, "2 3]".toList] = _ by decide)
    [((.input, ['a']), .keyValue)] [((.arch, ['b']), .separate)] .separate
    (by decide) (by decide)).mpr (by decide)

/-- `[1, 2, 3]` as one argument is not understood. -/
theorem parse_args_shape_comma_blank :
    ¬∀ (C H W sep first : Text) (more : List Text), IsToken C → IsToken H → IsToken W →
      (sep = [','] ∨ sep = [' '] ∨ sep = [',', ' ']) →
      [' '].intercalate (first :: more) = shapeText C H W sep →
      ∀ (before after : List ((Setting × Text) × OptionSyntax)) (written : OptionSyntax),
        (settle (before ++ after) {}).inputFileName ≠ [] →
        (settle (before ++ after) {}).archPath ≠ [] →
        ∃ parsed, ParsesTo (settingWords before ++ (shapeWords first more written ++
          settingWords after)) (.returns parsed) ∧ parsed.C = C ∧ parsed.H = H ∧ parsed.W = W := by
  intro h
  have hone : IsToken ['1'] := by constructor <;> decide
  obtain ⟨parsed, hparsed, -⟩ := h ['1'] ['1'] ['1'] [',', ' '] "[1, 1, 1]".toList [] hone hone hone
    (.inr (.inr rfl)) (by decide) [((.input, ['a']), .keyValue)] [((.arch, ['b']), .keyValue)]
    .keyValue (by decide) (by decide)
  have husage : ParsesTo ["--input=a".toList, "--output_shape=[1, 1, 1]".toList,
      "--arch=b".toList] .usage :=
    halts_iff_result.mpr ⟨5, by decide⟩
  cases husage.unique hparsed

end AlteraWorkshops.FpgaAi
