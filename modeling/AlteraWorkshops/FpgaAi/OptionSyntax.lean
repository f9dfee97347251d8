import AlteraWorkshops.FpgaAi.ShapeCapture

/-! The two ways to write an option, with an equals sign or as two arguments. They are read
by different branches, which leave the variables and the arguments behind them alike. What
is left over of a shape that closes early is read as options of its own, and never takes an
argument that comes after it. -/

namespace AlteraWorkshops.FpgaAi

open Loops Tcl

variable {a : Arguments} {first value : Text} {pieces more rest : List Text}

/-! ### Options as they are given -/

inductive OptionSyntax
  /-- `--key=value` -/
  | keyValue
  /-- `--key value`, where a flag has no value -/
  | separate
  deriving DecidableEq

def Setting.words (k : Setting) (value : Text) : OptionSyntax → List Text
  | .keyValue => [keyValueArg k.name value]
  | .separate => flagArg k.name :: if k.takesValue then [value] else []

/-- A shape whose text begins in one argument and goes on in others. -/
def shapeWords (first : Text) (more : List Text) : OptionSyntax → List Text
  | .keyValue => keyValueArg shapeName first :: more
  | .separate => flagArg shapeName :: first :: more

inductive GivenOption
  | setting (k : Setting) (value : Text)
  | outputShape (first : Text) (more : List Text)

def GivenOption.words : GivenOption → OptionSyntax → List Text
  | .setting k value => k.words value
  | .outputShape first more => shapeWords first more

def LastCloses (pieces : List Text) : Prop := ∀ piece ∈ pieces.getLast?, closesBracket piece = true

/-- A value of a shape without an opening bracket is one argument, and one with it ends with
a closing one. -/
def GivenOption.Valid : GivenOption → Prop
  | .setting _ _ => True
  | .outputShape first more =>
    opensBracket first = false ∧ more = [] ∨
      opensBracket first = true ∧ LastCloses (first :: more)

def argvOf (l : List (GivenOption × OptionSyntax)) : List Text := l.flatMap fun o => o.1.words o.2

/-! ### Settings -/

theorem halts_setting (k : Setting) (value : Text) (written : OptionSyntax) (outcome : Outcome) :
    Halts parseStep (.options a (k.words value written ++ rest)) outcome ↔
      Halts parseStep (.options (k.set value a) rest) outcome := by
  cases written with
  | keyValue => exact halts_next (parseStep_keyValue k)
  | separate =>
    cases hk : k.takesValue with
    | false =>
      rw [Setting.words, hk]
      exact halts_next (parseStep_flag hk)
    | true =>
      rw [Setting.words, hk]
      exact halts_next (parseStep_value hk)

/-! ### Left-over pieces -/

theorem LastCloses.tail (h : LastCloses (first :: more)) : LastCloses more := by
  cases more with
  | nil => simp [LastCloses]
  | cons piece more =>
    rw [LastCloses, List.getLast?_cons_cons] at h
    exact h

theorem LastCloses.of_append (h : LastCloses (pieces ++ more)) : LastCloses more := by
  induction pieces with
  | nil => exact h
  | cons piece pieces ih => exact ih h.tail

/-- Some piece closes, so the text ends at one of them. -/
theorem LastCloses.exists_closesAt (h : LastCloses (first :: more)) :
    ∃ pieces rest, more = pieces ++ rest ∧ closesAt first pieces = true := by
  apply (closesAt_or first more).resolve_right
  intro hopen
  obtain ⟨last, hlast⟩ : ∃ last, (first :: more).getLast? = some last :=
    ⟨_, List.getLast?_eq_some_getLast (List.cons_ne_nil _ _)⟩
  have hmem : last ∈ first :: more := List.mem_of_getLast? hlast
  have hcloses := h last hlast
  rw [hopen last hmem] at hcloses
  cases hcloses

theorem closesBracket_flagArg (k : Setting) : closesBracket (flagArg k.name) = false := by
  cases k <;> decide

theorem closesBracket_keyValueArg (name : Text) (hne : value ≠ []) :
    closesBracket (keyValueArg name value) = closesBracket value := by
  have hsplit : keyValueArg name value = flagArg name ++ ['='] ++ value := by
    simp [keyValueArg, flagArg]
  rw [hsplit, closesBracket_append_right _ hne]

/-- Reading some arguments stops in any case, or goes on behind them from the same values of
the variables whatever is there. -/
def Absorbed (a : Arguments) (words : List Text) : Prop :=
  (∀ rest, Halts parseStep (.options a (words ++ rest)) .usage) ∨
    ∃ a', ∀ rest outcome, Halts parseStep (.options a (words ++ rest)) outcome ↔
      Halts parseStep (.options a' rest) outcome

theorem Absorbed.of_iff {a' : Arguments} {words words' : List Text} (h : Absorbed a' words')
    (hiff : ∀ rest outcome, Halts parseStep (.options a (words ++ rest)) outcome ↔
      Halts parseStep (.options a' (words' ++ rest)) outcome) : Absorbed a words := by
  rcases h with husage | ⟨a'', h⟩
  · exact .inl fun rest => (hiff rest _).mpr (husage rest)
  · exact .inr ⟨a'', fun rest outcome => (hiff rest outcome).trans (h rest outcome)⟩

/-- A shape takes its pieces up to the closing bracket, and the others are read next. -/
theorem Absorbed.of_shape {words : List Text} (hcloses : closesAt first pieces = true)
    (hwords : ∀ rest outcome, Halts parseStep (.options a (words ++ rest)) outcome ↔
      Halts parseStep (.appendValue a first (pieces ++ more ++ rest)) outcome)
    (h : ∀ a, Absorbed a more) : Absorbed a words :=
  (h { a with outputShape := joined first pieces }).of_iff fun rest outcome => by
    rw [hwords, List.append_assoc]
    exact (reaches_appendValue rfl hcloses).halts_iff

theorem absorbed_shape {words : List Text} (hlast : LastCloses (first :: more))
    (hwords : ∀ rest outcome, Halts parseStep (.options a (words ++ rest)) outcome ↔
      Halts parseStep (.appendValue a first (more ++ rest)) outcome)
    (h : ∀ a pieces, pieces.length ≤ more.length → LastCloses pieces → Absorbed a pieces) :
    Absorbed a words := by
  obtain ⟨pieces, left, rfl, hcloses⟩ := hlast.exists_closesAt
  refine Absorbed.of_shape hcloses hwords fun a => h a left ?_ hlast.tail.of_append
  rw [List.length_append]
  omega

section Next

variable (hnext : ∀ a pieces, pieces.length ≤ more.length → LastCloses pieces → Absorbed a pieces)
include hnext

/-- The last piece is no flag that waits for its value, since that one does not close. -/
theorem absorbed_flag (k : Setting) (h : LastCloses (flagArg k.name :: more)) :
    Absorbed a (flagArg k.name :: more) := by
  cases hk : k.takesValue with
  | false =>
    exact (hnext (k.set [] a) more le_rfl h.tail).of_iff fun rest outcome =>
      halts_next (parseStep_flag hk)
  | true =>
    cases more with
    | nil => simp [LastCloses, closesBracket_flagArg] at h
    | cons value more =>
      exact (hnext (k.set value a) more (Nat.le_succ _) h.tail.tail).of_iff
        fun rest outcome => halts_next (parseStep_value hk)

theorem absorbed_keyValue_shape (h : LastCloses (keyValueArg shapeName first :: more)) :
    Absorbed a (keyValueArg shapeName first :: more) := by
  cases hopens : opensBracket first with
  | false => exact .inl fun rest => halts_keyValue_shape_usage hopens
  | true =>
    have hne : first ≠ [] := by
      rintro rfl
      cases hopens
    have hlast : LastCloses (first :: more) := by
      cases more with
      | nil => simpa [LastCloses, closesBracket_keyValueArg shapeName hne] using h
      | cons piece more =>
        rw [LastCloses, List.getLast?_cons_cons] at h ⊢
        exact h
    exact absorbed_shape hlast (fun rest outcome => halts_keyValue_shape hopens outcome) hnext

theorem absorbed_flag_shape (h : LastCloses (flagArg shapeName :: more)) :
    Absorbed a (flagArg shapeName :: more) := by
  cases more with
  | nil =>
    have hclosed : closesBracket (flagArg shapeName) = true := h _ rfl
    cases hclosed
  | cons first more =>
    cases hopens : opensBracket first with
    | false => exact .inl fun rest => halts_flag_shape_usage hopens
    | true =>
      exact absorbed_shape h.tail (fun rest outcome => halts_flag_shape hopens outcome)
        fun a pieces hle => hnext a pieces (hle.trans (Nat.le_succ _))

end Next

/-- By induction on the number of pieces. -/
theorem absorbed_of_lastCloses (a : Arguments) (pieces : List Text) (h : LastCloses pieces) :
    Absorbed a pieces := by
  induction hn : pieces.length using Nat.strong_induction_on generalizing a pieces with
  | _ n ih =>
    cases pieces with
    | nil => exact .inr ⟨a, fun rest outcome => Iff.rfl⟩
    | cons arg more =>
      have hmore : more.length < n := by
        rw [← hn]
        exact Nat.lt_succ_self _
      have hnext : ∀ a pieces, pieces.length ≤ more.length → LastCloses pieces →
          Absorbed a pieces := fun a pieces hle hlast =>
        ih _ (hle.trans_lt hmore) a pieces hlast rfl
      rcases option_cases a arg with ⟨k, value, rfl⟩ | ⟨first, rfl⟩ | ⟨k, rfl⟩ | rfl | husage
      · exact (hnext (k.set value a) more le_rfl h.tail).of_iff fun rest outcome =>
          halts_next (parseStep_keyValue k)
      · exact absorbed_keyValue_shape hnext h
      · exact absorbed_flag hnext k h
      · exact absorbed_flag_shape hnext h
      · exact .inl fun rest => .done (husage (more ++ rest))

/-! ### Both ways -/

theorem halts_shapeWords (hopens : opensBracket first = true) (written : OptionSyntax)
    (outcome : Outcome) :
    Halts parseStep (.options a (shapeWords first more written ++ rest)) outcome ↔
      Halts parseStep (.appendValue a first (more ++ rest)) outcome := by
  cases written with
  | keyValue => exact halts_keyValue_shape hopens outcome
  | separate => exact halts_flag_shape hopens outcome

theorem halts_shapeWords_usage (hopens : opensBracket first = false) (written : OptionSyntax) :
    Halts parseStep (.options a (shapeWords first more written ++ rest)) .usage := by
  cases written with
  | keyValue => exact halts_keyValue_shape_usage hopens
  | separate => exact halts_flag_shape_usage hopens

/-- An option does the same both ways: it stops the run, or leaves the same variables. -/
theorem GivenOption.words_alike {o : GivenOption} (ho : o.Valid) (a : Arguments) :
    (∀ written rest, Halts parseStep (.options a (o.words written ++ rest)) .usage) ∨
      ∃ a', ∀ written rest outcome,
        Halts parseStep (.options a (o.words written ++ rest)) outcome ↔
          Halts parseStep (.options a' rest) outcome := by
  cases o with
  | setting k value =>
    exact .inr ⟨k.set value a, fun written rest outcome => halts_setting k value written outcome⟩
  | outputShape first more =>
    rcases ho with ⟨hopens, rfl⟩ | ⟨hopens, hlast⟩
    · exact .inl fun written rest => halts_shapeWords_usage hopens written
    · obtain ⟨pieces, left, rfl, hcloses⟩ := hlast.exists_closesAt
      have hwords (written : OptionSyntax) (rest : List Text) (outcome : Outcome) :
          Halts parseStep (.options a (shapeWords first (pieces ++ left) written ++ rest)) outcome ↔
            Halts parseStep (.options { a with outputShape := joined first pieces } (left ++ rest))
              outcome := by
        rw [halts_shapeWords hopens, List.append_assoc]
        exact (reaches_appendValue rfl hcloses).halts_iff
      rcases absorbed_of_lastCloses { a with outputShape := joined first pieces } left
        hlast.tail.of_append with husage | ⟨a', ha'⟩
      · exact .inl fun written rest => (hwords written rest _).mpr (husage rest)
      · exact .inr ⟨a', fun written rest outcome =>
          (hwords written rest outcome).trans (ha' rest outcome)⟩

theorem halts_argvOf {l l' : List (GivenOption × OptionSyntax)}
    (hsame : l.map Prod.fst = l'.map Prod.fst) (hvalid : ∀ o ∈ l.map Prod.fst, o.Valid)
    (a : Arguments) : ∃ outcome, Halts parseStep (.options a (argvOf l)) outcome ∧
      Halts parseStep (.options a (argvOf l')) outcome := by
  induction l generalizing l' a with
  | nil =>
    obtain rfl : l' = [] := by simpa using hsame.symm
    exact ⟨finish a, .done rfl, .done rfl⟩
  | cons o l ih =>
    cases l' with
    | nil => cases hsame
    | cons o' l' =>
      rw [List.map_cons, List.map_cons, List.cons.injEq] at hsame
      obtain ⟨ho, hvalid⟩ := List.forall_mem_cons.mp hvalid
      have hl : argvOf (o :: l) = o.1.words o.2 ++ argvOf l := List.flatMap_cons
      have hl' : argvOf (o' :: l') = o.1.words o'.2 ++ argvOf l' := by
        rw [hsame.1]
        exact List.flatMap_cons
      rw [hl, hl']
      rcases GivenOption.words_alike ho a with husage | ⟨a', ha'⟩
      · exact ⟨.usage, husage _ _, husage _ _⟩
      · obtain ⟨outcome, h, h'⟩ := ih hsame.2 hvalid a'
        exact ⟨outcome, (ha' _ _ outcome).mpr h, (ha' _ _ outcome).mpr h'⟩

/-- However each of the options is written, `parse_args` comes to the same outcome. -/
theorem parse_args_syntaxes_agree {l m : List (GivenOption × OptionSyntax)}
    (hsame : l.map Prod.fst = m.map Prod.fst) (hvalid : ∀ o ∈ l.map Prod.fst, o.Valid) :
    ∃ outcome, ParsesTo (argvOf l) outcome ∧ ParsesTo (argvOf m) outcome :=
  halts_argvOf hsame hvalid {}

theorem parse_args_syntaxes_agree_input :
    ∃ outcome, ParsesTo ["--input=--a=b".toList, "--output_shape=[1".toList, "2]".toList] outcome ∧
      ParsesTo ["--input".toList, "--a=b".toList, "--output_shape=[1".toList, "2]".toList]
        outcome :=
  parse_args_syntaxes_agree
    (l := [(.setting .input "--a=b".toList, .keyValue),
      (.outputShape "[1".toList ["2]".toList], .keyValue)])
    (m := [(.setting .input "--a=b".toList, .separate),
      (.outputShape "[1".toList ["2]".toList], .keyValue)])
    rfl (by
      intro o ho
      simp only [List.map_cons, List.map_nil, List.mem_cons, List.not_mem_nil, or_false] at ho
      rcases ho with rfl | rfl
      · trivial
      · exact .inr ⟨rfl, by simp [LastCloses, closesBracket, stringMatch]⟩)

end AlteraWorkshops.FpgaAi
