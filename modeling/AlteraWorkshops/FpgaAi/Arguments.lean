import AlteraWorkshops.Loops.Machine
import AlteraWorkshops.Tcl.Strings

/-! The command line of the console script. The options are read one by one; the value of
`output_shape` may go over several arguments and is put together in a loop that only ends
at a closing bracket. The loops take the arguments from `argv`, an index past its end being
an empty argument. -/

namespace AlteraWorkshops.FpgaAi

open Loops Tcl

/-! ### What is read -/

/-- The variables of `parse_args`, with their defaults. -/
structure Arguments where
  systemPerformance : Bool := false
  coreIpPerformance : Bool := false
  functional : Bool := false
  numInferences : Text := ['0']
  outputShape : Text := []
  inputFileName : Text := []
  archPath : Text := []
  deriving DecidableEq

/-- The list that is returned. -/
structure ParsedArgs where
  systemPerformance : Bool
  coreIpPerformance : Bool
  functional : Bool
  numInferences : Text
  C : Text
  H : Text
  W : Text
  inputFileName : Text
  archPath : Text
  deriving DecidableEq

inductive Outcome
  /-- `print_usage`, which exits -/
  | usage
  | returns (parsed : ParsedArgs)
  deriving DecidableEq

/-- Where the run is, with the arguments from the index on. -/
inductive ParseState
  /-- the loop over `argv` -/
  | options (a : Arguments) (rest : List Text)
  /-- the loop that appends to `value` -/
  | appendValue (a : Arguments) (value : Text) (rest : List Text)
  /-- the loop that appends to `output_shape` -/
  | appendShape (a : Arguments) (rest : List Text)
  deriving DecidableEq

/-! ### The run -/

/-- `lindex $argv $i` -/
def lindex (rest : List Text) : Text := rest.headD []

/-- `{--*=*}` -/
def isKeyValue (arg : Text) : Bool :=
  stringMatch [.char '-', .char '-', .star, .char '=', .star] arg

/-- `{\[*}` -/
def opensBracket (text : Text) : Bool := stringMatch [.char '[', .star] text

/-- `{*\]}` -/
def closesBracket (text : Text) : Bool := stringMatch [.star, .char ']'] text

def keyOf (arg : Text) : Text := stringRange arg 2 (stringFirst '=' arg)

def valueOf (arg : Text) : Text := stringRangeEnd arg (stringFirst '=' arg + 1)

/-- `--key=value` -/
def keyValueOption (a : Arguments) (key value : Text) (rest : List Text) :
    ParseState ⊕ Outcome :=
  if key = "system_performance".toList then
    .inl (.options { a with systemPerformance := true } rest)
  else if key = "core_ip_performance".toList then
    .inl (.options { a with coreIpPerformance := true } rest)
  else if key = "functional".toList then .inl (.options { a with functional := true } rest)
  else if key = "num_inferences".toList then .inl (.options { a with numInferences := value } rest)
  else if key = "input".toList then .inl (.options { a with inputFileName := value } rest)
  else if key = "arch".toList then .inl (.options { a with archPath := value } rest)
  else if key = "output_shape".toList then
    if opensBracket value then .inl (.appendValue a value rest) else .inr .usage
  else .inr .usage

/-- `--flag`, whose value is the next argument. -/
def flagOption (a : Arguments) (arg : Text) (rest : List Text) : ParseState ⊕ Outcome :=
  if arg = "--system_performance".toList then
    .inl (.options { a with systemPerformance := true } rest)
  else if arg = "--core_ip_performance".toList then
    .inl (.options { a with coreIpPerformance := true } rest)
  else if arg = "--functional".toList then .inl (.options { a with functional := true } rest)
  else if arg = "--num_inferences".toList then
    .inl (.options { a with numInferences := lindex rest } rest.tail)
  else if arg = "--input".toList then
    .inl (.options { a with inputFileName := lindex rest } rest.tail)
  else if arg = "--arch".toList then .inl (.options { a with archPath := lindex rest } rest.tail)
  else if arg = "--output_shape".toList then
    if opensBracket (lindex rest) then
      .inl (.appendShape { a with outputShape := lindex rest } rest.tail)
    else .inr .usage
  else .inr .usage

/-- Behind the options: the shape is taken apart, and what may not be empty is checked. -/
def finish (a : Arguments) : Outcome :=
  if a.outputShape = [] then .usage
  else
    let outputShape := stringTrim ['\\', '[', '\\', ']'] a.outputShape
    let outputShape := stringMap ',' ' ' outputShape
    match split outputShape ' ' with
    | [C, H, W] =>
      if C = [] ∨ H = [] ∨ W = [] then .usage
      else if a.inputFileName = [] then .usage
      else if a.archPath = [] then .usage
      else .returns ⟨a.systemPerformance, a.coreIpPerformance, a.functional, a.numInferences,
        C, H, W, a.inputFileName, a.archPath⟩
    | _ => .usage

def parseStep : ParseState → ParseState ⊕ Outcome
  | .options a [] => .inr (finish a)
  | .options a (arg :: rest) =>
    if isKeyValue arg then keyValueOption a (keyOf arg) (valueOf arg) rest
    else flagOption a arg rest
  | .appendValue a value rest =>
    if closesBracket value then .inl (.options { a with outputShape := value } rest)
    else .inl (.appendValue a (value ++ ' ' :: lindex rest) rest.tail)
  | .appendShape a rest =>
    if closesBracket a.outputShape then .inl (.options a rest)
    else .inl (.appendShape { a with outputShape := a.outputShape ++ ' ' :: lindex rest } rest.tail)

/-- `parse_args` -/
def ParsesTo (argv : List Text) (outcome : Outcome) : Prop :=
  Halts parseStep (.options {} argv) outcome

/-! ### Options -/

/-- The options other than `output_shape`. -/
inductive Setting
  | systemPerformance
  | coreIpPerformance
  | functional
  | numInferences
  | input
  | arch
  deriving DecidableEq

def Setting.name : Setting → Text
  | .systemPerformance => "system_performance".toList
  | .coreIpPerformance => "core_ip_performance".toList
  | .functional => "functional".toList
  | .numInferences => "num_inferences".toList
  | .input => "input".toList
  | .arch => "arch".toList

def Setting.takesValue : Setting → Bool
  | .systemPerformance | .coreIpPerformance | .functional => false
  | .numInferences | .input | .arch => true

/-- A flag is set by any value. -/
def Setting.set : Setting → Text → Arguments → Arguments
  | .systemPerformance, _, a => { a with systemPerformance := true }
  | .coreIpPerformance, _, a => { a with coreIpPerformance := true }
  | .functional, _, a => { a with functional := true }
  | .numInferences, value, a => { a with numInferences := value }
  | .input, value, a => { a with inputFileName := value }
  | .arch, value, a => { a with archPath := value }

def shapeName : Text := "output_shape".toList

def flagArg (name : Text) : Text := '-' :: '-' :: name

def keyValueArg (name value : Text) : Text := flagArg (name ++ '=' :: value)

variable {a : Arguments} {k : Setting} {arg key value : Text} {rest : List Text}

theorem isKeyValue_iff : isKeyValue arg = true ↔ ∃ key value, arg = keyValueArg key value := by
  simp only [isKeyValue, stringMatch_char, stringMatch_star, stringMatch_nil]
  constructor
  · rintro ⟨_, rfl, _, rfl, key, _, rfl, value, rfl, -⟩
    exact ⟨key, value, rfl⟩
  · rintro ⟨key, value, rfl⟩
    exact ⟨_, rfl, _, rfl, key, _, rfl, value, rfl, value, [], by simp⟩

theorem opensBracket_iff : opensBracket value = true ↔ ∃ text, value = '[' :: text := by
  simp only [opensBracket, stringMatch_char, stringMatch_star, stringMatch_nil]
  constructor
  · rintro ⟨text, rfl, -⟩
    exact ⟨text, rfl⟩
  · rintro ⟨text, rfl⟩
    exact ⟨text, rfl, text, [], by simp⟩

theorem closesBracket_iff : closesBracket value = true ↔ ∃ text, value = text ++ [']'] := by
  simp only [closesBracket, stringMatch_char, stringMatch_star, stringMatch_nil]
  constructor
  · rintro ⟨text, _, rfl, _, rfl, rfl⟩
    exact ⟨text, rfl⟩
  · rintro ⟨text, rfl⟩
    exact ⟨text, _, rfl, _, rfl, rfl⟩

theorem stringFirst_keyValueArg (hkey : '=' ∉ key) :
    stringFirst '=' (keyValueArg key value) = key.length + 2 :=
  stringFirst_append (a := '-' :: '-' :: key) (by simpa using hkey)

theorem keyOf_keyValueArg (hkey : '=' ∉ key) : keyOf (keyValueArg key value) = key := by
  rw [keyOf, stringFirst_keyValueArg hkey]
  simp [stringRange, keyValueArg, flagArg]

theorem valueOf_keyValueArg (hkey : '=' ∉ key) : valueOf (keyValueArg key value) = value := by
  rw [valueOf, stringFirst_keyValueArg hkey]
  simp [stringRangeEnd, keyValueArg, flagArg]

/-- An argument with an equals sign is cut at the first one. -/
theorem eq_keyValueArg (h : isKeyValue arg = true) :
    arg = keyValueArg (keyOf arg) (valueOf arg) := by
  obtain ⟨key, value, rfl⟩ := isKeyValue_iff.mp h
  have hmem : '=' ∈ key ++ '=' :: value := by simp
  obtain ⟨key', value', heq, hkey⟩ := List.eq_append_cons_of_mem hmem
  have harg : keyValueArg key value = keyValueArg key' value' := by
    rw [keyValueArg, keyValueArg, heq]
  rw [harg, keyOf_keyValueArg hkey, valueOf_keyValueArg hkey]

/-! ### Steps -/

theorem parseStep_keyValueArg (hkey : '=' ∉ key) :
    parseStep (.options a (keyValueArg key value :: rest)) = keyValueOption a key value rest := by
  rw [parseStep, if_pos (isKeyValue_iff.mpr ⟨key, value, rfl⟩), keyOf_keyValueArg hkey,
    valueOf_keyValueArg hkey]

theorem parseStep_keyValue (k : Setting) :
    parseStep (.options a (keyValueArg k.name value :: rest)) =
      .inl (.options (k.set value a) rest) := by
  rw [parseStep_keyValueArg (by cases k <;> decide)]
  cases k <;> rfl

theorem parseStep_flag (hk : k.takesValue = false) :
    parseStep (.options a (flagArg k.name :: rest)) = .inl (.options (k.set value a) rest) := by
  cases k <;> first | rfl | cases hk

theorem parseStep_value (hk : k.takesValue = true) :
    parseStep (.options a (flagArg k.name :: rest)) =
      .inl (.options (k.set (lindex rest) a) rest.tail) := by
  cases k <;> first | rfl | cases hk

theorem parseStep_keyValue_shape :
    parseStep (.options a (keyValueArg shapeName value :: rest)) =
      if opensBracket value then .inl (.appendValue a value rest) else .inr .usage := by
  rw [parseStep_keyValueArg (by decide)]
  rfl

theorem parseStep_flag_shape :
    parseStep (.options a (flagArg shapeName :: rest)) =
      if opensBracket (lindex rest) then
        .inl (.appendShape { a with outputShape := lindex rest } rest.tail)
      else .inr .usage := rfl

/-- An unknown name in front of an equals sign. -/
theorem keyValueOption_cases (a : Arguments) (key value : Text) :
    (∃ k : Setting, key = k.name) ∨ key = shapeName ∨
      ∀ rest, keyValueOption a key value rest = .inr .usage := by
  by_cases hk : ∃ k : Setting, key = k.name
  · exact .inl hk
  · by_cases hshape : key = shapeName
    · exact .inr (.inl hshape)
    · have hne : ∀ k : Setting, key ≠ k.name := not_exists.mp hk
      refine .inr (.inr fun rest => ?_)
      exact (if_neg (hne .systemPerformance)).trans <| (if_neg (hne .coreIpPerformance)).trans <|
        (if_neg (hne .functional)).trans <| (if_neg (hne .numInferences)).trans <|
        (if_neg (hne .input)).trans <| (if_neg (hne .arch)).trans <| if_neg hshape

theorem flagOption_cases (a : Arguments) (arg : Text) :
    (∃ k : Setting, arg = flagArg k.name) ∨ arg = flagArg shapeName ∨
      ∀ rest, flagOption a arg rest = .inr .usage := by
  by_cases hk : ∃ k : Setting, arg = flagArg k.name
  · exact .inl hk
  · by_cases hshape : arg = flagArg shapeName
    · exact .inr (.inl hshape)
    · have hne : ∀ k : Setting, arg ≠ flagArg k.name := not_exists.mp hk
      refine .inr (.inr fun rest => ?_)
      exact (if_neg (hne .systemPerformance)).trans <| (if_neg (hne .coreIpPerformance)).trans <|
        (if_neg (hne .functional)).trans <| (if_neg (hne .numInferences)).trans <|
        (if_neg (hne .input)).trans <| (if_neg (hne .arch)).trans <| if_neg hshape

/-- What an argument is, where the run looks for an option. -/
theorem option_cases (a : Arguments) (arg : Text) :
    (∃ k : Setting, ∃ value, arg = keyValueArg k.name value) ∨
      (∃ value, arg = keyValueArg shapeName value) ∨
      (∃ k : Setting, arg = flagArg k.name) ∨ arg = flagArg shapeName ∨
      ∀ rest, parseStep (.options a (arg :: rest)) = .inr .usage := by
  simp only [parseStep]
  by_cases hkv : isKeyValue arg = true
  · simp only [if_pos hkv]
    have harg := eq_keyValueArg hkv
    rcases keyValueOption_cases a (keyOf arg) (valueOf arg) with ⟨k, hk⟩ | hshape | husage
    · exact .inl ⟨k, valueOf arg, hk ▸ harg⟩
    · exact .inr (.inl ⟨valueOf arg, hshape ▸ harg⟩)
    · exact .inr (.inr (.inr (.inr husage)))
  · simp only [if_neg hkv]
    exact .inr (.inr (flagOption_cases a arg))

end AlteraWorkshops.FpgaAi
