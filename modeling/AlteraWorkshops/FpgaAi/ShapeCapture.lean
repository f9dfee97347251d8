import AlteraWorkshops.FpgaAi.Arguments

/-! When the loops over the arguments come to an end. The two loops that put a shape
together go on until a piece ends with a bracket; an index past the end of `argv` only adds
blanks, so without such a piece they go on forever. -/

namespace AlteraWorkshops.FpgaAi

open Loops Tcl

variable {a : Arguments} {first value : Text} {argv more rest w : List Text}

/-! ### Pieces of a shape -/

theorem closesBracket_iff_getLast? :
    closesBracket value = true ↔ value.getLast? = some ']' := by
  rw [closesBracket_iff, List.getLast?_eq_some_iff]

/-- Only the end of a text decides. -/
theorem closesBracket_append_right (front : Text) (hne : value ≠ []) :
    closesBracket (front ++ value) = closesBracket value := by
  rw [Bool.eq_iff_iff, closesBracket_iff_getLast?, closesBracket_iff_getLast?,
    List.getLast?_append_of_ne_nil _ hne]

theorem closesBracket_append (value piece : Text) :
    closesBracket (value ++ ' ' :: piece) = closesBracket piece := by
  cases piece with
  | nil => exact closesBracket_append_right value (List.cons_ne_nil _ _)
  | cons c piece =>
    rw [List.append_cons]
    exact closesBracket_append_right (value ++ [' ']) (List.cons_ne_nil _ _)

/-- The pieces end with the first of them that has the closing bracket. -/
def closesAt : Text → List Text → Bool
  | first, [] => closesBracket first
  | first, piece :: more => !closesBracket first && closesAt piece more

/-- What the pieces are put together to. -/
def joined : Text → List Text → Text
  | value, [] => value
  | value, piece :: more => joined (value ++ ' ' :: piece) more

theorem closesAt_or (first : Text) (more : List Text) :
    (∃ pieces rest, more = pieces ++ rest ∧ closesAt first pieces = true) ∨
      ∀ piece ∈ first :: more, closesBracket piece = false := by
  induction more generalizing first with
  | nil =>
    cases h : closesBracket first with
    | true => exact .inl ⟨[], [], rfl, h⟩
    | false => exact .inr (by simpa using h)
  | cons piece more ih =>
    cases h : closesBracket first with
    | true => exact .inl ⟨[], piece :: more, rfl, h⟩
    | false =>
      rcases ih piece with ⟨pieces, rest, rfl, hclose⟩ | hopen
      · exact .inl ⟨piece :: pieces, rest, rfl, by rw [closesAt, h, hclose]; rfl⟩
      · exact .inr (List.forall_mem_cons.mpr ⟨h, hopen⟩)

/-! ### The two loops -/

theorem reaches_appendValue (hv : closesBracket value = closesBracket first)
    (h : closesAt first more = true) :
    Reaches parseStep (.appendValue a value (more ++ rest))
      (.options { a with outputShape := joined value more } rest) := by
  induction more generalizing value first with
  | nil =>
    refine .one ?_
    rw [parseStep, if_pos (hv.trans h)]
    rfl
  | cons piece more ih =>
    rw [closesAt, Bool.and_eq_true, Bool.not_eq_true'] at h
    have hstep : parseStep (.appendValue a value (piece :: more ++ rest)) =
        .inl (.appendValue a (value ++ ' ' :: piece) (more ++ rest)) := by
      rw [parseStep, if_neg (by rw [hv, h.1]; exact Bool.false_ne_true)]
      rfl
    exact .next hstep (ih (closesBracket_append value piece) h.2)

/-- The loop over `output_shape` is the loop over `value` with the text in place. -/
theorem halts_appendShape (a : Arguments) (value : Text) (rest : List Text) (outcome : Outcome) :
    Halts parseStep (.appendShape { a with outputShape := value } rest) outcome ↔
      Halts parseStep (.appendValue a value rest) outcome := by
  refine halts_iff_of_lockstep (R := fun s t => ∃ value rest,
    s = .appendShape { a with outputShape := value } rest ∧ t = .appendValue a value rest) ?_
    ⟨value, rest, rfl, rfl⟩
  rintro s t ⟨value, rest, rfl, rfl⟩
  cases h : closesBracket value with
  | true => exact .inl (by simp [parseStep, h])
  | false =>
    exact .inr ⟨_, _, by simp only [parseStep, h]; rfl, by simp only [parseStep, h]; rfl,
      value ++ ' ' :: lindex rest, rest.tail, rfl, rfl⟩

theorem not_terminates_appendValue
    (h : ∀ piece ∈ value :: rest, closesBracket piece = false) :
    ¬Terminates parseStep (.appendValue a value rest) := by
  refine not_terminates_of_invariant (P := fun s => ∃ value rest, s = .appendValue a value rest ∧
    ∀ piece ∈ value :: rest, closesBracket piece = false) ?_ ⟨value, rest, rfl, h⟩
  rintro s ⟨value, rest, rfl, h⟩
  have hvalue : closesBracket value = false := h value List.mem_cons_self
  refine ⟨.appendValue a (value ++ ' ' :: lindex rest) rest.tail, by simp [parseStep, hvalue],
    _, _, rfl, ?_⟩
  cases rest with
  | nil =>
    have hblank : closesBracket (value ++ [' ']) = false := closesBracket_append value []
    exact List.forall_mem_singleton.mpr hblank
  | cons piece rest =>
    have hpiece : closesBracket (value ++ ' ' :: piece) = false :=
      (closesBracket_append value piece).trans (h piece (by simp))
    exact List.forall_mem_cons.mpr ⟨hpiece, fun p hp =>
      h p (List.mem_cons_of_mem _ (List.mem_cons_of_mem _ hp))⟩

/-! ### Complete options and open ones -/

/-- The arguments of one option, with its value. -/
inductive IsOption : List Text → Prop
  | keyValue (k : Setting) (value : Text) : IsOption [keyValueArg k.name value]
  | flag {k : Setting} (hk : k.takesValue = false) : IsOption [flagArg k.name]
  | value {k : Setting} (hk : k.takesValue = true) (value : Text) :
      IsOption [flagArg k.name, value]
  | keyValueShape {first : Text} {more : List Text} (hopens : opensBracket first = true)
      (hcloses : closesAt first more = true) : IsOption (keyValueArg shapeName first :: more)
  | shape {first : Text} {more : List Text} (hopens : opensBracket first = true)
      (hcloses : closesAt first more = true) : IsOption (flagArg shapeName :: first :: more)

/-- A shape with an opening bracket and no argument that closes it. -/
inductive IsUnclosedShape : List Text → Prop
  | keyValue {first : Text} {more : List Text} (hopens : opensBracket first = true)
      (hopen : ∀ piece ∈ first :: more, closesBracket piece = false) :
      IsUnclosedShape (keyValueArg shapeName first :: more)
  | value {first : Text} {more : List Text} (hopens : opensBracket first = true)
      (hopen : ∀ piece ∈ first :: more, closesBracket piece = false) :
      IsUnclosedShape (flagArg shapeName :: first :: more)

/-- A shape without an opening bracket is not taken. -/
theorem halts_keyValue_shape_usage (hopens : opensBracket first = false) :
    Halts parseStep (.options a (keyValueArg shapeName first :: rest)) .usage := by
  apply Halts.done
  rw [parseStep_keyValue_shape, hopens]
  rfl

theorem halts_flag_shape_usage (hopens : opensBracket (lindex rest) = false) :
    Halts parseStep (.options a (flagArg shapeName :: rest)) .usage := by
  apply Halts.done
  rw [parseStep_flag_shape, hopens]
  rfl

/-- Where an opened shape goes from its first piece on. -/
theorem halts_keyValue_shape (hopens : opensBracket first = true) (outcome : Outcome) :
    Halts parseStep (.options a (keyValueArg shapeName first :: rest)) outcome ↔
      Halts parseStep (.appendValue a first rest) outcome :=
  halts_next (by rw [parseStep_keyValue_shape, if_pos hopens])

theorem halts_flag_shape (hopens : opensBracket first = true) (outcome : Outcome) :
    Halts parseStep (.options a (flagArg shapeName :: first :: rest)) outcome ↔
      Halts parseStep (.appendValue a first rest) outcome := by
  refine (halts_next ?_).trans (halts_appendShape a first rest outcome)
  rw [parseStep_flag_shape]
  exact if_pos hopens

/-- What is behind a complete option is read as if the option were not there, from other
values of the variables. -/
theorem IsOption.halts_iff (hw : IsOption w) (a : Arguments) :
    ∃ a', ∀ rest outcome, Halts parseStep (.options a (w ++ rest)) outcome ↔
      Halts parseStep (.options a' rest) outcome := by
  cases hw with
  | keyValue k value => exact ⟨k.set value a, fun rest _ => halts_next (parseStep_keyValue k)⟩
  | @flag k hk => exact ⟨k.set [] a, fun rest _ => halts_next (parseStep_flag hk)⟩
  | @value k hk value => exact ⟨k.set value a, fun rest _ => halts_next (parseStep_value hk)⟩
  | keyValueShape hopens hcloses =>
    exact ⟨_, fun rest outcome => (halts_keyValue_shape hopens outcome).trans
      (reaches_appendValue rfl hcloses).halts_iff⟩
  | shape hopens hcloses =>
    exact ⟨_, fun rest outcome => (halts_flag_shape hopens outcome).trans
      (reaches_appendValue rfl hcloses).halts_iff⟩

theorem halts_flatten {ws : List (List Text)} (hws : ∀ w ∈ ws, IsOption w) (a : Arguments) :
    ∃ a', ∀ rest outcome, Halts parseStep (.options a (ws.flatten ++ rest)) outcome ↔
      Halts parseStep (.options a' rest) outcome := by
  induction ws generalizing a with
  | nil => exact ⟨a, fun rest outcome => Iff.rfl⟩
  | cons w ws ih =>
    obtain ⟨hw, hws⟩ := List.forall_mem_cons.mp hws
    obtain ⟨a₁, h₁⟩ := hw.halts_iff a
    obtain ⟨a₂, h₂⟩ := ih hws a₁
    refine ⟨a₂, fun rest outcome => ?_⟩
    rw [List.flatten_cons, List.append_assoc, h₁, h₂]

theorem IsUnclosedShape.not_terminates (h : IsUnclosedShape rest) (a : Arguments) :
    ¬Terminates parseStep (.options a rest) := by
  rintro ⟨outcome, houtcome⟩
  cases h with
  | keyValue hopens hopen =>
    exact not_terminates_appendValue hopen ⟨_, (halts_keyValue_shape hopens outcome).mp houtcome⟩
  | value hopens hopen =>
    exact not_terminates_appendValue hopen ⟨_, (halts_flag_shape hopens outcome).mp houtcome⟩

/-! ### The loop over `argv` -/

/-- An option is complete, ends the run, or is a shape that is not closed. -/
theorem first_option (a : Arguments) (arg : Text) (rest : List Text) :
    (∃ w rest', arg :: rest = w ++ rest' ∧ w ≠ [] ∧ IsOption w) ∨
      Terminates parseStep (.options a (arg :: rest)) ∨ IsUnclosedShape (arg :: rest) := by
  rcases option_cases a arg with ⟨k, value, rfl⟩ | ⟨first, rfl⟩ | ⟨k, rfl⟩ | rfl | husage
  · exact .inl ⟨_, rest, rfl, List.cons_ne_nil _ _, .keyValue k value⟩
  · cases hopens : opensBracket first with
    | false => exact .inr (.inl ⟨.usage, halts_keyValue_shape_usage hopens⟩)
    | true =>
      rcases closesAt_or first rest with ⟨pieces, rest', rfl, hcloses⟩ | hopen
      · exact .inl ⟨_, rest', rfl, List.cons_ne_nil _ _, .keyValueShape hopens hcloses⟩
      · exact .inr (.inr (.keyValue hopens hopen))
  · cases hk : k.takesValue with
    | false => exact .inl ⟨_, rest, rfl, List.cons_ne_nil _ _, .flag hk⟩
    | true =>
      cases rest with
      | nil => exact .inr (.inl ⟨_, .next (parseStep_value hk) (.done rfl)⟩)
      | cons value rest => exact .inl ⟨_, rest, rfl, List.cons_ne_nil _ _, .value hk value⟩
  · cases hopens : opensBracket (lindex rest) with
    | false => exact .inr (.inl ⟨.usage, halts_flag_shape_usage hopens⟩)
    | true =>
      cases rest with
      | nil => cases hopens
      | cons first rest =>
        rcases closesAt_or first rest with ⟨pieces, rest', rfl, hcloses⟩ | hopen
        · exact .inl ⟨_, rest', rfl, List.cons_ne_nil _ _, .shape hopens hcloses⟩
        · exact .inr (.inr (.value hopens hopen))
  · exact .inr (.inl ⟨.usage, .done (husage rest)⟩)

/-- By induction on the number of arguments, since every complete option takes some. -/
theorem terminates_or (a : Arguments) (argv : List Text) :
    Terminates parseStep (.options a argv) ∨
      ∃ (ws : List (List Text)) (rest : List Text), argv = ws.flatten ++ rest ∧
        (∀ w ∈ ws, IsOption w) ∧ IsUnclosedShape rest := by
  induction hn : argv.length using Nat.strong_induction_on generalizing a argv with
  | _ n ih =>
    cases argv with
    | nil => exact .inl ⟨_, .done rfl⟩
    | cons arg rest =>
      rcases first_option a arg rest with ⟨w, rest', heq, hne, hw⟩ | hterm | hopen
      · obtain ⟨a', ha'⟩ := hw.halts_iff a
        have hlt : rest'.length < n := by
          have hpos := List.length_pos_iff.mpr hne
          rw [← hn, heq, List.length_append]
          omega
        rw [heq]
        rcases ih _ hlt a' rest' rfl with ⟨outcome, h⟩ | ⟨ws, rest'', rfl, hws, hopen⟩
        · exact .inl ⟨outcome, (ha' rest' outcome).mpr h⟩
        · exact .inr ⟨w :: ws, rest'', by simp, List.forall_mem_cons.mpr ⟨hw, hws⟩, hopen⟩
      · exact .inl hterm
      · exact .inr ⟨[], arg :: rest, rfl, by simp, hopen⟩

/-- `parse_args` comes to its end unless some complete options are followed by a shape that
is not closed. -/
theorem parse_args_terminates_iff (argv : List Text) :
    (∃ outcome, ParsesTo argv outcome) ↔
      ¬∃ (ws : List (List Text)) (rest : List Text), argv = ws.flatten ++ rest ∧
        (∀ w ∈ ws, IsOption w) ∧ IsUnclosedShape rest := by
  constructor
  · rintro ⟨outcome, h⟩ ⟨ws, rest, rfl, hws, hopen⟩
    obtain ⟨a', ha'⟩ := halts_flatten hws {}
    exact hopen.not_terminates a' ⟨outcome, (ha' rest outcome).mp h⟩
  · exact fun h => (terminates_or {} argv).resolve_right h

theorem parse_args_not_terminates :
    ¬∀ argv : List Text, ∃ outcome, ParsesTo argv outcome := by
  intro h
  have hopen : IsUnclosedShape [keyValueArg shapeName "[1,2,3".toList] :=
    .keyValue rfl (by decide)
  exact hopen.not_terminates {} (h _)

end AlteraWorkshops.FpgaAi
