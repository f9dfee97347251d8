import AlteraWorkshops.FpgaAi.FunctionalRun
import AlteraWorkshops.FpgaAi.Shapes
import AlteraWorkshops.Tcl.Numbers

/-! A functional run with the number of inferences as it is given on the command line. The
text is compared three times and never checked: with zero in `main`, below zero in
`validate_args`, and with the number of the next inference in the loop. What is not a numeral
is compared as a text there. -/

namespace AlteraWorkshops.FpgaAi

open Effects Script Tcl Text

variable {hw : Hardware} {inputFile : File} {C H W : ℤ} {archFile : Option ℤ}
  {numInferences : Text} {fuel n : ℕ} {l : List Event}

/-! ### The procedures -/

def validateArgsText (inputFile : File) (numInferences : Text) : Proc ℤ := do
  when (less numInferences ['0']) (stop .numberOfInferences)
  match inputFile.data with
  | none => stop (.noSuchFile inputFile.path)
  | some data => do
    let fileSize : ℤ := data.length
    when (fileSize.fmod axiStreamDataWidthBytes ≠ 0) (stop .inputNotAligned)
    return fileSize

/-- `main_functional` from `assert_reset` on, for as many rounds as the fuel allows; the
result is whether the loop came to its end. -/
def runFunctionalText (hw : Hardware) (fuel : ℕ) (numInferences : Text) (inputFile : File)
    (fileSize outputStreamerTransfers : ℤ) : Proc Bool := do
  assertReset
  initializeCoredla
  forWhile (fun i => lessEqual (decimal i) numInferences)
    (fun i => inference hw (inputFile.data.getD []) fileSize outputStreamerTransfers i) fuel 1

def mainFunctionalText (hw : Hardware) (fuel : ℕ) (numInferences : Text) (inputFile : File)
    (C H W : ℤ) (archFile : Option ℤ) : Proc Bool := do
  let cvec ← parseCvec archFile
  let fileSize ← validateArgsText inputFile numInferences
  when (fileSize > ingressOnChipMemorySizeBytes) (emit (.puts (.inputPartitioned inputFile.path)))
  let outputStreamerTransfers ← calulateEgressAxiTransfers C H W cvec
  runFunctionalText hw fuel numInferences inputFile fileSize outputStreamerTransfers

/-- The functional branch of `main`. -/
def mainText (hw : Hardware) (fuel : ℕ) (numInferences : Text) (inputFile : File) (C H W : ℤ)
    (archFile : Option ℤ) : Proc Bool := do
  when (equal numInferences ['0']) (stop .numberOfInferences)
  mainFunctionalText hw fuel numInferences inputFile C H W archFile

/-! ### Comparisons with numbers -/

/-- A text that is not above zero, as a number or as a text. -/
def NotPositive (s : Text) : Prop :=
  match numberOf s with
  | some (.finite value) => value ≤ 0
  | some (.infinite negative) => negative = true
  | some .nan => False
  | none => s < ['0']

theorem numberOf_zero : numberOf ['0'] = some (.finite 0) := rfl

theorem compareOperands_of_text {s t : Text} (hs : numberOf s = none) :
    compareOperands s t = some (compareText s t) := by
  rw [compareOperands, hs]

theorem compareOperands_of_numbers {s t : Text} {x y : Number} (hs : numberOf s = some x)
    (ht : numberOf t = some y) : compareOperands s t = x.compare y := by
  rw [compareOperands, hs, ht]

/-- What makes the run stop for the number of inferences. -/
theorem equal_or_less_zero_iff (s : Text) :
    equal s ['0'] = true ∨ less s ['0'] = true ↔ NotPositive s := by
  rw [equal, less, decide_eq_true_iff, decide_eq_true_iff, NotPositive]
  cases hs : numberOf s with
  | none =>
    have hne : s ≠ ['0'] := by
      rintro rfl
      rw [numberOf_zero] at hs
      cases hs
    rw [compareOperands_of_text hs]
    simp only [compareText, Option.some_inj]
    split_ifs with hlt <;> simp [hlt]
  | some x =>
    rw [compareOperands_of_numbers hs numberOf_zero]
    cases x with
    | finite value =>
      simp only [Number.compare, Option.some_inj, compare_eq_iff_eq, compare_lt_iff_lt]
      exact ⟨fun h => h.elim le_of_eq le_of_lt, eq_or_lt_of_le⟩
    | infinite negative => cases negative <;> simp [Number.compare]
    | nan => simp [Number.compare]

/-- The loop test, for a number. -/
theorem lessEqual_decimal {s : Text} (hs : numberOf s = some (.finite (n : ℚ))) {i : ℕ}
    (hi : 0 < i) : lessEqual (decimal i) s = decide (i ≤ n) := by
  have hcompare : compareOperands (decimal i) s = some (compare (i : ℚ) n) := by
    rw [compareOperands_of_numbers (numberOf_decimal hi) hs]
    rfl
  rw [lessEqual, hcompare, Bool.eq_iff_iff]
  simp only [Option.some_inj, Bool.or_eq_true, decide_eq_true_eq, compare_lt_iff_lt,
    compare_eq_iff_eq, Nat.cast_lt, Nat.cast_inj]
  exact Nat.le_iff_lt_or_eq.symm

/-! ### Up to the loop -/

/-- What `main` does before the board is set up: the sizes of the input and of the output. -/
def prepare (numInferences : Text) (inputFile : File) (C H W : ℤ) (archFile : Option ℤ) :
    Proc (ℤ × ℤ) := do
  when (equal numInferences ['0']) (stop .numberOfInferences)
  let cvec ← parseCvec archFile
  let fileSize ← validateArgsText inputFile numInferences
  when (fileSize > ingressOnChipMemorySizeBytes) (emit (.puts (.inputPartitioned inputFile.path)))
  let outputStreamerTransfers ← calulateEgressAxiTransfers C H W cvec
  return (fileSize, outputStreamerTransfers)

theorem mainText_eq : mainText hw fuel numInferences inputFile C H W archFile =
    prepare numInferences inputFile C H W archFile >>= fun sizes =>
      runFunctionalText hw fuel numInferences inputFile sizes.1 sizes.2 := by
  simp only [mainText, mainFunctionalText, prepare, bind_assoc, pure_bind]

theorem validateArgsText_eq : validateArgsText inputFile numInferences =
    if less numInferences ['0'] = true then stop .numberOfInferences
    else validateArgs inputFile 0 := by
  unfold validateArgsText validateArgs
  by_cases h : less numInferences ['0'] = true
  · rw [if_pos h, when_stop_bind h]
  · rw [if_neg h, when_bind_of_not h]
    exact Eq.symm (when_bind_of_not (lt_irrefl (0 : ℤ)) _ _)

/-- The arguments other than the number of inferences: an input file that fills whole
transfers, a vector size, and a shape with an output. -/
structure GoodArguments (inputFile : File) (C H W : ℤ) (archFile : Option ℤ) (input : Bytes)
    (cvec : ℤ) : Prop where
  data : inputFile.data = some input
  aligned : 16 ∣ input.length
  arch : archFile = some cvec
  divisor : ¬(8 ∣ C ∧ cvec = 0)
  positive : 0 < egressBeats C H W cvec

/-- How the preparation ends: a bad argument stops it, good ones give the sizes. -/
def Prepared (numInferences : Text) (inputFile : File) (C H W : ℤ) (archFile : Option ℤ) :
    Except Stop (ℤ × ℤ) → Prop
  | .error _ => NotPositive numInferences ∨
      ¬∃ input cvec, GoodArguments inputFile C H W archFile input cvec
  | .ok sizes => ¬NotPositive numInferences ∧
      ∃ input cvec, GoodArguments inputFile C H W archFile input cvec ∧
        sizes = ((input.length : ℤ), egressBeats C H W cvec * 16)

theorem ends_validateArgsText (inputFile : File) (numInferences : Text) :
    Ends (validateArgsText inputFile numInferences) l fun r e => ops e = [] ∧
      match r with
      | .error _ => less numInferences ['0'] = true ∨
          ¬∃ input, inputFile.data = some input ∧ 16 ∣ input.length
      | .ok fileSize => ¬less numInferences ['0'] = true ∧
          ∃ input, inputFile.data = some input ∧ 16 ∣ input.length ∧ fileSize = input.length := by
  rw [validateArgsText_eq]
  obtain ⟨path, data⟩ := inputFile
  split_ifs with hless
  · exact Ends.stop ⟨rfl, .inl hless⟩
  · cases data with
    | none => exact Ends.stop ⟨rfl, .inr (by simp)⟩
    | some input =>
      rw [validateArgs_eq, if_neg (lt_irrefl 0)]
      split_ifs with hdvd
      · exact Ends.pure ⟨rfl, hless, input, rfl, hdvd, rfl⟩
      · exact Ends.stop ⟨rfl, .inr (by simpa using hdvd)⟩

theorem ends_calulateEgressAxiTransfers (C H W cvec : ℤ) :
    Ends (calulateEgressAxiTransfers C H W cvec) l fun r e => ops e = [] ∧
      match r with
      | .error _ => 8 ∣ C ∧ cvec = 0 ∨ egressBeats C H W cvec ≤ 0
      | .ok T => ¬(8 ∣ C ∧ cvec = 0) ∧ 0 < egressBeats C H W cvec ∧
          T = egressBeats C H W cvec * 16 := by
  rw [calulateEgressAxiTransfers_eq]
  split_ifs with hdiv hbeats
  · exact Ends.stop ⟨rfl, .inl hdiv⟩
  · exact Ends.stop ⟨rfl, .inr hbeats⟩
  · apply Ends.bind_ok (ends_warning _ _)
    intro e he
    apply Ends.pure
    rw [List.append_nil]
    exact ⟨he, hdiv, not_le.mp hbeats, rfl⟩

/-- Nothing is transferred before the board is set up. -/
theorem ends_prepare (numInferences : Text) (inputFile : File) (C H W : ℤ)
    (archFile : Option ℤ) :
    Ends (prepare numInferences inputFile C H W archFile) [] fun r e =>
      ops e = [] ∧ Prepared numInferences inputFile C H W archFile r := by
  unfold prepare
  by_cases hzero : equal numInferences ['0'] = true
  · rw [when_stop_bind hzero]
    exact Ends.stop ⟨rfl, .inl ((equal_or_less_zero_iff _).mp (.inl hzero))⟩
  rw [when_bind_of_not hzero]
  cases archFile with
  | none =>
    apply Ends.stop
    refine ⟨rfl, .inr ?_⟩
    rintro ⟨input, cvec, hgood⟩
    cases hgood.arch
  | some cvec =>
    rw [parseCvec, pure_bind]
    apply Ends.bind (ends_validateArgsText inputFile numInferences)
    · rintro fileSize e ⟨he, hless, input, hinput, hdvd, rfl⟩
      have hpositive : ¬NotPositive numInferences := fun h =>
        ((equal_or_less_zero_iff _).mpr h).elim hzero hless
      apply Ends.bind_ok (ends_warning _ _)
      intro e' he'
      apply Ends.bind (ends_calulateEgressAxiTransfers C H W cvec)
      · rintro T e'' ⟨he'', hdiv, hbeats, rfl⟩
        apply Ends.pure
        simp only [ops_append, he, he', he'', List.append_nil]
        exact ⟨trivial, hpositive, input, cvec, ⟨hinput, hdvd, rfl, hdiv, hbeats⟩, rfl⟩
      · rintro reason e'' ⟨he'', hbad⟩
        simp only [ops_append, he, he', he'', List.append_nil]
        refine ⟨trivial, .inr ?_⟩
        rintro ⟨_, cvec', hgood⟩
        obtain rfl := Option.some.inj hgood.arch
        exact hbad.elim hgood.divisor hgood.positive.not_ge
    · rintro reason e ⟨he, hbad⟩
      refine ⟨he, hbad.imp (fun hless => (equal_or_less_zero_iff _).mp (.inr hless)) ?_⟩
      rintro hnone ⟨input, cvec', hgood⟩
      exact hnone ⟨input, hgood.data, hgood.aligned⟩

/-! ### The run -/

/-- The run stops, and no descriptor has been queued by then. -/
def StopsUnqueued (run : ℕ → Except Stop Bool × List Event) : Prop :=
  ∃ reason e, ops e = [] ∧ ∀ fuel, run fuel = (.error reason, e)

/-- With fuel for more than `n` rounds the run ends, and it has made the transfers of `n`
inferences over the input file and no others. -/
def Performs (run : ℕ → Except Stop Bool × List Event) (inputFile : File) (n : ℕ) : Prop :=
  ∃ (input : Bytes) (outputSize : ℤ) (done : List (Transfer input outputSize)),
    inputFile.data = some input ∧ done.length = n ∧
      ∀ fuel, n < fuel → (run fuel).1 = .ok true ∧ ops (run fuel).2 = runOps done

theorem stopsUnqueued_of_bad (hw : Hardware)
    (h : NotPositive numInferences ∨
      ¬∃ input cvec, GoodArguments inputFile C H W archFile input cvec) :
    StopsUnqueued fun fuel => mainText hw fuel numInferences inputFile C H W archFile [] := by
  obtain ⟨hops, hprepared⟩ := (ends_prepare numInferences inputFile C H W archFile).holds
  rcases hrun : prepare numInferences inputFile C H W archFile [] with ⟨reason | sizes, e⟩
  · rw [hrun] at hops
    refine ⟨reason, e, hops, fun fuel => ?_⟩
    beta_reduce
    rw [mainText_eq, bind_of_error hrun]
  · rw [hrun] at hprepared
    obtain ⟨hpositive, input, cvec, hgood, -⟩ := hprepared
    exact (h.elim hpositive fun h => h ⟨input, cvec, hgood⟩).elim

/-- With good arguments the run gets to the loop. -/
theorem ends_mainText {input : Bytes} {cvec : ℤ} {Q : Except Stop Bool → List Op → Prop}
    (hgood : GoodArguments inputFile C H W archFile input cvec)
    (hpositive : ¬NotPositive numInferences)
    (h : ∀ e₀, ops e₀ = [] → Ends (runFunctionalText hw fuel numInferences inputFile input.length
      (egressBeats C H W cvec * 16)) e₀ fun r e => Q r (ops e)) :
    Ends (mainText hw fuel numInferences inputFile C H W archFile) [] fun r e => Q r (ops e) := by
  rw [mainText_eq]
  refine Ends.bind (ends_prepare numInferences inputFile C H W archFile) ?_ ?_
  · rintro sizes e ⟨he, -, input', cvec', hgood', rfl⟩
    obtain rfl := Option.some.inj (hgood.data.symm.trans hgood'.data)
    obtain rfl := Option.some.inj (hgood.arch.symm.trans hgood'.arch)
    apply (h ([] ++ e) (by rw [List.nil_append, he])).mono
    intro r e' hq
    rw [ops_append, he]
    exact hq
  · rintro reason e ⟨-, hbad⟩
    exact (hbad.elim hpositive fun h => h ⟨input, cvec, hgood⟩).elim

/-- Without fuel the loop is not over, so that the run does not stop before it. -/
theorem not_stopsUnqueued {input : Bytes} {cvec : ℤ} (hw : Hardware)
    (hgood : GoodArguments inputFile C H W archFile input cvec)
    (hpositive : ¬NotPositive numInferences) :
    ¬StopsUnqueued fun fuel => mainText hw fuel numInferences inputFile C H W archFile [] := by
  rintro ⟨reason, e, -, hstops⟩
  have hloop : (mainText hw 0 numInferences inputFile C H W archFile []).1 = .ok false :=
    (ends_mainText (Q := fun r _ => r = .ok false) hgood hpositive fun e₀ _ => ⟨rfl⟩).holds
  have hstop := hstops 0
  beta_reduce at hstop
  rw [hstop] at hloop
  cases hloop

/-- How `n` rounds end: all inferences are made, unless a check fails. -/
def RoundsEnd (input : Bytes) (outputSize : ℤ) (n : ℕ) (ended : Bool) :
    Except Stop Bool → List Op → Prop
  | .ok b, os => b = ended ∧
      ∃ done : List (Transfer input outputSize), done.length = n ∧ os = runOps done
  | .error reason, _ => FailedCheck reason

/-- The board takes part in `n` whole inferences, whatever ends the loop. -/
theorem ends_rounds (hw : Hardware) {path : String} {input : Bytes} {cvec : ℤ} {e₀ : List Event}
    (hgood : GoodArguments ⟨path, some input⟩ C H W archFile input cvec) (n : ℕ) (ended : Bool) :
    Ends (runFunctional hw n ⟨path, some input⟩ input.length (egressBeats C H W cvec * 16) >>=
      fun _ => pure ended) e₀ fun r e =>
        RoundsEnd input (egressBeats C H W cvec * 16) n ended r (ops e) := by
  have hout : 16 ∣ egressBeats C H W cvec * 16 := Dvd.intro_left _ rfl
  have hnonneg : 0 ≤ egressBeats C H W cvec * 16 := by
    have := hgood.positive
    omega
  refine Ends.bind ((checked_runFunctional hw input _ n path _ e₀).and
    (ends_runFunctional hgood.aligned hout hnonneg n path)) ?_ ?_
  · rintro _ e ⟨-, done, rest, hops, hdone, -⟩
    obtain ⟨hlen, rfl⟩ := hdone rfl
    refine Ends.pure ⟨rfl, done, hlen, ?_⟩
    rw [List.append_nil, hops, List.append_nil]
  · rintro reason e ⟨hchecked, -⟩
    exact hchecked reason rfl

/-- With every check succeeding the rounds are all there. -/
theorem RoundsEnd.of_checksSucceed {input : Bytes} {outputSize : ℤ} {ended : Bool}
    {r : Except Stop Bool} {os : List Op} (h : RoundsEnd input outputSize n ended r os)
    (hsucceed : ChecksSucceed r) : r = .ok ended ∧
      ∃ done : List (Transfer input outputSize), done.length = n ∧ os = runOps done := by
  cases r with
  | ok b =>
    obtain ⟨rfl, hdone⟩ := h
    exact ⟨rfl, hdone⟩
  | error reason => exact absurd h (hsucceed reason rfl)

/-- A numeral for `n` lets the loop run as it does for `n`. -/
theorem runFunctionalText_of_integer {fileSize outputSize : ℤ}
    (hs : numberOf numInferences = some (.finite (n : ℚ))) (hfuel : n < fuel) :
    runFunctionalText hw fuel numInferences inputFile fileSize outputSize =
      runFunctional hw n inputFile fileSize outputSize >>= fun _ => pure true := by
  have htest : ∀ k < n, lessEqual (decimal (k + 1)) numInferences = true := fun k hk => by
    rw [lessEqual_decimal hs k.succ_pos]
    exact decide_eq_true hk
  have hend : lessEqual (decimal (n + 1)) numInferences = false := by
    rw [lessEqual_decimal hs n.succ_pos]
    exact decide_eq_false (Nat.not_succ_le_self n)
  rw [runFunctionalText, forWhile_eq_forRange hfuel htest hend, runFunctional]
  simp only [bind_assoc, Int.toNat_natCast]

/-- A number that is a positive integer is the number of inferences. -/
theorem performs_of_integer {input : Bytes} {cvec : ℤ}
    (hgood : GoodArguments inputFile C H W archFile input cvec) (hn : 0 < n)
    (hs : numberOf numInferences = some (.finite (n : ℚ)))
    (hsucceed : ∀ fuel,
      ChecksSucceed (mainText hw fuel numInferences inputFile C H W archFile []).1) :
    Performs (fun fuel => mainText hw fuel numInferences inputFile C H W archFile []) inputFile
      n := by
  obtain ⟨path, data⟩ := inputFile
  obtain rfl : data = some input := hgood.data
  have hpositive : ¬NotPositive numInferences := by
    rw [NotPositive, hs]
    exact not_le.mpr (Nat.cast_pos.mpr hn)
  have hsame : ∀ fuel, n < fuel → mainText hw fuel numInferences ⟨path, some input⟩ C H W archFile
      = mainText hw (n + 1) numInferences ⟨path, some input⟩ C H W archFile := fun fuel hfuel => by
    simp only [mainText_eq, runFunctionalText_of_integer hs hfuel,
      runFunctionalText_of_integer hs n.lt_succ_self]
  have hrun : Ends (mainText hw (n + 1) numInferences ⟨path, some input⟩ C H W archFile) []
      fun r e => RoundsEnd input (egressBeats C H W cvec * 16) n true r (ops e) := by
    refine ends_mainText hgood hpositive fun e₀ _ => ?_
    rw [runFunctionalText_of_integer hs n.lt_succ_self]
    exact ends_rounds hw hgood n true
  obtain ⟨hok, done, hlen, hops⟩ := hrun.holds.of_checksSucceed (hsucceed (n + 1))
  refine ⟨input, egressBeats C H W cvec * 16, done, rfl, hlen, fun fuel hfuel => ?_⟩
  beta_reduce
  rw [hsame fuel hfuel]
  exact ⟨hok, hops⟩

/-! ### Texts that are no numerals -/

theorem lessEqual_of_text {s t : Text} (ht : numberOf t = none) (h : s < t) :
    lessEqual s t = true := by
  have hcompare : compareOperands s t = some .lt := by
    rw [compareOperands, ht]
    cases numberOf s <;> exact congrArg some (if_pos h)
  rw [lessEqual, hcompare]
  rfl

/-- A text behind all numbers keeps the loop going, inference after inference. -/
theorem mainText_of_text {input : Bytes} {cvec : ℤ}
    (hgood : GoodArguments inputFile C H W archFile input cvec)
    (hs : numberOf numInferences = none) (hlarge : ∀ i, decimal i < numInferences) (fuel : ℕ)
    (hsucceed : ChecksSucceed (mainText hw fuel numInferences inputFile C H W archFile []).1) :
    let run := mainText hw fuel numInferences inputFile C H W archFile []
    run.1 = .ok false ∧ ∃ done : List (Transfer input (egressBeats C H W cvec * 16)),
      done.length = fuel ∧ ops run.2 = runOps done := by
  obtain ⟨path, data⟩ := inputFile
  obtain rfl : data = some input := hgood.data
  have hpositive : ¬NotPositive numInferences := by
    rw [NotPositive, hs]
    exact List.lt_asymm (hlarge 0)
  have hloop (fileSize outputSize : ℤ) :
      runFunctionalText hw fuel numInferences ⟨path, some input⟩ fileSize outputSize =
        runFunctional hw fuel ⟨path, some input⟩ fileSize outputSize >>= fun _ => pure false := by
    rw [runFunctionalText, forWhile_of_always fuel fun k => lessEqual_of_text hs (hlarge (k + 1)),
      runFunctional]
    simp only [bind_assoc, Int.toNat_natCast]
  have hrun : Ends (mainText hw fuel numInferences ⟨path, some input⟩ C H W archFile) []
      fun r e => RoundsEnd input (egressBeats C H W cvec * 16) fuel false r (ops e) := by
    refine ends_mainText hgood hpositive fun e₀ _ => ?_
    rw [hloop]
    exact ends_rounds hw hgood fuel false
  exact hrun.holds.of_checksSucceed hsucceed

/-- A text whose first character comes behind the digits. -/
theorem decimal_lt_of_letter {c : Char} {text : Text} (hc : '9' < c) (i : ℕ) :
    decimal i < c :: text := by
  have hdigit : ∀ d < 10, digitChar d < c := fun d hd => by
    have hle : digitChar d ≤ '9' := by interval_cases d <;> decide
    exact Char.not_le.mp fun h => Char.not_lt.mpr (Char.le_trans h hle) hc
  rcases Nat.eq_zero_or_pos i with rfl | hi
  · exact List.Lex.rel (hdigit 0 (by decide))
  · obtain ⟨d, ds, htext, -, hlt, -⟩ := decimal_eq_map hi
    rw [htext, List.map_cons]
    exact List.Lex.rel (hdigit d (hlt d List.mem_cons_self))

/-! ### The requested number -/

/-- The run stops before anything is queued, or the text is a positive integer and the run,
with every check succeeding, performs as many inferences. -/
def AsRequested (hw : Hardware) (numInferences : Text) (inputFile : File) (C H W : ℤ)
    (archFile : Option ℤ) : Prop :=
  StopsUnqueued (fun fuel => mainText hw fuel numInferences inputFile C H W archFile []) ∨
    ∃ n : ℕ, 0 < n ∧ numberOf numInferences = some (.finite n) ∧
      ((∀ fuel, ChecksSucceed (mainText hw fuel numInferences inputFile C H W archFile []).1) →
        Performs (fun fuel => mainText hw fuel numInferences inputFile C H W archFile [])
          inputFile n)

theorem asRequested_iff {input : Bytes} {cvec : ℤ} (hw : Hardware)
    (hgood : GoodArguments inputFile C H W archFile input cvec) :
    AsRequested hw numInferences inputFile C H W archFile ↔
      NotPositive numInferences ∨ ∃ n : ℕ, 0 < n ∧ numberOf numInferences = some (.finite n) := by
  constructor
  · rintro (hstops | ⟨n, hn, hs, -⟩)
    · exact .inl (by_contra fun h => not_stopsUnqueued hw hgood h hstops)
    · exact .inr ⟨n, hn, hs⟩
  · rintro (hbad | ⟨n, hn, hs⟩)
    · exact .inl (stopsUnqueued_of_bad hw (.inl hbad))
    · exact .inr ⟨n, hn, hs, performs_of_integer hgood hn hs⟩

/-- Whatever the board answers, the run does as it is told exactly if another argument is bad,
the number is zero or below or its text comes before that of zero, or it is a positive
integer. -/
theorem functional_run_count_iff (hw : Hardware) (numInferences : Text) (inputFile : File)
    (C H W : ℤ) (archFile : Option ℤ) :
    AsRequested hw numInferences inputFile C H W archFile ↔
      (¬∃ input cvec, GoodArguments inputFile C H W archFile input cvec) ∨
        NotPositive numInferences ∨
        ∃ n : ℕ, 0 < n ∧ numberOf numInferences = some (.finite n) := by
  by_cases h : ∃ input cvec, GoodArguments inputFile C H W archFile input cvec
  · obtain ⟨input, cvec, hgood⟩ := h
    rw [asRequested_iff hw hgood, or_iff_right (not_not.mpr ⟨input, cvec, hgood⟩)]
  · exact iff_of_true (.inl (stopsUnqueued_of_bad hw (.inr h))) (.inl h)

/-- There are boards on which every check succeeds. -/
theorem Responsive.checksSucceed {input : Bytes} {cvec : ℤ} {m : ℕ} (hresp : Responsive hw m)
    (hgood : GoodArguments inputFile C H W archFile input cvec) (hm : 0 < m)
    (hparts : numPartition (egressBeats C H W cvec * 16) egressOnChipMemorySizeBytes = m)
    (hpositive : ¬NotPositive numInferences) (fuel : ℕ) :
    ChecksSucceed (mainText hw fuel numInferences inputFile C H W archFile []).1 := by
  obtain ⟨path, data⟩ := inputFile
  obtain rfl : data = some input := hgood.data
  have hrun : Ends (mainText hw fuel numInferences ⟨path, some input⟩ C H W archFile) []
      fun r _ => ∃ b, r = .ok b := by
    refine ends_mainText (Q := fun r _ => ∃ b, r = .ok b) hgood hpositive fun e₀ h₀ => ?_
    apply Ends.bind_ok ends_assertReset
    intro e he
    apply Ends.bind_ok ends_initializeCoredla
    intro e' he'
    refine Ends.forWhile_ok (I := fun k l => egressDescriptors l + m = k * m) ?_
      fun k l hl => ?_
    · rw [egressDescriptors, ops_append, ops_append, h₀, he, he', Nat.one_mul]
      exact Nat.zero_add m
    · apply (hresp.inference hm hparts hl).mono
      rintro r e'' ⟨hr, hcount⟩
      exact ⟨hr, by rw [hcount, Nat.succ_mul]⟩
  obtain ⟨b, hb⟩ := hrun.holds
  rw [hb]
  exact fun _ h => by cases h

theorem goodArguments_sixteen : GoodArguments ⟨"input.bin", some (List.replicate 16 0)⟩ 8 1 1
    (some 8) (List.replicate 16 0) 8 where
  data := rfl
  aligned := by decide
  arch := rfl
  divisor := by decide
  positive := by decide

theorem functional_run_count_iff_two :
    Performs (fun fuel => mainText (ready 1) fuel "2".toList
      ⟨"input.bin", some (List.replicate 16 0)⟩ 8 1 1 (some 8) [])
      ⟨"input.bin", some (List.replicate 16 0)⟩ 2 := by
  have hs : numberOf "2".toList = some (.finite ((2 : ℕ) : ℚ)) := rfl
  have hpositive : ¬NotPositive "2".toList := by
    rw [NotPositive, hs]
    decide
  rcases (functional_run_count_iff (ready 1) _ _ _ _ _ _).mpr (.inr (.inr ⟨2, by decide, hs⟩))
    with hstops | ⟨n, -, hn, hperforms⟩
  · exact absurd hstops (not_stopsUnqueued _ goodArguments_sixteen hpositive)
  · obtain rfl : (2 : ℕ) = n := by
      have hcast : ((2 : ℕ) : ℚ) = n := by
        rw [hs] at hn
        injection hn with h
        injection h
      exact_mod_cast hcast
    exact hperforms
      ((responsive_ready 1).checksSucceed goodArguments_sixteen Nat.one_pos rfl hpositive)

/-- A word is not asked for a number: with every check succeeding, its run does not stop and
does not end. -/
theorem functional_run_count_word :
    ¬∀ (hw : Hardware) numInferences inputFile C H W archFile,
      (∀ fuel, ChecksSucceed (mainText hw fuel numInferences inputFile C H W archFile []).1) →
        AsRequested hw numInferences inputFile C H W archFile := by
  intro h
  have hs : numberOf "abc".toList = none := rfl
  have hpositive : ¬NotPositive "abc".toList := by
    rw [NotPositive, hs]
    exact List.lt_asymm (decimal_lt_of_letter (c := 'a') (by decide) 0)
  have hsucceed :=
    (responsive_ready 1).checksSucceed goodArguments_sixteen Nat.one_pos rfl hpositive
  rcases (asRequested_iff _ goodArguments_sixteen).mp (h _ _ _ _ _ _ _ hsucceed) with
    hbad | ⟨n, -, hn⟩
  · exact hpositive hbad
  · rw [hs] at hn
    cases hn

end AlteraWorkshops.FpgaAi
