import AlteraWorkshops.TimingClosure.Designs

/-! `top_answer` is `top` two edges of `clock0` late. The extra registers delay the operands
by one edge and the product by another; the denominator gets two more registers, so that
each product meets the denominator it meets in `top`. -/

namespace AlteraWorkshops.TimingClosure

open Clocked

variable {L : ℕ} (mult : Mult16x16) (div : Div32by16) (divider : Pipeline L) (inp : ℕ → Ports)
  (x : ℕ → Sample)

/-! ### Between two edges of `clock0` -/

/-- The operands before every instant. Both designs capture them alike. -/
def operands (inp : ℕ → Ports) : ℕ → Operands :=
  trace (fun r i => captureData0 i r) .initial inp

noncomputable def samples (inp : ℕ → Ports) : ℕ → Sample :=
  sampled (fun n => (inp n).clock0 = true) fun n => ⟨operands inp n, (inp n).denom⟩

/-- Registers behind `clock0`, next to the captured operands, run through the samples of its
edges. -/
theorem eq_trace_samples {σ : Type*} {edge : σ → Sample → σ} {s : ℕ → Operands × σ}
    (hinit : (s 0).1 = .initial)
    (hs : ∀ n, s (n + 1) = (captureData0 (inp n) (s n).1,
      if (inp n).clock0 then edge (s n).2 ⟨(s n).1, (inp n).denom⟩ else (s n).2)) (n : ℕ) :
    (s n).2 = trace edge (s 0).2 (samples inp) (edges inp n) := by
  have hoperands (n : ℕ) : (s n).1 = operands inp n := by
    induction n with
    | zero => exact hinit
    | succ n ih =>
      rw [hs]
      exact congrArg (captureData0 (inp n)) ih
  refine eq_trace_sampled (s := fun n => (s n).2) (fun n => ?_) n
  rw [hs, hoperands n]

theorem Top.run_eq_trace (n : ℕ) :
    (Top.run mult div divider inp n).2 =
      trace (Top.edge mult div) (.initial divider) (samples inp) (edges inp n) :=
  eq_trace_samples inp rfl (fun _ => rfl) n

theorem TopAnswer.run_eq_trace (n : ℕ) :
    (TopAnswer.run mult div divider inp n).2 =
      trace (TopAnswer.edge mult div) (.initial divider) (samples inp) (edges inp n) :=
  eq_trace_samples inp rfl (fun _ => rfl) n

/-! ### From edge to edge -/

/-- The product that the operands of a sample have, over the denominator of another. -/
def quotient (mult : Mult16x16) (div : Div32by16) (x y : Sample) :
    StdLogicVector 32 × StdLogicVector 16 :=
  div (mult x.operands.dataaR x.operands.databR) y.denom

/-- `top` divides by the denominator of two edges before. -/
theorem Top.dividerInput_eq (r : Top.Regs L) (k : ℕ) :
    Top.dividerInput mult div (x (k + 2)) (trace (Top.edge mult div) r x (k + 2)) =
      quotient mult div (x (k + 2)) (x k) := rfl

/-- `top_answer` divides the product of the operands of two edges before by the
denominator of four edges before. -/
theorem TopAnswer.dividerInput_eq (r : TopAnswer.Regs L) (k : ℕ) :
    TopAnswer.dividerInput div (trace (TopAnswer.edge mult div) r x (k + 4)) =
      quotient mult div (x (k + 2)) (x k) := rfl

/-- The outputs of `top` after edge `k + L + 3`. -/
theorem Top.outputs_eq (r : Top.Regs L) (k : ℕ) :
    let s := trace (Top.edge mult div) r x (k + L + 3)
    (s.result, s.remain) = quotient mult div (x (k + 2)) (x k) := by
  let s := trace (Top.edge mult div) r x
  have hout := register_delay (p := fun j => (s j).divider)
    (q := fun j => ((s j).result, (s j).remain)) (fun _ => rfl) (fun _ => rfl) (k + 2)
  have hindex : k + 2 + L + 1 = k + L + 3 := by omega
  rw [hindex] at hout
  exact hout.trans (Top.dividerInput_eq mult div x r k)

/-- The outputs of `top_answer` after edge `k + L + 5`. -/
theorem TopAnswer.outputs_eq (r : TopAnswer.Regs L) (k : ℕ) :
    let s := trace (TopAnswer.edge mult div) r x (k + L + 5)
    (s.result, s.remain) = quotient mult div (x (k + 2)) (x k) := by
  let s := trace (TopAnswer.edge mult div) r x
  have hout := register_delay (p := fun j => (s j).divider)
    (q := fun j => ((s j).result, (s j).remain)) (fun _ => rfl) (fun _ => rfl) (k + 4)
  have hindex : k + 4 + L + 1 = k + L + 5 := by omega
  rw [hindex] at hout
  exact hout.trans (TopAnswer.dividerInput_eq mult div x r k)

/-! ### The blocks on numbers -/

/-- The number on a vector, when every bit is driven. -/
def number? {w : ℕ} (v : StdLogicVector w) : Option ℕ :=
  if ∀ i, v i = .zero ∨ v i = .one then some (Nat.ofBits fun i => decide (v i = .one)) else none

def StdLogicVector.ofNat (w n : ℕ) : StdLogicVector w :=
  fun i => if n.testBit i then .one else .zero

def unknown (w : ℕ) : StdLogicVector w := fun _ => .X

def unsignedMult : Mult16x16 := fun dataa datab =>
  match number? dataa, number? datab with
  | some a, some b => .ofNat 32 (a * b)
  | _, _ => unknown 32

def unsignedDiv : Div32by16 := fun numer denom =>
  match number? numer, number? denom with
  | some a, some b =>
    if b = 0 then (unknown 32, unknown 16) else (.ofNat 32 (a / b), .ofNat 16 (a % b))
  | _, _ => (unknown 32, unknown 16)

/-! ### The refinement -/

/-- Once the dividers have drained what they held at power-up, the outputs of `top_answer`
are those that `top` had two edges of `clock0` before. -/
theorem top_answer_refines (divider divider' : Pipeline L)
    (inp : ℕ → Ports) (n m : ℕ) (hn : L + 4 ≤ edges inp n) (hm : edges inp m = edges inp n + 2) :
    (TopAnswer.run mult div divider' inp m).2.result = (Top.run mult div divider inp n).2.result ∧
      (TopAnswer.run mult div divider' inp m).2.remain =
        (Top.run mult div divider inp n).2.remain := by
  obtain ⟨k, hk⟩ : ∃ k, edges inp n = k + L + 3 := ⟨edges inp n - L - 3, by omega⟩
  have hk' : edges inp m = k + L + 5 := by omega
  have htop := Top.outputs_eq mult div (samples inp) (.initial divider) k
  have hanswer := TopAnswer.outputs_eq mult div (samples inp) (.initial divider') k
  have h := hanswer.trans htop.symm
  rw [Top.run_eq_trace, TopAnswer.run_eq_trace, hk, hk']
  exact Prod.mk.inj h

/-- Both clocks at every instant, new operands every time, a divider of latency 1. -/
theorem top_answer_refines_one :
    let inp : ℕ → Ports := fun n =>
      ⟨true, true, .ofNat 16 (n + 300), .ofNat 16 7, .ofNat 16 (n + 1)⟩
    let divider : Pipeline 1 := fun _ => (unknown 32, unknown 16)
    (TopAnswer.run unsignedMult unsignedDiv divider inp 7).2.result =
        (Top.run unsignedMult unsignedDiv divider inp 5).2.result ∧
      (TopAnswer.run unsignedMult unsignedDiv divider inp 7).2.remain =
        (Top.run unsignedMult unsignedDiv divider inp 5).2.remain :=
  top_answer_refines unsignedMult unsignedDiv _ _ _ 5 7 (by decide) (by decide)

end AlteraWorkshops.TimingClosure
