import AlteraWorkshops.Status.Polling
import Mathlib.Algebra.Order.Ring.Rat
import Mathlib.Data.List.Infix

/-! How often the host polls. It slows down after five polls without a response, but a response
only resets the count of the failures and not the interval, so the host stays slow until another
poll fails. -/

namespace AlteraWorkshops.Status

/-- What `serial_communication_thread` keeps from poll to poll. -/
structure Poller where
  lastPollTime : ℚ
  pollInterval : ℚ
  pollCount : ℕ
  consecutiveFailures : ℕ

/-- A poll that is sent at `currentTime`, with the text that is received. -/
structure Poll where
  currentTime : ℚ
  response : List Char

def maxFailures : ℕ := 5

namespace Poller

def start (now : ℚ) : Poller := ⟨now, 1 / 10, 0, 0⟩

def poll (s : Poller) (p : Poll) : Poller :=
  let pollCount := s.pollCount + 1
  if p.response ≠ [] then
    { s with pollCount, consecutiveFailures := 0, lastPollTime := p.currentTime }
  else
    let consecutiveFailures := s.consecutiveFailures + 1
    let pollInterval := if consecutiveFailures ≥ maxFailures then 1 else 1 / 10
    ⟨p.currentTime, pollInterval, pollCount, consecutiveFailures⟩

def polls (s : Poller) (ps : List Poll) : Poller := ps.foldl poll s

/-- A pass of the loop, which polls if the interval is over. `rounds` is what the device sends
then. -/
def pass (s : Poller) (currentTime : ℚ) (rounds : List (List Char)) : Poller :=
  if currentTime - s.lastPollTime ≥ s.pollInterval then s.poll ⟨currentTime, receive [] rounds⟩
  else s

def passes (s : Poller) (l : List (ℚ × List (List Char))) : Poller :=
  l.foldl (fun s p => s.pass p.1 p.2) s

/-- The polls of the passes. -/
def due (s : Poller) : List (ℚ × List (List Char)) → List Poll
  | [] => []
  | (currentTime, rounds) :: l =>
    if currentTime - s.lastPollTime ≥ s.pollInterval then
      ⟨currentTime, receive [] rounds⟩ :: (s.pass currentTime rounds).due l
    else s.due l

theorem passes_eq_polls (s : Poller) (l : List (ℚ × List (List Char))) :
    s.passes l = s.polls (s.due l) := by
  induction l generalizing s with
  | nil => rfl
  | cons p l ih =>
    obtain ⟨currentTime, rounds⟩ := p
    change (s.pass currentTime rounds).passes l = _
    rw [ih, due]
    by_cases h : currentTime - s.lastPollTime ≥ s.pollInterval
    · rw [if_pos h]
      exact congrArg (polls · _) (if_pos h)
    · rw [if_neg h, pass, if_neg h]

end Poller

/-! ### The history of a poll -/

/-- The device answered. -/
def Poll.answered (p : Poll) : Bool := p.response ≠ []

/-- The last five polls were without a response. -/
def Silent (history : List Bool) : Prop := List.replicate maxFailures false <:+ history

instance : DecidablePred Silent := fun _ => inferInstanceAs (Decidable (_ <:+ _))

/-- What the comments of the thread promise about the interval. -/
def Fits (pollInterval : ℚ) (history : List Bool) : Prop :=
  Silent history ∧ pollInterval = 1 ∨ ¬Silent history ∧ pollInterval = 1 / 10

/-- Five silent polls, and then an answer. -/
def recovery : List Bool := List.replicate maxFailures false ++ [true]

/-- The silent polls at the end of a history. -/
def silentRun (history : List Bool) : ℕ := (history.reverse.takeWhile (! ·)).length

theorem silentRun_answered (history : List Bool) : silentRun (history ++ [true]) = 0 := by
  simp [silentRun]

theorem silentRun_silent (history : List Bool) :
    silentRun (history ++ [false]) = silentRun history + 1 := by
  simp [silentRun]

theorem replicate_false_prefix_iff (n : ℕ) (l : List Bool) :
    List.replicate n false <+: l ↔ n ≤ (l.takeWhile (! ·)).length := by
  induction l generalizing n with
  | nil => simp
  | cons a l ih =>
    cases n with
    | zero => simp
    | succ n => cases a <;> simp [List.replicate_succ, ih]

theorem silent_iff (history : List Bool) : Silent history ↔ maxFailures ≤ silentRun history := by
  rw [Silent, ← List.reverse_prefix, List.reverse_replicate, replicate_false_prefix_iff]
  rfl

theorem not_silent_answered (history : List Bool) : ¬Silent (history ++ [true]) := by
  rw [silent_iff, silentRun_answered]
  decide

variable (now : ℚ)

theorem polls_append (s : Poller) (ps : List Poll) (p : Poll) :
    s.polls (ps ++ [p]) = (s.polls ps).poll p := by
  simp [Poller.polls]

theorem consecutiveFailures_eq (ps : List Poll) :
    ((Poller.start now).polls ps).consecutiveFailures = silentRun (ps.map Poll.answered) := by
  induction ps using List.reverseRecOn with
  | nil => rfl
  | append_singleton ps p ih =>
    rw [polls_append, List.map_append, List.map_singleton]
    by_cases h : p.response ≠ []
    · have hanswered : p.answered = true := decide_eq_true h
      rw [hanswered, silentRun_answered, Poller.poll, if_pos h]
    · have hsilent : p.answered = false := decide_eq_false h
      rw [hsilent, silentRun_silent, ← ih, Poller.poll, if_neg h]

theorem pollInterval_answered (s : Poller) {p : Poll} (hp : p.answered = true) :
    (s.poll p).pollInterval = s.pollInterval := by
  rw [Poller.poll, if_pos (of_decide_eq_true hp)]

theorem pollInterval_silent (ps : List Poll) {p : Poll} (hp : p.answered = false) :
    ((Poller.start now).polls (ps ++ [p])).pollInterval =
      if Silent ((ps ++ [p]).map Poll.answered) then 1 else 1 / 10 := by
  have hfailures := consecutiveFailures_eq now ps
  simp only [silent_iff, List.map_append, List.map_singleton, hp, silentRun_silent, ← hfailures]
  rw [polls_append, Poller.poll, if_neg (of_decide_eq_false hp)]

/-- After a silent poll the interval fits. -/
theorem fits_silent (ps : List Poll) {p : Poll} (hp : p.answered = false) :
    Fits ((Poller.start now).polls (ps ++ [p])).pollInterval ((ps ++ [p]).map Poll.answered) := by
  rw [pollInterval_silent now ps hp]
  split_ifs with h
  · exact .inl ⟨h, rfl⟩
  · exact .inr ⟨h, rfl⟩

/-- After an answer it fits if it was not slow before. -/
theorem fits_answered_iff (ps : List Poll) {p : Poll} (hp : p.answered = true)
    (hfits : Fits ((Poller.start now).polls ps).pollInterval (ps.map Poll.answered)) :
    Fits ((Poller.start now).polls (ps ++ [p])).pollInterval ((ps ++ [p]).map Poll.answered) ↔
      ¬Silent (ps.map Poll.answered) := by
  have hinterval : ((Poller.start now).polls (ps ++ [p])).pollInterval =
      ((Poller.start now).polls ps).pollInterval := by
    rw [polls_append, pollInterval_answered _ hp]
  have hanswered : ¬Silent ((ps ++ [p]).map Poll.answered) := by
    rw [List.map_append, List.map_singleton, hp]
    exact not_silent_answered _
  rw [hinterval, Fits]
  simp only [hanswered, false_and, false_or, not_false_eq_true, true_and]
  rcases hfits with ⟨hsilent, hslow⟩ | ⟨hsilent, hfast⟩
  · rw [hslow]
    exact iff_of_false (by norm_num) (not_not.mpr hsilent)
  · exact iff_of_true hfast hsilent

theorem recovery_infix_iff (ps : List Poll) : recovery <:+: ps.map Poll.answered ↔
    ∃ made p, made ++ [p] <+: ps ∧ Silent (made.map Poll.answered) ∧ p.answered = true := by
  constructor
  · rintro ⟨a, b, hps⟩
    obtain ⟨made, rest, rfl, hmade, -⟩ := List.map_eq_append_iff.mp hps.symm
    rw [recovery, ← List.append_assoc] at hmade
    obtain ⟨silent, answer, rfl, hsilent, hanswer⟩ := List.map_eq_append_iff.mp hmade
    obtain ⟨p, rfl, hp⟩ := List.map_eq_singleton_iff.mp hanswer
    exact ⟨silent, p, List.prefix_append _ _, hsilent ▸ List.suffix_append _ _, hp⟩
  · rintro ⟨made, p, ⟨rest, rfl⟩, ⟨a, hsilent⟩, hp⟩
    refine ⟨a, rest.map Poll.answered, ?_⟩
    simp only [recovery, List.map_append, ← hsilent, List.map_singleton, hp, List.append_assoc]

/-- The interval fits after every poll exactly if no answer comes right after five silent
polls. -/
theorem pollInterval_fits_iff (ps : List Poll) :
    (∀ made, made <+: ps →
      Fits ((Poller.start now).polls made).pollInterval (made.map Poll.answered)) ↔
    ¬recovery <:+: ps.map Poll.answered := by
  rw [recovery_infix_iff]
  constructor
  · rintro hfits ⟨made, p, hprefix, hsilent, hp⟩
    have hbefore := hfits made ((List.prefix_append _ _).trans hprefix)
    exact (fits_answered_iff now made hp hbefore).mp (hfits _ hprefix) hsilent
  · intro hnone made hprefix
    induction made using List.reverseRecOn with
    | nil => exact .inr ⟨by decide, rfl⟩
    | append_singleton made p ih =>
      cases hp : p.answered with
      | true =>
        refine (fits_answered_iff now made hp (ih ((List.prefix_append _ _).trans hprefix))).mpr ?_
        exact fun hsilent => hnone ⟨made, p, hprefix, hsilent, hp⟩
      | false => exact fits_silent now made hp

/-- The host stays slow. -/
theorem pollInterval_stays_slow : ¬∀ (now : ℚ) (ps : List Poll),
    Fits ((Poller.start now).polls ps).pollInterval (ps.map Poll.answered) := by
  intro h
  let silent : Poll := ⟨0, []⟩
  let answer : Poll := ⟨0, ['D']⟩
  have hslow := h 0 [silent, silent, silent, silent, silent, answer]
  rcases hslow with ⟨hsilent, -⟩ | ⟨-, hfast⟩
  · exact absurd hsilent (by decide)
  · exact absurd hfast (by decide +kernel)

end AlteraWorkshops.Status
