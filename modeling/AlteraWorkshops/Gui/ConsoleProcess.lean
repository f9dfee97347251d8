import Mathlib.Data.Finset.Card
import Mathlib.Data.Finset.Option
import Mathlib.Tactic.Common

/-! The System Console behind the paint application: which children `altera_system_console` has
spawned, which of them it still knows, and when it loses sight of one that is still running. -/

namespace AlteraWorkshops.Gui

/-! ### The module -/

/-- The children are numbered in the order in which they are spawned. `handed` are those that
`cleanup_system_console` has dealt with. -/
structure Console where
  spawned : ℕ
  running : Finset ℕ
  handed : Finset ℕ
  systemConsoleProcess : Option ℕ
  systemConsoleInitialized : Bool

/-- What becomes of `initialize_system_console`; `exited` tells whether the new child has when
it is polled. -/
inductive Start
  | notFound
  | popenRaises
  | writeRaises
  | polled (exited : Bool)

/-- What becomes of a command to the child; `exited` tells whether the child has when it is
polled, and `restart` is what happens then. -/
structure Talk where
  exited : Bool
  restart : Start
  commandRaises : Bool
  testCommandRaises : Bool

/-- What becomes of the child in `cleanup_system_console`, or which of the calls that nothing
catches raises. -/
inductive Shutdown
  | exits
  | terminates
  | killed
  | terminateRaises
  | killRaises
  deriving DecidableEq

namespace Console

/-- Before any call. -/
def fresh : Console := ⟨0, ∅, ∅, none, false⟩

/-- `poll() is None` -/
def polls (s : Console) : Bool := s.systemConsoleProcess.any (· ∈ s.running)

def popen (s : Console) : Console :=
  { s with
    spawned := s.spawned + 1
    running := insert s.spawned s.running
    systemConsoleProcess := some s.spawned }

/-- The child that `system_console_process` refers to exits if `exited` is set. -/
def exitIf (s : Console) (exited : Bool) : Console :=
  if exited then { s with running := s.running \ s.systemConsoleProcess.toFinset } else s

def initializeSystemConsole (s : Console) : Start → Bool × Console
  | .notFound => (false, s)
  | .popenRaises => (false, s)
  | .writeRaises => (false, s.popen)
  | .polled exited =>
    let s := s.popen.exitIf exited
    if s.polls then (true, { s with systemConsoleInitialized := true }) else (false, s)

/-- The poll in front of a command, and a new start if the child has exited. -/
def ready (s : Console) (talk : Talk) : Bool × Console :=
  let s := s.exitIf talk.exited
  if s.polls then (true, s)
  else initializeSystemConsole { s with systemConsoleInitialized := false } talk.restart

/-- The command and the command that tests whether the console answers. -/
def send (s : Console) (talk : Talk) : Bool × Console :=
  if talk.commandRaises then (false, { s with systemConsoleInitialized := false })
  else (!talk.testCommandRaises, s)

/-- The `try` statement of `execute_paint` and `execute_camera`. -/
def tryCommand (s : Console) (talk : Talk) : Bool × Console :=
  if s.systemConsoleProcess.isNone then (false, { s with systemConsoleInitialized := false })
  else if (s.ready talk).1 then (s.ready talk).2.send talk
  else (false, (s.ready talk).2)

/-- `execute_paint` and `execute_camera` but for the command. -/
def execute (s : Console) (start : Start) (talk : Talk) : Bool × Console :=
  if !s.systemConsoleInitialized || s.systemConsoleProcess.isNone then
    if (s.initializeSystemConsole start).1 then (s.initializeSystemConsole start).2.tryCommand talk
    else (false, (s.initializeSystemConsole start).2)
  else s.tryCommand talk

def executePaint := execute

def executeCamera := execute

/-- The result tells whether an exception leaves the function. -/
def cleanupSystemConsole (s : Console) (shutdown : Shutdown) : Bool × Console :=
  match s.systemConsoleProcess with
  | none => (false, s)
  | some i =>
    let s := { s with handed := insert i s.handed }
    let s := s.exitIf (shutdown = .exits ∨ shutdown = .terminates)
    if shutdown = .terminateRaises ∨ shutdown = .killRaises then (true, s)
    else (false, { s with systemConsoleProcess := none, systemConsoleInitialized := false })

def forceSystemConsoleRestart (s : Console) (shutdown : Shutdown) (start : Start) : Console :=
  if (s.cleanupSystemConsole shutdown).1 then (s.cleanupSystemConsole shutdown).2
  else ((s.cleanupSystemConsole shutdown).2.initializeSystemConsole start).2

end Console

/-- The calls, and the children that exit between them. When a child exits that is out of sight
makes no difference to a call. -/
inductive Call
  | executePaint (start : Start) (talk : Talk)
  | executeCamera (start : Start) (talk : Talk)
  | forceSystemConsoleRestart (shutdown : Shutdown) (start : Start)
  | cleanupSystemConsole (shutdown : Shutdown)
  | exit (children : Finset ℕ)

def Console.call (s : Console) : Call → Console
  | .executePaint start talk => (s.executePaint start talk).2
  | .executeCamera start talk => (s.executeCamera start talk).2
  | .forceSystemConsoleRestart shutdown start => s.forceSystemConsoleRestart shutdown start
  | .cleanupSystemConsole shutdown => (s.cleanupSystemConsole shutdown).2
  | .exit children => { s with running := s.running \ children }

def Console.calls (s : Console) (l : List Call) : Console := l.foldl call s

/-! ### Children out of sight -/

namespace Console

/-- The children that are still running and were not handed to cleanup. -/
def alive (s : Console) : Finset ℕ := s.running \ s.handed

/-- At most one child is alive, and it is the one that `system_console_process` refers to. -/
def AtMostOne (s : Console) : Prop :=
  s.alive.card ≤ 1 ∧ ∀ i ∈ s.alive, s.systemConsoleProcess = some i

/-- Every child that was dealt with has been spawned. -/
structure WellFormed (s : Console) : Prop where
  running : ∀ i ∈ s.running, i < s.spawned
  handed : ∀ i ∈ s.handed, i < s.spawned
  process : ∀ i, s.systemConsoleProcess = some i → i < s.spawned

variable {s : Console}

theorem atMostOne_iff : s.AtMostOne ↔ ∀ i ∈ s.alive, s.systemConsoleProcess = some i := by
  refine ⟨And.right, fun h => ⟨Finset.card_le_one.mpr fun i hi j hj => ?_, h⟩⟩
  exact Option.some.inj ((h i hi).symm.trans (h j hj))

theorem mem_alive {i : ℕ} : i ∈ s.alive ↔ i ∈ s.running ∧ i ∉ s.handed := Finset.mem_sdiff

/-! ### One child more -/

theorem WellFormed.popen (h : s.WellFormed) : s.popen.WellFormed := by
  constructor
  · intro i hi
    rcases Finset.mem_insert.mp hi with rfl | hi
    · exact Nat.lt_succ_self _
    · exact Nat.lt_succ_of_lt (h.running i hi)
  · intro i hi
    exact Nat.lt_succ_of_lt (h.handed i hi)
  · rintro i ⟨⟩
    exact Nat.lt_succ_self _

theorem WellFormed.exitIf (h : s.WellFormed) (exited : Bool) : (s.exitIf exited).WellFormed := by
  cases exited with
  | false => exact h
  | true => exact ⟨fun i hi => h.running i (Finset.mem_sdiff.mp hi).1, h.handed, h.process⟩

theorem WellFormed.flag (h : s.WellFormed) (b : Bool) :
    WellFormed { s with systemConsoleInitialized := b } := ⟨h.running, h.handed, h.process⟩

/-- The new child is alive besides those that were. -/
theorem alive_popen (h : s.WellFormed) : s.popen.alive = insert s.spawned s.alive := by
  have hnew : s.spawned ∉ s.handed := fun hi => (h.handed _ hi).false
  exact Finset.insert_sdiff_of_notMem _ hnew

/-- The child that is spawned is the only one exactly if none was alive. -/
theorem atMostOne_popen_iff (h : s.WellFormed) : s.popen.AtMostOne ↔ s.alive = ∅ := by
  rw [atMostOne_iff, alive_popen h]
  constructor
  · intro honly
    refine Finset.eq_empty_of_forall_notMem fun i hi => ?_
    have hprocess := honly i (Finset.mem_insert_of_mem hi)
    have hlt := h.running i (mem_alive.mp hi).1
    exact hlt.ne (Option.some.inj hprocess).symm
  · intro hnone i hi
    rw [hnone, Finset.mem_insert] at hi
    rcases hi with rfl | hi
    · rfl
    · exact absurd hi (Finset.notMem_empty i)

/-- An exit of the child in sight. -/
theorem atMostOne_exitIf (exited : Bool) : (s.exitIf exited).AtMostOne ↔ s.AtMostOne := by
  cases exited with
  | false => rfl
  | true =>
    rw [atMostOne_iff, atMostOne_iff]
    refine forall_congr' fun i => ?_
    rw [mem_alive, mem_alive]
    change (i ∈ s.running \ s.systemConsoleProcess.toFinset ∧ i ∉ s.handed → _) ↔ _
    rw [Finset.mem_sdiff, Option.mem_toFinset]
    change _ → s.systemConsoleProcess = some i ↔ _
    tauto

/-- The referred child has exited. -/
theorem atMostOne_of_not_polls (h : s.polls = false) : s.AtMostOne ↔ s.alive = ∅ := by
  rw [atMostOne_iff]
  constructor
  · intro honly
    refine Finset.eq_empty_of_forall_notMem fun i hi => ?_
    rw [polls, honly i hi] at h
    exact of_decide_eq_false h (mem_alive.mp hi).1
  · intro hnone i hi
    exact absurd (hnone ▸ hi) (Finset.notMem_empty i)

end Console

/-! ### Calls -/

/-- `Popen` succeeds. -/
def Start.spawns : Start → Bool
  | .notFound | .popenRaises => false
  | .writeRaises | .polled _ => true

namespace Console

variable {s : Console}

theorem WellFormed.afterStart (h : s.WellFormed) (start : Start) :
    (s.initializeSystemConsole start).2.WellFormed := by
  cases start with
  | notFound => exact h
  | popenRaises => exact h
  | writeRaises => exact h.popen
  | polled exited =>
    rw [initializeSystemConsole]
    split_ifs
    · exact (h.popen.exitIf exited).flag true
    · exact h.popen.exitIf exited

theorem atMostOne_start_iff (h : s.WellFormed) (start : Start) :
    (s.initializeSystemConsole start).2.AtMostOne ↔
      if start.spawns then s.alive = ∅ else s.AtMostOne := by
  cases start with
  | notFound => rfl
  | popenRaises => rfl
  | writeRaises => exact atMostOne_popen_iff h
  | polled exited =>
    refine Iff.trans ?_ ((atMostOne_exitIf exited).trans (atMostOne_popen_iff h))
    rw [initializeSystemConsole]
    split_ifs <;> rfl

theorem WellFormed.ready (h : s.WellFormed) (talk : Talk) : (s.ready talk).2.WellFormed := by
  have hflag := (h.exitIf talk.exited).flag false
  rw [Console.ready]
  split_ifs
  · exact h.exitIf talk.exited
  · exact hflag.afterStart talk.restart

/-- The poll loses no child. -/
theorem atMostOne_ready (h : s.WellFormed) (talk : Talk) :
    (s.ready talk).2.AtMostOne ↔ s.AtMostOne := by
  have hflag := (h.exitIf talk.exited).flag false
  refine Iff.trans ?_ (atMostOne_exitIf talk.exited)
  rw [Console.ready]
  cases hpolls : (s.exitIf talk.exited).polls with
  | true => rfl
  | false =>
    refine (atMostOne_start_iff hflag talk.restart).trans ?_
    split_ifs
    · exact (atMostOne_of_not_polls hpolls).symm
    · rfl

theorem WellFormed.send (h : s.WellFormed) (talk : Talk) : (s.send talk).2.WellFormed := by
  rw [Console.send]
  split_ifs
  · exact h.flag false
  · exact h

theorem atMostOne_send (talk : Talk) : (s.send talk).2.AtMostOne ↔ s.AtMostOne := by
  rw [send]
  split_ifs <;> rfl

theorem WellFormed.tryCommand (h : s.WellFormed) (talk : Talk) :
    (s.tryCommand talk).2.WellFormed := by
  rw [Console.tryCommand]
  split_ifs
  · exact h.flag false
  · exact (h.ready talk).send talk
  · exact h.ready talk

theorem atMostOne_tryCommand (h : s.WellFormed) (talk : Talk) :
    (s.tryCommand talk).2.AtMostOne ↔ s.AtMostOne := by
  rw [tryCommand]
  split_ifs
  · rfl
  · exact (atMostOne_send talk).trans (atMostOne_ready h talk)
  · exact atMostOne_ready h talk

/-- A start is needed in front of the command. -/
def needsStart (s : Console) : Bool :=
  !s.systemConsoleInitialized || s.systemConsoleProcess.isNone

theorem WellFormed.execute (h : s.WellFormed) (start : Start) (talk : Talk) :
    (s.execute start talk).2.WellFormed := by
  rw [Console.execute]
  split_ifs
  · exact (h.afterStart start).tryCommand talk
  · exact h.afterStart start
  · exact h.tryCommand talk

theorem atMostOne_execute_iff (h : s.WellFormed) (start : Start) (talk : Talk) :
    (s.execute start talk).2.AtMostOne ↔
      if s.needsStart ∧ start.spawns then s.alive = ∅ else s.AtMostOne := by
  have hstart := atMostOne_start_iff h start
  have hexecute : (s.execute start talk).2.AtMostOne ↔
      if s.needsStart then (s.initializeSystemConsole start).2.AtMostOne else s.AtMostOne := by
    rw [execute, needsStart]
    split_ifs
    · exact atMostOne_tryCommand (h.afterStart start) talk
    · rfl
    · exact atMostOne_tryCommand h talk
  rw [hexecute, hstart, ite_and]

theorem WellFormed.cleanup (h : s.WellFormed) (shutdown : Shutdown) :
    (s.cleanupSystemConsole shutdown).2.WellFormed := by
  unfold cleanupSystemConsole
  cases hprocess : s.systemConsoleProcess with
  | none => exact h
  | some i =>
    have hhanded : WellFormed { s with handed := insert i s.handed } := by
      refine ⟨h.running, fun j hj => ?_, h.process⟩
      rcases Finset.mem_insert.mp hj with rfl | hj
      · exact h.process j hprocess
      · exact h.handed j hj
    have hexit := hhanded.exitIf (shutdown = .exits ∨ shutdown = .terminates)
    dsimp only
    rw [← hprocess]
    split_ifs
    · exact hexit
    · refine ⟨hexit.running, hexit.handed, ?_⟩
      rintro j ⟨⟩

theorem alive_exitIf (exited : Bool) : (s.exitIf exited).alive ⊆ s.alive := by
  cases exited with
  | false => exact Finset.Subset.refl _
  | true => exact Finset.sdiff_subset_sdiff Finset.sdiff_subset (Finset.Subset.refl _)

/-- The child that was in sight is handed to cleanup. -/
theorem alive_cleanup (h : s.AtMostOne) (shutdown : Shutdown) :
    (s.cleanupSystemConsole shutdown).2.alive = ∅ := by
  have honly := atMostOne_iff.mp h
  unfold cleanupSystemConsole
  cases hprocess : s.systemConsoleProcess with
  | none =>
    refine Finset.eq_empty_of_forall_notMem fun i hi => ?_
    rw [honly i hi] at hprocess
    cases hprocess
  | some i =>
    have hhanded : alive { s with handed := insert i s.handed } = ∅ := by
      refine Finset.eq_empty_of_forall_notMem fun j hj => ?_
      obtain ⟨hrunning, hhanded⟩ := mem_alive.mp hj
      rw [Finset.mem_insert, not_or] at hhanded
      have hj := honly j (mem_alive.mpr ⟨hrunning, hhanded.2⟩)
      exact hhanded.1 (Option.some.inj (hj.symm.trans hprocess))
    have hexit (exited : Bool) : (exitIf { s with handed := insert i s.handed } exited).alive = ∅ :=
      Finset.subset_empty.mp (hhanded ▸ alive_exitIf exited)
    dsimp only
    rw [← hprocess]
    split_ifs <;> exact hexit _

theorem atMostOne_of_alive (h : s.alive = ∅) : s.AtMostOne :=
  atMostOne_iff.mpr fun i hi => absurd (h ▸ hi) (Finset.notMem_empty i)

theorem atMostOne_restart (h : s.WellFormed) (hs : s.AtMostOne) (shutdown : Shutdown)
    (start : Start) : (s.forceSystemConsoleRestart shutdown start).AtMostOne := by
  have hnone := alive_cleanup hs shutdown
  rw [forceSystemConsoleRestart]
  split_ifs
  · exact atMostOne_of_alive hnone
  · rw [atMostOne_start_iff (h.cleanup shutdown)]
    split_ifs
    · exact hnone
    · exact atMostOne_of_alive hnone

theorem alive_eq_empty_iff (hs : s.AtMostOne) : s.alive = ∅ ↔
    ¬∃ i, s.systemConsoleProcess = some i ∧ i ∈ s.running ∧ i ∉ s.handed := by
  rw [Finset.eq_empty_iff_forall_notMem, not_exists]
  refine forall_congr' fun i => ?_
  rw [← mem_alive, not_and']
  exact ⟨fun h hi => absurd hi h, fun h hi => h hi (atMostOne_iff.mp hs i hi)⟩

end Console

/-! ### Any calls -/

/-- A child is spawned although the one that `system_console_process` refers to is alive, since
the flag tells that there is none. -/
def Call.SpawnsBesides (s : Console) : Call → Prop
  | .executePaint start _ | .executeCamera start _ => s.systemConsoleInitialized = false ∧
    start.spawns = true ∧ ∃ i, s.systemConsoleProcess = some i ∧ i ∈ s.running ∧ i ∉ s.handed
  | _ => False

namespace Console

variable {s : Console}

theorem WellFormed.call (h : s.WellFormed) (c : Call) : (s.call c).WellFormed := by
  cases c with
  | executePaint start talk => exact h.execute start talk
  | executeCamera start talk => exact h.execute start talk
  | forceSystemConsoleRestart shutdown start =>
    change (s.forceSystemConsoleRestart shutdown start).WellFormed
    rw [Console.forceSystemConsoleRestart]
    split_ifs
    · exact h.cleanup shutdown
    · exact (h.cleanup shutdown).afterStart start
  | cleanupSystemConsole shutdown => exact h.cleanup shutdown
  | exit children =>
    exact ⟨fun i hi => h.running i (Finset.mem_sdiff.mp hi).1, h.handed, h.process⟩

theorem atMostOne_execute (h : s.WellFormed) (hs : s.AtMostOne) (start : Start) (talk : Talk) :
    (s.execute start talk).2.AtMostOne ↔ ¬(s.systemConsoleInitialized = false ∧
      start.spawns = true ∧
        ∃ i, s.systemConsoleProcess = some i ∧ i ∈ s.running ∧ i ∉ s.handed) := by
  rw [atMostOne_execute_iff h]
  split_ifs with hcase
  · obtain ⟨hneeds, hspawns⟩ := hcase
    rw [alive_eq_empty_iff hs, not_iff_not]
    refine ⟨fun halive => ⟨?_, hspawns, halive⟩, fun h => h.2.2⟩
    obtain ⟨i, hprocess, -⟩ := halive
    simpa [needsStart, hprocess] using hneeds
  · refine iff_of_true hs fun h => hcase ⟨?_, h.2.1⟩
    rw [needsStart, h.1]
    rfl

/-- One call. -/
theorem atMostOne_call_iff (h : s.WellFormed) (hs : s.AtMostOne) (c : Call) :
    (s.call c).AtMostOne ↔ ¬c.SpawnsBesides s := by
  cases c with
  | executePaint start talk => exact atMostOne_execute h hs start talk
  | executeCamera start talk => exact atMostOne_execute h hs start talk
  | forceSystemConsoleRestart shutdown start =>
    exact iff_of_true (atMostOne_restart h hs shutdown start) not_false
  | cleanupSystemConsole shutdown =>
    exact iff_of_true (atMostOne_of_alive (alive_cleanup hs shutdown)) not_false
  | exit children =>
    refine iff_of_true (atMostOne_iff.mpr fun i hi => ?_) not_false
    obtain ⟨hrunning, hhanded⟩ := mem_alive.mp hi
    exact atMostOne_iff.mp hs i (mem_alive.mpr ⟨(Finset.mem_sdiff.mp hrunning).1, hhanded⟩)

theorem wellFormed_calls (l : List Call) : (fresh.calls l).WellFormed := by
  induction l using List.reverseRecOn with
  | nil => exact ⟨by simp [calls, fresh], by simp [calls, fresh], by simp [calls, fresh]⟩
  | append_singleton l c ih =>
    rw [calls, List.foldl_append]
    exact ih.call c

theorem calls_append (l : List Call) (c : Call) :
    fresh.calls (l ++ [c]) = (fresh.calls l).call c := by
  rw [calls, List.foldl_append]
  rfl

/-- In every run at most one child stays alive, in sight, exactly if no call spawns one besides
the child that is alive. -/
theorem atMostOne_calls_iff (l : List Call) :
    (∀ made, made <+: l → (fresh.calls made).AtMostOne) ↔
      ∀ made c, made ++ [c] <+: l → ¬c.SpawnsBesides (fresh.calls made) := by
  constructor
  · intro h made c hprefix
    have hbefore := h made ((List.prefix_append _ _).trans hprefix)
    refine (atMostOne_call_iff (wellFormed_calls made) hbefore c).mp ?_
    rw [← calls_append]
    exact h _ hprefix
  · intro h made hprefix
    induction made using List.reverseRecOn with
    | nil => exact atMostOne_of_alive (by decide)
    | append_singleton made c ih =>
      have hbefore := ih ((List.prefix_append _ _).trans hprefix)
      rw [calls_append]
      exact (atMostOne_call_iff (wellFormed_calls made) hbefore c).mpr (h made c hprefix)

/-- A child is left behind if writing to it fails while it is running. -/
theorem console_left_behind : ¬∀ l : List Call, (fresh.calls l).AtMostOne := by
  intro h
  let failing : Talk := ⟨false, .notFound, true, false⟩
  let fine : Talk := ⟨false, .notFound, false, false⟩
  have hone := h [.executePaint (.polled false) failing, .executePaint (.polled false) fine]
  exact absurd hone.1 (by decide)

end Console

end AlteraWorkshops.Gui
