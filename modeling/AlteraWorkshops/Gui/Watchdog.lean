import AlteraWorkshops.Gui.Capture
import Mathlib.Tactic.Linarith

/-! The watchdog of the capture thread for a file that is not updated. What counts between two
restarts is which cycles saw the file and when: the restart leaves the times as they are, so the
next cycle that sees the same file restarts again at once. -/

namespace AlteraWorkshops.Gui

/-! ### The state of the watchdog -/

/-- The modification time that a cycle sees, if it gets as far as the file and can read it. -/
def CaptureCycle.observes (c : CaptureCycle) : Option ℚ :=
  match c.connect, c.file with
  | .next, .content mtime _ => some mtime
  | _, _ => none

structure Watch where
  lastFileMtime : Option ℚ
  fileStaleSince : Option ℚ
  currentTimeSeconds : Option ℚ
deriving DecidableEq

def Capture.watch (s : Capture) : Watch :=
  ⟨s.lastFileMtime, s.fileStaleSince, s.currentTimeSeconds⟩

/-- The System Console is restarted because the file is stale. -/
def Watch.Restarts (w : Watch) (c : CaptureCycle) : Prop :=
  ∃ m since now, c.observes = some m ∧ w.lastFileMtime = some m ∧ w.fileStaleSince = some since ∧
    w.currentTimeSeconds = some now ∧ now - since > 3

/-- What a cycle does to the watchdog. -/
inductive Watch.Step (w : Watch) (c : CaptureCycle) : Watch → Prop
  | blind (hsees : c.observes = none) : Step w c w
  | restart (hrestarts : w.Restarts c) : Step w c w
  | unbound (hlast : w.lastFileMtime ≠ none) (hnow : w.currentTimeSeconds = none) : Step w c w
  | first {m : ℚ} (hpasses : ¬w.Restarts c) (hsees : c.observes = some m)
    (hlast : w.lastFileMtime = none) : Step w c ⟨some m, w.fileStaleSince, some c.time⟩
  | updated {m : ℚ} (hpasses : ¬w.Restarts c) (hsees : c.observes = some m) :
    Step w c ⟨some m, none, some c.time⟩
  | stale {m now : ℚ} (hpasses : ¬w.Restarts c) (hsees : c.observes = some m)
    (hlast : w.lastFileMtime = some m) (hnow : w.currentTimeSeconds = some now) :
    Step w c ⟨some m, some now, some c.time⟩
  | waiting {m since : ℚ} (hpasses : ¬w.Restarts c) (hsees : c.observes = some m)
    (hlast : w.lastFileMtime = some m) (hsince : w.fileStaleSince = some since) :
    Step w c ⟨some m, some since, some c.time⟩

variable (v : Viewer) (hash : List (BitVec 8) → ℤ)

theorem imageUnchanged_watch (s : Capture) (c : CaptureCycle) :
    (s.imageUnchanged c).2.watch = s.watch := by
  unfold Capture.imageUnchanged
  split
  · rfl
  · dsimp only
    split_ifs
    · rfl
    · split <;> rfl
    · split <;> rfl
    · rfl

theorem checkImage_watch (s : Capture) (c : CaptureCycle) (imageHash : ℤ) :
    (s.checkImage c imageHash).2.watch = ⟨s.lastFileMtime, s.fileStaleSince, some c.time⟩ := by
  have hkept (checked : Jump × Capture) : (if checked.1 = .next then
      (.next, { checked.2 with lastImageHash := some imageHash }) else checked).2.watch =
        checked.2.watch := by
    split_ifs <;> rfl
  unfold Capture.checkImage
  rw [hkept]
  split
  · rfl
  · split_ifs
    · exact imageUnchanged_watch _ c
    · rfl

theorem cycle_watch_of_blind (s : Capture) {c : CaptureCycle} (h : c.observes = none) :
    (s.cycle v hash c).2.watch = s.watch := by
  unfold Capture.cycle
  unfold CaptureCycle.observes at h
  cases hconnect : c.connect with
  | again => rfl
  | raised => rfl
  | next =>
    cases hfile : c.file with
    | missing => rfl
    | unreadable mtime => rfl
    | content mtime data =>
      rw [hconnect, hfile] at h
      cases h

/-- What is left of the watchdog after the check of the file. -/
def Capture.afterCheck (c : CaptureCycle) : Jump × Capture → Watch
  | (.next, s) => ⟨s.lastFileMtime, s.fileStaleSince, some c.time⟩
  | (_, s) => s.watch

/-- A cycle that sees the file. -/
theorem cycle_watch_of_observes (s : Capture) {c : CaptureCycle} {m : ℚ}
    (h : c.observes = some m) : (s.cycle v hash c).2.watch =
      Capture.afterCheck c (Capture.checkFile { s with loadedMtime := some m } c) := by
  unfold CaptureCycle.observes at h
  split at h
  · rename_i mtime data hconnect hfile
    obtain rfl := Option.some.inj h
    obtain ⟨image, himage, -⟩ := loadRgbImage_some data v.width v.height
    have hload : s.load v c.file = (some image, { s with loadedMtime := some mtime }) := by
      rw [hfile, Capture.load, himage]
    rw [Capture.cycle, hconnect]
    simp only [hload]
    generalize Capture.checkFile { s with loadedMtime := some mtime } c = checked
    obtain ⟨jump, s'⟩ := checked
    cases jump with
    | next =>
      dsimp only
      split_ifs <;> exact checkImage_watch s' c (hash image.data)
    | again => rfl
    | raised => rfl
  · cases h

/-- A restart leaves the times as they are. -/
theorem cycle_watch_of_restarts (s : Capture) {c : CaptureCycle} (h : s.watch.Restarts c) :
    (s.cycle v hash c).2.watch = s.watch := by
  obtain ⟨m, since, now, hsees, hlast, hsince, hnow, hlong⟩ := h
  have hchecked : Capture.checkFile { s with loadedMtime := some m } c =
      (if c.cleanupRaises then .raised else .again, { s with loadedMtime := some m }) := by
    change s.lastFileMtime = some m at hlast
    change s.fileStaleSince = some since at hsince
    change s.currentTimeSeconds = some now at hnow
    simp only [Capture.checkFile, hlast, hsince, hnow, if_true, if_pos hlong]
  rw [cycle_watch_of_observes v hash s hsees, hchecked]
  cases c.cleanupRaises <;> rfl

/-- The watchdog is all that matters for the watchdog. -/
theorem watch_step (s : Capture) (c : CaptureCycle) :
    s.watch.Step c (s.cycle v hash c).2.watch := by
  by_cases hrestarts : s.watch.Restarts c
  · rw [cycle_watch_of_restarts v hash s hrestarts]
    exact .restart hrestarts
  cases hsees : c.observes with
  | none =>
    rw [cycle_watch_of_blind v hash s hsees]
    exact .blind hsees
  | some m =>
    rw [cycle_watch_of_observes v hash s hsees]
    unfold Capture.checkFile
    dsimp only
    cases hlast : s.lastFileMtime with
    | none => exact .first hrestarts hsees hlast
    | some last =>
      dsimp only
      by_cases hm : m = last
      · subst hm
        simp only [if_true]
        cases hnow : s.currentTimeSeconds with
        | none =>
          have hkept : s.watch = ⟨some m, s.fileStaleSince, none⟩ := by
            rw [Capture.watch, hlast, hnow]
          exact hkept ▸ .unbound (Option.some_ne_none m) rfl
        | some now =>
          cases hsince : s.fileStaleSince with
          | none => exact .stale hrestarts hsees hlast hnow
          | some since =>
            have hshort : ¬now - since > 3 := fun hlong =>
              hrestarts ⟨m, since, now, hsees, hlast, hsince, hnow, hlong⟩
            dsimp only
            rw [if_neg hshort]
            exact .waiting hrestarts hsees hlast hsince
      · rw [if_neg hm]
        exact .updated hrestarts hsees

/-! ### The times of a run -/

/-- The watchdog after some cycles. -/
def watchAfter (l : List CaptureCycle) : Watch := (Capture.fresh.run v hash l).watch

theorem watchAfter_append (l : List CaptureCycle) (c : CaptureCycle) :
    watchAfter v hash (l ++ [c]) = ((Capture.fresh.run v hash l).cycle v hash c).2.watch := by
  rw [watchAfter, Capture.run, List.foldl_append]
  rfl

theorem watchAfter_step (l : List CaptureCycle) (c : CaptureCycle) :
    (watchAfter v hash l).Step c (watchAfter v hash (l ++ [c])) := by
  rw [watchAfter_append]
  exact watch_step v hash _ c

/-- A cycle at time `t` saw the file with time `m` without a restart, and the file has been seen
unchanged since. -/
def Since (l : List CaptureCycle) (m t : ℚ) : Prop :=
  ∃ a c b, l = a ++ c :: b ∧ c.observes = some m ∧ c.time = t ∧
    ¬(watchAfter v hash a).Restarts c ∧ ∀ c' ∈ b, ∀ m', c'.observes = some m' → m' = m

/-- Where the times of the watchdog come from. -/
structure Tracks (l : List CaptureCycle) (w : Watch) : Prop where
  bound : w.lastFileMtime = none ↔ w.currentTimeSeconds = none
  fresh : w.lastFileMtime = none → w.fileStaleSince = none
  now : ∀ m t, w.lastFileMtime = some m → w.currentTimeSeconds = some t → Since v hash l m t
  since : ∀ m t, w.lastFileMtime = some m → w.fileStaleSince = some t → Since v hash l m t

variable {v hash} {l : List CaptureCycle} {c : CaptureCycle} {m t : ℚ}

theorem Since.extend (h : Since v hash l m t) (hsees : ∀ m', c.observes = some m' → m' = m) :
    Since v hash (l ++ [c]) m t := by
  obtain ⟨a, c₀, b, rfl, hsees₀, htime, hrestarts, hb⟩ := h
  refine ⟨a, c₀, b ++ [c], by simp, hsees₀, htime, hrestarts, fun c' hc' => ?_⟩
  rcases List.mem_append.mp hc' with hc' | hc'
  · exact hb c' hc'
  · rw [List.mem_singleton.mp hc']
    exact hsees

theorem Since.here (hsees : c.observes = some m) (hrestarts : ¬(watchAfter v hash l).Restarts c) :
    Since v hash (l ++ [c]) m c.time :=
  ⟨l, c, [], rfl, hsees, rfl, hrestarts, fun _ h => absurd h List.not_mem_nil⟩

theorem sees_only (hsees : c.observes = some m) (m' : ℚ) (h : c.observes = some m') : m' = m :=
  Option.some.inj (h.symm.trans hsees)

/-- A cycle that keeps the times and sees no other file. -/
theorem Tracks.kept {w : Watch} (h : Tracks v hash l w)
    (hsame : ∀ m, w.lastFileMtime = some m → ∀ m', c.observes = some m' → m' = m) :
    Tracks v hash (l ++ [c]) w where
  bound := h.bound
  fresh := h.fresh
  now m t hlast hnow := (h.now m t hlast hnow).extend (hsame m hlast)
  since m t hlast hsince := (h.since m t hlast hsince).extend (hsame m hlast)

/-- A cycle that gets past the check of the file. -/
theorem Tracks.seen {since : Option ℚ} (hpasses : ¬(watchAfter v hash l).Restarts c)
    (hsees : c.observes = some m) (hsince : ∀ t, since = some t → Since v hash (l ++ [c]) m t) :
    Tracks v hash (l ++ [c]) ⟨some m, since, some c.time⟩ where
  bound := by simp
  fresh := by simp
  now := by
    rintro m t ⟨⟩ ⟨⟩
    exact Since.here hsees hpasses
  since := by
    rintro m t ⟨⟩ ht
    exact hsince t ht

/-- One cycle more. The cases are those of what the cycle does. -/
theorem Tracks.append (h : Tracks v hash l (watchAfter v hash l)) (c : CaptureCycle) :
    Tracks v hash (l ++ [c]) (watchAfter v hash (l ++ [c])) := by
  have hstep := watchAfter_step v hash l c
  generalize watchAfter v hash (l ++ [c]) = w' at hstep
  cases hstep with
  | blind hsees =>
    refine h.kept fun m _ m' hm' => ?_
    rw [hsees] at hm'
    cases hm'
  | restart hrestarts =>
    obtain ⟨m₀, -, -, hsees, hlast, -⟩ := hrestarts
    refine h.kept fun m hm m' hm' => ?_
    rw [sees_only hsees m' hm']
    exact Option.some.inj (hlast.symm.trans hm)
  | unbound hlast hnow => exact absurd (h.bound.mpr hnow) hlast
  | first hpasses hsees hlast =>
    refine Tracks.seen hpasses hsees fun t ht => ?_
    rw [h.fresh hlast] at ht
    cases ht
  | updated hpasses hsees =>
    refine Tracks.seen hpasses hsees fun t ht => ?_
    cases ht
  | stale hpasses hsees hlast hnow =>
    refine Tracks.seen hpasses hsees fun t ht => ?_
    cases ht
    exact (h.now _ _ hlast hnow).extend (sees_only hsees)
  | waiting hpasses hsees hlast hsince =>
    refine Tracks.seen hpasses hsees fun t ht => ?_
    cases ht
    exact (h.since _ _ hlast hsince).extend (sees_only hsees)

theorem tracks (v : Viewer) (hash : List (BitVec 8) → ℤ) (l : List CaptureCycle) :
    Tracks v hash l (watchAfter v hash l) := by
  induction l using List.reverseRecOn with
  | nil => exact ⟨by simp [watchAfter, Capture.run, Capture.fresh, Capture.watch],
      fun _ => rfl, by rintro m t ⟨⟩, by rintro m t ⟨⟩⟩
  | append_singleton l c ih => exact ih.append c

/-! ### Between two restarts -/

variable (v hash)

/-- Between two restarts for a stale file there is a cycle that saw the file, more than 3 seconds
before the second one, and the file has been seen unchanged since. -/
def Throttled (l : List CaptureCycle) : Prop :=
  ∀ a c b c' d, l = a ++ c :: (b ++ c' :: d) → (watchAfter v hash a).Restarts c →
    (watchAfter v hash (a ++ c :: b)).Restarts c' →
    ∃ b₁ seen b₂ m, b = b₁ ++ seen :: b₂ ∧ seen.observes = some m ∧ c'.observes = some m ∧
      (∀ x ∈ b₂, ∀ m', x.observes = some m' → m' = m) ∧ c'.time - seen.time > 3

/-- The first cycle after a restart that sees the file sees that it has been updated. -/
def UpdatedAfterRestart (l : List CaptureCycle) : Prop :=
  ∀ a c b c' d m, l = a ++ c :: (b ++ c' :: d) → (watchAfter v hash a).Restarts c →
    c.observes = some m → (∀ x ∈ b, x.observes = none) → c'.observes ≠ some m

variable {v hash}

/-- Neither a restart nor cycles that do not see the file change the times. -/
theorem watchAfter_restart (a b : List CaptureCycle) (c : CaptureCycle)
    (hrestarts : (watchAfter v hash a).Restarts c) (hblind : ∀ x ∈ b, x.observes = none) :
    watchAfter v hash (a ++ c :: b) = watchAfter v hash a := by
  induction b using List.reverseRecOn with
  | nil =>
    rw [watchAfter_append]
    exact cycle_watch_of_restarts v hash _ hrestarts
  | append_singleton b x ih =>
    rw [← List.cons_append, ← List.append_assoc, watchAfter_append,
      cycle_watch_of_blind v hash _ (hblind x (by simp))]
    exact ih fun y hy => hblind y (List.mem_append_left _ hy)

/-- Two places in a list. -/
theorem split_cases {α : Type*} {a a' b b' : List α} {x y : α} (h : a ++ x :: b = a' ++ y :: b') :
    (∃ e, b = e ++ y :: b') ∨ (a = a' ∧ x = y) ∨ ∃ e, b' = e ++ x :: b := by
  rcases List.append_eq_append_iff.mp h with ⟨e, rfl, he⟩ | ⟨e, rfl, he⟩
  · cases e with
    | nil => exact .inr (.inl ⟨(List.append_nil a).symm, (List.cons.inj he).1⟩)
    | cons z e => exact .inl ⟨e, (List.cons.inj he).2⟩
  · cases e with
    | nil => exact .inr (.inl ⟨List.append_nil a', (List.cons.inj he).1.symm⟩)
    | cons z e => exact .inr (.inr ⟨e, (List.cons.inj he).2⟩)

/-- The first cycle that sees the file. -/
theorem exists_first (b : List CaptureCycle) (c' : CaptureCycle) (d : List CaptureCycle)
    (hsees : c'.observes = some m) (hsame : ∀ x ∈ b, ∀ m', x.observes = some m' → m' = m) :
    ∃ e x f, b ++ c' :: d = e ++ x :: f ∧ (∀ y ∈ e, y.observes = none) ∧ x.observes = some m := by
  induction b with
  | nil => exact ⟨[], c', d, rfl, fun y hy => absurd hy List.not_mem_nil, hsees⟩
  | cons x b ih =>
    cases hx : x.observes with
    | some m' =>
      obtain rfl := hsame x (.head b) m' hx
      exact ⟨[], x, b ++ c' :: d, rfl, fun y hy => absurd hy List.not_mem_nil, hx⟩
    | none =>
      obtain ⟨e, y, f, hb, hblind, hy⟩ := ih fun y hy => hsame y (.tail x hy)
      refine ⟨x :: e, y, f, congrArg (List.cons x) hb, fun z hz => ?_, hy⟩
      rcases List.mem_cons.mp hz with rfl | hz
      · exact hx
      · exact hblind z hz

/-- The clock of the cycle that saw the file first is that of the watchdog or an earlier one. -/
theorem time_le (hclock : (l.map CaptureCycle.time).Pairwise (· ≤ ·)) {a d : List CaptureCycle}
    {c' : CaptureCycle} (hl : l = a ++ c' :: d) (h : Since v hash a m t) : t ≤ c'.time := by
  obtain ⟨a', seen, b', rfl, -, rfl, -⟩ := h
  rw [hl, List.pairwise_map] at hclock
  exact (List.pairwise_append.mp hclock).2.2 seen (by simp) c' (.head d)

/-- A cycle that sees the file as it was at time 0. -/
def unchanged (time : ℚ) : CaptureCycle :=
  ⟨.yes, .yes, .content 0 [], time, false, .yes, .yes⟩

/-- The law holds in a run exactly if a restart is followed by an update before the file is seen
again. -/
theorem throttled_iff (l : List CaptureCycle)
    (hclock : (l.map CaptureCycle.time).Pairwise (· ≤ ·)) :
    Throttled v hash l ↔ UpdatedAfterRestart v hash l := by
  constructor
  · intro h a c b c' d m hl hrestarts hsees hblind hsees'
    have hkept := watchAfter_restart a b c hrestarts hblind
    obtain ⟨m₀, since, now, hsees₀, hlast, hsince, hnow, hlong⟩ := id hrestarts
    obtain rfl := sees_only hsees m₀ hsees₀
    obtain ⟨b₁, seen, b₂, m', rfl, hseen, -⟩ := h a c b c' d hl hrestarts
      (hkept ▸ ⟨m₀, since, now, hsees', hlast, hsince, hnow, hlong⟩)
    rw [hblind seen (by simp)] at hseen
    cases hseen
  · intro h a c b c' d hl hrestarts hrestarts'
    obtain ⟨m, since, now, hsees, hlast, hsince, hnow, hlong⟩ := hrestarts'
    have htracks := tracks v hash (a ++ c :: b)
    have hle : now ≤ c'.time := by
      refine time_le hclock (d := d) ?_ (htracks.now m now hlast hnow)
      rw [hl, List.append_assoc, List.cons_append]
    obtain ⟨a', seen, b', hp, hseen, rfl, hpassed, hsame⟩ := htracks.since m since hlast hsince
    rcases split_cases hp with ⟨e, rfl⟩ | ⟨rfl, rfl⟩ | ⟨e, rfl⟩
    · exact ⟨e, seen, b', m, rfl, hseen, hsees, hsame, by linarith⟩
    · exact absurd hrestarts hpassed
    · -- the first restart would have been followed by a cycle that sees the same file
      obtain ⟨e', x, f, hsplit, hblind, hx⟩ := exists_first b c' d hsees fun y hy =>
        hsame y (by simp [hy])
      obtain ⟨m₀, -, -, hsees₀, -⟩ := id hrestarts
      obtain rfl := hsame c (by simp) m₀ hsees₀
      exact absurd hx (h a c e' x f m₀ (hsplit ▸ hl) hrestarts hsees₀ hblind)

theorem throttled_iff_unchanged :
    let l := [unchanged 0, unchanged 1, unchanged 5, unchanged 6, unchanged 7]
    Throttled oneWare (fun _ => 0) l ↔ UpdatedAfterRestart oneWare (fun _ => 0) l :=
  throttled_iff _ (by decide +kernel)

/-! ### A file that stays as it is -/

/-- The sizes of the viewer, the hash and the rest of the state do not matter. -/
theorem cycle_watch_congr {s s' : Capture} (h : s.watch = s'.watch) (v v' : Viewer)
    (hash hash' : List (BitVec 8) → ℤ) (c : CaptureCycle) :
    (s.cycle v hash c).2.watch = (s'.cycle v' hash' c).2.watch := by
  cases hsees : c.observes with
  | none => rw [cycle_watch_of_blind v hash s hsees, cycle_watch_of_blind v' hash' s' hsees, h]
  | some m =>
    obtain ⟨hlast, hsince, hnow⟩ := Watch.mk.inj h
    rw [cycle_watch_of_observes v hash s hsees, cycle_watch_of_observes v' hash' s' hsees]
    simp only [Capture.checkFile, hlast, hsince, hnow]
    cases s'.lastFileMtime with
    | none => rfl
    | some last =>
      dsimp only
      by_cases hm : m = last
      · rw [if_pos hm, if_pos hm]
        cases s'.currentTimeSeconds with
        | none => rfl
        | some now =>
          cases s'.fileStaleSince with
          | none => rfl
          | some since =>
            dsimp only
            split_ifs <;> rfl
      · rw [if_neg hm, if_neg hm]
        rfl

theorem watchAfter_congr (v v' : Viewer) (hash hash' : List (BitVec 8) → ℤ)
    (l : List CaptureCycle) : watchAfter v hash l = watchAfter v' hash' l := by
  induction l using List.reverseRecOn with
  | nil => rfl
  | append_singleton l c ih =>
    rw [watchAfter_append, watchAfter_append]
    exact cycle_watch_congr ih v v' hash hash' c

theorem unchanged_restarts {l : List CaptureCycle} (time : ℚ)
    (h : watchAfter ⟨0, 0, 0, 0⟩ (fun _ => 0) l = ⟨some 0, some 0, some 5⟩) :
    (watchAfter v hash l).Restarts (unchanged time) := by
  rw [watchAfter_congr v ⟨0, 0, 0, 0⟩ hash fun _ => 0, h]
  exact ⟨0, 0, 5, rfl, rfl, rfl, rfl, by norm_num⟩

theorem restarts_at_once : ¬∀ (hash : List (BitVec 8) → ℤ) (l : List CaptureCycle),
    (l.map CaptureCycle.time).Pairwise (· ≤ ·) → Throttled oneWare hash l := by
  intro h
  let start := [unchanged 0, unchanged 1, unchanged 5]
  have hfirst : (watchAfter oneWare (fun _ => 0) start).Restarts (unchanged 6) :=
    unchanged_restarts 6 (by decide +kernel)
  obtain ⟨b₁, _, _, _, hb, -⟩ := h (fun _ => 0) (start ++ [unchanged 6, unchanged 7])
    (by decide +kernel) start (unchanged 6) [] (unchanged 7) [] rfl hfirst
    (unchanged_restarts 7 (by decide +kernel))
  cases b₁ <;> cases hb

end AlteraWorkshops.Gui
