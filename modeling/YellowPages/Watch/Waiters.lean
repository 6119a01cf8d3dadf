import YellowPages.Lib.Threads
import YellowPages.Watch.Index

/-!
# Clients that wait for a change

Any number of `WaitForChange` calls beside the notifications. A turn of the loop reads the index and
the channel under the lock. It compares and parks after it let go of the lock, and a notification can
come in between.
-/

namespace YellowPages.Watch

open Lib

/-! ## The calls -/

inductive WaitPhase where
  | reading
  /-- The lock is released, the index not yet compared. -/
  | comparing (cur ch : Nat)
  /-- In the `select`. -/
  | parked (cur ch : Nat)
  | returned (cur : Nat)
  deriving DecidableEq

structure Waiter where
  query : Query
  minIndex : Nat
  phase : WaitPhase := .reading

/-- A watcher and the calls of `WaitForChange` on it. -/
structure Waiting where
  watcher : Watcher
  waiters : Threads Waiter := ∅

inductive WaitAction where
  | watch (c : WatchCall)
  | call (id : Nat) (q : Query) (minIndex : Nat)
  | read (id : Nat)
  | compare (id : Nat)
  /-- The channel is closed. -/
  | wake (id : Nat)
  /-- The timer fires, or the context is cancelled. -/
  | giveUp (id : Nat)

def Watcher.closed (w : Watcher) (ch : Nat) : Prop := ch < w.bump

instance (w : Watcher) (ch : Nat) : Decidable (w.closed ch) := inferInstanceAs (Decidable (_ < _))

namespace Waiter

variable (t : Waiter) (w : Watcher)

def read : Waiter :=
  match t.phase with
  | .reading => { t with phase := .comparing (w.currentIndex t.query) w.bump }
  | _ => t

def compare : Waiter :=
  match t.phase with
  | .comparing cur ch =>
    if t.minIndex = 0 ∨ cur ≠ t.minIndex then { t with phase := .returned cur }
    else { t with phase := .parked cur ch }
  | _ => t

def wake : Waiter :=
  match t.phase with
  | .parked _ ch => if w.closed ch then { t with phase := .reading } else t
  | _ => t

def giveUp : Waiter :=
  match t.phase with
  | .parked cur _ => { t with phase := .returned cur }
  | _ => t

end Waiter

namespace Waiting

def new (base : Nat) : Waiting := { watcher := newWatcher base }

variable (s : Waiting)

def move (id : Nat) (f : Waiter → Waiter) : Waiting :=
  match s.waiters[id]? with
  | some t => { s with waiters := s.waiters.insert id (f t) }
  | none => s

/-- A step that a call is not at changes nothing. -/
def step : WaitAction → Waiting
  | .watch c => { s with watcher := c.exec s.watcher }
  | .call id q minIndex =>
    if id ∈ s.waiters then s
    else { s with waiters := s.waiters.insert id { query := q, minIndex := minIndex } }
  | .read id => s.move id (·.read s.watcher)
  | .compare id => s.move id Waiter.compare
  | .wake id => s.move id (·.wake s.watcher)
  | .giveUp id => s.move id Waiter.giveUp

def run (actions : List WaitAction) : Waiting := actions.foldl step s

end Waiting

/-! ## What a waiter knows -/

/-- As long as the channel is open, the index is the one that was read with it. -/
def Watcher.Unmoved (w : Watcher) (q : Query) (cur ch : Nat) : Prop :=
  ch ≤ w.bump ∧ (¬ w.closed ch → w.currentIndex q = cur)

def Waiter.Knows (w : Watcher) (t : Waiter) : Prop :=
  match t.phase with
  | .reading | .returned _ => True
  | .comparing cur ch => w.Unmoved t.query cur ch
  | .parked cur ch => cur = t.minIndex ∧ w.Unmoved t.query cur ch

namespace Watcher

theorem exec_quiet (w : Watcher) {c : WatchCall} (h : c.names = []) :
    SameIndex w (c.exec w) ∧ (c.exec w).bump = w.bump := by
  refine ⟨by simpa [h] using exec_sameIndex w c, ?_⟩
  cases c with
  | notify events => simp [WatchCall.exec, notify, List.map_eq_nil_iff.mp h]
  | notifyNames names => simp [WatchCall.exec, notifyNames, show names = [] from h]
  | subscribe q => rfl
  | cancel id => rfl
  | receive id => rfl

/-- A call either closes the channel or leaves every index as it is. -/
theorem Unmoved.exec {w : Watcher} {q : Query} {cur ch : Nat} (h : w.Unmoved q cur ch) (c : WatchCall) :
    (c.exec w).Unmoved q cur ch := by
  obtain ⟨hle, hsame⟩ := h
  by_cases hnames : c.names = []
  · obtain ⟨hindex, hbump⟩ := exec_quiet w hnames
    refine ⟨by rw [hbump]; exact hle, fun hopen => ?_⟩
    rw [hindex.currentIndex]
    exact hsame (by rwa [closed, hbump] at hopen)
  · have hbump := bump_exec w c hnames
    refine ⟨by omega, fun hopen => ?_⟩
    rw [closed, hbump] at hopen
    omega

end Watcher

namespace Waiter

variable {w : Watcher} {t : Waiter}

theorem Knows.exec (h : t.Knows w) (c : WatchCall) : t.Knows (c.exec w) := by
  obtain ⟨q, minIndex, phase⟩ := t
  cases phase with
  | reading => trivial
  | comparing cur ch => exact Watcher.Unmoved.exec h c
  | parked cur ch => exact ⟨h.1, h.2.exec c⟩
  | returned cur => trivial

theorem Knows.read (h : t.Knows w) : (t.read w).Knows w := by
  unfold Waiter.read
  split
  · exact ⟨le_refl _, fun _ => rfl⟩
  · exact h

/-- Only a waiter whose index is the client's own parks. -/
theorem Knows.compare (h : t.Knows w) : t.compare.Knows w := by
  unfold Waiter.compare
  split
  · rename_i cur ch hphase
    rw [Knows, hphase] at h
    split <;> rename_i hcur
    · trivial
    · rw [not_or, not_not] at hcur
      exact ⟨hcur.2, h⟩
  · exact h

theorem Knows.wake (h : t.Knows w) : (t.wake w).Knows w := by
  unfold Waiter.wake
  split
  · split
    · trivial
    · exact h
  · exact h

theorem Knows.giveUp (h : t.Knows w) : t.giveUp.Knows w := by
  unfold Waiter.giveUp
  split
  · trivial
  · exact h

end Waiter

namespace Waiting

def Informed (s : Waiting) : Prop := Each (·.Knows s.watcher) s.waiters

variable {s : Waiting}

theorem Informed.move (h : s.Informed) (id : Nat) {f : Waiter → Waiter}
    (hf : ∀ t : Waiter, t.Knows s.watcher → (f t).Knows s.watcher) : (s.move id f).Informed := by
  unfold Waiting.move
  split
  · rename_i t ht
    exact h.insert id (hf t (h id t ht)) fun _ _ _ _ hu => hu
  · exact h

theorem Informed.step (h : s.Informed) (a : WaitAction) : (s.step a).Informed := by
  cases a with
  | watch c => exact Each.mono h fun t ht => ht.exec c
  | call id q minIndex =>
    unfold Waiting.step
    dsimp only
    split
    · exact h
    · exact h.insert id trivial fun _ _ _ _ hu => hu
  | read id => exact h.move id fun t ht => ht.read
  | compare id => exact h.move id fun t ht => ht.compare
  | wake id => exact h.move id fun t ht => ht.wake
  | giveUp id => exact h.move id fun t ht => ht.giveUp

theorem Informed.run (h : s.Informed) (actions : List WaitAction) : (s.run actions).Informed := by
  induction actions generalizing s with
  | nil => exact h
  | cons a rest ih => exact ih (h.step a)

end Waiting

/-! ## No regress, no stale wait -/

theorem Watcher.currentIndex_run_mono (base : Nat) (q : Query) (calls later : List WatchCall)
    (hwrap : base + changes (calls ++ later) < 2 ^ 64) :
    ((newWatcher base).run calls).currentIndex q ≤
      ((newWatcher base).run (calls ++ later)).currentIndex q := by
  induction later using List.reverseRecOn with
  | nil => rw [List.append_nil]
  | append_singleton later c ih =>
    have hsum : changes (calls ++ (later ++ [c])) = changes (calls ++ later) + c.names.length := by
      simp [changes, Nat.add_assoc]
    rw [hsum] at hwrap
    have hcount := counted_run base (calls ++ later) (by omega)
    have hlast := hcount.exec_mono c q (by omega)
    have hrun : (newWatcher base).run (calls ++ (later ++ [c])) =
        c.exec ((newWatcher base).run (calls ++ later)) := by
      rw [← List.append_assoc, Watcher.run, List.foldl_append]
      rfl
    rw [hrun]
    exact (ih (by omega)).trans hlast

/-- The index of a query never falls, and a client that is parked on an open channel waits on the
index as it is. -/
theorem no_stale_wait (base : Nat) :
    (∀ (q : Query) (calls later : List WatchCall),
      base + Watcher.changes (calls ++ later) < 2 ^ 64 →
      ((newWatcher base).run calls).currentIndex q ≤
        ((newWatcher base).run (calls ++ later)).currentIndex q) ∧
      ∀ (actions : List WaitAction) (id : Nat) (t : Waiter) (cur ch : Nat),
        ((Waiting.new base).run actions).waiters[id]? = some t → t.phase = .parked cur ch →
          ¬ ((Waiting.new base).run actions).watcher.closed ch →
            ((Waiting.new base).run actions).watcher.currentIndex t.query = t.minIndex := by
  refine ⟨fun q calls later => Watcher.currentIndex_run_mono base q calls later, ?_⟩
  intro actions id t cur ch ht hphase hopen
  have hnew : (Waiting.new base).Informed := Each.empty _
  have hknows : t.Knows ((Waiting.new base).run actions).watcher := hnew.run actions id t ht
  rw [Waiter.Knows, hphase] at hknows
  rw [hknows.2.2 hopen, hknows.1]

/-- The name is first seen at index 2, and moves on from there. A client that waits on 2 is parked, and
a new subscriber does not wake it. -/
theorem no_stale_wait_first_seen :
    (((newWatcher 1).run [.notifyNames ["web"]]).currentIndex { name := "web" } = 2 ∧
      ((newWatcher 1).run [.notifyNames ["web"]]).currentIndex { name := "web" } ≤
        ((newWatcher 1).run [.notifyNames ["web"], .notifyNames ["api", "web"]]).currentIndex
          { name := "web" }) ∧
      let s := (Waiting.new 1).run [.watch (.notifyNames ["web"]), .call 0 { name := "web" } 2,
          .read 0, .compare 0,
        .watch (.subscribe {})]
      s.waiters[0]?.map Waiter.phase = some (.parked 2 1) ∧ s.watcher.currentIndex
        { name := "web" } = 2 := by
  refine ⟨⟨by decide,
    (no_stale_wait 1).1 { name := "web" } [.notifyNames ["web"]] [.notifyNames ["api", "web"]]
    (by decide)⟩, by decide, ?_⟩
  exact (no_stale_wait 1).2 _ 0 { query := { name := "web" }, minIndex := 2, phase := .parked 2 1 }
    2 1 rfl rfl
    (by decide)

end YellowPages.Watch
