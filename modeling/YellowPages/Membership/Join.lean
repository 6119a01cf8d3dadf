import YellowPages.Membership.Syncer

/-!
# Joining

`Syncer.Start`: pull once, report ready, then pull on every tick. Between its steps the registry is
in use by everyone else.
-/

namespace YellowPages.Membership

open Lib Store SeedClient

/-- Where `Start` is: before the join snapshot, before `markReady`, in its loop, or back. -/
inductive Stage where
  | joining | joined | looping | returned
  deriving DecidableEq

structure Syncer where
  store : Memory
  /-- There is a gate. -/
  gated : Bool
  stage : Stage := .joining
  readyOnce : Bool := false
  gateReady : Bool := false
  /-- `readyCh` is closed. -/
  readyClosed : Bool := false
  /-- Ghost: the snapshots that were pulled and merged. -/
  merged : Nat := 0

namespace Syncer

def new (store : Memory) (gated : Bool) : Syncer := { store := store, gated := gated }

/-- A pull that fails leaves everything as it is. -/
def syncOnce (s : Syncer) (clk : Nat → Time) (answers : List Answer) : Syncer :=
  { s with
    store := Cluster.syncOnce s.store clk answers
    merged := if (lookup answers).isOk then s.merged + 1 else s.merged }

def markReady (s : Syncer) : Syncer :=
  if s.readyOnce then s
  else { s with readyOnce := true, gateReady := s.gateReady || s.gated, readyClosed := true }

end Syncer

inductive StartStep where
  | join (clk : Nat → Time) (answers : List Answer)
  | markReady
  | tick (clk : Nat → Time) (answers : List Answer)
  | done
  /-- A call on the registry from elsewhere. -/
  | call (c : Call)

namespace Syncer

/-- A step `Start` is not at changes nothing. -/
def step (s : Syncer) : StartStep → Syncer
  | .join clk answers =>
    if s.stage = .joining then { s.syncOnce clk answers with stage := .joined } else s
  | .markReady => if s.stage = .joined then { s.markReady with stage := .looping } else s
  | .tick clk answers => if s.stage = .looping then s.syncOnce clk answers else s
  | .done => if s.stage = .looping then { s with stage := .returned } else s
  | .call c => { s with store := (c.exec s.store).1 }

def run (s : Syncer) (steps : List StartStep) : Syncer := steps.foldl step s

/-- Nobody is told that the seed is ready before a snapshot was merged. -/
def Gated (s : Syncer) : Prop := (s.gateReady = true ∨ s.readyClosed = true) → 0 < s.merged

instance (s : Syncer) : Decidable (Gated s) := inferInstanceAs (Decidable (_ → _))

/-- The join snapshot reaches a peer. -/
def JoinHeard (s : Syncer) : StartStep → Prop
  | .join _ answers => s.stage = .joining → ∃ a ∈ answers, answered a = true
  | _ => True

/-- Readiness is not reported while `Start` is joining, and past the join a snapshot is merged. -/
structure Joins (s : Syncer) : Prop where
  unready : s.stage = .joining → s.gateReady = false ∧ s.readyClosed = false
  heard : s.stage ≠ .joining → 0 < s.merged

theorem Joins.gated {s : Syncer} (h : s.Joins) : s.Gated := by
  intro hready
  refine h.heard fun hstage => ?_
  obtain ⟨hgate, hclosed⟩ := h.unready hstage
  rcases hready with hready | hready
  · rw [hgate] at hready
    cases hready
  · rw [hclosed] at hready
    cases hready

theorem merged_syncOnce {s : Syncer} (clk : Nat → Time) (answers : List Answer) :
    s.merged ≤ (s.syncOnce clk answers).merged := by
  dsimp only [syncOnce]
  split
  · exact Nat.le_succ _
  · exact le_rfl

theorem merged_syncOnce_pos {s : Syncer} (clk : Nat → Time) {answers : List Answer}
    (h : ∃ a ∈ answers, answered a = true) : 0 < (s.syncOnce clk answers).merged := by
  obtain ⟨lr, hok, -⟩ := lookup_ok answers h
  simp [syncOnce, hok, Except.isOk, Except.toBool]

theorem merged_markReady (s : Syncer) : s.markReady.merged = s.merged := by
  unfold markReady
  split <;> rfl

theorem Joins.step {s : Syncer} {a : StartStep} (h : s.Joins) (ha : s.JoinHeard a) :
    (s.step a).Joins := by
  cases a with
  | join clk answers =>
    dsimp only [Syncer.step]
    split <;> rename_i hstage
    · exact ⟨nofun, fun _ => merged_syncOnce_pos clk (ha hstage)⟩
    · exact h
  | markReady =>
    dsimp only [Syncer.step]
    split <;> rename_i hstage
    · refine ⟨nofun, fun _ => ?_⟩
      have hmerged := h.heard (by rw [hstage]; nofun)
      rw [← merged_markReady] at hmerged
      exact hmerged
    · exact h
  | tick clk answers =>
    dsimp only [Syncer.step]
    split <;> rename_i hstage
    · have hmerged := h.heard (by rw [hstage]; nofun)
      refine ⟨fun hjoining => ?_, fun _ => hmerged.trans_le (merged_syncOnce clk answers)⟩
      have hsame : (s.syncOnce clk answers).stage = s.stage := rfl
      rw [hsame, hstage] at hjoining
      cases hjoining
    · exact h
  | done =>
    dsimp only [Syncer.step]
    split <;> rename_i hstage
    · exact ⟨nofun, fun _ => h.heard (by rw [hstage]; nofun)⟩
    · exact h
  | call c => exact ⟨h.unready, h.heard⟩

end Syncer

/-- In a run whose join snapshot reaches a peer, the seed is reported ready only after a snapshot was
merged. -/
theorem ready_after_snapshot (store : Memory) (gated : Bool) (steps : List StartStep)
    (hheard : Throughout Syncer.step Syncer.JoinHeard (.new store gated) steps) :
    ((Syncer.new store gated).run steps).Gated := by
  refine (hheard.keeps Syncer.Joins ?_ fun s a ha h => h.step ha).gated
  exact ⟨fun _ => ⟨rfl, rfl⟩, fun hstage => absurd rfl hstage⟩

theorem ready_after_snapshot_heard :
    let steps : List StartStep :=
      [.join (fun _ => second) [answer "peer" (newMemory {}) second {}], .markReady,
        .tick (fun _ => 2 * second) [unavailable]]
    ((Syncer.new (newMemory {}) true).run steps).gateReady = true ∧
      0 < ((Syncer.new (newMemory {}) true).run steps).merged := by
  intro steps
  have hready : ((Syncer.new (newMemory {}) true).run steps).gateReady = true := rfl
  refine ⟨hready, ready_after_snapshot (newMemory {}) true steps ?_ (Or.inl hready)⟩
  refine ⟨fun _ => ⟨_, List.mem_singleton_self _, rfl⟩, trivial, trivial, trivial⟩

/-- A seed that reaches no peer when it joins is reported ready all the same. -/
theorem ready_without_snapshot :
    ¬ ∀ (store : Memory) (gated : Bool) (steps : List StartStep),
      ((Syncer.new store gated).run steps).Gated := by
  intro h
  have hgated := h (newMemory {}) true [.join (fun _ => second) [unavailable], .markReady]
  exact absurd (hgated (Or.inl rfl)) (by decide)

end YellowPages.Membership
