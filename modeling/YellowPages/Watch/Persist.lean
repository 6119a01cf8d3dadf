import YellowPages.Lib.Strings
import YellowPages.Lib.Threads
import YellowPages.Lib.Trace
import YellowPages.Watch.Index

/-!
# The index of an agent across restarts

`internal/watch/persist.go`. The flusher writes the index to a file on every tick and once more when
it is stopped. The other components can still count changes after that, and a process can end at any
point. The next one resumes from what the file holds.
-/

namespace YellowPages.Watch

open Lib

/-! ## The file -/

/-- `file` is the content of `agent-index`, if it is there and can be read. -/
def loadBase (dataDir : String) (file : Option String) : Nat :=
  if dataDir = "" then 0
  else
    match file with
    | none => 0
    | some data => (parseUint (trimSpace data)).getD 0

/-- What `SaveBase` writes. -/
def saved (index : Nat) : String := formatUint index ++ "\n"

/-- A write at the start of a file. What a longer content has after it stays. -/
def overwrite (old new : String) : String := String.ofList (new.toList ++ old.toList.drop new.length)

theorem loadBase_saved {dataDir : String} (hdir : dataDir ≠ "") {index : Nat} (h : index < 2 ^ 64) :
    loadBase dataDir (some (saved index)) = index := by
  simp only [loadBase, if_neg hdir, saved, parseUint_formatUint index h, Option.getD_some]

/-! ## The agent -/

/-- A running `flush`: the index it has read, and whether it has opened the file. -/
structure Flush where
  index : Nat
  opened : Bool := false

/-- A process, the file, and the indexes that clients were told by this process and by the ones
before it. -/
structure AgentIndex where
  dataDir : String
  file : Option String
  watcher : Watcher
  flushes : Threads Flush := ∅
  told : List Nat := []
  toldBefore : List Nat := []

inductive IndexAction where
  | watch (c : WatchCall)
  /-- A client gets the index of a query. -/
  | tell (q : Query)
  /-- `flush`, on a tick or in `Stop`. `WriteFile` opens the file, which empties it, and writes. -/
  | flush (id : Nat)
  | truncate (id : Nat)
  | write (id : Nat)
  | abandon (id : Nat)
  /-- The process ends here, for whatever reason, and a new one starts. -/
  | restart

namespace AgentIndex

def start (dataDir : String) (file : Option String) : AgentIndex :=
  { dataDir := dataDir, file := file, watcher := newWatcher (loadBase dataDir file) }

variable (s : AgentIndex)

def step : IndexAction → AgentIndex
  | .watch c => { s with watcher := c.exec s.watcher }
  | .tell q => { s with told := s.told ++ [s.watcher.currentIndex q] }
  | .flush id =>
    if s.dataDir = "" ∨ id ∈ s.flushes then s
    else { s with flushes := s.flushes.insert id { index := s.watcher.reportedIndex } }
  | .truncate id =>
    match s.flushes[id]? with
    | none => s
    | some f => { s with file := some "", flushes := s.flushes.insert id { f with opened := true } }
  | .write id =>
    match s.flushes[id]? with
    | none => s
    | some f =>
      if f.opened then
        { s with file := s.file.map fun old => overwrite old (saved f.index),
                 flushes := s.flushes.erase id }
      else s
  | .abandon id => { s with flushes := s.flushes.erase id }
  | .restart =>
    { s with
      watcher := newWatcher (loadBase s.dataDir s.file)
      flushes := ∅
      told := []
      toldBefore := s.toldBefore ++ s.told }

def run (actions : List IndexAction) : AgentIndex := actions.foldl step s

/-- What clients are told after a restart is not behind what they were told before it. -/
def Survives : Prop := ∀ old ∈ s.toldBefore, ∀ idx ∈ s.told, old ≤ idx

instance : Decidable s.Survives := inferInstanceAs (Decidable (∀ old ∈ _, ∀ idx ∈ _, _))

/-- The counter does not wrap, and a process ends only when the file has all that it counted. -/
def Persisted : IndexAction → Prop
  | .watch c => s.watcher.index + c.names.length < 2 ^ 64
  | .restart => s.watcher.index ≤ loadBase s.dataDir s.file
  | _ => True

instance : ∀ a, Decidable (s.Persisted a)
  | .watch _ => inferInstanceAs (Decidable (_ < _))
  | .restart => inferInstanceAs (Decidable (_ ≤ _))
  | .tell _ | .flush _ | .truncate _ | .write _ | .abandon _ => inferInstanceAs (Decidable True)

end AgentIndex

/-- A process that ends right after a flush has lost nothing. -/
theorem AgentIndex.persisted_of_flushed (s : AgentIndex) (id : Nat) (hdir : s.dataDir ≠ "")
    (hid : id ∉ s.flushes) (h : s.watcher.reportedIndex < 2 ^ 64) :
    (s.run [.flush id, .truncate id, .write id]).Persisted .restart := by
  have hrun : s.run [.flush id, .truncate id, .write id] =
      { s with file := some (saved s.watcher.reportedIndex)
               flushes := (s.run [.flush id, .truncate id, .write id]).flushes } := by
    simp [AgentIndex.run, AgentIndex.step, hdir, hid, overwrite]
  rw [hrun]
  dsimp only [Persisted]
  rw [loadBase_saved hdir h, Watcher.reportedIndex, atLeastOne]
  split <;> omega

/-! ## Runs -/

theorem Watcher.Counted.currentIndex_bounds {base k : Nat} {w : Watcher} (h : w.Counted base k)
    (q : Query) :
    atLeastOne base ≤ w.currentIndex q ∧ w.currentIndex q ≤ atLeastOne w.index := by
  have hindex : atLeastOne base ≤ atLeastOne w.index :=
    atLeastOne_mono _ _ (by rw [h.index_eq]; omega)
  by_cases hname : q.name = ""
  · rw [currentIndex_list w q hname]
    exact ⟨hindex, le_refl _⟩
  · cases hseen : w.nameIndex[q.name]? with
    | none =>
      rw [currentIndex_unseen w q hseen]
      exact ⟨hindex, le_refl _⟩
    | some i =>
      obtain ⟨hlow, hhigh⟩ := h.name_bounds q.name i hseen
      rw [currentIndex_seen w q hname i hseen, h.index_eq]
      exact ⟨atLeastOne_mono _ _ (by omega), atLeastOne_mono _ _ hhigh⟩

namespace AgentIndex

/-- The process started at `base`. Earlier ones told no more than that, and this one tells no less. -/
structure Resumed (base k : Nat) (s : AgentIndex) : Prop where
  counted : s.watcher.Counted base k
  told : ∀ i ∈ s.told, atLeastOne base ≤ i ∧ i ≤ atLeastOne s.watcher.index
  toldBefore : ∀ i ∈ s.toldBefore, i ≤ atLeastOne base

theorem resumed_start (dataDir : String) (file : Option String) :
    Resumed (loadBase dataDir file) 0 (start dataDir file) where
  counted := Watcher.counted_new _
  told i hi := by simp [start] at hi
  toldBefore i hi := by simp [start] at hi

namespace Resumed

variable {base k : Nat} {s s' : AgentIndex}

theorem survives (h : Resumed base k s) : s.Survives :=
  fun old hold idx hidx => (h.toldBefore old hold).trans (h.told idx hidx).1

/-- The file and the flushes do not matter while the process runs. -/
theorem same (h : Resumed base k s) (hwatcher : s'.watcher = s.watcher) (htold : s'.told = s.told)
    (hbefore : s'.toldBefore = s.toldBefore) : Resumed base k s' := by
  refine ⟨?_, ?_, ?_⟩
  · rw [hwatcher]
    exact h.counted
  · rw [hwatcher, htold]
    exact h.told
  · rw [hbefore]
    exact h.toldBefore

theorem watch (h : Resumed base k s) (c : WatchCall)
    (hwrap : s.watcher.index + c.names.length < 2 ^ 64) :
    Resumed base (k + c.names.length) (s.step (.watch c)) := by
  rw [h.counted.index_eq] at hwrap
  have hcounted := h.counted.exec c hwrap
  refine ⟨hcounted, fun i hi => ?_, h.toldBefore⟩
  obtain ⟨hlow, hhigh⟩ := h.told i hi
  refine ⟨hlow, hhigh.trans (Watcher.atLeastOne_mono _ _ ?_)⟩
  rw [h.counted.index_eq]
  dsimp only [AgentIndex.step]
  rw [hcounted.index_eq]
  omega

theorem tell (h : Resumed base k s) (q : Query) : Resumed base k (s.step (.tell q)) := by
  refine ⟨h.counted, fun i hi => ?_, h.toldBefore⟩
  rcases List.mem_append.mp hi with hi | hi
  · exact h.told i hi
  · rw [List.mem_singleton.mp hi]
    exact h.counted.currentIndex_bounds q

theorem restart (h : Resumed base k s) (hfile : s.watcher.index ≤ loadBase s.dataDir s.file) :
    Resumed (loadBase s.dataDir s.file) 0 (s.step .restart) := by
  have hbase : atLeastOne base ≤ atLeastOne s.watcher.index :=
    Watcher.atLeastOne_mono _ _ (by rw [h.counted.index_eq]; omega)
  have hnext := Watcher.atLeastOne_mono _ _ hfile
  refine ⟨Watcher.counted_new _, fun i hi => (List.not_mem_nil hi).elim, fun i hi => ?_⟩
  rcases List.mem_append.mp hi with hi | hi
  · exact ((h.toldBefore i hi).trans hbase).trans hnext
  · exact (h.told i hi).2.trans hnext

theorem step (h : Resumed base k s) (a : IndexAction) (ha : s.Persisted a) :
    ∃ base k, Resumed base k (s.step a) := by
  cases a with
  | watch c => exact ⟨_, _, h.watch c ha⟩
  | tell q => exact ⟨_, _, h.tell q⟩
  | restart => exact ⟨_, _, h.restart ha⟩
  | flush id =>
    refine ⟨base, k, ?_⟩
    dsimp only [AgentIndex.step]
    split
    · exact h
    · exact h.same rfl rfl rfl
  | truncate id =>
    refine ⟨base, k, ?_⟩
    dsimp only [AgentIndex.step]
    split
    · exact h
    · exact h.same rfl rfl rfl
  | write id =>
    refine ⟨base, k, ?_⟩
    dsimp only [AgentIndex.step]
    split
    · exact h
    · split
      · exact h.same rfl rfl rfl
      · exact h
  | abandon id => exact ⟨base, k, h.same rfl rfl rfl⟩

end Resumed

end AgentIndex

/-- The index survives restarts of an agent that loses no change it counted after the last write. -/
theorem index_survives_restarts (dataDir : String) (file : Option String) (actions : List IndexAction)
    (hrun : Throughout AgentIndex.step AgentIndex.Persisted (AgentIndex.start dataDir file) actions) :
    ((AgentIndex.start dataDir file).run actions).Survives := by
  obtain ⟨base, k, h⟩ := hrun.keeps (fun s => ∃ base k, AgentIndex.Resumed base k s)
    ⟨_, _, AgentIndex.resumed_start dataDir file⟩ (by
      rintro s a ha ⟨base, k, h⟩
      exact h.step a ha)
  exact h.survives

/-- A stop in order: the last flush comes after the last change. -/
def flushedStop : List IndexAction :=
  [.watch (.notifyNames ["web"]), .watch (.notifyNames ["web"]), .tell { name := "web" }, .flush 0,
    .truncate 0,
    .write 0, .restart, .tell { name := "web" }]

theorem index_survives_flushed_stop :
    ((AgentIndex.start "/data" none).run flushedStop).toldBefore = [2] ∧
      ((AgentIndex.start "/data" none).run flushedStop).Survives :=
  ⟨by decide +kernel, index_survives_restarts "/data" none flushedStop (by decide +kernel)⟩

/-- The flusher stops before the servers do. A refresh that a last request brings about is counted and
told, and not written. -/
theorem change_while_draining_lost :
    ¬ ∀ (dataDir : String) (file : Option String) (actions : List IndexAction),
      ((AgentIndex.start dataDir file).run actions).Survives := by
  intro h
  have hsurvives := h "/data" none [.watch (.notifyNames ["web"]), .flush 0, .truncate 0, .write 0,
    .watch (.notifyNames ["web"]), .tell { name := "web" }, .restart, .tell { name := "web" }]
  revert hsurvives
  decide +kernel

end YellowPages.Watch
