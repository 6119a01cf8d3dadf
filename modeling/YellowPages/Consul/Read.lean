import YellowPages.Consul.Handler
import YellowPages.Lib.Trace
import YellowPages.Store.Names
import YellowPages.Watch.Index

/-!
# Blocking reads on a seed

`Handler.read` waits, then reads the registry, then reads the index. The store emits a change
after it has released its lock, so the change and its `Notify` are two steps as well. All of these
interleave.
-/

namespace YellowPages.Consul

open Lib Store Watch Watch.Watcher

/-! ## The system -/

/-- What `read` takes from the request. `filter` is the compiled `?filter=` expression. -/
structure ReadRequest where
  query : Query
  minIndex : Nat := 0
  filter : Option (ServiceEntry → Bool) := none

/-- `Resolve` on a seed, and the filter. -/
def ReadRequest.resolve (req : ReadRequest) (m : Memory) (now : Time) : List ServiceEntry :=
  let entries := (m.lookup now req.query).entries
  match req.filter with
  | none => entries
  | some f => entries.filter f

/-- Where `read` is. `upTo` is the number of store calls made before it read the registry. -/
inductive Reader where
  | start
  | parked (ch : Nat)
  | ready
  | resolved (upTo : Nat) (entries : List ServiceEntry)
  | answered (upTo : Nat) (entries : List ServiceEntry) (index : Nat)
  deriving DecidableEq

structure Batch where
  call : Nat
  events : List ChangeEvent

/-- A batch that was handed to `Notify`, with the index of the query before and after. -/
structure Sent extends Batch where
  before : Nat
  after : Nat

structure System where
  calls : List Call := []
  mem : Memory
  watcher : Watcher
  unsent : List Batch := []
  sent : List Sent := []
  reader : Reader := .start

inductive Action where
  /-- A store call, up to the release of the lock. -/
  | call (c : Call)
  /-- `Notify` with one of the batches on their way. -/
  | notify (k : Nat)
  /-- One turn of the loop of `WaitForChange`. -/
  | wait
  | wake
  | timeout
  | resolve (now : Time)
  | indexFor

namespace System

def startAt (opts : Options) (base : Nat) : System :=
  { mem := newMemory opts, watcher := newWatcher base }

variable (req : ReadRequest) (s : System)

def wait : Reader :=
  if req.minIndex > 0 then
    match s.watcher.waitTurn req.query req.minIndex with
    | .done _ => .ready
    | .park ch => .parked ch
  else .ready

/-- The reader's part of an action. An action it is not ready for changes nothing. -/
def read : Reader → Action → Reader
  | .start, .wait => s.wait req
  | .parked ch, .wake => if ch < s.watcher.bump then .start else .parked ch
  | .parked _, .timeout => .ready
  | .ready, .resolve now => .resolved s.calls.length (req.resolve s.mem now)
  | .resolved upTo entries, .indexFor => .answered upTo entries (s.watcher.currentIndex req.query)
  | r, _ => r

def step : Action → System
  | .call c =>
    let (mem, events) := c.exec s.mem
    let batches := (emit events).map (Batch.mk s.calls.length)
    { s with calls := s.calls ++ [c], mem := mem, unsent := s.unsent ++ batches }
  | .notify k =>
    match s.unsent[k]? with
    | none => s
    | some b =>
      let watcher := s.watcher.notify b.events
      let sent : Sent :=
        { b with before := s.watcher.currentIndex req.query, after := watcher.currentIndex req.query }
      { s with watcher := watcher, unsent := s.unsent.eraseIdx k, sent := s.sent ++ [sent] }
  | a => { s with reader := s.read req s.reader a }

def run (actions : List Action) : System := actions.foldl (step req) s

def counted : Nat := (s.sent.map fun b => b.events.length).sum

end System

/-- A change of the queried service that the reader's `Resolve` has not seen is not notified before
its `indexFor`. If it is the first event that a watcher counts from 0, then it is not notified
after that either: the index is reported as 1 before and after this event. -/
def Action.Prompt (req : ReadRequest) (s : System) : Action → Prop
  | .notify k =>
    match s.unsent[k]? with
    | none => True
    | some b =>
      Concerns (.notify b.events) req.query →
        match s.reader with
        | .resolved upTo _ => b.call < upTo
        | .answered upTo _ _ =>
          b.call < upTo ∨ 1 ≤ s.watcher.index ∨ PastFirst (.notify b.events) req.query
        | _ => True
  | _ => True

/-! ## What holds between the steps -/

/-- What is known of the reader: which calls its entries show, and that the notified changes of the
query which its index counts are among these. -/
def Reader.Labelled (req : ReadRequest) (opts : Options) (s : System) : Reader → Prop
  | .resolved upTo entries =>
    (∃ now, entries = req.resolve ((newMemory opts).run (s.calls.take upTo)).1 now) ∧
      upTo ≤ s.calls.length ∧ ∀ b ∈ s.sent, Concerns (.notify b.events) req.query → b.call < upTo
  | .answered upTo entries index =>
    (∃ now, entries = req.resolve ((newMemory opts).run (s.calls.take upTo)).1 now) ∧
      upTo ≤ s.calls.length ∧ index ≤ s.watcher.currentIndex req.query ∧
      ∀ b ∈ s.sent, Concerns (.notify b.events) req.query → b.after ≤ index → b.call < upTo
  | _ => True

structure Consistent (req : ReadRequest) (opts : Options) (base : Nat) (s : System) : Prop where
  mem_eq : s.mem = ((newMemory opts).run s.calls).1
  counted : Counted base s.counted s.watcher
  unsent_made : ∀ b ∈ s.unsent, b.call < s.calls.length
  sent_made : ∀ b ∈ s.sent, b.call < s.calls.length
  sent_after : ∀ b ∈ s.sent, b.after ≤ s.watcher.currentIndex req.query
  labelled : s.reader.Labelled req opts s

namespace System

variable (req : ReadRequest) (s : System)

/-- Batch `b` as it is recorded when it is handed to `Notify`. -/
def sending (b : Batch) : Sent :=
  { b with
    before := s.watcher.currentIndex req.query
    after := (s.watcher.notify b.events).currentIndex req.query }

def notified (k : Nat) (b : Batch) : System :=
  { s with
    watcher := s.watcher.notify b.events
    unsent := s.unsent.eraseIdx k
    sent := s.sent ++ [s.sending req b] }

variable {s}

theorem step_notify_none {k : Nat} (hb : s.unsent[k]? = none) : s.step req (.notify k) = s := by
  simp only [step, hb]

theorem step_notify_some {k : Nat} {b : Batch} (hb : s.unsent[k]? = some b) :
    s.step req (.notify k) = s.notified req k b := by
  simp only [step, hb]
  rfl

theorem counted_notified (k : Nat) (b : Batch) :
    (s.notified req k b).counted = s.counted + b.events.length := by
  simp [counted, notified, sending]

theorem mem_sent_notified {k : Nat} {b : Batch} {b' : Sent} (hb' : b' ∈ (s.notified req k b).sent) :
    b' ∈ s.sent ∨ b' = s.sending req b := by
  rcases List.mem_append.mp hb' with hb' | hb'
  · exact Or.inl hb'
  · exact Or.inr (List.mem_singleton.mp hb')

end System

namespace Reader.Labelled

variable {req : ReadRequest} {opts : Options} {s : System} {r : Reader}

theorem call (h : r.Labelled req opts s) (c : Call) : r.Labelled req opts (s.step req (.call c)) := by
  have hshown : ∀ {upTo : Nat}, upTo ≤ s.calls.length →
      (s.calls ++ [c]).take upTo = s.calls.take upTo ∧
      upTo ≤ (s.calls ++ [c]).length := by
    intro upTo hle
    rw [List.take_append_of_le_length hle, List.length_append]
    exact ⟨rfl, by omega⟩
  cases r with
  | start => trivial
  | parked ch => trivial
  | ready => trivial
  | resolved upTo entries =>
    obtain ⟨hentries, hle, hsent⟩ := h
    obtain ⟨htake, hle'⟩ := hshown hle
    exact ⟨htake ▸ hentries, hle', hsent⟩
  | answered upTo entries index =>
    obtain ⟨hentries, hle, hindex, hsent⟩ := h
    obtain ⟨htake, hle'⟩ := hshown hle
    exact ⟨htake ▸ hentries, hle', hindex, hsent⟩

theorem notified {k : Nat} {b : Batch} (h : s.reader.Labelled req opts s)
    (hb : s.unsent[k]? = some b) (hprompt : Action.Prompt req s (.notify k))
    (hmono : s.watcher.currentIndex req.query ≤ (s.sending req b).after)
    (hmoves : Concerns (.notify b.events) req.query →
      1 ≤ s.watcher.index ∨ PastFirst (.notify b.events) req.query →
        s.watcher.currentIndex req.query < (s.sending req b).after) :
    s.reader.Labelled req opts (s.notified req k b) := by
  simp only [Action.Prompt, hb] at hprompt
  cases hreader : s.reader with
  | start => trivial
  | parked ch => trivial
  | ready => trivial
  | resolved upTo entries =>
    rw [hreader] at h hprompt
    obtain ⟨hentries, hle, hsent⟩ := h
    refine ⟨hentries, hle, ?_⟩
    intro b' hb' hconcerns
    rcases System.mem_sent_notified req hb' with hb' | rfl
    · exact hsent b' hb' hconcerns
    · exact hprompt hconcerns
  | answered upTo entries index =>
    rw [hreader] at h hprompt
    obtain ⟨hentries, hle, hindex, hsent⟩ := h
    refine ⟨hentries, hle, hindex.trans hmono, ?_⟩
    intro b' hb' hconcerns hafter
    rcases System.mem_sent_notified req hb' with hb' | rfl
    · exact hsent b' hb' hconcerns hafter
    · rcases hprompt hconcerns with hseen | hcounts
      · exact hseen
      · -- It moves the index from at least `index`, so to more than that.
        have hlt := hmoves hconcerns hcounts
        omega

end Reader.Labelled

namespace Consistent

variable {req : ReadRequest} {opts : Options} {base : Nat} {s : System}

theorem start (req : ReadRequest) (opts : Options) (base : Nat) :
    Consistent req opts base (System.startAt opts base) where
  mem_eq := rfl
  counted := counted_new base
  unsent_made := by simp [System.startAt]
  sent_made := by simp [System.startAt]
  sent_after := by simp [System.startAt]
  labelled := trivial

theorem call (h : Consistent req opts base s) (c : Call) :
    Consistent req opts base (s.step req (.call c)) where
  mem_eq := by
    have hmem : (s.step req (.call c)).mem = (c.exec s.mem).1 := rfl
    rw [hmem, h.mem_eq]
    exact (congrArg Prod.fst (run_append (newMemory opts) s.calls [c])).symm
  counted := h.counted
  unsent_made := by
    intro b hb
    simp only [System.step, List.length_append, List.length_singleton] at hb ⊢
    rcases List.mem_append.mp hb with hb | hb
    · have := h.unsent_made b hb
      omega
    · obtain ⟨events, -, rfl⟩ := List.mem_map.mp hb
      exact Nat.lt_succ_self _
  sent_made := by
    intro b hb
    have := h.sent_made b hb
    simp only [System.step, List.length_append, List.length_singleton]
    omega
  sent_after := h.sent_after
  labelled := h.labelled.call c

theorem notify (h : Consistent req opts base s) (k : Nat) (hprompt : Action.Prompt req s (.notify k))
    (hwrap : base + (s.step req (.notify k)).counted < 2 ^ 64) :
    Consistent req opts base (s.step req (.notify k)) := by
  cases hb : s.unsent[k]? with
  | none =>
    rw [System.step_notify_none req hb]
    exact h
  | some b =>
    rw [System.step_notify_some req hb] at hwrap ⊢
    have hnames : (WatchCall.notify b.events).names.length = b.events.length := by
      simp [WatchCall.names]
    rw [System.counted_notified, ← hnames, ← Nat.add_assoc] at hwrap
    have hmono : s.watcher.currentIndex req.query ≤ (s.sending req b).after :=
      h.counted.exec_mono (.notify b.events) req.query hwrap
    have hmoves : Concerns (.notify b.events) req.query →
        1 ≤ s.watcher.index ∨ PastFirst (.notify b.events) req.query →
          s.watcher.currentIndex req.query < (s.sending req b).after := by
      intro hconcerns hcounts
      rw [h.counted.index_eq] at hcounts
      exact (h.counted.exec_moves_iff (.notify b.events) req.query hconcerns hwrap).mpr hcounts
    refine ⟨h.mem_eq, ?_, ?_, ?_, ?_, h.labelled.notified hb hprompt hmono hmoves⟩
    · rw [System.counted_notified, ← hnames]
      exact h.counted.exec (.notify b.events) hwrap
    · intro b' hb'
      exact h.unsent_made b' (List.mem_of_mem_eraseIdx hb')
    · intro b' hb'
      rcases System.mem_sent_notified req hb' with hb' | rfl
      · exact h.sent_made b' hb'
      · exact h.unsent_made b (List.mem_of_getElem? hb)
    · intro b' hb'
      rcases System.mem_sent_notified req hb' with hb' | rfl
      · exact (h.sent_after b' hb').trans hmono
      · exact le_refl _

theorem read (h : Consistent req opts base s) (a : Action) :
    Consistent req opts base { s with reader := s.read req s.reader a } := by
  refine ⟨h.mem_eq, h.counted, h.unsent_made, h.sent_made, h.sent_after, ?_⟩
  have hlabelled := h.labelled
  cases hreader : s.reader <;> rw [hreader] at hlabelled
  case start =>
    cases a
    case wait =>
      simp only [System.read, System.wait]
      split
      · split <;> trivial
      · trivial
    all_goals trivial
  case parked ch =>
    cases a
    case wake =>
      simp only [System.read]
      split <;> trivial
    all_goals trivial
  case ready =>
    cases a
    case resolve now =>
      -- All calls so far are shown, so every batch sent so far is of one of these.
      refine ⟨⟨now, ?_⟩, le_refl _, fun b hb _ => h.sent_made b hb⟩
      rw [List.take_length, ← h.mem_eq]
    all_goals trivial
  case resolved upTo entries =>
    cases a
    case indexFor =>
      obtain ⟨hentries, hle, hsent⟩ := hlabelled
      exact ⟨hentries, hle, le_refl _, fun b hb hconcerns _ => hsent b hb hconcerns⟩
    all_goals exact hlabelled
  case answered upTo entries index => cases a <;> exact hlabelled

theorem step (h : Consistent req opts base s) (a : Action) (hprompt : a.Prompt req s)
    (hwrap : base + (s.step req a).counted < 2 ^ 64) : Consistent req opts base (s.step req a) := by
  cases a with
  | call c => exact h.call c
  | notify k => exact h.notify k hprompt hwrap
  | wait => exact h.read .wait
  | wake => exact h.read .wake
  | timeout => exact h.read .timeout
  | resolve now => exact h.read (.resolve now)
  | indexFor => exact h.read .indexFor

end Consistent

/-! ## Whole runs -/

theorem counted_step (req : ReadRequest) (s : System) (a : Action) :
    s.counted ≤ (s.step req a).counted := by
  cases a with
  | notify k =>
    simp only [System.step]
    split
    · exact le_refl _
    · simp [System.counted]
  | _ => exact le_refl _

theorem Consistent.run {req : ReadRequest} {opts : Options} {base : Nat} {s : System}
    (h : Consistent req opts base s) {actions : List Action}
    (hprompt : Throughout (System.step req) (fun s a => a.Prompt req s) s actions)
    (hwrap : base + (s.run req actions).counted < 2 ^ 64) :
    Consistent req opts base (s.run req actions) := by
  refine hprompt.keeps (fun s => base + s.counted < 2 ^ 64 → Consistent req opts base s)
    (fun _ => h) ?_ hwrap
  intro s a hprompt h hwrap
  have hle := counted_step req s a
  exact (h (by omega)).step a hprompt hwrap

/-- If no change is stored and notified between the `Resolve` and the `indexFor` of a read, and none
that it has not seen is the first that a watcher counts from 0, then its entries are those of the
registry after some first calls, and every notified change of the query whose index is at most the
reported one was made by one of these calls. Any other has an index past the reported one, so that
a client that waits on it returns. -/
theorem index_behind_data (req : ReadRequest) (opts : Options) (base : Nat) (actions : List Action)
    (hprompt : Throughout (System.step req) (fun s a => a.Prompt req s) (System.startAt opts base)
      actions) :
    let s := (System.startAt opts base).run req actions
    base + s.counted < 2 ^ 64 →
    ∀ upTo entries index, s.reader = .answered upTo entries index →
      (∃ now, entries = req.resolve ((newMemory opts).run (s.calls.take upTo)).1 now) ∧
        (∀ b ∈ s.sent, Concerns (.notify b.events) req.query → b.after ≤ index → b.call < upTo) ∧
        ∀ b ∈ s.sent, Concerns (.notify b.events) req.query → upTo ≤ b.call →
          ∃ i, s.watcher.waitTurn req.query index = .done i := by
  intro s hwrap upTo entries index hreader
  have h : Consistent req opts base s := (Consistent.start req opts base).run hprompt hwrap
  have hlabelled := h.labelled
  rw [hreader] at hlabelled
  obtain ⟨hentries, -, hindex, hsent⟩ := hlabelled
  refine ⟨hentries, hsent, ?_⟩
  intro b hb hconcerns hlater
  have hpast : index < b.after := by
    by_contra hle
    have := hsent b hb hconcerns (by omega)
    omega
  have hafter := h.sent_after b hb
  refine ⟨s.watcher.currentIndex req.query, if_pos (Or.inr ?_)⟩
  omega

def registerWeb (port : UInt16) (generation : Nat) : Action :=
  let web : ServiceInstance := { id := "web", name := "web", port := port }
  .call (.register (fun _ => 0) { node := { id := "n" }, services := [web], generation := generation })

def readWeb : ReadRequest := { query := { name := "web" } }

def System.answer (s : System) : Option (Nat × List UInt16 × Nat) :=
  match s.reader with
  | .answered upTo entries index => some (upTo, entries.map (·.service.port), index)
  | _ => none

/-- The update comes after the answer, and a client that waits on the answer's index returns. -/
theorem update_after_answer_wakes :
    let s := (System.startAt {} 0).run readWeb
      [registerWeb 80 1, .notify 0, .wait, .resolve 0, .indexFor, registerWeb 81 2, .notify 0]
    ∃ i, s.watcher.waitTurn readWeb.query 1 = .done i := by
  intro s
  have hprompt : Throughout (System.step readWeb) (fun s a => a.Prompt readWeb s) (System.startAt {} 0)
      [registerWeb 80 1, .notify 0, .wait, .resolve 0, .indexFor, registerWeb 81 2, .notify 0] := by
    refine ⟨trivial, fun _ => trivial, trivial, trivial, trivial, trivial,
      fun _ => Or.inr (Or.inl ?_), trivial⟩
    decide
  obtain ⟨entries, hreader⟩ : ∃ entries, s.reader = .answered 1 entries 1 := ⟨_, rfl⟩
  obtain ⟨b, hb, hconcerns, hlater⟩ :
      ∃ b ∈ s.sent, Concerns (.notify b.events) readWeb.query ∧ 1 ≤ b.call := by
    decide
  have h := index_behind_data readWeb {} 0 _ hprompt (by decide) 1 entries 1 hreader
  exact h.2.2 b hb hconcerns hlater

/-- A watcher that starts at 0 reports 1 before and after the first registration, so that a client
that has read nothing parks. -/
example :
    let s := (System.startAt {} 0).run readWeb
      [.wait, .resolve 0, registerWeb 80 1, .indexFor, .notify 0]
    s.answer = some (0, [], 1) ∧ s.watcher.waitTurn readWeb.query 1 = .park 1 := by
  decide

/-- The update is stored and notified between the two reads. The answer has the old port and the
new index, and a client that waits on this index parks. -/
theorem index_ahead_of_data :
    let s := (System.startAt {} 0).run readWeb
      [registerWeb 80 1, .notify 0, .wait, .resolve 0, registerWeb 81 2, .notify 0, .indexFor]
    s.answer = some (1, [80], 2) ∧
      (∃ b ∈ s.sent, Concerns (.notify b.events) readWeb.query ∧ b.before = 1 ∧ b.after = 2 ∧
        b.call = 1) ∧
      s.watcher.waitTurn readWeb.query 2 = .park 2 := by
  decide

end YellowPages.Consul
