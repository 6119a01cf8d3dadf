import YellowPages.Server.Watch

/-!
# The indexes of a stream

A snapshot response carries the index of the query at the time it is sent, an event the index of its
own change.
-/

namespace YellowPages.Watch

/-! ## The indexes of a batch -/

theorem restamped_index (index : Nat) (events : List ChangeEvent)
    (hwrap : index + events.length < 2 ^ 64) :
    (restamped index events).map ChangeEvent.index = List.range' (index + 1) events.length := by
  induction events generalizing index with
  | nil => rfl
  | cons ev rest ih =>
    rw [List.length_cons] at hwrap
    have hsucc : u64Succ index = index + 1 := Nat.mod_eq_of_lt (by omega)
    rw [restamped, List.map_cons, ih _ (by omega), List.length_cons, List.range'_succ, hsucc]

theorem Watcher.Counted.currentIndex_le {base k : Nat} {w : Watcher} (h : Watcher.Counted base k w)
    (q : Query) :
    w.currentIndex q ≤ atLeastOne w.index := by
  by_cases hname : q.name = ""
  · rw [Watcher.currentIndex_list w q hname]
  · cases hseen : w.nameIndex[q.name]? with
    | none => rw [Watcher.currentIndex_unseen w q hseen]
    | some i =>
      have hb := h.name_bounds q.name i hseen
      rw [Watcher.currentIndex_seen w q hname i hseen]
      exact atLeastOne_mono _ _ (by rw [h.index_eq]; omega)

end YellowPages.Watch

namespace YellowPages.Server

open Lib Store Wire Watch

/-! ## Indexes sent, read and waiting -/

namespace Phase

/-- The snapshot is out. -/
def past : Phase → Bool
  | .live _ _ | .returned _ => true
  | _ => false

end Phase

namespace Session

def indexes (s : Session) : List Nat := s.sent.map PbWatchResponse.index

/-- The index that goes out next, and those of the events behind it. -/
def ahead (s : Session) : List Nat :=
  s.phase.idx.toList ++ (s.phase.hand.toList ++ s.channel).map ChangeEvent.index

def Monotone (s : Session) : Prop := s.indexes.Pairwise (· ≤ ·)

instance (s : Session) : Decidable s.Monotone := inferInstanceAs (Decidable (List.Pairwise _ _))

/-- An index that is read for the snapshot is not past an event that waits, and the counter does
not wrap. -/
def InStep (s : Session) : WatchAction → Prop
  | .readIndex => s.phase.past = false → ∀ ev ∈ s.channel, s.watcher.currentIndex s.query ≤ ev.index
  | .notify k => ∀ events ∈ s.pending[k]?, s.watcher.index + events.length < 2 ^ 64
  | _ => True

instance (s : Session) : ∀ a, Decidable (s.InStep a)
  | .readIndex => inferInstanceAs (Decidable (_ → ∀ ev ∈ s.channel, _))
  | .notify k => inferInstanceAs (Decidable (∀ events ∈ s.pending[k]?, _))
  | .call _ | .subscribe | .lookup _ | .send | .receive | .cancel | .other _ =>
    inferInstanceAs (Decidable True)

structure Ordered (s : Session) : Prop where
  attached : s.Attached
  counted : ∃ base k, Watcher.Counted base k s.watcher
  sorted : (s.indexes ++ s.ahead).Pairwise (· ≤ ·)
  bounded : ∀ i ∈ s.indexes ++ s.ahead, i ≤ atLeastOne s.watcher.index
  /-- What the snapshot has sent is not past the index of the query. -/
  current : s.phase.past = false → ∀ i ∈ s.indexes ++ s.phase.idx.toList,
    i ≤ s.watcher.currentIndex s.query

theorem delivered_index (s : Session) (events : List ChangeEvent)
    (hwrap : s.watcher.index + events.length < 2 ^ 64) :
    ((s.delivered events).map ChangeEvent.index).Sublist
      (List.range' (s.watcher.index + 1) events.length) := by
  unfold delivered
  split
  · exact List.nil_sublist _
  · rw [← restamped_index _ _ hwrap]
    exact ((List.take_sublist _ _).trans List.filter_sublist).map _

namespace Ordered

variable {s s' : Session}

theorem new (opts : Options) (base : Nat) (q : Query) : (Session.new opts base q).Ordered where
  attached := Attached.new opts base q
  counted := ⟨base, 0, Watcher.counted_new base⟩
  sorted := List.Pairwise.nil
  bounded := nofun
  current := nofun

/-- A step that sends, receives or forgets keeps the order. -/
theorem rearranged (h : s.Ordered) (hattached : s'.Attached)
    (hindex : Watcher.SameIndex s.watcher s'.watcher) (hquery : s'.query = s.query)
    (hlist : (s'.indexes ++ s'.ahead).Sublist (s.indexes ++ s.ahead))
    (hcurrent : s'.phase.past = false → s.phase.past = false ∧
      (s'.indexes ++ s'.phase.idx.toList).Sublist (s.indexes ++ s.phase.idx.toList)) :
    s'.Ordered where
  attached := hattached
  counted := by
    obtain ⟨base, k, hcounted⟩ := h.counted
    exact ⟨base, k, hindex.counted hcounted⟩
  sorted := h.sorted.sublist hlist
  bounded i hi := by
    rw [hindex.1]
    exact h.bounded i (hlist.subset hi)
  current hpast i hi := by
    obtain ⟨hpast', hsub⟩ := hcurrent hpast
    rw [hindex.currentIndex, hquery]
    exact h.current hpast' i (hsub.subset hi)

theorem notify (h : s.Ordered) {k : Nat} {events : List ChangeEvent} (hattached : s'.Attached)
    (hwrap : s.watcher.index + events.length < 2 ^ 64)
    (hs' : s' = { s with watcher := s.watcher.notify events, pending := s.pending.eraseIdx k })
    (hchannel : s'.channel = s.channel ++ s.delivered events) : s'.Ordered := by
  obtain ⟨base, n, hcounted⟩ := h.counted
  have hsub := s.delivered_index events hwrap
  have hlist : s'.indexes ++ s'.ahead =
      s.indexes ++ s.ahead ++ (s.delivered events).map ChangeEvent.index := by
    rw [indexes, indexes, ahead, ahead, hchannel, hs']
    simp only [List.map_append, List.append_assoc]
  have hlength : (WatchCall.notify events).names.length = events.length := List.length_map _
  have hn : base + n + (WatchCall.notify events).names.length < 2 ^ 64 := by
    rw [hlength, ← hcounted.index_eq]
    exact hwrap
  have hindex : s'.watcher.index = s.watcher.index + events.length := by
    rw [hs', hcounted.index_eq, Nat.add_assoc, ← hlength]
    exact (hcounted.exec (.notify events) hn).index_eq
  have hnew : ∀ i ∈ (s.delivered events).map ChangeEvent.index,
      s.watcher.index < i ∧ i ≤ s.watcher.index + events.length := by
    intro i hi
    obtain ⟨j, hj, rfl⟩ := List.mem_range'.mp (hsub.subset hi)
    omega
  refine ⟨hattached, ?_, ?_, ?_, ?_⟩
  · rw [hs']
    exact ⟨base, _, hcounted.exec (.notify events) hn⟩
  · -- The new indexes are counted from where every older one stops.
    rw [hlist]
    refine List.pairwise_append.mpr ⟨h.sorted, ?_, fun i hi j hj => ?_⟩
    · exact ((List.pairwise_lt_range' _).sublist hsub).imp Nat.le_of_lt
    · have hold := h.bounded i hi
      have hlt := (hnew j hj).1
      unfold atLeastOne at hold
      split at hold <;> omega
  · intro i hi
    rw [hlist, List.mem_append] at hi
    rw [hindex]
    rcases hi with hi | hi
    · exact (h.bounded i hi).trans (Watcher.atLeastOne_mono _ _ (Nat.le_add_right _ _))
    · have hle := (hnew i hi).2
      unfold atLeastOne
      split <;> omega
  · subst hs'
    intro hpast i hi
    exact (h.current hpast i hi).trans (hcounted.exec_mono (.notify events) s.query hn)

theorem readIndex (h : s.Ordered) {id : Nat} {rest : List ServiceEntry} (hattached : s'.Attached)
    (hbehind : ∀ ev ∈ s.channel, s.watcher.currentIndex s.query ≤ ev.index)
    (hphase : s.phase = .snapshot id rest none)
    (hs' : s' = { s with phase := .snapshot id rest (some (s.watcher.currentIndex s.query)) })
    (hchannel : s'.channel = s.channel) : s'.Ordered := by
  obtain ⟨base, n, hcounted⟩ := h.counted
  have hahead : s.ahead = s.channel.map ChangeEvent.index := by rw [ahead, hphase]; rfl
  have hahead' : s'.ahead = s.watcher.currentIndex s.query :: s.channel.map ChangeEvent.index := by
    rw [ahead, hchannel, hs']
    rfl
  have hindexes : s'.indexes = s.indexes := by rw [indexes, hs', indexes]
  have hsent : ∀ i ∈ s.indexes, i ≤ s.watcher.currentIndex s.query := fun i hi =>
    h.current (by rw [hphase]; rfl) i (List.mem_append_left _ hi)
  have hsorted := h.sorted
  have hbounded := h.bounded
  rw [hahead] at hsorted hbounded
  obtain ⟨hleft, hright, hacross⟩ := List.pairwise_append.mp hsorted
  refine ⟨hattached, by rw [hs']; exact ⟨base, n, hcounted⟩, ?_, ?_, ?_⟩
  · rw [hindexes, hahead', List.pairwise_append, List.pairwise_cons]
    refine ⟨hleft, ⟨?_, hright⟩, ?_⟩
    · intro j hj
      obtain ⟨ev, hev, rfl⟩ := List.mem_map.mp hj
      exact hbehind ev hev
    · intro i hi j hj
      rcases List.mem_cons.mp hj with rfl | hj
      · exact hsent i hi
      · exact hacross i hi j hj
  · intro i hi
    rw [hindexes, hahead', List.mem_append, List.mem_cons] at hi
    have hwatcher : s'.watcher = s.watcher := by rw [hs']
    rw [hwatcher]
    rcases hi with hi | rfl | hi
    · exact hbounded i (List.mem_append_left _ hi)
    · exact hcounted.currentIndex_le s.query
    · exact hbounded i (List.mem_append_right _ hi)
  · rw [hindexes, hs']
    intro _ i hi
    rcases List.mem_append.mp hi with hi | hi
    · exact hsent i hi
    · rw [List.mem_singleton.mp hi]

theorem moves (h : s.Ordered) {a : WatchAction} (ha : s.InStep a) (hattached : s'.Attached)
    (hmoves : Moves s s' a) : s'.Ordered := by
  cases hmoves with
  | still hs' hindex hchannel =>
    refine h.rearranged hattached (by rw [hs']; exact hindex) (by rw [hs']) ?_ ?_
    · rw [ahead, hchannel, hs']
      exact List.Sublist.refl _
    · rw [hs']
      exact fun hpast => ⟨hpast, List.Sublist.refl _⟩
  | call hs' hchannel =>
    subst hs'
    exact ⟨hattached, h.counted, h.sorted, h.bounded, h.current⟩
  | notify hk hs' hchannel => exact h.notify hattached (ha _ hk) hs' hchannel
  | subscribe hphase hs' hchannel =>
    refine h.rearranged hattached (by rw [hs']; exact ⟨rfl, rfl⟩) (by rw [hs']) ?_ fun _ => ?_
    · rw [ahead, hchannel, hs']
      simp [indexes, Phase.idx, Phase.hand]
    · rw [hphase, hs']
      exact ⟨rfl, List.Sublist.refl _⟩
  | stop hs' hindex hchannel =>
    refine h.rearranged hattached (by rw [hs']; exact hindex) (by rw [hs']) ?_ (by rw [hs']; nofun)
    rw [ahead, hchannel, hs']
    simp [indexes, Phase.idx, Phase.hand]
  | lookup hphase hs' hchannel =>
    refine h.rearranged hattached (by rw [hs']; exact ⟨rfl, rfl⟩) (by rw [hs']) ?_ fun _ => ?_
    · rw [ahead, hchannel, hs', ahead, hphase]
      exact List.Sublist.refl _
    · rw [hphase, hs']
      exact ⟨rfl, List.Sublist.refl _⟩
  | readIndex hphase hs' hchannel =>
    exact h.readIndex hattached (ha (by rw [hphase]; rfl)) hphase hs' hchannel
  | sendEntry hphase hs' hchannel =>
    refine h.rearranged hattached (by rw [hs']; exact ⟨rfl, rfl⟩) (by rw [hs']) ?_ fun _ => ?_
    · rw [ahead, hchannel, hs', ahead, hphase]
      simp [indexes, eventResponse, Phase.idx, Phase.hand]
    · rw [hphase, hs']
      simp [indexes, eventResponse, Phase.idx, Phase.past]
  | sendDone hphase hs' hchannel =>
    refine h.rearranged hattached (by rw [hs']; exact ⟨rfl, rfl⟩) (by rw [hs']) ?_
      (by rw [hs']; nofun)
    rw [ahead, hchannel, hs', ahead, hphase]
    simp [indexes, Phase.idx, Phase.hand]
  | sendEvent hphase hs' hchannel =>
    refine h.rearranged hattached (by rw [hs']; exact ⟨rfl, rfl⟩) (by rw [hs']) ?_
      (by rw [hs']; nofun)
    rw [ahead, hchannel, hs', ahead, hphase]
    simp [indexes, eventResponse, Phase.idx, Phase.hand]
  | receive hphase hs' hchannel =>
    refine h.rearranged hattached (by rw [hs']; exact ⟨rfl, rfl⟩) (by rw [hs']) ?_
      (by rw [hs']; nofun)
    rw [ahead, ahead, hchannel, hphase, hs']
    simp [indexes, Phase.idx, Phase.hand]

theorem monotone (h : s.Ordered) : s.Monotone := (List.pairwise_append.mp h.sorted).1

end Ordered

end Session

/-- The indexes of a stream do not fall where no snapshot response is ahead of an event that waits. -/
theorem stream_index_monotone (opts : Options) (base : Nat) (q : Query) (actions : List WatchAction)
    (hrun : Throughout Session.step Session.InStep (Session.new opts base q) actions) :
    ((Session.new opts base q).run actions).Monotone := by
  have hordered : ((Session.new opts base q).run actions).Ordered := by
    refine hrun.keeps Session.Ordered (Session.Ordered.new opts base q) ?_
    intro s a ha h
    exact h.moves ha (h.attached.step a) (Session.step_spec h.attached a)
  exact hordered.monotone

/-! ## A change while the snapshot is sent -/

def registerWeb (n : String) : WatchAction :=
  .call (.register (fun _ => 0) (single { id := n } { id := "s", name := "web" } 0))

def webStream : Session := Session.new {} 1 { name := "web" }

/-- Two instances register between the subscription and the snapshot, or after it. -/
def watchWeb (early : Bool) : List WatchAction :=
  let changes : List WatchAction := [registerWeb "a", .notify 0, registerWeb "b", .notify 0]
  let drained : List WatchAction := [.receive, .send, .receive, .send]
  if early then
    .subscribe :: changes ++ .lookup 0 :: .readIndex :: .send :: .readIndex :: .send ::
      .readIndex :: .send :: drained
  else .subscribe :: .lookup 0 :: .readIndex :: .send :: changes ++ drained

theorem stream_index_monotone_quiet :
    (webStream.run (watchWeb false)).indexes = [1, 2, 3] ∧
      (webStream.run (watchWeb false)).Monotone :=
  ⟨by decide, stream_index_monotone {} 1 { name := "web" } (watchWeb false) (by decide)⟩

/-- The end of the snapshot is sent with index 3, and then the first of the two events with index 2. -/
theorem stream_index_falls :
    (webStream.run (watchWeb true)).indexes = [3, 3, 3, 2, 3] ∧
      ¬ ∀ (opts : Options) (base : Nat) (q : Query) (actions : List WatchAction),
        ((Session.new opts base q).run actions).Monotone := by
  refine ⟨by decide, fun h => ?_⟩
  have hmonotone : (webStream.run (watchWeb true)).Monotone := h {} 1 { name := "web" } (watchWeb true)
  exact absurd hmonotone (by decide)

end YellowPages.Server
