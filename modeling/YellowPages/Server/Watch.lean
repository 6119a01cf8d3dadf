import YellowPages.Server.Service
import YellowPages.Watch.Feed
import YellowPages.Watch.Index

/-!
# The Watch stream of a seed

`Service.Watch`, step by step: subscribe, take a snapshot and send it, then pass on the events of the
subscription. The steps interleave with calls on the store, their notifications and the other
subscribers.
-/

namespace YellowPages.Server

open Lib Store Wire Watch

/-! ## The handler -/

def admitWatch (enabled : Bool) (q : Query) : Option Status :=
  if !enabled then some ⟨.unimplemented, "watch is not enabled on this node"⟩
  else if q.name = "" then some ⟨.invalidArgument, "query.name is required"⟩
  else none

/-- Where the handler is. `idx` is an index that was read for the next response, and `hand` an event
that was taken off the channel and not sent yet. -/
inductive Phase where
  | opening
  | subscribed (id : Nat)
  | snapshot (id : Nat) (rest : List ServiceEntry) (idx : Option Nat)
  | live (id : Nat) (hand : Option ChangeEvent)
  | returned (err : Option Status)

namespace Phase

def id? : Phase → Option Nat
  | .subscribed id | .snapshot id _ _ | .live id _ => some id
  | .opening | .returned _ => none

def rest : Phase → List ServiceEntry
  | .snapshot _ rest _ => rest
  | _ => []

def idx : Phase → Option Nat
  | .snapshot _ _ idx => idx
  | _ => none

def hand : Phase → Option ChangeEvent
  | .live _ hand => hand
  | _ => none

end Phase

/-- A seed and one stream of it. -/
structure Session where
  query : Query
  mem : Memory
  watcher : Watcher
  /-- Batches of the store that are not notified yet. -/
  pending : List (List ChangeEvent) := []
  phase : Phase := .opening
  sent : List PbWatchResponse := []
  /-- Ghost: when the snapshot was taken. -/
  since : Option Time := none

inductive WatchAction where
  /-- A store call, up to the release of the lock. -/
  | call (c : Call)
  /-- `Notify` with one of the pending batches. -/
  | notify (k : Nat)
  | subscribe
  | lookup (now : Time)
  | readIndex
  | send
  | receive
  /-- The client goes away. -/
  | cancel
  /-- A call of another subscriber. -/
  | other (c : WatchCall)

def WatchAction.isCall : WatchAction → Bool
  | .call _ => true
  | _ => false

def snapshotEvent (e : ServiceEntry) : ChangeEvent := { type := .put, entry := e, index := 0 }

def eventResponse (ev : ChangeEvent) (idx : Nat) : PbWatchResponse :=
  { event := some (changeEventToProto ev), index := idx }

/-- The call is one that other subscribers make, and not about subscription `own`. -/
def avoids (own : Option Nat) : WatchCall → Bool
  | .subscribe _ => true
  | .cancel id | .receive id => own ≠ some id
  | .notify _ | .notifyNames _ => false

namespace Session

def new (opts : Options) (base : Nat) (q : Query) : Session :=
  { query := q, mem := newMemory opts, watcher := newWatcher base }

variable (s : Session)

def channel : List ChangeEvent :=
  match s.phase.id? with
  | none => []
  | some id => (s.watcher.subs[id]?.map Subscription.ch).getD []

/-- An action the handler is not at changes nothing. -/
def step : WatchAction → Session
  | .call c =>
    let (mem, events) := c.exec s.mem
    { s with mem := mem, pending := s.pending ++ emit events }
  | .notify k =>
    match s.pending[k]? with
    | none => s
    | some events => { s with watcher := s.watcher.notify events, pending := s.pending.eraseIdx k }
  | .subscribe =>
    match s.phase with
    | .opening =>
      match admitWatch true s.query with
      | some err => { s with phase := .returned (some err) }
      | none =>
        { s with watcher := s.watcher.subscribe s.query, phase := .subscribed s.watcher.nextID }
    | _ => s
  | .lookup now =>
    match s.phase with
    | .subscribed id =>
      { s with phase := .snapshot id (s.mem.lookup now s.query).entries none, since := some now }
    | _ => s
  | .readIndex =>
    match s.phase with
    | .snapshot id rest none =>
      { s with phase := .snapshot id rest (some (s.watcher.currentIndex s.query)) }
    | _ => s
  | .send =>
    match s.phase with
    | .snapshot id (e :: rest) (some idx) =>
      { s with phase := .snapshot id rest none,
               sent := s.sent ++ [eventResponse (snapshotEvent e) idx] }
    | .snapshot id [] (some idx) =>
      { s with phase := .live id none, sent := s.sent ++ [{ snapshotDone := true, index := idx }] }
    | .live id (some ev) =>
      { s with phase := .live id none, sent := s.sent ++ [eventResponse ev ev.index] }
    | _ => s
  | .receive =>
    match s.phase, s.channel with
    | .live id none, ev :: _ => { s with watcher := s.watcher.receive id, phase := .live id (some ev) }
    | _, _ => s
  | .cancel =>
    match s.phase.id? with
    | none => s
    | some id => { s with watcher := s.watcher.cancel id, phase := .returned none }
  | .other c => if avoids s.phase.id? c then { s with watcher := c.exec s.watcher } else s

def run (actions : List WatchAction) : Session := actions.foldl step s

end Session

/-! ## The subscription -/

/-- The handler holds the subscription it opened. -/
def Session.Attached (s : Session) : Prop :=
  ∀ id, s.phase.id? = some id → id < s.watcher.nextID ∧
    ∃ ch, s.watcher.subs[id]? = some ⟨s.query, ch⟩

theorem receive_subs {w : Watcher} {id : Nat} {sub : Subscription} (h : w.subs[id]? = some sub) :
    (w.receive id).subs[id]? = some { sub with ch := sub.ch.tail } := by
  simp [Watcher.receive, h]

theorem exec_subs_of_avoids {w : Watcher} {id : Nat} (hid : id < w.nextID) {c : WatchCall}
    (hc : avoids (some id) c = true) :
    id < (c.exec w).nextID ∧ (c.exec w).subs[id]? = w.subs[id]? := by
  cases c with
  | notify _ => cases hc
  | notifyNames _ => cases hc
  | subscribe q =>
    have hne : ¬ w.nextID = id := Nat.ne_of_gt hid
    exact ⟨Nat.lt_succ_of_lt hid,
      by simp [WatchCall.exec, Watcher.subscribe, Std.ExtTreeMap.getElem?_insert, hne]⟩
  | cancel id' =>
    have hne : ¬ id' = id := by
      rintro rfl
      simp [avoids] at hc
    exact ⟨hid, by simp [WatchCall.exec, Watcher.cancel, Std.ExtTreeMap.getElem?_erase, hne]⟩
  | receive id' =>
    have hne : ¬ id' = id := by
      rintro rfl
      simp [avoids] at hc
    exact ⟨hid, by simp [WatchCall.exec, Watcher.receive, Std.ExtTreeMap.getElem?_modify, hne]⟩

theorem sameIndex_of_avoids {w : Watcher} {own : Option Nat} {c : WatchCall}
    (hc : avoids own c = true) :
    Watcher.SameIndex w (c.exec w) := by
  have hsame := Watcher.exec_sameIndex w c
  cases c with
  | notify _ => cases hc
  | notifyNames _ => cases hc
  | _ => exact hsame

namespace Session.Attached

variable {s : Session}

theorem new (opts : Options) (base : Nat) (q : Query) : (Session.new opts base q).Attached := nofun

theorem same {s' : Session} (h : s.Attached) (hid : s'.phase.id? = s.phase.id?)
    (hwatcher : s'.watcher = s.watcher) (hquery : s'.query = s.query) : s'.Attached := by
  intro id hid'
  rw [hwatcher, hquery]
  exact h id (hid.symm.trans hid')

theorem notify (h : s.Attached) (events : List ChangeEvent) :
    ∀ id, s.phase.id? = some id → id < (s.watcher.notify events).nextID ∧
      ∃ ch, (s.watcher.notify events).subs[id]? = some ⟨s.query, ch⟩ := by
  intro id hid
  obtain ⟨hlt, ch, hch⟩ := h id hid
  rw [Watcher.notify_nextID]
  exact ⟨hlt, _, Watcher.notify_subs hch events⟩

theorem step (h : s.Attached) (a : WatchAction) : (s.step a).Attached := by
  cases a with
  | call c => exact h
  | notify k =>
    dsimp only [Session.step]
    split
    · exact h
    · exact h.notify _
  | subscribe =>
    dsimp only [Session.step]
    split
    · split
      · intro id hid
        cases hid
      · intro id hid
        obtain rfl := Option.some.inj hid
        exact ⟨Nat.lt_succ_self _, [], by simp [Watcher.subscribe]⟩
    · exact h
  | lookup now =>
    dsimp only [Session.step]
    split <;> rename_i hphase
    · exact h.same (by rw [hphase]; rfl) rfl rfl
    · exact h
  | readIndex =>
    dsimp only [Session.step]
    split <;> rename_i hphase
    · exact h.same (by rw [hphase]; rfl) rfl rfl
    · exact h
  | send =>
    dsimp only [Session.step]
    split <;> rename_i hphase
    · exact h.same (by rw [hphase]; rfl) rfl rfl
    · exact h.same (by rw [hphase]; rfl) rfl rfl
    · exact h.same (by rw [hphase]; rfl) rfl rfl
    · exact h
  | receive =>
    dsimp only [Session.step]
    split
    · rename_i id ev _ hphase _
      intro id' hid
      obtain rfl := Option.some.inj hid
      obtain ⟨hlt, ch, hch⟩ := h id (by rw [hphase]; rfl)
      exact ⟨hlt, _, receive_subs hch⟩
    · exact h
  | cancel =>
    dsimp only [Session.step]
    split
    · exact h
    · intro id hid
      cases hid
  | other c =>
    dsimp only [Session.step]
    split
    · rename_i hc
      intro id hid
      obtain ⟨hlt, ch, hch⟩ := h id hid
      rw [show s.phase.id? = some id from hid] at hc
      obtain ⟨hlt', hsubs⟩ := exec_subs_of_avoids hlt hc
      exact ⟨hlt', ch, hsubs.trans hch⟩
    · exact h

end Session.Attached

/-! ## What a step does -/

/-- What a batch puts into the channel of the stream. -/
def Session.delivered (s : Session) (events : List ChangeEvent) : List ChangeEvent :=
  match s.phase.id? with
  | none => []
  | some _ => (wanted s.query (restamped s.watcher.index events)).take (64 - s.channel.length)

inductive Moves (s s' : Session) : WatchAction → Prop where
  | still {a : WatchAction} {w : Watcher} (hs' : s' = { s with watcher := w })
      (hindex : Watcher.SameIndex s.watcher w) (hchannel : s'.channel = s.channel) : Moves s s' a
  | call {c : Call}
      (hs' : s' = { s with mem := (c.exec s.mem).1, pending := s.pending ++ emit (c.exec s.mem).2 })
      (hchannel : s'.channel = s.channel) : Moves s s' (.call c)
  | notify {k : Nat} {events : List ChangeEvent} (hk : s.pending[k]? = some events)
      (hs' : s' = { s with watcher := s.watcher.notify events, pending := s.pending.eraseIdx k })
      (hchannel : s'.channel = s.channel ++ s.delivered events) : Moves s s' (.notify k)
  | subscribe (hphase : s.phase = .opening)
      (hs' : s' =
        { s with watcher := s.watcher.subscribe s.query, phase := .subscribed s.watcher.nextID })
      (hchannel : s'.channel = []) : Moves s s' .subscribe
  | stop {a : WatchAction} {w : Watcher} {err : Option Status}
      (hs' : s' = { s with watcher := w, phase := .returned err })
      (hindex : Watcher.SameIndex s.watcher w) (hchannel : s'.channel = []) : Moves s s' a
  | lookup {id : Nat} {now : Time} (hphase : s.phase = .subscribed id)
      (hs' : s' =
        { s with phase := .snapshot id (s.mem.lookup now s.query).entries none, since := some now })
      (hchannel : s'.channel = s.channel) : Moves s s' (.lookup now)
  | readIndex {id : Nat} {rest : List ServiceEntry} (hphase : s.phase = .snapshot id rest none)
      (hs' : s' = { s with phase := .snapshot id rest (some (s.watcher.currentIndex s.query)) })
      (hchannel : s'.channel = s.channel) : Moves s s' .readIndex
  | sendEntry {id idx : Nat} {e : ServiceEntry} {rest : List ServiceEntry}
      (hphase : s.phase = .snapshot id (e :: rest) (some idx))
      (hs' : s' =
        { s with phase := .snapshot id rest none,
                 sent := s.sent ++ [eventResponse (snapshotEvent e) idx] })
      (hchannel : s'.channel = s.channel) : Moves s s' .send
  | sendDone {id idx : Nat} (hphase : s.phase = .snapshot id [] (some idx))
      (hs' : s' =
        { s with phase := .live id none, sent := s.sent ++ [{ snapshotDone := true, index := idx }] })
      (hchannel : s'.channel = s.channel) : Moves s s' .send
  | sendEvent {id : Nat} {ev : ChangeEvent} (hphase : s.phase = .live id (some ev))
      (hs' : s' = { s with phase := .live id none, sent := s.sent ++ [eventResponse ev ev.index] })
      (hchannel : s'.channel = s.channel) : Moves s s' .send
  | receive {id : Nat} {ev : ChangeEvent} (hphase : s.phase = .live id none)
      (hs' : s' = { s with watcher := s.watcher.receive id, phase := .live id (some ev) })
      (hchannel : s.channel = ev :: s'.channel) : Moves s s' .receive

theorem Moves.refl (s : Session) (a : WatchAction) : Moves s s a :=
  .still rfl (Watcher.SameIndex.refl _) rfl

namespace Session

variable {s : Session}

theorem channel_of_subs {id : Nat} {sub : Subscription} (hid : s.phase.id? = some id)
    (hsub : s.watcher.subs[id]? = some sub) : s.channel = sub.ch := by
  simp [channel, hid, hsub]

theorem channel_congr {s' : Session} (hid : s'.phase.id? = s.phase.id?)
    (hwatcher : s'.watcher = s.watcher) :
    s'.channel = s.channel := by
  rw [channel, channel, hid, hwatcher]

theorem channel_notify (h : s.Attached) (events : List ChangeEvent)
    (pending : List (List ChangeEvent)) :
    channel { s with watcher := s.watcher.notify events, pending := pending } =
      s.channel ++ s.delivered events := by
  unfold delivered
  split <;> rename_i hid
  · simp [channel, hid]
  · obtain ⟨-, ch, hch⟩ := h _ hid
    rw [channel_of_subs (s := { s with watcher := s.watcher.notify events, pending := pending }) hid
      (Watcher.notify_subs hch events), channel_of_subs hid hch]

theorem channel_other (h : s.Attached) {c : WatchCall} (hc : avoids s.phase.id? c = true) :
    channel { s with watcher := c.exec s.watcher } = s.channel := by
  cases hid : s.phase.id? with
  | none => simp [channel, hid]
  | some id =>
    obtain ⟨hlt, ch, hch⟩ := h id hid
    rw [hid] at hc
    rw [channel_of_subs hid hch, channel_of_subs (s := { s with watcher := c.exec s.watcher }) hid
      ((exec_subs_of_avoids hlt hc).2.trans hch)]

theorem channel_receive (h : s.Attached) {id : Nat} {ev : ChangeEvent} {rest : List ChangeEvent}
    (hphase : s.phase = .live id none) (hchannel : s.channel = ev :: rest) :
    s.channel =
      ev :: channel { s with watcher := s.watcher.receive id, phase := .live id (some ev) } := by
  have hid : s.phase.id? = some id := by rw [hphase]; rfl
  obtain ⟨-, ch, hch⟩ := h id hid
  rw [channel_of_subs hid hch] at hchannel
  rw [channel_of_subs hid hch, channel_of_subs rfl (receive_subs hch), hchannel]
  rfl

theorem step_spec (h : s.Attached) (a : WatchAction) : Moves s (s.step a) a := by
  cases a with
  | call c => exact .call rfl rfl
  | notify k =>
    dsimp only [step]
    split
    · exact Moves.refl s _
    · rename_i events hk
      exact .notify hk rfl (channel_notify h events _)
  | subscribe =>
    dsimp only [step]
    split
    · rename_i hphase
      split
      · exact .stop rfl (Watcher.SameIndex.refl _) rfl
      · refine .subscribe hphase rfl ?_
        simp [channel, Phase.id?, Watcher.subscribe]
    · exact Moves.refl s _
  | lookup now =>
    dsimp only [step]
    split
    · rename_i hphase
      exact .lookup hphase rfl (channel_congr (by rw [hphase]; rfl) rfl)
    · exact Moves.refl s _
  | readIndex =>
    dsimp only [step]
    split
    · rename_i hphase
      exact .readIndex hphase rfl (channel_congr (by rw [hphase]; rfl) rfl)
    · exact Moves.refl s _
  | send =>
    dsimp only [step]
    split
    · rename_i hphase
      exact .sendEntry hphase rfl (channel_congr (by rw [hphase]; rfl) rfl)
    · rename_i hphase
      exact .sendDone hphase rfl (channel_congr (by rw [hphase]; rfl) rfl)
    · rename_i hphase
      exact .sendEvent hphase rfl (channel_congr (by rw [hphase]; rfl) rfl)
    · exact Moves.refl s _
  | receive =>
    dsimp only [step]
    split
    · rename_i id ev rest hphase hchannel
      exact .receive hphase rfl (channel_receive h hphase hchannel)
    · exact Moves.refl s _
  | cancel =>
    dsimp only [step]
    split
    · exact Moves.refl s _
    · exact .stop rfl ⟨rfl, rfl⟩ rfl
  | other c =>
    dsimp only [step]
    split
    · rename_i hc
      exact .still rfl (sameIndex_of_avoids hc) (channel_other h hc)
    · exact Moves.refl s _

end Session

end YellowPages.Server
