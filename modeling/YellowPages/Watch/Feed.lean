import YellowPages.Store.Replay
import YellowPages.Watch.Watcher

/-!
# A subscriber of a seed

The store hands a batch to `Notify` after it has released its lock, so the batches of concurrent
callers arrive in any order. A subscriber follows what it receives.
-/

namespace YellowPages.Watch

open Lib Store

/-! ## What a subscriber receives from one batch -/

/-- The events of a batch with the watcher's own indexes, counted from `index`. -/
def restamped (index : Nat) : List ChangeEvent → List ChangeEvent
  | [] => []
  | ev :: rest => { ev with index := u64Succ index } :: restamped (u64Succ index) rest

/-- The events of a batch that a subscriber asked for. -/
def wanted (q : Query) (events : List ChangeEvent) : List ChangeEvent :=
  events.filter fun ev => matchesQuery q ev.entry

theorem matchesQuery_empty (e : ServiceEntry) : matchesQuery {} e = true := by
  simp [matchesQuery, ServiceInstance.matchesTags]

theorem wanted_empty (events : List ChangeEvent) : wanted {} events = events := by
  simp [wanted, matchesQuery_empty]

theorem length_restamped (index : Nat) (events : List ChangeEvent) :
    (restamped index events).length = events.length := by
  induction events generalizing index with
  | nil => rfl
  | cons ev rest ih => rw [restamped, List.length_cons, ih, List.length_cons]

theorem actionsAt_restamped (k : String × String) (index : Nat) (events : List ChangeEvent) :
    actionsAt eventKey applyEvent k (restamped index events) =
      actionsAt eventKey applyEvent k events := by
  induction events generalizing index with
  | nil => rfl
  | cons ev rest ih =>
    rw [restamped, actionsAt_cons, actionsAt_cons, ih]
    rfl

namespace Watcher

variable (w : Watcher) (id : Nat)

def sentTo (ds : List (Nat × ChangeEvent)) : List ChangeEvent := (ds.filter (·.1 = id)).map Prod.snd

theorem sentTo_append (ds ds' : List (Nat × ChangeEvent)) :
    sentTo id (ds ++ ds') = sentTo id ds ++ sentTo id ds' := by
  simp [sentTo]

variable {w id} {sub : Subscription}

theorem subs_filter (h : w.subs[id]? = some sub) : w.subs.toList.filter (·.1 = id) = [(id, sub)] := by
  have hmem : (id, sub) ∈ w.subs.toList := Std.ExtTreeMap.mem_toList_iff_getElem?_eq_some.mpr h
  obtain ⟨l, l', hl⟩ := List.append_of_mem hmem
  have hdistinct := Std.ExtTreeMap.distinct_keys_toList (t := w.subs)
  rw [hl, List.pairwise_append, List.pairwise_cons] at hdistinct
  obtain ⟨-, ⟨hafter, -⟩, hbefore⟩ := hdistinct
  rw [hl, List.filter_append, List.filter_cons_of_pos (by simp)]
  have hl1 : l.filter (·.1 = id) = [] := by
    rw [List.filter_eq_nil_iff]
    intro p hp
    simpa using hbefore p hp _ List.mem_cons_self
  have hl2 : l'.filter (·.1 = id) = [] := by
    rw [List.filter_eq_nil_iff]
    intro p hp
    have hne := hafter p hp
    rw [Std.compare_eq_iff_eq] at hne
    simpa using fun h => hne h.symm
  rw [hl1, hl2, List.nil_append]

theorem sentTo_deliveries (h : w.subs[id]? = some sub) (ev : ChangeEvent) :
    sentTo id (w.deliveries ev) = wanted sub.query [{ ev with index := w.index }] := by
  have hcomm : ((w.subs.toList.filter fun s => matchesQuery s.2.query ev.entry).filter (·.1 = id)) =
      (w.subs.toList.filter (·.1 = id)).filter fun s => matchesQuery s.2.query ev.entry := by
    rw [List.filter_filter, List.filter_filter]
    congr 1
    funext s
    exact Bool.and_comm _ _
  rw [sentTo, deliveries, List.filter_map, Function.comp_def, hcomm, subs_filter h]
  by_cases hm : matchesQuery sub.query ev.entry <;> simp [wanted, hm]

theorem sentTo_notifyLoop (h : w.subs[id]? = some sub) (events : List ChangeEvent) :
    sentTo id (w.notifyLoop events).2 = wanted sub.query (restamped w.index events) := by
  induction events generalizing w with
  | nil => rfl
  | cons ev rest ih =>
    have hsub : (w.advance ev.entry.service.name).subs[id]? = some sub := h
    rw [notifyLoop, sentTo_append, sentTo_deliveries hsub, ih hsub, restamped, wanted, wanted, wanted,
      ← List.filter_append]
    rfl

theorem notifyLoop_subs (w : Watcher) (events : List ChangeEvent) :
    (w.notifyLoop events).1.subs = w.subs := by
  induction events generalizing w with
  | nil => rfl
  | cons ev rest ih => exact ih _

theorem notifyLoop_nextID (w : Watcher) (events : List ChangeEvent) :
    (w.notifyLoop events).1.nextID = w.nextID := by
  induction events generalizing w with
  | nil => rfl
  | cons ev rest ih => exact ih _

theorem notify_nextID (w : Watcher) (events : List ChangeEvent) :
    (w.notify events).nextID = w.nextID := by
  have hdeliver : ∀ (ds : List (Nat × ChangeEvent)) (w : Watcher), (ds.foldl deliver w).nextID =
      w.nextID := by
    intro ds
    induction ds with
    | nil => intro w; rfl
    | cons d rest ih => intro w; exact ih _
  unfold notify
  split
  · rfl
  · rw [hdeliver]
    exact notifyLoop_nextID w events

theorem deliver_other {d : Nat × ChangeEvent} (hd : d.1 ≠ id) :
    (w.deliver d).subs[id]? = w.subs[id]? := by
  simp [deliver, Std.ExtTreeMap.getElem?_modify, hd]

theorem deliver_self (h : w.subs[id]? = some sub) (ev : ChangeEvent) :
    (w.deliver (id, ev)).subs[id]? =
      some { sub with ch := sub.ch ++ [ev].take (64 - sub.ch.length) } := by
  by_cases hroom : sub.ch.length < 64
  · have htake : [ev].take (64 - sub.ch.length) = [ev] := List.take_of_length_le (by simp; omega)
    simp [deliver, h, hroom, htake]
  · simp [deliver, h, hroom, show 64 - sub.ch.length = 0 by omega]

theorem foldl_deliver (ds : List (Nat × ChangeEvent)) (h : w.subs[id]? = some sub) :
    (ds.foldl deliver w).subs[id]? =
      some { sub with ch := sub.ch ++ (sentTo id ds).take (64 - sub.ch.length) } := by
  induction ds generalizing w sub with
  | nil => simpa [sentTo] using h
  | cons d rest ih =>
    have hcons : sentTo id (d :: rest) = sentTo id [d] ++ sentTo id rest := sentTo_append id [d] rest
    rw [List.foldl_cons, hcons]
    by_cases hd : d.1 = id
    · subst hd
      have hone : sentTo d.1 [d] = [d.2] := by simp [sentTo]
      rw [ih (deliver_self h d.2), hone, List.append_assoc, List.take_append]
      congr 4
      simp
      omega
    · have hone : sentTo id [d] = [] := by simp [sentTo, hd]
      rw [hone, List.nil_append]
      exact ih (by rw [deliver_other hd]; exact h)

/-- A batch reaches a subscriber as far as its channel has room. -/
theorem notify_subs (h : w.subs[id]? = some sub) (events : List ChangeEvent) :
    (w.notify events).subs[id]? = some { sub with
      ch := sub.ch ++ (wanted sub.query (restamped w.index events)).take (64 - sub.ch.length) } := by
  unfold notify
  split
  · rename_i he
    rw [List.isEmpty_iff.mp he, h]
    simp [restamped, wanted]
  · have hsub : (w.notifyLoop events).1.signalLocked.subs[id]? = some sub := by
      rw [← h, ← notifyLoop_subs w events]
      rfl
    rw [foldl_deliver _ hsub, sentTo_notifyLoop h events]

end Watcher

/-! ## The system -/

theorem flatten_of_getElem? {batches : List (List ChangeEvent)} {k : Nat} {events : List ChangeEvent}
    (h : batches[k]? = some events) :
    batches.flatten = (batches.take k).flatten ++ (events ++ (batches.drop (k + 1)).flatten) := by
  obtain ⟨hk, hget⟩ := List.getElem?_eq_some_iff.mp h
  rw [← hget, ← List.flatten_cons, ← List.drop_eq_getElem_cons hk, ← List.flatten_append,
    List.take_append_drop]

/-- A seed with its watcher. Subscriber 0 follows the seed from the start and has taken `got` out of
its channel. -/
structure Feed where
  mem : Memory
  watcher : Watcher
  pending : List (List ChangeEvent) := []
  got : List ChangeEvent := []

inductive FeedAction where
  /-- A store call, up to the release of the lock. -/
  | call (c : Call)
  /-- `Notify` with one of the pending batches. -/
  | notify (k : Nat)
  | receive
  | subscribe (q : Query)
  | cancelOther (k : Nat)
  | receiveOther (k : Nat)

namespace Feed

def startAt (opts : Options) (base : Nat) : Feed :=
  { mem := newMemory opts, watcher := (newWatcher base).subscribe {} }

variable (s : Feed)

def channel : List ChangeEvent := (s.watcher.subs[0]?.map Subscription.ch).getD []

def step : FeedAction → Feed
  | .call c =>
    let (mem, events) := c.exec s.mem
    { s with mem := mem, pending := s.pending ++ emit events }
  | .notify k =>
    match s.pending[k]? with
    | none => s
    | some events => { s with watcher := s.watcher.notify events, pending := s.pending.eraseIdx k }
  | .receive => { s with watcher := s.watcher.receive 0, got := s.got ++ s.channel.take 1 }
  | .subscribe q => { s with watcher := s.watcher.subscribe q }
  | .cancelOther k => { s with watcher := s.watcher.cancel (k + 1) }
  | .receiveOther k => { s with watcher := s.watcher.receive (k + 1) }

def run (actions : List FeedAction) : Feed := actions.foldl step s

def received : List ChangeEvent := s.got ++ s.channel

end Feed

def FeedAction.Fits (s : Feed) : FeedAction → Prop
  | .notify k => s.channel.length + (s.pending[k]?.getD []).length ≤ 64
  | _ => True

/-- No older batch that is still pending has an event for a key of this one. -/
def FeedAction.InOrder (s : Feed) : FeedAction → Prop
  | .notify k =>
    ∀ older ∈ s.pending.take k, ∀ a ∈ older, ∀ b ∈ s.pending[k]?.getD [], eventKey a ≠ eventKey b
  | _ => True

instance (s : Feed) : ∀ a : FeedAction, Decidable (a.Fits s)
  | .notify _ => inferInstanceAs (Decidable (_ ≤ _))
  | .call _ | .receive | .subscribe _ | .cancelOther _ | .receiveOther _ =>
    inferInstanceAs (Decidable True)

instance (s : Feed) : ∀ a : FeedAction, Decidable (a.InOrder s)
  | .notify _ => inferInstanceAs (Decidable (∀ _ ∈ _, ∀ _ ∈ _, ∀ _ ∈ _, _))
  | .call _ | .receive | .subscribe _ | .cancelOther _ | .receiveOther _ =>
    inferInstanceAs (Decidable True)

/-! ## What the subscriber has, and what is on its way -/

/-- For every key the subscriber has received, or will, the events of the log in their order. -/
structure Feed.Coherent (opts : Options) (s : Feed) : Prop where
  subscribed : ∃ ch, s.watcher.subs[0]? = some { query := {}, ch := ch }
  fresh : 0 < s.watcher.nextID
  logged : ∃ calls, s.mem = ((newMemory opts).run calls).1 ∧
    ∀ k, actionsAt eventKey applyEvent k (s.received ++ s.pending.flatten) =
      actionsAt eventKey applyEvent k ((newMemory opts).run calls).2.flatten

namespace Feed.Coherent

variable {opts : Options} {s : Feed}

theorem startAt (opts : Options) (base : Nat) : Coherent opts (startAt opts base) where
  subscribed := ⟨[], by simp [Feed.startAt, newWatcher, Watcher.subscribe]⟩
  fresh := Nat.one_pos
  logged := ⟨[], rfl, fun k => by simp [Feed.startAt, newWatcher, Watcher.subscribe, Feed.received,
    Feed.channel, Memory.run]⟩

theorem of_received (h : Coherent opts s) {watcher : Watcher} {got : List ChangeEvent}
    (ch : List ChangeEvent) (hsub : watcher.subs[0]? = some { query := {}, ch := ch })
    (hnext : s.watcher.nextID ≤ watcher.nextID) (hreceived : got ++ ch = s.received) :
    Coherent opts { s with watcher := watcher, got := got } where
  subscribed := ⟨ch, hsub⟩
  fresh := Nat.lt_of_lt_of_le h.fresh hnext
  logged := by
    obtain ⟨calls, hmem, hlog⟩ := h.logged
    refine ⟨calls, hmem, fun k => ?_⟩
    rw [← hlog k, ← hreceived]
    simp [Feed.received, Feed.channel, hsub]

theorem call (h : Coherent opts s) (c : Call) : Coherent opts (s.step (.call c)) where
  subscribed := h.subscribed
  fresh := h.fresh
  logged := by
    obtain ⟨calls, hmem, hlog⟩ := h.logged
    refine ⟨calls ++ [c], ?_, fun k => ?_⟩
    · rw [run_append, ← hmem]
      rfl
    · have hpending : (s.step (.call c)).pending.flatten = s.pending.flatten ++ (c.exec s.mem).2 := by
        simp [Feed.step, emit_flatten]
      have hreceived : (s.step (.call c)).received = s.received := rfl
      rw [hpending, hreceived, ← List.append_assoc, actionsAt_append, hlog k, run_snoc_log,
        actionsAt_append, ← hmem]

theorem notify (h : Coherent opts s) {k : Nat} (hfits : FeedAction.Fits s (.notify k))
    (horder : FeedAction.InOrder s (.notify k)) : Coherent opts (s.step (.notify k)) := by
  simp only [FeedAction.Fits, FeedAction.InOrder, Feed.step] at hfits horder ⊢
  split
  · exact h
  · rename_i events hevents
    rw [hevents, Option.getD_some] at hfits horder
    obtain ⟨ch, hch⟩ := h.subscribed
    obtain ⟨calls, hmem, hlog⟩ := h.logged
    have hchannel : s.channel = ch := by simp [Feed.channel, hch]
    rw [hchannel] at hfits
    have hsub := Watcher.notify_subs hch events
    rw [wanted_empty, List.take_of_length_le (by rw [length_restamped]; dsimp only; omega)] at hsub
    refine ⟨⟨_, hsub⟩, ?_, calls, hmem, fun key => ?_⟩
    · rw [Watcher.notify_nextID]
      exact h.fresh
    · -- It may overtake the older batches: they have no key in common with it.
      have hdisjoint : ∀ a ∈ (s.pending.take k).flatten, ∀ b ∈ events, eventKey a ≠ eventKey b := by
        intro a ha b hb
        obtain ⟨older, holder, ha⟩ := List.mem_flatten.mp ha
        exact horder older holder a ha b hb
      have hswap := actionsAt_append_comm applyEvent hdisjoint key
      rw [← hlog key, flatten_of_getElem? hevents, List.eraseIdx_eq_take_drop_succ,
        List.flatten_append]
      simp only [actionsAt_append] at hswap
      simp only [Feed.received, Feed.channel, hsub, hch, Option.map_some, Option.getD_some,
        actionsAt_append, actionsAt_restamped, List.append_assoc]
      rw [← List.append_assoc (actionsAt _ _ _ events), ← hswap, List.append_assoc]

theorem receive (h : Coherent opts s) : Coherent opts (s.step .receive) := by
  obtain ⟨ch, hch⟩ := h.subscribed
  have hchannel : s.channel = ch := by simp [Feed.channel, hch]
  refine h.of_received ch.tail ?_ (le_refl _) ?_
  · simp [Watcher.receive, hch]
  · rw [Feed.received, hchannel, List.append_assoc]
    cases ch <;> simp

theorem other (h : Coherent opts s) {watcher : Watcher} (hsub : watcher.subs[0]? = s.watcher.subs[0]?)
    (hnext : s.watcher.nextID ≤ watcher.nextID) : Coherent opts { s with watcher := watcher } := by
  obtain ⟨ch, hch⟩ := h.subscribed
  exact h.of_received ch (hsub.trans hch) hnext (by simp [Feed.received, Feed.channel, hch])

theorem step (h : Coherent opts s) {a : FeedAction} (hfits : a.Fits s) (horder : a.InOrder s) :
    Coherent opts (s.step a) := by
  cases a with
  | call c => exact h.call c
  | notify k => exact h.notify hfits horder
  | receive => exact h.receive
  | subscribe q =>
    refine h.other ?_ (Nat.le_succ _)
    have hne : ¬ s.watcher.nextID = 0 := Nat.ne_of_gt h.fresh
    simp [Watcher.subscribe, Std.ExtTreeMap.getElem?_insert, hne]
  | cancelOther k => exact h.other (by simp [Watcher.cancel, Std.ExtTreeMap.getElem?_erase]) (le_refl _)
  | receiveOther k =>
    exact h.other (by simp [Watcher.receive, Std.ExtTreeMap.getElem?_modify]) (le_refl _)

theorem keys (h : Coherent opts s) (hpending : s.pending = []) (n sid : String) :
    (follow s.received (n, sid)).isSome ↔ (s.mem.service? n sid).isSome := by
  obtain ⟨calls, hmem, hlog⟩ := h.logged
  have hlog := hlog (n, sid)
  rw [hpending, List.flatten_nil, List.append_nil] at hlog
  rw [follow, replay_congr hlog, hmem]
  exact (mirrors_published opts calls).isSome_iff n sid

end Feed.Coherent

/-- The keys the subscriber ends up with, once nothing is pending, are those of the store. -/
def Feed.InSync (s : Feed) : Prop :=
  s.pending = [] → ∀ n sid, (follow s.received (n, sid)).isSome ↔ (s.mem.service? n sid).isSome

/-- As long as no batch overtakes an older one with a key of its own, late notifications leave the
subscriber with the keys of the store. -/
theorem subscriber_in_sync (opts : Options) (base : Nat) (actions : List FeedAction)
    (hrun : Throughout Feed.step (fun s a => a.Fits s ∧ a.InOrder s) (Feed.startAt opts base)
      actions) :
    ((Feed.startAt opts base).run actions).InSync := by
  have hcoherent : Feed.Coherent opts ((Feed.startAt opts base).run actions) := by
    refine hrun.keeps (Feed.Coherent opts) (Feed.Coherent.startAt opts base) ?_
    rintro s a ⟨hfits, horder⟩ h
    exact h.step hfits horder
  exact hcoherent.keys

/-! ## A batch that is overtaken -/

def putAndDelete (ks : List Nat) : List FeedAction :=
  [.call (.register (fun _ => 0) (single { id := "n" } { id := "s", name := "web" } 0)),
    .call (.deregisterService "n" "s")] ++ ks.map .notify

theorem subscriber_in_sync_in_order :
    ((Feed.startAt {} 0).run (putAndDelete [0, 0])).InSync :=
  subscriber_in_sync {} 0 (putAndDelete [0, 0]) (by decide)

/-- The DELETE is notified before the PUT: the subscriber keeps a service that is gone. -/
theorem not_always_in_sync :
    ¬ ∀ (opts : Options) (base : Nat) (actions : List FeedAction),
      Throughout Feed.step (fun s a => a.Fits s) (Feed.startAt opts base) actions →
        ((Feed.startAt opts base).run actions).InSync := by
  intro h
  have hsync := h {} 0 (putAndDelete [1, 0]) (by decide) (by decide) "n" "s"
  exact absurd hsync (by decide)

end YellowPages.Watch
