import YellowPages.Server.Watch
import YellowPages.Watch.Track

/-!
# The set a stream leaves at its client

The client applies what it is sent: the snapshot, then the events of the subscription. What is sent,
waits or is still to be notified has the last word on every key.
-/

namespace YellowPages.Server

open Lib Store Wire Watch

namespace Phase

/-- The snapshot is taken and the stream is open. -/
def begun : Phase → Bool
  | .snapshot .. | .live .. => true
  | _ => false

def early : Phase → Bool
  | .opening | .subscribed _ => true
  | _ => false

/-- The handler waits for the next event. -/
def idle : Phase → Bool
  | .live _ none => true
  | _ => false

theorem not_early_of_begun {p : Phase} (h : p.begun = true) : p.early = false := by
  revert h
  cases p <;> simp [begun, early]

theorem begun_open {p : Phase} (h : p.begun = true) : p.id?.isSome = true := by
  revert h
  cases p <;> simp [begun, id?]

end Phase

namespace Session

/-! ## What the client is told -/

/-- The events of the stream, as the client reads them. -/
def events (s : Session) : List ChangeEvent :=
  s.sent.filterMap fun r => r.event.map (changeEventFromProto · r.index)

def way (s : Session) : List ChangeEvent :=
  s.events ++ s.phase.rest.map snapshotEvent ++ s.phase.hand.toList ++ s.channel ++
    wanted s.query s.pending.flatten

/-- The client holds the keys of the query. -/
def InSync (s : Session) : Prop :=
  ∀ n sid, (follow s.events (n, sid)).isSome = s.mem.matched s.query n sid

/-- The stream is open and there is nothing left to send. -/
def Drained (s : Session) : Prop := s.phase.idle = true ∧ s.channel = [] ∧ s.pending = []

instance (s : Session) : Decidable s.Drained := inferInstanceAs (Decidable (_ ∧ _ ∧ _))

/-! ## Conditions -/

/-- A store call is notified before the next one. -/
def Serial (s : Session) : WatchAction → Prop
  | .call _ => s.pending = []
  | _ => True

/-- The channel has room for what the batch holds of the query. -/
def KeepsUp (s : Session) : WatchAction → Prop
  | .notify k => s.phase.id?.isSome = true →
    s.channel.length + (wanted s.query (s.pending[k]?.getD [])).length ≤ 64
  | _ => True

/-- A batch overtakes no older one that has an event for a key of it. -/
def InOrder (s : Session) : WatchAction → Prop
  | .notify k => s.phase.id?.isSome = true →
    ∀ a ∈ wanted s.query (s.pending.take k).flatten, ∀ b ∈ wanted s.query (s.pending[k]?.getD []),
      eventKey a ≠ eventKey b
  | _ => True

/-- The calls tell what they do to the query, and the batches that are pending when the stream opens
have told it. -/
def Told (s : Session) : WatchAction → Prop
  | .call c => s.phase.id?.isSome = true → Call.Told s.query s.since s.mem c
  | .subscribe => s.phase.id? = none → ∀ ev ∈ wanted s.query s.pending.flatten,
    ∀ b ∈ verdict (wanted s.query s.pending.flatten) (eventKey ev),
      b = s.mem.matched s.query (eventKey ev).1 (eventKey ev).2
  | _ => True

instance (s : Session) : ∀ a, Decidable (s.Serial a)
  | .call _ => inferInstanceAs (Decidable (_ = _))
  | .notify _ | .subscribe | .lookup _ | .readIndex | .send | .receive | .cancel | .other _ =>
    inferInstanceAs (Decidable True)

instance (s : Session) : ∀ a, Decidable (s.KeepsUp a)
  | .notify _ => inferInstanceAs (Decidable (_ → _))
  | .call _ | .subscribe | .lookup _ | .readIndex | .send | .receive | .cancel | .other _ =>
    inferInstanceAs (Decidable True)

instance (s : Session) : ∀ a, Decidable (s.InOrder a)
  | .notify _ => inferInstanceAs (Decidable (_ → ∀ a ∈ _, ∀ b ∈ _, _))
  | .call _ | .subscribe | .lookup _ | .readIndex | .send | .receive | .cancel | .other _ =>
    inferInstanceAs (Decidable True)

instance (s : Session) : ∀ a, Decidable (s.Told a)
  | .call _ => inferInstanceAs (Decidable (_ → _))
  | .subscribe => inferInstanceAs (Decidable (_ → ∀ ev ∈ _, ∀ b ∈ verdict _ _, _))
  | .notify _ | .lookup _ | .readIndex | .send | .receive | .cancel | .other _ =>
    inferInstanceAs (Decidable True)

/-! ## The stream follows the registry -/

theorem gist_overWire (ev : ChangeEvent) (idx : Nat) :
    gist (changeEventFromProto (changeEventToProto ev) idx) = gist ev := by
  rw [changeEvent_overWire, overWire_eq]
  rfl

theorem matched_of_lookup {m : Memory} (h : Filed m) {now : Time} {q : Query} {e : ServiceEntry}
    (he : e ∈ (m.lookup now q).entries) : m.matched q e.node.id e.service.id = true := by
  obtain ⟨hselects, svc, hnode, hsvc, -, heq⟩ := (mem_lookup_stored now q h e).mp he
  have hdefn : e.service = svc.defn := by rw [heq]; rfl
  rw [Memory.matched_of_some hnode hsvc, ← hdefn]
  exact (matchesQuery_iff q e).mpr hselects

theorem exists_lookup_of_matched {m : Memory} (h : Filed m) {now : Time} {q : Query} {n sid : String}
    (hmatched : m.matched q n sid = true) (hvisible : ¬ Hidden now m n sid) :
    ∃ e ∈ (m.lookup now q).entries, e.node.id = n ∧ e.service.id = sid := by
  obtain ⟨node, svc, hnode, hsvc, hasked⟩ := Memory.matched_eq_true.mp hmatched
  have hlive : (m.opts.lease svc now).2 = false := by
    rw [Bool.eq_false_iff]
    exact fun hexpired => hvisible ⟨svc, hsvc, hexpired⟩
  have hn := h.node_id n node hnode
  have hs := h.service_id n sid svc hsvc
  refine ⟨entry node svc (m.opts.lease svc now).1,
    (mem_lookup_stored now q h _).mpr ⟨?_, svc, ?_, ?_, hlive, rfl⟩, hn, hs⟩
  · exact (matchesQuery_iff q _).mp hasked
  · exact (congrArg m.node? hn).trans hnode
  · exact (congrArg₂ m.service? hn hs).trans hsvc

structure Follows (s : Session) : Prop where
  attached : s.Attached
  filed : Filed s.mem
  unsent : s.phase.early = true → s.sent = []
  /-- What the client has been told, or will be, is right. -/
  settled : s.phase.id?.isSome = true → ∀ n sid, ∀ b ∈ verdict s.way (n, sid),
    b = s.mem.matched s.query n sid
  /-- It is told of everything that the snapshot did not leave out. -/
  complete : s.phase.begun = true → ∃ t, s.since = some t ∧
    ∀ n sid, s.mem.matched s.query n sid = true →
    verdict s.way (n, sid) = none → Hidden t s.mem n sid

namespace Follows

variable {s s' : Session}

theorem new (opts : Options) (base : Nat) (q : Query) : (Session.new opts base q).Follows where
  attached := Attached.new opts base q
  filed := Filed.newMemory opts
  unsent _ := rfl
  settled := nofun
  complete := nofun

/-- A step that leaves the registry alone and what is on its way to the client. -/
theorem same (h : s.Follows) (hattached : s'.Attached) (hmem : s'.mem = s.mem)
    (hquery : s'.query = s.query) (hsince : s'.since = s.since)
    (hearly : s'.phase.early = true → s.phase.early = true ∧ s'.sent = s.sent)
    (hopen : s'.phase.id?.isSome = true → s.phase.id?.isSome = true ∧
      ∀ k, verdict s'.way k = verdict s.way k)
    (hbegun : s'.phase.begun = true → s.phase.begun = true) : s'.Follows where
  attached := hattached
  filed := hmem ▸ h.filed
  unsent he := by
    obtain ⟨hearly, hsent⟩ := hearly he
    rw [hsent, h.unsent hearly]
  settled ho := by
    obtain ⟨hopen, hway⟩ := hopen ho
    intro n sid
    rw [hway, hmem, hquery]
    exact h.settled hopen n sid
  complete hb := by
    obtain ⟨t, ht, hcomplete⟩ := h.complete (hbegun hb)
    refine ⟨t, hsince.trans ht, fun n sid => ?_⟩
    rw [(hopen (Phase.begun_open hb)).2, hmem, hquery]
    exact hcomplete n sid

/-- A step of an open stream that moves events on towards the client. -/
theorem passedOn (h : s.Follows) (hattached : s'.Attached) (hmem : s'.mem = s.mem)
    (hquery : s'.query = s.query) (hsince : s'.since = s.since) (hbegun' : s'.phase.begun = true)
    (hbegun : s.phase.begun = true) (hway : s'.way.map gist = s.way.map gist) : s'.Follows := by
  refine h.same hattached hmem hquery hsince ?_ ?_ fun _ => hbegun
  · intro he
    rw [Phase.not_early_of_begun hbegun'] at he
    cases he
  · exact fun _ => ⟨Phase.begun_open hbegun, verdict_eq_of_gist hway⟩

theorem inSync (h : s.Follows) (hdrained : s.Drained)
    (hclean : ∀ t ∈ s.since, ∀ n sid, ¬ Hidden t s.mem n sid) : s.InSync := by
  obtain ⟨hidle, hchannel, hpending⟩ := hdrained
  obtain ⟨id, hphase⟩ : ∃ id, s.phase = .live id none := by
    revert hidle
    cases s.phase with
    | live id hand => cases hand <;> simp [Phase.idle]
    | _ => simp [Phase.idle]
  have hway : s.way = s.events := by
    rw [way, hphase, hchannel, hpending]
    simp [Phase.rest, Phase.hand, wanted]
  intro n sid
  have hsettled := h.settled (by rw [hphase]; rfl) n sid
  obtain ⟨t, ht, hcomplete⟩ := h.complete (by rw [hphase]; rfl)
  have hcomplete := hcomplete n sid
  rw [hway] at hsettled hcomplete
  rw [isSome_follow]
  cases hverdict : verdict s.events (n, sid) with
  | some b => exact hsettled b hverdict
  | none =>
    by_contra hne
    exact hclean t ht n sid (hcomplete (by simpa using Ne.symm hne) hverdict)

theorem call (h : s.Follows) {c : Call} (hattached : s'.Attached) (htold : s.Told (.call c))
    (hs' : s' = { s with mem := (c.exec s.mem).1, pending := s.pending ++ emit (c.exec s.mem).2 })
    (hchannel : s'.channel = s.channel) : s'.Follows := by
  have hway :
      ∀ k, verdict s'.way k = (verdict (wanted s.query (c.exec s.mem).2) k).or (verdict s.way k) := by
    intro k
    rw [way, hchannel, hs', way, ← verdict_append]
    simp only [List.flatten_append, emit_flatten, wanted_append, List.append_assoc]
    rfl
  have hmem : s'.mem = (c.exec s.mem).1 := by rw [hs']
  have hquery : s'.query = s.query := by rw [hs']
  have hphase : s'.phase = s.phase := by rw [hs']
  refine ⟨hattached, hmem ▸ h.filed.exec c, ?_, ?_, ?_⟩
  · rw [hphase, hs']
    exact h.unsent
  · rw [hphase]
    intro ho n sid b hb
    have hcarries := Call.Told.carries (htold ho) h.filed
    rw [hway] at hb
    rw [hmem, hquery, hcarries.tracks]
    cases hv : verdict (wanted s.query (c.exec s.mem).2) (n, sid) with
    | some b' =>
      rw [hv] at hb
      exact (Option.some.inj hb).symm
    | none =>
      rw [hv, Option.none_or] at hb
      exact h.settled ho n sid b hb
  · rw [hphase, hs']
    intro hb
    obtain ⟨t, ht, hcomplete⟩ := h.complete hb
    have ho : s.phase.id?.isSome = true := Phase.begun_open hb
    have hcarries := Call.Told.carries (htold ho) h.filed
    refine ⟨t, ht, fun n sid hmatched hnone => ?_⟩
    rw [← hs', hway, Option.or_eq_none_iff] at hnone
    have hold : s.mem.matched s.query n sid = true := by
      rw [hcarries.tracks, hnone.1, Option.getD_none] at hmatched
      exact hmatched
    have hhidden := hcomplete n sid hold hnone.2
    exact hhidden.of_sameLease (hcarries.hidden t ht n sid hhidden hold hnone.1)
      (exec_opts c s.mem) hmatched

theorem notify (h : s.Follows) {k : Nat} {events : List ChangeEvent} (hattached : s'.Attached)
    (hkeepsUp : s.KeepsUp (.notify k)) (hinOrder : s.InOrder (.notify k))
    (hk : s.pending[k]? = some events)
    (hs' : s' = { s with watcher := s.watcher.notify events, pending := s.pending.eraseIdx k })
    (hchannel : s'.channel = s.channel ++ s.delivered events) : s'.Follows := by
  refine h.same hattached (by rw [hs']) (by rw [hs']) (by rw [hs'])
    (by rw [hs']; exact fun he => ⟨he, rfl⟩) ?_
    (by rw [hs']; exact id)
  have hphase : s'.phase = s.phase := by rw [hs']
  rw [hphase]
  refine fun ho => ⟨ho, fun key => ?_⟩
  have hfits := hkeepsUp ho
  have horder := hinOrder ho
  rw [hk, Option.getD_some] at hfits horder
  have hdelivered : (s.delivered events).map gist = (wanted s.query events).map gist := by
    have hlength := congrArg List.length (gist_restamped s.query s.watcher.index events)
    rw [List.length_map, List.length_map] at hlength
    obtain ⟨id, hid⟩ := Option.isSome_iff_exists.mp ho
    rw [delivered, hid, List.take_of_length_le (by omega), gist_restamped]
  -- The batch goes ahead of older ones that have no key in common with it.
  have hswap : verdict (wanted s.query (s.pending.take k).flatten ++ wanted s.query events) key =
      verdict (wanted s.query events ++ wanted s.query (s.pending.take k).flatten) key :=
    lastWord_append_comm horder key
  have hold :
      verdict s.way key = verdict (s.events ++ s.phase.rest.map snapshotEvent ++ s.phase.hand.toList ++
      s.channel ++ (wanted s.query events ++ wanted s.query (s.pending.take k).flatten ++
        wanted s.query (s.pending.drop (k + 1)).flatten)) key := by
    rw [way, flatten_of_getElem? hk, wanted_append, wanted_append, ← List.append_assoc (wanted _ _),
      verdict_append, verdict_append (_ ++ _), hswap, ← verdict_append, ← verdict_append]
  rw [hold]
  refine verdict_eq_of_gist ?_ key
  rw [way, hchannel, hs', List.eraseIdx_eq_take_drop_succ, List.flatten_append, wanted_append]
  simp only [List.map_append, hdelivered, List.append_assoc]
  rfl

theorem subscribe (h : s.Follows) (hattached : s'.Attached) (htold : s.Told .subscribe)
    (hphase : s.phase = .opening)
    (hs' : s' =
      { s with watcher := s.watcher.subscribe s.query, phase := .subscribed s.watcher.nextID })
    (hchannel : s'.channel = []) : s'.Follows := by
  have hsent : s.sent = [] := h.unsent (by rw [hphase]; rfl)
  have hway : s'.way = wanted s.query s.pending.flatten := by
    rw [way, hchannel, hs']
    simp [events, hsent, Phase.rest, Phase.hand]
  refine ⟨hattached, by rw [hs']; exact h.filed, fun _ => by rw [hs']; exact hsent, ?_,
    by rw [hs']; nofun⟩
  intro _ n sid b hb
  rw [hway] at hb
  obtain ⟨ev, hev, hkey, -⟩ := exists_of_lastWord hb
  have hmatched := htold (by rw [hphase]; rfl) ev hev b (by rw [hkey]; exact hb)
  rw [hkey] at hmatched
  rw [hs']
  exact hmatched

theorem lookup (h : s.Follows) {id : Nat} {now : Time} (hattached : s'.Attached)
    (hphase : s.phase = .subscribed id)
    (hs' : s' =
      { s with phase := .snapshot id (s.mem.lookup now s.query).entries none, since := some now })
    (hchannel : s'.channel = s.channel) : s'.Follows := by
  have hsent : s.sent = [] := h.unsent (by rw [hphase]; rfl)
  have hway : ∀ k, verdict s'.way k =
      (verdict s.way k).or (verdict ((s.mem.lookup now s.query).entries.map snapshotEvent) k) := by
    intro k
    rw [← verdict_append, way, hchannel, hs', way, hphase]
    simp [events, hsent, Phase.rest, Phase.hand]
  have hmem : s'.mem = s.mem := by rw [hs']
  have hquery : s'.query = s.query := by rw [hs']
  refine ⟨hattached, hmem ▸ h.filed, by rw [hs']; nofun, ?_, ?_⟩
  · intro _ n sid b hb
    rw [hway] at hb
    rw [hmem, hquery]
    cases hv : verdict s.way (n, sid) with
    | some b' =>
      rw [hv] at hb
      obtain rfl := Option.some.inj hb
      exact h.settled (by rw [hphase]; rfl) n sid b' hv
    | none =>
      -- The snapshot shows what is stored and matches.
      rw [hv, Option.none_or] at hb
      obtain ⟨ev, hev, hkey, hword⟩ := exists_of_lastWord hb
      obtain ⟨e, he, rfl⟩ := List.mem_map.mp hev
      obtain ⟨rfl, rfl⟩ := Prod.mk.inj hkey
      obtain rfl := Option.some.inj hword
      exact (matched_of_lookup h.filed he).symm
  · intro _
    refine ⟨now, by rw [hs'], fun n sid hmatched hnone => ?_⟩
    rw [hmem, hquery] at hmatched
    rw [hway, Option.or_eq_none_iff] at hnone
    rw [hmem]
    by_contra hvisible
    obtain ⟨e, he, hn, hs⟩ := exists_lookup_of_matched h.filed hmatched hvisible
    have hword := word_of_lastWord_none hnone.2 (List.mem_map_of_mem he) (Prod.ext hn hs)
    cases hword

theorem moves (h : s.Follows) {a : WatchAction} (hattached : s'.Attached) (hkeepsUp : s.KeepsUp a)
    (hinOrder : s.InOrder a) (htold : s.Told a) (hmoves : Moves s s' a) : s'.Follows := by
  cases hmoves with
  | still hs' hindex hchannel =>
    refine h.same hattached (by rw [hs']) (by rw [hs']) (by rw [hs'])
      (by rw [hs']; exact fun he => ⟨he, rfl⟩) ?_
      (by rw [hs']; exact id)
    have hway : s'.way = s.way := by
      rw [way, hchannel, hs', way]
      rfl
    rw [hway, hs']
    exact fun ho => ⟨ho, fun _ => rfl⟩
  | call hs' hchannel => exact h.call hattached htold hs' hchannel
  | notify hk hs' hchannel => exact h.notify hattached hkeepsUp hinOrder hk hs' hchannel
  | subscribe hphase hs' hchannel => exact h.subscribe hattached htold hphase hs' hchannel
  | stop hs' hindex hchannel =>
    exact ⟨hattached, by rw [hs']; exact h.filed, by rw [hs']; nofun, by rw [hs']; nofun,
      by rw [hs']; nofun⟩
  | lookup hphase hs' hchannel => exact h.lookup hattached hphase hs' hchannel
  | readIndex hphase hs' hchannel =>
    refine h.passedOn hattached (by rw [hs']) (by rw [hs']) (by rw [hs']) (by rw [hs']; rfl)
      (by rw [hphase]; rfl) ?_
    rw [way, hchannel, hs', way, hphase]
    rfl
  | sendEntry hphase hs' hchannel =>
    refine h.passedOn hattached (by rw [hs']) (by rw [hs']) (by rw [hs']) (by rw [hs']; rfl)
      (by rw [hphase]; rfl) ?_
    rw [way, hchannel, hs', way, hphase]
    simp [events, Phase.rest, Phase.hand, eventResponse, gist_overWire]
  | sendDone hphase hs' hchannel =>
    refine h.passedOn hattached (by rw [hs']) (by rw [hs']) (by rw [hs']) (by rw [hs']; rfl)
      (by rw [hphase]; rfl) ?_
    rw [way, hchannel, hs', way, hphase]
    simp [events, Phase.rest, Phase.hand]
  | sendEvent hphase hs' hchannel =>
    refine h.passedOn hattached (by rw [hs']) (by rw [hs']) (by rw [hs']) (by rw [hs']; rfl)
      (by rw [hphase]; rfl) ?_
    rw [way, hchannel, hs', way, hphase]
    simp [events, Phase.rest, Phase.hand, eventResponse, gist_overWire]
  | receive hphase hs' hchannel =>
    refine h.passedOn hattached (by rw [hs']) (by rw [hs']) (by rw [hs']) (by rw [hs']; rfl)
      (by rw [hphase]; rfl) ?_
    rw [way, way, hchannel, hphase, hs']
    simp [events, Phase.rest, Phase.hand]

end Follows

theorem inOrder_of_short {s : Session} (h : s.pending.length ≤ 1) (a : WatchAction) :
    s.InOrder a := by
  cases a with
  | notify k =>
    intro _ a ha b hb
    cases k with
    | zero => simp [wanted] at ha
    | succ k =>
      rw [List.getElem?_eq_none (by omega)] at hb
      simp [wanted] at hb
  | _ => trivial

theorem short_of_moves {s s' : Session} {a : WatchAction} (h : s.pending.length ≤ 1)
    (hserial : s.Serial a) (hmoves : Moves s s' a) : s'.pending.length ≤ 1 := by
  cases hmoves with
  | @call c hs' _ =>
    have hnone : s.pending = [] := hserial
    rw [hs', hnone, List.nil_append, emit]
    split <;> simp
  | notify _ hs' _ =>
    rw [hs']
    exact (List.length_eraseIdx_le _ _).trans h
  | still hs' _ _ | subscribe _ hs' _ | stop hs' _ _ | lookup _ hs' _ | readIndex _ hs' _
      | sendEntry _ hs' _
  | sendDone _ hs' _ | sendEvent _ hs' _ | receive _ hs' _ =>
    rw [hs']
    exact h

/-! ## Runs that end with GC -/

theorem mem_of_moves {s s' : Session} {a : WatchAction} (ha : a.isCall = false)
    (hmoves : Moves s s' a) :
    s'.mem = s.mem := by
  cases hmoves with
  | call _ _ => cases ha
  | still hs' _ _ | notify _ hs' _ | subscribe _ hs' _ | stop hs' _ _ | lookup _ hs' _
      | readIndex _ hs' _
  | sendEntry _ hs' _ | sendDone _ hs' _ | sendEvent _ hs' _ | receive _ hs' _ => rw [hs']

theorem run_mem {s : Session} (h : s.Attached) (actions : List WatchAction)
    (hcalls : ∀ a ∈ actions, a.isCall = false) :
    (s.run actions).mem = s.mem := by
  induction actions generalizing s with
  | nil => rfl
  | cons a rest ih =>
    have hrest := ih (h.step a) fun a' ha' => hcalls a' (List.mem_cons_of_mem _ ha')
    exact hrest.trans (mem_of_moves (hcalls a List.mem_cons_self) (step_spec h a))

theorem attached_run {s : Session} (h : s.Attached) (actions : List WatchAction) :
    (s.run actions).Attached := by
  induction actions generalizing s with
  | nil => exact h
  | cons a rest ih => exact ih (h.step a)

/-- The last store call is a GC, not behind the clock of the snapshot, and the stream is drained. -/
structure EndsWithGc (s : Session) (clk : Nat → Time) (after : List WatchAction) : Prop where
  last : ∀ a ∈ after, a.isCall = false
  clock : ∀ t ∈ s.since, t ≤ clk 0
  drained : s.Drained

theorem Follows.inSync_of_gc {s : Session} (hattached : s.Attached)
    {before after : List WatchAction} {clk : Nat → Time} {order : GcOrder}
    (h : (s.run (before ++ .call (.gc clk order) :: after)).Follows)
    (hends : (s.run (before ++ .call (.gc clk order) :: after)).EndsWithGc clk after) :
    (s.run (before ++ .call (.gc clk order) :: after)).InSync := by
  have hmem : (s.run (before ++ .call (.gc clk order) :: after)).mem =
      ((s.run before).mem.gc clk order).mem := by
    rw [run, List.foldl_append, List.foldl_cons]
    exact run_mem ((attached_run hattached before).step _) after hends.last
  refine h.inSync hends.drained fun t ht n sid => ?_
  rw [hmem]
  exact not_hidden_of_gc _ order (hends.clock t ht) n sid

end Session

/-- A client that keeps up holds the keys of its query after GC, where the calls tell what they do to
the query. -/
theorem watch_tracks_query (opts : Options) (base : Nat) (q : Query)
    (before after : List WatchAction) (clk : Nat → Time) (order : GcOrder)
    (hrun : Throughout Session.step (fun s a => s.Serial a ∧ s.KeepsUp a ∧ s.Told a)
      (Session.new opts base q) (before ++ .call (.gc clk order) :: after))
    (hends : ((Session.new opts base q).run (before ++ .call (.gc clk order) :: after)).EndsWithGc
      clk after) :
    ((Session.new opts base q).run (before ++ .call (.gc clk order) :: after)).InSync := by
  refine Session.Follows.inSync_of_gc (Session.Attached.new opts base q) ?_ hends
  refine (hrun.keeps (fun s => s.Follows ∧ s.pending.length ≤ 1)
    ⟨Session.Follows.new opts base q, Nat.zero_le 1⟩ ?_).1
  rintro s a ⟨hserial, hkeepsUp, htold⟩ ⟨h, hshort⟩
  have hmoves := Session.step_spec h.attached a
  exact ⟨h.moves (h.attached.step a) hkeepsUp (Session.inOrder_of_short hshort a) htold hmoves,
    Session.short_of_moves hshort hserial hmoves⟩

def registerTagged (tags : List String) : WatchAction :=
  .call (.register (fun _ => 0) (single { id := "n" } { id := "s", name := "web", tags := tags } 0))

/-- An instance with tag `a` is in the snapshot, and registers again with other tags. -/
def retag (tags : List String) : List WatchAction :=
  [registerTagged ["a"], .notify 0, .subscribe, .lookup 0, .readIndex, .send, .readIndex, .send,
    registerTagged tags, .notify 0]

def taggedStream : Session := Session.new {} 1 { name := "web", tags := ["a"] }

theorem watch_tracks_query_retagged :
    (taggedStream.run (retag ["a", "b"] ++ .call (.gc (fun _ => 0) {}) ::
      [.receive, .send])).sent.length = 3 ∧
      (taggedStream.run (retag ["a", "b"] ++ .call (.gc (fun _ => 0) {}) ::
        [.receive, .send])).InSync :=
  ⟨by decide,
    watch_tracks_query {} 1 { name := "web", tags := ["a"] } (retag ["a", "b"]) [.receive, .send]
    (fun _ => 0) {} (by decide) ⟨by decide, by decide, by decide⟩⟩

/-- The instance gives up tag `a`: the event does not match, so the client keeps it. -/
theorem retagged_stays :
    ¬ ∀ (opts : Options) (base : Nat) (q : Query) (before after : List WatchAction)
      (clk : Nat → Time) (order : GcOrder), q.onlyHealthy = false →
      Throughout Session.step (fun s a => s.Serial a ∧ s.KeepsUp a) (Session.new opts base q)
        (before ++ .call (.gc clk order) :: after) →
      ((Session.new opts base q).run (before ++ .call (.gc clk order) :: after)).EndsWithGc
        clk after →
        ((Session.new opts base q).run (before ++ .call (.gc clk order) :: after)).InSync := by
  intro h
  have hsync := h {} 1 { name := "web", tags := ["a"] } (retag ["b"]) [] (fun _ => 0) {} rfl (by decide)
    ⟨by decide, by decide, by decide⟩ "n" "s"
  exact absurd hsync (by decide)

/-! ## A client that is blocked -/

/-- The same for any schedule in which no event is dropped and no batch overtakes an older one. -/
theorem drained_stream_in_sync (opts : Options) (base : Nat) (q : Query)
    (before after : List WatchAction) (clk : Nat → Time) (order : GcOrder)
    (hrun : Throughout Session.step (fun s a => s.KeepsUp a ∧ s.InOrder a ∧ s.Told a)
      (Session.new opts base q) (before ++ .call (.gc clk order) :: after))
    (hends : ((Session.new opts base q).run (before ++ .call (.gc clk order) :: after)).EndsWithGc
      clk after) :
    ((Session.new opts base q).run (before ++ .call (.gc clk order) :: after)).InSync := by
  refine Session.Follows.inSync_of_gc (Session.Attached.new opts base q) ?_ hends
  refine hrun.keeps Session.Follows (Session.Follows.new opts base q) ?_
  rintro s a ⟨hkeepsUp, hinOrder, htold⟩ h
  exact h.moves (h.attached.step a) hkeepsUp hinOrder htold (Session.step_spec h.attached a)

/-- An instance registers, changes its port up to `changes` times and is deregistered, while the client
does not receive. -/
def burst (changes : Nat) : List WatchAction :=
  [.subscribe, .lookup 0, .readIndex, .send,
    .call (.register (fun _ => 0)
      { node := { id := "n" }
        services := (List.range changes).map fun i =>
          { id := "s", name := "web", port := UInt16.ofNat i } }),
    .notify 0, .call (.deregisterService "n" "s"), .notify 0]

/-- The client takes what waits for it. -/
def drain (events : Nat) : List WatchAction := (List.range events).flatMap fun _ => [.receive, .send]

def byName : Session := Session.new {} 1 { name := "web" }

theorem drained_stream_in_sync_burst :
    (byName.run (burst 3 ++ .call (.gc (fun _ => 0) {}) :: drain 4)).sent.length = 5 ∧
      (byName.run (burst 3 ++ .call (.gc (fun _ => 0) {}) :: drain 4)).InSync :=
  ⟨by decide,
    drained_stream_in_sync {} 1 { name := "web" } (burst 3) (drain 4) (fun _ => 0) {} (by decide)
    ⟨by decide, by decide, by decide⟩⟩

/-- The channel is full when the DELETE comes: the client keeps an instance that is gone. -/
theorem dropped_event_stays_lost :
    ¬ ∀ (opts : Options) (base : Nat) (q : Query) (before after : List WatchAction)
      (clk : Nat → Time) (order : GcOrder),
      Throughout Session.step (fun s a => s.InOrder a ∧ s.Told a) (Session.new opts base q)
        (before ++ .call (.gc clk order) :: after) →
      ((Session.new opts base q).run (before ++ .call (.gc clk order) :: after)).EndsWithGc
        clk after →
        ((Session.new opts base q).run (before ++ .call (.gc clk order) :: after)).InSync := by
  intro h
  have hsync := h {} 1 { name := "web" } (burst 64) (drain 64) (fun _ => 0) {} (by decide +kernel)
    ⟨by decide +kernel, by decide +kernel, by decide +kernel⟩ "n" "s"
  exact absurd hsync (by decide +kernel)

end YellowPages.Server
