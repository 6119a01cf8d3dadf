import YellowPages.SeedClient.Watch
import YellowPages.Server.Track

/-!
# The set of a client

`client/sdk`: what `Client.Watch` makes of the stream of a seed or of an agent.
-/

namespace YellowPages.Sdk

open Lib Store Wire Watch Server Federation SeedClient

/-! ## The client -/

structure ClientSet where
  set : Map PbEntry := ∅
  ready : Bool := false

def entryKey (e : PbEntry) : String := (e.node.getD {}).id ++ "\x00" ++ (e.service.getD {}).id

def applyEvent (set : Map PbEntry) (ev : PbChangeEvent) : Map PbEntry :=
  match ev.entry with
  | none => set
  | some e =>
    match ev.type with
    | .put => set.insert (entryKey e) e
    | .delete => set.erase (entryKey e)
    | _ => set

def ClientSet.recv (c : ClientSet) (r : PbWatchResponse) : ClientSet :=
  { set := r.event.elim c.set (applyEvent c.set), ready := c.ready || r.snapshotDone }

/-- The client after these responses. -/
def received (rs : List PbWatchResponse) : ClientSet := rs.foldl ClientSet.recv {}

def healthy (e : PbEntry) : Bool := Health.visible (entryFromProto e) { onlyPassing := true }

/-- After each response past the snapshot the client has healthy instances only. -/
def HealthyOnly (rs : List PbWatchResponse) : Prop :=
  ∀ seen, seen <+: rs → (received seen).ready = true →
    ∀ (k : String) (e : PbEntry), (received seen).set[k]? = some e → healthy e = true

/-! ## Streams without an unhealthy PUT -/

def healthyPut (r : PbWatchResponse) : Bool :=
  match r.event with
  | some { type := .put, entry := some e } => healthy e
  | _ => true

theorem recv_healthy {c : ClientSet} {r : PbWatchResponse} (hr : healthyPut r = true)
    (h : ∀ (k : String) (e : PbEntry), c.set[k]? = some e → healthy e = true) (k : String)
    (e : PbEntry) (he : (c.recv r).set[k]? = some e) : healthy e = true := by
  obtain ⟨event, idx, snapshotDone⟩ := r
  cases event with
  | none => exact h k e he
  | some ev =>
    obtain ⟨type, entry⟩ := ev
    cases entry with
    | none => exact h k e he
    | some e' =>
      cases type with
      | put =>
        simp only [ClientSet.recv, Option.elim_some, applyEvent, Std.ExtTreeMap.getElem?_insert] at he
        split at he
        · obtain rfl := Option.some.inj he
          exact hr
        · exact h k e he
      | delete =>
        simp only [ClientSet.recv, Option.elim_some, applyEvent, Std.ExtTreeMap.getElem?_erase] at he
        split at he
        · cases he
        · exact h k e he
      | unspecified => exact h k e he
      | unrecognized _ => exact h k e he

theorem received_healthy (rs : List PbWatchResponse) (h : ∀ r ∈ rs, healthyPut r = true)
    (k : String) (e : PbEntry) (he : (received rs).set[k]? = some e) : healthy e = true := by
  induction rs using List.reverseRecOn generalizing k e with
  | nil => simp [received] at he
  | append_singleton rs r ih =>
    rw [received, List.foldl_append] at he
    refine recv_healthy (h r (by simp)) (fun k e => ih (fun r hr => h r (by simp [hr])) k e) k e he

theorem healthyOnly_of_puts {rs : List PbWatchResponse} (h : ∀ r ∈ rs, healthyPut r = true) :
    HealthyOnly rs :=
  fun seen hseen _ k e he => received_healthy seen (fun r hr => h r (hseen.subset hr)) k e he

def healthyEvent (ev : ChangeEvent) : Bool :=
  ev.type ≠ .put || Health.visible ev.entry { onlyPassing := true }

theorem healthyPut_eventResponse (ev : ChangeEvent) (idx : Nat) :
    healthyPut (eventResponse ev idx) = healthyEvent ev := by
  obtain ⟨type, entry, index⟩ := ev
  cases type with
  | put =>
    have hwire : healthyPut (eventResponse ⟨.put, entry, index⟩ idx) =
        Health.visible (overWire entry) { onlyPassing := true } := rfl
    rw [hwire, overWire_eq]
    simp [healthyEvent, Health.visible]
  | delete => rfl
  | unspecified => rfl

/-! ## The agent -/

theorem shown_healthy {q : Query} (hq : q.onlyHealthy = true) {merged : List ServiceEntry} :
    ∀ e ∈ shown q merged, Health.visible e { onlyPassing := true } = true := by
  intro e he
  rw [shown, if_pos hq] at he
  exact (List.mem_filter.mp he).2

theorem lookup_healthy {r : Reader} {clk : Nat → Time} {q : Query} (hq : q.onlyHealthy = true)
    {lr : LookupResult} {age : Duration} (h : (r.lookup clk q).2 = .ok lr age) :
    ∀ e ∈ lr.entries, Health.visible e { onlyPassing := true } = true := by
  unfold Reader.lookup at h
  split at h
  · obtain ⟨ce, hentries, -⟩ := lookupWithAge_ok h
    rw [hentries]
    exact shown_healthy hq
  · unfold Reader.directLookup at h
    split at h
    · cases h
    · obtain ⟨rfl, -⟩ := Served.ok.inj h
      rw [if_pos hq]
      exact fun e he => (List.mem_filter.mp he).2

/-- The PUTs of a stream show what the read returned. -/
theorem responses_healthy (s : ProxyStream) (lr : LookupResult) (idx : Nat)
    (puts deletes : RangeOrder String)
    (h : ∀ e ∈ lr.entries, Health.visible e { onlyPassing := true } = true) :
    ∀ r ∈ s.responses lr idx puts deletes, healthyPut r = true := by
  intro r hr
  unfold ProxyStream.responses at hr
  split at hr
  · rcases List.mem_append.mp hr with hr | hr
    · obtain ⟨e, he, rfl⟩ := List.mem_map.mp hr
      rw [sendEvent, healthyPut_eventResponse]
      simp [healthyEvent, h e he]
    · rw [List.mem_singleton.mp hr]
      rfl
  · rcases List.mem_append.mp hr with hr | hr
    · obtain ⟨k, -, hk⟩ := List.mem_filterMap.mp hr
      obtain ⟨e, he, hput⟩ := Option.bind_eq_some_iff.mp hk
      split at hput
      · obtain rfl := Option.some.inj hput
        rw [sendEvent, healthyPut_eventResponse]
        simp [healthyEvent, h e (mem_of_byKey _ k e he).1]
      · cases hput
    · obtain ⟨k, -, hk⟩ := List.mem_filterMap.mp hr
      obtain ⟨e, -, hdelete⟩ := Option.bind_eq_some_iff.mp hk
      split at hdelete
      · cases hdelete
      · obtain rfl := Option.some.inj hdelete
        rfl

structure ProxyHealthy (s : ProxyStream) : Prop where
  query : s.query.onlyHealthy = true
  sent : ∀ r ∈ s.sent, healthyPut r = true
  queue : ∀ queue, s.phase = .sending queue → ∀ r ∈ queue, healthyPut r = true

namespace ProxyHealthy

variable {s : ProxyStream}

theorem new (reader : Reader) (base : Nat) {q : Query} (hq : q.onlyHealthy = true) :
    ProxyHealthy (ProxyStream.new reader base q) where
  query := hq
  sent r hr := by simp [ProxyStream.new] at hr
  queue queue hqueue := by
    dsimp only [ProxyStream.new] at hqueue
    split at hqueue <;> cases hqueue

theorem woken (h : ProxyHealthy s) (idx : Nat) : ProxyHealthy (s.woken idx) := by
  unfold ProxyStream.woken
  split
  · exact h
  · exact ⟨h.query, h.sent, nofun⟩

theorem read (h : ProxyHealthy s) (clk : Nat → Time) (puts deletes : RangeOrder String) (idx : Nat) :
    ProxyHealthy (s.read clk puts deletes idx) := by
  dsimp only [ProxyStream.read]
  split
  · exact ⟨h.query, h.sent, nofun⟩
  · exact ⟨h.query, h.sent, nofun⟩
  · rename_i lr age hlr
    refine ⟨h.query, h.sent, fun queue hqueue => ?_⟩
    obtain rfl := ProxyPhase.sending.inj hqueue
    exact responses_healthy s lr idx puts deletes (lookup_healthy h.query hlr)

theorem step (h : ProxyHealthy s) (a : ProxyAction) : ProxyHealthy (s.step a) := by
  cases a with
  | wait timedOut =>
    dsimp only [ProxyStream.step]
    split
    · split
      · exact h.woken _
      · split
        · exact h.woken _
        · exact h
    · exact h
  | read clk puts deletes =>
    dsimp only [ProxyStream.step]
    split
    · exact h.read clk puts deletes _
    · exact h
  | send =>
    dsimp only [ProxyStream.step]
    split
    · rename_i r rest hphase
      have hqueue := h.queue _ hphase
      refine ⟨h.query, fun r' hr' => ?_, fun queue hrest => ?_⟩
      · rcases List.mem_append.mp hr' with hr' | hr'
        · exact h.sent r' hr'
        · rw [List.mem_singleton.mp hr']
          exact hqueue r List.mem_cons_self
      · obtain rfl := ProxyPhase.sending.inj hrest
        exact fun r' hr' => hqueue r' (List.mem_cons_of_mem _ hr')
    · exact ⟨h.query, h.sent, nofun⟩
    · exact h
  | cancel => exact ⟨h.query, h.sent, nofun⟩
  | seeds client => exact ⟨h.query, h.sent, h.queue⟩
  | cache c => exact ⟨h.query, h.sent, h.queue⟩
  | watch c => exact ⟨h.query, h.sent, h.queue⟩

theorem run (h : ProxyHealthy s) (actions : List ProxyAction) : ProxyHealthy (s.run actions) := by
  induction actions generalizing s with
  | nil => exact h
  | cons a rest ih => exact ih (h.step a)

end ProxyHealthy

/-! ## The seed -/

/-- Every instance of the query that a snapshot would show is healthy, and so is every one that a
batch announces. -/
def StaysHealthy (s : Session) : WatchAction → Prop
  | .lookup now => s.phase.early = true → ∀ p ∈ s.mem.nodes.toList, ∀ x ∈ p.2.services.toList,
    asked s.query p.2.nodeMeta x.2.defn = true → (s.mem.opts.lease x.2 now).2 = false →
      x.2.maintenance = false ∧ (s.mem.opts.lease x.2 now).1 = .passing
  | .notify k => s.phase.id?.isSome = true →
    ∀ ev ∈ wanted s.query (s.pending[k]?.getD []), healthyEvent ev = true
  | _ => True

instance (s : Session) : ∀ a, Decidable (StaysHealthy s a)
  | .lookup _ => inferInstanceAs (Decidable (_ → ∀ p ∈ _, ∀ x ∈ _, _ → _ → _ ∧ _))
  | .notify _ => inferInstanceAs (Decidable (_ → ∀ ev ∈ _, _))
  | .call _ | .subscribe | .readIndex | .send | .receive | .cancel | .other _ =>
    inferInstanceAs (Decidable True)

structure SeedHealthy (s : Session) : Prop where
  attached : s.Attached
  filed : Filed s.mem
  sent : ∀ r ∈ s.sent, healthyPut r = true
  ahead : ∀ ev ∈ s.phase.rest.map snapshotEvent ++ s.phase.hand.toList ++ s.channel,
    healthyEvent ev = true

theorem mem_restamped {index : Nat} {events : List ChangeEvent} {ev : ChangeEvent}
    (h : ev ∈ restamped index events) : ∃ old ∈ events, ev = { old with index := ev.index } := by
  induction events generalizing index with
  | nil => cases h
  | cons old rest ih =>
    rcases List.mem_cons.mp h with rfl | h
    · exact ⟨old, List.mem_cons_self, rfl⟩
    · obtain ⟨old', hold', heq⟩ := ih h
      exact ⟨old', List.mem_cons_of_mem _ hold', heq⟩

theorem delivered_healthy {s : Session} {events : List ChangeEvent}
    (h : s.phase.id?.isSome = true → ∀ ev ∈ wanted s.query events, healthyEvent ev = true) :
    ∀ ev ∈ s.delivered events, healthyEvent ev = true := by
  intro ev hev
  unfold Session.delivered at hev
  split at hev
  · cases hev
  · rename_i id hid
    obtain ⟨hmem, hmatches⟩ := List.mem_filter.mp (List.mem_of_mem_take hev)
    obtain ⟨old, hold, heq⟩ := mem_restamped hmem
    rw [heq] at hmatches ⊢
    exact h (by rw [hid]; rfl) old (List.mem_filter.mpr ⟨hold, hmatches⟩)

theorem snapshot_healthy {m : Memory} (h : Filed m) {now : Time} {q : Query}
    (hall : ∀ p ∈ m.nodes.toList, ∀ x ∈ p.2.services.toList, asked q p.2.nodeMeta x.2.defn = true →
      (m.opts.lease x.2 now).2 = false → x.2.maintenance = false ∧
        (m.opts.lease x.2 now).1 = .passing) :
    ∀ e ∈ (m.lookup now q).entries, healthyEvent (snapshotEvent e) = true := by
  intro e he
  obtain ⟨n, r, s, svc, hr, hs, hname, hdc, htags, hlive, rfl⟩ := (mem_lookup now q h e).mp he
  have hasked : asked q r.nodeMeta svc.defn = true := (matchesQuery_iff q _).mpr ⟨hname, hdc, htags⟩
  obtain ⟨hmaintenance, hpassing⟩ :=
    hall (n, r) (Std.ExtTreeMap.mem_toList_iff_getElem?_eq_some.mpr hr) (s, svc)
    (Std.ExtTreeMap.mem_toList_iff_getElem?_eq_some.mpr hs) hasked hlive
  dsimp only at hmaintenance hpassing
  simp [healthyEvent, snapshotEvent, entry, Health.visible, hmaintenance, hpassing]

namespace SeedHealthy

variable {s s' : Session}

theorem new (opts : Options) (base : Nat) (q : Query) : SeedHealthy (Session.new opts base q) where
  attached := Session.Attached.new opts base q
  filed := Filed.newMemory opts
  sent r hr := by simp [Session.new] at hr
  ahead ev hev := by simp [Session.new, Phase.rest, Phase.hand, Session.channel, Phase.id?] at hev

theorem same (h : SeedHealthy s) (hattached : s'.Attached) (hmem : s'.mem = s.mem)
    (hsent : s'.sent = s.sent)
    (hahead : s'.phase.rest.map snapshotEvent ++ s'.phase.hand.toList ++ s'.channel ⊆
      s.phase.rest.map snapshotEvent ++ s.phase.hand.toList ++ s.channel) : SeedHealthy s' :=
  ⟨hattached, hmem ▸ h.filed, hsent ▸ h.sent, fun ev hev => h.ahead ev (hahead hev)⟩

/-- The next event goes out. -/
theorem passOn (h : SeedHealthy s) (hattached : s'.Attached) {ev : ChangeEvent} {idx : Nat}
    (hmem : s'.mem = s.mem) (hsent : s'.sent = s.sent ++ [eventResponse ev idx])
    (hahead : ev :: (s'.phase.rest.map snapshotEvent ++ s'.phase.hand.toList ++ s'.channel) ⊆
      s.phase.rest.map snapshotEvent ++ s.phase.hand.toList ++ s.channel) : SeedHealthy s' := by
  refine ⟨hattached, hmem ▸ h.filed, fun r hr => ?_,
    fun ev hev => h.ahead ev (hahead (List.mem_cons_of_mem _ hev))⟩
  rw [hsent] at hr
  rcases List.mem_append.mp hr with hr | hr
  · exact h.sent r hr
  · rw [List.mem_singleton.mp hr, healthyPut_eventResponse]
    exact h.ahead ev (hahead List.mem_cons_self)

theorem moves (h : SeedHealthy s) {a : WatchAction} (ha : StaysHealthy s a) (hattached : s'.Attached)
    (hmoves : Moves s s' a) : SeedHealthy s' := by
  cases hmoves with
  | still hs' _ hchannel =>
    refine h.same hattached (by rw [hs']) (by rw [hs']) ?_
    rw [hchannel, hs']
    exact List.Subset.refl _
  | call hs' hchannel =>
    refine ⟨hattached, by rw [hs']; exact h.filed.exec _, by rw [hs']; exact h.sent, ?_⟩
    rw [hchannel, hs']
    exact h.ahead
  | notify hk hs' hchannel =>
    refine ⟨hattached, by rw [hs']; exact h.filed, by rw [hs']; exact h.sent, ?_⟩
    rw [hchannel, hs', ← List.append_assoc]
    intro ev hev
    rcases List.mem_append.mp hev with hev | hev
    · exact h.ahead ev hev
    · have hbatch := ha
      rw [StaysHealthy, hk, Option.getD_some] at hbatch
      exact delivered_healthy hbatch ev hev
  | subscribe _ hs' hchannel =>
    refine h.same hattached (by rw [hs']) (by rw [hs']) ?_
    rw [hchannel, hs']
    exact List.nil_subset _
  | stop hs' _ hchannel =>
    refine h.same hattached (by rw [hs']) (by rw [hs']) ?_
    rw [hchannel, hs']
    exact List.nil_subset _
  | lookup hphase hs' hchannel =>
    refine ⟨hattached, by rw [hs']; exact h.filed, by rw [hs']; exact h.sent, ?_⟩
    rw [hchannel, hs']
    intro ev hev
    rcases List.mem_append.mp hev with hev | hev
    · obtain ⟨e, he, rfl⟩ := List.mem_map.mp
        (List.mem_append.mp hev |>.resolve_right (by simp [Phase.hand]))
      exact snapshot_healthy h.filed (ha (by rw [hphase]; rfl)) e he
    · exact h.ahead ev (List.mem_append_right _ hev)
  | readIndex hphase hs' hchannel =>
    refine h.same hattached (by rw [hs']) (by rw [hs']) ?_
    rw [hchannel, hs', hphase]
    exact List.Subset.refl _
  | sendEntry hphase hs' hchannel =>
    refine h.passOn hattached (by rw [hs']) (by rw [hs']) ?_
    rw [hchannel, hs', hphase]
    exact List.Subset.refl _
  | sendDone hphase hs' hchannel =>
    refine ⟨hattached, by rw [hs']; exact h.filed, ?_, ?_⟩
    · rw [hs']
      intro r hr
      rcases List.mem_append.mp hr with hr | hr
      · exact h.sent r hr
      · rw [List.mem_singleton.mp hr]
        rfl
    · rw [hchannel, hs']
      exact fun ev hev => h.ahead ev (List.mem_append_right _ hev)
  | sendEvent hphase hs' hchannel =>
    refine h.passOn hattached (by rw [hs']) (by rw [hs']) ?_
    rw [hchannel, hs', hphase]
    exact List.Subset.refl _
  | receive hphase hs' hchannel =>
    refine h.same hattached (by rw [hs']) (by rw [hs']) ?_
    rw [hchannel, hs', hphase]
    exact List.Subset.refl _

end SeedHealthy

/-! ## Both -/

/-- An agent shows a healthy-only client healthy instances. A seed does so as long as the query has no
others. -/
theorem healthy_watch (q : Query) (hq : q.onlyHealthy = true) :
    (∀ (opts : Options) (base : Nat) (actions : List WatchAction),
      Throughout Session.step StaysHealthy (Session.new opts base q) actions →
        HealthyOnly ((Session.new opts base q).run actions).sent) ∧
      ∀ (reader : Reader) (base : Nat) (actions : List ProxyAction),
        HealthyOnly ((ProxyStream.new reader base q).run actions).sent := by
  refine ⟨fun opts base actions hrun => ?_, fun reader base actions => ?_⟩
  · refine healthyOnly_of_puts (hrun.keeps SeedHealthy (SeedHealthy.new opts base q) ?_).sent
    intro s a ha h
    exact h.moves ha (h.attached.step a) (Session.step_spec h.attached a)
  · exact healthyOnly_of_puts ((ProxyHealthy.new reader base hq).run actions).sent

/-- An instance is in the snapshot, and then a call on it is announced. -/
def announce (c : Call) : List WatchAction :=
  [registerTagged [], .notify 0, .subscribe, .lookup 0, .readIndex, .send, .readIndex, .send,
    .call c, .notify 0,
    .receive, .send]

def healthyWeb : Query := { name := "web", onlyHealthy := true }

theorem healthy_watch_deregistered :
    HealthyOnly ((Session.new {} 1 healthyWeb).run (announce (.deregisterService "n" "s"))).sent :=
  (healthy_watch healthyWeb rfl).1 {} 1 (announce (.deregisterService "n" "s")) (by decide)

/-- The check of the instance fails: the seed sends a PUT of a critical instance. -/
theorem seed_shows_critical :
    ¬ ∀ (q : Query), q.onlyHealthy = true →
      (∀ (opts : Options) (base : Nat) (actions : List WatchAction),
        HealthyOnly ((Session.new opts base q).run actions).sent) ∧
      ∀ (reader : Reader) (base : Nat) (actions : List ProxyAction),
        HealthyOnly ((ProxyStream.new reader base q).run actions).sent := by
  intro h
  have hhealthy :=
    (h healthyWeb rfl).1 {} 1 (announce (.fail (fun _ => 0) "n" "s")) _ (List.prefix_refl _)
    (by decide) "n\x00s"
  revert hhealthy
  decide

end YellowPages.Sdk
