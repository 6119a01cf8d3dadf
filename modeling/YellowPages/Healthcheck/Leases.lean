import YellowPages.Healthcheck.Monitor

/-!
# A service whose checks pass

Its lease holds from one refresh to the next if the seeds granted it at least the period of the
ticker that refreshes it. Nothing at registration compares the two.
-/

namespace YellowPages.Healthcheck

open Lib Store SeedClient

/-! ## Tickers that are not overdue -/

/-- The next tick is still to come, within one period. -/
structure Ticker.On (now : Time) (t : Ticker) : Prop where
  due : now ≤ t.next
  near : t.next ≤ now + t.period

namespace Ticker.On

variable {now : Time} {t : Ticker}

theorem new (now : Time) {period : Duration} (h : 0 ≤ period) : (newTicker now period).On now where
  due := le_add_of_nonneg_right h
  near := le_rfl

theorem later {now' : Time} (h : t.On now) (hle : now ≤ now') (hdue : now' ≤ t.next) :
    t.On now' where
  due := hdue
  near := h.near.trans (add_le_add_left hle _)

theorem tick (h : t.On now) (hnow : t.next = now) : t.tick.On now where
  due := by
    have hperiod : 0 ≤ t.period := by
      have hle := h.due.trans h.near
      exact nonneg_of_le_add_right hle
    rw [Ticker.tick, hnow]
    exact le_add_of_nonneg_right hperiod
  near := by rw [Ticker.tick, hnow]

end Ticker.On

theorem every_pos (d : Definition) : 0 < d.every := by
  unfold Definition.every
  split <;> rename_i h
  · exact h
  · decide

theorem minInterval_pos (first : Definition) (rest : List Definition) : 0 < minInterval first rest := by
  have hfold : ∀ (rest : List Definition) (lowest : Duration), 0 < lowest →
      0 < rest.foldl (fun lowest d => if d.every < lowest then d.every else lowest) lowest := by
    intro rest
    induction rest with
    | nil => intro lowest h; exact h
    | cons d rest ih =>
      intro lowest h
      refine ih _ ?_
      dsimp only
      split
      · exact every_pos d
      · exact h
  exact hfold rest _ (every_pos first)

/-! ## Who refreshes a service -/

/-- The ticker that refreshes the service: that of its checks, or the heartbeat. -/
def tickerOf (monitor : Monitor) (heartbeat : Ticker) (id : String) : Ticker :=
  match monitor.services[id]? with
  | some st => st.ticker
  | none => heartbeat

section TickerOf

variable {monitor monitor' : Monitor} {id : String} (heartbeat : Ticker)

theorem tickerOf_checked {st : SvcState} (h : monitor.services[id]? = some st) :
    tickerOf monitor heartbeat id = st.ticker := by
  simp only [tickerOf, h]

theorem tickerOf_unchecked (h : monitor.services[id]? = none) :
    tickerOf monitor heartbeat id = heartbeat := by
  simp only [tickerOf, h]

theorem tickerOf_congr (h : monitor'.services[id]? = monitor.services[id]?) :
    tickerOf monitor' heartbeat id = tickerOf monitor heartbeat id := by
  simp only [tickerOf, h]

end TickerOf

structure TickersOn (now : Time) (monitor : Monitor) (heartbeat : Ticker) : Prop where
  heartbeat : heartbeat.On now
  checks : ∀ (id : String) (st : SvcState), monitor.services[id]? = some st → st.ticker.On now

theorem TickersOn.tickerOf {now : Time} {monitor : Monitor} {heartbeat : Ticker}
    (h : TickersOn now monitor heartbeat) (id : String) : (tickerOf monitor heartbeat id).On now := by
  cases hst : monitor.services[id]? with
  | some st =>
    rw [tickerOf_checked heartbeat hst]
    exact h.checks id st hst
  | none =>
    rw [tickerOf_unchecked heartbeat hst]
    exact h.heartbeat

/-- The seeds have a hosted service, with a lease that holds until its next refresh, and grant it
enough for the refreshes after that. -/
structure Served {k : Nat} (p : Proxy) (seeds : Fin k → Memory) (now : Time) (t : Ticker)
    (id : String) (dfn : ServiceInstance) : Prop where
  key : serviceId dfn = id
  name : dfn.name ≠ ""
  node : p.node.id ≠ ""
  quorum : p.quorum ≤ k
  grants : ∀ i, t.period ≤ (seeds i).opts.clampTTL (wireService dfn).ttl
  kept : ∀ i, Kept (seeds i) p.node.id id now t.next t.period

theorem Served.moved {k : Nat} {p : Proxy} {seeds seeds' : Fin k → Memory} {now now' : Time}
    {t t' : Ticker} {id : String} {dfn : ServiceInstance} (h : Served p seeds now t id dfn)
    (hopts : ∀ i, (seeds' i).opts = (seeds i).opts) (hperiod : t'.period = t.period)
    (hkept : ∀ i, Kept (seeds' i) p.node.id id now' t'.next t'.period) :
    Served p seeds' now' t' id dfn where
  key := h.key
  name := h.name
  node := h.node
  quorum := h.quorum
  grants := fun i => by
    rw [hopts, hperiod]
    exact h.grants i
  kept := hkept

structure Alive {k : Nat} (s : Agent k) : Prop where
  tickers : TickersOn s.now s.monitor s.heartbeat
  quorum : 1 ≤ s.proxy.quorum
  served : ∀ id dfn, s.proxy.hosted[id]? = some dfn →
    Served s.proxy s.seeds s.now (tickerOf s.monitor s.heartbeat id) id dfn

/-- Every hosted service is passing on every seed. -/
def Passing {k : Nat} (s : Agent k) : Prop :=
  ∀ id ∈ s.proxy.hosted, ∀ i, ∃ svc, (s.seeds i).service? s.proxy.node.id id = some svc ∧
    (s.seeds i).opts.lease svc s.now = (.passing, false)

theorem Alive.passing {k : Nat} {s : Agent k} (h : Alive s) : Passing s := by
  intro id hid i
  obtain ⟨dfn, hdfn⟩ := Option.isSome_iff_exists.mp (Std.ExtTreeMap.isSome_getElem?_iff_mem.mpr hid)
  obtain ⟨svc, hsvc, hholds⟩ := (h.served id dfn hdfn).kept i
  exact ⟨svc, hsvc, hholds.passing (h.tickers.tickerOf id).due _⟩

/-! ## A registration on all seeds -/

theorem needed_wire (m : Memory) (n : String) (services : List ServiceInstance) :
    needed m n (services.map wireService) = needed m n services := by
  unfold needed
  rw [List.map_map]
  rfl

theorem fits_wire {m : Memory} {n : String} {services : List ServiceInstance} (h : Fits m n services) :
    Fits m n (services.map wireService) := by
  unfold Fits at h ⊢
  rwa [needed_wire]

theorem deliver_at (m : Memory) (reg : Registration) (now : Time) :
    deliver m (Wire.registrationToProto reg) (.processed (fun _ => now) true) =
      ((m.register (fun _ => now) (wireRegistration reg)).mem,
        (m.register (fun _ => now) (wireRegistration reg)).ret.isNone) := by
  simp [deliver, server_register, Server.reply]

section Seeds

variable {k : Nat} {seeds : Fin k → Memory} {reg : Registration} {now : Time}

theorem wire_valid (hnames : ∀ svc ∈ reg.services, svc.name ≠ "") :
    ∀ i ∈ (wireRegistration reg).services, i.name ≠ "" := by
  intro i hi
  obtain ⟨svc, hsvc, rfl⟩ := List.mem_map.mp hi
  exact hnames svc hsvc

theorem registerAll_kept {i : Fin k} {id : String} {t : Ticker} (hid : reg.node.id ≠ "")
    (hnames : ∀ svc ∈ reg.services, svc.name ≠ "") (hfits : Fits (seeds i) reg.node.id reg.services)
    (hon : t.On now)
    (hother : id ∉ reg.services.map serviceId → Kept (seeds i) reg.node.id id now t.next t.period)
    (hgrants : ∀ svc ∈ reg.services, serviceId svc = id →
      t.period ≤ (seeds i).opts.clampTTL (wireService svc).ttl ∧
        ∀ old ∈ (seeds i).service? reg.node.id id, old.failed = false) :
    Kept ((registerAll seeds reg fun _ => .processed (fun _ => now) true).1 i) reg.node.id id now t.next
      t.period := by
  rw [show (registerAll seeds reg fun _ => .processed (fun _ => now) true).1 i =
    (deliver (seeds i) (Wire.registrationToProto reg) (.processed (fun _ => now) true)).1 from rfl,
      deliver_at]
  have hids : (wireRegistration reg).services.map serviceId = reg.services.map serviceId := by
    rw [wireRegistration, List.map_map]
    rfl
  have hid' : (wireRegistration reg).node.id ≠ "" := hid
  refine Kept.register hid' (wire_valid hnames) ?_ hon.near ?_ ?_
  · exact fits_wire hfits
  · rw [hids]
    exact hother
  · intro svc' hsvc' hkey
    obtain ⟨svc, hsvc, rfl⟩ := List.mem_map.mp hsvc'
    exact hgrants svc hsvc hkey

theorem registerAll_succeeded (hid : reg.node.id ≠ "")
    (hnames : ∀ svc ∈ reg.services, svc.name ≠ "")
    (hfits : ∀ i, Fits (seeds i) reg.node.id reg.services) :
    (registerAll seeds reg fun _ => .processed (fun _ => now) true).2.succeeded = k := by
  have hall : ∀ i ∈ List.finRange k,
      (deliver (seeds i) (Wire.registrationToProto reg) (.processed (fun _ => now) true)).2 = true := by
    intro i _
    have hwire : Fits (seeds i) (wireRegistration reg).node.id (wireRegistration reg).services :=
      fits_wire (hfits i)
    have hid' : (wireRegistration reg).node.id ≠ "" := hid
    rw [deliver_at]
    dsimp only
    rw [(register_fits _ hid' (wire_valid hnames) hwire).1]
    rfl
  have hcount := List.countP_eq_length.mpr hall
  rw [List.length_finRange] at hcount
  exact hcount

theorem registerAll_without_node (hid : reg.node.id = "") :
    (registerAll seeds reg fun _ => .processed (fun _ => now) true).2.succeeded = 0 := by
  refine List.countP_eq_zero.mpr fun i _ => ?_
  rw [deliver_at]
  have hinvalid : (wireRegistration reg).node.id = "" := hid
  simp [Memory.register, hinvalid]

theorem registerAll_quorum {quorum : Int} (hquorum : 1 ≤ quorum)
    (hnames : ∀ svc ∈ reg.services, svc.name ≠ "")
    (hfits : ∀ i, Fits (seeds i) reg.node.id reg.services)
    (hok : quorum ≤ (registerAll seeds reg fun _ => .processed (fun _ => now) true).2.succeeded) :
    reg.node.id ≠ "" ∧ quorum ≤ k := by
  have hid : reg.node.id ≠ "" := by
    intro hempty
    rw [registerAll_without_node hempty] at hok
    omega
  rw [registerAll_succeeded hid hnames hfits] at hok
  exact ⟨hid, hok⟩

end Seeds

/-! ## Registering -/

/-- The seed has room for the services, grants each of them its period, and has none of them with a
failed check. -/
structure Grants (m : Memory) (n : String) (services : List ServiceInstance)
    (period : String → Duration) :
    Prop where
  room : Fits m n services
  ttl : ∀ svc ∈ services, period (serviceId svc) ≤ m.opts.clampTTL (wireService svc).ttl
  unfailed : ∀ svc ∈ services, ∀ old ∈ m.service? n (serviceId svc), old.failed = false

theorem Grants.congr {m : Memory} {n : String} {services : List ServiceInstance}
    {period period' : String → Duration} (h : Grants m n services period)
    (heq : ∀ svc ∈ services, period' (serviceId svc) = period (serviceId svc)) :
    Grants m n services period' :=
  { h with ttl := fun svc hsvc => by rw [heq svc hsvc]; exact h.ttl svc hsvc }

theorem services_of_prepare {p : Proxy} {reg sent : Registration} (h : p.prepare reg = .ok sent) :
    sent.node = p.node ∧ sent.services = reg.services.map named ∧ ∀ svc ∈ reg.services,
      svc.name ≠ "" := by
  obtain ⟨rfl, hnames⟩ := prepare_ok h
  exact ⟨rfl, rfl, hnames⟩

theorem named_ne {svc : ServiceInstance} (hname : svc.name ≠ "") : (named svc).id ≠ "" := by
  simp only [named, serviceId]
  split
  · exact hname
  · assumption

theorem Grants.prepared {m : Memory} {p : Proxy} {reg sent : Registration}
    {period : String → Duration} (h : Grants m p.node.id reg.services period)
    (hsent : p.prepare reg = .ok sent) :
    Grants m sent.node.id sent.services period := by
  obtain ⟨hnode, hservices, -⟩ := services_of_prepare hsent
  have hmap : sent.services.map serviceId = reg.services.map serviceId := by
    rw [hservices, List.map_map]
    exact List.map_congr_left fun svc _ => serviceId_named svc
  have hneeded : needed m p.node.id sent.services = needed m p.node.id reg.services := by
    unfold needed
    rw [hmap]
  rw [hnode]
  refine ⟨?_, ?_, ?_⟩
  · have hroom := h.room
    unfold Fits at hroom ⊢
    rwa [hneeded]
  · intro svc hsvc
    rw [hservices, List.mem_map] at hsvc
    obtain ⟨svc, hsvc, rfl⟩ := hsvc
    rw [serviceId_named]
    exact h.ttl svc hsvc
  · intro svc hsvc
    rw [hservices, List.mem_map] at hsvc
    obtain ⟨svc, hsvc, rfl⟩ := hsvc
    rw [serviceId_named]
    exact h.unfailed svc hsvc

namespace Alive

variable {k : Nat} {s : Agent k}

theorem hosted (h : Alive s) {sent : Registration} {monitor : Monitor}
    (hnode : sent.node = s.proxy.node)
    (hservices : ∀ svc ∈ sent.services, svc.name ≠ "" ∧ svc.id ≠ "")
    (hok : s.proxy.quorum ≤ (registerAll s.seeds sent s.fates).2.succeeded)
    (hon : TickersOn s.now monitor s.heartbeat)
    (hsame : ∀ id, (∀ svc ∈ sent.services, svc.id ≠ id) →
      monitor.services[id]? = s.monitor.services[id]?)
    (hgrants : ∀ i, Grants (s.seeds i) sent.node.id sent.services fun id =>
      (tickerOf monitor s.heartbeat id).period) :
    Alive { s with proxy := s.proxy.host sent, seeds := (registerAll s.seeds sent s.fates).1
                   monitor := monitor } := by
  have hnames : ∀ svc ∈ sent.services, svc.name ≠ "" := fun svc hsvc => (hservices svc hsvc).1
  obtain ⟨hid, hquorum⟩ := registerAll_quorum h.quorum hnames (fun i => (hgrants i).room) hok
  have hopts : ∀ i, ((registerAll s.seeds sent s.fates).1 i).opts = (s.seeds i).opts :=
    registerAll_opts
  have hkey : ∀ svc ∈ sent.services, serviceId svc = svc.id :=
    fun svc hsvc => if_neg (hservices svc hsvc).2
  refine ⟨hon, h.quorum, fun id dfn hdfn => ?_⟩
  -- What the registration names gets a new lease, and the rest keeps the one it has.
  have hkept : (id ∉ sent.services.map serviceId → Served s.proxy s.seeds s.now
      (tickerOf monitor s.heartbeat id) id dfn) → ∀ i, Kept ((registerAll s.seeds sent s.fates).1 i)
        s.proxy.node.id id s.now (tickerOf monitor s.heartbeat id).next
        (tickerOf monitor s.heartbeat id).period := by
    intro hother i
    rw [← hnode]
    refine registerAll_kept hid hnames (hgrants i).room (hon.tickerOf id) ?_ ?_
    · rw [hnode]
      exact fun hnot => (hother hnot).kept i
    · intro svc hsvc hsvcid
      rw [← hsvcid]
      exact ⟨(hgrants i).ttl svc hsvc, (hgrants i).unfailed svc hsvc⟩
  rcases host_getElem? s.proxy sent id hdfn with ⟨svc, hsvc, rfl, rfl⟩ | ⟨hnot, hold⟩
  · refine ⟨hkey svc hsvc, hnames svc hsvc, hnode ▸ hid, hquorum, fun i => ?_, ?_⟩
    · have httl := (hgrants i).ttl svc hsvc
      rw [hkey svc hsvc] at httl
      dsimp only
      rw [hopts]
      exact httl
    · refine hkept fun hnot => absurd ?_ hnot
      rw [← hkey svc hsvc]
      exact List.mem_map_of_mem hsvc
  · have hserved := h.served id dfn hold
    rw [← tickerOf_congr s.heartbeat (hsame id hnot)] at hserved
    exact { hserved.moved hopts rfl (hkept fun _ => hserved) with quorum := hquorum }

/-- A registration that not enough seeds acknowledge, although they have room: the quorum is out of
reach, so nothing was ever hosted. -/
theorem refused (h : Alive s) {sent : Registration} (hnode : sent.node = s.proxy.node)
    (hnames : ∀ svc ∈ sent.services, svc.name ≠ "")
    (hnot : ¬ s.proxy.quorum ≤ (registerAll s.seeds sent s.fates).2.succeeded)
    (hfits : ∀ i, Fits (s.seeds i) sent.node.id sent.services) :
    Alive { s with seeds := (registerAll s.seeds sent s.fates).1 } := by
  refine ⟨h.tickers, h.quorum, fun id dfn hdfn => absurd ?_ hnot⟩
  have hserved := h.served id dfn hdfn
  have hacked : (registerAll s.seeds sent s.fates).2.succeeded = k :=
    registerAll_succeeded (by rw [hnode]; exact hserved.node) hnames hfits
  rw [hacked]
  exact hserved.quorum

theorem registered (h : Alive s) {reg : Registration} {monitor : Monitor}
    (hon : TickersOn s.now monitor s.heartbeat)
    (hsame : ∀ id, id ∉ reg.services.map serviceId →
      monitor.services[id]? = s.monitor.services[id]?)
    (hgrants : ∀ i, Grants (s.seeds i) s.proxy.node.id reg.services fun id =>
      (tickerOf monitor s.heartbeat id).period) :
    let r := s.proxy.registerServices s.seeds reg s.fates
    (r.2.2 = none → Alive { s with proxy := r.1, seeds := r.2.1, monitor := monitor }) ∧
      (r.2.2 ≠ none → Alive { s with proxy := r.1, seeds := r.2.1 }) := by
  intro r
  have hr : s.proxy.registerServices s.seeds reg s.fates = r := rfl
  rcases registerServices_cases s.proxy s.seeds reg s.fates with
    ⟨err, -, hcase⟩ | ⟨sent, hsent, hcase⟩
  · rw [hr] at hcase
    rw [hcase]
    exact ⟨nofun, fun _ => h⟩
  · obtain ⟨hnode, hservices, hnames⟩ := services_of_prepare hsent
    have hsound : ∀ svc ∈ sent.services, svc.name ≠ "" ∧ svc.id ≠ "" := by
      intro svc hsvc
      rw [hservices, List.mem_map] at hsvc
      obtain ⟨svc, hsvc, rfl⟩ := hsvc
      exact ⟨hnames svc hsvc, named_ne (hnames svc hsvc)⟩
    have hprepared := fun i => (hgrants i).prepared hsent
    rw [hr] at hcase
    rcases hcase with ⟨hok, hcase⟩ | ⟨hok, err, hcase⟩ <;> rw [hcase]
    · refine ⟨fun _ => h.hosted hnode hsound hok hon (fun id hid => hsame id ?_) hprepared,
        fun hsome => absurd rfl hsome⟩
      rw [List.mem_map]
      rintro ⟨svc, hsvc, rfl⟩
      refine hid (named svc) ?_ rfl
      rw [hservices]
      exact List.mem_map_of_mem hsvc
    · exact ⟨nofun,
        fun _ => h.refused hnode (fun svc hsvc => (hsound svc hsvc).1) hok fun i =>
          (hprepared i).room⟩

theorem registerGRPC (h : Alive s) {reg : Registration}
    (hgrants : ∀ i, Grants (s.seeds i) s.proxy.node.id reg.services fun id =>
      (tickerOf s.monitor s.heartbeat id).period) : Alive (s.registerGRPC reg) := by
  obtain ⟨haccepted, hrefused⟩ := h.registered h.tickers (fun _ _ => rfl) hgrants
  unfold Agent.registerGRPC
  by_cases hret : (s.proxy.registerServices s.seeds reg s.fates).2.2 = none
  · exact haccepted hret
  · exact hrefused hret

end Alive

/-! ## The monitor -/

/-- The period at which a service with these checks is refreshed. -/
def refreshPeriod (heartbeat : Ticker) : List Definition → Duration
  | [] => heartbeat.period
  | first :: rest => minInterval first rest

section Monitor

variable {now : Time} {monitor : Monitor} {heartbeat : Ticker} {id : String}

theorem set_services (defs : List Definition) (id' : String) :
    (monitor.set now id defs).services[id']? = if id = id' then
      match defs with
      | [] => none
      | first :: rest => some ⟨first, rest, newTicker now (minInterval first rest)⟩
    else monitor.services[id']? := by
  cases defs with
  | nil => simp [Monitor.set, Monitor.remove, Std.ExtTreeMap.getElem?_erase]
  | cons first rest =>
    simp only [Monitor.set, Monitor.remove, Std.ExtTreeMap.getElem?_insert,
      Std.ExtTreeMap.getElem?_erase,
      Std.compare_eq_iff_eq]
    split <;> rfl

theorem tickerOf_set_period (defs : List Definition) :
    (tickerOf (monitor.set now id defs) heartbeat id).period = refreshPeriod heartbeat defs := by
  unfold tickerOf
  rw [set_services, if_pos rfl]
  cases defs <;> rfl

theorem TickersOn.set (h : TickersOn now monitor heartbeat) (id : String) (defs : List Definition) :
    TickersOn now (monitor.set now id defs) heartbeat := by
  refine ⟨h.heartbeat, fun id' st hst => ?_⟩
  rw [set_services] at hst
  split at hst
  · cases defs with
    | nil => cases hst
    | cons first rest =>
      obtain rfl := Option.some.inj hst
      exact Ticker.On.new now (le_of_lt (minInterval_pos first rest))
  · exact h.checks id' st hst

theorem TickersOn.remove (h : TickersOn now monitor heartbeat) (id : String) :
    TickersOn now (monitor.remove id) heartbeat := h.set id []

theorem tick_services (id' : String) :
    (monitor.tick id).services[id']? = if id = id' then
      monitor.services[id']?.map fun st => { st with ticker := st.ticker.tick }
    else monitor.services[id']? := by
  simp only [Monitor.tick, Std.ExtTreeMap.getElem?_modify, Std.compare_eq_iff_eq]
  split <;> rename_i hid
  · rw [hid]
  · rfl

theorem tickerOf_tick {st : SvcState} (hst : monitor.services[id]? = some st) (id' : String) :
    tickerOf (monitor.tick id) heartbeat id' =
      if id = id' then st.ticker.tick else tickerOf monitor heartbeat id' := by
  unfold tickerOf
  rw [tick_services]
  by_cases hid : id = id'
  · rw [if_pos hid, if_pos hid, ← hid, hst]
    rfl
  · rw [if_neg hid, if_neg hid]

theorem TickersOn.tick (h : TickersOn now monitor heartbeat) {st : SvcState}
    (hst : monitor.services[id]? = some st) (hnow : st.ticker.next = now) :
    TickersOn now (monitor.tick id) heartbeat := by
  refine ⟨h.heartbeat, fun id' st' hst' => ?_⟩
  rw [tick_services] at hst'
  split at hst' <;> rename_i hid
  · rw [← hid, hst] at hst'
    obtain rfl := Option.some.inj hst'
    exact (h.checks id st hst).tick hnow
  · exact h.checks id' st' hst'

end Monitor

/-! ## One step -/

namespace Alive

variable {k : Nat} {s : Agent k}

theorem start (cfg : Config) (node : Node) (quorum : Int) (enableScript : Bool) (now : Time)
    (seeds : Fin k → Memory) : Alive (start cfg node quorum enableScript now seeds) where
  tickers := ⟨Ticker.On.new now (le_of_lt cfg.heartbeat_pos), fun id st hst => by
    simp [Healthcheck.start] at hst⟩
  quorum := by
    simp only [Healthcheck.start, newProxy]
    split <;> omega
  served := fun id dfn hdfn => by simp [Healthcheck.start, newProxy] at hdfn

theorem registerHTTP (h : Alive s) {svc : ServiceInstance} {defs : List Definition}
    (hgrants : ∀ i,
      Grants (s.seeds i) s.proxy.node.id [named svc] fun _ => refreshPeriod s.heartbeat defs) :
    Alive (s.registerHTTP svc defs) := by
  have hkey : serviceId (named svc) = (named svc).id := serviceId_named svc
  let reg := single s.proxy.node (named svc) 1
  have hsame : ∀ id, id ∉ reg.services.map serviceId →
      (s.monitor.set s.now (named svc).id defs).services[id]? = s.monitor.services[id]? := by
    intro id hid
    have hne : ¬ (named svc).id = id := by
      intro heq
      simp [reg, single, hkey, heq] at hid
    rw [set_services, if_neg hne]
  have hperiod : ∀ i, Grants (s.seeds i) s.proxy.node.id reg.services fun id =>
      (tickerOf (s.monitor.set s.now (named svc).id defs) s.heartbeat id).period := by
    refine fun i => (hgrants i).congr fun svc' hsvc' => ?_
    obtain rfl := List.mem_singleton.mp hsvc'
    rw [hkey]
    exact tickerOf_set_period defs
  obtain ⟨haccepted, hrefused⟩ := h.registered (h.tickers.set (named svc).id defs) hsame hperiod
  unfold Agent.registerHTTP
  split <;> rename_i hr
  · rw [hr] at hrefused
    exact hrefused (by simp)
  · rw [hr] at haccepted
    exact haccepted rfl

theorem reseed (h : Alive s) {seeds : Fin k → Memory}
    (hseeds : ∀ id dfn, s.proxy.hosted[id]? = some dfn →
      Served s.proxy s.seeds s.now (tickerOf s.monitor s.heartbeat id) id dfn → ∀ i,
        (seeds i).opts = (s.seeds i).opts ∧
          Kept (seeds i) s.proxy.node.id id s.now (tickerOf s.monitor s.heartbeat id).next
            (tickerOf s.monitor s.heartbeat id).period) : Alive { s with seeds := seeds } := by
  refine ⟨h.tickers, h.quorum, fun id dfn hdfn => ?_⟩
  have hserved := h.served id dfn hdfn
  have hseeds := hseeds id dfn hdfn hserved
  exact hserved.moved (fun i => (hseeds i).1) rfl fun i => (hseeds i).2

theorem elapse (h : Alive s) (d : Nat) (hquiet : s.quietUntil (s.now + d) = true) :
    Alive { s with now := s.now + d } := by
  simp only [Agent.quietUntil, Bool.and_eq_true, decide_eq_true_eq, List.all_eq_true] at hquiet
  obtain ⟨hheartbeat, hchecks⟩ := hquiet
  have hle : s.now ≤ s.now + d := le_add_of_nonneg_right (Int.natCast_nonneg d)
  refine ⟨⟨h.tickers.heartbeat.later hle hheartbeat, fun id st hst => ?_⟩, h.quorum,
    fun id dfn hdfn => ?_⟩
  · refine (h.tickers.checks id st hst).later hle (hchecks (id, st) ?_)
    exact Std.ExtTreeMap.mem_toList_iff_getElem?_eq_some.mpr hst
  · have hserved := h.served id dfn hdfn
    exact { hserved with kept := fun i => (hserved.kept i).later hle }

/-- All services on the list of a tick are known, so the list is gone through to the end. -/
theorem renews (h : Alive s) (order : RangeOrder String) {id : String}
    (hid : id ∈ tickIds s.proxy order s.monitor.active) (i : Fin k) :
    Renews (s.seeds i) s.proxy.node.id (tickIds s.proxy order s.monitor.active) id := by
  have hstored : ∀ id ∈ tickIds s.proxy order s.monitor.active,
      ((s.seeds i).service? s.proxy.node.id id).isSome := by
    intro id hid
    obtain ⟨dfn, hdfn⟩ := Option.isSome_iff_exists.mp
      (Std.ExtTreeMap.isSome_getElem?_iff_mem.mpr (mem_tickIds.mp hid).1)
    exact ((h.served id dfn hdfn).kept i).stored
  refine (renews_iff_not_starved (tickIds_nodup _) hid (hstored id hid)).mpr ?_
  rintro ⟨before, unknown, after, heq, hnone, -⟩
  have hunknown := hstored unknown (by rw [heq]; simp)
  rw [hnone] at hunknown
  cases hunknown

theorem heartbeat (h : Alive s) (hdue : s.heartbeat.next = s.now) (order : RangeOrder String) :
    Alive { s with heartbeat := s.heartbeat.tick
                   seeds := s.proxy.renewOnce order (some s.monitor.active) s.seeds s.fates } := by
  refine ⟨⟨h.tickers.heartbeat.tick hdue, h.tickers.checks⟩, h.quorum, fun id dfn hdfn => ?_⟩
  have hserved := h.served id dfn hdfn
  have hid : id ∈ s.proxy.hosted := Std.ExtTreeMap.isSome_getElem?_iff_mem.mp (by rw [hdfn]; rfl)
  have hseed : ∀ i, s.proxy.renewOnce order (some s.monitor.active) s.seeds s.fates i =
      if tickIds s.proxy order s.monitor.active = [] then s.seeds i
      else ((s.seeds i).renew (fun _ => s.now) s.proxy.node.id
        (tickIds s.proxy order s.monitor.active)).mem := fun i => renewOnce_seed hserved.node hid rfl
  have hopts : ∀ i, (s.proxy.renewOnce order (some s.monitor.active) s.seeds s.fates i).opts =
      (s.seeds i).opts := by
    intro i
    rw [hseed]
    split
    · rfl
    · exact exec_opts (.renew (fun _ => s.now) s.proxy.node.id _) (s.seeds i)
  dsimp only
  -- The tick leaves out what the monitor refreshes, and moves the lease of everything else.
  cases hst : s.monitor.services[id]? with
  | some st =>
    rw [tickerOf_checked _ hst] at hserved ⊢
    refine hserved.moved hopts rfl fun i => ?_
    rw [hseed]
    split
    · exact hserved.kept i
    · exact (hserved.kept i).renew (h.tickers.checks id st hst).near _
  | none =>
    have hlisted : id ∈ tickIds s.proxy order s.monitor.active := by
      refine mem_tickIds.mpr ⟨hid, fun gate hgate => ?_⟩
      rw [← Option.some.inj hgate, Monitor.active, Std.ExtTreeMap.contains_eq_isSome_getElem?, hst]
      rfl
    rw [tickerOf_unchecked _ hst] at hserved ⊢
    refine hserved.moved hopts rfl fun i => ?_
    rw [hseed, if_neg (List.ne_nil_of_mem hlisted)]
    exact (hserved.kept i).renew_listed (h.renews order hlisted i) (h.tickers.heartbeat.tick hdue).near

theorem renew (h : Alive s) (ids : List String) :
    Alive { s with seeds := (s.proxy.renew s.seeds ids s.fates).1 } := by
  refine h.reseed fun id dfn hdfn hserved i => ?_
  have hseed : (s.proxy.renew s.seeds ids s.fates).1 i =
      ((s.seeds i).renew (fun _ => s.now) s.proxy.node.id ids).mem := by
    rw [← callSeed_renew hserved.node ids (fun _ => s.now) true]
    unfold Proxy.renew
    dsimp only
    split <;> rfl
  rw [hseed]
  exact ⟨exec_opts (.renew (fun _ => s.now) s.proxy.node.id ids) (s.seeds i),
    (hserved.kept i).renew (h.tickers.tickerOf id).near ids⟩

theorem fits_kept (h : Alive s) {id : String} {svc : ServiceInstance}
    (hsvc : s.proxy.hosted[id]? = some svc) (i : Fin k) :
    Fits (s.seeds i) s.proxy.node.id [svc] := by
  have hserved := h.served id svc hsvc
  have hstored := Option.isSome_iff_ne_none.mp (hserved.kept i).stored
  refine Or.inl ?_
  simp only [needed, List.map_singleton, hserved.key]
  exact Finset.filter_eq_empty_iff.mpr fun s hs => by
    rw [List.mem_toFinset, List.mem_singleton] at hs
    rw [hs]
    exact hstored

theorem keepAlive (h : Alive s) {id : String} {st : SvcState} (hst : s.monitor.services[id]? = some st)
    (hdue : st.ticker.next = s.now) :
    Alive { s with monitor := s.monitor.tick id,
                   seeds := (s.proxy.keepAlive s.seeds id s.fates).1 } := by
  refine ⟨h.tickers.tick hst hdue, h.quorum, fun id' dfn hdfn => ?_⟩
  have hserved := h.served id' dfn hdfn
  dsimp only at hdfn ⊢
  rw [keepAlive_seeds, tickerOf_tick hst]
  cases hsvc : s.proxy.hosted[id]? with
  | none =>
    have hid : id ≠ id' := by
      rintro rfl
      rw [hsvc] at hdfn
      cases hdfn
    rw [if_neg hid]
    exact hserved
  | some svc =>
    have hself := h.served id svc hsvc
    have hnames : ∀ svc' ∈ [svc], svc'.name ≠ "" := by simpa using hself.name
    have hopts :
        ∀ i, ((registerAll s.seeds (single s.proxy.node svc svc.generation) s.fates).1 i).opts =
        (s.seeds i).opts := registerAll_opts
    dsimp only
    by_cases hid : id = id'
    · subst hid
      obtain rfl := Option.some.inj (hsvc.symm.trans hdfn)
      rw [tickerOf_checked _ hst] at hserved
      rw [if_pos rfl]
      refine hserved.moved hopts rfl fun i => ?_
      refine registerAll_kept hserved.node hnames (h.fits_kept hsvc i)
        ((h.tickers.checks id st hst).tick hdue) (fun hnot => ?_) fun svc' hsvc' _ => ?_
      · exact absurd (by simp [single, hserved.key]) hnot
      · obtain rfl := List.mem_singleton.mp hsvc'
        obtain ⟨old, hold, hholds⟩ := hserved.kept i
        refine ⟨hserved.grants i, fun old' hold' => ?_⟩
        obtain rfl := Option.some.inj (hold.symm.trans hold')
        exact hholds.alive
    · rw [if_neg hid]
      refine hserved.moved hopts rfl fun i => ?_
      refine registerAll_kept hserved.node hnames (h.fits_kept hsvc i) (h.tickers.tickerOf id')
        (fun _ => hserved.kept i) fun svc' hsvc' hkey => ?_
      -- The check registers no other service.
      obtain rfl := List.mem_singleton.mp hsvc'
      exact absurd (hself.key.symm.trans hkey) hid

theorem check (h : Alive s) {id : String} {answers : Definition → Bool}
    (hpass : ∀ st, s.monitor.services[id]? = some st → s.monitor.healthy st answers = true) :
    Alive (s.check id answers) := by
  unfold Agent.check
  split <;> rename_i hst
  · exact h
  · split <;> rename_i hdue
    · dsimp only
      rw [if_pos (hpass _ hst)]
      exact h.keepAlive hst hdue
    · exact h

theorem unhosted (h : Alive s) {id : String} {seeds : Fin k → Memory} {monitor : Monitor}
    (hon : TickersOn s.now monitor s.heartbeat)
    (hsame : ∀ id', id ≠ id' → monitor.services[id']? = s.monitor.services[id']?)
    (hseeds : s.proxy.node.id ≠ "" →
      ∀ i, seeds i = ((s.seeds i).deregisterService s.proxy.node.id id).mem) :
    Alive { s with proxy := { s.proxy with hosted := s.proxy.hosted.erase id }, seeds := seeds
                   monitor := monitor } := by
  refine ⟨hon, h.quorum, fun id' dfn hdfn => ?_⟩
  dsimp only at hdfn ⊢
  simp only [Std.ExtTreeMap.getElem?_erase, Std.compare_eq_iff_eq] at hdfn
  split at hdfn <;> rename_i hid
  · cases hdfn
  · have hserved := h.served id' dfn hdfn
    rw [tickerOf_congr s.heartbeat (hsame id' hid)]
    have hmoved : Served s.proxy seeds s.now (tickerOf s.monitor s.heartbeat id') id' dfn := by
      refine hserved.moved (fun i => ?_) rfl fun i => ?_ <;> rw [hseeds hserved.node i]
      · exact exec_opts (.deregisterService s.proxy.node.id id) (s.seeds i)
      · exact (hserved.kept i).deregisterService hid
    exact { hmoved with node := hmoved.node }

theorem seedDoes (h : Alive s) (i : Fin k) (f : Memory → Memory)
    (hopts : (f (s.seeds i)).opts = (s.seeds i).opts)
    (hkept : ∀ id dfn, s.proxy.hosted[id]? = some dfn →
      Kept (s.seeds i) s.proxy.node.id id s.now (tickerOf s.monitor s.heartbeat id).next
        (tickerOf s.monitor s.heartbeat id).period →
      Kept (f (s.seeds i)) s.proxy.node.id id s.now (tickerOf s.monitor s.heartbeat id).next
        (tickerOf s.monitor s.heartbeat id).period) : Alive (s.seedDoes i f) := by
  refine h.reseed fun id dfn hdfn hserved j => ?_
  by_cases hj : j = i
  · subst hj
    rw [Function.update_self]
    exact ⟨hopts, hkept id dfn hdfn (hserved.kept j)⟩
  · rw [Function.update_of_ne hj]
    exact ⟨rfl, hserved.kept j⟩

end Alive

/-! ## Runs -/

/-- The step is as the agent and its checks would have it: no probe fails, nobody else writes to
the agent's node, and what peers send of it is not newer. -/
def Action.Undisturbed {k : Nat} (s : Agent k) : Action k → Prop
  | .check id answers =>
    ∀ st, s.monitor.services[id]? = some st → s.monitor.healthy st answers = true
  | .merge i _ es => ∀ e ∈ es, e.node.id = s.proxy.node.id → ¬ Leads (s.seeds i) e
  | .foreign _ _ n _ => n ≠ s.proxy.node.id
  | _ => True

/-- Every seed grants what is registered the period it will be refreshed at. -/
def Action.Granted {k : Nat} (s : Agent k) : Action k → Prop
  | .registerGRPC reg => ∀ i, Grants (s.seeds i) s.proxy.node.id reg.services fun id =>
    (tickerOf s.monitor s.heartbeat id).period
  | .registerHTTP svc defs => ∀ i, Grants (s.seeds i) s.proxy.node.id [named svc] fun _ =>
    refreshPeriod s.heartbeat defs
  | _ => True

namespace Alive

variable {k : Nat} {s : Agent k}

theorem removed (h : Alive s) {id : String} (hid : id ≠ "") {monitor : Monitor}
    (hon : TickersOn s.now monitor s.heartbeat)
    (hsame : ∀ id', id ≠ id' → monitor.services[id']? = s.monitor.services[id']?) :
    Alive { s with proxy := { s.proxy with hosted := s.proxy.hosted.erase id }
                   seeds := (fanOut (fun m _ => Server.deregisterService m s.proxy.node.id id)
                     s.seeds s.fates).1
                   monitor := monitor } := by
  refine h.unhosted hon hsame fun hn i => ?_
  simp [fanOut, callSeed, Agent.fates, Server.deregisterService, Server.reply, hn, hid]

theorem deregister (h : Alive s) (order : RangeOrder String) : Alive (s.step (.deregister order)) := by
  have hhosted : (s.step (.deregister order)).proxy = { s.proxy with hosted := ∅ } := by
    simp only [Agent.step, Proxy.deregister]
    split <;> rfl
  refine ⟨h.tickers, by rw [hhosted]; exact h.quorum, fun id dfn hdfn => ?_⟩
  rw [hhosted] at hdfn
  simp at hdfn

theorem step (h : Alive s) (a : Action k) (hundisturbed : a.Undisturbed s) (hgranted : a.Granted s) :
    Alive (s.step a) := by
  cases a with
  | elapse d =>
    simp only [Agent.step]
    split <;> rename_i hquiet
    · exact h.elapse d hquiet
    · exact h
  | registerGRPC reg => exact h.registerGRPC hgranted
  | registerHTTP svc defs => exact h.registerHTTP hgranted
  | heartbeat order =>
    simp only [Agent.step]
    split <;> rename_i hdue
    · exact h.heartbeat hdue order
    · exact h
  | check id answers => exact h.check hundisturbed
  | renew ids => exact h.renew ids
  | removeGRPC id =>
    simp only [Agent.step]
    rcases removeService_cases s.proxy s.seeds id s.fates with ⟨err, hr⟩
      | ⟨ret, hid, hr⟩ <;> rw [hr]
    · exact h
    · exact h.removed hid h.tickers fun _ _ => rfl
  | removeHTTP id =>
    simp only [Agent.step]
    rcases removeService_cases s.proxy s.seeds id s.fates with ⟨err, hr⟩
      | ⟨ret, hid, hr⟩ <;> rw [hr]
    · exact h
    · cases ret with
      | some err => exact h.removed hid h.tickers fun _ _ => rfl
      | none =>
        refine h.removed hid (h.tickers.remove id) fun id' hne => ?_
        simp [Monitor.remove, Std.ExtTreeMap.getElem?_erase, hne]
  | deregister order => exact h.deregister order
  | gc i order =>
    refine h.seedDoes i (fun m => (m.gc (fun _ => s.now) order).mem) ?_ fun id dfn _ hkept => ?_
    · exact exec_opts (.gc (fun _ => s.now) order) (s.seeds i)
    · exact hkept.gc (h.tickers.tickerOf id).due order
  | merge i clk es =>
    refine h.seedDoes i (fun m => (m.merge clk es).mem) ?_ fun id dfn _ hkept => ?_
    · exact exec_opts (.merge clk es) (s.seeds i)
    · exact hkept.merge clk fun e he hn _ => hundisturbed e he hn
  | foreign i c n htarget =>
    refine h.seedDoes i (fun m => (c.exec m).1) ?_ fun id dfn _ hkept => ?_
    · exact exec_opts c (s.seeds i)
    · exact hkept.exec htarget hundisturbed.symm

end Alive

/-- If no step disturbs the agent and every registration is granted the period of its refreshes, no
passing service ever loses its lease. -/
theorem passing_service_keeps_lease {k : Nat} (cfg : Config) (node : Node) (quorum : Int)
    (enableScript : Bool) (now : Time) (seeds : Fin k → Memory) (actions : List (Action k))
    (hundisturbed : Throughout Agent.step (fun s a => a.Undisturbed s)
      (start cfg node quorum enableScript now seeds) actions)
    (hgranted : Throughout Agent.step (fun s a => a.Granted s)
      (start cfg node quorum enableScript now seeds) actions) :
    Passing (actions.foldl Agent.step (start cfg node quorum enableScript now seeds)) := by
  have hboth := hundisturbed.and hgranted
  refine (hboth.keeps Alive (Alive.start cfg node quorum enableScript now seeds) ?_).passing
  exact fun s a ha h => h.step a ha.1 ha.2

def defaultConfig : Config where
  ttl := 30 * second
  heartbeatInterval := 10 * second
  ttl_pos := by decide
  heartbeat_pos := by decide
  heartbeat_lt_ttl := by decide

/-- A service that the heartbeat refreshes and one that its check refreshes, one tick of each. -/
def twoRefreshes : List (Action 1) :=
  [.registerHTTP { id := "web", name := "web" } [],
    .registerHTTP { id := "api", name := "api" } [{ kind := .http, interval := 5 * second }],
    .elapse 5000000000, .check "api" fun _ => true, .elapse 5000000000,
    .heartbeat RangeOrder.asStored]

theorem passing_service_keeps_lease_refreshed :
    let s := twoRefreshes.foldl Agent.step
        (start defaultConfig { id := "n" } 1 true 0 fun _ => newMemory {})
    s.now = 10 * second ∧ s.proxy.hosted.keys = ["api", "web"] ∧ Passing s := by
  refine ⟨by decide, by decide, passing_service_keeps_lease defaultConfig { id := "n" } 1 true 0
    (fun _ => newMemory {}) twoRefreshes ?_ ?_⟩
  · refine ⟨trivial, trivial, trivial, fun st _ => ?_, trivial, trivial, trivial⟩
    refine List.all_eq_true.mpr fun d _ => ?_
    unfold probe
    split <;> rfl
  · exact ⟨fun i => ⟨by decide +revert, by decide +revert, by decide +revert⟩,
      fun i => ⟨by decide +revert, by decide +revert, by decide +revert⟩, trivial, trivial,
        trivial, trivial,
      trivial⟩

/-- A service asks for a TTL of five seconds and is renewed every ten. -/
theorem passing_service_loses_lease :
    ¬ ∀ (cfg : Config) (node : Node) (quorum : Int) (enableScript : Bool) (now : Time)
      (seeds : Fin 1 → Memory) (actions : List (Action 1)),
      Throughout Agent.step (fun s a => a.Undisturbed s)
        (start cfg node quorum enableScript now seeds) actions →
      Passing (actions.foldl Agent.step (start cfg node quorum enableScript now seeds)) := by
  intro h
  let actions : List (Action 1) :=
    [.registerHTTP { id := "web", name := "web", ttl := 5 * second } [], .elapse 6000000000]
  let s := actions.foldl Agent.step (start defaultConfig { id := "n" } 1 false 0 fun _ => newMemory {})
  obtain ⟨svc, hsvc, hlease⟩ :=
    h defaultConfig { id := "n" } 1 false 0 (fun _ => newMemory {}) actions
    ⟨trivial, trivial, trivial⟩ "web" (by decide) 0
  have hlapsed : ((s.seeds 0).service? "n" "web").map ((s.seeds 0).opts.lease · s.now) =
      some (.critical, true) := by decide
  rw [show (s.seeds 0).service? "n" "web" = some svc from hsvc, Option.map_some,
    show (s.seeds 0).opts.lease svc s.now = _ from hlease] at hlapsed
  cases hlapsed

end YellowPages.Healthcheck
