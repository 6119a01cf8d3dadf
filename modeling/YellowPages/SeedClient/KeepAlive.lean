import YellowPages.Lib.Trace
import YellowPages.SeedClient.Proxy
import YellowPages.Store.Settle

/-!
# Keep-alives

`KeepAlive` registers a hosted service again. The definition goes to the agent, is remembered there,
and goes over the wire and through the defaults of a seed once more.
-/

namespace YellowPages.SeedClient

open Lib Store Wire Server

/-! ## What the agent remembers -/

/-- The registration `RegisterServices` sends for a request. -/
def Proxy.sends (p : Proxy) (reg : Registration) : Registration :=
  { reg with node := p.node, services := reg.services.map named }

theorem sends_of_prepare {p : Proxy} {reg sent : Registration} (h : p.prepare reg = .ok sent) :
    sent = p.sends reg := (prepare_ok h).1

theorem under_map {f : ServiceInstance → ServiceInstance} (hf : ∀ s, serviceId (f s) = serviceId s)
    (id : String) (l : List ServiceInstance) : under id (l.map f) = (under id l).map f := by
  rw [under, List.filter_map]
  simp only [Function.comp_def, hf]
  rfl

theorem host_last (p : Proxy) (reg : Registration) (id : String) :
    (p.host reg).hosted[id]? = ((reg.services.filter (·.id = id)).getLast?.map
      fun s => { s with generation := reg.generation }).or p.hosted[id]? := by
  have hfold :=
    getElem?_foldl_insert ServiceInstance.id (fun s => { s with generation := reg.generation })
    reg.services p.hosted id
  exact hfold

/-- A hosted service is the last one of the request under its id. -/
theorem hosted_of_accepted {k : Nat} {p : Proxy} {seeds : Fin k → Memory} {reg : Registration}
    {fates : Fin k → Fate} {id : String} (h : (p.registerServices seeds reg fates).2.2 = none)
    (hid : id ∈ reg.services.map serviceId) :
    ∃ last, (under id reg.services).getLast? = some last ∧ last.name ≠ "" ∧
      p.registerServices seeds reg fates =
        (p.host (p.sends reg), (registerAll seeds (p.sends reg) fates).1, none) ∧
      (p.registerServices seeds reg fates).1.hosted[id]? =
        some { named last with generation := reg.generation } := by
  rcases registerServices_cases p seeds reg fates with ⟨err, -, hr⟩
    | ⟨sent, hsent, ⟨-, hr⟩ | ⟨-, err, hr⟩⟩
  · rw [hr] at h
    cases h
  · obtain rfl := sends_of_prepare hsent
    have hnames := (prepare_ok hsent).2
    obtain ⟨svc, hsvc, hsvcId⟩ := List.mem_map.mp hid
    have hmem : svc ∈ under id reg.services := List.mem_filter.mpr ⟨hsvc, by simpa using hsvcId⟩
    obtain ⟨last, hlast⟩ : ∃ last, (under id reg.services).getLast? = some last :=
      ⟨_, List.getLast?_eq_some_getLast (List.ne_nil_of_mem hmem)⟩
    have hname := hnames last (List.mem_of_mem_filter (List.mem_of_getLast? hlast))
    refine ⟨last, hlast, hname, hr, ?_⟩
    have hfilter :
        (reg.services.map named).filter (·.id = id) = (under id reg.services).map named := by
      rw [List.filter_map]
      rfl
    rw [hr, host_last]
    simp only [Proxy.sends, hfilter, List.getLast?_map, hlast]
    rfl
  · rw [hr] at h
    cases h

/-! ## What a seed makes of it -/

/-- The hosted definition and the one of the request are the same to a seed. -/
theorem stamp_hosted (o : Options) (now : Time) (generation generation' : Nat) (s : ServiceInstance) :
    stamp o now generation (wireService { named s with generation := generation' }) =
      stamp o now generation (wireService s) := by
  simp only [stamp, wireService, serviceFromProto, serviceToProto]
  congr 1
  exact serviceId_named s

theorem stamp_named (o : Options) (now : Time) (generation : Nat) (s : ServiceInstance) :
    stamp o now generation (wireService (named s)) = stamp o now generation (wireService s) :=
  stamp_hosted o now generation s.generation s

/-- The seed processes the request and returns no error. -/
def Accepts (m : Memory) (clk : Nat → Time) (reg : Registration) : Prop :=
  (Server.register m clk (some (registrationToProto reg))).ret = none

instance (m : Memory) (clk : Nat → Time) (reg : Registration) : Decidable (Accepts m clk reg) :=
  inferInstanceAs (Decidable (_ = _))

theorem accepts_iff (m : Memory) (clk : Nat → Time) (reg : Registration) :
    Accepts m clk reg ↔ (m.register clk (wireRegistration reg)).ret = none := by
  rw [Accepts, server_register, reply, Option.map_eq_none_iff]

theorem node_ne_of_accepts {p : Proxy} {m : Memory} {clk : Nat → Time} {reg : Registration}
    (h : Accepts m clk (p.sends reg)) : p.node.id ≠ "" :=
  (wellFormed_of_accepted ((accepts_iff _ _ _).mp h)).1

/-- What a seed that accepts the request holds under an id of it. -/
theorem accepted_defn? {p : Proxy} {m : Memory} {clk : Nat → Time} {reg : Registration}
    (h : Accepts m clk (p.sends reg)) (id : String) :
    (Server.register m clk (some (registrationToProto (p.sends reg)))).mem.defn? p.node.id id =
      settledAll m.opts (clk 0) reg.generation (m.defn? p.node.id id)
        ((under id reg.services).map fun s => wireService (named s)) := by
  have hdefn := register_defn? ((accepts_iff _ _ _).mp h) id
  have hunder : under id (wireRegistration (p.sends reg)).services =
      (under id reg.services).map fun s => wireService (named s) := by
    rw [wireRegistration, Proxy.sends]
    simp only [List.map_map]
    exact under_map (f := fun s => wireService (named s)) serviceId_named id reg.services
  rw [server_register]
  rw [hunder] at hdefn
  exact hdefn

/-! ## One keep-alive -/

section Once

variable {n s : String} {m : Memory} {node : Node} {svc : ServiceInstance} {generation : Nat}

/-- What one seed makes of a keep-alive. -/
inductive KeepAliveTurn (m : Memory) (n s : String) (dfn : ServiceInstance) (now : Time)
    (o : Outcome (Option Status)) : Prop where
  | refresh {old : ServiceRec} (hold : m.service? n s = some old)
      (hsame : Store.changed old.defn dfn = false)
      (hnew : o.mem.service? n s = some (old.refreshed now)) (hindex : o.mem.index = m.index)
      (hevents : o.events = [])
  | rewrite {old : ServiceRec} (hold : m.service? n s = some old)
      (hchanged : Store.changed old.defn dfn = true)
  | create {new : ServiceRec} (hold : m.service? n s = none) (hnew : o.mem.service? n s = some new)
      (hdefn : new.defn = dfn)
  | full (hold : m.service? n s = none) (hfull : m.opts.atCapacity m.sizeLocked = true)
      (hnew : o.mem.service? n s = none)

theorem keepAlive_turn (m : Memory) (clk : Nat → Time) (hn : node.id ≠ "") (hname : svc.name ≠ "") :
    KeepAliveTurn m node.id (serviceId svc) (stamp m.opts (clk 0) generation (wireService svc)) (clk 0)
      (Server.register m clk (some (registrationToProto (single node svc generation)))) := by
  have hname' : (wireService svc).name ≠ "" := hname
  have hsingle :
      wireRegistration (single node svc generation) = single node (wireService svc) generation := rfl
  rw [server_register, hsingle]
  cases hold : m.service? node.id (serviceId svc) with
  | some old =>
    cases hchanged : Store.changed old.defn (stamp m.opts (clk 0) generation (wireService svc)) with
    | true => exact .rewrite hold hchanged
    | false =>
      rw [register_same hn hname' hold hchanged]
      obtain ⟨r, hr, -⟩ := hasMeta_setMeta m node
      refine .refresh hold hchanged ?_ rfl rfl
      exact (Memory.service?_setService hr node.id (serviceId svc)).trans (if_pos ⟨rfl, rfl⟩)
  | none =>
    rcases register_single m clk node (wireService svc) generation hn hname' with
      ⟨-, new, hnew, hdefn⟩ | ⟨-, hfull, -, hnone⟩
    · have hbefore : m.service? node.id (stamp m.opts (clk 0) generation (wireService svc)).id =
        none := hold
      rw [hbefore] at hdefn
      exact .create hold hnew hdefn
    · exact .full hold hfull hnone

end Once

/-! ## What happens to the seeds after the registration -/

inductive SeedAction (k : Nat) where
  | keepAlive (fates : Fin k → Fate)
  /-- Calls of others, or a seed loses what it holds. -/
  | other (seeds : Fin k → Memory)

variable {k : Nat} (p : Proxy) (id : String)

def Proxy.turn (seeds : Fin k → Memory) : SeedAction k → Fin k → Memory
  | .keepAlive fates => (p.keepAlive seeds id fates).1
  | .other seeds => seeds

/-- What a seed announces for a keep-alive that reaches it. -/
def Proxy.keepAliveEvents (m : Memory) (clk : Nat → Time) : List ChangeEvent :=
  match p.keepAliveRegistration id with
  | none => []
  | some reg => (Server.register m clk (some (registrationToProto reg))).events

/-- No other write to the service or its node, save that a seed can lose the service. -/
def Spares (seeds : Fin k → Memory) : SeedAction k → Prop
  | .keepAlive _ => True
  | .other later => ∀ i, (later i).opts = (seeds i).opts ∧
      ((later i).nodes[p.node.id]? = (seeds i).nodes[p.node.id]? ∨
        (later i).service? p.node.id id = none)

/-- Seed `i` does not lose the service. -/
def Retains (i : Fin k) (seeds : Fin k → Memory) : SeedAction k → Prop
  | .keepAlive _ => True
  | .other later =>
    (later i).opts = (seeds i).opts ∧ (later i).nodes[p.node.id]? = (seeds i).nodes[p.node.id]?

/-- What a seed without the service settles on has the metadata of the last service that the request
lists under the id. -/
def LastTold (o : Options) (reg : Registration) (id : String) : Prop :=
  ∀ last ∈ (under id reg.services).getLast?,
    ∀ d ∈ settledAll o 0 reg.generation none ((under id reg.services).map wireService),
      d.metadata = last.metadata

instance (o : Options) (reg : Registration) (id : String) : Decidable (LastTold o reg id) :=
  inferInstanceAs (Decidable (∀ last ∈ _, ∀ d ∈ _, _ = _))

variable {p id}

/-- The agent keeps `last` alive under the id. -/
structure Keeps (p : Proxy) (id : String) (last : ServiceInstance) (generation : Nat) : Prop where
  hosted : p.hosted[id]? = some { named last with generation := generation }
  node : p.node.id ≠ ""
  name : last.name ≠ ""
  id : serviceId last = id

section Run

variable {last : ServiceInstance} {generation : Nat}

theorem keepAlive_seed (hkeeps : Keeps p id last generation) (seeds : Fin k → Memory)
    (fates : Fin k → Fate) (i : Fin k) : (p.keepAlive seeds id fates).1 i =
      match fates i with
      | .lost => seeds i
      | .processed clk _ => (Server.register (seeds i) clk (some (registrationToProto
          (single p.node { named last with generation := generation } generation)))).mem := by
  rw [keepAlive_seeds, hkeeps.hosted]
  simp only [registerAll, deliver]
  cases fates i <;> rfl

theorem keepAlive_processed (hkeeps : Keeps p id last generation) {fates : Fin k → Fate} {i : Fin k}
    {clk : Nat → Time} {replied : Bool} (hfate : fates i = .processed clk replied)
    (seeds : Fin k → Memory) :
    (p.keepAlive seeds id fates).1 i = (Server.register (seeds i) clk (some (registrationToProto
      (single p.node { named last with generation := generation } generation)))).mem := by
  rw [keepAlive_seed hkeeps, hfate]

theorem keepAliveEvents_eq (hkeeps : Keeps p id last generation) (m : Memory) (clk : Nat → Time) :
    p.keepAliveEvents id m clk = (Server.register m clk (some (registrationToProto
      (single p.node { named last with generation := generation } generation)))).events := by
  rw [Proxy.keepAliveEvents, Proxy.keepAliveRegistration, hkeeps.hosted]
  rfl

theorem keepAlive_seed_turn (hkeeps : Keeps p id last generation) (m : Memory) (clk : Nat → Time) :
    KeepAliveTurn m p.node.id id (stamp m.opts (clk 0) generation (wireService last)) (clk 0)
      (Server.register m clk (some (registrationToProto
        (single p.node { named last with generation := generation } generation)))) := by
  let svc : ServiceInstance := { named last with generation := generation }
  have hturn :
      KeepAliveTurn m p.node.id (serviceId svc)
        (stamp m.opts (clk 0) generation (wireService svc)) (clk 0)
      (Server.register m clk (some (registrationToProto (single p.node svc generation)))) :=
    keepAlive_turn m clk hkeeps.node hkeeps.name
  have hid : serviceId svc = id := (serviceId_named last).trans hkeeps.id
  rwa [stamp_hosted, hid] at hturn

theorem keepAlive_opts (hkeeps : Keeps p id last generation) (seeds : Fin k → Memory)
    (fates : Fin k → Fate) (i : Fin k) :
    ((p.keepAlive seeds id fates).1 i).opts = (seeds i).opts := by
  rw [keepAlive_seed hkeeps]
  cases fates i with
  | lost => rfl
  | processed clk replied => exact exec_opts (.register clk _) (seeds i)

/-- What the seed holds under the id is no news to it. -/
structure Settled (o : Options) (p : Proxy) (id : String) (last : ServiceInstance) (generation : Nat)
    (m : Memory) : Prop where
  opts : m.opts = o
  same : ∀ svc, m.service? p.node.id id = some svc →
    Store.changed svc.defn (stamp o 0 generation (wireService last)) = false

theorem Settled.turn {o : Options} {seeds : Fin k → Memory} {i : Fin k}
    (hkeeps : Keeps p id last generation) (h : Settled o p id last generation (seeds i))
    {a : SeedAction k} (ha : Spares p id seeds a) :
    Settled o p id last generation (p.turn id seeds a i) := by
  cases a with
  | other later =>
    obtain ⟨hopts, hnode | hlost⟩ := ha i
    · refine ⟨hopts.trans h.opts, fun svc hsvc => h.same svc ?_⟩
      rw [Memory.service?, ← hnode]
      exact hsvc
    · refine ⟨hopts.trans h.opts, fun svc hsvc => ?_⟩
      rw [Proxy.turn, hlost] at hsvc
      cases hsvc
  | keepAlive fates =>
    refine ⟨(keepAlive_opts hkeeps seeds fates i).trans h.opts, fun svc hsvc => ?_⟩
    rw [Proxy.turn, keepAlive_seed hkeeps] at hsvc
    cases hfate : fates i with
    | lost =>
      rw [hfate] at hsvc
      exact h.same svc hsvc
    | processed clk replied =>
      rw [hfate] at hsvc
      cases keepAlive_seed_turn hkeeps (seeds i) clk with
      | @refresh old hold _ hnew _ _ =>
        rw [hnew] at hsvc
        obtain rfl := Option.some.inj hsvc
        exact h.same old hold
      | rewrite hold hchanged =>
        have hsame := h.same _ hold
        rw [h.opts] at hchanged
        cases hsame.symm.trans hchanged
      | create _ hnew hdefn =>
        rw [hnew] at hsvc
        obtain rfl := Option.some.inj hsvc
        rw [hdefn, h.opts]
        exact changed_self (stamp o (clk 0) generation (wireService last))
      | full _ _ hnew =>
        rw [hnew] at hsvc
        cases hsvc

/-- A seed that holds the service gets a new lease time and nothing else. -/
theorem Settled.refreshes {o : Options} {m : Memory} (hkeeps : Keeps p id last generation)
    (h : Settled o p id last generation m) {svc : ServiceRec}
    (hsvc : m.service? p.node.id id = some svc) (clk : Nat → Time) :
    let after := Server.register m clk (some (registrationToProto
      (single p.node { named last with generation := generation } generation)))
    after.mem.service? p.node.id id = some (svc.refreshed (clk 0)) ∧ after.mem.index = m.index ∧
      after.events = [] := by
  intro after
  cases keepAlive_seed_turn hkeeps m clk with
  | refresh hold _ hnew hindex hevents =>
    obtain rfl := Option.some.inj (hold.symm.trans hsvc)
    exact ⟨hnew, hindex, hevents⟩
  | rewrite hold hchanged =>
    have hsame := h.same _ hold
    rw [h.opts] at hchanged
    cases hsame.symm.trans hchanged
  | create hold _ _ => cases hold.symm.trans hsvc
  | full hold _ _ => cases hold.symm.trans hsvc

/-- As long as the seed does not lose the service, its record only gets new lease times. -/
theorem Settled.retained {o : Options} {seeds : Fin k → Memory} {i : Fin k} {old : ServiceRec}
    (hkeeps : Keeps p id last generation) (h : Settled o p id last generation (seeds i))
    (hold : (seeds i).service? p.node.id id = some old) (actions : List (SeedAction k))
    (hrun : Throughout (p.turn id) (Retains p i) seeds actions) :
    ∃ t, (actions.foldl (p.turn id) seeds i).service? p.node.id id = some (old.refreshed t) := by
  refine (hrun.keeps (fun seeds => Settled o p id last generation (seeds i) ∧
    ∃ t, (seeds i).service? p.node.id id = some (old.refreshed t)) ⟨h, old.defn.lastSeen,
      hold⟩ ?_).2
  rintro seeds a ha ⟨h, t, ht⟩
  cases a with
  | other later =>
    have hservice : ∀ s, (later i).service? p.node.id s = (seeds i).service? p.node.id s := by
      intro s
      rw [Memory.service?, Memory.service?, ha.2]
    exact ⟨⟨ha.1.trans h.opts, fun svc hsvc => h.same svc ((hservice id).symm.trans hsvc)⟩, t,
      (hservice id).trans ht⟩
  | keepAlive fates =>
    refine ⟨h.turn hkeeps (a := .keepAlive fates) trivial, ?_⟩
    rw [Proxy.turn, keepAlive_seed hkeeps]
    cases fates i with
    | lost => exact ⟨t, ht⟩
    | processed clk replied => exact ⟨clk 0, (h.refreshes hkeeps ht clk).1⟩

end Run

theorem accepted_settles {m : Memory} {clk : Nat → Time} {reg : Registration} {last : ServiceInstance}
    (hlast : (under id reg.services).getLast? = some last) (h : Accepts m clk (p.sends reg)) :
    ∃ old, (Server.register m clk (some (registrationToProto (p.sends reg)))).mem.service? p.node.id
      id = some old ∧
      Store.changed old.defn (stamp m.opts (clk 0) reg.generation (wireService last)) = false ∧
      (m.service? p.node.id id = none →
        settledAll m.opts (clk 0) reg.generation none ((under id reg.services).map wireService) =
          some old.defn) := by
  have hdefn := accepted_defn? h id
  have hlast' : ((under id reg.services).map fun s => wireService (named s)).getLast? =
      some (wireService (named last)) := by
    rw [List.getLast?_map, hlast]
    rfl
  have hsettled : ∃ d, settledAll m.opts (clk 0) reg.generation (m.defn? p.node.id id)
        ((under id reg.services).map fun s => wireService (named s)) = some d ∧
      Store.changed d (stamp m.opts (clk 0) reg.generation (wireService (named last))) = false :=
    not_changed_of_last hlast'
  obtain ⟨d, hd, hsame⟩ := hsettled
  rw [stamp_named] at hsame
  rw [hd] at hdefn
  obtain ⟨old, hold, rfl⟩ := Option.map_eq_some_iff.mp hdefn
  refine ⟨old, hold, hsame, fun hnone => ?_⟩
  rw [Memory.defn?, hnone] at hd
  simp only [Option.map_none, settledAll, List.foldl_map, stamp_named] at hd ⊢
  exact hd

/-- What a seed without the service stores of the request is what the agent remembers. -/
theorem stored_eq {m : Memory} {clk : Nat → Time} {reg : Registration} {last : ServiceInstance}
    (hlast : (under id reg.services).getLast? = some last) (htold : LastTold m.opts reg id)
    (hnone : m.service? p.node.id id = none) (haccepts : Accepts m clk (p.sends reg)) :
    ∃ old, (Server.register m clk (some (registrationToProto (p.sends reg)))).mem.service? p.node.id
      id = some old ∧
      old.defn = stamp m.opts (clk 0) reg.generation (wireService last) := by
  obtain ⟨old, hold, hsame, hstored⟩ := accepted_settles hlast haccepts
  have hsettled := hstored hnone
  obtain ⟨s', hs', hdefn⟩ := mem_of_settledAll hsettled
  obtain ⟨s, hs, rfl⟩ := List.mem_map.mp hs'
  have hmetadata : s.metadata = last.metadata := by
    rw [settledAll_at 0] at hsettled
    obtain ⟨d, hd, hdefn'⟩ := Option.map_eq_some_iff.mp hsettled
    have hstored := congrArg ServiceInstance.metadata (hdefn.symm.trans hdefn'.symm)
    rw [← htold last hlast d hd]
    exact hstored
  have hmem : ∀ x ∈ under id reg.services, serviceId x = id :=
    fun x hx => by simpa using (List.mem_filter.mp hx).2
  have hids : serviceId (wireService s) = serviceId (wireService last) :=
    (hmem s hs).trans (hmem last (List.mem_of_getLast? hlast)).symm
  rw [hdefn] at hsame
  exact ⟨old, hold, hdefn.trans (stamp_eq_of_not_changed hsame hids hmetadata)⟩

/-- A seed that holds the service: a keep-alive changes its lease time and nothing else. -/
def Refreshes (agent : Proxy) (id : String) (m after : Memory) (clk : Nat → Time) : Prop :=
  ∀ svc, m.service? agent.node.id id = some svc →
    after.service? agent.node.id id = some (svc.refreshed (clk 0)) ∧ after.index = m.index ∧
      agent.keepAliveEvents id m clk = []

/-- A seed without the service and with room for it: a keep-alive leaves what a seed like that would
store of the request, whatever else that seed holds. -/
def Recreates (agent : Proxy) (reg : Registration) (id : String) (m after : Memory)
    (clk : Nat → Time) : Prop :=
  m.service? agent.node.id id = none → m.opts.atCapacity m.sizeLocked = false →
    ∀ (like : Memory) (clk' : Nat → Time), like.opts = m.opts →
      like.service? agent.node.id id = none →
      Accepts like clk' (agent.sends reg) →
        ∃ new old, after.service? agent.node.id id = some new ∧
          (Server.register like clk' (some (registrationToProto (agent.sends reg)))).mem.service?
            agent.node.id id =
            some old ∧ new.defn = { old.defn with lastSeen := clk 0 }

theorem Spares.opts {last : ServiceInstance} {generation : Nat} {registered : Fin k → Memory}
    {actions : List (SeedAction k)} (hkeeps : Keeps p id last generation)
    (hrun : Throughout (p.turn id) (Spares p id) registered actions) (i : Fin k) :
    (actions.foldl (p.turn id) registered i).opts = (registered i).opts := by
  refine hrun.keeps (fun seeds => (seeds i).opts = (registered i).opts) rfl ?_
  intro seeds a ha h
  cases a with
  | other later => exact (ha i).1.trans h
  | keepAlive fates => exact (keepAlive_opts hkeeps seeds fates i).trans h

/-- A seed that accepted the request has settled on what the agent keeps alive. -/
theorem settled_of_accepts {m : Memory} {clk : Nat → Time} {reg : Registration}
    {last : ServiceInstance} (hlast : (under id reg.services).getLast? = some last)
    (h : Accepts m clk (p.sends reg)) :
    let after := (Server.register m clk (some (registrationToProto (p.sends reg)))).mem
    Settled m.opts p id last reg.generation after ∧
      ∃ old, after.service? p.node.id id = some old := by
  intro after
  obtain ⟨old, hold, hsame, -⟩ := accepted_settles hlast h
  refine ⟨⟨exec_opts (.register clk _) m, fun svc hsvc => ?_⟩, old, hold⟩
  obtain rfl := Option.some.inj (hold.symm.trans hsvc)
  exact hsame

/-- After an accepted request the agent keeps the last service under the id alive. -/
theorem agent_of_accepted {seeds : Fin k → Memory} {reg : Registration} {fates : Fin k → Fate}
    (haccepted : (p.registerServices seeds reg fates).2.2 = none)
    (hid : id ∈ reg.services.map serviceId) :
    let agent := (p.registerServices seeds reg fates).1
    agent.sends reg = p.sends reg ∧
      (p.registerServices seeds reg fates).2.1 = (registerAll seeds (p.sends reg) fates).1 ∧
      ∃ last, (under id reg.services).getLast? = some last ∧
        (agent.node.id ≠ "" → Keeps agent id last reg.generation) := by
  intro agent
  obtain ⟨last, hlast, hname, hr, hhosted⟩ := hosted_of_accepted haccepted hid
  have hagent : agent = p.host (p.sends reg) := congrArg Prod.fst hr
  have hmem : last ∈ under id reg.services := List.mem_of_getLast? hlast
  have hlastId : serviceId last = id := by simpa using (List.mem_filter.mp hmem).2
  refine ⟨?_, congrArg (fun r => r.2.1) hr, last, hlast,
    fun hnode => ⟨hhosted, hnode, hname, hlastId⟩⟩
  rw [hagent]
  rfl

theorem recreates_of_told {reg : Registration} {last : ServiceInstance} {m after : Memory}
    {clk : Nat → Time} (hlast : (under id reg.services).getLast? = some last)
    (hkeeps : p.node.id ≠ "" → Keeps p id last reg.generation)
    (hafter : Keeps p id last reg.generation →
      after = (Server.register m clk (some (registrationToProto
      (single p.node { named last with generation := reg.generation } reg.generation)))).mem)
    (htold : Keeps p id last reg.generation → LastTold m.opts reg id) :
    Recreates p reg id m after clk := by
  intro hnone hroom like clk' hopts hlike haccepts
  have hkeeps := hkeeps (node_ne_of_accepts haccepts)
  obtain ⟨old, hold, hdefn⟩ := stored_eq hlast (hopts ▸ htold hkeeps) hlike haccepts
  rw [hafter hkeeps]
  cases keepAlive_seed_turn hkeeps m clk with
  | refresh hold' _ _ _ _ => cases hold'.symm.trans hnone
  | rewrite hold' _ => cases hold'.symm.trans hnone
  | create _ hnew hnewDefn =>
    refine ⟨_, old, hnew, hold, ?_⟩
    rw [hnewDefn, hdefn, hopts]
    rfl
  | full _ hfull _ => cases hfull.symm.trans hroom

/-- Each keep-alive of a run refreshes the service on the seeds that accepted the registration and
hold it. On those that lost it and have room it re-creates the service, as registered if a seed
settles on the metadata of the last service under the id. -/
theorem keep_alive_without_churn (p : Proxy) (seeds : Fin k → Memory) (reg : Registration)
    (fates : Fin k → Fate) (id : String)
    (haccepted : (p.registerServices seeds reg fates).2.2 = none)
    (hid : id ∈ reg.services.map serviceId) (actions : List (SeedAction k)) :
    let agent := (p.registerServices seeds reg fates).1
    let registered := (p.registerServices seeds reg fates).2.1
    let later := actions.foldl (agent.turn id) registered
    Throughout (agent.turn id) (Spares agent id) registered actions →
      ∀ (i : Fin k) (fates' : Fin k → Fate) (clk : Nat → Time) (replied : Bool),
        fates' i = .processed clk replied →
        let after := (agent.keepAlive later id fates').1 i
        (∀ clk' replied', fates i = .processed clk' replied' →
          Accepts (seeds i) clk' (agent.sends reg) →
          Refreshes agent id (later i) after clk ∧
          (Throughout (agent.turn id) (Retains agent i) registered actions →
            ∃ old t, (registered i).service? agent.node.id id = some old ∧
              (later i).service? agent.node.id id = some (old.refreshed t))) ∧
        (LastTold (seeds i).opts reg id → Recreates agent reg id (later i) after clk) := by
  intro agent registered later hrun i fates' clk replied hfate after
  obtain ⟨hsends, hregistered, last, hlast, hkeeps⟩ := agent_of_accepted haccepted hid
  change agent.sends reg = _ at hsends
  change registered = _ at hregistered
  refine ⟨fun clk' replied' hfate' haccepts => ?_, fun htold => ?_⟩
  · have hkeeps := hkeeps (node_ne_of_accepts haccepts)
    obtain ⟨hsettled, old, hold⟩ := settled_of_accepts hlast haccepts
    have hseed : registered i =
        (Server.register (seeds i) clk' (some (registrationToProto (agent.sends reg)))).mem := by
      rw [hregistered, hsends]
      simp only [registerAll, deliver, hfate']
    rw [← hseed] at hsettled hold
    have hlater : Settled (seeds i).opts agent id last reg.generation (later i) :=
      hrun.keeps (fun seeds => Settled _ agent id last reg.generation (seeds i)) hsettled
        fun seeds a ha h => h.turn hkeeps ha
    refine ⟨fun svc hsvc => ?_, fun hretains => ?_⟩
    · rw [keepAliveEvents_eq hkeeps, show after = _ from keepAlive_processed hkeeps hfate later]
      exact hlater.refreshes hkeeps hsvc clk
    · obtain ⟨t, ht⟩ := hsettled.retained hkeeps hold actions hretains
      exact ⟨old, t, hold, ht⟩
  · refine recreates_of_told hlast hkeeps (fun hkeeps => keepAlive_processed hkeeps hfate later)
      fun hkeeps => ?_
    have hopts : (later i).opts = (seeds i).opts := by
      rw [Spares.opts hkeeps hrun i, hregistered, registerAll_opts]
    rw [hopts]
    exact htold

def labelled (port : UInt16) (key value : String) : ServiceInstance :=
  { id := "web", name := "web", port := port, metadata := (∅ : Map String).insert key value }

def listed (services : List ServiceInstance) : Registration :=
  { node := { id := "" }, services := services, generation := 1 }

def reachedAt (now : Time) : Fin 1 → Fate := fun _ => .processed (fun _ => now) true

/-- The seed restarts, and a keep-alive brings back the second of two services that differ in port. -/
theorem keep_alive_after_restart :
    let reg := listed [labelled 80 "a" "", labelled 81 "b" "x"]
    let r := (newProxy { id := "n" } 1).registerServices (fun _ => newMemory {}) reg (reachedAt 0)
    let stored :=
      (Server.register (newMemory {}) (fun _ => 0) (some (registrationToProto (r.1.sends reg)))).mem
    ∃ new old,
      ((r.1.keepAlive (fun _ => newMemory {}) "web" (reachedAt second)).1 0).service? r.1.node.id
        "web" = some new ∧
      stored.service? r.1.node.id "web" = some old ∧
        new.defn = { old.defn with lastSeen := second } := by
  intro reg r stored
  have hrun :=
    keep_alive_without_churn (newProxy { id := "n" } 1) (fun _ : Fin 1 => newMemory {}) reg
      (reachedAt 0)
    "web" (by decide) (by decide) [.other fun _ => newMemory {}]
      ⟨fun i => ⟨by revert i; decide, Or.inr rfl⟩, trivial⟩ 0
    (reachedAt second) _ _ rfl
  exact hrun.2 (by decide) rfl rfl (newMemory {}) (fun _ => 0) rfl rfl (by decide)

/-- Both services have one entry of metadata, and the seed reads the missing `a` of the second one as
empty. It keeps the first one, and the agent remembers the second. -/
theorem keep_alive_changes_metadata :
    ¬ ∀ (k : Nat) (p : Proxy) (seeds : Fin k → Memory) (reg : Registration)
      (fates : Fin k → Fate) (id : String),
      (p.registerServices seeds reg fates).2.2 = none → id ∈ reg.services.map serviceId →
      ∀ actions : List (SeedAction k),
      let agent := (p.registerServices seeds reg fates).1
      let registered := (p.registerServices seeds reg fates).2.1
      let later := actions.foldl (agent.turn id) registered
      Throughout (agent.turn id) (Spares agent id) registered actions →
        ∀ (i : Fin k) (fates' : Fin k → Fate) (clk : Nat → Time) (replied : Bool),
          fates' i = .processed clk replied →
          let after := (agent.keepAlive later id fates').1 i
          (∀ clk' replied', fates i = .processed clk' replied' →
            Accepts (seeds i) clk' (agent.sends reg) →
            Refreshes agent id (later i) after clk ∧
            (Throughout (agent.turn id) (Retains agent i) registered actions →
              ∃ old t, (registered i).service? agent.node.id id = some old ∧
                (later i).service? agent.node.id id = some (old.refreshed t))) ∧
          Recreates agent reg id (later i) after clk := by
  intro h
  have hrun := h 1 (newProxy { id := "n" } 1) (fun _ => newMemory {})
    (listed [labelled 80 "a" "", labelled 80 "b" "x"]) (reachedAt 0) "web" (by decide) (by decide)
    [.other fun _ => newMemory {}] ⟨fun i => ⟨by revert i; decide, Or.inr rfl⟩, trivial⟩ 0
      (reachedAt second) _ _ rfl
  obtain ⟨new, old, hnew, hold, hdefn⟩ :=
    hrun.2 rfl rfl (newMemory {}) (fun _ => 0) rfl rfl (by decide)
  have hmetadata : new.defn.metadata = old.defn.metadata := by rw [hdefn]
  have hnew' := congrArg (Option.map (·.defn.metadata["b"]?)) hnew
  have hold' := congrArg (Option.map (·.defn.metadata["b"]?)) hold
  rw [Option.map_some, hmetadata] at hnew'
  rw [Option.map_some, ← hnew'] at hold'
  revert hold'
  decide

end YellowPages.SeedClient
