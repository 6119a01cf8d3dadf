import YellowPages.Consul.Handler
import YellowPages.Lib.Trace
import YellowPages.SeedClient.Lookup
import YellowPages.SeedClient.Proxy

/-!
# Updates through the Consul API of an agent

The handler registers everything with generation 1, so the seeds' copies of a service differ in
`lastSeen` only. A seed that misses an update and is renewed later has the fresher copy.
-/

namespace YellowPages.Consul

open Lib Store SeedClient Server Wire

variable {n : Nat}

structure Content where
  address : String
  port : UInt16
  tags : List String
  metadata : Map String
  deriving DecidableEq

def contentOf (svc : ServiceInstance) : Content := ⟨svc.address, svc.port, svc.tags, svc.metadata⟩

/-! ## The system -/

/-- An agent that serves the Consul API, and the seeds it writes to. `last` is the content of the
last registration that was accepted. -/
structure Fleet (n : Nat) where
  handler : Handler
  proxy : Proxy
  seeds : Fin n → Memory
  last : Option Content := none

/-- The registry behind the handler: the proxy with the seeds. -/
def Fleet.registerServices (f : Fleet n) (fates : Fin n → Fate) (reg : Registration) :
    Fleet n × Option String :=
  let (proxy, seeds, err) := f.proxy.registerServices f.seeds reg fates
  let last := if err.isNone then (reg.services.map contentOf).getLast? else f.last
  ({ f with proxy := proxy, seeds := seeds, last := last }, err.map Status.text)

/-- `PUT /v1/agent/service/register`. -/
def Fleet.put (f : Fleet n) (token : String) (body : Option RegisterInput) (fates : Fin n → Fate) :
    Fleet n × Response :=
  f.handler.registerService (f.registerServices fates) token f body

inductive Event (n : Nat) where
  | put (token : String) (body : Option RegisterInput) (fates : Fin n → Fate)
  | keepAlive (serviceID : String) (fates : Fin n → Fate)
  | call (i : Fin n) (c : Call)

def Fleet.step (f : Fleet n) : Event n → Fleet n
  | .put token body fates => (f.put token body fates).1
  | .keepAlive serviceID fates => { f with seeds := (f.proxy.keepAlive f.seeds serviceID fates).1 }
  | .call i c => { f with seeds := Function.update f.seeds i (c.exec (f.seeds i)).1 }

def Fleet.run (f : Fleet n) (events : List (Event n)) : Fleet n := events.foldl Fleet.step f

def Fleet.node (f : Fleet n) : String := f.proxy.node.id

def Fleet.answer (f : Fleet n) (now : Fin n → Time) (q : Query) (i : Fin n) : Answer :=
  SeedClient.answer (toString i) (f.seeds i) (now i) q

/-- A merged lookup. `order` is the order the answers arrive in. -/
def Fleet.lookup (f : Fleet n) (now : Fin n → Time) (order : List (Fin n)) (q : Query) :
    Except String LookupResult :=
  SeedClient.lookup (order.map (f.answer now q))

/-! ## One seed -/

theorem contentOf_defn (o : Options) (msg : Message) : contentOf (msg.defn o) = contentOf msg.svc := by
  simp [contentOf, Message.defn, stamp, wireService, serviceFromProto, serviceToProto]

theorem contentOf_settled {old : Option ServiceInstance} {dfn : ServiceInstance} (now : Time)
    (h : ∀ o, old = some o → contentOf o = contentOf dfn ∨ Store.changed o dfn = true) :
    contentOf (settled old dfn now) = contentOf dfn := by
  unfold settled
  cases old with
  | none => rfl
  | some o =>
    dsimp only
    split <;> rename_i hchanged
    · rfl
    · exact (h o rfl).resolve_right hchanged

/-- The seed is reached, and sees that the definition is another one. -/
def Supersedes (o : Options) (node : Node) (svc old : ServiceInstance) (generation : Nat) :
    Fate → Bool
  | .lost => false
  | .processed clk _ => Store.changed old (Message.defn o ⟨node, svc, generation, clk⟩)

theorem deliver_content {m : Memory} {s : String} {node : Node} {svc : ServiceInstance}
    {generation : Nat} {fate : Fate} {new : ServiceRec} (hn : node.id ≠ "") (hid : svc.id = s)
    (hs : s ≠ "") (hname : svc.name ≠ "")
    (hnew : (deliver m (registrationToProto (single node svc generation)) fate).1.service? node.id s =
      some new)
    (hold : ∀ old, m.service? node.id s = some old → contentOf old.defn = contentOf svc ∨
      Supersedes m.opts node svc old.defn generation fate = true) :
    contentOf new.defn = contentOf svc := by
  cases fate with
  | lost =>
    rcases hold new hnew with h | h
    · exact h
    · cases h
  | processed clk replied =>
    rw [deliver_processed] at hnew
    have hfor : Message.For node.id s ⟨node, svc, generation, clk⟩ :=
      Message.for_of_id rfl hid hs hname
    rcases process_spec m _ hn hfor with ⟨-, stored, hstored, hdefn⟩ | ⟨-, -, -, hnone⟩
    · obtain rfl := Option.some.inj (hstored.symm.trans hnew)
      rw [hdefn, ← contentOf_defn m.opts ⟨node, svc, generation, clk⟩]
      apply contentOf_settled
      intro o ho
      obtain ⟨old, hstored', rfl⟩ := Option.map_eq_some_iff.mp ho
      rw [contentOf_defn]
      exact hold old hstored'
    · rw [hnone] at hnew
      cases hnew

/-! ## One step -/

theorem orName_ne (id name : String) (h : name ≠ "") : orName id name ≠ "" := by
  unfold orName
  split
  · exact h
  · assumption

/-- A request changes nothing, is accepted, or has reached too few seeds. -/
theorem put_cases (f : Fleet n) (token : String) (body : Option RegisterInput)
    (fates : Fin n → Fate) :
    let f' := (f.put token body fates).1
    f' = f ∨ ∃ input, body = some input ∧ input.name ≠ "" ∧
      let svc := f.handler.inputToService input
      let res := registerAll f.seeds (single f.proxy.node svc 1) fates
      f'.seeds = res.1 ∧
        (f'.proxy = f.proxy.host (single f.proxy.node svc 1) ∧ f'.last = some (contentOf svc) ∧
            f.proxy.quorum ≤ res.2.succeeded ∨
          f'.proxy = f.proxy ∧ f'.last = f.last ∧ ¬ f.proxy.quorum ≤ res.2.succeeded) := by
  unfold Fleet.put Handler.registerService Handler.authorized
  intro f'
  cases hauth : f.handler.authorizeWrite token with
  | some denied => left; simp only [f', hauth]
  | none =>
    cases body with
    | none => left; simp only [f', hauth]
    | some input =>
      by_cases hname : input.name = ""
      · left; simp only [f', hauth, if_pos hname]
      · right
        refine ⟨input, rfl, hname, ?_⟩
        intro svc res
        have hf' : f' = (f.registerServices fates (single f.handler.node svc 1)).1 := by
          simp only [f', hauth, if_neg hname, finish_fst]
          rfl
        obtain ⟨hseeds, hres⟩ := registerServices_single f.proxy f.seeds f.handler.node svc 1 fates
          hname (orName_ne _ _ hname)
        rw [hf']
        refine ⟨hseeds, ?_⟩
        rcases hres with ⟨hret, hproxy, hquorum⟩ | ⟨hret, hproxy, hquorum⟩
        · refine Or.inl ⟨hproxy, ?_, hquorum⟩
          simp only [Fleet.registerServices, hret]
          rfl
        · refine Or.inr ⟨hproxy, ?_, hquorum⟩
          simp only [Fleet.registerServices, Option.isNone_iff_eq_none, if_neg hret]

theorem step_node (f : Fleet n) (e : Event n) : (f.step e).node = f.node := by
  cases e with
  | put token body fates =>
    simp only [Fleet.step, Fleet.node]
    rcases put_cases f token body fates with h | ⟨_, -, -, -, ⟨h, -⟩ | ⟨h, -⟩⟩
    · rw [h]
    · rw [h]; rfl
    · rw [h]
  | keepAlive serviceID fates => rfl
  | call i c => rfl

/-- Nothing a step does can bring back another content than the last accepted one. A request
repeats that content, or reaches no seed, or enough seeds acknowledge it and it replaces every copy
with another content. -/
def Event.Safe (s : String) (f : Fleet n) : Event n → Prop
  | .put _ body fates =>
    ∀ input ∈ body,
      let svc := f.handler.inputToService input
      svc.id = s ∧
        (f.last = some (contentOf svc) ∨ (∀ i, (fates i).reaches = false) ∨
          f.proxy.quorum ≤
            (List.finRange n).countP (fun i => (fates i).acked (f.seeds i) f.node s) ∧
            ∀ i, ∀ old ∈ (f.seeds i).service? f.node s,
              contentOf old.defn = contentOf svc ∨
                Supersedes (f.seeds i).opts f.proxy.node svc old.defn 1 (fates i) = true)
  | .keepAlive .. => True
  | .call _ c => c.grows = false

/-- All copies of service `s`, those of the seeds and that of the agent, have the content that was
accepted last. -/
structure Agrees (s : String) (f : Fleet n) : Prop where
  node_ne : f.node ≠ ""
  quorum_pos : 1 ≤ f.proxy.quorum
  reachable : ∀ i, Reachable (f.seeds i)
  held : ∀ i old, (f.seeds i).service? f.node s = some old → f.last = some (contentOf old.defn)
  hosted : ∀ id svc, f.proxy.hosted[id]? = some svc →
    id = s ∧ svc.id = s ∧ s ≠ "" ∧ svc.name ≠ "" ∧ f.last = some (contentOf svc)

section FanOut

variable {seeds : Fin n → Memory} {node : Node} {svc : ServiceInstance} {generation : Nat}
  {fates : Fin n → Fate} {s : String}

theorem registerAll_reachable (h : ∀ i, Reachable (seeds i)) (i : Fin n) :
    Reachable ((registerAll seeds (single node svc generation) fates).1 i) := by
  change Reachable (deliver (seeds i) _ (fates i)).1
  cases fates i with
  | lost => exact h i
  | processed clk replied =>
    rw [deliver_processed]
    exact (h i).exec (.register clk (single node (wireService svc) generation))

theorem registerAll_lost (h : ∀ i, (fates i).reaches = false) (reg : Registration) :
    registerAll seeds reg fates = (seeds, ⟨n, 0⟩) := by
  have hlost : ∀ i, fates i = .lost := by
    intro i
    have := h i
    cases hi : fates i with
    | lost => rfl
    | processed clk replied => rw [hi] at this; cases this
  simp [registerAll, hlost, deliver]

theorem acked_le_succeeded (hn : node.id ≠ "") (hid : svc.id = s) (hs : s ≠ "")
    (hname : svc.name ≠ "") :
    (List.finRange n).countP (fun i => (fates i).acked (seeds i) node.id s) ≤
      (registerAll seeds (single node svc generation) fates).2.succeeded := by
  apply List.countP_mono_left
  intro i _ hi
  apply deliver_of_acked (seeds i) generation (fates i) hn _ hi
  intro clk
  exact Message.for_of_id rfl hid hs hname

end FanOut

namespace Agrees

variable {s : String} {f f' : Fleet n}

theorem held_content (h : Agrees s f) {svc : ServiceInstance} (hlast : f.last = some (contentOf svc))
    (i : Fin n) (old : ServiceRec) (hold : (f.seeds i).service? f.node s = some old) :
    contentOf old.defn = contentOf svc :=
  Option.some.inj ((h.held i old hold).symm.trans hlast)

theorem of_seeds (h : Agrees s f) (hproxy : f'.proxy = f.proxy) (hlast : f'.last = f.last)
    (hreachable : ∀ i, Reachable (f'.seeds i))
    (hheld : ∀ i new, (f'.seeds i).service? f.node s = some new →
      f.last = some (contentOf new.defn)) :
    Agrees s f' := by
  have hnode : f'.node = f.node := by rw [Fleet.node, hproxy]; rfl
  refine ⟨?_, ?_, hreachable, ?_, ?_⟩
  · rw [hnode]; exact h.node_ne
  · rw [hproxy]; exact h.quorum_pos
  · rw [hnode, hlast]; exact hheld
  · rw [hproxy, hlast]; exact h.hosted

theorem of_accepted (h : Agrees s f) {svc : ServiceInstance} (hid : svc.id = s) (hs : s ≠ "")
    (hname : svc.name ≠ "") (hproxy : f'.proxy = f.proxy.host (single f.proxy.node svc 1))
    (hlast : f'.last = some (contentOf svc)) (hreachable : ∀ i, Reachable (f'.seeds i))
    (hcontent : ∀ i new, (f'.seeds i).service? f.node s = some new →
      contentOf new.defn = contentOf svc) : Agrees s f' := by
  have hnode : f'.node = f.node := by rw [Fleet.node, hproxy]; rfl
  refine ⟨?_, ?_, hreachable, ?_, ?_⟩
  · rw [hnode]; exact h.node_ne
  · rw [hproxy]; exact h.quorum_pos
  · intro i new hnew
    rw [hnode] at hnew
    rw [hlast, hcontent i new hnew]
  · intro id hosted hget
    have hinsert : f'.proxy.hosted = f.proxy.hosted.insert svc.id { svc with generation := 1 } := by
      rw [hproxy]; rfl
    simp only [hinsert, Std.ExtTreeMap.getElem?_insert, Std.compare_eq_iff_eq] at hget
    split at hget <;> rename_i hkey
    · obtain rfl := Option.some.inj hget
      exact ⟨hkey.symm.trans hid, hid, hs, hname, hlast⟩
    · exact absurd (hid.trans (h.hosted id hosted hget).1.symm) hkey

theorem put (h : Agrees s f) (token : String) (body : Option RegisterInput) (fates : Fin n → Fate)
    (hsafe : Event.Safe s f (.put token body fates)) : Agrees s (f.put token body fates).1 := by
  rcases put_cases f token body fates with hsame | ⟨input, rfl, hname, hseeds, hres⟩
  · rw [hsame]
    exact h
  obtain ⟨hid, hsafe⟩ := hsafe input rfl
  have hs : s ≠ "" := by rw [← hid]; exact orName_ne _ _ hname
  generalize (f.put token (some input) fates).1 = f' at hseeds hres ⊢
  generalize hsvc : f.handler.inputToService input = svc at hseeds hres hid hsafe
  have hname : svc.name ≠ "" := by rw [← hsvc]; exact hname
  have hreachable : ∀ i, Reachable (f'.seeds i) := by
    rw [hseeds]
    exact registerAll_reachable h.reachable
  have hcontent : (∀ i old, (f.seeds i).service? f.node s = some old →
        contentOf old.defn = contentOf svc ∨
          Supersedes (f.seeds i).opts f.proxy.node svc old.defn 1 (fates i) = true) →
      ∀ i new, (f'.seeds i).service? f.node s = some new → contentOf new.defn = contentOf svc := by
    intro hold i new hnew
    rw [hseeds] at hnew
    exact deliver_content h.node_ne hid hs hname hnew (hold i)
  -- A repetition changes no content, whoever gets it. A request that no seed gets misses the quorum,
  -- which is positive. The third kind is accepted and replaces every copy.
  rcases hsafe with hrepeat | hlost | ⟨hacked, hold⟩
  · have hcontent := hcontent fun i old hold => Or.inl (h.held_content hrepeat i old hold)
    rcases hres with ⟨hproxy, hlast, -⟩ | ⟨hproxy, hlast, -⟩
    · exact h.of_accepted hid hs hname hproxy hlast hreachable hcontent
    · refine h.of_seeds hproxy hlast hreachable fun i new hnew => ?_
      rw [hrepeat, hcontent i new hnew]
  · rw [registerAll_lost hlost] at hseeds hres
    have hquorum := h.quorum_pos
    rcases hres with ⟨-, -, hq⟩ | ⟨hproxy, hlast, -⟩
    · simp only at hq
      omega
    · refine h.of_seeds hproxy hlast hreachable fun i new hnew => ?_
      rw [hseeds] at hnew
      exact h.held i new hnew
  · have henough : f.proxy.quorum ≤
        (registerAll f.seeds (single f.proxy.node svc 1) fates).2.succeeded := by
      refine hacked.trans ?_
      exact_mod_cast acked_le_succeeded h.node_ne hid hs hname
    rcases hres with ⟨hproxy, hlast, -⟩ | ⟨-, -, hq⟩
    · exact h.of_accepted hid hs hname hproxy hlast hreachable (hcontent hold)
    · exact absurd henough hq

theorem keepAlive (h : Agrees s f) (serviceID : String) (fates : Fin n → Fate) :
    Agrees s (f.step (.keepAlive serviceID fates)) := by
  have hstep : (f.step (.keepAlive serviceID fates)).seeds =
      (f.proxy.keepAlive f.seeds serviceID fates).1 := rfl
  rw [keepAlive_seeds] at hstep
  cases hhosted : f.proxy.hosted[serviceID]? with
  | none =>
    rw [hhosted] at hstep
    refine h.of_seeds rfl rfl ?_ ?_
    · rw [hstep]; exact h.reachable
    · rw [hstep]; exact h.held
  | some svc =>
    obtain ⟨-, hid, hs, hname, hlast⟩ := h.hosted serviceID svc hhosted
    rw [hhosted] at hstep
    refine h.of_seeds rfl rfl ?_ ?_
    · rw [hstep]
      exact registerAll_reachable h.reachable
    · intro i new hnew
      rw [hstep] at hnew
      rw [hlast, deliver_content h.node_ne hid hs hname hnew]
      exact fun old hold => Or.inl (h.held_content hlast i old hold)

theorem call (h : Agrees s f) (i : Fin n) (c : Call) (hc : c.grows = false) :
    Agrees s (f.step (.call i c)) := by
  have hstep : (f.step (.call i c)).seeds = Function.update f.seeds i (c.exec (f.seeds i)).1 := rfl
  refine h.of_seeds rfl rfl ?_ ?_
  · rw [hstep]
    intro j
    rcases eq_or_ne j i with rfl | hj
    · rw [Function.update_self]
      exact (h.reachable j).exec c
    · rw [Function.update_of_ne hj]
      exact h.reachable j
  · rw [hstep]
    intro j new hnew
    rcases eq_or_ne j i with rfl | hj
    · rw [Function.update_self] at hnew
      obtain ⟨old, t, hold, hdefn⟩ := exec_leased hc (f.seeds j) f.node s new hnew
      rw [h.held j old hold, hdefn]
      rfl
    · rw [Function.update_of_ne hj] at hnew
      exact h.held j new hnew

theorem step (h : Agrees s f) (e : Event n) (hsafe : e.Safe s f) : Agrees s (f.step e) := by
  cases e with
  | put token body fates => exact h.put token body fates hsafe
  | keepAlive serviceID fates => exact h.keepAlive serviceID fates
  | call i c => exact h.call i c hsafe

theorem run (h : Agrees s f) {events : List (Event n)}
    (hsafe : Throughout Fleet.step (fun f e => e.Safe s f) f events) :
    Agrees s (f.run events) :=
  hsafe.keeps (Agrees s) h fun _ e he h => h.step e he

end Agrees

/-! ## Whole runs -/

/-- The agent and the seeds before the service is first registered. -/
def Fleet.start (handler : Handler) (node : Node) (quorum : Int) (seeds : Fin n → Memory) : Fleet n :=
  { handler := handler, proxy := newProxy node quorum, seeds := seeds }

theorem Agrees.start (handler : Handler) {node : Node} (quorum : Int) {seeds : Fin n → Memory}
    {s : String} (hnode : node.id ≠ "") (hreachable : ∀ i, Reachable (seeds i))
    (hnew : ∀ i, (seeds i).service? node.id s = none) :
    Agrees s (Fleet.start handler node quorum seeds) := by
  refine ⟨hnode, ?_, hreachable, ?_, ?_⟩
  · simp only [Fleet.start, newProxy]
    split <;> omega
  · intro i old hold
    exact absurd ((hnew i).symm.trans hold) (by simp)
  · intro id svc hget
    simp [Fleet.start, newProxy] at hget

theorem run_node (f : Fleet n) (events : List (Event n)) : (f.run events).node = f.node := by
  induction events generalizing f with
  | nil => rfl
  | cons e rest ih => exact (ih (f.step e)).trans (step_node f e)

/-- If every step is safe, then in every state that is reached a merged lookup shows the service
with the content that was accepted last, and it shows the service if one of the seeds does. -/
theorem accepted_update_wins (handler : Handler) (node : Node) (quorum : Int)
    (seeds : Fin n → Memory) (s : String) (events : List (Event n)) (hnode : node.id ≠ "")
    (hreachable : ∀ i, Reachable (seeds i)) (hnew : ∀ i, (seeds i).service? node.id s = none)
    (hsafe : Throughout Fleet.step (fun f e => e.Safe s f)
      (Fleet.start handler node quorum seeds) events) :
    let f := (Fleet.start handler node quorum seeds).run events
    ∀ (now : Fin n → Time) (order : List (Fin n)) (q : Query), order ≠ [] →
      ∃ lr, f.lookup now order q = .ok lr ∧
        (∀ e ∈ lr.entries, e.key = toLex (node.id, s) → f.last = some (contentOf e.service)) ∧
        ∀ i ∈ order, ∀ e ∈ received (f.answer now q i), ∃ e' ∈ lr.entries, e'.key = e.key := by
  intro f now order q horder
  have h : Agrees s f := (Agrees.start handler quorum hnode hreachable hnew).run hsafe
  have hid : f.node = node.id := run_node _ events
  obtain ⟨i₀, hi₀⟩ := List.exists_mem_of_ne_nil order horder
  obtain ⟨lr, hlr, hentries⟩ := lookup_ok (order.map (f.answer now q))
    ⟨f.answer now q i₀, List.mem_map_of_mem hi₀, rfl⟩
  refine ⟨lr, hlr, ?_, ?_⟩
  · intro e he hkey
    rw [hentries, Health.mem_mergeLWW] at he
    obtain ⟨a, ha, hmem⟩ := List.mem_flatMap.mp ((mem_versions _ _ _ e).mp he.mem).1
    obtain ⟨i, -, rfl⟩ := List.mem_map.mp ha
    obtain ⟨svc, ttl, hstored, hsvc⟩ := mem_received (h.reachable i).filed hmem
    obtain ⟨hn, hs⟩ := Prod.mk.inj (toLex.injective hkey)
    rw [hn, hs, ← hid] at hstored
    rw [h.held i svc hstored, hsvc]
    rfl
  · intro i hi e he
    have hall : e ∈ (order.map (f.answer now q)).flatMap received :=
      List.mem_flatMap.mpr ⟨f.answer now q i, List.mem_map_of_mem hi, he⟩
    obtain ⟨w, hkey, hw⟩ := exists_winner ServiceEntry.key Health.rank _ e hall
    refine ⟨w, ?_, hkey⟩
    rw [hentries, Health.mem_mergeLWW]
    exact hw

def pairOfSeeds : Fleet 2 :=
  Fleet.start { info := { id := "n" }, parseDuration := fun _ => none } { id := "n" } 1
    fun _ => newMemory {}

def webPut (port : Int) (fates : Fin 2 → Fate) : Event 2 :=
  .put "" (some { name := "web", port := port }) fates

def bothAt (t : Time) (_ : Fin 2) : Fate := .processed (fun _ => t) true

def firstAt (t : Time) (i : Fin 2) : Fate := if i = 0 then .processed (fun _ => t) true else .lost

def portSeen (f : Fleet 2) (t : Time) : Option (List UInt16) :=
  (f.lookup (fun _ => t) [0, 1] { name := "web" }).toOption.map fun lr =>
    lr.entries.map (·.service.port)

/-- An update that reaches both seeds stays, whoever is renewed. -/
theorem renewed_update_shown :
    let f := pairOfSeeds.run [webPut 80 (bothAt 0), webPut 81 (bothAt second),
      .call 1 (.renew (fun _ => 2 * second) "n" [])]
    ∃ lr, f.lookup (fun _ => 3 * second) [0, 1] { name := "web" } = .ok lr ∧
      ∀ e ∈ lr.entries, e.key = toLex ("n", "web") → e.service.port = 81 := by
  intro f
  have hsafe : Throughout Fleet.step (fun f e => e.Safe "web" f) pairOfSeeds [webPut 80 (bothAt 0),
      webPut 81 (bothAt second),
      .call 1 (.renew (fun _ => 2 * second) "n" [])] := by
    refine ⟨?_, ?_, rfl, trivial⟩
    · simp only [webPut, Event.Safe]
      decide
    · simp only [webPut, Event.Safe]
      decide
  obtain ⟨lr, hlr, hcontent, -⟩ :=
    accepted_update_wins _ { id := "n" } 1 (fun _ => newMemory {}) "web" _
    (by decide) (fun _ => ⟨{}, [], rfl⟩) (by decide) hsafe (fun _ => 3 * second) [0, 1]
    { name := "web" } (by simp)
  refine ⟨lr, hlr, fun e he hkey => ?_⟩
  have hlast : f.last = some ⟨"", 81, [], ∅⟩ := by decide
  exact congrArg Content.port (Option.some.inj ((hcontent e he hkey).symm.trans hlast))

/-- Seed 1 misses the second update and is renewed after it. Its old copy is the fresher one. -/
theorem missed_update_resurfaces :
    let f := pairOfSeeds.run [webPut 80 (bothAt 0), webPut 81 (firstAt second),
      .call 1 (.renew (fun _ => 2 * second) "n" [])]
    f.last = some ⟨"", 81, [], ∅⟩ ∧ portSeen f (3 * second) = some [80] := by
  decide

-- Nor does it help that the old copy is behind: a tag that the update took away finds it alone.
example :
    let put (tag : String) (fates : Fin 2 → Fate) : Event 2 :=
      .put "" (some { name := "web", tags := [tag] }) fates
    let f := pairOfSeeds.run [put "a" (bothAt 0), put "b" (firstAt second)]
    f.last = some ⟨"", 0, ["b"], ∅⟩ ∧
      (f.lookup (fun _ => 3 * second) [0, 1] { tags := ["a"] }).toOption.map
        (fun lr => lr.entries.map (contentOf ·.service)) = some [⟨"", 0, ["a"], ∅⟩] := by
  decide

end YellowPages.Consul
