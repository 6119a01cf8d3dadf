import YellowPages.Bootstrap.Token
import YellowPages.Config
import YellowPages.Consul.Handler
import YellowPages.Ratelimit

/-!
# A node that joins with a served configuration

`internal/bootstrap`: a seed renders the safe part of its own configuration for the holder of a token.
The node adds its credentials to what it gets, and loads it like any other file.
-/

namespace YellowPages.Bootstrap

open Lib Config

/-! ## Rendering -/

structure RAgent where
  seedTimeout : String
  writeQuorum : Int
  readyMinSeeds : Int
  drainWindow : String
  cacheMaxAge : String
  deriving DecidableEq

/-- The document that is sent. There is no field for a key, a token or a file. -/
structure Rendered where
  role : String
  datacenter : String
  clusterName : String
  seeds : List String
  ttl : String
  heartbeatInterval : String
  shutdownTimeout : String
  maxServices : Int
  listeners : Listeners
  /-- The zone and the second one. -/
  dns : Option (String × String)
  agent : Option RAgent
  /-- Present if TLS is on: whether it is mutual. -/
  tls : Option Bool
  /-- The mode. -/
  acl : Option String
  deriving DecidableEq

variable (f : Format)

/-- A text that is empty is left out of the document, and the field stays 0. -/
def ReadsAs (text : String) (d : Duration) : Prop :=
  if text = "" then d = 0 else f.parseDuration text = some d

/-- What a document says of the fields of a configuration, key by key. The fields that it has no key for
stay empty, and so do those of a part that is left out. -/
structure RAgent.Says (r : RAgent) (a : Agent) : Prop where
  seedTimeout : ReadsAs f r.seedTimeout a.seedTimeout
  writeQuorum : a.writeQuorum = r.writeQuorum
  readyMinSeeds : a.readyMinSeeds = r.readyMinSeeds
  drainWindow : ReadsAs f r.drainWindow a.drainWindow
  cacheMaxAge : ReadsAs f r.cacheMaxAge a.cacheMaxAge

@[inherit_doc RAgent.Says]
structure Rendered.Says (r : Rendered) (c : Config) : Prop where
  role : c.role = r.role
  datacenter : c.datacenter = r.datacenter
  cluster : c.cluster = { name := r.clusterName, seeds := r.seeds }
  ttl : f.parseDuration r.ttl = some c.ttl
  heartbeatInterval : f.parseDuration r.heartbeatInterval = some c.heartbeatInterval
  shutdownTimeout : f.parseDuration r.shutdownTimeout = some c.shutdownTimeout
  maxServices : c.maxServices = r.maxServices
  listeners : c.listeners = r.listeners
  dns : c.dns = (r.dns.map fun d => { domain := d.1, altDomain := d.2 }).getD {}
  agent : (∀ a ∈ r.agent, a.Says f c.agent) ∧ (r.agent = none → c.agent = {})
  tls : c.tls = (r.tls.map fun mutualTLS => { enabled := true, mutualTLS }).getD {}
  acl : c.acl = (r.acl.map fun mode => { mode }).getD {}
  rest : c.maxHops = 0 ∧ c.syncInterval = 0 ∧ c.bootstrap = {}

/-- The YAML library: `Marshal` of the document, and a decoder that is told the fields of a
configuration and refuses any other. -/
structure Yaml (Doc : Type) where
  marshal : Rendered → Except String Doc
  decode : Doc → Except String Config
  /-- What was written is read back under the same keys, and none of them is refused. -/
  decode_marshal : ∀ r doc c, marshal r = .ok doc → r.Says f c → decode doc = .ok c

def durStr (d : Duration) : String := if d = 0 then "" else f.duration d

/-- The part of the configuration that a joining node gets. -/
def sanitized (cfg : Config) (role : String) (seeds : List String) : Rendered :=
  let loopback := "127.0.0.1"
  { role := role
    datacenter := cfg.datacenter
    clusterName := cfg.cluster.name
    seeds := seeds
    ttl := f.duration cfg.ttl
    heartbeatInterval := f.duration cfg.heartbeatInterval
    shutdownTimeout := f.duration cfg.shutdownTimeout
    maxServices := if role = roleSeed then cfg.maxServices else 0
    listeners :=
      { grpc := { address := loopback, port := cfg.listeners.grpc.port }
        consulHTTP := { enabled := true, address := loopback, port := cfg.listeners.consulHTTP.port }
        dns := { enabled := true, address := loopback, port := cfg.listeners.dns.port }
        metrics := { address := loopback, port := cfg.listeners.metrics.port } }
    dns :=
      if cfg.dns.domain ≠ "" ∨ cfg.dns.altDomain ≠ "" then some (cfg.dns.domain, cfg.dns.altDomain)
      else none
    agent :=
      if role = roleAgent then
        some
          { seedTimeout := durStr f cfg.agent.seedTimeout
            writeQuorum := cfg.agent.writeQuorum
            readyMinSeeds := cfg.agent.readyMinSeeds
            drainWindow := durStr f cfg.agent.drainWindow
            cacheMaxAge := durStr f cfg.agent.cacheMaxAge }
      else none
    tls := if cfg.tls.enabled then some cfg.tls.mutualTLS else none
    acl := if cfg.acl.mode ≠ "" ∧ cfg.acl.mode ≠ "disabled" then some cfg.acl.mode else none }

variable {Doc : Type} (yaml : Yaml f Doc)

/-- The header in front of the document is a comment. -/
def render (cfg : Config) (role : String) (seeds : List String) : Except String Doc :=
  match yaml.marshal (sanitized f cfg role seeds) with
  | .error err => .error ("bootstrap: render config: " ++ err)
  | .ok body => .ok body

/-! ## The service -/

structure Service where
  cfg : Config
  signingKey : Bytes
  allowSeedJoin : Bool
  seeds : List String
  rrl : Ratelimit.Limiter

/-- `bootstrapRegistrar`: the service of a seed with this configuration. -/
def newService (cfg : Config) (signingKey : Bytes) : Service :=
  { cfg := cfg, signingKey := signingKey, allowSeedJoin := cfg.bootstrap.allowSeedJoin
    seeds :=
      if cfg.bootstrap.advertiseSeeds.length = 0 then cfg.cluster.seeds
      else cfg.bootstrap.advertiseSeeds
    rrl := Ratelimit.new cfg.bootstrap.rateLimit }

/-- The metadata of a call: the values under `bootstrap-token` and under `authorization`. -/
structure Metadata where
  bootstrapToken : List String := []
  authorization : List String := []
  deriving DecidableEq

def tokenFromMetadata (md : Metadata) : String :=
  match md.bootstrapToken, md.authorization with
  | v :: _, _ => trimSpace v
  | [], v :: _ => trimSpace (Consul.trimPrefix v "Bearer ")
  | [], [] => ""

inductive Denial where
  | resourceExhausted
  | unauthenticated
  | permissionDenied
  | invalidArgument (role : String)
  | internal
  deriving DecidableEq

def Denial.message : Denial → String
  | .resourceExhausted => "bootstrap rate limit exceeded"
  | .unauthenticated => "invalid or expired bootstrap token"
  | .permissionDenied => "bootstrapping as a seed is disabled on this cluster"
  | .invalidArgument role => "role must be agent or seed, got " ++ f.quote role
  | .internal => "render failed"

structure Request where
  /-- The host of the peer. -/
  host : String
  md : Metadata := {}
  role : String := ""
  /-- The clock, as the limiter and as the token check read it. -/
  arrival : Time
  now : Time
  deriving DecidableEq

variable (hmac : Bytes → Bytes → Vector UInt8 tokenMACLen)

def Service.rendered (s : Service) (role : String) : Except Denial Doc :=
  match render f yaml s.cfg role s.seeds with
  | .error _ => .error .internal
  | .ok body => .ok body

/-- The rest of `GetConfig`, after the limiter. -/
def Service.answer (s : Service) (req : Request) : Except Denial Doc :=
  match validateToken hmac s.signingKey (tokenFromMetadata req.md) req.now with
  | .error _ => .error .unauthenticated
  | .ok () =>
    let role := orText roleAgent (f.unicode.toLower req.role)
    if role = roleAgent then s.rendered f yaml role
    else if role = roleSeed then
      if !s.allowSeedJoin then .error .permissionDenied else s.rendered f yaml role
    else .error (.invalidArgument req.role)

def Service.getConfig (s : Service) (req : Request) : Service × Except Denial Doc :=
  let (allowed, rrl) := s.rrl.allow req.arrival req.host
  let s := { s with rrl := rrl }
  if !allowed then (s, .error .resourceExhausted) else (s, s.answer f yaml hmac req)

/-- The requests of any callers, with the answers they get. -/
def Service.run (s : Service) : List Request → List (Request × Except Denial Doc)
  | [] => []
  | req :: rest => (req, (s.getConfig f yaml hmac req).2) :: (s.getConfig f yaml hmac req).1.run rest

/-! ## What a node makes of it -/

/-- The files that a node has of its own. They are not served. -/
structure Credentials where
  certFile : String := ""
  keyFile : String := ""
  caFile : String := ""
  tokensFile : String := ""

def Credentials.complete (k : Credentials) (c : Config) : Config :=
  { c with
    tls := { c.tls with certFile := k.certFile, keyFile := k.keyFile, caFile := k.caFile }
    acl := { c.acl with tokensFile := k.tokensFile } }

/-- The files that a cluster with this configuration asks for. -/
structure Credentials.Suffice (k : Credentials) (cfg : Config) : Prop where
  own : cfg.tls.enabled = true → trimSpace k.certFile ≠ "" ∧ trimSpace k.keyFile ≠ ""
  peers : cfg.tls.mutualTLS = true → trimSpace k.caFile ≠ ""
  callers : cfg.acl.mode = "enforce" → cfg.tls.mutualTLS = true ∨ trimSpace k.tokensFile ≠ ""

/-- The configuration that a node of the cluster runs with, but for its credentials: everything that
the cluster has in common is the seed's, and the rest are defaults. -/
def joined (cfg : Config) (role : String) (seeds : List String) : Config :=
  let loopback := "127.0.0.1"
  { applyDefaults {} with
    role := role
    datacenter := cfg.datacenter
    cluster := { name := cfg.cluster.name, seeds := seeds }
    listeners :=
      { grpc := { enabled := true, address := loopback, port := cfg.listeners.grpc.port }
        consulHTTP := { enabled := true, address := loopback, port := cfg.listeners.consulHTTP.port }
        dns := { enabled := true, address := loopback, port := cfg.listeners.dns.port }
        metrics := { address := loopback, port := cfg.listeners.metrics.port } }
    maxServices := if role = roleSeed then cfg.maxServices else 0
    ttl := cfg.ttl
    heartbeatInterval := cfg.heartbeatInterval
    shutdownTimeout := cfg.shutdownTimeout
    tls := { enabled := cfg.tls.enabled, mutualTLS := cfg.tls.mutualTLS }
    acl := { mode := cfg.acl.mode }
    agent := if role = roleAgent then cfg.agent else (applyDefaults {}).agent
    dns := { domain := cfg.dns.domain, altDomain := cfg.dns.altDomain, enableTruncate := true } }

/-- The document, decoded. -/
def document (cfg : Config) (role : String) (seeds : List String) : Config :=
  { role := role
    datacenter := cfg.datacenter
    cluster := { name := cfg.cluster.name, seeds := seeds }
    listeners := (sanitized f cfg role seeds).listeners
    maxServices := if role = roleSeed then cfg.maxServices else 0
    ttl := cfg.ttl
    heartbeatInterval := cfg.heartbeatInterval
    shutdownTimeout := cfg.shutdownTimeout
    tls := if cfg.tls.enabled then { enabled := true, mutualTLS := cfg.tls.mutualTLS } else {}
    acl := if cfg.acl.mode ≠ "" ∧ cfg.acl.mode ≠ "disabled" then { mode := cfg.acl.mode } else {}
    agent := if role = roleAgent then cfg.agent else {}
    dns := { domain := cfg.dns.domain, altDomain := cfg.dns.altDomain } }

section Node

variable {f} {cfg : Config} {role : String} {seeds : List String}

theorem readsAs_durStr (d : Duration) : ReadsAs f (durStr f d) d := by
  unfold durStr
  split
  · assumption
  · rw [ReadsAs, if_neg (f.duration_ne d)]
    exact f.parse_duration d

/-- A part that is rendered on a condition, as it is read. -/
theorem getD_map_ite {α β : Type} (p : Prop) [Decidable p] (x : α) (g : α → β) (d : β) :
    ((if p then some x else none).map g).getD d = if p then g x else d := by
  split <;> rfl

theorem sanitized_says : (sanitized f cfg role seeds).Says f (document f cfg role seeds) := by
  refine ⟨rfl, rfl, rfl, f.parse_duration _, f.parse_duration _, f.parse_duration _, rfl, rfl,
    ?dns, ?agent,
    (getD_map_ite _ _ _ _).symm, ?acl, rfl, rfl, rfl⟩
  case dns =>
    dsimp only [sanitized, document]
    rw [getD_map_ite]
    split
    · rfl
    · rename_i hempty
      simp only [ne_eq, not_or, not_not] at hempty
      rw [hempty.1, hempty.2]
  case agent =>
    dsimp only [sanitized, document]
    split
    · refine ⟨fun a ha => ?_, nofun⟩
      obtain rfl := Option.mem_some_iff.mp ha
      exact ⟨readsAs_durStr _, rfl, rfl, readsAs_durStr _, readsAs_durStr _⟩
    · exact ⟨nofun, fun _ => rfl⟩
  case acl =>
    dsimp only [sanitized, document]
    rw [getD_map_ite]

/-- What the file of the seed is known to have, from its defaults and its checks. -/
structure Set (f : Format) (cfg : Config) : Prop where
  datacenter : cfg.datacenter ≠ ""
  mode : cfg.acl.mode ≠ ""
  domain : hasSuffix cfg.dns.domain "." = true
  altDomain : cfg.dns.altDomain = "" ∨ hasSuffix cfg.dns.altDomain "." = true
  ports : cfg.listeners.grpc.port ≠ 0 ∧ cfg.listeners.consulHTTP.port ≠ 0 ∧
    cfg.listeners.dns.port ≠ 0 ∧
    cfg.listeners.metrics.port ≠ 0
  times : validateTimes f cfg = []
  agent : validateAgent cfg.agent = [] ∧ cfg.agent.drainWindow ≠ 0
  tls : cfg.tls.mutualTLS = true → cfg.tls.enabled = true

theorem orDefault_ne {d x : Int} (hd : d ≠ 0) : orDefault d x ≠ 0 := by
  unfold orDefault
  split
  · exact hd
  · assumption

theorem set_of_loaded (h : Loaded f cfg) : Set f cfg := by
  obtain ⟨hvalid, c₀, rfl⟩ := h
  obtain ⟨-, -, htimes, -, -, -, htls, -, hagent⟩ := validate_eq_nil_iff.mp hvalid
  refine ⟨orText_ne (by decide), orText_ne (by decide), ?_, ?_, ?_, htimes,
    ⟨hagent, orDefault_ne (by decide)⟩, ?_⟩
  · dsimp only [applyDefaults]
    split
    · decide
    · exact hasSuffix_withSuffix _ _
  · dsimp only [applyDefaults]
    split
    · exact Or.inr (hasSuffix_withSuffix _ _)
    · rename_i hempty
      exact Or.inl (not_not.mp hempty)
  · exact ⟨defaultListener_port_ne (by decide), defaultListener_port_ne (by decide),
      defaultListener_port_ne (by decide),
      defaultListener_port_ne (by decide)⟩
  · intro hmutual
    simp only [validateTLS, List.append_eq_nil_iff, failIf_eq_nil, hmutual, Bool.true_and,
      Bool.not_eq_false'] at htls
    exact htls.2

theorem agent_of_validate {a : Agent} (h : validateAgent a = []) (hdrain : a.drainWindow ≠ 0) :
    (applyDefaults { agent := a }).agent = a := by
  simp only [validateAgent, List.append_eq_nil_iff, failIf_eq_nil, decide_eq_false_iff_not, not_le,
    not_lt] at h
  obtain ⟨⟨⟨⟨hseed, hquorum⟩, hready⟩, -⟩, hcache⟩ := h
  dsimp only [applyDefaults]
  rw [orDefault_of_ne hseed.ne', orDefault_of_ne (by omega), orDefault_of_ne (by omega),
    orDefault_of_ne hdrain,
    orDefault_of_ne hcache.ne']

theorem defaultListener_of_set {enabled : Bool} {address : String} {port d : UInt16}
    (haddress : address ≠ "") (hport : port ≠ 0) :
    defaultListener ⟨enabled, address, port⟩ d = ⟨enabled, address, port⟩ := by
  rw [defaultListener, orText_of_ne haddress, if_neg hport]

/-- The defaults of the node only fill in what the seed has not sent. -/
theorem applyDefaults_document (hset : Set f cfg) (hrole : role = roleAgent ∨ role = roleSeed)
    (k : Credentials) :
    applyDefaults (k.complete (document f cfg role seeds)) = k.complete (joined cfg role seeds) := by
  obtain ⟨hdc, hmode, hdomain, halt, ⟨hgrpc, hhttp, hdnsPort, hmetrics⟩, htimes, ⟨hagent, hdrain⟩,
      htls⟩ := hset
  obtain ⟨httl, hbeat, -, hshut⟩ := validateTimes_eq_nil_iff.mp htimes
  have hloopback : "127.0.0.1" ≠ "" := by decide
  refine Config.ext ?role (orText_of_ne hdc) rfl ?listeners rfl (orDefault_of_ne httl.ne')
    (orDefault_of_ne hbeat.ne') (orDefault_of_ne hshut.ne') ?tls ?acl ?agent ?dns rfl rfl rfl
  case role =>
    have hne : role ≠ "" := by rcases hrole with rfl | rfl <;> decide
    exact orText_of_ne hne
  case listeners =>
    simp only [applyDefaults, Credentials.complete, document, sanitized, joined,
      defaultListener_of_set hloopback hgrpc,
      defaultListener_of_set hloopback hhttp, defaultListener_of_set hloopback hdnsPort,
      defaultListener_of_set hloopback hmetrics]
  case tls =>
    cases henabled : cfg.tls.enabled with
    | true => simp [applyDefaults, Credentials.complete, document, joined, henabled]
    | false =>
      have hmutual : cfg.tls.mutualTLS = false := by
        cases hmutual : cfg.tls.mutualTLS with
        | false => rfl
        | true => exact absurd (htls hmutual) (by simp [henabled])
      simp [applyDefaults, Credentials.complete, document, joined, henabled, hmutual]
  case acl =>
    by_cases hdisabled : cfg.acl.mode = "disabled"
    · simp [applyDefaults, Credentials.complete, document, joined, hdisabled, orText]
    · simp [applyDefaults, Credentials.complete, document, joined, hmode, hdisabled, orText]
  case agent =>
    have hsent : (applyDefaults { agent := if role = roleAgent then cfg.agent else {} }).agent =
        if role = roleAgent then cfg.agent else (applyDefaults {}).agent := by
      split
      · exact agent_of_validate hagent hdrain
      · rfl
    exact hsent
  case dns =>
    have hne := ne_empty_of_hasSuffix hdomain
    rcases halt with hempty | hdotted
    · simp [applyDefaults, Credentials.complete, document, joined, hne, withSuffix, hdomain, hempty]
    · simp [applyDefaults, Credentials.complete, document, joined, hne, withSuffix, hdomain, hdotted]

theorem validateTLS_eq_nil_iff (t : TLS) :
    validateTLS t = [] ↔ (t.enabled = true → trimSpace t.certFile ≠ "" ∧ trimSpace t.keyFile ≠ "") ∧
      (t.mutualTLS = true → t.enabled = true ∧ trimSpace t.caFile ≠ "") := by
  cases henabled : t.enabled <;> cases hmutual : t.mutualTLS <;>
    simp [validateTLS, henabled, hmutual, and_assoc]

theorem validateACL_eq_nil_iff (t : TLS) (a : ACL) :
    validateACL f t a = [] ↔ a.mode ∈ ["", "disabled", "allow", "enforce"] ∧
      a.defaultPolicy ∈ ["", "allow", "deny"] ∧
      (a.mode = "enforce" → t.mutualTLS = true ∨ trimSpace a.tokensFile ≠ "") := by
  simp only [validateACL, List.append_eq_nil_iff, failIf_eq_nil, decide_eq_false_iff_not, not_not,
    and_assoc,
    Bool.and_eq_false_imp, Bool.and_eq_true, decide_eq_true_eq, Bool.not_eq_true', and_imp]
  cases t.mutualTLS <;> simp

/-- What is left to check is the credentials. -/
theorem validate_joined (hset : Set f cfg) (hvalid : validate f cfg = [])
    (hrole : role = roleAgent ∨ role = roleSeed) (hseeds : seeds ≠ []) (k : Credentials) :
    validate f (k.complete (joined cfg role seeds)) = [] ↔ k.Suffice cfg := by
  obtain ⟨-, hname, htimes, -, -, -, htls, hacl, hagent⟩ := validate_eq_nil_iff.mp hvalid
  obtain ⟨hmode, -, -⟩ := (validateACL_eq_nil_iff _ _).mp hacl
  have hlisteners : validateListeners (joined cfg role seeds).listeners = [] := by
    have hloopback : trimSpace "127.0.0.1" ≠ "" := by decide +kernel
    simp [validateListeners, joined, validateListener, hloopback, hset.ports]
  have hdiscovery : validateDiscovery (k.complete (joined cfg role seeds)) = [] := by
    simp [validateDiscovery, Credentials.complete, joined, hseeds]
  have hagents : validateAgent (joined cfg role seeds).agent = [] := by
    dsimp only [joined]
    split
    · exact hagent
    · decide
  have htls' : validateTLS (k.complete (joined cfg role seeds)).tls = [] ↔
      (cfg.tls.enabled = true → trimSpace k.certFile ≠ "" ∧ trimSpace k.keyFile ≠ "") ∧
        (cfg.tls.mutualTLS = true → trimSpace k.caFile ≠ "") := by
    rw [validateTLS_eq_nil_iff]
    refine and_congr_right fun _ =>
      ⟨fun h hmutual => (h hmutual).2, fun h hmutual => ⟨hset.tls hmutual, h hmutual⟩⟩
  have hacl' : validateACL f (k.complete (joined cfg role seeds)).tls
      (k.complete (joined cfg role seeds)).acl = [] ↔
      (cfg.acl.mode = "enforce" → cfg.tls.mutualTLS = true ∨ trimSpace k.tokensFile ≠ "") := by
    rw [validateACL_eq_nil_iff]
    exact ⟨fun h => h.2.2, fun h => ⟨hmode, List.mem_cons_self, h⟩⟩
  rw [validate_eq_nil_iff, htls', hacl']
  constructor
  · rintro ⟨-, -, -, -, -, -, ⟨hown, hpeers⟩, hcallers, -⟩
    exact ⟨hown, hpeers, hcallers⟩
  · rintro ⟨hown, hpeers, hcallers⟩
    exact ⟨hrole, hname, htimes, hlisteners, rfl, hdiscovery, ⟨hown, hpeers⟩, hcallers, hagents⟩

theorem seeds_ne_nil (hvalid : validate f cfg = []) (henabled : cfg.bootstrap.enabled = true)
    (key : Bytes) :
    (newService cfg key).seeds ≠ [] := by
  obtain ⟨-, -, -, -, hbootstrap, -⟩ := validate_eq_nil_iff.mp hvalid
  simp only [validateBootstrap, henabled, if_true, List.append_eq_nil_iff, failIf_eq_nil,
    Bool.and_eq_false_imp,
    decide_eq_true_eq, decide_eq_false_iff_not, List.length_eq_zero_iff] at hbootstrap
  obtain ⟨⟨-, hseeds⟩, -⟩ := hbootstrap
  dsimp only [newService]
  split
  · rename_i hnone
    exact hseeds (List.length_eq_zero_iff.mp hnone)
  · rename_i hsome
    exact fun hnone => hsome (List.length_eq_zero_iff.mpr hnone)

end Node

/-! ## Requests in a row -/

section Requests

variable {f} {yaml} {hmac} {s : Service} {req : Request} {doc : Doc}

/-- Only the limiter changes from one request to the next. -/
theorem getConfig_fst (s : Service) (req : Request) :
    (s.getConfig f yaml hmac req).1 = { s with rrl := (s.rrl.allow req.arrival req.host).2 } := by
  unfold Service.getConfig
  dsimp only
  split <;> rfl

theorem answer_of_getConfig (h : (s.getConfig f yaml hmac req).2 = .ok doc) :
    s.answer f yaml hmac req = .ok doc := by
  unfold Service.getConfig at h
  dsimp only at h
  split at h
  · cases h
  · exact h

theorem answer_of_mem_run (requests : List Request)
    (h : (req, .ok doc) ∈ s.run f yaml hmac requests) :
    s.answer f yaml hmac req = .ok doc := by
  induction requests generalizing s with
  | nil => cases h
  | cons first rest ih =>
    rw [Service.run, List.mem_cons] at h
    rcases h with hfirst | hrest
    · obtain ⟨rfl, hout⟩ := Prod.mk.inj hfirst
      exact answer_of_getConfig hout.symm
    · have hnext := ih hrest
      rw [getConfig_fst] at hnext
      exact hnext

theorem marshal_of_rendered {role : String} (h : s.rendered f yaml role = .ok doc) :
    yaml.marshal (sanitized f s.cfg role s.seeds) = .ok doc := by
  unfold Service.rendered render at h
  cases hmarshal : yaml.marshal (sanitized f s.cfg role s.seeds) with
  | error err =>
    rw [hmarshal] at h
    cases h
  | ok body =>
    rw [hmarshal] at h
    cases h
    rfl

theorem answer_ok (h : s.answer f yaml hmac req = .ok doc) :
    validateToken hmac s.signingKey (tokenFromMetadata req.md) req.now = .ok () ∧
      ∃ role, (role = roleAgent ∨ role = roleSeed ∧ s.allowSeedJoin = true) ∧
        yaml.marshal (sanitized f s.cfg role s.seeds) = .ok doc := by
  unfold Service.answer at h
  split at h
  · cases h
  · rename_i hvalid
    refine ⟨hvalid, ?_⟩
    dsimp only at h
    split at h
    · rename_i hagent
      exact ⟨_, Or.inl hagent, marshal_of_rendered h⟩
    · split at h
      · rename_i hseed
        split at h
        · cases h
        · rename_i hallowed
          exact ⟨_, Or.inr ⟨hseed, by simpa using hallowed⟩, marshal_of_rendered h⟩
      · cases h

end Requests

/-- Whatever requests a seed gets, and whatever library writes and reads its YAML: a configuration
is served for a valid token only, and as a seed's only where that is allowed. With the files that
the cluster asks for, and with no fewer, the node loads it, and then it runs with the settings of
the cluster. -/
theorem served_config_loads (f : Format) {Doc : Type} (yaml : Yaml f Doc)
    (hmac : Bytes → Bytes → Vector UInt8 tokenMACLen) (ext : String)
    (decoded : Except String Config) (cfg : Config) (hload : parse f ext decoded = .ok cfg)
    (henabled : cfg.bootstrap.enabled = true) (key : Bytes) (requests : List Request)
    (req : Request) (doc : Doc)
    (hserved : (req, .ok doc) ∈ (newService cfg key).run f yaml hmac requests) :
    validateToken hmac key (tokenFromMetadata req.md) req.now = .ok () ∧
      ∃ role c, (role = roleAgent ∨ role = roleSeed ∧ cfg.bootstrap.allowSeedJoin = true) ∧
        yaml.decode doc = .ok c ∧
        ∀ k : Credentials,
          parse f ".yaml" (.ok (k.complete c)) =
            .ok (k.complete (joined cfg role (newService cfg key).seeds)) ↔
            k.Suffice cfg := by
  have hloaded := loaded_of_parse hload
  have hset := set_of_loaded hloaded
  obtain ⟨hvalid, role, hgate, hmarshal⟩ := answer_ok (answer_of_mem_run requests hserved)
  have hrole : role = roleAgent ∨ role = roleSeed := hgate.imp_right And.left
  have hdecode := yaml.decode_marshal _ _ _ hmarshal sanitized_says
  refine ⟨hvalid, role, document f cfg role (newService cfg key).seeds, hgate, hdecode, fun k => ?_⟩
  rw [parse_ok_iff, applyDefaults_document hset hrole k,
    validate_joined hset hloaded.valid hrole (seeds_ne_nil hloaded.valid henabled key) k]
  exact and_iff_right rfl

/-- Durations as plain numbers of nanoseconds. -/
def plainFormat : Format where
  quote := id
  unicode := .ascii
  duration := Int.repr
  parseDuration := String.toInt?
  parse_duration := fun d => Int.toInt?_repr d
  duration_ne := by
    intro d
    rw [Int.repr_eq_if]
    split <;> simp

theorem ReadsAs.unique {f : Format} {text : String} {d d' : Duration} (h : ReadsAs f text d)
    (h' : ReadsAs f text d') :
    d = d' := by
  unfold ReadsAs at h h'
  split at h
  · rw [if_pos ‹_›] at h'
    exact h.trans h'.symm
  · rw [if_neg ‹_›] at h'
    exact Option.some.inj (h.symm.trans h')

/-- A document says everything of a configuration. -/
theorem Rendered.Says.unique {f : Format} {r : Rendered} {c c' : Config} (h : r.Says f c)
    (h' : r.Says f c') :
    c = c' := by
  have hagent : c.agent = c'.agent := by
    cases hr : r.agent with
    | none => exact (h.agent.2 hr).trans (h'.agent.2 hr).symm
    | some a =>
      have ha := h.agent.1 a hr
      have ha' := h'.agent.1 a hr
      exact Agent.ext (ha.seedTimeout.unique ha'.seedTimeout)
        (ha.writeQuorum.trans ha'.writeQuorum.symm)
        (ha.readyMinSeeds.trans ha'.readyMinSeeds.symm) (ha.drainWindow.unique ha'.drainWindow)
        (ha.cacheMaxAge.unique ha'.cacheMaxAge)
  obtain ⟨hhops, hsync, hbootstrap⟩ := h.rest
  obtain ⟨hhops', hsync', hbootstrap'⟩ := h'.rest
  exact Config.ext (h.role.trans h'.role.symm) (h.datacenter.trans h'.datacenter.symm)
    (h.cluster.trans h'.cluster.symm) (h.listeners.trans h'.listeners.symm)
    (h.maxServices.trans h'.maxServices.symm) (Option.some.inj (h.ttl.symm.trans h'.ttl))
    (Option.some.inj (h.heartbeatInterval.symm.trans h'.heartbeatInterval))
    (Option.some.inj (h.shutdownTimeout.symm.trans h'.shutdownTimeout)) (h.tls.trans h'.tls.symm)
    (h.acl.trans h'.acl.symm) hagent (h.dns.trans h'.dns.symm) (hhops.trans hhops'.symm)
    (hsync.trans hsync'.symm) (hbootstrap.trans hbootstrap'.symm)

open Classical in
/-- Documents that are sent as they are, and read as what they say. -/
noncomputable def plainYaml (f : Format) : Yaml f Rendered where
  marshal := .ok
  decode r := if h : ∃ c, r.Says f c then .ok h.choose else .error "not a configuration"
  decode_marshal := by
    rintro r _ c ⟨⟩ hsays
    have hex : ∃ c, r.Says f c := ⟨c, hsays⟩
    rw [dif_pos hex, hex.choose_spec.unique hsays]

def seedFile : Config :=
  applyDefaults
    { role := "seed", cluster := { name := "prod", seeds := ["10.0.0.1:9900"] }
      bootstrap := { enabled := true, signingKey := "0123456789abcdef" } }

/-- The token was minted for 30 seconds. -/
def joinRequest : Request :=
  { host := "10.0.0.9", arrival := 0, now := second
    md := { bootstrapToken := ["AAAAAAAAAB4AAAAAAAAAAC4uLi4uLi4uLi4uLi4uLi4uLi4uLi4uLi4uLi4uLi4u"] } }

theorem served_config_loads_agent :
    ∃ c, (plainYaml plainFormat).decode
      (sanitized plainFormat seedFile roleAgent ["10.0.0.1:9900"]) = .ok c ∧
      parse plainFormat ".yaml" (.ok (Credentials.complete {} c)) =
        .ok (Credentials.complete {} (joined seedFile roleAgent ["10.0.0.1:9900"])) := by
  have hserved : (joinRequest, .ok (sanitized plainFormat seedFile roleAgent ["10.0.0.1:9900"])) ∈
      (newService seedFile (List.replicate 16 1)).run plainFormat (plainYaml plainFormat) sumMAC
        [joinRequest] := by
    decide +kernel
  obtain ⟨-, role, c, hgate, hdecode, hloads⟩ :=
    served_config_loads plainFormat (plainYaml plainFormat) sumMAC ".yaml"
    (.ok { role := "seed", cluster := { name := "prod", seeds := ["10.0.0.1:9900"] }
           bootstrap := { enabled := true, signingKey := "0123456789abcdef" } })
    seedFile (by decide +kernel) rfl (List.replicate 16 1) [joinRequest] joinRequest _ hserved
  obtain rfl : role = roleAgent := hgate.resolve_right fun h => absurd h.2 (by decide)
  refine ⟨c, hdecode, (hloads {}).mpr ⟨?_, ?_, ?_⟩⟩ <;> decide

end YellowPages.Bootstrap
