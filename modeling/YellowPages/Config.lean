import YellowPages.Consuldns.Parser
import YellowPages.Lib.Strings
import YellowPages.Model

/-!
# The configuration

`internal/config/config.go`: a decoded file gets its defaults and is then checked. All errors are
reported at once. Fields that neither step reads are left out.
-/

namespace YellowPages

open Lib

namespace Config

structure Listener where
  enabled : Bool := false
  address : String := ""
  port : UInt16 := 0
  deriving DecidableEq

structure Listeners where
  grpc : Listener := {}
  consulHTTP : Listener := {}
  dns : Listener := {}
  metrics : Listener := {}
  deriving DecidableEq

structure Discovery where
  name : String := ""
  updateInterval : Duration := 0
  deriving DecidableEq

structure Cluster where
  name : String := ""
  seeds : List String := []
  discovery : Option Discovery := none
  deriving DecidableEq

structure TLS where
  enabled : Bool := false
  certFile : String := ""
  keyFile : String := ""
  caFile : String := ""
  mutualTLS : Bool := false
  deriving DecidableEq

structure ACL where
  mode : String := ""
  defaultPolicy : String := ""
  tokensFile : String := ""
  deriving DecidableEq

@[ext] structure Agent where
  seedTimeout : Duration := 0
  writeQuorum : Int := 0
  readyMinSeeds : Int := 0
  drainWindow : Duration := 0
  cacheMaxAge : Duration := 0
  deriving DecidableEq

structure DNSConfig where
  domain : String := ""
  altDomain : String := ""
  enableTruncate : Bool := false
  deriving DecidableEq

structure Bootstrap where
  enabled : Bool := false
  signingKey : String := ""
  signingKeyFile : String := ""
  tokenTTL : Duration := 0
  allowSeedJoin : Bool := false
  advertiseSeeds : List String := []
  rateLimit : Int := 0
  deriving DecidableEq

end Config

open Config in
/-- What is in a file. The role is a text, and can be anything. -/
@[ext] structure Config where
  role : String := ""
  datacenter : String := ""
  cluster : Cluster := {}
  listeners : Listeners := {}
  maxServices : Int := 0
  ttl : Duration := 0
  heartbeatInterval : Duration := 0
  shutdownTimeout : Duration := 0
  tls : TLS := {}
  acl : ACL := {}
  agent : Agent := {}
  dns : DNSConfig := {}
  /-- `federation.max_hops`. -/
  maxHops : Int := 0
  /-- `membership.sync_interval`. -/
  syncInterval : Duration := 0
  bootstrap : Bootstrap := {}
  deriving DecidableEq

namespace Config

def roleAgent : String := "agent"

def roleSeed : String := "seed"

/-- What the standard library makes of texts and durations. -/
structure Format where
  /-- `%q`. -/
  quote : String → String
  unicode : Consuldns.Unicode
  /-- `Duration.String` and `ParseDuration`. -/
  duration : Duration → String
  parseDuration : String → Option Duration
  parse_duration : ∀ d, parseDuration (duration d) = some d
  duration_ne : ∀ d, duration d ≠ ""

/-! ## Defaults -/

/-- A number that is not set is 0. -/
def orDefault (d x : Int) : Int := if x = 0 then d else x

def orText (d x : String) : String := if x = "" then d else x

def defaultListener (l : Listener) (port : UInt16) : Listener :=
  { l with address := orText "127.0.0.1" l.address, port := if l.port = 0 then port else l.port }

def applyDefaults (c : Config) : Config :=
  { c with
    role := orText roleAgent c.role
    datacenter := orText "dc1" c.datacenter
    ttl := orDefault (30 * second) c.ttl
    heartbeatInterval := orDefault (10 * second) c.heartbeatInterval
    shutdownTimeout := orDefault (15 * second) c.shutdownTimeout
    maxHops := orDefault 1 c.maxHops
    syncInterval := orDefault (30 * second) c.syncInterval
    listeners :=
      -- gRPC is always served.
      { grpc := defaultListener { c.listeners.grpc with enabled := true } 9900
        consulHTTP := defaultListener c.listeners.consulHTTP 8500
        dns := defaultListener c.listeners.dns 8600
        metrics := defaultListener c.listeners.metrics 9901 }
    bootstrap := { c.bootstrap with
      rateLimit := orDefault 10 c.bootstrap.rateLimit
      tokenTTL := orDefault (30 * second) c.bootstrap.tokenTTL }
    cluster := { c.cluster with
      discovery := c.cluster.discovery.map fun d =>
        { d with updateInterval := orDefault (30 * second) d.updateInterval } }
    acl := { c.acl with mode := orText "disabled" c.acl.mode }
    agent :=
      { seedTimeout := orDefault (3 * second) c.agent.seedTimeout
        writeQuorum := orDefault 1 c.agent.writeQuorum
        readyMinSeeds := orDefault 1 c.agent.readyMinSeeds
        drainWindow := orDefault (5 * second) c.agent.drainWindow
        cacheMaxAge := orDefault (5 * second) c.agent.cacheMaxAge }
    dns :=
      { domain := if c.dns.domain = "" then "consul." else withSuffix c.dns.domain "."
        altDomain := if c.dns.altDomain ≠ "" then withSuffix c.dns.altDomain "." else c.dns.altDomain
        enableTruncate := true } }

/-! ## Checks -/

/-- `if cond { errs = append(errs, msg) }`. -/
def failIf (cond : Bool) (msg : String) : List String := if cond then [msg] else []

def validateListener (path : String) (l : Listener) : List String :=
  failIf (trimSpace l.address = "") (path ++ ".address: is required") ++
    failIf (l.port = 0) (path ++ ".port: must be in 1-65535")

def validateAgent (a : Agent) : List String :=
  failIf (a.seedTimeout ≤ 0) "agent.seed_timeout: must be positive" ++
    failIf (a.writeQuorum < 1) "agent.write_quorum: must be at least 1" ++
    failIf (a.readyMinSeeds < 1) "agent.ready_min_seeds: must be at least 1" ++
    failIf (a.drainWindow < 0) "agent.drain_window: must not be negative" ++
    failIf (a.cacheMaxAge ≤ 0) "agent.cache_max_age: must be positive"

def validateTLS (t : TLS) : List String :=
  (if t.enabled then
    failIf (trimSpace t.certFile = "") "tls.cert_file: is required when tls is enabled" ++
      failIf (trimSpace t.keyFile = "") "tls.key_file: is required when tls is enabled" ++
      failIf (t.mutualTLS && trimSpace t.caFile = "")
        "tls.ca_file: is required when tls.mutual_tls is set"
  else []) ++
    failIf (t.mutualTLS && !t.enabled) "tls.mutual_tls: requires tls.enabled"

variable (f : Format)

def validateACL (t : TLS) (a : ACL) : List String :=
  failIf (a.mode ∉ ["", "disabled", "allow", "enforce"])
      ("acl.mode: must be disabled|allow|enforce, got " ++ f.quote a.mode) ++
    failIf (a.defaultPolicy ∉ ["", "allow", "deny"])
      ("acl.default_policy: must be allow or deny, got " ++ f.quote a.defaultPolicy) ++
    failIf (a.mode = "enforce" && !t.mutualTLS && trimSpace a.tokensFile = "")
      "acl.mode=enforce: requires tls.mutual_tls or acl.tokens_file to identify callers"

def validateTimes (c : Config) : List String :=
  failIf (c.ttl ≤ 0) "ttl: must be positive" ++
    failIf (c.heartbeatInterval ≤ 0) "heartbeat_interval: must be positive" ++
    failIf (c.ttl > 0 && c.heartbeatInterval > 0 && c.heartbeatInterval ≥ c.ttl)
      ("heartbeat_interval (" ++ f.duration c.heartbeatInterval ++ ") must be less than ttl (" ++
        f.duration c.ttl ++ ")") ++
    failIf (c.shutdownTimeout ≤ 0) "shutdown_timeout: must be positive"

def validateListeners (l : Listeners) : List String :=
  validateListener "listeners.grpc" l.grpc ++
    (if l.consulHTTP.enabled then validateListener "listeners.consul_http" l.consulHTTP else []) ++
    (if l.dns.enabled then validateListener "listeners.dns" l.dns else []) ++
    (if l.metrics.enabled then validateListener "listeners.metrics" l.metrics else [])

def validateBootstrap (c : Config) : List String :=
  if c.bootstrap.enabled then
    failIf (c.role ≠ roleSeed) "bootstrap: only a seed may serve bootstrap" ++
      failIf (trimSpace c.bootstrap.signingKey = "" && trimSpace c.bootstrap.signingKeyFile = "")
        "bootstrap: a signing_key or signing_key_file is required when bootstrap is enabled (used to sign short-lived tokens)" ++
      failIf (c.bootstrap.advertiseSeeds.length = 0 && c.cluster.seeds.length = 0)
        "bootstrap: advertise_seeds or cluster.seeds must be set so served configs can reach a seed" ++
      failIf (c.bootstrap.rateLimit < 0)
        "bootstrap: rate_limit must be >= 0 (0 applies the default 10/s; a negative value would disable the guard)"
  else []

def validateDiscovery (c : Config) : List String :=
  (match c.cluster.discovery with
    | none => []
    | some d =>
      failIf (trimSpace d.name = "") "cluster.discovery.name: is required when discovery is set" ++
        failIf (d.updateInterval < 0) "cluster.discovery.update_interval: must not be negative") ++
    failIf (c.role = roleAgent && c.cluster.seeds.length = 0 && c.cluster.discovery.isNone)
      "cluster: agent role requires cluster.seeds or cluster.discovery"

/-- The errors, which `errors.Join` puts on a line each. Some of the checks of `Validate` that stand
in its own body are grouped here, in their order. -/
def validate (c : Config) : List String :=
  failIf (c.role ≠ roleAgent && c.role ≠ roleSeed)
      ("role: must be " ++ f.quote roleAgent ++ " or " ++ f.quote roleSeed ++ ", got " ++
        f.quote c.role) ++
    failIf (trimSpace c.cluster.name = "") "cluster.name: is required" ++
    validateTimes f c ++ validateListeners c.listeners ++ validateBootstrap c ++ validateDiscovery c ++
    validateTLS c.tls ++ validateACL f c.tls c.acl ++ validateAgent c.agent

/-- `Parse`: `decoded` is what the YAML decoder makes of the file, or its error. -/
def parse (ext : String) (decoded : Except String Config) : Except String Config :=
  if f.unicode.toLower ext ∉ ["", ".yaml", ".yml", ".json"] then
    .error ("unsupported extension " ++ f.quote ext ++ " (want .yaml, .yml or .json)")
  else
    match decoded with
    | .error err => .error err
    | .ok c =>
      let c := applyDefaults c
      match validate f c with
      | [] => .ok c
      | errs => .error ("\n".intercalate errs)

/-! ## What is loaded -/

@[simp] theorem failIf_eq_nil (cond : Bool) (msg : String) : failIf cond msg = [] ↔ cond = false := by
  cases cond <;> simp [failIf]

theorem orDefault_of_ne {d x : Int} (h : x ≠ 0) : orDefault d x = x := if_neg h

theorem orText_of_ne {d x : String} (h : x ≠ "") : orText d x = x := if_neg h

theorem orText_ne {d x : String} (hd : d ≠ "") : orText d x ≠ "" := by
  unfold orText
  split
  · exact hd
  · assumption

theorem defaultListener_port_ne {l : Listener} {port : UInt16} (hport : port ≠ 0) :
    (defaultListener l port).port ≠ 0 := by
  unfold defaultListener
  dsimp only
  split
  · exact hport
  · assumption

theorem ne_empty_of_hasSuffix {s : String} (h : hasSuffix s "." = true) : s ≠ "" := by
  rintro rfl
  exact absurd h (by decide)

/-- A configuration that was loaded has its defaults and passed every check. -/
structure Loaded (c : Config) : Prop where
  valid : validate f c = []
  defaults : ∃ c₀, c = applyDefaults c₀

theorem loaded_of_parse {f : Format} {ext : String} {decoded : Except String Config} {c : Config}
    (h : parse f ext decoded = .ok c) : Loaded f c := by
  unfold parse at h
  split at h
  · cases h
  · split at h
    · cases h
    · rename_i c₀
      dsimp only at h
      split at h
      · rename_i hvalid
        obtain rfl := Except.ok.inj h
        exact ⟨hvalid, c₀, rfl⟩
      · cases h

theorem parse_ok_iff {f : Format} {c c' : Config} :
    parse f ".yaml" (.ok c) = .ok c' ↔ c' = applyDefaults c ∧ validate f
      (applyDefaults c) = [] := by
  have hext : f.unicode.toLower ".yaml" = ".yaml" := f.unicode.toLower_of_ascii (by simp)
  unfold parse
  rw [hext, if_neg (by decide)]
  dsimp only
  split
  · rename_i hvalid
    rw [Except.ok.injEq, eq_comm]
    exact ⟨fun h => ⟨h, hvalid⟩, fun h => h.1⟩
  · rename_i hne
    refine ⟨fun h => ?_, fun h => absurd h.2 hne⟩
    cases h

theorem validate_eq_nil_iff {f : Format} {c : Config} :
    validate f c = [] ↔ (c.role = roleAgent ∨ c.role = roleSeed) ∧ trimSpace c.cluster.name ≠ "" ∧
      validateTimes f c = [] ∧ validateListeners c.listeners = [] ∧ validateBootstrap c = [] ∧
      validateDiscovery c = [] ∧ validateTLS c.tls = [] ∧ validateACL f c.tls c.acl = [] ∧
      validateAgent c.agent = [] := by
  simp only [validate, List.append_eq_nil_iff, failIf_eq_nil, Bool.and_eq_false_imp, decide_eq_true_eq,
    decide_eq_false_iff_not, not_not, and_assoc, ← or_iff_not_imp_left, ne_eq]

theorem validateTimes_eq_nil_iff {f : Format} {c : Config} :
    validateTimes f c = [] ↔ 0 < c.ttl ∧ 0 < c.heartbeatInterval ∧ c.heartbeatInterval < c.ttl ∧
      0 < c.shutdownTimeout := by
  simp only [validateTimes, List.append_eq_nil_iff, failIf_eq_nil, Bool.and_eq_false_imp,
    Bool.and_eq_true,
    decide_eq_true_eq, decide_eq_false_iff_not, not_le, gt_iff_lt, ge_iff_le, and_assoc]
  constructor
  · rintro ⟨httl, hbeat, hless, hshut⟩
    exact ⟨httl, hbeat, hless ⟨httl, hbeat⟩, hshut⟩
  · rintro ⟨httl, hbeat, hless, hshut⟩
    exact ⟨httl, hbeat, fun _ => hless, hshut⟩

end Config

end YellowPages
