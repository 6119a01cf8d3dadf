import YellowPages.Cred

/-!
# The write endpoints of the Consul HTTP API

`internal/consul`. The same handler runs on agents and on seeds. What differs is the registry
behind it, so an endpoint takes the registry method that it calls. `σ` is the state that method
works on, and its error is the text the caller gets.
-/

namespace YellowPages.Consul

variable {σ : Type}

/-! ## Requests -/

structure CheckInput where
  ttl : String := ""
  http : String := ""
  method : String := ""
  header : Map (List String) := ∅
  tcp : String := ""
  udp : String := ""
  args : List String := []
  interval : String := ""
  timeout : String := ""
  tlsSkipVerify : Bool := false

/-- The body of `PUT /v1/agent/service/register`. -/
structure RegisterInput where
  id : String := ""
  name : String := ""
  tags : List String := []
  address : String := ""
  port : Int := 0
  metadata : Map String := ∅
  weights : Option Weights := none
  check : Option CheckInput := none
  checks : List CheckInput := []

/-- In the catalog the name of a service is in the field `Service`. -/
structure CatalogServiceInput where
  id : String := ""
  service : String := ""
  address : String := ""
  port : Int := 0
  tags : List String := []
  metadata : Map String := ∅

structure CatalogRegisterInput where
  node : String := ""
  address : String := ""
  datacenter : String := ""
  nodeMeta : Map String := ∅
  service : Option CatalogServiceInput := none

structure CatalogDeregisterInput where
  node : String := ""
  serviceID : String := ""

/-! ## Responses -/

structure Response where
  code : Nat
  body : String := ""
  deriving DecidableEq

def statusOK : Response := { code := 200 }

/-- `http.Error`, which ends the text with a newline. -/
def httpError (text : String) (code : Nat) : Response := { code := code, body := text ++ "\n" }

/-- The end of a handler: `fail` with the registry's error, or 200. -/
def finish (r : σ × Option String) : σ × Response :=
  match r.2 with
  | some err => (r.1, httpError err 500)
  | none => (r.1, statusOK)

@[simp] theorem finish_fst (r : σ × Option String) : (finish r).1 = r.1 := by
  unfold finish
  split <;> rfl

/-! ## The handler -/

structure NodeInfo where
  id : String
  name : String := ""
  datacenter : String := ""
  address : String := ""

structure Handler where
  info : NodeInfo
  identity : Cred.Identity := {}
  authz : Option Cred.Authorizer := none
  /-- `time.ParseDuration`, which can be any function here. -/
  parseDuration : String → Option Duration

namespace Handler

variable (h : Handler)

/-- The denial, if the caller may not write. The node that is checked is the handler's own. -/
def authorizeWrite (token : String) : Option Response :=
  match h.authz with
  | none => none
  | some authz =>
    if !authz.enforcing then none
    else if (authz.authorize (h.identity.principalForToken token) h.info.id).isSome then
      some (httpError "permission denied" 403)
    else none

def authorized (token : String) (s : σ) (rest : σ × Response) : σ × Response :=
  match h.authorizeWrite token with
  | some denied => (s, denied)
  | none => rest

def node : Node :=
  { id := h.info.id, name := h.info.name, address := h.info.address, datacenter := h.info.datacenter }

def ttlFromCheck (c : CheckInput) : Duration :=
  if c.ttl = "" then 0
  else
    match h.parseDuration c.ttl with
    | some d => if d ≥ 0 then d else 0
    | none => 0

/-- The TTL of `Check`, or else the first one of `Checks`. -/
def firstTTL (input : RegisterInput) : Duration :=
  let own := (input.check.map h.ttlFromCheck).getD 0
  if own > 0 then own else ((input.checks.map h.ttlFromCheck).find? (· > 0)).getD 0

end Handler

def clampPort (p : Int) : UInt16 :=
  if p < 0 then 0 else if p > 65535 then 65535 else UInt16.ofNat p.toNat

def orName (id name : String) : String := if id = "" then name else id

def trimPrefix (s start : String) : String :=
  if start.toList.isPrefixOf s.toList then String.ofList (s.toList.drop start.length) else s

def serviceFromCheckID (checkID : String) : String := trimPrefix checkID "service:"

inductive CheckVerb where
  | pass | warn | fail | update
  deriving DecidableEq, Repr

namespace Handler

variable (h : Handler)

def inputToService (input : RegisterInput) : ServiceInstance :=
  { id := orName input.id input.name, name := input.name, address := input.address,
    port := clampPort input.port, tags := input.tags, metadata := input.metadata,
    weights := input.weights.getD {}, ttl := h.firstTTL input }

/-! ## The endpoints

`none` for a body is one that does not decode. -/

def registerService (registerServices : Registration → σ × Option String) (token : String) (s : σ)
    (body : Option RegisterInput) : σ × Response :=
  h.authorized token s <|
    match body with
    | none => (s, httpError "invalid register body" 400)
    | some input =>
      if input.name = "" then (s, httpError "Name is required" 400)
      else
        finish (registerServices
          { node := h.node, services := [h.inputToService input], generation := 1 })

def deregisterService (removeService : String → σ × Option String) (token : String) (s : σ)
    (serviceID : String) : σ × Response :=
  h.authorized token s <| finish (removeService serviceID)

/-- `check/register` and `check/deregister`, which do nothing. -/
def checkAccept (s : σ) : σ × Response := (s, statusOK)

def checkUpdate (renewService failService : String → σ × Option String) (token : String) (s : σ)
    (verb : CheckVerb) (checkID : String) : σ × Response :=
  h.authorized token s <|
    let serviceID := serviceFromCheckID checkID
    if verb = .fail then finish (failService serviceID) else finish (renewService serviceID)

def serviceMaintenance (setMaintenance : String → Bool → σ × Option String) (token : String) (s : σ)
    (serviceID enable : String) : σ × Response :=
  h.authorized token s <| finish (setMaintenance serviceID (enable = "true"))

/-- The registration of `catalog/register`. Its node is the one in the body. -/
def externalRegistration (input : CatalogRegisterInput) : Registration :=
  let dc := if input.datacenter = "" then h.info.datacenter else input.datacenter
  let services := match input.service with
    | none => []
    | some svc =>
      if svc.service = "" then []
      else
        [{ id := orName svc.id svc.service, name := svc.service, address := svc.address,
           port := clampPort svc.port, tags := svc.tags, metadata := svc.metadata }]
  { node := { id := input.node, name := input.node, address := input.address, datacenter := dc,
              metadata := input.nodeMeta }
    services := services
    generation := 1 }

def catalogRegister (registerExternal : Registration → σ × Option String) (token : String) (s : σ)
    (body : Option CatalogRegisterInput) : σ × Response :=
  h.authorized token s <|
    match body with
    | none => (s, httpError "invalid catalog/register body" 400)
    | some input =>
      if input.node = "" then (s, httpError "Node is required" 400)
      else finish (registerExternal (h.externalRegistration input))

/-- A `ServiceID` in the body is not looked at: the whole node goes. -/
def catalogDeregister (removeNode : String → σ × Option String) (token : String) (s : σ)
    (body : Option CatalogDeregisterInput) : σ × Response :=
  h.authorized token s <|
    match body with
    | none => (s, httpError "invalid catalog/deregister body" 400)
    | some input =>
      if input.node = "" then (s, httpError "Node is required" 400)
      else finish (removeNode input.node)

end Handler

end YellowPages.Consul
