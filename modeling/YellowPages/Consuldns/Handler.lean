import YellowPages.Consuldns.Parser
import YellowPages.Health
import YellowPages.Lib.Ordered

/-!
# The DNS handler

`internal/consuldns/handler.go`, up to the message that is handed to the DNS library. A record of
class INET is its owner name, its TTL and the data of its type.
-/

namespace YellowPages.Consuldns

open Lib

/-! ## Messages -/

/-- The codes of A, NS, SOA, TXT, AAAA, SRV and ANY. -/
def namedTypes : List UInt16 := [1, 2, 6, 16, 28, 33, 255]

inductive QType where
  | a | aaaa | srv | txt | soa | ns | any
  | other (code : { code : UInt16 // code ∉ namedTypes })
  deriving DecidableEq, Repr

structure Question where
  name : String
  qtype : QType
  deriving DecidableEq

/-- A `net.IP` that is not nil. The ones that `To4` turns into four bytes are `v4`. -/
inductive IP where
  | v4 (bytes : Vector UInt8 4)
  | v6 (bytes : Vector UInt8 16)
  deriving DecidableEq

def IP.isV6 : IP → Bool
  | .v4 _ => false
  | .v6 _ => true

inductive RData where
  | a (ip : Vector UInt8 4)
  | aaaa (ip : Vector UInt8 16)
  | srv (priority weight port : UInt16) (target : String)
  | txt (txt : List String)
  | soa (ns mbox : String) (serial refresh retry expire minttl : UInt32)
  | ns (ns : String)
  deriving DecidableEq

structure RR where
  name : String
  ttl : UInt32
  data : RData
  deriving DecidableEq

inductive Rcode where
  | success | serverFailure | nameError
  deriving DecidableEq, Repr

/-- What the handler writes into the reply: `SetReply` leaves the sections empty. -/
structure Msg where
  rcode : Rcode := .success
  answer : List RR := []
  ns : List RR := []
  extra : List RR := []
  deriving DecidableEq

/-! ## Records -/

def soa (dom : String) : RR :=
  { name := dom, ttl := 0, data := .soa ("ns." ++ dom) ("hostmaster." ++ dom) 1 3600 600 86400 0 }

def ns (name dom : String) : RR := { name := name, ttl := 0, data := .ns ("ns." ++ dom) }

def addressRR (name : String) (ip : Option IP) (ttl : UInt32) : Option RR :=
  match ip with
  | none => none
  | some (.v4 bytes) => some { name := name, ttl := ttl, data := .a bytes }
  | some (.v6 bytes) => some { name := name, ttl := ttl, data := .aaaa bytes }

/-- One record for each entry of the metadata, in the order the loop ranges over it. -/
def metaTXT (range : RangeOrder String) (name : String) (metadata : Map String) (ttl : UInt32) :
    List RR :=
  (range.visit metadata.keys).map fun k =>
    { name := name, ttl := ttl, data := .txt [k ++ "=" ++ metadata.getD k ""] }

/-- `hex.EncodeToString`. -/
def encodeToString (bytes : List UInt8) : String :=
  String.ofList (bytes.flatMap fun b => [Nat.digitChar (b.toNat / 16), Nat.digitChar (b.toNat % 16)])

def hexIP (ip : IP) : String :=
  match ip with
  | .v4 bytes => encodeToString bytes.toList
  | .v6 bytes => encodeToString bytes.toList

def weight16 (w : UInt32) : UInt16 := if w > 0xffff then 0xffff else w.toUInt16

/-! ## The handler -/

/-- The fields of the configuration that the handler reads when it answers. -/
structure Config where
  domain : String
  altDomain : String := ""
  datacenter : String := ""
  serviceTTL : UInt32 := 0
  nodeTTL : UInt32 := 0
  aRecordLimit : Int := 0

/-- Every handler is made by `newHandler`, so its zones end with a dot. -/
structure Handler where
  cfg : Config
  /-- The merged read path. It answers from the registry as it is when the question comes in. -/
  resolve : Query → Except String LookupResult
  unicode : Unicode
  /-- `net.ParseIP`, which can be any function here. -/
  parseIP : String → Option IP
  domain_dot : hasSuffix cfg.domain "." = true
  altDomain_dot : cfg.altDomain ≠ "" → hasSuffix cfg.altDomain "." = true

def newHandler (resolve : Query → Except String LookupResult) (unicode : Unicode)
    (parseIP : String → Option IP) (cfg : Config) : Handler where
  cfg := { cfg with
    domain := withSuffix cfg.domain "."
    altDomain := if cfg.altDomain ≠ "" then withSuffix cfg.altDomain "." else cfg.altDomain }
  resolve := resolve
  unicode := unicode
  parseIP := parseIP
  domain_dot := hasSuffix_withSuffix cfg.domain "."
  altDomain_dot := by
    intro hne
    dsimp only at hne ⊢
    split at hne
    · rw [if_pos (by assumption)]
      exact hasSuffix_withSuffix cfg.altDomain "."
    · exact absurd hne (by assumption)

/-- The name is the zone's, or ends with it after a dot, in any letter case. -/
def fallsUnder (u : Unicode) (name zone : String) : Bool :=
  let n := u.toLower (trimSuffix name ".")
  let base := u.toLower (trimSuffix zone ".")
  n = base || hasSuffix n ("." ++ base)

def tagsOf (pq : ParsedQuery) : List String := if pq.tag ≠ "" then [pq.tag] else []

namespace Handler

variable (h : Handler)

/-- The first of the two zones that the name falls under. -/
def domainFor (name : String) : Option String :=
  [h.cfg.domain, h.cfg.altDomain].find? fun d => d ≠ "" && fallsUnder h.unicode name d

def effectiveDC (dc : String) : String := if dc = "" ∨ dc = "dc1" then h.cfg.datacenter else dc

def goesBy (nodeName : String) (e : ServiceEntry) : Bool :=
  h.unicode.equalFold e.node.name nodeName || h.unicode.equalFold e.node.id nodeName

def filterNode (entries : List ServiceEntry) (nodeName : String) : List ServiceEntry :=
  entries.filter (h.goesBy nodeName)

def nxdomain (resp : Msg) (dom : String) : Msg :=
  { resp with rcode := .nameError, ns := resp.ns ++ [soa dom] }

/-- The SRV target, and the address it has to resolve to. -/
def srvTarget (e : ServiceEntry) (dc dom : String) : String × Option IP :=
  let addr := e.reachableAddress
  let nodeTarget := (e.node.displayName ++ ".node." ++ dc ++ "." ++ dom, h.parseIP e.node.address)
  match h.parseIP addr with
  | none => nodeTarget
  | some ip =>
    if addr = e.node.address then nodeTarget else (hexIP ip ++ ".addr." ++ dc ++ "." ++ dom, some ip)

def appendSRV (q : Question) (dc dom : String) (resp : Msg) (e : ServiceEntry) : Msg :=
  let (target, ip) := h.srvTarget e dc dom
  { resp with
    answer := resp.answer ++
      [{ name := q.name, ttl := h.cfg.serviceTTL,
         data := .srv 1 (weight16 e.service.weights.orDefault.passing) e.service.port target }]
    extra := resp.extra ++ (addressRR target ip h.cfg.serviceTTL).toList }

/-- The loop of `appendAddresses`, which has appended `count` records so far. -/
def appendAddresses (q : Question) (wantV6 : Bool) (resp : Msg) (count : Int) :
    List ServiceEntry → Msg
  | [] => resp
  | e :: rest =>
    match h.parseIP e.reachableAddress with
    | none => appendAddresses q wantV6 resp count rest
    | some ip =>
      if ip.isV6 ≠ wantV6 then appendAddresses q wantV6 resp count rest
      else
        match addressRR q.name (some ip) h.cfg.serviceTTL with
        | none => appendAddresses q wantV6 resp count rest
        | some rr =>
          let resp := { resp with answer := resp.answer ++ [rr] }
          if h.cfg.aRecordLimit > 0 ∧ count + 1 ≥ h.cfg.aRecordLimit then resp
          else appendAddresses q wantV6 resp (count + 1) rest

/-- An answer without records carries the zone's SOA. -/
def orSOA (dom : String) (resp : Msg) : Msg :=
  if resp.answer = [] then { resp with ns := resp.ns ++ [soa dom] } else resp

def renderService (shuffle : RangeOrder ServiceEntry) (resp : Msg) (q : Question)
    (entries : List ServiceEntry) (dc dom : String) : Msg :=
  let entries := shuffle.visit entries
  orSOA dom <|
    match q.qtype with
    | .srv => entries.foldl (h.appendSRV q dc dom) resp
    | .aaaa => h.appendAddresses q true resp 0 entries
    -- A and ANY, and every other type
    | _ => h.appendAddresses q false resp 0 entries

def renderNode (range : RangeOrder String) (resp : Msg) (q : Question) (e : ServiceEntry)
    (dom : String) : Msg :=
  let records :=
    match q.qtype with
    | .txt => metaTXT range q.name e.node.metadata h.cfg.nodeTTL
    | _ => (addressRR q.name (h.parseIP e.node.address) h.cfg.nodeTTL).toList
  orSOA dom { resp with answer := resp.answer ++ records }

/-- The part of `answer` after the name was parsed. -/
def answerQuery (shuffle : RangeOrder ServiceEntry) (range : RangeOrder String) (resp : Msg)
    (q : Question) (dom : String) (pq : ParsedQuery) : Msg :=
  let dc := h.effectiveDC pq.datacenter
  match h.resolve { name := pq.service, tags := tagsOf pq, datacenter := dc } with
  | .error _ => { resp with rcode := .serverFailure }
  | .ok all =>
    let entries := if pq.kind = .node then h.filterNode all.entries pq.node else all.entries
    if entries = [] then nxdomain resp dom
    else
      match Health.filter entries { onlyPassing := true } with
      | [] => { resp with ns := resp.ns ++ [soa dom] }
      | first :: more =>
        if pq.kind = .node then h.renderNode range resp q first dom
        else h.renderService shuffle resp q (first :: more) dc dom

def answer (shuffle : RangeOrder ServiceEntry) (range : RangeOrder String) (resp : Msg)
    (q : Question) : Msg :=
  match h.domainFor q.name with
  | none => nxdomain resp h.cfg.domain
  | some dom =>
    match q.qtype with
    | .soa => { resp with answer := resp.answer ++ [soa dom] }
    | .ns => { resp with answer := resp.answer ++ [ns q.name dom] }
    | _ =>
      let pq := parseName h.unicode q.name dom
      if pq.kind = .unknown then nxdomain resp dom else h.answerQuery shuffle range resp q dom pq

end Handler

end YellowPages.Consuldns
