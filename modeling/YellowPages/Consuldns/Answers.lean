import YellowPages.Consuldns.Forms
import YellowPages.Consul.Ownership

/-!
# Answers of the DNS interface

An answer as a function of what the registry holds: which entries a question asks for, which records
are made of them, and when the answer is NXDOMAIN or carries the zone's SOA.
-/

namespace YellowPages.Consuldns

open Lib Store

/-! ## The registry behind the handler -/

/-- Reads do not fail, and find in `content` what the query selects. -/
def Serves (resolve : Query → Except String LookupResult) (content : List ServiceEntry) : Prop :=
  ∀ q, ∃ lr, resolve q = .ok lr ∧ lr.entries = content.filter (Selects q ·)

theorem serves_store {m : Memory} (h : Filed m) (now : Time) :
    Serves (Consul.StoreRegistry.resolve m now) (m.lookup now {}).entries :=
  fun q => ⟨m.lookup now q, rfl, lookup_eq_filter now q h⟩

namespace Handler

variable (h : Handler)

def queryFor (pq : ParsedQuery) : Query :=
  { name := pq.service, tags := tagsOf pq, datacenter := h.effectiveDC pq.datacenter }

/-- The entry is one that the handler finds for the question. -/
def asksFor (pq : ParsedQuery) (e : ServiceEntry) : Bool :=
  decide (Selects (h.queryFor pq) e) && (pq.kind ≠ .node || h.goesBy pq.node e)

/-- It may be answered with. -/
def offers (pq : ParsedQuery) (e : ServiceEntry) : Bool :=
  h.asksFor pq e && Health.visible e { onlyPassing := true }

/-! ## The records -/

/-- The address record for an instance, if its address is of the family. -/
def instanceRR (q : Question) (wantV6 : Bool) (e : ServiceEntry) : Option RR :=
  (h.parseIP e.reachableAddress).bind fun ip =>
    if ip.isV6 = wantV6 then addressRR q.name (some ip) h.cfg.serviceTTL else none

def srvRR (q : Question) (dc dom : String) (e : ServiceEntry) : RR :=
  { name := q.name, ttl := h.cfg.serviceTTL,
    data := .srv 1 (weight16 e.service.weights.orDefault.passing) e.service.port
      (h.srvTarget e dc dom).1 }

/-- The record that a service question gets for an instance. -/
def serviceRR (q : Question) (dc dom : String) (e : ServiceEntry) : Option RR :=
  match q.qtype with
  | .srv => some (h.srvRR q dc dom e)
  | .aaaa => h.instanceRR q true e
  | _ => h.instanceRR q false e

def nodeRRs (range : RangeOrder String) (q : Question) (e : ServiceEntry) : List RR :=
  match q.qtype with
  | .txt => metaTXT range q.name e.node.metadata h.cfg.nodeTTL
  | _ => (addressRR q.name (h.parseIP e.node.address) h.cfg.nodeTTL).toList

def limited (records : List RR) : List RR :=
  if 0 < h.cfg.aRecordLimit then records.take h.cfg.aRecordLimit.toNat else records

/-- The records made of the entries that may be answered with. -/
def records (shuffle : RangeOrder ServiceEntry) (range : RangeOrder String) (q : Question)
    (dom : String) (pq : ParsedQuery) (entries : List ServiceEntry) : List RR :=
  if pq.kind = .node then entries.head?.toList.flatMap (h.nodeRRs range q)
  else
    let all := (shuffle.visit entries).filterMap (h.serviceRR q (h.effectiveDC pq.datacenter) dom)
    if q.qtype = .srv then all else h.limited all

theorem exists_addressRR (name : String) (ip : IP) (ttl : UInt32) :
    ∃ rr, addressRR name (some ip) ttl = some rr := by
  cases ip with
  | v4 bytes => exact ⟨_, rfl⟩
  | v6 bytes => exact ⟨_, rfl⟩

theorem appendAddresses_answer (q : Question) (wantV6 : Bool) (entries : List ServiceEntry)
    (resp : Msg) (count : Int) (hcount : 0 < h.cfg.aRecordLimit → count < h.cfg.aRecordLimit) :
    h.appendAddresses q wantV6 resp count entries =
      { resp with answer := resp.answer ++
          if 0 < h.cfg.aRecordLimit then
            (entries.filterMap (h.instanceRR q wantV6)).take (h.cfg.aRecordLimit - count).toNat
          else entries.filterMap (h.instanceRR q wantV6) } := by
  induction entries generalizing resp count with
  | nil => simp [appendAddresses]
  | cons e rest ih =>
    cases hip : h.parseIP e.reachableAddress with
    | none =>
      have hnone : h.instanceRR q wantV6 e = none := by rw [instanceRR, hip]; rfl
      rw [List.filterMap_cons_none hnone, ← ih resp count hcount, appendAddresses, hip]
    | some ip =>
      by_cases hfamily : ip.isV6 = wantV6
      · obtain ⟨rr, hrr⟩ := exists_addressRR q.name ip h.cfg.serviceTTL
        have hsome : h.instanceRR q wantV6 e = some rr := by
          rw [instanceRR, hip, Option.bind_some, if_pos hfamily, hrr]
        rw [List.filterMap_cons_some hsome]
        simp only [appendAddresses, hip, ne_eq, hfamily, not_true_eq_false, if_false, hrr]
        by_cases hlast : h.cfg.aRecordLimit > 0 ∧ count + 1 ≥ h.cfg.aRecordLimit
        · -- The limit is reached with this record.
          have hone : (h.cfg.aRecordLimit - count).toNat = 1 := by have := hcount hlast.1; omega
          rw [if_pos hlast, if_pos hlast.1, hone]
          rfl
        · rw [if_neg hlast, ih _ (count + 1) (by omega)]
          by_cases hlimit : 0 < h.cfg.aRecordLimit
          · have hmore :
              (h.cfg.aRecordLimit - count).toNat = (h.cfg.aRecordLimit - (count + 1)).toNat + 1 := by
              have := hcount hlimit
              omega
            rw [if_pos hlimit, if_pos hlimit, hmore]
            simp
          · rw [if_neg hlimit, if_neg hlimit]
            simp
      · have hnone :
          h.instanceRR q wantV6 e = none := by rw [instanceRR, hip, Option.bind_some, if_neg hfamily]
        rw [List.filterMap_cons_none hnone, ← ih resp count hcount]
        simp only [appendAddresses, hip, ne_eq, hfamily, not_false_eq_true, if_true]

theorem appendAddresses_eq (q : Question) (wantV6 : Bool) (entries : List ServiceEntry) (resp : Msg) :
    h.appendAddresses q wantV6 resp 0 entries =
      { resp with answer := resp.answer ++ h.limited (entries.filterMap (h.instanceRR q wantV6)) } := by
  rw [appendAddresses_answer h q wantV6 entries resp 0 id, limited, sub_zero]

theorem foldl_appendSRV (q : Question) (dc dom : String) (entries : List ServiceEntry) (resp : Msg) :
    let out := entries.foldl (h.appendSRV q dc dom) resp
    out.rcode = resp.rcode ∧ out.answer = resp.answer ++ entries.map
      (h.srvRR q dc dom) ∧ out.ns = resp.ns := by
  induction entries generalizing resp with
  | nil => simp
  | cons e rest ih =>
    obtain ⟨hrcode, hanswer, hns⟩ := ih (h.appendSRV q dc dom resp e)
    refine ⟨hrcode, ?_, hns⟩
    rw [List.foldl_cons, hanswer, List.map_cons, appendSRV, List.append_assoc]
    rfl

/-- A message whose answer is `records`, with the SOA of `dom` if there are none. -/
structure Holds (dom : String) (records : List RR) (msg : Msg) : Prop where
  rcode : msg.rcode = .success
  answer : msg.answer = records
  ns : msg.ns = if records = [] then [soa dom] else []

theorem holds_orSOA {dom : String} {records : List RR} {resp : Msg} (hrcode : resp.rcode = .success)
    (hanswer : resp.answer = records) (hns : resp.ns = []) : Holds dom records (orSOA dom resp) := by
  unfold orSOA
  by_cases hnil : records = []
  · rw [if_pos (hanswer.trans hnil)]
    exact ⟨hrcode, hanswer, by simp [hns, hnil]⟩
  · rw [if_neg (hanswer ▸ hnil)]
    exact ⟨hrcode, hanswer, by simp [hns, hnil]⟩

variable (shuffle : RangeOrder ServiceEntry) (range : RangeOrder String) (q : Question) (dom : String)

theorem holds_renderService {pq : ParsedQuery} (hkind : pq.kind ≠ .node)
    (entries : List ServiceEntry) :
    Holds dom (h.records shuffle range q dom pq entries)
      (h.renderService shuffle {} q entries (h.effectiveDC pq.datacenter) dom) := by
  rw [records, if_neg hkind]
  unfold renderService serviceRR
  cases q.qtype with
  | srv =>
    obtain ⟨hrcode, hanswer, hns⟩ :=
      h.foldl_appendSRV q (h.effectiveDC pq.datacenter) dom (shuffle.visit entries) {}
    exact holds_orSOA hrcode (by simpa [List.filterMap_eq_map'] using hanswer) hns
  | aaaa =>
    dsimp only
    rw [appendAddresses_eq]
    exact holds_orSOA rfl (by simp) rfl
  | _ =>
    dsimp only
    rw [appendAddresses_eq]
    exact holds_orSOA rfl (by simp) rfl

theorem holds_renderNode {pq : ParsedQuery} (hkind : pq.kind = .node) (first : ServiceEntry)
    (more : List ServiceEntry) :
    Holds dom (h.records shuffle range q dom pq (first :: more))
      (h.renderNode range {} q first dom) := by
  rw [records, if_pos hkind]
  refine holds_orSOA rfl ?_ rfl
  unfold nodeRRs
  cases q.qtype <;> simp

theorem visit_nil {K : Type} (order : RangeOrder K) : order.visit [] = [] := (order.perm []).eq_nil

theorem records_nil (pq : ParsedQuery) : h.records shuffle range q dom pq [] = [] := by
  simp [records, visit_nil, limited]

/-! ## The answer to a question -/

section Answer

variable {h} {content : List ServiceEntry} (hcontent : Serves h.resolve content) (pq : ParsedQuery)
include hcontent

/-- The entries that are found, and what is left of them after the health filter. -/
theorem found_eq {all : LookupResult} (hall : h.resolve (h.queryFor pq) = .ok all) :
    (if pq.kind = .node then h.filterNode all.entries pq.node else all.entries) = content.filter
      (h.asksFor pq) := by
  obtain ⟨lr, hlr, hentries⟩ := hcontent (h.queryFor pq)
  obtain rfl : all = lr := Except.ok.inj (hall.symm.trans hlr)
  by_cases hkind : pq.kind = .node
  · rw [if_pos hkind, filterNode, hentries, List.filter_filter]
    congr 1
    funext e
    simp [asksFor, hkind, Bool.and_comm]
  · rw [if_neg hkind, hentries]
    congr 1
    funext e
    simp [asksFor, hkind]

theorem answerQuery_spec :
    (content.filter (h.asksFor pq) = [] →
      h.answerQuery shuffle range {} q dom pq = nxdomain {} dom) ∧
      (content.filter (h.asksFor pq) ≠ [] →
        Holds dom (h.records shuffle range q dom pq (content.filter (h.offers pq)))
          (h.answerQuery shuffle range {} q dom pq)) := by
  obtain ⟨all, hall, -⟩ := hcontent (h.queryFor pq)
  have hfound := found_eq hcontent pq hall
  have hhealthy : Health.filter (content.filter (h.asksFor pq)) { onlyPassing := true } =
      content.filter (h.offers pq) := by
    rw [Health.filter, List.filter_filter]
    congr 1
    funext e
    exact Bool.and_comm _ _
  rw [queryFor] at hall
  simp only [answerQuery, hall, hfound, hhealthy]
  constructor
  · intro hnone
    rw [if_pos hnone]
  · intro hsome
    rw [if_neg hsome]
    cases hoffers : content.filter (h.offers pq) with
    | nil =>
      rw [records_nil]
      exact ⟨rfl, rfl, rfl⟩
    | cons first more =>
      by_cases hkind : pq.kind = .node
      · simp only [hkind, if_true]
        exact holds_renderNode h shuffle range q dom hkind first more
      · simp only [hkind, if_false]
        exact holds_renderService h shuffle range q dom hkind (first :: more)

/-- The answer, its code, and the SOA beside an empty one, for a name that was understood. -/
theorem answer_spec (hdom : h.domainFor q.name = some dom) (hsoa : q.qtype ≠ .soa)
    (hns : q.qtype ≠ .ns) (hpq : parseName h.unicode q.name dom = pq) (hknown : pq.kind ≠ .unknown) :
    let msg := h.answer shuffle range {} q
    msg.rcode = (if content.filter (h.asksFor pq) = [] then .nameError else .success) ∧
      msg.answer = h.records shuffle range q dom pq (content.filter (h.offers pq)) ∧
      (msg.answer = [] → msg.ns = [soa dom]) := by
  intro msg
  have hmsg : msg = h.answerQuery shuffle range {} q dom pq := by
    simp only [msg, answer, hdom, hpq, if_neg hknown]
  obtain ⟨hnone, hsome⟩ := answerQuery_spec shuffle range q dom hcontent pq
  by_cases hfound : content.filter (h.asksFor pq) = []
  · -- What is not found is not offered either.
    have hoffers : content.filter (h.offers pq) = [] := by
      rw [List.filter_eq_nil_iff] at hfound ⊢
      intro e he hoffered
      exact hfound e he (Bool.and_eq_true_iff.mp hoffered).1
    rw [hmsg, hnone hfound, hoffers, records_nil, if_pos hfound]
    exact ⟨rfl, rfl, fun _ => rfl⟩
  · obtain ⟨hrcode, hanswer, hauthority⟩ := hsome hfound
    rw [hmsg, if_neg hfound]
    refine ⟨hrcode, hanswer, fun hempty => ?_⟩
    rw [hauthority, if_pos (hanswer.symm.trans hempty)]

omit hcontent in
theorem answer_unknown (hdom : h.domainFor q.name = some dom) (hsoa : q.qtype ≠ .soa)
    (hns : q.qtype ≠ .ns) (hunknown : (parseName h.unicode q.name dom).kind = .unknown) :
    h.answer shuffle range {} q = nxdomain {} dom := by
  simp only [answer, hdom, if_pos hunknown]

end Answer

/-! ## Where a record comes from -/

theorem sublist_limited (records : List RR) : (h.limited records).Sublist records := by
  unfold limited
  split
  · exact List.take_sublist _ _
  · exact List.Sublist.refl _

theorem limited_eq_nil_iff (records : List RR) : h.limited records = [] ↔ records = [] := by
  unfold limited
  split
  · rw [List.take_eq_nil_iff]
    exact or_iff_right (by omega)
  · rfl

section Service

variable {h shuffle range q dom} {pq : ParsedQuery} {entries : List ServiceEntry}

theorem exists_serviceRR (hkind : pq.kind ≠ .node) {rr : RR}
    (hrr : rr ∈ h.records shuffle range q dom pq entries) :
    ∃ e ∈ entries, h.serviceRR q (h.effectiveDC pq.datacenter) dom e = some rr := by
  rw [records, if_neg hkind] at hrr
  have hall :
      rr ∈ (shuffle.visit entries).filterMap (h.serviceRR q (h.effectiveDC pq.datacenter) dom) := by
    dsimp only at hrr
    split at hrr
    · exact hrr
    · exact (h.sublist_limited _).mem hrr
  obtain ⟨e, he, hsome⟩ := List.mem_filterMap.mp hall
  exact ⟨e, (shuffle.mem_visit entries e).mp he, hsome⟩

theorem records_eq_nil_iff (hkind : pq.kind ≠ .node) :
    h.records shuffle range q dom pq entries = [] ↔
      ∀ e ∈ entries, h.serviceRR q (h.effectiveDC pq.datacenter) dom e = none := by
  have hall :
      (shuffle.visit entries).filterMap (h.serviceRR q (h.effectiveDC pq.datacenter) dom) = [] ↔
      ∀ e ∈ entries, h.serviceRR q (h.effectiveDC pq.datacenter) dom e = none := by
    simp only [List.filterMap_eq_nil_iff, shuffle.mem_visit]
  rw [records, if_neg hkind]
  dsimp only
  split
  · exact hall
  · rw [limited_eq_nil_iff, hall]

end Service

end Handler

/-! ## Types of records -/

def RData.qtype : RData → QType
  | .a _ => .a
  | .aaaa _ => .aaaa
  | .srv .. => .srv
  | .txt _ => .txt
  | .soa .. => .soa
  | .ns _ => .ns

theorem qtype_addressRR {name : String} {ip : IP} {ttl : UInt32} {rr : RR}
    (h : addressRR name (some ip) ttl = some rr) : rr.data.qtype = if ip.isV6 then .aaaa else .a := by
  cases ip with
  | v4 bytes => obtain rfl := Option.some.inj h; rfl
  | v6 bytes => obtain rfl := Option.some.inj h; rfl

/-- The type of the records that a service question is answered with. -/
def serviceType : QType → QType
  | .srv => .srv
  | .aaaa => .aaaa
  | _ => .a

namespace Handler

section Types

variable {h : Handler} {q : Question}

theorem instanceRR_eq_some {wantV6 : Bool} {e : ServiceEntry} {rr : RR}
    (hrr : h.instanceRR q wantV6 e = some rr) :
    ∃ ip, h.parseIP e.reachableAddress = some ip ∧ ip.isV6 = wantV6 ∧
      addressRR q.name (some ip) h.cfg.serviceTTL = some rr := by
  rw [instanceRR, Option.bind_eq_some_iff] at hrr
  obtain ⟨ip, hip, hrr⟩ := hrr
  split at hrr
  · exact ⟨ip, hip, by assumption, hrr⟩
  · cases hrr

theorem qtype_instanceRR {wantV6 : Bool} {e : ServiceEntry} {rr : RR}
    (hrr : h.instanceRR q wantV6 e = some rr) :
    rr.data.qtype = if wantV6 then .aaaa else .a := by
  obtain ⟨ip, -, hfamily, hrr⟩ := instanceRR_eq_some hrr
  rw [qtype_addressRR hrr, hfamily]

theorem instanceRR_eq_none_iff {wantV6 : Bool} {e : ServiceEntry} :
    h.instanceRR q wantV6 e = none ↔ ∀ ip, h.parseIP e.reachableAddress = some ip →
      ip.isV6 ≠ wantV6 := by
  rw [instanceRR, Option.bind_eq_none_iff]
  refine forall₂_congr fun ip _ => ?_
  obtain ⟨rr, hrr⟩ := exists_addressRR q.name ip h.cfg.serviceTTL
  split
  · rename_i hfamily
    simp [hrr, hfamily]
  · rename_i hfamily
    simp [hfamily]

theorem qtype_serviceRR {dc dom : String} {e : ServiceEntry} {rr : RR}
    (hrr : h.serviceRR q dc dom e = some rr) :
    rr.data.qtype = serviceType q.qtype := by
  unfold serviceRR at hrr
  cases hq : q.qtype with
  | srv =>
    rw [hq] at hrr
    obtain rfl := Option.some.inj hrr
    rfl
  | aaaa => rw [hq] at hrr; exact qtype_instanceRR hrr
  | _ => rw [hq] at hrr; exact qtype_instanceRR hrr

end Types

end Handler

/-! ## A small registry -/

/-- One node, with an instance that has an address of its own and one that has not. -/
def office : Memory :=
  ((newMemory {}).run
    [.register (fun _ => 0)
      { node := { id := "n1", address := "10.0.0.1", datacenter := "dc1" }
        services :=
          [{ id := "db", name := "db", tags := ["primary"], address := "10.0.0.2", port := 5432 },
            { id := "web", name := "web", port := 80 }]
        generation := 1 }]).1

theorem office_reachable : Reachable office := ⟨{}, _, rfl⟩

def officeIP (s : String) : Option IP :=
  if s = "10.0.0.1" then some (.v4 (#v[10, 0, 0, 1].map UInt8.ofNat))
  else if s = "10.0.0.2" then some (.v4 (#v[10, 0, 0, 2].map UInt8.ofNat))
  else if s = "::" then some (.v6 (Vector.replicate 16 (UInt8.ofNat 0))) else none

def officeDNS : Handler :=
  newHandler (Consul.StoreRegistry.resolve office 0) .ascii officeIP
    { domain := "consul", datacenter := "dc1" }

theorem serves_office : Serves officeDNS.resolve (office.lookup 0 {}).entries :=
  serves_store office_reachable.filed 0

/-! ## Found or not -/

namespace Handler

variable (h : Handler)

/-- The entry is of the service and tag, or of the node, in the datacenter that the question is for. -/
def Names (pq : ParsedQuery) (e : ServiceEntry) : Prop :=
  (h.effectiveDC pq.datacenter = "" ∨ e.node.datacenter = h.effectiveDC pq.datacenter) ∧
    if pq.kind = .node then h.goesBy pq.node e = true
    else e.service.name = pq.service ∧ (pq.tag ≠ "" → pq.tag ∈ e.service.tags)

/-- The records that come from an entry. -/
def recordsOf (range : RangeOrder String) (q : Question) (dom : String) (pq : ParsedQuery)
    (e : ServiceEntry) :
    List RR :=
  if pq.kind = .node then h.nodeRRs range q e
  else (h.serviceRR q (h.effectiveDC pq.datacenter) dom e).toList

section Found

variable {h} {pq : ParsedQuery} {e : ServiceEntry}

theorem forall_tagsOf (pq : ParsedQuery) (tags : List String) :
    (∀ t ∈ tagsOf pq, t ∈ tags) ↔ (pq.tag ≠ "" → pq.tag ∈ tags) := by
  unfold tagsOf
  split <;> simp_all

/-- Without a name, a query selects every service. -/
theorem names_iff (hnode : pq.kind = .node → pq.service = "" ∧ pq.tag = "") :
    h.Names pq e ↔ h.asksFor pq e = true ∧ (pq.kind ≠ .node → e.service.name = pq.service) := by
  simp only [Names, asksFor, Selects, queryFor, forall_tagsOf, Bool.and_eq_true, decide_eq_true_eq]
  by_cases hkind : pq.kind = .node
  · simp [hkind, hnode hkind]
  · simp only [hkind, if_false, ne_eq, not_false_eq_true, decide_true, Bool.true_or, and_true,
      forall_const]
    tauto

theorem mem_recordsOf {shuffle : RangeOrder ServiceEntry} {range : RangeOrder String} {q : Question}
    {dom : String} {entries : List ServiceEntry} {rr : RR}
    (hrr : rr ∈ h.records shuffle range q dom pq entries) :
    ∃ e ∈ entries, rr ∈ h.recordsOf range q dom pq e := by
  by_cases hkind : pq.kind = .node
  · rw [records, if_pos hkind, List.mem_flatMap] at hrr
    obtain ⟨e, he, hrr⟩ := hrr
    refine ⟨e, List.mem_of_head? (Option.mem_toList.mp he), ?_⟩
    rwa [recordsOf, if_pos hkind]
  · obtain ⟨e, he, hsome⟩ := exists_serviceRR hkind hrr
    refine ⟨e, he, ?_⟩
    rw [recordsOf, if_neg hkind, hsome]
    simp

theorem length_records_le {shuffle : RangeOrder ServiceEntry} {range : RangeOrder String}
    {q : Question} {dom : String} (hkind : pq.kind ≠ .node) (hsrv : q.qtype ≠ .srv)
    (hlimit : 0 < h.cfg.aRecordLimit) (entries : List ServiceEntry) :
    (h.records shuffle range q dom pq entries).length ≤ h.cfg.aRecordLimit := by
  simp only [records, if_neg hkind, if_neg hsrv, limited, if_pos hlimit]
  have hlength := List.length_take_le h.cfg.aRecordLimit.toNat
    ((shuffle.visit entries).filterMap (h.serviceRR q (h.effectiveDC pq.datacenter) dom))
  omega

theorem health_of_offers (hoffers : h.offers pq e = true) :
    (e.health = .passing ∨ e.health = .warning) ∧ e.maintenance = false := by
  have hvisible : Health.visible e { onlyPassing := true } = true := (Bool.and_eq_true_iff.mp hoffers).2
  unfold Health.visible at hvisible
  cases hmaint : e.maintenance <;> cases hhealth : e.health <;> simp_all

end Found

/-- What a question about a name gets: a code for whether anything goes by the name, records of
instances that may be used, as many as are allowed, and the SOA if there are none. -/
structure Dichotomy (content : List ServiceEntry) (range : RangeOrder String) (q : Question)
    (dom : String) (pq : ParsedQuery) (msg : Msg) : Prop where
  nxdomain : msg.rcode = .nameError ↔ pq.kind = .unknown ∨ ∀ e ∈ content, ¬h.Names pq e
  noerror : msg.rcode ≠ .nameError → msg.rcode = .success
  authority : msg.answer = [] → msg.ns = [soa dom]
  healthy : ∀ rr ∈ msg.answer, ∃ e ∈ content, rr ∈ h.recordsOf range q dom pq e ∧
    (e.health = .passing ∨ e.health = .warning) ∧ e.maintenance = false
  limit : 0 < h.cfg.aRecordLimit → pq.kind = .service → q.qtype ≠ .srv →
    msg.answer.length ≤ h.cfg.aRecordLimit

section Found

variable {h} {content : List ServiceEntry} {pq : ParsedQuery}

/-- What goes by the name is asked for. The other way round it takes the name. -/
theorem asked_iff_named (hnode : pq.kind = .node → pq.service = "" ∧ pq.tag = "")
    (hknown : pq.kind ≠ .unknown) :
    ((∀ e ∈ content, ¬h.asksFor pq e = true) ↔ ∀ e ∈ content, ¬h.Names pq e) ↔
      (pq.kind = .service → pq.service = "" → (∃ e ∈ content, h.asksFor pq e = true) →
        ∃ e ∈ content, e.service.name = "" ∧ h.asksFor pq e = true) := by
  constructor
  · intro hsame hkind hblank ⟨e, he, hasks⟩
    by_contra hnone
    refine hsame.mpr (fun e he hnames => ?_) e he hasks
    obtain ⟨hasks, hname⟩ := (names_iff hnode).mp hnames
    exact hnone ⟨e, he, (hname (by simp [hkind])).trans hblank, hasks⟩
  · intro hcond
    refine ⟨fun hnone e he hnames => hnone e he ((names_iff hnode).mp hnames).1,
      fun hnone e he hasks => ?_⟩
    by_cases hservice : pq.kind = .service
    · by_cases hblank : pq.service = ""
      · obtain ⟨e', he', hname, hasks'⟩ := hcond hservice hblank ⟨e, he, hasks⟩
        exact hnone e' he' ((names_iff hnode).mpr ⟨hasks', fun _ => hname.trans hblank.symm⟩)
      · have hselects :
          Selects (h.queryFor pq) e := of_decide_eq_true (Bool.and_eq_true_iff.mp hasks).1
        exact hnone e he ((names_iff hnode).mpr ⟨hasks, fun _ => hselects.1.resolve_left hblank⟩)
    · have hkind : pq.kind = .node := by
        cases hk : pq.kind with
        | unknown => exact absurd hk hknown
        | service => exact absurd hk hservice
        | node => rfl
      exact hnone e he ((names_iff hnode).mpr ⟨hasks, fun hne => absurd hkind hne⟩)

/-- Apart from the code, everything is as it should be. -/
theorem dichotomy_iff_code (hcontent : Serves h.resolve content) {shuffle : RangeOrder ServiceEntry}
    {range : RangeOrder String} {q : Question} {dom : String} (hdom : h.domainFor q.name = some dom)
    (hsoa : q.qtype ≠ .soa) (hns : q.qtype ≠ .ns) (hpq : parseName h.unicode q.name dom = pq)
    (hknown : pq.kind ≠ .unknown) :
    h.Dichotomy content range q dom pq (h.answer shuffle range {} q) ↔
      ((∀ e ∈ content, ¬h.asksFor pq e = true) ↔ ∀ e ∈ content, ¬h.Names pq e) := by
  obtain ⟨hrcode, hanswer, hauthority⟩ :=
    answer_spec shuffle range q dom hcontent pq hdom hsoa hns hpq hknown
  have hcode : (h.answer shuffle range {} q).rcode = .nameError ↔
      ∀ e ∈ content, ¬h.asksFor pq e = true := by
    rw [hrcode, ← List.filter_eq_nil_iff]
    split <;> simp_all
  constructor
  · rintro ⟨hnx, -, -, -, -⟩
    rw [← hcode, hnx, or_iff_right hknown]
  · intro hsame
    refine ⟨by rw [hcode, hsame, or_iff_right hknown], ?_, hauthority, ?_, ?_⟩
    · rw [hrcode]
      split <;> simp
    · intro rr hrr
      rw [hanswer] at hrr
      obtain ⟨e, he, hrr⟩ := mem_recordsOf hrr
      obtain ⟨hmem, hoffers⟩ := List.mem_filter.mp he
      exact ⟨e, hmem, hrr, health_of_offers hoffers⟩
    · intro hlimit hkind hsrv
      rw [hanswer]
      exact length_records_le (by simp [hkind]) hsrv hlimit _

end Found

/-- The code is right unless the question is for the service without a name: then it is NOERROR
although no entry goes by that name. -/
theorem dichotomy_iff (h : Handler) (content : List ServiceEntry)
    (hcontent : Serves h.resolve content) (shuffle : RangeOrder ServiceEntry)
    (range : RangeOrder String) (q : Question) (dom : String) (hdom : h.domainFor q.name = some dom)
    (hsoa : q.qtype ≠ .soa) (hns : q.qtype ≠ .ns) (pq : ParsedQuery)
    (hpq : parseName h.unicode q.name dom = pq) :
    h.Dichotomy content range q dom pq (h.answer shuffle range {} q) ↔
      (pq.kind = .service → pq.service = "" → (∃ e ∈ content, h.asksFor pq e = true) →
        ∃ e ∈ content, e.service.name = "" ∧ h.asksFor pq e = true) := by
  by_cases hunknown : pq.kind = .unknown
  · have hmsg := answer_unknown shuffle range q dom hdom hsoa hns (hpq ▸ hunknown)
    refine iff_of_true ?_ (by simp [hunknown])
    rw [hmsg]
    exact ⟨by simp [Handler.nxdomain, hunknown], by simp [Handler.nxdomain],
      by simp [Handler.nxdomain],
      by simp [Handler.nxdomain], by simp [hunknown]⟩
  · have hnode : pq.kind = .node → pq.service = "" ∧ pq.tag = "" := by
      intro hkind
      rw [← hpq] at hkind ⊢
      exact parseName_node_query hkind
    rw [dichotomy_iff_code hcontent hdom hsoa hns hpq hunknown, asked_iff_named hnode hunknown]

theorem dichotomy_iff_db :
    officeDNS.Dichotomy (office.lookup 0 {}).entries .asStored
      ⟨"db.service.consul.", .aaaa⟩ "consul." { kind := .service, service := "db" }
      (officeDNS.answer .asStored .asStored {} ⟨"db.service.consul.", .aaaa⟩) :=
  (dichotomy_iff officeDNS _ serves_office .asStored .asStored
    ⟨"db.service.consul.", .aaaa⟩ "consul."
    (by decide +kernel) (by decide) (by decide) _ (by decide +kernel)).mpr (by decide)

/-- `_._primary` finds the primary of every service, so the name without a service exists. -/
theorem blank_service_noerror :
    ¬∀ (h : Handler) (content : List ServiceEntry), Serves h.resolve content →
      ∀ (shuffle : RangeOrder ServiceEntry) (range : RangeOrder String) (q : Question) (dom : String),
        h.domainFor q.name = some dom → q.qtype ≠ .soa → q.qtype ≠ .ns → ∀ pq,
          parseName h.unicode q.name dom = pq →
            h.Dichotomy content range q dom pq (h.answer shuffle range {} q) := by
  intro hall
  have hcode :=
    (hall officeDNS _ serves_office .asStored .asStored ⟨"_._primary.service.consul.", .a⟩ "consul."
    (by decide +kernel) (by decide) (by decide) { kind := .service, tag := "primary" }
      (by decide +kernel)).nxdomain
  have hnamed : ∀ e ∈ (office.lookup 0 {}).entries, e.service.name ≠ "" := by decide +kernel
  have hnx := hcode.mpr (Or.inr fun e he hnames => hnamed e he hnames.2.1)
  revert hnx
  decide +kernel

/-! ## Only the service that was asked for -/

/-- Each address and each SRV record of the answer is made of an instance of the service, with the
tag if there is one. -/
def OnlyService (content : List ServiceEntry) (q : Question) (dom : String) (pq : ParsedQuery)
    (msg : Msg) : Prop :=
  ∀ rr ∈ msg.answer, rr.data.qtype = .a ∨ rr.data.qtype = .aaaa ∨ rr.data.qtype = .srv →
    ∃ e ∈ content, h.serviceRR q (h.effectiveDC pq.datacenter) dom e = some rr ∧
      e.service.name = pq.service ∧ (pq.tag ≠ "" → pq.tag ∈ e.service.tags)

/-- Another read path for the same handler. -/
def reading (resolve : Query → Except String LookupResult) : Handler := { h with resolve := resolve }

theorem serves_filter (content : List ServiceEntry) :
    Serves (fun q => .ok { entries := content.filter (Selects q ·) }) content := fun _ =>
      ⟨_, rfl, rfl⟩

section OnlyService

variable {h} {q : Question} {dom : String} {pq : ParsedQuery}

theorem onlyService_of_named {content : List ServiceEntry} (hcontent : Serves h.resolve content)
    {shuffle : RangeOrder ServiceEntry} {range : RangeOrder String}
    (hdom : h.domainFor q.name = some dom) (hsoa : q.qtype ≠ .soa) (hns : q.qtype ≠ .ns)
    (hpq : parseName h.unicode q.name dom = pq) (hkind : pq.kind = .service)
    (hname : pq.service ≠ "") :
    h.OnlyService content q dom pq (h.answer shuffle range {} q) := by
  intro rr hrr _
  have hspec := answer_spec shuffle range q dom hcontent pq hdom hsoa hns hpq (by simp [hkind])
  rw [hspec.2.1] at hrr
  obtain ⟨e, he, hsome⟩ := exists_serviceRR (by simp [hkind]) hrr
  obtain ⟨hmem, hoffers⟩ := List.mem_filter.mp he
  have hasks : h.asksFor pq e = true := (Bool.and_eq_true_iff.mp hoffers).1
  have hselects : Selects (h.queryFor pq) e := of_decide_eq_true (Bool.and_eq_true_iff.mp hasks).1
  exact ⟨e, hmem, hsome, hselects.1.resolve_left hname,
    (forall_tagsOf pq e.service.tags).mp hselects.2.2⟩

theorem onlyService_soa {content : List ServiceEntry} {shuffle : RangeOrder ServiceEntry}
    {range : RangeOrder String} (hdom : h.domainFor q.name = some dom)
    (hq : q.qtype = .soa ∨ q.qtype = .ns) :
    h.OnlyService content q dom pq (h.answer shuffle range {} q) := by
  intro rr hrr htype
  rcases hq with hq | hq
  · simp only [answer, hdom, hq, List.nil_append, List.mem_singleton] at hrr
    simp [hrr, soa, RData.qtype] at htype
  · simp only [answer, hdom, hq, List.nil_append, List.mem_singleton] at hrr
    simp [hrr, ns, RData.qtype] at htype

/-- An instance of another service that carries every tag of the question. -/
def stranger (h : Handler) (pq : ParsedQuery) (addr : String) : ServiceEntry :=
  { node := { id := "n", address := addr, datacenter := h.effectiveDC pq.datacenter }
    service := { id := "other", name := "other", tags := tagsOf pq, address := addr }
    health := .passing }

theorem exists_stranger (hv4 : ∃ s bytes, h.parseIP s = some (.v4 bytes))
    (hv6 : ∃ s bytes, h.parseIP s = some (.v6 bytes)) (pq : ParsedQuery) (dc : String) :
    ∃ addr, h.serviceRR q dc dom (stranger h pq addr) ≠ none := by
  have haddr : ∀ addr, (stranger h pq addr).reachableAddress = addr := by
    intro addr
    exact ite_self addr
  unfold serviceRR
  obtain ⟨s, bytes, hs⟩ := hv4
  obtain ⟨s', bytes', hs'⟩ := hv6
  cases q.qtype with
  | srv => exact ⟨"", by simp⟩
  | aaaa =>
    refine ⟨s', fun hnone => ?_⟩
    exact instanceRR_eq_none_iff.mp hnone _ ((haddr s').symm ▸ hs') rfl
  | _ =>
    refine ⟨s, fun hnone => ?_⟩
    exact instanceRR_eq_none_iff.mp hnone _ ((haddr s).symm ▸ hs) rfl

theorem offers_stranger (hkind : pq.kind = .service) (hblank : pq.service = "") (addr : String) :
    h.offers pq (stranger h pq addr) = true := by
  simp [offers, asksFor, Selects, queryFor, stranger, Health.visible, hkind, hblank]

theorem not_onlyService_stranger {resolve : Query → Except String LookupResult} {addr : String}
    (hcontent : Serves resolve [stranger h pq addr]) (hdom : h.domainFor q.name = some dom)
    (hsoa : q.qtype ≠ .soa) (hns : q.qtype ≠ .ns) (hpq : parseName h.unicode q.name dom = pq)
    (hkind : pq.kind = .service) (hblank : pq.service = "")
    (haddr : h.serviceRR q (h.effectiveDC pq.datacenter) dom (stranger h pq addr) ≠ none) :
    ¬h.OnlyService [stranger h pq addr] q dom pq
      ((h.reading resolve).answer .asStored .asStored {} q) := by
  intro honly
  have hspec :=
    answer_spec (h := h.reading resolve) .asStored .asStored q dom hcontent pq hdom hsoa hns hpq
    (by simp [hkind])
  have hoffered :
      [stranger h pq addr].filter ((h.reading resolve).offers pq) = [stranger h pq addr] := by
    refine List.filter_eq_self.mpr fun e he => ?_
    rw [List.mem_singleton.mp he]
    exact offers_stranger (h := h.reading resolve) hkind hblank addr
  rw [hoffered] at hspec
  have hne : (h.reading resolve).records .asStored .asStored q dom pq [stranger h pq addr] ≠ [] := by
    rw [ne_eq, records_eq_nil_iff (by simp [hkind])]
    intro hnone
    exact haddr (hnone _ (by simp))
  obtain ⟨rr, hrr⟩ := List.exists_mem_of_ne_nil _ hne
  obtain ⟨e, -, hsome⟩ := exists_serviceRR (by simp [hkind]) hrr
  have htype : rr.data.qtype = .a ∨ rr.data.qtype = .aaaa ∨ rr.data.qtype = .srv := by
    rw [qtype_serviceRR hsome]
    cases q.qtype <;> simp [serviceType]
  obtain ⟨e', he', -, hname, -⟩ := honly rr (hspec.2.1 ▸ hrr) htype
  rw [List.mem_singleton.mp he', hblank] at hname
  exact absurd hname (by simp [stranger])

end OnlyService

/-- The answers to a question are only about its service, whatever is registered, exactly if the
question has a service: without one, the query that is passed on lists them all. -/
theorem onlyService_iff (h : Handler) (hv4 : ∃ s bytes, h.parseIP s = some (.v4 bytes))
    (hv6 : ∃ s bytes, h.parseIP s = some (.v6 bytes)) (q : Question) (dom : String)
    (hdom : h.domainFor q.name = some dom) (pq : ParsedQuery)
    (hpq : parseName h.unicode q.name dom = pq) (hkind : pq.kind = .service) :
    (∀ resolve content, Serves resolve content → ∀ shuffle range,
      h.OnlyService content q dom pq ((h.reading resolve).answer shuffle range {} q)) ↔
    pq.service ≠ "" ∨ q.qtype = .soa ∨ q.qtype = .ns := by
  constructor
  · intro hall
    by_contra hnot
    push Not at hnot
    obtain ⟨hblank, hsoa, hns⟩ := hnot
    obtain ⟨addr, haddr⟩ := exists_stranger hv4 hv6 pq (h.effectiveDC pq.datacenter)
    exact not_onlyService_stranger (serves_filter _) hdom hsoa hns hpq hkind hblank haddr
      (hall _ _ (serves_filter [stranger h pq addr]) .asStored .asStored)
  · rintro hcond resolve content hcontent shuffle range
    by_cases hq : q.qtype = .soa ∨ q.qtype = .ns
    · exact onlyService_soa (h := h.reading resolve) hdom hq
    · push Not at hq
      exact onlyService_of_named (h := h.reading resolve) hcontent hdom hq.1 hq.2 hpq hkind
        (hcond.resolve_right (by simp [hq]))

theorem onlyService_iff_db :
    officeDNS.OnlyService (office.lookup 0 {}).entries ⟨"db.service.consul.", .srv⟩ "consul."
      { kind := .service, service := "db" }
      ((officeDNS.reading officeDNS.resolve).answer .asStored .asStored {}
        ⟨"db.service.consul.", .srv⟩) := by
  have honly := (onlyService_iff officeDNS ⟨"10.0.0.1", _, rfl⟩ ⟨"::", _, rfl⟩
    ⟨"db.service.consul.", .srv⟩ "consul." (by decide +kernel) { kind := .service, service := "db" }
    (by decide +kernel) rfl).mpr (Or.inl (by decide))
  exact honly officeDNS.resolve _ serves_office .asStored .asStored

/-- Asked for no service but for a tag, the registry answers with the instance of another service. -/
theorem blank_service_lists_others :
    ¬∀ (h : Handler) (m : Memory), Reachable m → ∀ (now : Time) (q : Question) (dom : String),
      h.resolve = Consul.StoreRegistry.resolve m now → h.domainFor q.name = some dom →
        (parseName h.unicode q.name dom).kind = .service → ∀ shuffle range,
          h.OnlyService (m.lookup now {}).entries q dom (parseName h.unicode q.name dom)
            (h.answer shuffle range {} q) := by
  intro hall
  have honly :=
    hall officeDNS office office_reachable 0 ⟨"_._primary.service.consul.", .a⟩ "consul." rfl
    (by decide +kernel) (by decide +kernel) .asStored .asStored
  have hmem : ⟨"_._primary.service.consul.", 0, .a #v[10, 0, 0, 2]⟩ ∈
      (officeDNS.answer .asStored .asStored {} ⟨"_._primary.service.consul.", .a⟩).answer := by
    decide +kernel
  obtain ⟨e, he, -, hname, -⟩ := honly _ hmem (Or.inl rfl)
  have hblank : (parseName officeDNS.unicode "_._primary.service.consul." "consul.").service =
      "" := by decide +kernel
  have hnamed : ∀ e ∈ (office.lookup 0 {}).entries, e.service.name ≠ "" := by decide +kernel
  exact hnamed e he (hname.trans hblank)

end Handler

end YellowPages.Consuldns
