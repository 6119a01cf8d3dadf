import YellowPages.Consuldns.Handler

/-!
# The two zones

A handler serves a primary zone and possibly an alternative one. The same labels asked for under
either get the same records, each named under the zone of the question.
-/

namespace YellowPages.Consuldns

open Lib

/-! ## Names under a zone -/

/-- The labels of a name before its zone, each with the dot after it. -/
def stem : List String → String
  | [] => ""
  | l :: rest => l ++ "." ++ stem rest

/-- `p.d`: the name of the labels `p` under the zone `d`. Without labels it is the zone's own. -/
def qualify (p : List String) (d : String) : String := stem p ++ d

theorem stem_cases (p : List String) : stem p = "" ∨ ∃ s, stem p = s ++ "." := by
  induction p with
  | nil => exact Or.inl rfl
  | cons l rest ih =>
    right
    rcases ih with h | ⟨s, h⟩
    · exact ⟨l, by rw [stem, h, String.append_empty]⟩
    · exact ⟨l ++ "." ++ s, by rw [stem, h, ← String.append_assoc]⟩

section Parse

variable (u : Unicode)

/-- What a name is for, by the labels before its zone. -/
def parseStem (p : List String) : ParsedQuery :=
  let start := trimSuffix (u.toLower (stem p)) "."
  if start = "" then {} else parseLabels (splitOn start '.')

variable {d : String}

theorem toLower_qualify (hd : hasSuffix d "." = true) (p : List String) :
    u.toLower (trimSuffix (qualify p d) ".") = u.toLower (stem p) ++ u.toLower (trimSuffix d ".") := by
  obtain ⟨z, rfl⟩ := (hasSuffix_iff _ _).mp hd
  rw [qualify, ← String.append_assoc, trimSuffix_append, trimSuffix_append, u.toLower_append]

theorem fallsUnder_qualify (hd : hasSuffix d "." = true) (p : List String) :
    fallsUnder u (qualify p d) d = true := by
  rw [fallsUnder, toLower_qualify u hd]
  rcases stem_cases p with h | ⟨s, h⟩
  · simp [h]
  · have hsuffix : u.toLower (s ++ ".") ++ u.toLower (trimSuffix d ".") =
        u.toLower s ++ ("." ++ u.toLower (trimSuffix d ".")) := by
      rw [u.toLower_append, u.toLower_dot, String.append_assoc]
    rw [h, hsuffix, hasSuffix_append, Bool.or_true]

/-- The zone does not matter for what is parsed, not even if the labels before it look like it. -/
theorem parseName_qualify (hd : hasSuffix d "." = true) (p : List String) :
    parseName u (qualify p d) d = parseStem u p := by
  have hunder := fallsUnder_qualify u hd p
  simp only [fallsUnder, Bool.or_eq_true, decide_eq_true_eq] at hunder
  have hnot : ¬(u.toLower (trimSuffix (qualify p d) ".") ≠ u.toLower (trimSuffix d ".") ∧
      (!hasSuffix (u.toLower (trimSuffix (qualify p d) "."))
        ("." ++ u.toLower (trimSuffix d "."))) = true) := by
    rintro ⟨hne, hsuffix⟩
    rcases hunder with h | h
    · exact hne h
    · rw [h] at hsuffix
      exact Bool.false_ne_true hsuffix
  rw [parseName, if_neg hnot, toLower_qualify u hd, trimSuffix_append]
  rfl

example : parseName .ascii "Web.service.consul.CONSUL." "consul." =
    { kind := .service, service := "web", datacenter := "consul" } := by decide +kernel

end Parse

/-! ## Renaming the records of a message -/

def RData.mapNames (f : String → String) : RData → RData
  | .srv priority weight port target => .srv priority weight port (f target)
  | .soa server mbox serial refresh retry expire minttl =>
    .soa (f server) (f mbox) serial refresh retry expire minttl
  | .ns server => .ns (f server)
  | data => data

def RR.mapNames (f : String → String) (rr : RR) : RR :=
  { rr with name := f rr.name, data := rr.data.mapNames f }

def Msg.mapNames (f : String → String) (m : Msg) : Msg :=
  { m with answer := m.answer.map (RR.mapNames f), ns := m.ns.map (RR.mapNames f),
           extra := m.extra.map (RR.mapNames f) }

/-- `name` with the zone `d₁` at its end replaced by `d₂`. -/
def rezone (d₁ d₂ name : String) : String :=
  if hasSuffix name d₁ then trimSuffix name d₁ ++ d₂ else name

@[simp] theorem rezone_append (d₁ d₂ s : String) : rezone d₁ d₂ (s ++ d₁) = s ++ d₂ := by
  rw [rezone, if_pos (hasSuffix_append s d₁), trimSuffix_append]

@[simp] theorem rezone_self (d₁ d₂ : String) : rezone d₁ d₂ d₁ = d₂ := by
  simpa using rezone_append d₁ d₂ ""

@[simp] theorem rezone_qualify (d₁ d₂ : String) (p : List String) :
    rezone d₁ d₂ (qualify p d₁) = qualify p d₂ := rezone_append d₁ d₂ (stem p)

section Rename

variable (d₁ d₂ : String)

@[simp] theorem mapNames_soa : (soa d₁).mapNames (rezone d₁ d₂) = soa d₂ := by
  simp [soa, RR.mapNames, RData.mapNames]

@[simp] theorem mapNames_ns (p : List String) :
    (ns (qualify p d₁) d₁).mapNames (rezone d₁ d₂) = ns (qualify p d₂) d₂ := by
  simp [ns, RR.mapNames, RData.mapNames]

theorem mapNames_addressRR (f : String → String) (name : String) (ip : Option IP) (ttl : UInt32) :
    (addressRR name ip ttl).map (RR.mapNames f) = addressRR (f name) ip ttl := by
  rcases ip with _ | (_ | _) <;> rfl

theorem mapNames_toList_addressRR (f : String → String) (name : String) (ip : Option IP)
    (ttl : UInt32) :
    (addressRR name ip ttl).toList.map (RR.mapNames f) = (addressRR (f name) ip ttl).toList := by
  rw [← mapNames_addressRR, Option.toList_map]

theorem mapNames_metaTXT (f : String → String) (range : RangeOrder String) (name : String)
    (metadata : Map String) (ttl : UInt32) :
    (metaTXT range name metadata ttl).map (RR.mapNames f) = metaTXT range (f name) metadata ttl := by
  rw [metaTXT, List.map_map]
  rfl

theorem mapNames_nxdomain (resp : Msg) :
    (Handler.nxdomain resp d₁).mapNames (rezone d₁ d₂) =
      Handler.nxdomain (resp.mapNames (rezone d₁ d₂)) d₂ := by
  simp [Handler.nxdomain, Msg.mapNames]

theorem mapNames_orSOA (resp : Msg) :
    (Handler.orSOA d₁ resp).mapNames (rezone d₁ d₂) = Handler.orSOA d₂
      (resp.mapNames (rezone d₁ d₂)) := by
  unfold Handler.orSOA
  by_cases h : resp.answer = []
  · rw [if_pos h, if_pos (by simp [Msg.mapNames, h])]
    simp [Msg.mapNames]
  · rw [if_neg h, if_neg (by simp [Msg.mapNames, h])]

namespace Handler

variable (h : Handler)

theorem rezone_srvTarget (e : ServiceEntry) (dc : String) :
    h.srvTarget e dc d₂ = ((rezone d₁ d₂ (h.srvTarget e dc d₁).1), (h.srvTarget e dc d₁).2) := by
  unfold srvTarget
  dsimp only
  split
  · simp
  · split <;> simp

variable (p : List String) (qtype : QType)

theorem mapNames_appendSRV (dc : String) (resp : Msg) (e : ServiceEntry) :
    (h.appendSRV ⟨qualify p d₁, qtype⟩ dc d₁ resp e).mapNames (rezone d₁ d₂) =
      h.appendSRV ⟨qualify p d₂, qtype⟩ dc d₂ (resp.mapNames (rezone d₁ d₂)) e := by
  simp [appendSRV, rezone_srvTarget d₁ d₂, Msg.mapNames, RR.mapNames, RData.mapNames,
    mapNames_toList_addressRR]

theorem mapNames_foldl_appendSRV (dc : String) (resp : Msg) (entries : List ServiceEntry) :
    (entries.foldl (h.appendSRV ⟨qualify p d₁, qtype⟩ dc d₁) resp).mapNames (rezone d₁ d₂) =
      entries.foldl (h.appendSRV ⟨qualify p d₂, qtype⟩ dc d₂) (resp.mapNames (rezone d₁ d₂)) := by
  induction entries generalizing resp with
  | nil => rfl
  | cons e rest ih => rw [List.foldl_cons, List.foldl_cons, ih, mapNames_appendSRV]

theorem mapNames_appendAddresses (wantV6 : Bool) (resp : Msg) (count : Int)
    (entries : List ServiceEntry) :
    (h.appendAddresses ⟨qualify p d₁, qtype⟩ wantV6 resp count entries).mapNames (rezone d₁ d₂) =
      h.appendAddresses ⟨qualify p d₂, qtype⟩ wantV6
        (resp.mapNames (rezone d₁ d₂)) count entries := by
  induction entries generalizing resp count with
  | nil => rfl
  | cons e rest ih =>
    unfold appendAddresses
    cases hip : h.parseIP e.reachableAddress with
    | none => exact ih resp count
    | some ip =>
      dsimp only
      by_cases hv6 : ip.isV6 ≠ wantV6
      · rw [if_pos hv6, if_pos hv6]
        exact ih resp count
      · have hrename : addressRR (qualify p d₂) (some ip) h.cfg.serviceTTL =
            (addressRR (qualify p d₁) (some ip) h.cfg.serviceTTL).map
              (RR.mapNames (rezone d₁ d₂)) := by
          rw [mapNames_addressRR, rezone_qualify]
        rw [if_neg hv6, if_neg hv6, hrename]
        cases hrr : addressRR (qualify p d₁) (some ip) h.cfg.serviceTTL with
        | none => exact ih resp count
        | some rr =>
          dsimp only [Option.map_some]
          have happend :
              ({ resp with answer := resp.answer ++ [rr] } : Msg).mapNames (rezone d₁ d₂) =
              { resp.mapNames (rezone d₁ d₂) with
                answer := (resp.mapNames (rezone d₁ d₂)).answer ++
                  [rr.mapNames (rezone d₁ d₂)] } := by
            simp [Msg.mapNames]
          split
          · exact happend
          · rw [ih, happend]

theorem mapNames_renderService (shuffle : RangeOrder ServiceEntry) (resp : Msg)
    (entries : List ServiceEntry) (dc : String) :
    (h.renderService shuffle resp ⟨qualify p d₁, qtype⟩ entries dc d₁).mapNames (rezone d₁ d₂) =
      h.renderService shuffle
        (resp.mapNames (rezone d₁ d₂)) ⟨qualify p d₂, qtype⟩ entries dc d₂ := by
  rw [renderService, renderService, mapNames_orSOA]
  congr 1
  cases qtype
  case srv => exact mapNames_foldl_appendSRV ..
  all_goals exact mapNames_appendAddresses ..

theorem mapNames_renderNode (range : RangeOrder String) (resp : Msg) (e : ServiceEntry) :
    (h.renderNode range resp ⟨qualify p d₁, qtype⟩ e d₁).mapNames (rezone d₁ d₂) =
      h.renderNode range (resp.mapNames (rezone d₁ d₂)) ⟨qualify p d₂, qtype⟩ e d₂ := by
  rw [renderNode, renderNode, mapNames_orSOA]
  congr 1
  cases qtype
  case txt => simp [Msg.mapNames, mapNames_metaTXT]
  all_goals simp [Msg.mapNames, mapNames_toList_addressRR]

theorem mapNames_answerQuery (shuffle : RangeOrder ServiceEntry) (range : RangeOrder String)
    (resp : Msg) (pq : ParsedQuery) :
    (h.answerQuery shuffle range resp ⟨qualify p d₁, qtype⟩ d₁ pq).mapNames (rezone d₁ d₂) =
      h.answerQuery shuffle range (resp.mapNames (rezone d₁ d₂)) ⟨qualify p d₂, qtype⟩ d₂ pq := by
  unfold answerQuery
  dsimp only
  cases h.resolve _ with
  | error err => rfl
  | ok all =>
    dsimp only
    generalize (if pq.kind = .node then h.filterNode all.entries pq.node else all.entries) = entries
    split
    · exact mapNames_nxdomain d₁ d₂ resp
    cases Health.filter entries _ with
    | nil => simp [Msg.mapNames]
    | cons first more =>
      dsimp only
      split
      · exact mapNames_renderNode ..
      · exact mapNames_renderService ..

/-- The first zone is asked first, so nothing under it is taken for the other one. -/
theorem domainFor_primary : h.domainFor (qualify p h.cfg.domain) = some h.cfg.domain := by
  have hne : h.cfg.domain ≠ "" := by
    intro hempty
    have hdot := h.domain_dot
    rw [hempty] at hdot
    exact absurd hdot (by decide)
  rw [domainFor, List.find?_cons_of_pos]
  simp [hne, fallsUnder_qualify h.unicode h.domain_dot]

end Handler

end Rename

/-! ## The order of the metadata -/

/-- Two messages that differ in the order of their answers, at most. -/
structure Msg.SameRecords (m m' : Msg) : Prop where
  rcode : m.rcode = m'.rcode
  answer : m.answer.Perm m'.answer
  ns : m.ns = m'.ns
  extra : m.extra = m'.extra

theorem Msg.SameRecords.refl (m : Msg) : m.SameRecords m := ⟨rfl, .refl _, rfl, rfl⟩

theorem Msg.SameRecords.orSOA {m m' : Msg} (hm : m.SameRecords m') (dom : String) :
    (Handler.orSOA dom m).SameRecords (Handler.orSOA dom m') := by
  unfold Handler.orSOA
  by_cases hnil : m.answer = []
  · have hnil' : m'.answer = [] := List.nil_perm.mp (hnil ▸ hm.answer)
    rw [if_pos hnil, if_pos hnil']
    exact ⟨hm.rcode, hm.answer, congrArg (· ++ [soa dom]) hm.ns, hm.extra⟩
  · have hnil' : m'.answer ≠ [] := fun h' => hnil (List.perm_nil.mp (h' ▸ hm.answer))
    rw [if_neg hnil, if_neg hnil']
    exact hm

theorem metaTXT_perm (range range' : RangeOrder String) (name : String) (metadata : Map String)
    (ttl : UInt32) :
    (metaTXT range name metadata ttl).Perm (metaTXT range' name metadata ttl) :=
  ((range.perm _).trans (range'.perm _).symm).map _

namespace Handler

variable (h : Handler) (shuffle : RangeOrder ServiceEntry) (range range' : RangeOrder String)
  (resp : Msg)

theorem renderNode_range (q : Question) (e : ServiceEntry) (dom : String) :
    (h.renderNode range resp q e dom).SameRecords (h.renderNode range' resp q e dom) := by
  rw [renderNode, renderNode]
  apply Msg.SameRecords.orSOA
  refine ⟨rfl, ?_, rfl, rfl⟩
  dsimp only
  split
  · exact (metaTXT_perm ..).append_left _
  · exact List.Perm.refl _

theorem answerQuery_range (q : Question) (dom : String) (pq : ParsedQuery) :
    (h.answerQuery shuffle range resp q dom pq).SameRecords
      (h.answerQuery shuffle range' resp q dom pq) := by
  unfold answerQuery
  dsimp only
  split
  · exact Msg.SameRecords.refl _
  generalize (if pq.kind = .node then _ else _) = entries
  split
  · exact Msg.SameRecords.refl _
  split
  · exact Msg.SameRecords.refl _
  split
  · exact renderNode_range ..
  · exact Msg.SameRecords.refl _

theorem answer_range (q : Question) :
    (h.answer shuffle range resp q).SameRecords (h.answer shuffle range' resp q) := by
  unfold answer
  split
  · exact Msg.SameRecords.refl _
  split
  · exact Msg.SameRecords.refl _
  · exact Msg.SameRecords.refl _
  dsimp only
  split
  · exact Msg.SameRecords.refl _
  · exact answerQuery_range ..

/-! ## The answers -/

variable {h} {d₁ d₂ : String} {p : List String}

theorem mapNames_answer (hdot₁ : hasSuffix d₁ "." = true) (hdot₂ : hasSuffix d₂ "." = true)
    (hdom₁ : h.domainFor (qualify p d₁) = some d₁) (hdom₂ : h.domainFor (qualify p d₂) = some d₂)
    (qtype : QType) :
    (h.answer shuffle range resp ⟨qualify p d₁, qtype⟩).mapNames (rezone d₁ d₂) =
      h.answer shuffle range (resp.mapNames (rezone d₁ d₂)) ⟨qualify p d₂, qtype⟩ := by
  unfold answer
  dsimp only
  rw [hdom₁, hdom₂]
  dsimp only
  -- Both names are parsed by the same labels, whatever the zones are.
  rw [parseName_qualify h.unicode hdot₁, parseName_qualify h.unicode hdot₂]
  cases qtype
  case soa => simp [Msg.mapNames]
  case ns => simp [Msg.mapNames]
  all_goals
    dsimp only
    split
    · exact mapNames_nxdomain d₁ d₂ resp
    · exact mapNames_answerQuery ..

theorem hasSuffix_of_domainFor {name : String} (hdom : h.domainFor name = some d₂) :
    hasSuffix d₂ "." = true := by
  rw [domainFor] at hdom
  have hne := List.find?_some hdom
  have hmem := List.mem_of_find?_eq_some hdom
  simp only [ne_eq, Bool.and_eq_true, decide_eq_true_eq] at hne
  rcases List.mem_pair.mp hmem with rfl | rfl
  · exact h.domain_dot
  · exact h.altDomain_dot hne.1

/-- Labels that fall under the alternative zone get the answers there that they get under the primary
one, for every type of question, registry and shuffle, with one zone put for the other in the names.
Only the records of a node's metadata come in an order of their own each time. -/
theorem zones_interchangeable (h : Handler) (p : List String)
    (halt : h.domainFor (qualify p h.cfg.altDomain) = some h.cfg.altDomain) (qtype : QType)
    (shuffle : RangeOrder ServiceEntry) (range : RangeOrder String) :
    h.answer shuffle range {} ⟨qualify p h.cfg.altDomain, qtype⟩ =
        (h.answer shuffle range {} ⟨qualify p h.cfg.domain, qtype⟩).mapNames
          (rezone h.cfg.domain h.cfg.altDomain) ∧
      ∀ range' : RangeOrder String,
        (h.answer shuffle range' {} ⟨qualify p h.cfg.altDomain, qtype⟩).SameRecords
          ((h.answer shuffle range {} ⟨qualify p h.cfg.domain, qtype⟩).mapNames
            (rezone h.cfg.domain h.cfg.altDomain)) := by
  have heq := mapNames_answer shuffle range {} h.domain_dot (hasSuffix_of_domainFor halt)
    (h.domainFor_primary p) halt qtype
  refine ⟨heq.symm, fun range' => ?_⟩
  rw [heq]
  exact answer_range ..

/-- A handler for two zones whose registry holds one instance with an address of its own. -/
def twoZones : Handler :=
  newHandler
    (fun _ => .ok
      { entries := [{ node := { id := "n", address := "10.0.0.1" }
                      service := { id := "web", name := "web", address := "10.0.0.2", port := 80 }
                      health := .passing }] })
    .ascii (fun s => if s = "10.0.0.2" then some (.v4 #v[10, 0, 0, 2]) else none)
    { domain := "consul", altDomain := "MyCorp", datacenter := "dc1" }

theorem zones_interchangeable_srv :
    twoZones.answer .asStored .asStored {} ⟨"web.service.MyCorp.", .srv⟩ =
        (twoZones.answer .asStored .asStored {} ⟨"web.service.consul.", .srv⟩).mapNames
          (rezone "consul." "MyCorp.") ∧
      (twoZones.answer .asStored .asStored {} ⟨"web.service.MyCorp.", .srv⟩).answer =
        [{ name := "web.service.MyCorp.", ttl := 0,
           data := .srv 1 1 80 "0a000002.addr.dc1.MyCorp." }] :=
  ⟨(zones_interchangeable twoZones ["web", "service"] (by decide +kernel) .srv .asStored .asStored).1,
    by decide +kernel⟩

end Handler

end YellowPages.Consuldns
