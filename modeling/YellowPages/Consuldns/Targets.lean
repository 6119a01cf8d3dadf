import YellowPages.Consuldns.Answers

/-!
# The targets of SRV records

A target is a name of the same interface: `<node>.node.<dc>` for an instance at its node's address
and `<hexip>.addr.<dc>` for one with an address of its own. Here it is asked back.
-/

namespace YellowPages.Consuldns

open Lib Store

/-! ## The first labels of a name -/

/-- The text before the first dot, and what follows it. -/
theorem dot_append_inj {a b s t : String} (ha : '.' ∉ a.toList) (hb : '.' ∉ b.toList)
    (h : a ++ "." ++ s = b ++ "." ++ t) : a = b ∧ s = t := by
  have hlist : a.toList ++ '.' :: s.toList = b.toList ++ '.' :: t.toList := by
    simpa using congrArg String.toList h
  have hbefore : ∀ {l rest : List Char}, '.' ∉ l → (l ++ '.' :: rest).takeWhile (· ≠ '.') = l := by
    intro l rest hl
    have hall : ∀ c ∈ l, decide (c ≠ '.') = true := by
      intro c hc
      rw [decide_eq_true_eq]
      rintro rfl
      exact hl hc
    rw [List.takeWhile_append_of_pos hall]
    simp
  have hab : a.toList = b.toList := by rw [← hbefore ha, hlist, hbefore hb]
  obtain rfl := String.toList_inj.mp hab
  refine ⟨rfl, String.toList_inj.mp ?_⟩
  simpa using hlist

section Asked

variable {u : Unicode} {name zone l kw rest : String}

/-- A name that starts with `l.kw.` is nothing to the parser, or `l` and `kw` are its first labels. -/
theorem exists_two_labels (hl : '.' ∉ l.toList) (hkw : '.' ∉ kw.toList)
    (hname : u.toLower (trimSuffix name ".") = l ++ "." ++ (kw ++ "." ++ rest))
    (hknown : (parseName u name zone).kind ≠ .unknown) :
    ∃ labels, Dotless labels ∧ Spells u name (l :: kw :: labels) zone := by
  obtain ⟨labels, hne, hdot, hspells⟩ := exists_spells hknown
  rw [parseName_of_spells hspells hne hdot] at hknown
  rw [Spells, hname] at hspells
  cases labels with
  | nil => exact absurd rfl hne
  | cons l' labels =>
    rw [dotless_cons] at hdot
    have hfirst : l ++ "." ++ (kw ++ "." ++ rest) =
        l' ++ "." ++ (stem labels ++ u.toLower (trimSuffix zone ".")) := by
      rw [hspells, stem]
      simp only [String.append_assoc]
    obtain ⟨rfl, hrest⟩ := dot_append_inj hl hdot.1 hfirst
    cases labels with
    | nil =>
      rw [parseLabels_singleton] at hknown
      exact absurd rfl hknown
    | cons kw' labels =>
      rw [dotless_cons] at hdot
      have hsecond :
          kw ++ "." ++ rest = kw' ++ "." ++ (stem labels ++ u.toLower (trimSuffix zone ".")) := by
        rw [hrest, stem]
        simp only [String.append_assoc]
      obtain ⟨rfl, -⟩ := dot_append_inj hkw hdot.2.1 hsecond
      exact ⟨labels, hdot.2.2, hname.trans hspells⟩

end Asked

/-! ## Asking back -/

def IP.qtype : IP → QType
  | .v4 _ => .a
  | .v6 _ => .aaaa

def IP.rdata : IP → RData
  | .v4 bytes => .a bytes
  | .v6 bytes => .aaaa bytes

theorem IP.rdata_inj {ip ip' : IP} : ip.rdata = ip'.rdata ↔ ip = ip' := by
  cases ip <;> cases ip' <;> simp [rdata]

theorem IP.qtype_ne (ip : IP) : ip.qtype ≠ .soa ∧ ip.qtype ≠ .ns := by
  cases ip <;> simp [qtype]

theorem addressRR_data (name : String) (ip : IP) (ttl : UInt32) :
    addressRR name (some ip) ttl = some { name := name, ttl := ttl, data := ip.rdata } := by
  cases ip <;> rfl

/-- The node question that the labels `node` `rest` ask. -/
def nodeQuery (node : String) (rest : List String) : ParsedQuery :=
  { kind := .node, node := node, datacenter := dcFromRest rest }

theorem parseLabels_node {node : String} (hnode : node ∉ reserved) (rest : List String) :
    parseLabels (node :: "node" :: rest) = nodeQuery node rest := by
  have hkeyword : underscored "node" = false := rfl
  rw [parseLabels_scan rest (by simp [hkeyword]), scanLabels_pass hnode, scanLabels_node (by simp)]
  simp [nodeQuery, joinWith]

theorem parseLabels_addr (l : String) (rest : List String) :
    parseLabels (l :: "addr" :: rest) = {} := by
  have hkeyword : underscored "addr" = false := rfl
  rw [parseLabels_scan rest (by simp [hkeyword])]
  by_cases hl : l ∈ reserved
  · exact scanLabels_reserved hl _
  · rw [scanLabels_pass hl, scanLabels_mesh (by decide)]

namespace Handler

variable (h : Handler)

/-- The name is answered with the address. -/
def AnswersWith (name : String) (ip : IP) : Prop :=
  ∀ shuffle range, ip.rdata ∈ (h.answer shuffle range {} ⟨name, ip.qtype⟩).answer.map RR.data

section AskedBack

variable {h} {content : List ServiceEntry} {name : String} {ip : IP}

/-- A name that is answered was understood under its zone. -/
theorem AnswersWith.understood (hans : h.AnswersWith name ip) :
    ∃ zone, h.domainFor name = some zone ∧ (parseName h.unicode name zone).kind ≠ .unknown := by
  have hmem := hans .asStored .asStored
  obtain ⟨hsoa, hns⟩ := ip.qtype_ne
  cases hdom : h.domainFor name with
  | none =>
    simp only [answer, hdom] at hmem
    simp [nxdomain] at hmem
  | some zone =>
    refine ⟨zone, rfl, fun hunknown => ?_⟩
    rw [answer_unknown .asStored .asStored ⟨name, ip.qtype⟩ zone hdom hsoa hns hunknown] at hmem
    simp [nxdomain] at hmem

/-- A node question is answered with the address of the first entry that is offered. -/
theorem answersWith_node_iff (hcontent : Serves h.resolve content) {zone : String}
    {pq : ParsedQuery} (hdom : h.domainFor name = some zone)
    (hpq : parseName h.unicode name zone = pq) (hkind : pq.kind = .node) :
    h.AnswersWith name ip ↔ ∃ first ∈ content.find?
      (h.offers pq), h.parseIP first.node.address = some ip := by
  obtain ⟨hsoa, hns⟩ := ip.qtype_ne
  have hrecord : ∀ range e, (h.nodeRRs range ⟨name, ip.qtype⟩ e).map RR.data =
      ((h.parseIP e.node.address).map IP.rdata).toList := by
    intro range e
    have hrrs : h.nodeRRs range ⟨name, ip.qtype⟩ e =
        (addressRR name (h.parseIP e.node.address) h.cfg.nodeTTL).toList := by
      cases ip <;> rfl
    rw [hrrs]
    cases h.parseIP e.node.address with
    | none => rfl
    | some ip' => simp [addressRR_data]
  have hdata : ∀ shuffle range, (h.answer shuffle range {} ⟨name, ip.qtype⟩).answer.map RR.data =
      (content.find? (h.offers pq)).toList.flatMap fun e =>
        ((h.parseIP e.node.address).map IP.rdata).toList := by
    intro shuffle range
    have hspec :=
      answer_spec shuffle range ⟨name, ip.qtype⟩ zone hcontent pq hdom hsoa hns hpq
        (by simp [hkind])
    rw [hspec.2.1, records, if_pos hkind, List.head?_filter, List.map_flatMap]
    simp only [hrecord]
  simp only [AnswersWith, hdata]
  have hmem : (ip.rdata ∈ (content.find? (h.offers pq)).toList.flatMap
      fun e => ((h.parseIP e.node.address).map IP.rdata).toList) ↔
      ∃ first ∈ content.find? (h.offers pq), h.parseIP first.node.address = some ip := by
    simp [IP.rdata_inj]
  rw [hmem]
  exact ⟨fun hall => hall .asStored .asStored, fun hfirst _ _ => hfirst⟩

end AskedBack

/-! ## The two shapes of a target -/

/-- The instance is at its node's address, the node's name is no keyword, and the name of the node
under the domain asks for that node, whose first entry has the address. -/
def LeadsBack (content : List ServiceEntry) (dc dom : String) (e : ServiceEntry) : Prop :=
  let target := e.node.displayName ++ ".node." ++ dc ++ "." ++ dom
  let node := h.unicode.toLower e.node.displayName
  e.reachableAddress = e.node.address ∧ node ∉ reserved ∧
    ∃ zone rest, h.domainFor target = some zone ∧ Dotless rest ∧
      Spells h.unicode target (node :: "node" :: rest) zone ∧
      ∃ first ∈ content.find? (h.offers (nodeQuery node rest)),
        h.parseIP first.node.address = h.parseIP e.node.address

section Shapes

variable {h} {e : ServiceEntry} {dc dom : String} {ip : IP}

theorem srvTarget_inherited (haddr : e.reachableAddress = e.node.address) :
    (h.srvTarget e dc dom).1 = e.node.displayName ++ ".node." ++ dc ++ "." ++ dom := by
  unfold srvTarget
  dsimp only
  split
  · rfl
  · rw [if_pos haddr]

theorem srvTarget_own (hip : h.parseIP e.reachableAddress = some ip)
    (haddr : e.reachableAddress ≠ e.node.address) :
    (h.srvTarget e dc dom).1 = hexIP ip ++ ".addr." ++ dc ++ "." ++ dom := by
  unfold srvTarget
  dsimp only
  rw [hip]
  dsimp only
  rw [if_neg haddr]

theorem toLower_target (u : Unicode) {kw : String} (hkw : u.toLower kw = kw) (l dc z : String) :
    u.toLower (trimSuffix (l ++ ("." ++ kw ++ ".") ++ dc ++ "." ++ (z ++ ".")) ".") =
      u.toLower l ++ "." ++ (kw ++ "." ++ u.toLower (dc ++ "." ++ z)) := by
  have hdot : l ++ ("." ++ kw ++ ".") ++ dc ++ "." ++ (z ++ ".") =
      (l ++ ("." ++ kw ++ ".") ++ dc ++ "." ++ z) ++ "." := by
    simp only [String.append_assoc]
  rw [hdot, trimSuffix_append]
  simp only [u.toLower_append, u.toLower_dot, hkw, String.append_assoc]

theorem dotless_encodeToString (u : Unicode) (bytes : List UInt8) :
    '.' ∉ (u.toLower (encodeToString bytes)).toList := by
  have hdigit : ∀ n < 16, u.lower (Nat.digitChar n) ≠ '.' := by
    intro n hn
    rw [u.lower_ascii _ (by revert n; decide)]
    revert n
    decide
  rw [Unicode.toLower, encodeToString, String.toList_ofList, String.toList_ofList]
  simp only [List.mem_map, List.mem_flatMap, not_exists, not_and, forall_exists_index, and_imp]
  intro c b _ hc
  have hb : b.toNat < 256 := b.toNat_lt
  simp only [List.mem_cons, List.not_mem_nil, or_false] at hc
  rcases hc with rfl | rfl
  · exact hdigit _ (by omega)
  · exact hdigit _ (by omega)

theorem dotless_hexIP (u : Unicode) (ip : IP) : '.' ∉ (u.toLower (hexIP ip)).toList := by
  cases ip with
  | v4 bytes => exact dotless_encodeToString u bytes.toList
  | v6 bytes => exact dotless_encodeToString u bytes.toList

/-- `addr` is one of the labels at which the parser gives up. -/
theorem not_answersWith_own (hdot : hasSuffix dom "." = true)
    (hip : h.parseIP e.reachableAddress = some ip) (haddr : e.reachableAddress ≠ e.node.address) :
    ¬h.AnswersWith (h.srvTarget e dc dom).1 ip := by
  intro hans
  obtain ⟨zone, -, hknown⟩ := hans.understood
  obtain ⟨z, rfl⟩ := (hasSuffix_iff _ _).mp hdot
  have haddrLabel : h.unicode.toLower "addr" = "addr" := h.unicode.toLower_of_ascii (by simp)
  have hlower : h.unicode.toLower (trimSuffix (h.srvTarget e dc (z ++ ".")).1 ".") =
      h.unicode.toLower (hexIP ip) ++ "." ++ ("addr" ++ "." ++ h.unicode.toLower (dc ++ "." ++ z)) := by
    rw [srvTarget_own hip haddr]
    exact toLower_target h.unicode haddrLabel (hexIP ip) dc z
  obtain ⟨rest, hrest, hspells⟩ :=
    exists_two_labels (dotless_hexIP h.unicode ip) (by decide) hlower hknown
  rw [parseName_of_spells hspells (by simp) (by simp [dotless_cons, dotless_hexIP, hrest]),
    parseLabels_addr] at hknown
  exact hknown rfl

theorem answersWith_inherited_iff {content : List ServiceEntry} (hcontent : Serves h.resolve content)
    (hdot : hasSuffix dom "." = true) (hlabel : IsLabel (h.unicode.toLower e.node.displayName))
    (haddr : e.reachableAddress = e.node.address) (hip : h.parseIP e.reachableAddress = some ip) :
    h.AnswersWith (h.srvTarget e dc dom).1 ip ↔ h.LeadsBack content dc dom e := by
  have hnode : '.' ∉ "node".toList := by decide
  rw [srvTarget_inherited haddr]
  constructor
  · intro hans
    obtain ⟨zone, hzone, hknown⟩ := hans.understood
    obtain ⟨z, rfl⟩ := (hasSuffix_iff _ _).mp hdot
    have hnodeLabel : h.unicode.toLower "node" = "node" := h.unicode.toLower_of_ascii (by simp)
    have hlower :
        h.unicode.toLower (trimSuffix (e.node.displayName ++ ".node." ++ dc ++ "." ++ (z ++ ".")) ".") =
        h.unicode.toLower e.node.displayName ++ "." ++
          ("node" ++ "." ++ h.unicode.toLower (dc ++ "." ++ z)) :=
      toLower_target h.unicode hnodeLabel e.node.displayName dc z
    obtain ⟨rest, hrest, hspells⟩ := exists_two_labels hlabel.2 hnode hlower hknown
    have hdotless : Dotless (h.unicode.toLower e.node.displayName :: "node" :: rest) :=
      dotless_cons.mpr ⟨hlabel.2, dotless_cons.mpr ⟨hnode, hrest⟩⟩
    have hparse := parseName_of_spells hspells (by simp) hdotless
    have hreserved : h.unicode.toLower e.node.displayName ∉ reserved := by
      intro hres
      rw [hparse, parseLabels_scan rest (by simp [show underscored "node" = false from rfl]),
        scanLabels_reserved hres] at hknown
      exact hknown rfl
    rw [parseLabels_node hreserved] at hparse
    obtain ⟨first, hfirst, hfirstIP⟩ := (answersWith_node_iff hcontent hzone hparse rfl).mp hans
    exact ⟨haddr, hreserved, zone, rest, hzone, hrest, hspells, first, hfirst,
      by rw [hfirstIP, ← haddr, hip]⟩
  · rintro ⟨-, hreserved, zone, rest, hzone, hrest, hspells, first, hfirst, hfirstIP⟩
    have hdotless : Dotless (h.unicode.toLower e.node.displayName :: "node" :: rest) :=
      dotless_cons.mpr ⟨hlabel.2, dotless_cons.mpr ⟨hnode, hrest⟩⟩
    have hparse := parseName_of_spells hspells (by simp) hdotless
    rw [parseLabels_node hreserved] at hparse
    exact (answersWith_node_iff hcontent hzone hparse rfl).mpr
      ⟨first, hfirst, by rw [hfirstIP, ← haddr, hip]⟩

end Shapes

/-- An SRV question is answered with a record for each instance that is offered. Their targets all lead
back to the addresses of their instances exactly if none has an address of its own, none is on a node
whose name is a keyword, and each target is read as a question for the node. -/
theorem targets_lead_back_iff (h : Handler) (content : List ServiceEntry)
    (hcontent : Serves h.resolve content) (shuffle : RangeOrder ServiceEntry)
    (range : RangeOrder String) (q : Question) (dom : String) (hdom : h.domainFor q.name = some dom)
    (hsrv : q.qtype = .srv) (pq : ParsedQuery) (hpq : parseName h.unicode q.name dom = pq)
    (hkind : pq.kind = .service)
    (hliteral : ∀ e ∈ content, ∃ ip, h.parseIP e.reachableAddress = some ip)
    (hlabel : ∀ e ∈ content, IsLabel (h.unicode.toLower e.node.displayName)) :
    (∃ entries : List ServiceEntry, entries.Perm (content.filter (h.offers pq)) ∧
      (h.answer shuffle range {} q).answer =
        entries.map (h.srvRR q (h.effectiveDC pq.datacenter) dom) ∧
      ∀ e ∈ entries, ∀ ip, h.parseIP e.reachableAddress = some ip →
        h.AnswersWith (h.srvTarget e (h.effectiveDC pq.datacenter) dom).1 ip) ↔
    ∀ e ∈ content, h.offers pq e = true →
      h.LeadsBack content (h.effectiveDC pq.datacenter) dom e := by
  have hdot : hasSuffix dom "." = true := h.hasSuffix_of_domainFor hdom
  constructor
  · rintro ⟨entries, hperm, -, hall⟩ e he hoffers
    obtain ⟨ip, hip⟩ := hliteral e he
    have hans := hall e (hperm.mem_iff.mpr (List.mem_filter.mpr ⟨he, hoffers⟩)) ip hip
    by_cases haddr : e.reachableAddress = e.node.address
    · exact (answersWith_inherited_iff hcontent hdot (hlabel e he) haddr hip).mp hans
    · exact absurd hans (not_answersWith_own hdot hip haddr)
  · intro hall
    refine ⟨shuffle.visit (content.filter (h.offers pq)), shuffle.perm _, ?_, ?_⟩
    · have hspec := answer_spec shuffle range q dom hcontent pq hdom (by simp [hsrv])
        (by simp [hsrv]) hpq
        (by simp [hkind])
      have hrecord : h.serviceRR q (h.effectiveDC pq.datacenter) dom =
          some ∘ h.srvRR q (h.effectiveDC pq.datacenter) dom := by
        funext e
        simp [serviceRR, hsrv]
      rw [hspec.2.1, records, if_neg (by simp [hkind])]
      simp only [hsrv, if_true, hrecord, List.filterMap_eq_map]
    · intro e he ip hip
      obtain ⟨hmem, hoffers⟩ := List.mem_filter.mp ((shuffle.mem_visit _ e).mp he)
      have hback := hall e hmem hoffers
      exact (answersWith_inherited_iff hcontent hdot (hlabel e hmem) hback.1 hip).mpr hback

theorem targets_lead_back_iff_web :
    ∃ entries : List ServiceEntry,
      entries.Perm
        ((office.lookup 0 {}).entries.filter
          (officeDNS.offers { kind := .service, service := "web" })) ∧
      (officeDNS.answer .asStored .asStored {} ⟨"web.service.consul.", .srv⟩).answer =
        entries.map (officeDNS.srvRR ⟨"web.service.consul.", .srv⟩ "dc1" "consul.") ∧
      ∀ e ∈ entries, ∀ ip, officeDNS.parseIP e.reachableAddress = some ip →
        officeDNS.AnswersWith (officeDNS.srvTarget e "dc1" "consul.").1 ip := by
  refine (targets_lead_back_iff officeDNS _ serves_office .asStored .asStored
    ⟨"web.service.consul.", .srv⟩ "consul."
    (by decide +kernel) rfl { kind := .service, service := "web" } (by decide +kernel) rfl ?_ ?_).mpr ?_
  · have hsome : ∀ e ∈ (office.lookup 0 {}).entries, (officeDNS.parseIP e.reachableAddress).isSome =
      true := by
      decide +kernel
    exact fun e he => Option.isSome_iff_exists.mp (hsome e he)
  · decide +kernel
  · have hweb : ∀ e ∈ (office.lookup 0 {}).entries,
      officeDNS.offers { kind := .service, service := "web" } e = true →
        e.reachableAddress = e.node.address ∧ officeDNS.unicode.toLower e.node.displayName = "n1" ∧
          e.node.displayName ++ ".node." ++ "dc1" ++ "." ++ "consul." = "n1.node.dc1.consul." ∧
          officeDNS.parseIP e.node.address = some (.v4 #v[10, 0, 0, 1]) := by decide +kernel
    have hfirst : ((office.lookup 0 {}).entries.find? (officeDNS.offers (nodeQuery "n1" ["dc1"]))).map
        (officeDNS.parseIP ·.node.address) = some (some (.v4 #v[10, 0, 0, 1])) := by decide +kernel
    obtain ⟨first, hmem, hip⟩ := Option.map_eq_some_iff.mp hfirst
    intro e he hoffers
    obtain ⟨haddr, hname, htarget, hnode⟩ := hweb e he hoffers
    refine ⟨haddr, ?_, "consul.", ["dc1"], ?_, by simp [Dotless], ?_, first, ?_,
      hip.trans hnode.symm⟩
    · rw [hname]
      decide
    · change officeDNS.domainFor (e.node.displayName ++ ".node." ++ "dc1" ++ "." ++ "consul.") =
        some "consul."
      rw [htarget]
      decide +kernel
    · change Spells officeDNS.unicode (e.node.displayName ++ ".node." ++ "dc1" ++ "." ++ "consul.")
        _ "consul."
      rw [htarget, hname]
      decide +kernel
    · rw [hname]
      exact hmem

/-- The target of the instance with an address of its own is NXDOMAIN to the handler that rendered
it. -/
theorem own_address_target_lost :
    ¬∀ (h : Handler) (content : List ServiceEntry), Serves h.resolve content →
      (∀ e ∈ content, ∃ ip, h.parseIP e.reachableAddress = some ip) →
      (∀ e ∈ content, IsLabel (h.unicode.toLower e.node.displayName)) →
      (∀ e ∈ content, ∀ e' ∈ content, e.node.displayName = e'.node.displayName → e.node = e'.node) →
      ∀ (q : Question) (dom : String), h.domainFor q.name = some dom → q.qtype = .srv → ∀ pq,
        parseName h.unicode q.name dom = pq → pq.kind = .service →
          ∀ e ∈ content, h.offers pq e = true → ∀ ip, h.parseIP e.reachableAddress = some ip →
            h.AnswersWith (h.srvTarget e (h.effectiveDC pq.datacenter) dom).1 ip := by
  intro hall
  have hsome : ∀ e ∈ (office.lookup 0 {}).entries, (officeDNS.parseIP e.reachableAddress).isSome =
      true := by
    decide +kernel
  have hdb :
      ((office.lookup 0 {}).entries.find? (officeDNS.offers { kind := .service, service := "db" })).map
      (fun e => (officeDNS.parseIP e.reachableAddress, e.reachableAddress == e.node.address)) =
        some (some (.v4 #v[10, 0, 0, 2]), false) := by decide +kernel
  obtain ⟨e, he, hpair⟩ := Option.map_eq_some_iff.mp hdb
  obtain ⟨hip, haddr⟩ := Prod.mk.injEq _ _ _ _ ▸ hpair
  refine not_answersWith_own (by decide +kernel) hip (by simpa using haddr)
    (hall officeDNS _ serves_office (fun e he => Option.isSome_iff_exists.mp (hsome e he))
      (by decide +kernel)
      (by decide +kernel) ⟨"db.service.consul.", .srv⟩ "consul." (by decide +kernel) rfl
      { kind := .service, service := "db" } (by decide +kernel) rfl e (List.mem_of_find?_eq_some he)
      (List.find?_some he) _ hip)

end Handler

end YellowPages.Consuldns
