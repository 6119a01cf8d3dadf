import YellowPages.Consuldns.Answers

/-!
# Answers by the type of the question

Both renderings have a default branch that answers with an address, in the type of the address.
-/

namespace YellowPages.Consuldns

open Lib Store

namespace Handler

variable (h : Handler)

/-- The registry has nothing that the question would be answered with in another type than its own.
Only the first entry of a node counts. -/
def TypeKept (content : List ServiceEntry) (qtype : QType) (pq : ParsedQuery) : Prop :=
  match pq.kind, qtype with
  | .service, .txt | .service, .other _ =>
    ∀ e ∈ content, h.offers pq e = true → ∀ ip, h.parseIP e.reachableAddress = some ip →
      ip.isV6 = true
  | .node, .a =>
    ∀ e ∈ content.find? (h.offers pq), ∀ ip, h.parseIP e.node.address = some ip → ip.isV6 = false
  | .node, .aaaa =>
    ∀ e ∈ content.find? (h.offers pq), ∀ ip, h.parseIP e.node.address = some ip → ip.isV6 = true
  | .node, .srv | .node, .other _ =>
    ∀ e ∈ content.find? (h.offers pq), h.parseIP e.node.address = none
  | _, _ => True

section Types

variable {h} {q : Question} {dom : String} {pq : ParsedQuery} {content : List ServiceEntry}
  {shuffle : RangeOrder ServiceEntry} {range : RangeOrder String}

theorem typeKept_soa (pq : ParsedQuery) : h.TypeKept content .soa pq := by
  unfold TypeKept
  cases pq.kind <;> exact True.intro

theorem typeKept_ns (pq : ParsedQuery) : h.TypeKept content .ns pq := by
  unfold TypeKept
  cases pq.kind <;> exact True.intro

theorem typeKept_unknown {qtype : QType} (hunknown : pq.kind = .unknown) :
    h.TypeKept content qtype pq := by
  unfold TypeKept
  rw [hunknown]
  exact True.intro

/-- A service question has an answer of another type exactly if it has one at all. -/
theorem typed_service_iff (hkind : pq.kind ≠ .node) (entries : List ServiceEntry) :
    (∀ rr ∈ h.records shuffle range q dom pq entries, rr.data.qtype = q.qtype) ↔
      serviceType q.qtype = q.qtype ∨
        ∀ e ∈ entries, h.serviceRR q (h.effectiveDC pq.datacenter) dom e = none := by
  have htype : ∀ rr ∈ h.records shuffle range q dom pq entries,
      rr.data.qtype = serviceType q.qtype := by
    intro rr hrr
    obtain ⟨e, -, hsome⟩ := exists_serviceRR hkind hrr
    exact qtype_serviceRR hsome
  have hnone : h.records shuffle range q dom pq entries = [] ↔ _ := records_eq_nil_iff hkind
  rw [← hnone]
  constructor
  · intro hall
    cases hrecords : h.records shuffle range q dom pq entries with
    | nil => exact Or.inr rfl
    | cons rr rest =>
      have hmem : rr ∈ h.records shuffle range q dom pq entries := by simp [hrecords]
      exact Or.inl ((htype rr hmem).symm.trans (hall rr hmem))
  · rintro (hsame | hnil) rr hrr
    · exact (htype rr hrr).trans hsame
    · rw [hnil] at hrr
      cases hrr

theorem typed_node_iff (hkind : pq.kind = .node) :
    (∀ rr ∈ h.records shuffle range q dom pq (content.filter (h.offers pq)),
      rr.data.qtype = q.qtype) ↔
      ∀ e ∈ content.find? (h.offers pq), ∀ rr ∈ h.nodeRRs range q e, rr.data.qtype = q.qtype := by
  rw [records, if_pos hkind, List.head?_filter]
  cases content.find? (h.offers pq) <;> simp

theorem typed_address_iff {e : ServiceEntry} (htxt : q.qtype ≠ .txt) :
    (∀ rr ∈ h.nodeRRs range q e, rr.data.qtype = q.qtype) ↔
      ∀ ip, h.parseIP e.node.address = some ip →
        (if ip.isV6 then QType.aaaa else .a) = q.qtype := by
  have hrrs :
      h.nodeRRs range q e = (addressRR q.name (h.parseIP e.node.address) h.cfg.nodeTTL).toList := by
    unfold nodeRRs
    split
    · contradiction
    · rfl
  rw [hrrs]
  cases h.parseIP e.node.address with
  | none => simp [addressRR]
  | some ip =>
    obtain ⟨rr, hrr⟩ := exists_addressRR q.name ip h.cfg.nodeTTL
    simp [hrr, ← qtype_addressRR hrr]

theorem typed_iff (hany : q.qtype ≠ .any) (hsoa : q.qtype ≠ .soa) (hns : q.qtype ≠ .ns)
    (hknown : pq.kind ≠ .unknown) :
    (∀ rr ∈ h.records shuffle range q dom pq (content.filter (h.offers pq)),
      rr.data.qtype = q.qtype) ↔
      h.TypeKept content q.qtype pq := by
  cases hkind : pq.kind with
  | unknown => contradiction
  | service =>
    rw [typed_service_iff (by simp [hkind])]
    unfold serviceRR TypeKept
    rw [hkind]
    cases hq : q.qtype with
    | any | soa | ns => contradiction
    | a | aaaa | srv => simp [serviceType]
    | txt | other _ =>
      simp only [serviceType, reduceCtorEq, false_or, instanceRR_eq_none_iff, List.mem_filter]
      grind
  | node =>
    rw [typed_node_iff hkind]
    unfold TypeKept
    rw [hkind]
    cases hq : q.qtype with
    | any | soa | ns => contradiction
    | txt => simp [nodeRRs, hq, metaTXT, RData.qtype]
    | a | aaaa =>
      have htxt : q.qtype ≠ .txt := by simp [hq]
      simp only [← hq, typed_address_iff htxt]
      grind
    | srv | other _ =>
      have htxt : q.qtype ≠ .txt := by simp [hq]
      simp only [← hq, typed_address_iff htxt]
      refine forall₂_congr fun e _ => ?_
      cases h.parseIP e.node.address with
      | none => simp
      | some ip => cases ip <;> simp [IP.isV6, hq]

end Types

/-- Apart from ANY, each record has the type that was asked for unless the default branch of the
rendering finds an address to answer with. -/
theorem typed_answer_iff (h : Handler) (content : List ServiceEntry)
    (hcontent : Serves h.resolve content) (shuffle : RangeOrder ServiceEntry)
    (range : RangeOrder String) (q : Question) (dom : String) (hdom : h.domainFor q.name = some dom)
    (hany : q.qtype ≠ .any) :
    ((∀ rr ∈ (h.answer shuffle range {} q).answer, rr.data.qtype = q.qtype) ∧
      ((h.answer shuffle range {} q).answer = [] → (h.answer shuffle range {} q).ns = [soa dom])) ↔
    h.TypeKept content q.qtype (parseName h.unicode q.name dom) := by
  generalize hpq : parseName h.unicode q.name dom = pq
  by_cases hsoa : q.qtype = .soa
  · have hmsg :
      h.answer shuffle range {} q = { answer := [soa dom] } := by simp only [answer, hdom, hsoa]; rfl
    rw [hsoa]
    exact iff_of_true ⟨by simp [hmsg, soa, RData.qtype], by simp [hmsg]⟩ (typeKept_soa pq)
  by_cases hns : q.qtype = .ns
  · have hmsg : h.answer shuffle range {} q =
      { answer := [ns q.name dom] } := by simp only [answer, hdom, hns]; rfl
    rw [hns]
    exact iff_of_true ⟨by simp [hmsg, ns, RData.qtype], by simp [hmsg]⟩ (typeKept_ns pq)
  by_cases hunknown : pq.kind = .unknown
  · have hmsg := answer_unknown shuffle range q dom hdom hsoa hns (hpq ▸ hunknown)
    exact iff_of_true ⟨by simp [hmsg, nxdomain], by simp [hmsg, nxdomain]⟩
      (typeKept_unknown hunknown)
  · obtain ⟨-, hanswer, hauthority⟩ :=
      answer_spec shuffle range q dom hcontent pq hdom hsoa hns hpq hunknown
    rw [and_iff_left hauthority, hanswer]
    exact typed_iff hany hsoa hns hunknown

theorem typed_answer_iff_node :
    (∀ rr ∈ (officeDNS.answer .asStored .asStored {} ⟨"n1.node.consul.", .a⟩).answer,
      rr.data.qtype = .a) ∧
      ((officeDNS.answer .asStored .asStored {} ⟨"n1.node.consul.", .a⟩).answer = [] →
        (officeDNS.answer .asStored .asStored {} ⟨"n1.node.consul.", .a⟩).ns =
          [soa "consul."]) := by
  refine (typed_answer_iff officeDNS _ serves_office .asStored .asStored
    ⟨"n1.node.consul.", .a⟩ "consul." (by decide +kernel) (by decide)).mpr ?_
  have hpq : parseName officeDNS.unicode "n1.node.consul." "consul." =
      { kind := .node, node := "n1" } := by
    decide +kernel
  have haddress : ∀ e ∈ (office.lookup 0 {}).entries, officeDNS.parseIP e.node.address =
      officeIP "10.0.0.1" := by
    decide +kernel
  rw [hpq]
  intro e he ip hip
  rw [haddress e (List.mem_of_find?_eq_some he)] at hip
  obtain rfl := Option.some.inj hip
  rfl

/-- A TXT question about a service is answered with addresses. -/
theorem txt_answered_with_a :
    ¬∀ (h : Handler) (content : List ServiceEntry), Serves h.resolve content →
      ∀ (shuffle : RangeOrder ServiceEntry) (range : RangeOrder String) (q : Question) (dom : String),
        h.domainFor q.name = some dom → q.qtype ≠ .any →
          (parseName h.unicode q.name dom).kind ≠ .unknown →
          (∀ rr ∈ (h.answer shuffle range {} q).answer, rr.data.qtype = q.qtype) ∧
            ((h.answer shuffle range {} q).answer = [] →
              (h.answer shuffle range {} q).ns = [soa dom]) := by
  intro hall
  have htyped :=
    (hall officeDNS _ serves_office .asStored .asStored ⟨"db.service.consul.", .txt⟩ "consul."
    (by decide +kernel) (by decide) (by decide +kernel)).1
  revert htyped
  decide +kernel

end Handler

end YellowPages.Consuldns
