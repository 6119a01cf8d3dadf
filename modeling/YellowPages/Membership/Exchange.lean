import YellowPages.Membership.Syncer
import YellowPages.Store.Attributes
import YellowPages.Watch.Watcher

/-!
# One exchange

Two seeds pull from each other, one after the other. What an exchange leaves on both sides, which
state of an entry comes along with it, and when it is heard of at all.
-/

namespace YellowPages.Membership

open Store SeedClient Wire

/-- What a pull brings: the full Lookup of a peer, over the wire. -/
def pulled (peer : Memory) (now : Time) : List ServiceEntry := received (answer "peer" peer now {})

theorem mem_pulled {peer : Memory} (h : Filed peer) (now : Time) (e : ServiceEntry) :
    e ∈ pulled peer now ↔ ∃ n node s svc, peer.node? n = some node ∧ peer.service? n s = some svc ∧
      (peer.opts.lease svc now).2 = false ∧ e = overWire
        (entry node svc (peer.opts.lease svc now).1) := by
  have hpulled : pulled peer now = (peer.lookup now {}).entries.map overWire :=
    received_eq "peer" peer now {}
  rw [hpulled, List.mem_map]
  constructor
  · rintro ⟨e', he', rfl⟩
    obtain ⟨n, r, s, svc, hr, hs, -, -, -, hlive, rfl⟩ := (mem_lookup now {} h e').mp he'
    exact ⟨n, r.nodeMeta, s, svc, Memory.node?_of_node hr,
      by rw [Memory.service?_of_node hr]; exact hs,
      hlive, rfl⟩
  · rintro ⟨n, node, s, svc, hnode, hsvc, hlive, rfl⟩
    obtain ⟨r, hr, hs⟩ := Memory.service?_eq_some.mp hsvc
    obtain rfl : r.nodeMeta = node := by simpa [Memory.node?, hr] using hnode
    exact ⟨_, (mem_lookup now {} h _).mpr
      ⟨n, r, s, svc, hr, hs, Or.inl rfl, Or.inl rfl, by simp, hlive, rfl⟩, rfl⟩

/-! ## Registries that can exchange -/

/-- The wire does not change this instant. -/
def Survives (t : Time) : Prop := fromUnixNano (toUnixNano t) = t

/-- The clock of the call is representable, and what it merges came off the wire. -/
def Timed : Call → Prop
  | .register clk _ | .renew clk _ _ => Representable (clk 0)
  | .merge _ es => ∀ e ∈ es, Survives e.service.lastSeen
  | _ => True

theorem atomic_ids {grow : Bool} {place : String} {m m' : Memory} {out : List ChangeEvent}
    (h : ∀ n s svc, m.service? n s = some svc → s ≠ "") (hstep : Atomic grow place m out m') :
    ∀ n s svc, m'.service? n s = some svc → s ≠ "" := by
  have hput : ∀ {n s : String} {v : Option ServiceRec}, (v ≠ none → s ≠ "") →
      (∀ n' s', m'.service? n' s' = if n = n' ∧ s = s' then v else m.service? n' s') →
      ∀ n s svc, m'.service? n s = some svc → s ≠ "" := by
    intro n s v hv hput n' s' svc hsvc
    rw [hput] at hsvc
    split at hsvc <;> rename_i hk
    · rw [← hk.2]
      exact hv (by simp [hsvc])
    · exact h n' s' svc hsvc
  cases hstep with
  | setMeta _ =>
    intro n s svc hsvc
    rw [Memory.service?_setMeta] at hsvc
    exact h n s svc hsvc
  | create now hnode hnew hid => exact hput (fun _ => hid) (Memory.service?_createService hnode _)
  | rewrite now hnode hold hid hcreate =>
    refine hput (fun _ => ?_) (Memory.service?_rewriteService hnode _ _ _)
    exact h _ _ _ (Memory.service?_eq_some.mpr ⟨_, hnode, hold⟩)
  | refresh hnode hf =>
    intro n s svc hsvc
    rw [Memory.service?_refresh hnode] at hsvc
    split at hsvc
    · obtain ⟨old, hold, -⟩ := Option.map_eq_some_iff.mp hsvc
      exact h n s old hold
    · exact h n s svc hsvc
  | remove hnode hold => exact hput (fun hv => absurd rfl hv) (Memory.service?_removeService _ _ _)
  | drop hnode hempty =>
    intro n s svc hsvc
    rw [Memory.service?_erase_empty hnode hempty] at hsvc
    exact h n s svc hsvc

theorem reachable_ids {m : Memory} (h : Reachable m) {n s : String} {svc : ServiceRec}
    (hsvc : m.service? n s = some svc) : n ≠ "" ∧ s ≠ "" := by
  obtain ⟨opts, calls, rfl⟩ := h
  constructor
  · rintro rfl
    simp [Memory.service?, run_no_empty_node opts calls] at hsvc
  · refine (run_steps calls (newMemory opts)).keeps
      (fun m => ∀ n s svc, m.service? n s = some svc → s ≠ "") ?_ ?_ n s svc hsvc
    · intro n s svc hsvc
      simp [newMemory, Memory.service?] at hsvc
    · rintro m out m' h ⟨grow, place, hstep⟩
      exact atomic_ids h hstep

structure Exchanges (m : Memory) : Prop where
  filed : Filed m
  ids : ∀ n s svc, m.service? n s = some svc → n ≠ "" ∧ s ≠ ""
  survives : Everywhere (fun _ _ d => Survives d.lastSeen) m
  room : ∀ size, m.opts.atCapacity size = false

namespace Exchanges

variable {m : Memory}

theorem run_survives {calls : List Call} (htimed : ∀ c ∈ calls, Timed c)
    (h : Everywhere (fun _ _ d => Survives d.lastSeen) m) :
    Everywhere (fun _ _ d => Survives d.lastSeen) (m.run calls).1 := by
  induction calls generalizing m with
  | nil => exact h
  | cons c rest ih =>
    rw [List.forall_mem_cons] at htimed
    refine ih htimed.2 (h.exec ?_)
    have hc := htimed.1
    cases c with
    | register clk reg => exact fun i _ => ⟨overWire_lastSeen hc, fun _ _ => overWire_lastSeen hc⟩
    | renew clk n ids => exact fun _ _ _ _ => overWire_lastSeen hc
    | merge clk es => exact hc
    | _ => trivial

theorem run {opts : Options} (hroom : opts.maxServices ≤ 0) {calls : List Call}
    (htimed : ∀ c ∈ calls, Timed c) :
    Exchanges ((newMemory opts).run calls).1 where
  filed := Filed.run opts calls
  ids := fun n s svc hsvc => reachable_ids ⟨opts, calls, rfl⟩ hsvc
  survives := by
    refine run_survives htimed fun n s svc hsvc => ?_
    simp [newMemory, Memory.service?] at hsvc
  room := by
    intro size
    rw [steps_opts (run_steps calls (newMemory opts))]
    simp only [newMemory]
    split <;> simp [Options.atCapacity, hroom]

theorem gc (h : Exchanges m) (clk : Nat → Time) (order : GcOrder) :
    Exchanges (m.gc clk order).mem where
  filed := h.filed.exec (.gc clk order)
  ids := by
    intro n s svc hsvc
    obtain ⟨old, hold, -⟩ := gc_service? hsvc
    exact h.ids n s old hold
  survives := h.survives.gc
  room := by
    rw [show (m.gc clk order).mem.opts = m.opts from exec_opts (.gc clk order) m]
    exact h.room

end Exchanges

/-! ## Ranks -/

/-- `(Generation, LastSeen)` of a stored service. -/
def rankOf (m : Memory) (n s : String) : Option (Nat ×ₗ Int) :=
  (m.defn? n s).map ServiceInstance.rank

/-- The ranks a merge chooses from. -/
def ranks (m : Memory) (es : List ServiceEntry) (n s : String) : Set (Nat ×ₗ Int) :=
  {r | rankOf m n s = some r ∨ ∃ e ∈ es, Valid e ∧ e.node.id = n ∧ e.service.id = s ∧
    e.service.rank = r}

section Ranks

variable {m peer : Memory} {es : List ServiceEntry} {n s : String} {r : Nat ×ₗ Int} {now : Time}

theorem rankOf_eq_some : rankOf m n s = some r ↔ ∃ svc, m.service? n s = some svc ∧
    svc.defn.rank = r := by
  simp [rankOf, Memory.defn?]

theorem ranks_eq (m : Memory) (es : List ServiceEntry) (n s : String) :
    ranks m es n s = {x | ∃ d ∈ copies m es n s, d.rank = x} := by
  ext x
  simp only [ranks, copies, offers, rankOf, Set.mem_ofPred_eq, List.mem_append, Option.mem_toList,
    List.mem_map, List.mem_filter, decide_eq_true_eq, or_and_right, exists_or, Option.map_eq_some_iff]
  refine or_congr Iff.rfl ⟨?_, ?_⟩
  · rintro ⟨e, he, hvalid, hn, hs, rfl⟩
    exact ⟨_, ⟨e, ⟨he, hvalid, hn, hs⟩, rfl⟩, rfl⟩
  · rintro ⟨_, ⟨e, ⟨he, hvalid, hn, hs⟩, rfl⟩, rfl⟩
    exact ⟨e, he, hvalid, hn, hs, rfl⟩

theorem rankOf_merge (h : Exchanges m) (clk : Nat → Time) :
    rankOf (m.merge clk es).mem n s = some r ↔ IsGreatest (ranks m es n s) r := by
  have hdefn : (m.merge clk es).mem.defn? n s = (copies m es n s).argmax ServiceInstance.rank :=
    (merge_merging m clk es).1.defn n s fun _ => h.room
  rw [rankOf, hdefn, Lib.argmax_rank_eq_some_iff, ranks_eq]

theorem rankOf_merge_of_mem (h : Exchanges m) (clk : Nat → Time) (hr : r ∈ ranks m es n s) :
    ∃ r', rankOf (m.merge clk es).mem n s = some r' := by
  have hdefn : (m.merge clk es).mem.defn? n s = (copies m es n s).argmax ServiceInstance.rank :=
    (merge_merging m clk es).1.defn n s fun _ => h.room
  rw [ranks_eq] at hr
  obtain ⟨d, hd, -⟩ := hr
  obtain ⟨w, hw⟩ := Lib.exists_firstMax ServiceInstance.rank _ (List.ne_nil_of_mem hd)
  exact ⟨w.rank, by rw [rankOf, hdefn, hw.argmax]; rfl⟩

theorem overWire_rank {node : Node} {svc : ServiceRec} {state : HealthState}
    (h : Survives svc.defn.lastSeen) :
    (overWire (entry node svc state)).service.rank = svc.defn.rank := by
  rw [overWire_eq]
  unfold Survives at h
  simp only [ServiceInstance.rank, entry, h]

/-- What a pull brings is stored at the peer, with the same rank. -/
theorem pulled_rank (h : Exchanges peer) {e : ServiceEntry} (he : e ∈ pulled peer now) :
    rankOf peer e.node.id e.service.id = some e.service.rank := by
  obtain ⟨n, node, s, svc, hnode, hsvc, -, rfl⟩ := (mem_pulled h.filed now e).mp he
  rw [overWire_rank (h.survives n s svc hsvc), rankOf_eq_some]
  refine ⟨svc, ?_, rfl⟩
  rw [overWire_eq]
  simp only [entry, h.filed.node_id n node hnode, h.filed.service_id n s svc hsvc]
  exact hsvc

theorem exists_pulled (h : Exchanges peer) {svc : ServiceRec} (hsvc : peer.service? n s = some svc)
    (hlive : (peer.opts.lease svc now).2 = false) :
    ∃ e ∈ pulled peer now, Valid e ∧ e.node.id = n ∧ e.service.id = s ∧
      e.service.rank = svc.defn.rank := by
  obtain ⟨r, hr, hs⟩ := Memory.service?_eq_some.mp hsvc
  have hnode : peer.node? n = some r.nodeMeta := Memory.node?_of_node hr
  refine ⟨_, (mem_pulled h.filed now _).mpr ⟨n, r.nodeMeta, s, svc, hnode, hsvc, hlive, rfl⟩, ?_⟩
  have hn : (overWire (entry r.nodeMeta svc (peer.opts.lease svc now).1)).node.id = n := by
    rw [overWire_eq]
    exact h.filed.node_id n _ hnode
  have hs : (overWire (entry r.nodeMeta svc (peer.opts.lease svc now).1)).service.id = s := by
    rw [overWire_eq]
    exact h.filed.service_id n s svc hsvc
  refine ⟨⟨?_, ?_⟩, hn, hs, overWire_rank (h.survives n s svc hsvc)⟩
  · rw [hn]
    exact (h.ids n s svc hsvc).1
  · rw [hs]
    exact (h.ids n s svc hsvc).2

/-- A pull from a seed that holds the same ranks brings nothing new. -/
theorem merge_pulled_zero (hpeer : Exchanges peer) (hsame : ∀ n s, rankOf peer n s = rankOf m n s)
    (clk : Nat → Time) : (m.merge clk (pulled peer now)).ret = 0 := by
  have hnone : ∀ e ∈ pulled peer now, ¬ Leads m e := by
    intro e he hlead
    have hrank := pulled_rank hpeer he
    rw [hsame, rankOf, Option.map_eq_some_iff] at hrank
    obtain ⟨d, hd, hrank⟩ := hrank
    exact absurd hrank (hlead.2 d hd).ne
  unfold Memory.merge
  rw [merge_of_none_leads clk hnone]

end Ranks

/-! ## Both directions -/

section Exchange

variable {A B : Memory} {t : Time}

/-- Nothing is stored past its grace window. -/
def Live (m : Memory) (t : Time) : Prop :=
  ∀ n s svc, m.service? n s = some svc → (m.opts.lease svc t).2 = false

theorem live_gc (m : Memory) {clk : Nat → Time} (hclk : clk 0 = t) (order : GcOrder) :
    Live (m.gc clk order).mem t := by
  intro n s svc hsvc
  obtain ⟨old, -, hlive, hun⟩ := gc_service? hsvc
  have hopts : (m.gc clk order).mem.opts = m.opts := exec_opts (.gc clk order) m
  have hlease : m.opts.lease svc.unstamped t = m.opts.lease old t := by
    rw [hun]
    rfl
  rw [hopts, show m.opts.lease svc t = m.opts.lease svc.unstamped t from rfl, hlease, ← hclk]
  exact hlive

theorem ranks_pulled (hB : Exchanges B) (hlive : Live B t) (n s : String) :
    ranks A (pulled B t) n s = {r | rankOf A n s = some r ∨ rankOf B n s = some r} := by
  ext r
  refine or_congr Iff.rfl ⟨?_, fun hr => ?_⟩
  · rintro ⟨e, he, -, rfl, rfl, rfl⟩
    exact pulled_rank hB he
  · obtain ⟨svc, hsvc, rfl⟩ := rankOf_eq_some.mp hr
    exact exists_pulled hB hsvc (hlive n s svc hsvc)

theorem Exchanges.merge_pulled (hA : Exchanges A) (hB : Exchanges B) (clk : Nat → Time) :
    Exchanges (A.merge clk (pulled B t)).mem where
  filed := hA.filed.exec (.merge clk _)
  ids := by
    intro n s svc hsvc
    have hrank := (rankOf_merge hA clk).mp (rankOf_eq_some.mpr ⟨svc, hsvc, rfl⟩)
    rcases hrank.1 with hold | ⟨e, -, hvalid, rfl, rfl, -⟩
    · obtain ⟨old, hold, -⟩ := rankOf_eq_some.mp hold
      exact hA.ids n s old hold
    · exact hvalid
  survives := by
    refine hA.survives.merge fun e he => ?_
    obtain ⟨n, node, s, svc, -, hsvc, -, rfl⟩ := (mem_pulled hB.filed t e).mp he
    have hsurvives := hB.survives n s svc hsvc
    rw [overWire_eq]
    unfold Survives at hsurvives ⊢
    simp only [clamped, entry, hsurvives]
  room := by
    rw [show (A.merge clk (pulled B t)).mem.opts = A.opts from exec_opts (.merge clk _) A]
    exact hA.room

/-- A service that `A` already holds at the highest rank keeps its record there, so the answer of
`A` shows it. -/
theorem kept_pulled (hA : Exchanges A) (hB : Exchanges B) (hliveA : Live A t) (clk : Nat → Time)
    {n s : String} {r : Nat ×ₗ Int} (hr : rankOf A n s = some r)
    (hmax : ∀ r', rankOf B n s = some r' → r' ≤ r) :
    r ∈ {r | ∃ e ∈ pulled (A.merge clk (pulled B t)).mem t,
      Valid e ∧ e.node.id = n ∧ e.service.id = s ∧ e.service.rank = r} := by
  obtain ⟨svc, hsvc, rfl⟩ := rankOf_eq_some.mp hr
  have hkept : (A.merge clk (pulled B t)).mem.service? n s = some svc := by
    rw [merge_service?_of_not_leads clk, hsvc]
    rintro e he rfl rfl hlead
    have hle := hmax _ (pulled_rank hB he)
    exact absurd hle (not_le.mpr (hlead.2 svc.defn (by simp [Memory.defn?, hsvc])))
  have hopts : (A.merge clk (pulled B t)).mem.opts = A.opts := exec_opts (.merge clk _) A
  exact exists_pulled (hA.merge_pulled hB clk) hkept (by rw [hopts]; exact hliveA n s svc hsvc)

theorem rankOf_exchange (hA : Exchanges A) (hB : Exchanges B) (hliveA : Live A t) (hliveB : Live B t)
    (clk clk' : Nat → Time) (n s : String) :
    rankOf (A.merge clk (pulled B t)).mem n s =
      rankOf (B.merge clk' (pulled (A.merge clk (pulled B t)).mem t)).mem n s := by
  have hA' := hA.merge_pulled hB (t := t) clk
  have hforward : ∀ r, rankOf (A.merge clk (pulled B t)).mem n s = some r →
      rankOf (B.merge clk' (pulled (A.merge clk (pulled B t)).mem t)).mem n s = some r := by
    intro r hr
    have hgreatest := (rankOf_merge hA clk).mp hr
    rw [ranks_pulled hB hliveB] at hgreatest
    rw [rankOf_merge hB]
    refine ⟨?_, ?_⟩
    · rcases hgreatest.1 with hmem | hmem
      · exact Or.inr (kept_pulled hA hB hliveA clk hmem fun r' hr' => hgreatest.2 (Or.inr hr'))
      · exact Or.inl hmem
    · rintro x (hx | ⟨e, he, -, rfl, rfl, rfl⟩)
      · exact hgreatest.2 (Or.inr hx)
      · rw [pulled_rank hA' he] at hr
        exact (Option.some.inj hr).le
  cases hback : rankOf (B.merge clk' (pulled (A.merge clk (pulled B t)).mem t)).mem n s with
  | none =>
    cases hr : rankOf (A.merge clk (pulled B t)).mem n s with
    | none => rfl
    | some r =>
      rw [hforward r hr] at hback
      cases hback
  | some r =>
    -- Whatever `B` ends with was held by one of the two, so `A` has the key as well.
    have hsome : ∃ r', rankOf (A.merge clk (pulled B t)).mem n s = some r' := by
      rcases ((rankOf_merge hB clk').mp hback).1 with hmem | ⟨e, he, -, rfl, rfl, -⟩
      · refine rankOf_merge_of_mem hA clk (r := r) ?_
        rw [ranks_pulled hB hliveB]
        exact Or.inr hmem
      · exact ⟨_, pulled_rank hA' he⟩
    obtain ⟨r', hr'⟩ := hsome
    rw [hr', ← hback, hforward r' hr']

end Exchange

/-- Two seeds that are swept at the same instant and then pull from each other, one after the other,
hold the same services with the same generations and lease times. Pulling again brings nothing. -/
theorem exchange_converges (optsA optsB : Options) (hroomA : optsA.maxServices ≤ 0)
    (hroomB : optsB.maxServices ≤ 0) (callsA callsB : List Call) (htimedA : ∀ c ∈ callsA, Timed c)
    (htimedB : ∀ c ∈ callsB, Timed c) (t : Time) (gcA gcB : Nat → Time) (hgcA : gcA 0 = t)
    (hgcB : gcB 0 = t) (orderA orderB : GcOrder) (clk clk' : Nat → Time) :
    let A := (((newMemory optsA).run callsA).1.gc gcA orderA).mem
    let B := (((newMemory optsB).run callsB).1.gc gcB orderB).mem
    let A' := (A.merge clk (pulled B t)).mem
    let B' := (B.merge clk' (pulled A' t)).mem
    (∀ n s, (A'.defn? n s).map (fun d => (d.generation, d.lastSeen)) =
        (B'.defn? n s).map fun d => (d.generation, d.lastSeen)) ∧
      ∀ later clk'', (A'.merge clk'' (pulled B' later)).ret = 0 ∧
        (B'.merge clk'' (pulled A' later)).ret = 0 := by
  intro A B A' B'
  have hA : Exchanges A := (Exchanges.run hroomA htimedA).gc gcA orderA
  have hB : Exchanges B := (Exchanges.run hroomB htimedB).gc gcB orderB
  have hA' : Exchanges A' := hA.merge_pulled hB clk
  have hB' : Exchanges B' := hB.merge_pulled hA' clk'
  have hsame : ∀ n s, rankOf A' n s = rankOf B' n s :=
    rankOf_exchange hA hB (live_gc _ hgcA orderA) (live_gc _ hgcB orderB) clk clk'
  refine ⟨fun n s => ?_, fun later clk'' => ⟨?_, ?_⟩⟩
  · have hpair : ∀ m : Memory, (m.defn? n s).map (fun d => (d.generation, d.lastSeen)) =
        (rankOf m n s).map ofLex := by
      intro m
      rw [rankOf, Option.map_map]
      rfl
    rw [hpair, hpair, hsame]
  · exact merge_pulled_zero hB' (fun n s => (hsame n s).symm) clk''
  · exact merge_pulled_zero hA' hsame clk''

/-- Two seeds with a service each learn the other's. -/
theorem exchange_converges_both_ways :
    let calls (s : String) (t : Time) : List Call :=
      [.register (fun _ => t) (single { id := "n" } { id := s, name := "web" } 0)]
    let A := (((newMemory {}).run (calls "a" second)).1.gc (fun _ => 3 * second) {}).mem
    let B := (((newMemory {}).run (calls "b" (2 * second))).1.gc (fun _ => 3 * second) {}).mem
    let A' := (A.merge (fun _ => 0) (pulled B (3 * second))).mem
    let B' := (B.merge (fun _ => 0) (pulled A' (3 * second))).mem
    A'.defn? "n" "b" ≠ none ∧ B'.defn? "n" "a" ≠ none ∧
      ∀ n s, (A'.defn? n s).map (fun d => (d.generation, d.lastSeen)) =
        (B'.defn? n s).map fun d => (d.generation, d.lastSeen) := by
  intro calls A B A' B'
  have htimed : ∀ s t, Representable t → ∀ c ∈ calls s t, Timed c := by
    intro s t ht c hc
    rw [List.mem_singleton.mp hc]
    exact ht
  refine ⟨by decide, by decide, ?_⟩
  exact (exchange_converges {} {} (by decide) (by decide) _ _ (htimed "a" second (by decide))
    (htimed "b" (2 * second) (by decide)) (3 * second) _ _ rfl rfl {} {} _ _).1

/-! ## Flags -/

/-- The flags the seed has for the key of an entry. A new key has none set. -/
def localMaintenance (m : Memory) (e : ServiceEntry) : Bool :=
  ((m.service? e.node.id e.service.id).map ServiceRec.maintenance).getD false

@[inherit_doc localMaintenance]
def localFailed (m : Memory) (e : ServiceEntry) : Bool :=
  ((m.service? e.node.id e.service.id).map ServiceRec.failed).getD false

/-- The same TTL bounds and grace period. -/
def SameLeases (o o' : Options) : Prop :=
  o.minTTL = o'.minTTL ∧ o.maxTTL = o'.maxTTL ∧ o.gracePeriod = o'.gracePeriod

instance (o o' : Options) : Decidable (SameLeases o o') := inferInstanceAs (Decidable (_ ∧ _))

/-- After the merge of `e` the seed shows its key in the state `e` has at the peer. -/
def StateCarried (peer m : Memory) (clk : Nat → Time) (now : Time) (e : ServiceEntry) : Prop :=
  ∃ e' ∈ ((m.merge clk [e]).mem.lookup now {}).entries, e'.key = e.key ∧
    e'.maintenance = e.maintenance ∧
    (SameLeases peer.opts m.opts → e'.health = e.health)

/-- The seed's own flags and the TTL that arrives, in whole seconds, say of the key what the entry
says. -/
structure StateAgrees (peer m : Memory) (now : Time) (e : ServiceEntry) : Prop where
  maintenance : localMaintenance m e = e.maintenance
  shown : localFailed m e = true ∨
    timeSub now e.service.lastSeen ≤ m.opts.clampTTL e.service.ttl ∨
    timeSub now e.service.lastSeen ≤ durAdd (m.opts.clampTTL e.service.ttl) m.opts.gracePeriod
  health : SameLeases peer.opts m.opts → (e.health = .passing ↔
    localFailed m e = false ∧ timeSub now e.service.lastSeen ≤ m.opts.clampTTL e.service.ttl)

instance (peer m : Memory) (clk : Nat → Time) (now : Time) (e : ServiceEntry) :
    Decidable (StateCarried peer m clk now e) := List.decidableBEx _ _

instance (peer m : Memory) (now : Time) (e : ServiceEntry) : Decidable (StateAgrees peer m now e) :=
  decidable_of_iff (_ ∧ _ ∧ _) ⟨fun h => ⟨h.1, h.2.1, h.2.2⟩, fun h => ⟨h.1, h.2, h.3⟩⟩

section State

variable {m peer : Memory} {clk : Nat → Time} {now : Time} {e : ServiceEntry}

/-- Merge takes the definition of the entry and keeps the flags the seed has. -/
theorem merge_single_stored (happlied : (m.merge clk [e]).ret = 1) :
    HasMeta (m.merge clk [e]).mem e.node.id e.node ∧
      ∃ svc, (m.merge clk [e]).mem.service? e.node.id e.service.id = some svc ∧
        svc.defn = clamped m.opts e.service ∧ svc.maintenance = localMaintenance m e ∧
          svc.failed = localFailed m e := by
  have hspec := mergeEntry_spec clk ⟨⟨m, m.sizeLocked, []⟩, 0⟩ e
  have hmeta := hasMeta_setMeta m e.node
  obtain ⟨r, hr, -⟩ := id hmeta
  simp only [Memory.merge, List.foldl_cons, List.foldl_nil] at happlied ⊢
  generalize mergeEntry clk ⟨⟨m, m.sizeLocked, []⟩, 0⟩ e = p at hspec happlied ⊢
  cases hspec with
  | skip _ => cases happlied
  | full _ _ _ => cases happlied
  | lose _ _ _ => cases happlied
  | create _ hnew _ hsvc =>
    subst hsvc
    refine ⟨hmeta.createService _, _,
      (Memory.service?_createService hr _ _ _).trans (if_pos ⟨rfl, rfl⟩),
      rfl, ?_, ?_⟩
    · simp [localMaintenance, hnew, Memory.createService]
    · simp [localFailed, hnew, Memory.createService]
  | win _ hold _ hsvc =>
    subst hsvc
    refine ⟨hmeta.rewriteService _ _ _, _, (Memory.service?_rewriteService hr _ _ _ _ _).trans
      (if_pos ⟨rfl, rfl⟩), rfl, ?_, ?_⟩
    · simp [localMaintenance, hold, Memory.rewriteService]
    · simp [localFailed, hold, Memory.rewriteService]

theorem lease_shown (o : Options) (svc : ServiceRec) (now : Time) :
    (o.lease svc now).2 = false ↔ svc.failed = true ∨ timeSub now svc.defn.lastSeen ≤ svc.defn.ttl ∨
      timeSub now svc.defn.lastSeen ≤ durAdd svc.defn.ttl o.gracePeriod := by
  rw [← Bool.not_eq_true, lease_expired_iff, not_and_or, not_and_or, Bool.not_eq_false,
    not_lt, not_lt]

theorem lease_passing_iff (o : Options) (svc : ServiceRec) (now : Time) :
    (o.lease svc now).1 = .passing ↔ svc.failed = false ∧
      timeSub now svc.defn.lastSeen ≤ svc.defn.ttl := by
  unfold Options.lease
  split
  · simp_all
  · dsimp only
    split
    · simp_all
    · split <;> simp_all

theorem lease_ne_passing {o : Options} {svc : ServiceRec} {now : Time}
    (h : (o.lease svc now).1 ≠ .passing) :
    (o.lease svc now).1 = .critical := by
  unfold Options.lease at h ⊢
  split
  · rfl
  · dsimp only at h ⊢
    split <;> rename_i hage
    · simp_all
    · split <;> rfl

theorem received_health {addr : String} {q : Query} (h : Filed peer)
    (he : e ∈ received (answer addr peer now q)) : e.health = .passing ∨ e.health = .critical := by
  rw [received_eq] at he
  obtain ⟨e', hmem, rfl⟩ := List.mem_map.mp he
  have hlookup : e' ∈ (peer.lookup now q).entries := by
    split at hmem
    · exact List.mem_of_mem_filter hmem
    · exact hmem
  obtain ⟨-, svc, -, -, -, he'⟩ := (mem_lookup_stored now q h e').mp hlookup
  have hhealth : (overWire e').health = (peer.opts.lease svc now).1 := by
    rw [overWire_eq]
    exact congrArg ServiceEntry.health he'
  rw [hhealth]
  exact or_iff_not_imp_left.mpr lease_ne_passing

end State

/-- Merge carries the state of an entry over exactly if the seed's own flags, and the lease it makes
of what arrives, already agree with it. -/
theorem state_carried_iff (peer m : Memory) (hpeer : Reachable peer) (hm : Reachable m) (addr : String)
    (q : Query) (now : Time) (clk : Nat → Time) (e : ServiceEntry)
    (he : e ∈ received (answer addr peer now q)) (happlied : (m.merge clk [e]).ret = 1) :
    StateCarried peer m clk now e ↔ StateAgrees peer m now e := by
  obtain ⟨⟨r, hr, hmeta⟩, svc, hsvc, hdefn, hmaint, hfailed⟩ := merge_single_stored happlied
  have hfiled : Filed (m.merge clk [e]).mem := hm.filed.exec (.merge clk [e])
  have hopts : (m.merge clk [e]).mem.opts = m.opts := exec_opts (.merge clk [e]) m
  have hlast : svc.defn.lastSeen = e.service.lastSeen := by rw [hdefn]; rfl
  have httl : svc.defn.ttl = m.opts.clampTTL e.service.ttl := by rw [hdefn]; rfl
  have hnode : (m.merge clk [e]).mem.node? e.node.id = some e.node := by simp [Memory.node?, hr, hmeta]
  rw [StateCarried, show e.key = toLex (e.node.id, e.service.id) from rfl,
    exists_lookup_iff now hfiled hnode hsvc, hopts]
  have hshown := lease_shown m.opts svc now
  have hpassing := lease_passing_iff m.opts svc now
  rw [hfailed, hlast, httl] at hshown hpassing
  have hhealth : (m.opts.lease svc now).1 = e.health ↔ (e.health = .passing ↔
      (m.opts.lease svc now).1 = .passing) := by
    rcases received_health hpeer.filed he with hp | hc
    · simp [hp]
    · by_cases hsvcp : (m.opts.lease svc now).1 = .passing
      · simp [hc, hsvcp]
      · simp [hc, lease_ne_passing hsvcp]
  simp only [entry, hshown, hmaint, hhealth, hpassing]
  exact ⟨fun h => ⟨h.2.1, h.1, h.2.2⟩, fun h => ⟨h.shown, h.maintenance, h.health⟩⟩

/-- A peer with one service, after the given calls. -/
def peerAfter (calls : List Call) : Memory :=
  ((newMemory {}).run (.register (fun _ => second)
    (single { id := "n" } { id := "s", name := "web", ttl := 30 * second } 0) :: calls)).1

theorem reachable_peerAfter (calls : List Call) : Reachable (peerAfter calls) := ⟨_, _, rfl⟩

theorem state_carried_passing :
    let peer := peerAfter []
    ∃ e ∈ received (answer "peer" peer (2 * second) {}),
      StateAgrees peer (newMemory {}) (2 * second) e ∧
      StateCarried peer (newMemory {}) (fun _ => 2 * second) (2 * second) e := by
  intro peer
  obtain ⟨e, he, happlied, hagrees⟩ : ∃ e ∈ received (answer "peer" peer (2 * second) {}),
      ((newMemory {}).merge (fun _ => 2 * second) [e]).ret = 1 ∧
        StateAgrees peer (newMemory {}) (2 * second) e := by
    decide
  exact ⟨e, he, hagrees,
    (state_carried_iff peer _ (reachable_peerAfter []) ⟨{}, [], rfl⟩ "peer" {} _ _ e
    he happlied).mpr hagrees⟩

/-- A drained instance is served as ready by a seed that learns it from its peer. -/
theorem drain_not_carried :
    ¬ ∀ (peer m : Memory), Reachable peer → Reachable m → ∀ (addr : String) (q : Query) (now : Time)
      (clk : Nat → Time) (e : ServiceEntry), e ∈ received (answer addr peer now q) →
        (m.merge clk [e]).ret = 1 → StateCarried peer m clk now e := by
  intro h
  let peer := peerAfter [.setMaintenance (fun _ => second) "n" "s" true]
  obtain ⟨e, he, happlied, hnot⟩ : ∃ e ∈ received (answer "peer" peer (2 * second) {}),
      ((newMemory {}).merge (fun _ => 2 * second) [e]).ret = 1 ∧
        ¬ StateCarried peer (newMemory {}) (fun _ => 2 * second) (2 * second) e := by
    decide
  exact hnot
    (h peer (newMemory {}) (reachable_peerAfter _) ⟨{}, [], rfl⟩ "peer" {} _ _ e he happlied)

/-! ## Silence -/

/-- The same services with the same definitions, apart from `lastSeen`. -/
def AgreeOnData (a b : Memory) : Prop :=
  ∀ n s, (a.defn? n s).map (fun d => { d with lastSeen := zeroTime }) =
    (b.defn? n s).map fun d => { d with lastSeen := zeroTime }

/-- No event, no new index, nothing applied, and no watcher hears of it. -/
def Silent (m : Memory) (o : Outcome Nat) : Prop :=
  o.events = [] ∧ o.mem.index = m.index ∧ o.ret = 0 ∧
    ∀ w : Watch.Watcher, (emit o.events).foldl Watch.Watcher.notify w = w

theorem retag_index (m : Memory) (es : List ServiceEntry) : (m.retag es).index = m.index := by
  rw [retag_rest]
  rfl

theorem silent_of_none_leads {m : Memory} {es : List ServiceEntry} (h : ∀ e ∈ es, ¬ Leads m e)
    (clk : Nat → Time) : Silent m (m.merge clk es) := by
  unfold Memory.merge
  rw [merge_of_none_leads clk h]
  exact ⟨rfl, retag_index m es, rfl, fun _ => rfl⟩

theorem AgreeOnData.stored {a b : Memory} (h : AgreeOnData a b) {n s : String} {svc' : ServiceRec}
    (hsvc' : b.service? n s = some svc') :
    ∃ svc, a.service? n s = some svc ∧ svc.defn.generation = svc'.defn.generation := by
  have hsame := h n s
  rw [Memory.defn?, Memory.defn?, hsvc', Option.map_some, Option.map_some, Option.map_map,
    Option.map_eq_some_iff] at hsame
  obtain ⟨svc, hsvc, hdefn⟩ := hsame
  have hgeneration := congrArg ServiceInstance.generation hdefn
  exact ⟨svc, hsvc, hgeneration⟩

theorem rank_lt_iff_of_generation {d d' : ServiceInstance} (h : d.generation = d'.generation) :
    d.rank < d'.rank ↔ d.lastSeen < d'.lastSeen := by
  rw [ServiceInstance.rank, ServiceInstance.rank, Prod.Lex.toLex_lt_toLex, h]
  simp

/-- An entry of a peer that agrees on the data leads exactly if the peer saw the service later. -/
theorem pulled_leads_iff {a b : Memory} (hb : Reachable b) (hagree : AgreeOnData a b) {n s : String}
    {node : Node} {svc svc' : ServiceRec} (hnode : b.node? n = some node)
    (hsvc' : b.service? n s = some svc') (hsvc : a.service? n s = some svc) (state : HealthState) :
    (overWire (entry node svc' state)).node.id = n ∧
      (overWire (entry node svc' state)).service.id = s ∧
      (Leads a (overWire (entry node svc' state)) ↔
        svc.defn.lastSeen < fromUnixNano (toUnixNano svc'.defn.lastSeen)) := by
  have hn : node.id = n := hb.filed.node_id n node hnode
  have hs : svc'.defn.id = s := hb.filed.service_id n s svc' hsvc'
  obtain ⟨svc₀, hsvc₀, hgeneration⟩ := hagree.stored hsvc'
  rw [hsvc] at hsvc₀
  obtain rfl := Option.some.inj hsvc₀
  rw [overWire_eq]
  refine ⟨hn, hs, ?_⟩
  have hdefn : a.defn? node.id svc'.defn.id = some svc.defn := by rw [Memory.defn?, hn, hs, hsvc]; rfl
  have hvalid := reachable_ids hb hsvc'
  rw [← hn, ← hs] at hvalid
  simp only [Leads, Valid, entry, hdefn, Option.mem_some_iff, forall_eq', hvalid, ne_eq,
    not_false_eq_true,
    and_self, true_and]
  exact rank_lt_iff_of_generation hgeneration

/-- Between seeds that agree on the data a merge is silent exactly if no service the peer shows has
been seen later there, as far as the wire can tell. -/
theorem merge_silent_iff (a b : Memory) (hb : Reachable b) (hagree : AgreeOnData a b) (now : Time)
    (clk : Nat → Time) :
    Silent a (a.merge clk (pulled b now)) ↔
      ∀ n s svc svc', a.service? n s = some svc → b.service? n s = some svc' →
        (b.opts.lease svc' now).2 = false →
          fromUnixNano (toUnixNano svc'.defn.lastSeen) ≤ svc.defn.lastSeen := by
  constructor
  · intro hsilent n s svc svc' hsvc hsvc' hlive
    by_contra hlater
    obtain ⟨r, hr, -⟩ := Memory.service?_eq_some.mp hsvc'
    have hnode : b.node? n = some r.nodeMeta := Memory.node?_of_node hr
    obtain ⟨hn, hs, hlead⟩ := pulled_leads_iff hb hagree hnode hsvc' hsvc (b.opts.lease svc' now).1
    have happlied : 0 < (a.merge clk (pulled b now)).ret := by
      refine applied_lt_of_leads clk (p := ⟨⟨a, a.sizeLocked, []⟩, 0⟩)
        ⟨_, (mem_pulled hb.filed now _).mpr
        ⟨n, r.nodeMeta, s, svc', hnode, hsvc', hlive, rfl⟩, hlead.mpr (not_le.mp hlater), ?_⟩
      rw [hn, hs, hsvc]
      nofun
    exact happlied.ne' hsilent.2.2.1
  · intro hseen
    refine silent_of_none_leads (fun e he hlead => ?_) clk
    obtain ⟨n, node, s, svc', hnode, hsvc', hlive, rfl⟩ := (mem_pulled hb.filed now e).mp he
    obtain ⟨svc, hsvc, -⟩ := hagree.stored hsvc'
    obtain ⟨-, -, hiff⟩ := pulled_leads_iff hb hagree hnode hsvc' hsvc (b.opts.lease svc' now).1
    exact absurd (hseen n s svc svc' hsvc hsvc' hlive) (not_le.mpr (hiff.mp hlead))

theorem agreeOnData_renew (m : Memory) (clk : Nat → Time) (n : String) (ids : List String) :
    AgreeOnData m (m.renew clk n ids).mem := by
  intro n' s
  rw [Memory.defn?, Memory.defn?, renew_service?]
  split
  · rw [Option.map_map, Option.map_map, Option.map_map]
    rfl
  · rfl

/-- The peer has missed the last heartbeat. -/
theorem merge_silent_renewed :
    let m := (peerAfter []).renew (fun _ => 2 * second) "n" [] |>.mem
    m.defn? "n" "s" ≠ (peerAfter []).defn? "n" "s" ∧
      Silent m (m.merge (fun _ => 3 * second) (pulled (peerAfter []) (3 * second))) := by
  intro m
  have hagree : AgreeOnData m (peerAfter []) := fun n s =>
    (agreeOnData_renew (peerAfter []) (fun _ => 2 * second) "n" [] n s).symm
  refine ⟨by decide, (merge_silent_iff m _ (reachable_peerAfter []) hagree _ _).mpr ?_⟩
  intro n s svc svc' hsvc hsvc' _
  have hseen : Everywhere (fun _ _ d => d.lastSeen = second) (peerAfter []) := by
    refine Everywhere.register (fun n s svc hsvc => ?_) fun i _ => ⟨rfl, fun _ _ => rfl⟩
    simp [newMemory, Memory.service?] at hsvc
  have hpeer := hseen n s svc' hsvc'
  rw [renew_service?, hsvc'] at hsvc
  split at hsvc
  · obtain rfl := Option.some.inj hsvc
    have hwire : fromUnixNano (toUnixNano second) ≤ 2 * second := by decide
    rw [hpeer]
    exact hwire
  · obtain rfl := Option.some.inj hsvc
    rw [hpeer]
    decide

/-- One heartbeat that the two seeds stamped differently is a change for the watchers of both. -/
theorem heartbeat_not_silent :
    ¬ ∀ (a b : Memory), Reachable a → Reachable b → AgreeOnData a b →
      ∀ (now : Time) (clk : Nat → Time),
      Silent a (a.merge clk (pulled b now)) := by
  intro h
  have hagree := agreeOnData_renew (peerAfter []) (fun _ => 2 * second) "n" []
  have hsilent :=
    h _ _ (reachable_peerAfter []) (reachable_peerAfter [.renew (fun _ => 2 * second) "n" []])
    hagree (3 * second) fun _ => 3 * second
  exact absurd hsilent.2.2.1 (by decide)

end YellowPages.Membership
