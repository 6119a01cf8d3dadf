import YellowPages.Store.Announce
import YellowPages.Store.RegisterLoop
import YellowPages.Watch.Feed

/-!
# The events of a query against the registry

An event reaches a subscriber if the entry it carries matches the query. The version of the entry
that was there before is not looked at.
-/

namespace YellowPages.Watch

open Lib Store

/-! ## What the events say of a key -/

def ChangeType.verdict : ChangeType → Option Bool
  | .put => some true
  | .delete => some false
  | .unspecified => none

/-- Whether the last event of the key leaves it there. -/
def verdict (log : List ChangeEvent) (k : String × String) : Option Bool :=
  lastWord eventKey (fun ev => ChangeType.verdict ev.type) k log

theorem verdict_append (l l' : List ChangeEvent) (k : String × String) :
    verdict (l ++ l') k = (verdict l' k).or (verdict l k) := lastWord_append k l l'

theorem isSome_follow (log : List ChangeEvent) (k : String × String) :
    (follow log k).isSome = (verdict log k).getD false := by
  induction log using List.reverseRecOn with
  | nil => rfl
  | append_singleton log ev ih =>
    rw [follow_snoc, verdict_append, verdict, lastWord_singleton]
    by_cases hk : eventKey ev = k
    · rw [if_pos hk, if_pos hk.symm, applyEvent]
      cases ev.type with
      | put => rfl
      | delete => rfl
      | unspecified => simpa [ChangeType.verdict] using ih
    · rw [if_neg hk, if_neg fun h => hk h.symm, Option.none_or]
      exact ih

/-- All of an event that a verdict depends on. -/
def gist (ev : ChangeEvent) : (String × String) × ChangeType := (eventKey ev, ev.type)

theorem verdict_eq_of_gist {l l' : List ChangeEvent} (h : l.map gist = l'.map gist)
    (k : String × String) :
    verdict l k = verdict l' k := by
  have hgist : ∀ log, lastWord Prod.fst (ChangeType.verdict ∘ Prod.snd) k (log.map gist) =
      verdict log k :=
    lastWord_map gist k
  rw [← hgist, ← hgist, h]

theorem gist_restamped (q : Query) (index : Nat) (events : List ChangeEvent) :
    (wanted q (restamped index events)).map gist = (wanted q events).map gist := by
  induction events generalizing index with
  | nil => rfl
  | cons ev rest ih =>
    rw [restamped]
    unfold wanted at ih ⊢
    by_cases hq : matchesQuery q ev.entry = true
    · simp only [List.filter_cons, hq, if_true, List.map_cons, ih]
      rfl
    · simp only [List.filter_cons, hq, if_false, Bool.false_eq_true, ih]

/-! ## What of the registry matches -/

def asked (q : Query) (node : Node) (dfn : ServiceInstance) : Bool :=
  matchesQuery q { node := node, service := dfn, health := .passing }

theorem matchesQuery_iff (q : Query) (e : ServiceEntry) : matchesQuery q e = true ↔ Selects q e := by
  rw [Selects, ← ServiceInstance.matchesTags_iff, matchesQuery]
  split
  · grind
  · split <;> grind

end YellowPages.Watch

namespace YellowPages.Store.Memory

open Watch

variable {m : Memory} {q : Query} {n s : String}

/-- A stored service of the query, visible or not. -/
def matched (m : Memory) (q : Query) (n s : String) : Bool :=
  ((m.node? n).bind fun node => (m.service? n s).map fun svc => asked q node svc.defn).getD false

theorem matched_of_some {node : Node} {svc : ServiceRec} (hnode : m.node? n = some node)
    (hsvc : m.service? n s = some svc) : m.matched q n s = asked q node svc.defn := by
  simp [matched, hnode, hsvc]

theorem matched_of_none (hsvc : m.service? n s = none) : m.matched q n s = false := by
  cases hnode : m.node? n <;> simp [matched, hnode, hsvc]

theorem matched_eq_true : m.matched q n s = true ↔
    ∃ node svc, m.node? n = some node ∧ m.service? n s = some svc ∧
      asked q node svc.defn = true := by
  cases hnode : m.node? n <;> cases hsvc : m.service? n s <;> simp [matched, hnode, hsvc]

theorem matched_congr {m' : Memory} (hnode : m'.node? n = m.node? n)
    (hasked : ∀ node, (m'.service? n s).map (fun svc => asked q node svc.defn) =
      (m.service? n s).map fun svc => asked q node svc.defn) : m'.matched q n s = m.matched q n s := by
  simp only [matched, hnode, hasked]

theorem node?_of_hasMeta {node : Node} (h : HasMeta m n node) : m.node? n = some node := by
  obtain ⟨r, hr, rfl⟩ := h
  exact node?_of_node hr

theorem node?_removeService (old : ServiceRec) (n' : String) :
    (m.removeService n s old).node? n' = m.node? n' := by
  rw [removeService, node?_of_nodes_eq (nodes_unindexName ..), node?_eraseService]
  rfl

theorem node?_refresh {r : NodeRec} (hr : m.nodes[n]? = some r) (services : Map ServiceRec)
    (n' : String) :
    ({ m with nodes := m.nodes.insert n { r with services := services } } : Memory).node? n' =
      m.node? n' := by
  simp only [node?, Std.ExtTreeMap.getElem?_insert, Std.compare_eq_iff_eq]
  split <;> rename_i hk
  · rw [← hk, hr]
    rfl
  · rfl

end YellowPages.Store.Memory

namespace YellowPages.Watch

open Lib Store

/-! ## Changes that the events of the query tell -/

/-- The matching keys change as the events that match say. -/
def Tracks (q : Query) (m : Memory) (events : List ChangeEvent) (m' : Memory) : Prop :=
  ∀ n s, m'.matched q n s = (verdict (wanted q events) (n, s)).getD (m.matched q n s)

theorem wanted_append (q : Query) (l l' : List ChangeEvent) :
    wanted q (l ++ l') = wanted q l ++ wanted q l' :=
  List.filter_append ..

theorem verdict_wanted_singleton (q : Query) (ev : ChangeEvent) (k : String × String) :
    verdict (wanted q [ev]) k =
      if eventKey ev = k ∧ matchesQuery q ev.entry = true then ChangeType.verdict
        ev.type else none := by
  by_cases hq : matchesQuery q ev.entry = true <;> simp [wanted, verdict, hq]

namespace Tracks

variable {q : Query} {m m' m'' : Memory} {n s : String}

theorem refl (q : Query) (m : Memory) : Tracks q m [] m := fun _ _ => rfl

theorem trans {l l' : List ChangeEvent} (h : Tracks q m l m') (h' : Tracks q m' l' m'') :
    Tracks q m (l ++ l') m'' := by
  intro n s
  rw [h', h, wanted_append, verdict_append]
  cases verdict (wanted q l') (n, s) <;> rfl

theorem silent (h : ∀ n s, m'.matched q n s = m.matched q n s) : Tracks q m [] m' := h

/-- One key changes. If the event matches, it says to what. If it does not, the key must match as
before. -/
theorem event {ev : ChangeEvent} {v : Bool}
    (hother : ∀ n' s', ¬ (n = n' ∧ s = s') → m'.matched q n' s' = m.matched q n' s')
    (hkey : eventKey ev = (n, s)) (hverdict : ChangeType.verdict ev.type = some v)
    (htold : matchesQuery q ev.entry = true → m'.matched q n s = v)
    (hmissed : matchesQuery q ev.entry = false → m'.matched q n s = m.matched q n s) :
    Tracks q m [ev] m' := by
  intro n' s'
  rw [verdict_wanted_singleton, hkey, hverdict]
  by_cases hk : n = n' ∧ s = s'
  · obtain ⟨rfl, rfl⟩ := hk
    by_cases hq : matchesQuery q ev.entry = true
    · rw [if_pos ⟨rfl, hq⟩, htold hq, Option.getD_some]
    · rw [if_neg fun h => hq h.2, hmissed (Bool.eq_false_iff.mpr hq), Option.getD_none]
  · rw [if_neg fun h => hk (Prod.mk.inj h.1)]
    exact hother n' s' hk

theorem put {ev : ChangeEvent}
    (hother : ∀ n' s', ¬ (n = n' ∧ s = s') → m'.matched q n' s' = m.matched q n' s')
    (hkey : eventKey ev = (n, s)) (htype : ev.type = .put)
    (hnew : m'.matched q n s = matchesQuery q ev.entry)
    (hremains : m.matched q n s = true → matchesQuery q ev.entry = true) : Tracks q m [ev] m' := by
  refine event hother hkey (by rw [htype]; rfl) hnew.trans ?_
  intro hq
  have hold : m.matched q n s = false := by
    rw [Bool.eq_false_iff]
    intro h
    exact absurd (hq.symm.trans (hremains h)) (by simp)
  rw [hnew, hq, hold]

theorem delete {ev : ChangeEvent}
    (hother : ∀ n' s', ¬ (n = n' ∧ s = s') → m'.matched q n' s' = m.matched q n' s')
    (hkey : eventKey ev = (n, s)) (htype : ev.type = .delete) (hgone : m'.matched q n s = false)
    (hold : m.matched q n s = matchesQuery q ev.entry) : Tracks q m [ev] m' := by
  refine event hother hkey (by rw [htype]; rfl) (fun _ => hgone) ?_
  intro hq
  rw [hgone, hold, hq]

/-- A record is written and announced. -/
theorem putRecord {ev : ChangeEvent} {node : Node} {svc : ServiceRec}
    (hput : ∀ n' s', m'.service? n' s' = if n = n' ∧ s = s' then some svc else m.service? n' s')
    (hnodes : ∀ n', m'.node? n' = m.node? n') (hnode : m.node? n = some node)
    (hkey : eventKey ev = (n, s)) (htype : ev.type = .put)
    (hentry : matchesQuery q ev.entry = asked q node svc.defn)
    (hremains : m.matched q n s = true → asked q node svc.defn = true) : Tracks q m [ev] m' := by
  refine put (fun n' s' hk => ?_) hkey htype ?_ (fun h => hentry.trans (hremains h))
  · exact Memory.matched_congr (hnodes n') fun _ => by rw [hput, if_neg hk]
  · rw [Memory.matched_of_some ((hnodes n).trans hnode) (by rw [hput, if_pos ⟨rfl, rfl⟩]), hentry]

end Tracks

/-- What neither adds nor redefines a service is told as it is. -/
theorem Atomic.tracks {n : String} {m m' : Memory} {out : List ChangeEvent}
    (h : Atomic false n m out m') (hfiled : Filed m) (q : Query) : Tracks q m out m' := by
  have hstored : ∀ {r : NodeRec} {s : String} {svc : ServiceRec}, m.nodes[n]? = some r →
      r.services[s]? = some svc → m.service? n s = some svc := by
    intro r s svc hr hs
    rw [Memory.service?_of_node hr, hs]
  cases h with
  | @rewrite _ _ _ s r old svc now hr hold hid _ =>
    have hdefn : svc.defn = old.defn := hid.resolve_left nofun
    have hs : svc.defn.id = s := by
      rw [hdefn]
      exact hfiled.service_id n s old (hstored hr hold)
    refine Tracks.putRecord (Memory.service?_rewriteService hr s old svc)
      (Memory.node?_rewriteService _ _ old svc)
      (Memory.node?_of_node hr) (hfiled.eventKey_eq hr rfl hs) rfl rfl fun h => ?_
    rw [Memory.matched_of_some (Memory.node?_of_node hr) (hstored hr hold), ← hdefn] at h
    exact h
  | @refresh _ _ _ r f hr hf =>
    refine Tracks.silent fun n' s' => Memory.matched_congr (Memory.node?_refresh hr _ n') fun node => ?_
    refine Memory.service?_refresh_map hr (fun svc => asked q node svc.defn) (fun s svc => ?_) n' s'
    obtain ⟨t, b, hfs⟩ := hf s svc
    rw [hfs]
    rfl
  | @remove _ _ s r old hr hold =>
    have hgone := Memory.service?_removeService (m := m) n s old
    refine Tracks.delete (n := n) (s := s) (fun n' s' hk => ?_) ?_ rfl ?_ ?_
    · exact Memory.matched_congr (Memory.node?_removeService old n') fun _ => by rw [hgone, if_neg hk]
    · exact hfiled.eventKey_eq hr rfl (hfiled.service_id n s old (hstored hr hold))
    · exact Memory.matched_of_none (by rw [hgone, if_pos ⟨rfl, rfl⟩])
    · have hmatched : m.matched q n s = asked q r.nodeMeta old.defn :=
        Memory.matched_of_some (Memory.node?_of_node hr) (hstored hr hold)
      exact hmatched
  | @drop _ _ r hr hempty =>
    refine Tracks.silent fun n' s' => ?_
    have hsame := Memory.service?_erase_empty hr hempty n' s'
    by_cases hk : n = n'
    · subst hk
      have hnone : m.service? n s' = none := by
        rw [Std.ExtTreeMap.isEmpty_iff] at hempty
        simp [Memory.service?_of_node hr, hempty]
      rw [Memory.matched_of_none hnone, Memory.matched_of_none (hsame.trans hnone)]
    · refine Memory.matched_congr ?_ fun _ => by rw [hsame]
      simp [Memory.node?, Std.ExtTreeMap.getElem?_erase, hk]

theorem Steps.tracks {m m' : Memory} {log : List ChangeEvent} (h : Steps (Somewhere false) m log m')
    (hfiled : Filed m) (q : Query) : Tracks q m log m' := by
  refine (h.invariant (fun log t => Tracks q m log t ∧ Filed t) ⟨Tracks.refl q m, hfiled⟩ ?_).1
  rintro log t out u ⟨htracks, ht⟩ ⟨n, hstep⟩
  exact ⟨htracks.trans (Atomic.tracks hstep ht q), ht.atomic hstep⟩

/-! ## Services that a snapshot left out -/

/-- The service is stored and past its grace window at `t`: a snapshot taken then leaves it out. -/
def Hidden (t : Time) (m : Memory) (n s : String) : Prop :=
  ∃ svc, m.service? n s = some svc ∧ (m.opts.lease svc t).2 = true

/-- What is left of the service has the lease it had. -/
def SameLease (m m' : Memory) (n s : String) : Prop :=
  ∀ svc', m'.service? n s = some svc' →
    ∃ svc, m.service? n s = some svc ∧ svc'.defn = svc.defn ∧ svc'.failed = svc.failed

theorem SameLease.refl (m : Memory) (n s : String) : SameLease m m n s :=
  fun svc h => ⟨svc, h, rfl, rfl⟩

theorem SameLease.of_eq {m m' : Memory} {n s : String} (h : m'.service? n s = m.service? n s) :
    SameLease m m' n s := fun svc hsvc => ⟨svc, h ▸ hsvc, rfl, rfl⟩

theorem SameLease.trans {m m' m'' : Memory} {n s : String} (h : SameLease m m' n s)
    (h' : SameLease m' m'' n s) : SameLease m m'' n s := by
  intro svc'' hsvc''
  obtain ⟨svc', hsvc', hdefn', hfailed'⟩ := h' svc'' hsvc''
  obtain ⟨svc, hsvc, hdefn, hfailed⟩ := h svc' hsvc'
  exact ⟨svc, hsvc, hdefn'.trans hdefn, hfailed'.trans hfailed⟩

theorem Hidden.of_sameLease {t : Time} {q : Query} {m m' : Memory} {n s : String} (h : Hidden t m n s)
    (hlease : SameLease m m' n s) (hopts : m'.opts = m.opts) (hmatched : m'.matched q n s = true) :
    Hidden t m' n s := by
  obtain ⟨svc, hsvc, hexpired⟩ := h
  obtain ⟨-, svc', -, hsvc', -⟩ := Memory.matched_eq_true.mp hmatched
  obtain ⟨old, hold, hdefn, hfailed⟩ := hlease svc' hsvc'
  obtain rfl := Option.some.inj (hsvc.symm.trans hold)
  exact ⟨svc', hsvc', by rw [hopts, lease_congr hdefn hfailed]; exact hexpired⟩

/-- Matching keys change as the events say, and what was hidden stays so unless an event tells of it. -/
structure Carries (q : Query) (since : Option Time) (m : Memory) (events : List ChangeEvent)
    (m' : Memory) :
    Prop where
  tracks : Tracks q m events m'
  hidden : ∀ t ∈ since, ∀ n s, Hidden t m n s → m.matched q n s = true →
    verdict (wanted q events) (n, s) = none → SameLease m m' n s

namespace Carries

variable {q : Query} {since : Option Time} {m m' m'' : Memory} {events out : List ChangeEvent}
  {n s : String}

theorem refl (q : Query) (since : Option Time) (m : Memory) : Carries q since m [] m :=
  ⟨Tracks.refl q m, fun _ _ _ _ _ _ _ => SameLease.refl m _ _⟩

theorem step (h : Carries q since m events m') (htracks : Tracks q m' out m'')
    (hlease : ∀ t ∈ since, ∀ n s, Hidden t m n s → m.matched q n s = true →
      m'.matched q n s = true →
      SameLease m m' n s → verdict (wanted q out) (n, s) = none → SameLease m' m'' n s) :
    Carries q since m (events ++ out) m'' where
  tracks := h.tracks.trans htracks
  hidden := by
    intro t ht n s hhidden hmatched hnone
    rw [wanted_append, verdict_append, Option.or_eq_none_iff] at hnone
    have hsame := h.hidden t ht n s hhidden hmatched hnone.2
    have hmatched' : m'.matched q n s = true := by rw [h.tracks, hnone.2, Option.getD_none, hmatched]
    exact hsame.trans (hlease t ht n s hhidden hmatched hmatched' hsame hnone.1)

theorem put (h : Carries q since m events m') {ev : ChangeEvent} {node : Node} {svc : ServiceRec}
    (hput : ∀ n' s', m''.service? n' s' = if n = n' ∧ s = s' then some svc else m'.service? n' s')
    (hnodes : ∀ n', m''.node? n' = m'.node? n') (hnode : m'.node? n = some node)
    (hkey : eventKey ev = (n, s)) (htype : ev.type = .put)
    (hentry : matchesQuery q ev.entry = asked q node svc.defn)
    (hremains : m'.matched q n s = true → asked q node svc.defn = true) :
    Carries q since m (events ++ [ev]) m'' := by
  refine h.step (Tracks.putRecord hput hnodes hnode hkey htype hentry hremains) ?_
  intro t ht n' s' _ _ hmatched _ hnone
  by_cases hk : n = n' ∧ s = s'
  · -- The event matches, so it is not silent about the key.
    obtain ⟨rfl, rfl⟩ := hk
    rw [verdict_wanted_singleton, if_pos ⟨hkey, hentry.trans (hremains hmatched)⟩, htype] at hnone
    cases hnone
  · exact SameLease.of_eq (by rw [hput, if_neg hk])

theorem silent (h : Carries q since m events m')
    (hmatched : ∀ n s, m''.matched q n s = m'.matched q n s)
    (hlease : ∀ t ∈ since, ∀ n s, Hidden t m n s → m.matched q n s = true →
      m'.matched q n s = true →
      SameLease m m' n s → SameLease m' m'' n s) : Carries q since m events m'' := by
  have hstep :=
    h.step (Tracks.silent hmatched) fun t ht n s h1 h2 h3 h4 _ => hlease t ht n s h1 h2 h3 h4
  rwa [List.append_nil] at hstep

end Carries

/-! ## Calls that tell what they do -/

/-- The new attributes of the node neither bring a stored service into the query nor take one out. -/
def Unmoved (q : Query) (m : Memory) (node : Node) : Prop :=
  ∀ r ∈ m.nodes[node.id]?, ∀ p ∈ r.services.toList,
    asked q node p.2.defn = asked q r.nodeMeta p.2.defn

instance (q : Query) (m : Memory) (node : Node) : Decidable (Unmoved q m node) :=
  inferInstanceAs (Decidable (∀ r ∈ m.nodes[node.id]?, ∀ p ∈ r.services.toList, _))

/-- A stored service of the query that Merge replaces is replaced by one of the query. -/
def MergeTold (q : Query) (p : MergePass) (e : ServiceEntry) : Prop :=
  Valid e → Unmoved q p.mem e.node ∧ ∀ svc ∈ p.mem.service? e.node.id e.service.id,
    e.service.winsLWW svc.defn = true → asked q e.node svc.defn = true →
      asked q e.node e.service = true

instance (q : Query) (p : MergePass) (e : ServiceEntry) : Decidable (MergeTold q p e) :=
  inferInstanceAs (Decidable (_ → _ ∧ ∀ svc ∈ p.mem.service? e.node.id e.service.id, _ → _ → _))

/-- A Register that replaces no service of the query by one outside it, and refreshes none that the
snapshot left out. -/
structure RegisterTold (q : Query) (since : Option Time) (m : Memory) (clk : Nat → Time)
    (reg : Registration) :
    Prop where
  unmoved : Unmoved q m reg.node
  stored : ∀ i ∈ reg.services, ∀ svc ∈ m.service? reg.node.id (serviceId i),
    asked q reg.node svc.defn = true → asked q reg.node i = true
  repeated : reg.services.Pairwise fun i j =>
    serviceId i = serviceId j → asked q reg.node i = true → asked q reg.node j = true
  shown : ∀ t ∈ since, ∀ i ∈ reg.services, ∀ svc ∈ m.service? reg.node.id (serviceId i),
    asked q reg.node svc.defn = true → (m.opts.lease svc t).2 = true →
      changed svc.defn (stamp m.opts (clk 0) reg.generation i) = true

instance (q : Query) (since : Option Time) (m : Memory) (clk : Nat → Time) (reg : Registration) :
    Decidable (RegisterTold q since m clk reg) :=
  decidable_of_iff
    (Unmoved q m reg.node ∧
      (∀ i ∈ reg.services, ∀ svc ∈ m.service? reg.node.id (serviceId i),
        asked q reg.node svc.defn = true → asked q reg.node i = true) ∧
      (reg.services.Pairwise fun i j =>
        serviceId i = serviceId j → asked q reg.node i = true → asked q reg.node j = true) ∧
      ∀ t ∈ since, ∀ i ∈ reg.services, ∀ svc ∈ m.service? reg.node.id (serviceId i),
        asked q reg.node svc.defn = true → (m.opts.lease svc t).2 = true →
          changed svc.defn (stamp m.opts (clk 0) reg.generation i) = true)
    ⟨fun h => ⟨h.1, h.2.1, h.2.2.1, h.2.2.2⟩, fun h => ⟨h.unmoved, h.stored, h.repeated, h.shown⟩⟩

/-- A Renew that reaches no service of the query that the snapshot left out. -/
def RenewTold (q : Query) (since : Option Time) (m : Memory) (n : String) (ids : List String) : Prop :=
  ∀ t ∈ since, ∀ r ∈ m.nodes[n]?, ∀ p ∈ r.services.toList, Renews m n ids p.1 →
    asked q r.nodeMeta p.2.defn = true → (m.opts.lease p.2 t).2 = false

instance (q : Query) (since : Option Time) (m : Memory) (n : String) (ids : List String) :
    Decidable (RenewTold q since m n ids) :=
  inferInstanceAs (Decidable (∀ t ∈ since, ∀ r ∈ m.nodes[n]?, ∀ p ∈ r.services.toList, _ → _ → _))

/-- Nothing enters or leaves the query without an event of the query, and nothing that the snapshot
left out comes back without one. -/
def Call.Told (q : Query) (since : Option Time) (m : Memory) : Call → Prop
  | .register clk reg => RegisterTold q since m clk reg
  | .renew _ n ids => RenewTold q since m n ids
  | .merge clk entries =>
    Throughout (mergeEntry clk) (MergeTold q) ⟨⟨m, m.sizeLocked, []⟩, 0⟩ entries
  | .fail .. | .setMaintenance .. | .deregister .. | .deregisterService .. | .gc .. => True

instance (q : Query) (since : Option Time) (m : Memory) : ∀ c :
    Call, Decidable (Call.Told q since m c)
  | .register clk reg => inferInstanceAs (Decidable (RegisterTold q since m clk reg))
  | .renew _ n ids => inferInstanceAs (Decidable (RenewTold q since m n ids))
  | .merge _ _ => inferInstanceAs (Decidable (Throughout _ _ _ _))
  | .fail .. | .setMaintenance .. | .deregister .. | .deregisterService .. | .gc .. =>
    inferInstanceAs (Decidable True)

section Calls

variable {q : Query} {since : Option Time} {m : Memory}

theorem Unmoved.matched {node : Node} (h : Unmoved q m node) (n s : String) :
    (m.setMeta node).matched q n s = m.matched q n s := by
  by_cases hn : node.id = n
  · subst hn
    have hnode : (m.setMeta node).node? node.id = some node := by rw [Memory.node?_setMeta, if_pos rfl]
    cases hsvc : m.service? node.id s with
    | none =>
      rw [Memory.matched_of_none hsvc, Memory.matched_of_none (by rw [Memory.service?_setMeta, hsvc])]
    | some svc =>
      obtain ⟨r, hr, hs⟩ := Memory.service?_eq_some.mp hsvc
      rw [Memory.matched_of_some hnode (by rw [Memory.service?_setMeta, hsvc]),
        Memory.matched_of_some (Memory.node?_of_node hr) hsvc]
      exact h r hr (s, svc) (Std.ExtTreeMap.mem_toList_iff_getElem?_eq_some.mpr hs)
  · refine Memory.matched_congr ?_ fun _ => by rw [Memory.service?_setMeta]
    rw [Memory.node?_setMeta, if_neg hn]

theorem Carries.setMeta {events : List ChangeEvent} {m' : Memory} (h : Carries q since m events m')
    {node : Node} (hnode : Unmoved q m' node) : Carries q since m events (m'.setMeta node) :=
  h.silent hnode.matched fun _ _ n s _ _ _ _ => SameLease.of_eq (Memory.service?_setMeta node n s)

/-! ### Register -/

theorem RegisterTurn.stored {clk : Nat → Time} {node : Node} {dfn : ServiceInstance} {p p' : Pass}
    (h : RegisterTurn clk node dfn p (some p')) (hmeta : HasMeta p.mem node.id node) :
    ∃ svc, (∀ n s,
      p'.mem.service? n s = if node.id = n ∧ dfn.id = s then some svc else p.mem.service? n s) ∧
      (svc.defn = dfn ∨ ∃ old, p.mem.service? node.id dfn.id = some old ∧
        svc.defn = { old.defn with lastSeen := clk 0 }) := by
  obtain ⟨r, hr, -⟩ := hmeta
  cases h with
  | create _ _ hsvc =>
    rw [hsvc]
    exact ⟨_, Memory.service?_createService hr dfn, Or.inl rfl⟩
  | rewrite _ _ hsvc =>
    rw [hsvc]
    exact ⟨_, Memory.service?_rewriteService hr _ _ _, Or.inl rfl⟩
  | refresh hold _ => exact ⟨_, Memory.service?_setService hr, Or.inr ⟨_, hold, rfl⟩⟩

theorem Carries.registerTurn {clk : Nat → Time} {node : Node} {dfn : ServiceInstance} {p p' : Pass}
    (h : Carries q since m p.events p.mem) (hmeta : HasMeta p.mem node.id node)
    (hremains : ∀ svc, p.mem.service? node.id dfn.id = some svc → asked q node svc.defn = true →
      asked q node dfn = true)
    (hshown : ∀ t ∈ since, ∀ svc, m.service? node.id dfn.id = some svc →
      m.matched q node.id dfn.id = true →
      (m.opts.lease svc t).2 = true → changed svc.defn dfn = true)
    (hturn : RegisterTurn clk node dfn p (some p')) : Carries q since m p'.events p'.mem := by
  have hnode := Memory.node?_of_hasMeta hmeta
  obtain ⟨r, hr, -⟩ := hmeta
  cases hturn with
  | create hnew _ hsvc =>
    rw [hsvc]
    refine h.put (Memory.service?_createService hr dfn) (Memory.node?_createService _ dfn) hnode rfl
      rfl rfl ?_
    intro hmatched
    rw [Memory.matched_of_none hnew] at hmatched
    cases hmatched
  | @rewrite old _ hold _ hsvc =>
    rw [hsvc]
    refine h.put (Memory.service?_rewriteService hr _ _ _) (Memory.node?_rewriteService _ _ _ _)
      hnode rfl rfl rfl ?_
    intro hmatched
    rw [Memory.matched_of_some hnode hold] at hmatched
    exact hremains old hold hmatched
  | @refresh old hold hsame =>
    have hput : ∀ n' s', (p.mem.setService node.id dfn.id
        { old with defn := { old.defn with lastSeen := clk 0 } }).service? n' s' = _ :=
      Memory.service?_setService hr
    refine h.silent (fun n s => ?_) ?_
    · refine Memory.matched_congr (Memory.node?_setService ..) fun node' => ?_
      rw [hput]
      split <;> rename_i hk
      · obtain ⟨rfl, rfl⟩ := hk
        rw [hold]
        rfl
      · rfl
    · rintro t ht n s ⟨svc, hsvc, hexpired⟩ hmatched - hlease
      by_cases hk : node.id = n ∧ dfn.id = s
      · -- A hidden service still has its old definition, which the input would have to change.
        obtain ⟨rfl, rfl⟩ := hk
        obtain ⟨svc', hsvc', hdefn, -⟩ := hlease old hold
        obtain rfl := Option.some.inj (hsvc.symm.trans hsvc')
        have hchanged := hshown t ht svc hsvc hmatched hexpired
        rw [← hdefn, hsame] at hchanged
        cases hchanged
      · exact SameLease.of_eq (by rw [hput, if_neg hk])

theorem Carries.registerLoop {clk : Nat → Time} {reg : Registration} (inputs : List ServiceInstance)
    {p : Pass} (h : Carries q since m p.events p.mem) (hmeta : HasMeta p.mem reg.node.id reg.node)
    (hopts : p.mem.opts = m.opts)
    (hremains : ∀ i ∈ inputs, ∀ svc, p.mem.service? reg.node.id (serviceId i) = some svc →
      asked q reg.node svc.defn = true → asked q reg.node i = true)
    (hrepeated : inputs.Pairwise fun i j =>
      serviceId i = serviceId j → asked q reg.node i = true → asked q reg.node j = true)
    (hshown : ∀ t ∈ since, ∀ i ∈ inputs, ∀ svc, m.service? reg.node.id (serviceId i) = some svc →
      m.matched q reg.node.id (serviceId i) = true → (m.opts.lease svc t).2 = true →
        changed svc.defn (stamp m.opts (clk 0) reg.generation i) = true) :
    Carries q since m (registerLoop clk reg inputs p).1.events
      (registerLoop clk reg inputs p).1.mem := by
  induction inputs generalizing p with
  | nil => exact h
  | cons input rest ih =>
    simp only [Store.registerLoop]
    split
    · exact h
    · rename_i p' hp'
      have hturn := registerService_spec clk reg p input
      rw [hp', hopts] at hturn
      obtain ⟨hhead, htail⟩ := List.pairwise_cons.mp hrepeated
      refine ih ?_ (hturn.hasMeta hmeta) (hturn.opts.trans hopts) ?_ htail ?_
      · exact h.registerTurn hmeta (hremains input List.mem_cons_self)
          (fun t ht => hshown t ht input List.mem_cons_self) hturn
      · -- A later input of the same id meets what this one left.
        intro i hi svc hsvc hasked
        obtain ⟨new, hput, hdefn⟩ := RegisterTurn.stored hturn hmeta
        rw [hput] at hsvc
        split at hsvc <;> rename_i hk
        · obtain rfl := Option.some.inj hsvc
          have hid : serviceId input = serviceId i := hk.2
          rcases hdefn with hdefn | ⟨old, hold, hdefn⟩
          · rw [hdefn] at hasked
            exact hhead i hi hid hasked
          · rw [hdefn] at hasked
            exact hhead i hi hid (hremains input List.mem_cons_self old hold hasked)
        · exact hremains i (List.mem_cons_of_mem _ hi) svc hsvc hasked
      · exact fun t ht i hi => hshown t ht i (List.mem_cons_of_mem _ hi)

theorem RegisterTold.carries {clk : Nat → Time} {reg : Registration}
    (h : RegisterTold q since m clk reg) :
    Carries q since m (m.register clk reg).events (m.register clk reg).mem := by
  unfold Memory.register
  split
  · exact Carries.refl q since m
  · refine Carries.registerLoop reg.services ((Carries.refl q since m).setMeta h.unmoved)
      (hasMeta_setMeta m reg.node) rfl ?_ h.repeated ?_
    · intro i hi svc hsvc
      rw [Memory.service?_setMeta] at hsvc
      exact h.stored i hi svc hsvc
    · intro t ht i hi svc hsvc hmatched
      have hnode := Memory.node?_of_hasMeta (hasMeta_setMeta m reg.node)
      rw [← h.unmoved.matched,
        Memory.matched_of_some hnode (by rw [Memory.service?_setMeta]; exact hsvc)] at hmatched
      exact h.shown t ht i hi svc hsvc hmatched

/-! ### Merge -/

theorem Carries.mergeTurn {clk : Nat → Time} {p p' : MergePass} {e : ServiceEntry}
    (h : Carries q since m p.events p.mem) (htold : MergeTold q p e) (hturn : MergeTurn clk p e p') :
    Carries q since m p'.events p'.mem := by
  obtain ⟨r, hr, -⟩ := hasMeta_setMeta p.mem e.node
  have hnode := Memory.node?_of_hasMeta (hasMeta_setMeta p.mem e.node)
  cases hturn with
  | skip _ => exact h
  | full hvalid _ _ | lose hvalid _ _ => exact h.setMeta (htold hvalid).1
  | create hvalid hnew _ hsvc =>
    rw [hsvc]
    refine (h.setMeta (htold hvalid).1).put (Memory.service?_createService hr _)
      (Memory.node?_createService _ _)
      hnode rfl rfl rfl fun hmatched => ?_
    rw [Memory.matched_of_none (by rw [Memory.service?_setMeta]; exact hnew)] at hmatched
    cases hmatched
  | @win old _ hvalid hold hrank hsvc =>
    rw [hsvc]
    refine (h.setMeta (htold hvalid).1).put (Memory.service?_rewriteService hr _ _ _)
      (Memory.node?_rewriteService _ _ _ _) hnode rfl rfl rfl fun hmatched => ?_
    rw [Memory.matched_of_some hnode (by rw [Memory.service?_setMeta]; exact hold)] at hmatched
    exact (htold hvalid).2 old hold ((ServiceInstance.winsLWW_iff _ _).mpr hrank) hmatched

/-! ### The other calls -/

theorem Carries.of_steps {m' : Memory} {events : List ChangeEvent}
    (h : Steps (Somewhere false) m events m') (hfiled : Filed m)
    (hlease : ∀ n s, SameLease m m' n s) : Carries q since m events m' :=
  ⟨Steps.tracks h hfiled q, fun _ _ n s _ _ _ => hlease n s⟩

theorem RenewTold.carries {n : String} {ids : List String} (h : RenewTold q since m n ids)
    (hfiled : Filed m) (clk : Nat → Time) :
    Carries q since m (m.renew clk n ids).events (m.renew clk n ids).mem := by
  refine ⟨Steps.tracks ((renew_steps m clk n ids).mono somewhere) hfiled q, ?_⟩
  rintro t ht n' s' ⟨svc, hsvc, hexpired⟩ hmatched -
  by_cases hk : n = n' ∧ Renews m n ids s'
  · obtain ⟨rfl, hrenews⟩ := hk
    obtain ⟨r, hr, hs⟩ := Memory.service?_eq_some.mp hsvc
    rw [Memory.matched_of_some (Memory.node?_of_node hr) hsvc] at hmatched
    have hlive :=
      h t ht r hr (s', svc) (Std.ExtTreeMap.mem_toList_iff_getElem?_eq_some.mpr hs) hrenews hmatched
    rw [hexpired] at hlive
    cases hlive
  · exact SameLease.of_eq (by rw [renew_service?, if_neg hk])

theorem setFlag_carries {clk : Nat → Time} {n s : String} {same : ServiceRec → Bool}
    {set : ServiceRec → ServiceRec} (hfiled : Filed m) (hdefn : ∀ svc, (set svc).defn = svc.defn) :
    Carries q since m (m.setFlag clk n s same set).events (m.setFlag clk n s same set).mem := by
  refine setFlag_keeps (fun m' events => Carries q since m events m') (Carries.refl q since m) ?_
  rintro r svc _ hr hsvc - rfl
  have hnode : m.node? n = some r.nodeMeta := Memory.node?_of_node hr
  have hid : (set svc).defn.id = s := by
    rw [hdefn]
    exact hfiled.service_id n s svc hsvc
  refine (Carries.refl q since m).put (Memory.service?_setService (m := m.advance) hr)
    (Memory.node?_setService (m := m.advance) n s _) hnode (hfiled.eventKey_eq hr rfl hid) rfl rfl ?_
  intro hmatched
  rw [Memory.matched_of_some hnode hsvc, ← hdefn] at hmatched
  exact hmatched

theorem deregisterService_sameLease (m : Memory) (n s n' s' : String) :
    SameLease m (m.deregisterService n s).mem n' s' := by
  intro svc hsvc
  rw [deregisterService_service?] at hsvc
  split at hsvc
  · cases hsvc
  · exact ⟨svc, hsvc, rfl, rfl⟩

theorem deregister_sameLease (m : Memory) (order : RangeOrder String) (n n' s' : String) :
    SameLease m (m.deregister order n).mem n' s' := by
  intro svc hsvc
  rw [deregister_service?] at hsvc
  split at hsvc
  · cases hsvc
  · exact ⟨svc, hsvc, rfl, rfl⟩

theorem gc_sameLease (m : Memory) (clk : Nat → Time) (order : GcOrder) (n s : String) :
    SameLease m (m.gc clk order).mem n s := by
  intro svc hsvc
  obtain ⟨old, hold, -, hun⟩ := gc_service? hsvc
  refine ⟨old, hold, ?_, ?_⟩
  · have hdefn : svc.unstamped.defn = old.defn := by rw [hun]
    exact hdefn
  · have hfailed : svc.unstamped.failed = old.failed := by rw [hun]
    exact hfailed

theorem Call.Told.carries {c : Call} (h : Call.Told q since m c) (hfiled : Filed m) :
    Carries q since m (c.exec m).2 (c.exec m).1 := by
  cases c with
  | register clk reg => exact RegisterTold.carries h
  | renew clk n ids => exact RenewTold.carries h hfiled clk
  | fail clk n s => exact setFlag_carries hfiled fun _ => rfl
  | setMaintenance clk n s enabled => exact setFlag_carries hfiled fun _ => rfl
  | deregister order n =>
    exact Carries.of_steps (exec_steps (.deregister order n) m) hfiled (deregister_sameLease m order n)
  | deregisterService n s =>
    exact Carries.of_steps (exec_steps (.deregisterService n s) m) hfiled
      (deregisterService_sameLease m n s)
  | merge clk entries =>
    refine Throughout.keeps h (fun p => Carries q since m p.events p.mem) (Carries.refl q since m) ?_
    intro p e htold hp
    exact hp.mergeTurn htold (mergeEntry_spec clk p e)
  | gc clk order =>
    exact Carries.of_steps (exec_steps (.gc clk order) m) hfiled (gc_sameLease m clk order)

end Calls

/-! ## After GC -/

theorem not_hidden_of_gc (m : Memory) {clk : Nat → Time} (order : GcOrder) {t : Time}
    (ht : t ≤ clk 0) (n s : String) : ¬ Hidden t (m.gc clk order).mem n s := by
  rintro ⟨svc, hsvc, hexpired⟩
  have hopts : (m.gc clk order).mem.opts = m.opts := exec_opts (.gc clk order) m
  obtain ⟨old, hold, hlive, -⟩ := gc_service? hsvc
  obtain ⟨old', hold', hdefn, hfailed⟩ := gc_sameLease m clk order n s svc hsvc
  obtain rfl := Option.some.inj (hold.symm.trans hold')
  rw [hopts, lease_congr hdefn hfailed] at hexpired
  rw [lease_expired_mono m.opts old ht hexpired] at hlive
  cases hlive

end YellowPages.Watch
