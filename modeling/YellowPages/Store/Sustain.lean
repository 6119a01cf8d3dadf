import YellowPages.Store.Decay

/-!
# Services that are kept up

The counterpart of a service that falls silent. After a registration its agent renews and registers
it again, peers send their copies of it, and sweeps run. As long as none of these calls falls behind the
registration, the registry goes on showing the service.
-/

namespace YellowPages.Store

/-- What a registration promises to readers: the name, at least this generation, and a lease of at
least `ttl` from `seen` on. -/
structure Pledge where
  name : String
  generation : Nat
  seen : Time
  ttl : Duration

structure Pledge.KeptBy (w : Pledge) (d : ServiceInstance) : Prop where
  name : d.name = w.name
  generation : w.generation ≤ d.generation
  seen : w.seen ≤ d.lastSeen
  ttl : w.ttl ≤ d.ttl

/-- What a seed promises that takes a definition as it is. -/
def Pledge.of (d : ServiceInstance) : Pledge := ⟨d.name, d.generation, d.lastSeen, d.ttl⟩

/-- The call does not take the service off, and does not put it behind the pledge. A sweep is no later
than `t`. -/
def Call.Sustains (o : Options) (n s : String) (w : Pledge) (t : Time) : Call → Prop
  | .register clk reg =>
    reg.node.id = n → ∀ i ∈ reg.services, serviceId i = s →
      w.KeptBy (stamp o (clk 0) reg.generation i)
  | .renew clk n' _ => n' = n → w.seen ≤ clk 0
  | .fail .. | .setMaintenance .. => True
  | .deregister _ n' => n' ≠ n
  | .deregisterService n' s' => ¬ (n' = n ∧ s' = s)
  | .merge _ es =>
    ∀ e ∈ es, e.node.id = n → e.service.id = s → w.generation ≤ e.service.generation →
      e.service.name = w.name ∧ w.ttl ≤ o.clampTTL e.service.ttl ∧
        (w.generation < e.service.generation → w.seen ≤ e.service.lastSeen)
  | .gc clk _ => clk 0 ≤ t

/-- The registry holds the service as pledged. -/
def Upholds (m : Memory) (n s : String) (w : Pledge) : Prop :=
  ∃ svc, m.service? n s = some svc ∧ w.KeptBy svc.defn

variable {m : Memory} {n s : String} {w : Pledge} {t : Time}

theorem Upholds.of_service?_eq {m' : Memory} (h : Upholds m n s w)
    (heq : m'.service? n s = m.service? n s) :
    Upholds m' n s w := by
  obtain ⟨svc, hsvc, hkept⟩ := h
  exact ⟨svc, heq.trans hsvc, hkept⟩

/-- Within the lease of the pledge the service is live. -/
theorem Pledge.KeptBy.lease {svc : ServiceRec} (h : w.KeptBy svc.defn) (o : Options)
    (ht : timeSub t w.seen ≤ w.ttl) : (o.lease svc t).2 = false := by
  rw [Bool.eq_false_iff, ne_eq, lease_expired_iff]
  rintro ⟨-, hage, -⟩
  have hsub : timeSub t svc.defn.lastSeen ≤ timeSub t w.seen :=
    max_le_max le_rfl (min_le_min le_rfl (sub_le_sub_left h.seen t))
  exact absurd hage (not_lt.mpr (hsub.trans (ht.trans h.ttl)))

theorem Pledge.KeptBy.trans {d d' : ServiceInstance} (h : w.KeptBy d) (h' : (Pledge.of d).KeptBy d') :
    w.KeptBy d' :=
  ⟨h'.name.trans h.name, h.generation.trans h'.generation, h.seen.trans h'.seen, h.ttl.trans h'.ttl⟩

/-- What ranks above a version that keeps the pledge is behind it in nothing but, with a later
generation, the time. -/
theorem Pledge.KeptBy.outranked {d d' : ServiceInstance} (h : w.KeptBy d) (hrank : d.rank < d'.rank) :
    w.generation ≤ d'.generation ∧
      ((w.generation < d'.generation → w.seen ≤ d'.lastSeen) → w.seen ≤ d'.lastSeen) := by
  rcases Prod.Lex.toLex_lt_toLex.mp hrank with hlt | ⟨heq, hseen⟩
  · have hlater : w.generation < d'.generation := lt_of_le_of_lt h.generation hlt
    exact ⟨hlater.le, fun hnewer => hnewer hlater⟩
  · exact ⟨h.generation.trans_eq heq, fun _ => h.seen.trans hseen.le⟩

/-- What a seed settles on keeps the pledge of what was submitted, also if it had the same already. -/
theorem keptBy_settled (old : Option ServiceInstance) (dfn : ServiceInstance) :
    (Pledge.of dfn).KeptBy (settled old dfn dfn.lastSeen) := by
  have hself : (Pledge.of dfn).KeptBy dfn := ⟨rfl, le_rfl, le_rfl, le_rfl⟩
  cases old with
  | none => exact hself
  | some old =>
    unfold settled
    dsimp only
    split <;> rename_i hchanged
    · exact hself
    · have hsame := fields_of_not_changed hchanged
      exact ⟨hsame.name, hsame.generation.ge, le_rfl, hsame.ttl.ge⟩

/-- A registration that is accepted is upheld. -/
theorem Upholds.registered {clk : Nat → Time} {reg : Registration}
    (hids : (reg.services.map serviceId).Nodup) (hret : (m.register clk reg).ret = none)
    {i : ServiceInstance} (hi : i ∈ reg.services) :
    Upholds (m.register clk reg).mem reg.node.id (serviceId i)
      (.of (stamp m.opts (clk 0) reg.generation i)) := by
  obtain ⟨svc, hsvc, hdefn⟩ := register_settles hids hret hi
  refine ⟨svc, hsvc, ?_⟩
  rw [hdefn]
  exact keptBy_settled _ (stamp m.opts (clk 0) reg.generation i)

/-! ## One call, and the calls after it -/

theorem Upholds.register (h : Upholds m n s w) {clk : Nat → Time} {reg : Registration}
    (hc : (Call.register clk reg).Sustains m.opts n s w t) :
    Upholds (m.register clk reg).mem n s w := by
  by_cases hn : reg.node.id = n
  · subst hn
    refine register_keeps (fun mem _ => Upholds mem reg.node.id s w) h
      (fun _ => h.of_service?_eq (Memory.service?_setMeta ..)) ?_
    rintro p p' i hi - hmeta hp hturn
    by_cases hs : serviceId i = s
    · obtain ⟨new, hnew, hdefn⟩ := hturn.settles hmeta
      have hid : (stamp m.opts (clk 0) reg.generation i).id = s := hs
      rw [hid] at hnew hdefn
      refine ⟨new, hnew, ?_⟩
      rw [hdefn]
      exact (hc rfl i hi hs).trans (keptBy_settled _ _)
    · exact hp.of_service?_eq (hturn.frame hmeta hs)
  · exact h.of_service?_eq (register_unaddressed fun hreg => hn hreg.1)

theorem Upholds.merge (h : Upholds m n s w) {clk : Nat → Time} {es : List ServiceEntry}
    (hc : (Call.merge clk es).Sustains m.opts n s w t) : Upholds (m.merge clk es).mem n s w := by
  refine merge_keeps (fun p => Upholds p.mem n s w) h ?_
  rintro p p' e he hopts hp hturn
  rcases hturn.outcome with ⟨-, rfl⟩ | ⟨-, rfl, -⟩ | ⟨hlead, happlied⟩
  · exact hp
  · exact hp.of_service?_eq (Memory.service?_setMeta ..)
  · obtain ⟨old, hold, hkept⟩ := hp
    obtain ⟨new, hdefn, hstored⟩ := happlied.stored
    have hput := hstored n s
    split at hput <;> rename_i hkey
    · obtain ⟨rfl, rfl⟩ := hkey
      refine ⟨new, hput, ?_⟩
      rw [hdefn, hopts]
      -- An entry is applied only if it ranks above what is held.
      have hrank : old.defn.rank < e.service.rank := (leads_iff_of_stored hlead.1 hold).mp hlead
      obtain ⟨hgeneration, hseen⟩ := hkept.outranked hrank
      obtain ⟨hname, httl, hnewer⟩ := hc e he rfl rfl hgeneration
      exact ⟨hname, hgeneration, hseen hnewer, httl⟩
    · exact ⟨old, hput.trans hold, hkept⟩

theorem Upholds.renew (h : Upholds m n s w) {clk : Nat → Time} {n' : String} {ids : List String}
    (hc : (Call.renew clk n' ids).Sustains m.opts n s w t) :
    Upholds (m.renew clk n' ids).mem n s w := by
  obtain ⟨svc, hsvc, hkept⟩ := h
  have hrenewed := renew_service? (m := m) (n := n') clk ids n s
  split at hrenewed <;> rename_i hkey
  · rw [hsvc] at hrenewed
    exact ⟨_, hrenewed, ⟨hkept.name, hkept.generation, hc hkey.1, hkept.ttl⟩⟩
  · exact ⟨svc, hrenewed.trans hsvc, hkept⟩

theorem Upholds.setFlag (h : Upholds m n s w) {clk : Nat → Time} {n' s' : String}
    {same : ServiceRec → Bool} {set : ServiceRec → ServiceRec}
    (hset : ∀ svc, (set svc).defn = svc.defn) :
    Upholds (m.setFlag clk n' s' same set).mem n s w := by
  refine setFlag_keeps (fun mem _ => Upholds mem n s w) h ?_
  intro r svc new hr hsvc _ hnew
  obtain ⟨old, hold, hkept⟩ := h
  have hput : (m.advance.setService n' s' new).service? n s = _ :=
    Memory.service?_setService (m := m.advance) hr n s
  split at hput <;> rename_i hkey
  · obtain ⟨rfl, rfl⟩ := hkey
    obtain rfl := Option.some.inj (hold.symm.trans hsvc)
    refine ⟨new, hput, ?_⟩
    rw [hnew]
    exact (hset old).symm ▸ hkept
  · exact ⟨old, hput.trans hold, hkept⟩

theorem Upholds.gc (h : Upholds m n s w) (ht : timeSub t w.seen ≤ w.ttl) {clk : Nat → Time}
    (order : GcOrder) (hc : clk 0 ≤ t) : Upholds (m.gc clk order).mem n s w := by
  obtain ⟨svc, hsvc, hkept⟩ := h
  have hlive : (m.opts.lease svc.slot.toRec (clk 0)).2 = false := by
    rw [Refines.lease_slot]
    exact hkept.lease m.opts ((timeSub_mono hc w.seen).trans ht)
  have hgc := Refines.gc_slot? m clk order n s
  rw [hsvc, Option.map_some, Option.filter_some, hlive] at hgc
  obtain ⟨svc', hsvc', hslot⟩ := Option.map_eq_some_iff.mp hgc
  have hdefn : svc'.defn = svc.defn := congrArg Slot.defn hslot
  exact ⟨svc', hsvc', hdefn ▸ hkept⟩

theorem Upholds.exec (h : Upholds m n s w) (ht : timeSub t w.seen ≤ w.ttl) {c : Call}
    (hc : c.Sustains m.opts n s w t) : Upholds (c.exec m).1 n s w := by
  cases c with
  | register clk reg => exact h.register hc
  | renew clk n' ids => exact h.renew hc
  | fail clk n' s' => exact h.setFlag fun _ => rfl
  | setMaintenance clk n' s' enabled => exact h.setFlag fun _ => rfl
  | deregister order n' => exact h.of_service?_eq (exec_unaddressed (.deregister order n') hc)
  | deregisterService n' s' => exact h.of_service?_eq (exec_unaddressed (.deregisterService n' s') hc)
  | merge clk es => exact h.merge hc
  | gc clk order => exact h.gc ht order hc

theorem Upholds.run (h : Upholds m n s w) (ht : timeSub t w.seen ≤ w.ttl) {calls : List Call}
    (hcalls : ∀ c ∈ calls, c.Sustains m.opts n s w t) : Upholds (m.run calls).1 n s w := by
  induction calls generalizing m with
  | nil => exact h
  | cons c rest ih =>
    have hrest : ∀ d ∈ rest, d.Sustains (c.exec m).1.opts n s w t := by
      intro d hd
      rw [exec_opts]
      exact hcalls d (List.mem_cons_of_mem c hd)
    exact ih (h.exec ht (hcalls c List.mem_cons_self)) hrest

theorem Reachable.run {m : Memory} (h : Reachable m) (calls : List Call) :
    Reachable (m.run calls).1 := by
  obtain ⟨opts, before, rfl⟩ := h
  exact ⟨opts, before ++ calls, by rw [run_append]⟩

/-- A lookup by the name shows it. -/
theorem Upholds.shown (h : Upholds m n s w) (hfiled : Filed m) (ht : timeSub t w.seen ≤ w.ttl) :
    ∃ e ∈ (m.lookup t { name := w.name }).entries,
      e.node.id = n ∧ e.service.id = s ∧ w.generation ≤ e.service.generation := by
  obtain ⟨svc, hsvc, hkept⟩ := h
  obtain ⟨r, hr, hs⟩ := Memory.service?_eq_some.mp hsvc
  have hn : r.nodeMeta.id = n := hfiled.node_id n _ (Memory.node?_of_node hr)
  refine ⟨entry r.nodeMeta svc (m.opts.lease svc t).1, ?_, hn, hfiled.service_id n s svc hsvc,
    hkept.generation⟩
  exact (mem_lookup t _ hfiled _).mpr
    ⟨n, r, s, svc, hr, hs, Or.inr hkept.name, Or.inl rfl, by simp, hkept.lease m.opts ht, rfl⟩

end YellowPages.Store
