import YellowPages.Store.Register

/-!
# What GC leaves

GC visits every service once, in any order. It removes those past their grace window and settles
the health of the others.
-/

namespace YellowPages.Store

open Lib

/-! ## One service -/

/-- A record without the index GC may give it. -/
def ServiceRec.unstamped (svc : ServiceRec) : ServiceRec := { svc with modifyIndex := 0 }

def Memory.record? (m : Memory) (n s : String) : Option ServiceRec :=
  (m.service? n s).map ServiceRec.unstamped

/-- What GC at `now` makes of a record. -/
def swept (o : Options) (now : Time) (svc : ServiceRec) : Option ServiceRec :=
  if (o.lease svc now).2 then none else some { svc with lastState := (o.lease svc now).1 }

theorem swept_eq_some {o : Options} {now : Time} {svc new : ServiceRec} :
    swept o now svc = some new ↔
      (o.lease svc now).2 = false ∧ new = { svc with lastState := (o.lease svc now).1 } := by
  unfold swept
  split <;> rename_i h
  · simp [h]
  · simp [h, eq_comm]

theorem swept_unstamped (o : Options) (now : Time) (svc : ServiceRec) :
    (swept o now svc).map ServiceRec.unstamped = swept o now svc.unstamped := by
  have hlease : o.lease svc.unstamped now = o.lease svc now := rfl
  simp only [swept, hlease]
  split <;> rfl

theorem record?_put {m m' : Memory} {n s : String} {v : Option ServiceRec}
    (hput : ∀ n' s', m'.service? n' s' = if n = n' ∧ s = s' then v else m.service? n' s')
    (n' s' : String) :
    m'.record? n' s' = if n = n' ∧ s = s' then v.map ServiceRec.unstamped else m.record? n' s' := by
  rw [Memory.record?, hput, apply_ite (Option.map ServiceRec.unstamped)]
  rfl

section Loops

variable (clk : Nat → Time) (n : String) (nodeMeta : Node)

theorem gcService_puts (p : GcPass) (id : String) :
    ∃ v, (∀ n' s', (gcService clk n nodeMeta p id).mem.service? n' s' =
        if n = n' ∧ id = s' then v else p.mem.service? n' s') ∧
      v.map ServiceRec.unstamped = (p.mem.record? n id).bind (swept p.mem.opts (clk 0)) := by
  have hsame : ∀ n' s', p.mem.service? n' s' =
      if n = n' ∧ id = s' then p.mem.service? n id else p.mem.service? n' s' := by
    intro n' s'
    split <;> rename_i hk
    · rw [← hk.1, ← hk.2]
    · rfl
  have hrecord : ∀ svc, p.mem.service? n id = some svc →
      (p.mem.record? n id).bind (swept p.mem.opts (clk 0)) =
      (swept p.mem.opts (clk 0) svc).map ServiceRec.unstamped := by
    intro svc hsvc
    rw [Memory.record?, hsvc, Option.map_some, Option.bind_some, swept_unstamped]
  generalize hp' : gcService clk n nodeMeta p id = p'
  have hspec := gcService_spec clk n nodeMeta p id
  rw [hp'] at hspec
  cases hspec with
  | absent hsvc => exact ⟨_, hsame, by simp [Memory.record?, hsvc]⟩
  | @reap svc hsvc hexpired =>
    rw [hrecord svc hsvc]
    exact ⟨none, Memory.service?_removeService n id svc, by simp [swept, hexpired]⟩
  | @reconcile svc _ hsvc hlive _ hnew =>
    obtain ⟨r, hnode, -⟩ := Memory.service?_eq_some.mp hsvc
    rw [hrecord svc hsvc, hnew]
    refine ⟨_, Memory.service?_setService (m := p.mem.advance) hnode, ?_⟩
    simp [swept, hlive, ServiceRec.unstamped]
  | @keep svc hsvc hlive hstate =>
    rw [hrecord svc hsvc]
    refine ⟨_, hsame, ?_⟩
    rw [hsvc]
    simp [swept, hlive, hstate]

theorem gcService_record? (p : GcPass) (id : String) (n' s' : String) :
    (gcService clk n nodeMeta p id).mem.record? n' s' =
      if n = n' ∧ id = s' then (p.mem.record? n' s').bind (swept p.mem.opts (clk 0))
      else p.mem.record? n' s' := by
  obtain ⟨v, hput, hv⟩ := gcService_puts clk n nodeMeta p id
  rw [record?_put hput, hv]
  split <;> rename_i hk
  · rw [← hk.1, ← hk.2]
  · rfl

theorem gcServices_opts (ids : List String) (p : GcPass) :
    (ids.foldl (gcService clk n nodeMeta) p).mem.opts = p.mem.opts := by
  induction ids generalizing p with
  | nil => rfl
  | cons id rest ih => rw [List.foldl_cons, ih, (gcService_spec clk n nodeMeta p id).opts]

theorem gcServices_record? (ids : List String) (hnodup : ids.Nodup) (p : GcPass) (n' s' : String) :
    (ids.foldl (gcService clk n nodeMeta) p).mem.record? n' s' =
      if n = n' ∧ s' ∈ ids then (p.mem.record? n' s').bind (swept p.mem.opts (clk 0))
      else p.mem.record? n' s' := by
  induction ids generalizing p with
  | nil => simp
  | cons id rest ih =>
    obtain ⟨hid, hnodup⟩ := List.nodup_cons.mp hnodup
    rw [List.foldl_cons, ih hnodup, gcService_record?, (gcService_spec clk n nodeMeta p id).opts]
    by_cases hn : n = n'
    · by_cases hs : id = s'
      · subst hs
        simp [hn, hid]
      · have hs' : ¬ s' = id := fun h => hs h.symm
        simp [hn, hs, hs']
    · simp [hn]

theorem dropIfEmpty_opts (m : Memory) : (m.dropIfEmpty n).opts = m.opts := by
  unfold Memory.dropIfEmpty
  split
  · split <;> rfl
  · rfl

theorem dropIfEmpty_service? (m : Memory) (n' s' : String) :
    (m.dropIfEmpty n).service? n' s' = m.service? n' s' := by
  unfold Memory.dropIfEmpty
  split
  · rename_i r hr
    split
    · rename_i he
      exact Memory.service?_erase_empty hr he n' s'
    · rfl
  · rfl

theorem deregisterService_service? (m : Memory) (n s n' s' : String) :
    (m.deregisterService n s).mem.service? n' s' =
      if n = n' ∧ s = s' then none else m.service? n' s' := by
  have hsame : m.service? n s = none →
      m.service? n' s' = if n = n' ∧ s = s' then none else m.service? n' s' := by
    intro hnone
    split <;> rename_i hk
    · rw [← hk.1, ← hk.2, hnone]
    · rfl
  unfold Memory.deregisterService
  split
  · rename_i hr
    exact hsame (by simp [Memory.service?, hr])
  · rename_i r hr
    split
    · rename_i hs
      exact hsame (by rw [Memory.service?_of_node hr, hs])
    · rw [dropIfEmpty_service?, Memory.service?_removeService]

theorem dropIfEmpty_record? (m : Memory) (n' s' : String) :
    (m.dropIfEmpty n).record? n' s' = m.record? n' s' := by
  rw [Memory.record?, dropIfEmpty_service?]
  rfl

theorem gcNode_opts (order : GcOrder) (p : GcPass) : (gcNode clk order p n).mem.opts = p.mem.opts := by
  unfold gcNode
  split
  · rfl
  · exact (dropIfEmpty_opts n _).trans (gcServices_opts clk n _ _ p)

theorem gcNode_record? (order : GcOrder) (p : GcPass) (n' s' : String) :
    (gcNode clk order p n).mem.record? n' s' =
      if n = n' then (p.mem.record? n' s').bind
        (swept p.mem.opts (clk 0)) else p.mem.record? n' s' := by
  unfold gcNode
  split
  · rename_i hnode
    split <;> rename_i hn
    · subst hn
      simp [Memory.record?, Memory.service?, hnode]
    · rfl
  · rename_i r hnode
    have hnodup := (order.services n).nodup_visit _ (Std.ExtTreeMap.nodup_keys (t := r.services))
    rw [dropIfEmpty_record?, gcServices_record? clk n r.nodeMeta _ hnodup]
    simp only [RangeOrder.mem_visit, Std.ExtTreeMap.mem_keys]
    by_cases hn : n = n'
    · subst hn
      by_cases hs : s' ∈ r.services
      · simp [hs]
      · have hnone : p.mem.record? n s' = none := by
          simp [Memory.record?, Memory.service?_of_node hnode, Std.ExtTreeMap.getElem?_eq_none hs]
        simp [hnone]
    · simp [hn]

theorem gcNodes_record? (order : GcOrder) (ns : List String) (hnodup : ns.Nodup) (p : GcPass)
    (n' s' : String) :
    (ns.foldl (gcNode clk order) p).mem.record? n' s' =
      if n' ∈ ns then (p.mem.record? n' s').bind
        (swept p.mem.opts (clk 0)) else p.mem.record? n' s' := by
  induction ns generalizing p with
  | nil => simp
  | cons n rest ih =>
    obtain ⟨hn, hnodup⟩ := List.nodup_cons.mp hnodup
    rw [List.foldl_cons, ih hnodup, gcNode_record?, gcNode_opts]
    by_cases hk : n = n'
    · subst hk
      simp [hn]
    · have hk' : ¬ n' = n := fun h => hk h.symm
      simp [hk, hk']

end Loops

/-! ## The whole registry -/

theorem gc_record? (m : Memory) (clk : Nat → Time) (order : GcOrder) (n s : String) :
    (m.gc clk order).mem.record? n s = (m.record? n s).bind (swept m.opts (clk 0)) := by
  have hnodup := order.nodes.nodup_visit _ (Std.ExtTreeMap.nodup_keys (t := m.nodes))
  unfold Memory.gc
  dsimp only
  rw [gcNodes_record? clk order _ hnodup]
  simp only [RangeOrder.mem_visit, Std.ExtTreeMap.mem_keys]
  by_cases hn : n ∈ m.nodes
  · simp [hn]
  · have hnone : m.record? n s = none := by
      simp [Memory.record?, Memory.service?, Std.ExtTreeMap.getElem?_eq_none hn]
    simp [hnone]

theorem gc_service? {m : Memory} {clk : Nat → Time} {order : GcOrder} {n s : String}
    {svc : ServiceRec} (h : (m.gc clk order).mem.service? n s = some svc) :
    ∃ old, m.service? n s = some old ∧ (m.opts.lease old (clk 0)).2 = false ∧
      svc.unstamped = { old with lastState := (m.opts.lease old (clk 0)).1, modifyIndex := 0 } := by
  have hrecord := gc_record? m clk order n s
  rw [Memory.record?, h, Memory.record?] at hrecord
  cases hold : m.service? n s with
  | none => simp [hold] at hrecord
  | some old =>
    rw [hold, Option.map_some, Option.map_some, Option.bind_some, ← swept_unstamped, swept] at hrecord
    split at hrecord <;> rename_i hlive
    · cases hrecord
    · refine ⟨old, rfl, by simpa using hlive, Option.some.inj hrecord⟩

theorem gc_keeps {m : Memory} (clk : Nat → Time) (order : GcOrder) {n s : String} {old : ServiceRec}
    (h : m.service? n s = some old) (hlive : (m.opts.lease old (clk 0)).2 = false) :
    ∃ svc, (m.gc clk order).mem.service? n s = some svc ∧ svc.defn = old.defn := by
  have hrecord := gc_record? m clk order n s
  rw [Memory.record?, Memory.record?, h, Option.map_some, Option.bind_some, ← swept_unstamped, swept,
    if_neg (by simp [hlive]), Option.map_some, Option.map_eq_some_iff] at hrecord
  obtain ⟨svc, hsvc, hun⟩ := hrecord
  have hdefn : svc.unstamped.defn = old.defn := by rw [hun]; rfl
  exact ⟨svc, hsvc, hdefn⟩

/-! ## Ghosts -/

theorem lease_expired_iff (o : Options) (svc : ServiceRec) (now : Time) :
    (o.lease svc now).2 = true ↔ svc.failed = false ∧ svc.defn.ttl < timeSub now svc.defn.lastSeen ∧
      durAdd svc.defn.ttl o.gracePeriod < timeSub now svc.defn.lastSeen := by
  unfold Options.lease
  split
  · simp_all
  · dsimp only
    split
    · simp_all
    · split <;> simp_all

theorem timeSub_mono {t t' : Time} (h : t ≤ t') (u : Time) : timeSub t u ≤ timeSub t' u :=
  max_le_max le_rfl (min_le_min le_rfl (sub_le_sub_right h u))

/-- A lease that is over stays over. -/
theorem lease_expired_mono (o : Options) (svc : ServiceRec) {t t' : Time} (ht : t ≤ t')
    (h : (o.lease svc t).2 = true) : (o.lease svc t').2 = true := by
  rw [lease_expired_iff] at h ⊢
  obtain ⟨hfailed, httl, hgrace⟩ := h
  have hage := timeSub_mono ht svc.defn.lastSeen
  exact ⟨hfailed, lt_of_lt_of_le httl hage, lt_of_lt_of_le hgrace hage⟩

/-- `now - lastSeen ≤ ttl + grace`, as durations. -/
def InGrace (o : Options) (now : Time) (dfn : ServiceInstance) : Prop :=
  timeSub now dfn.lastSeen ≤ durAdd dfn.ttl o.gracePeriod

instance (o : Options) (now : Time) (dfn : ServiceInstance) : Decidable (InGrace o now dfn) :=
  inferInstanceAs (Decidable (_ ≤ _))

/-- No service outlives its lease in the store after GC, and none in an answer. -/
def NoGhosts (m : Memory) (clk : Nat → Time) (order : GcOrder) : Prop :=
  (∀ n s svc, (m.gc clk order).mem.service? n s = some svc → InGrace m.opts (clk 0) svc.defn) ∧
    ∀ q, ∀ e ∈ (m.lookup (clk 0) q).entries, InGrace m.opts (clk 0) e.service

theorem Filed.noGhosts_iff {m : Memory} (h : Filed m) (clk : Nat → Time) (order : GcOrder) :
    NoGhosts m clk order ↔ ∀ n s svc, m.service? n s = some svc →
      ¬ InGrace m.opts (clk 0) svc.defn →
      (m.opts.lease svc (clk 0)).2 = true := by
  constructor
  · rintro ⟨hgc, -⟩ n s old hold hpast
    by_contra hlive
    obtain ⟨svc, hsvc, hdefn⟩ := gc_keeps clk order hold (by simpa using hlive)
    have hgrace := hgc n s svc hsvc
    rw [hdefn] at hgrace
    exact hpast hgrace
  · intro hall
    have hlive : ∀ n s svc, m.service? n s = some svc → (m.opts.lease svc (clk 0)).2 = false →
        InGrace m.opts (clk 0) svc.defn := by
      intro n s svc hsvc hlive
      by_contra hpast
      rw [hall n s svc hsvc hpast] at hlive
      cases hlive
    refine ⟨fun n s svc hsvc => ?_, fun q e he => ?_⟩
    · obtain ⟨old, hold, hexpired, hun⟩ := gc_service? hsvc
      have hdefn : svc.unstamped.defn = old.defn := by rw [hun]
      rw [show svc.defn = old.defn from hdefn]
      exact hlive n s old hold hexpired
    · obtain ⟨n, r, s, svc, hr, hs, -, -, -, hexpired, rfl⟩ := (mem_lookup (clk 0) q h e).mp he
      exact hlive n s svc (Memory.service?_eq_some.mpr ⟨r, hr, hs⟩) hexpired

/-- GC and Lookup hide every service past its grace window, unless a failed check or a window
shorter than the TTL exempts it. -/
theorem no_ghosts_iff (opts : Options) (calls : List Call) (clk : Nat → Time) (order : GcOrder) :
    let m := ((newMemory opts).run calls).1
    NoGhosts m clk order ↔ ∀ n s svc, m.service? n s = some svc →
      ¬ InGrace m.opts (clk 0) svc.defn →
      svc.failed = false ∧ svc.defn.ttl < timeSub (clk 0) svc.defn.lastSeen := by
  intro m
  rw [(Filed.run opts calls).noGhosts_iff clk order]
  refine forall₃_congr fun n s svc => forall₂_congr fun _ hpast => ?_
  rw [InGrace, not_le] at hpast
  rw [lease_expired_iff]
  exact ⟨fun h => ⟨h.1, h.2.1⟩, fun h => ⟨h.1, h.2, hpast⟩⟩

/-- A service whose check failed stays for good once its agent is gone. -/
theorem failed_outlives_lease :
    ¬ ∀ (opts : Options) (calls : List Call) (clk : Nat → Time) (order : GcOrder),
      NoGhosts ((newMemory opts).run calls).1 clk order := by
  intro h
  have hghost := (h {}
    [.register (fun _ => 0) (single { id := "n" } { id := "s", name := "web", ttl := 5 * second } 0),
      .fail (fun _ => second) "n" "s"] (fun _ => 3600 * second) {}).2 {}
  revert hghost
  decide

end YellowPages.Store
