import YellowPages.Store.Expiry
import YellowPages.Store.Renew
import YellowPages.Store.Replay

/-!
# The health watchers know

GC announces a transition when the lease differs from the state it remembers. That is enough as
long as the remembered state is the one the last event showed.
-/

namespace YellowPages.Store

open Lib

/-! ## The last event of a key -/

def lastEvent (log : List ChangeEvent) (k : String × String) : Option ChangeEvent :=
  (log.filter (eventKey · = k)).getLast?

theorem lastEvent_snoc (log : List ChangeEvent) (ev : ChangeEvent) (k : String × String) :
    lastEvent (log ++ [ev]) k = if eventKey ev = k then some ev else lastEvent log k := by
  by_cases hk : eventKey ev = k <;> simp [lastEvent, hk]

theorem lastEvent_append_of_ne {log out : List ChangeEvent} {k : String × String}
    (h : ∀ ev ∈ out, eventKey ev ≠ k) : lastEvent (log ++ out) k = lastEvent log k := by
  have hnil : out.filter (eventKey · = k) = [] := by
    rw [List.filter_eq_nil_iff]
    intro ev hev
    simpa using h ev hev
  rw [lastEvent, List.filter_append, hnil, List.append_nil]
  rfl

/-- The last event shows the remembered state. While the service is failed it may also show
critical: then GC sees it, whatever it remembers. -/
def Current (log : List ChangeEvent) (m : Memory) : Prop :=
  ∀ n s svc, m.service? n s = some svc → ∃ ev, lastEvent log (n, s) = some ev ∧ ev.type = .put ∧
    (ev.entry.health = svc.lastState ∨ svc.failed = true ∧ ev.entry.health = .critical)

/-- A PUT of `svc` built at `now` shows the state remembered with it, or that it is failed. -/
def Agrees (o : Options) (now : Time) (svc : ServiceRec) : Prop :=
  svc.failed = true ∨ (o.lease svc now).1 = svc.lastState

instance (o : Options) (now : Time) (svc : ServiceRec) : Decidable (Agrees o now svc) :=
  inferInstanceAs (Decidable (_ ∨ _))

theorem lease_failed {svc : ServiceRec} (h : svc.failed = true) (o : Options) (now : Time) :
    (o.lease svc now).1 = .critical := by
  simp [Options.lease, h]

theorem lease_passing {svc : ServiceRec} {now : Time} (h : svc.failed = false)
    (hage : timeSub now svc.defn.lastSeen ≤ svc.defn.ttl) (o : Options) :
    (o.lease svc now).1 = .passing := by
  simp [Options.lease, h, hage]

theorem Agrees.of_age {svc : ServiceRec} {now : Time} (hstate : svc.lastState = .passing)
    (hage : timeSub now svc.defn.lastSeen ≤ svc.defn.ttl) (o : Options) : Agrees o now svc := by
  by_cases hfailed : svc.failed = true
  · exact Or.inl hfailed
  · rw [Bool.not_eq_true] at hfailed
    exact Or.inr ((lease_passing hfailed hage o).trans hstate.symm)

namespace Current

variable {log out : List ChangeEvent} {m m' : Memory} {n s : String}

theorem start (opts : Options) : Current [] (newMemory opts) := by
  intro n s svc hsvc
  simp [newMemory, Memory.service?] at hsvc

theorem keep (h : Current log m) (hkeep : ∀ n s new, m'.service? n s = some new → ∃ old,
    m.service? n s = some old ∧ new.lastState = old.lastState ∧
      (old.failed = true → new.failed = true ∨ old.lastState = .critical)) : Current log m' := by
  intro n s new hnew
  obtain ⟨old, hold, hstate, hfailed⟩ := hkeep n s new hnew
  obtain ⟨ev, hev, hput, hhealth⟩ := h n s old hold
  refine ⟨ev, hev, hput, ?_⟩
  rcases hhealth with hhealth | ⟨hold, hhealth⟩
  · exact Or.inl (hhealth.trans hstate.symm)
  · rcases hfailed hold with hnew | hcrit
    · exact Or.inr ⟨hnew, hhealth⟩
    · exact Or.inl (by rw [hhealth, hstate, hcrit])

theorem same (h : Current log m) (hsame : ∀ n s, m'.service? n s = m.service? n s) : Current log m' :=
  h.keep fun n s new hnew => ⟨new, by rw [← hsame]; exact hnew, rfl, Or.inl⟩

theorem put (h : Current log m) {o : Options} {now : Time} {node : Node} {svc : ServiceRec}
    (hput : ∀ n' s', m'.service? n' s' = if n = n' ∧ s = s' then some svc else m.service? n' s')
    (hkey : eventKey (putEvent o now node svc) = (n, s)) (hagrees : Agrees o now svc) :
    Current (log ++ [putEvent o now node svc]) m' := by
  intro n' s' new hnew
  rw [hput] at hnew
  rw [lastEvent_snoc, hkey]
  split at hnew <;> rename_i hk
  · obtain ⟨rfl, rfl⟩ := hk
    obtain rfl := Option.some.inj hnew
    refine ⟨_, if_pos rfl, rfl, ?_⟩
    rcases hagrees with hfailed | hlease
    · exact Or.inr ⟨hfailed, lease_failed hfailed o now⟩
    · exact Or.inl hlease
  · rw [if_neg (by simpa using hk)]
    exact h n' s' new hnew

theorem create (h : Current log m) {r : NodeRec} (hr : m.nodes[n]? = some r) {o : Options} {now : Time}
    {node : Node} {dfn : ServiceInstance} (hnode : node.id = n)
    (hage : timeSub now dfn.lastSeen ≤ dfn.ttl) :
    Current (log ++ [putEvent o now node (m.createService n dfn).2]) (m.createService n dfn).1 := by
  have hdefn : (m.createService n dfn).2.defn = dfn := rfl
  refine h.put (Memory.service?_createService hr dfn) ?_ (Agrees.of_age rfl ?_ o)
  · rw [← hnode]
    rfl
  · rw [hdefn]
    exact hage

theorem rewrite (h : Current log m) {r : NodeRec} (hr : m.nodes[n]? = some r) {o : Options} {now : Time}
    {node : Node} {old svc : ServiceRec} (hnode : node.id = n) (hs : svc.defn.id = s)
    (hagrees : Agrees o now svc) :
    Current (log ++ [putEvent o now node (m.rewriteService n s old svc).2])
      (m.rewriteService n s old svc).1 := by
  refine h.put (Memory.service?_rewriteService hr s old svc) ?_ hagrees
  rw [← hnode, ← hs]
  rfl

theorem delete (h : Current log m) {ev : ChangeEvent}
    (hput : ∀ n' s', m'.service? n' s' = if n = n' ∧ s = s' then none else m.service? n' s')
    (hkey : eventKey ev = (n, s)) : Current (log ++ [ev]) m' := by
  intro n' s' new hnew
  rw [hput] at hnew
  rw [lastEvent_snoc, hkey]
  split at hnew <;> rename_i hk
  · cases hnew
  · rw [if_neg (by simpa using hk)]
    exact h n' s' new hnew

end Current

/-! ## Steady calls -/

/-- The entry creates a service whose lease has not run out, or wins over a service that is failed
or whose new lease has the remembered state. -/
def MergeSteady (clk : Nat → Time) (p : MergePass) (e : ServiceEntry) : Prop :=
  let dfn := clamped p.mem.opts e.service
  let now := clk (p.events.length + 1)
  match p.mem.service? e.node.id e.service.id with
  | none => timeSub now dfn.lastSeen ≤ dfn.ttl
  | some old => dfn.winsLWW old.defn → Agrees p.mem.opts now { old with defn := dfn }

/-- No lease changes its state between the clock readings of one GC. -/
def Quiet (clk : Nat → Time) (m : Memory) : Prop :=
  ∀ n s svc, m.service? n s = some svc → ∀ k,
    (m.opts.lease svc (clk (k + 1))).1 = (m.opts.lease svc (clk 0)).1

/-- No PUT of the call shows a state other than the remembered one, and Renew clears no failure
that is not remembered. -/
def Call.Steady (m : Memory) : Call → Prop
  | .register clk reg =>
    ∀ input ∈ reg.services, ∀ k, timeSub (clk (k + 1)) (clk 0) ≤ m.opts.clampTTL input.ttl
  | .renew _ n ids =>
    ∀ s svc, m.service? n s = some svc → ids = [] ∨ s ∈ ids → svc.failed = true →
      svc.lastState = .critical
  | .setMaintenance clk n s enabled =>
    ∀ svc, m.service? n s = some svc → svc.maintenance ≠ enabled → Agrees m.opts (clk 1) svc
  | .merge clk entries =>
    Throughout (mergeEntry clk) (MergeSteady clk) ⟨⟨m, m.sizeLocked, []⟩, 0⟩ entries
  | .gc clk _ => Quiet clk m
  | .fail .. | .deregister .. | .deregisterService .. => True

section Calls

variable {log : List ChangeEvent} {m : Memory}

theorem Current.registerTurn {clk : Nat → Time} {node : Node} {dfn : ServiceInstance} {p p' : Pass}
    (h : Current (log ++ p.events) p.mem) (hmeta : HasMeta p.mem node.id node)
    (hage : ∀ k, timeSub (clk (k + 1)) dfn.lastSeen ≤ dfn.ttl)
    (hturn : RegisterTurn clk node dfn p (some p')) : Current (log ++ p'.events) p'.mem := by
  obtain ⟨r, hr, -⟩ := hmeta
  cases hturn with
  | create _ _ hsvc =>
    rw [hsvc, ← List.append_assoc]
    exact h.create hr rfl (hage _)
  | rewrite _ _ hsvc =>
    rw [hsvc, ← List.append_assoc]
    exact h.rewrite hr rfl rfl (Agrees.of_age rfl (by exact hage _) _)
  | @refresh old hold _ =>
    refine h.keep fun n s new hnew => ?_
    rw [Memory.service?_setService hr] at hnew
    split at hnew <;> rename_i hk
    · obtain ⟨rfl, rfl⟩ := hk
      obtain rfl := Option.some.inj hnew
      exact ⟨old, hold, rfl, Or.inl⟩
    · exact ⟨new, hnew, rfl, Or.inl⟩

theorem Current.register {clk : Nat → Time} {reg : Registration} (h : Current log m)
    (hsteady : Call.Steady m (.register clk reg)) :
    Current (log ++ (m.register clk reg).events) (m.register clk reg).mem := by
  refine register_keeps (fun m' events => Current (log ++ events) m') (by simpa using h)
    (fun _ => ?_) ?_
  · rw [List.append_nil]
    exact h.same (Memory.service?_setMeta reg.node)
  · intro p p' i hi _ hmeta hp hturn
    have hage : ∀ k, timeSub (clk (k + 1)) (stamp m.opts (clk 0) reg.generation i).lastSeen ≤
        (stamp m.opts (clk 0) reg.generation i).ttl := by
      intro k
      rw [Call.Steady] at hsteady
      exact hsteady i hi k
    exact hp.registerTurn hmeta hage hturn

theorem Current.mergeTurn {clk : Nat → Time} {p p' : MergePass} {e : ServiceEntry}
    (h : Current (log ++ p.events) p.mem) (hsteady : MergeSteady clk p e)
    (hturn : MergeTurn clk p e p') :
    Current (log ++ p'.events) p'.mem := by
  have hset : Current (log ++ p.events) (p.mem.setMeta e.node) :=
    h.same (Memory.service?_setMeta e.node)
  obtain ⟨r, hr, -⟩ := hasMeta_setMeta p.mem e.node
  cases hturn with
  | skip _ => exact h
  | full _ _ _ | lose _ _ _ => exact hset
  | create _ hnew _ hsvc =>
    rw [MergeSteady, hnew] at hsteady
    rw [hsvc, ← List.append_assoc]
    exact hset.create hr rfl hsteady
  | win _ hold hrank hsvc =>
    rw [MergeSteady, hold] at hsteady
    rw [hsvc, ← List.append_assoc]
    exact hset.rewrite hr rfl rfl (hsteady ((winsLWW_clamped ..).mpr hrank))

theorem Current.merge {clk : Nat → Time} {entries : List ServiceEntry} (h : Current log m)
    (hsteady : Call.Steady m (.merge clk entries)) :
    Current (log ++ (m.merge clk entries).events) (m.merge clk entries).mem := by
  refine Throughout.keeps hsteady (fun p => Current (log ++ p.events) p.mem) ?_ ?_
  · simpa using h
  · intro p e hok hp
    exact hp.mergeTurn hok (mergeEntry_spec clk p e)

theorem Current.renew {clk : Nat → Time} {n : String} {ids : List String} (h : Current log m)
    (hsteady : Call.Steady m (.renew clk n ids)) : Current log (m.renew clk n ids).mem := by
  refine h.keep fun n' s' new hnew => ?_
  rw [renew_service?] at hnew
  split at hnew <;> rename_i hk
  · obtain ⟨rfl, hrenews⟩ := hk
    obtain ⟨old, hold, rfl⟩ := Option.map_eq_some_iff.mp hnew
    refine ⟨old, hold, rfl, fun hfailed => Or.inr (hsteady s' old hold ?_ hfailed)⟩
    exact hrenews.imp_right fun hs => List.takeWhile_sublist _ |>.mem hs
  · exact ⟨new, hnew, rfl, Or.inl⟩

theorem Current.setFlag {clk : Nat → Time} {n s : String} {same : ServiceRec → Bool}
    {set : ServiceRec → ServiceRec} (h : Current log m) (hfiled : Filed m)
    (hdefn : ∀ svc, (set svc).defn = svc.defn)
    (hsteady : ∀ svc, m.service? n s = some svc → same svc = false →
      Agrees m.opts (clk 1) (set svc)) :
    Current (log ++ (m.setFlag clk n s same set).events) (m.setFlag clk n s same set).mem := by
  refine setFlag_keeps (fun m' events => Current (log ++ events) m') (by simpa using h) ?_
  rintro r svc _ hr hsvc hsame rfl
  have hid : (set svc).defn.id = s := by
    rw [hdefn]
    exact hfiled.service_id n s svc hsvc
  refine h.put (Memory.service?_setService (m := m.advance) hr) ?_ ?_
  · exact hfiled.eventKey_eq hr rfl hid
  · exact hsteady svc hsvc hsame

theorem Current.deregisterService {n s : String} (h : Current log m) (hfiled : Filed m) :
    Current (log ++ (m.deregisterService n s).events) (m.deregisterService n s).mem := by
  unfold Memory.deregisterService
  split
  · simpa using h
  · rename_i r hr
    split
    · simpa using h
    · rename_i svc hs
      have hid := hfiled.service_id n s svc (Memory.service?_eq_some.mpr ⟨r, hr, hs⟩)
      refine (h.delete (Memory.service?_removeService n s svc) ?_).same fun n' s' => ?_
      · exact hfiled.eventKey_eq hr rfl hid
      · exact dropIfEmpty_service? n _ n' s'

theorem deregisterLoop_node {n : String} {r : NodeRec} (ids : List String)
    (p : Memory × List ChangeEvent) (h : ∀ ev ∈ p.2, ev.entry.node = r.nodeMeta) :
    ∀ ev ∈ (ids.foldl (deregisterOne n r) p).2, ev.entry.node = r.nodeMeta := by
  induction ids generalizing p with
  | nil => exact h
  | cons id rest ih =>
    refine ih _ ?_
    unfold deregisterOne
    split
    · exact h
    · intro ev hev
      rcases List.mem_append.mp hev with hev | hev
      · exact h ev hev
      · rw [List.mem_singleton.mp hev]
        rfl

theorem Current.deregister {order : RangeOrder String} {n : String} (h : Current log m)
    (hfiled : Filed m) :
    Current (log ++ (m.deregister order n).events) (m.deregister order n).mem := by
  unfold Memory.deregister
  split
  · simpa using h
  · rename_i r hr
    have hnode := hfiled.node_id n r.nodeMeta (Memory.node?_of_node hr)
    intro n' s' svc hsvc
    -- The node is gone, and the events are all about it.
    have hne : n ≠ n' := by
      rintro rfl
      simp [Memory.service?] at hsvc
    have hsame : m.service? n' s' = some svc := by
      simpa [Memory.service?, Std.ExtTreeMap.getElem?_erase, deregisterLoop_nodes, hne] using hsvc
    rw [lastEvent_append_of_ne]
    · exact h n' s' svc hsame
    · intro ev hev hkey
      have hevnode := deregisterLoop_node _ (m, []) (by simp) ev hev
      refine hne ?_
      rw [← hnode, ← hevnode]
      exact congrArg Prod.fst hkey

theorem lease_congr {svc svc' : ServiceRec} (hdefn : svc'.defn = svc.defn)
    (hfailed : svc'.failed = svc.failed) (o : Options) (now : Time) :
    o.lease svc' now = o.lease svc now := by
  simp only [Options.lease, hdefn, hfailed]

theorem Quiet.of_record {clk : Nat → Time} {m' : Memory} (h : Quiet clk m) (hopts : m'.opts = m.opts)
    (hrecord : ∀ n s new, m'.record? n s = some new → ∃ old, m.record? n s = some old ∧
      new.defn = old.defn ∧ new.failed = old.failed) : Quiet clk m' := by
  intro n s svc hsvc k
  obtain ⟨_, hrec, hdefn, hfailed⟩ := hrecord n s svc.unstamped (by simp [Memory.record?, hsvc])
  obtain ⟨old, hold, rfl⟩ := Option.map_eq_some_iff.mp hrec
  have hlease : ∀ t, m.opts.lease svc t = m.opts.lease old t := lease_congr hdefn hfailed m.opts
  rw [hopts, hlease, hlease]
  exact h n s old hold k

structure GcReady (log : List ChangeEvent) (clk : Nat → Time) (p : GcPass) : Prop where
  current : Current (log ++ p.events) p.mem
  filed : Filed p.mem
  quiet : Quiet clk p.mem

theorem GcReady.gcService {clk : Nat → Time} {n : String} {nodeMeta : Node} {p : GcPass}
    (h : GcReady log clk p) (hmeta : HasMeta p.mem n nodeMeta) (id : String) :
    GcReady log clk (gcService clk n nodeMeta p id) where
  filed := by
    obtain ⟨out, -, hsteps⟩ := ((gcService_spec clk n nodeMeta p id).atomic hmeta).steps
    exact hsteps.keeps Filed h.filed fun m1 out m2 h1 hstep => h1.atomic hstep
  quiet := by
    refine h.quiet.of_record (gcService_spec clk n nodeMeta p id).opts fun n' s' new hnew => ?_
    rw [gcService_record?] at hnew
    split at hnew
    · obtain ⟨old, hold, hswept⟩ := Option.bind_eq_some_iff.mp hnew
      obtain ⟨-, rfl⟩ := swept_eq_some.mp hswept
      exact ⟨old, hold, rfl, rfl⟩
    · exact ⟨new, hnew, rfl, rfl⟩
  current := by
    obtain ⟨r, hr, rfl⟩ := hmeta
    generalize hp' : Store.gcService clk n r.nodeMeta p id = p'
    have hspec := gcService_spec clk n r.nodeMeta p id
    rw [hp'] at hspec
    cases hspec with
    | absent _ | keep _ _ _ => exact h.current
    | @reap svc hsvc _ =>
      rw [← List.append_assoc]
      refine h.current.delete (Memory.service?_removeService n id svc) ?_
      exact h.filed.eventKey_eq hr rfl (h.filed.service_id n id svc hsvc)
    | @reconcile svc _ hsvc _ _ hnew =>
      rw [hnew, ← List.append_assoc]
      refine h.current.put (Memory.service?_setService (m := p.mem.advance) hr) ?_ (Or.inr ?_)
      · exact h.filed.eventKey_eq hr rfl (h.filed.service_id n id svc hsvc)
      · exact h.quiet n id svc hsvc _

theorem GcReady.gcServices {clk : Nat → Time} {n : String} {nodeMeta : Node} (ids : List String)
    {p : GcPass} (h : GcReady log clk p) (hmeta : HasMeta p.mem n nodeMeta) :
    GcReady log clk (ids.foldl (Store.gcService clk n nodeMeta) p) := by
  induction ids generalizing p with
  | nil => exact h
  | cons id rest ih =>
    exact ih (h.gcService hmeta id) ((gcService_spec clk n nodeMeta p id).hasMeta hmeta)

theorem GcReady.gcNode {clk : Nat → Time} {order : GcOrder} {p : GcPass} (h : GcReady log clk p)
    (n : String) :
    GcReady log clk (gcNode clk order p n) := by
  unfold Store.gcNode
  split
  · exact h
  · rename_i r hr
    have hloop := h.gcServices ((order.services n).visit r.services.keys) ⟨r, hr, rfl⟩
    refine ⟨hloop.current.same (dropIfEmpty_service? n _), ?_, ?_⟩
    · exact (dropIfEmpty_steps _ n).keeps Filed hloop.filed fun m1 out m2 h1 hstep => h1.atomic hstep
    · refine hloop.quiet.of_record (dropIfEmpty_opts n _) fun n' s' new hnew => ?_
      rw [dropIfEmpty_record?] at hnew
      exact ⟨new, hnew, rfl, rfl⟩

theorem Current.gc {clk : Nat → Time} {order : GcOrder} (h : Current log m) (hfiled : Filed m)
    (hsteady : Call.Steady m (.gc clk order)) :
    Current (log ++ (m.gc clk order).events) (m.gc clk order).mem := by
  have hloop : ∀ (ns : List String) (p : GcPass), GcReady log clk p →
      GcReady log clk (ns.foldl (Store.gcNode clk order) p) := by
    intro ns
    induction ns with
    | nil => intro p hp; exact hp
    | cons n rest ih => intro p hp; exact ih _ (hp.gcNode n)
  exact (hloop _ ⟨m, [], 0⟩ ⟨by simpa using h, hfiled, hsteady⟩).current

theorem Current.exec {c : Call} (h : Current log m) (hfiled : Filed m) (hsteady : c.Steady m) :
    Current (log ++ (c.exec m).2) (c.exec m).1 := by
  cases c with
  | register clk reg => exact h.register hsteady
  | renew clk n ids =>
    simpa [Call.exec, renew_events] using h.renew hsteady
  | fail clk n s =>
    exact h.setFlag hfiled (fun _ => rfl) fun svc _ _ => Or.inl rfl
  | setMaintenance clk n s enabled =>
    refine h.setFlag hfiled (fun _ => rfl) fun svc hsvc hsame => ?_
    exact hsteady svc hsvc (by simpa using hsame)
  | deregister order n => exact h.deregister hfiled
  | deregisterService n s => exact h.deregisterService hfiled
  | merge clk entries => exact h.merge hsteady
  | gc clk order => exact h.gc hfiled hsteady

end Calls

/-! ## Runs -/

def SteadyRun (m : Memory) (calls : List Call) : Prop :=
  Throughout (fun m c => (c.exec m).1) (fun m c => c.Steady m) m calls

theorem Current.run {log : List ChangeEvent} {m : Memory} {calls : List Call} (h : Current log m)
    (hfiled : Filed m) (hsteady : SteadyRun m calls) :
    Current (log ++ (m.run calls).2.flatten) (m.run calls).1 := by
  induction calls generalizing log m with
  | nil => simpa [Memory.run] using h
  | cons c rest ih =>
    simp only [Memory.run, List.flatten_append, emit_flatten]
    rw [← List.append_assoc]
    exact ih (h.exec hfiled hsteady.1) (hfiled.exec c) hsteady.2

/-- The last event of every stored service is a PUT with the health a lookup at `t` reports. -/
def HealthAnnounced (m : Memory) (log : List ChangeEvent) (t : Time) : Prop :=
  ∀ n s svc, m.service? n s = some svc → ∃ ev, lastEvent log (n, s) = some ev ∧ ev.type = .put ∧
    ∃ e ∈ (m.lookup t {}).entries, (e.node.id, e.service.id) = (n, s) ∧ ev.entry.health = e.health

/-- Right after GC every stored service is in the answer, with the state GC remembers. -/
theorem gc_lookup {m : Memory} (h : Filed m) (t : Time) (order : GcOrder) {n s : String}
    {svc : ServiceRec} (hsvc : (m.gc (fun _ => t) order).mem.service? n s = some svc) :
    ∃ e ∈ ((m.gc (fun _ => t) order).mem.lookup t {}).entries,
      (e.node.id, e.service.id) = (n, s) ∧ e.health = svc.lastState ∧
        (svc.failed = true → e.health = .critical) := by
  have hfiled : Filed (m.gc (fun _ => t) order).mem := h.exec (.gc (fun _ => t) order)
  have hopts : (m.gc (fun _ => t) order).mem.opts = m.opts := exec_opts (.gc (fun _ => t) order) m
  obtain ⟨old, -, hlive, hun⟩ := gc_service? hsvc
  have hlease : m.opts.lease svc t = m.opts.lease old t := by
    have hcongr : m.opts.lease svc.unstamped t = m.opts.lease old t := by
      rw [hun]
      exact lease_congr rfl rfl m.opts t
    exact hcongr
  have hstate : svc.lastState = (m.opts.lease svc t).1 := by
    have hun' : svc.unstamped.lastState = (m.opts.lease old t).1 := by rw [hun]
    rw [hlease]
    exact hun'
  obtain ⟨r, hr, hs⟩ := Memory.service?_eq_some.mp hsvc
  refine ⟨entry r.nodeMeta svc (m.opts.lease svc t).1, ?_, ?_, hstate.symm, ?_⟩
  · refine (mem_lookup t {} hfiled _).mpr ⟨n, r, s, svc, hr, hs, Or.inl rfl, Or.inl rfl,
      by simp, ?_, ?_⟩
    · rw [hopts, hlease]
      exact hlive
    · rw [hopts]
  · have hn := hfiled.node_id n r.nodeMeta (Memory.node?_of_node hr)
    have hs := hfiled.service_id n s svc hsvc
    rw [entry, hn, hs]
  · intro hfailed
    exact lease_failed hfailed m.opts t

/-- If every call was steady, GC leaves watchers with the health a lookup reports. -/
theorem steady_health_announced (opts : Options) (calls : List Call) (t : Time) (order : GcOrder)
    (hsteady : SteadyRun (newMemory opts) calls) :
    let r := (newMemory opts).run (calls ++ [.gc (fun _ => t) order])
    HealthAnnounced r.1 r.2.flatten t := by
  intro r n s svc hsvc
  have hfiled : Filed ((newMemory opts).run calls).1 := Filed.run opts calls
  have hcurrent := (Current.start opts).run (Filed.newMemory opts) hsteady
  rw [List.nil_append] at hcurrent
  have hsame : Call.Steady ((newMemory opts).run calls).1 (.gc (fun _ => t) order) :=
    fun _ _ _ _ _ => rfl
  have hgc := hcurrent.gc hfiled hsame
  have hmem : r.1 = (((newMemory opts).run calls).1.gc (fun _ => t) order).mem := by
    simp only [r, run_append]
    rfl
  rw [hmem] at hsvc ⊢
  -- The last event shows the remembered state, and right after GC that is the state of the lease.
  obtain ⟨ev, hev, hput, hhealth⟩ := hgc n s svc hsvc
  obtain ⟨e, he, hkey, hstate, hcrit⟩ := gc_lookup hfiled t order hsvc
  refine ⟨ev, ?_, hput, e, he, hkey, ?_⟩
  · simp only [r, run_snoc_log]
    exact hev
  · rcases hhealth with hhealth | ⟨hfailed, hhealth⟩
    · rw [hhealth, hstate]
    · rw [hhealth, hcrit hfailed]

/-! ## A failure nobody remembers -/

def registerAndFail : List Call :=
  [.register (fun _ => 0) (single { id := "n" } { id := "s", name := "web" } 0),
    .fail (fun _ => second) "n" "s"]

theorem steady_health_announced_after_gc :
    let calls :=
      registerAndFail ++ [.gc (fun _ => 2 * second) {}, .renew (fun _ => 3 * second) "n" ["s"]]
    let r := (newMemory {}).run (calls ++ [.gc (fun _ => 4 * second) {}])
    HealthAnnounced r.1 r.2.flatten (4 * second) := by
  refine steady_health_announced {} _ (4 * second) {} ⟨?_, trivial, fun _ _ _ _ _ => rfl,
    ?_, trivial⟩
  · intro input hinput k
    obtain rfl := List.mem_singleton.mp hinput
    exact (by decide : timeSub 0 0 ≤ (newMemory {}).opts.clampTTL 0)
  · intro s svc hsvc hs _
    obtain rfl : s = "s" := by simpa using hs
    have hstate := congrArg (Option.map ServiceRec.lastState) hsvc
    exact Option.some.inj (hstate.symm.trans (by decide))

/-- A renew and a GC after it: the failure is gone before GC sees it. -/
def forgottenFailure : Memory × List (List ChangeEvent) :=
  (newMemory {}).run (registerAndFail ++ [.renew (fun _ => 2 * second) "n" ["s"]] ++
    [.gc (fun _ => 3 * second) {}])

/-- The last event says critical and the lookup passing. -/
theorem health_not_always_announced :
    ¬ ∀ (opts : Options) (calls : List Call) (t : Time) (order : GcOrder),
      let r := (newMemory opts).run (calls ++ [.gc (fun _ => t) order])
      HealthAnnounced r.1 r.2.flatten t := by
  intro h
  have hrun : HealthAnnounced forgottenFailure.1 forgottenFailure.2.flatten (3 * second) := h {} _ _ {}
  have hstored : (forgottenFailure.1.service? "n" "s").isSome := by decide
  have hlast : (lastEvent forgottenFailure.2.flatten ("n", "s")).map (·.entry.health) =
      some .critical := by decide
  have hlookup : ∀ e ∈ (forgottenFailure.1.lookup (3 * second) {}).entries,
      e.health = .passing := by
    decide
  obtain ⟨svc, hsvc⟩ := Option.isSome_iff_exists.mp hstored
  obtain ⟨ev, hev, -, e, he, -, hhealth⟩ := hrun "n" "s" svc hsvc
  rw [hev, Option.map_some, Option.some_inj, hhealth, hlookup e he] at hlast
  cases hlast

end YellowPages.Store
