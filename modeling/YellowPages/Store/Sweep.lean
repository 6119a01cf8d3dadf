import YellowPages.Store.Capacity

/-!
# The sweep

`GC` removes what no lookup shows any more and settles the remembered state of the rest. Readers
do not notice it, and a second sweep at the same instant finds nothing to do.
-/

namespace YellowPages.Store

open Lib

/-! ## What is past grace -/

/-- The stored services that are past their grace window. -/
def Memory.expired (m : Memory) (now : Time) : Finset (String × String) :=
  m.stored.filter fun k => ∃ svc ∈ m.service? k.1 k.2, (m.opts.lease svc now).2 = true

theorem Memory.mem_expired (m : Memory) (now : Time) (n s : String) :
    (n, s) ∈ m.expired now ↔ ∃ svc, m.service? n s = some svc ∧
      (m.opts.lease svc now).2 = true := by
  simp only [expired, Finset.mem_filter, mem_stored]
  constructor
  · rintro ⟨-, svc, hsvc, hexpired⟩
    exact ⟨svc, hsvc, hexpired⟩
  · rintro ⟨svc, hsvc, hexpired⟩
    exact ⟨by simp [hsvc], svc, hsvc, hexpired⟩

section Sweep

variable (m : Memory) (clk : Nat → Time) (order : GcOrder)

theorem gc_service?_eq_none_iff (n s : String) :
    (m.gc clk order).mem.service? n s = none ↔ m.service? n s = none ∨ (n, s) ∈ m.expired
      (clk 0) := by
  have hrecord := gc_record? m clk order n s
  have hnone : ∀ m : Memory, m.record? n s = none ↔ m.service? n s = none :=
    fun m => Option.map_eq_none_iff
  rw [← hnone, hrecord, Memory.mem_expired]
  cases hsvc : m.service? n s with
  | none => simp [Memory.record?, hsvc]
  | some svc =>
    have hlease : m.opts.lease svc.unstamped (clk 0) = m.opts.lease svc (clk 0) := rfl
    simp [Memory.record?, hsvc, swept, hlease]

theorem gc_stored : (m.gc clk order).mem.stored = m.stored \ m.expired (clk 0) := by
  ext ⟨n, s⟩
  rw [Finset.mem_sdiff, Memory.mem_stored, Memory.mem_stored, ne_eq, gc_service?_eq_none_iff, not_or]

/-! ## How many are removed -/

variable {clk} in
theorem GcTurn.counts {n id : String} {nodeMeta : Node} {p p' : GcPass}
    (h : GcTurn clk n nodeMeta p id p') :
    p'.removed + p'.mem.sizeLocked = p.removed + p.mem.sizeLocked := by
  cases h with
  | absent _ => rfl
  | keep _ _ _ => rfl
  | @reap svc hsvc _ =>
    have hheld : p.mem.service? n id ≠ none := by simp [hsvc]
    have hsize := Memory.sizeLocked_remove hheld (Memory.service?_removeService n id svc)
    dsimp only
    omega
  | @reconcile svc new hsvc _ _ _ =>
    obtain ⟨r, hr, -⟩ := Memory.service?_eq_some.mp hsvc
    have hheld : p.mem.advance.service? n id ≠ none := Option.ne_none_iff_exists'.mpr ⟨svc, hsvc⟩
    have hsize : (p.mem.advance.setService n id new).sizeLocked = p.mem.sizeLocked :=
      Memory.sizeLocked_put_held hheld (Memory.service?_setService hr)
    dsimp only
    omega

theorem gcServices_counts (n : String) (nodeMeta : Node) (ids : List String) (p : GcPass) :
    let p' := ids.foldl (gcService clk n nodeMeta) p
    p'.removed + p'.mem.sizeLocked = p.removed + p.mem.sizeLocked := by
  induction ids generalizing p with
  | nil => rfl
  | cons id rest ih => exact (ih _).trans (gcService_spec clk n nodeMeta p id).counts

theorem gcNode_counts (n : String) (p : GcPass) :
    (gcNode clk order p n).removed +
      (gcNode clk order p n).mem.sizeLocked = p.removed + p.mem.sizeLocked := by
  unfold gcNode
  split
  · rfl
  · rename_i r hr
    have hloop := gcServices_counts clk n r.nodeMeta ((order.services n).visit r.services.keys) p
    have hdrop : ∀ m : Memory, (m.dropIfEmpty n).sizeLocked = m.sizeLocked := fun m =>
      Memory.sizeLocked_congr (dropIfEmpty_service? n m)
    dsimp only at hloop ⊢
    rw [hdrop, hloop]

theorem gc_counts : (m.gc clk order).ret + (m.gc clk order).mem.sizeLocked = m.sizeLocked := by
  have hloop : ∀ (ns : List String) (p : GcPass), let p' := ns.foldl (gcNode clk order) p
      p'.removed + p'.mem.sizeLocked = p.removed + p.mem.sizeLocked := by
    intro ns
    induction ns with
    | nil => intro p; rfl
    | cons n rest ih => intro p; exact (ih _).trans (gcNode_counts clk order n p)
  have hgc := hloop (order.nodes.visit m.nodes.keys) ⟨m, [], 0⟩
  simpa [Memory.gc] using hgc

theorem gc_ret : (m.gc clk order).ret = (m.expired (clk 0)).card := by
  have hsub : m.expired (clk 0) ⊆ m.stored := Finset.filter_subset _ _
  have hcard := Finset.card_sdiff_add_card_eq_card hsub
  have hcounts := gc_counts m clk order
  rw [← Memory.card_stored, ← Memory.card_stored, gc_stored] at hcounts
  omega

/-! ## Nodes -/

variable {m clk order}

/-- A step that brings in nothing changes the attributes of no node. -/
theorem Atomic.node?_kept {place : String} {m' : Memory} {out : List ChangeEvent}
    (h : Atomic false place m out m') {n : String} {node : Node} (hn : m'.node? n = some node) :
    m.node? n = some node := by
  cases h with
  | rewrite _ _ _ _ _ =>
    rw [Memory.rewriteService, Memory.node?_of_nodes_eq (Memory.nodes_rename ..),
      Memory.node?_setService] at hn
    exact hn
  | @refresh _ _ n' r f hnode _ =>
    unfold Memory.node? at hn ⊢
    rw [Std.ExtTreeMap.getElem?_insert] at hn
    split at hn <;> rename_i hk
    · obtain rfl := Std.compare_eq_iff_eq.mp hk
      rw [hnode]
      exact hn
    · exact hn
  | remove _ _ =>
    rw [Memory.removeService, Memory.node?_of_nodes_eq (Memory.nodes_unindexName ..),
      Memory.node?_eraseService] at hn
    exact hn
  | drop _ _ =>
    unfold Memory.node? at hn ⊢
    rw [Std.ExtTreeMap.getElem?_erase] at hn
    split at hn
    · cases hn
    · exact hn

theorem gc_node? {n : String} {node : Node} (h : (m.gc clk order).mem.node? n = some node) :
    m.node? n = some node := by
  refine (gc_steps m clk order).relates (fun m m' => ∀ n node, m'.node? n = some node →
    m.node? n = some node)
    (fun _ _ _ h => h) ?_ ?_ n node h
  · intro m1 m2 m3 h1 h2 n node hn
    exact h1 n node (h2 n node hn)
  · rintro m1 out m2 ⟨place, hstep⟩ n node hn
    exact hstep.node?_kept hn

theorem dropIfEmpty_nonempty {n : String} {r : NodeRec} (h : (m.dropIfEmpty n).nodes[n]? = some r) :
    r.services.isEmpty = false := by
  unfold Memory.dropIfEmpty at h
  split at h <;> rename_i hn
  · split at h <;> rename_i hempty
    · simp at h
    · obtain rfl := Option.some.inj (hn.symm.trans h)
      simpa using hempty
  · rw [hn] at h
    cases h

theorem gcNode_nonempty {p : GcPass} {n : String} {r : NodeRec}
    (h : (gcNode clk order p n).mem.nodes[n]? = some r) : r.services.isEmpty = false := by
  unfold gcNode at h
  split at h <;> rename_i hn
  · rw [hn] at h
    cases h
  · exact dropIfEmpty_nonempty h

theorem gcNode_frame {p : GcPass} {n n' : String} (hn : n' ≠ n) :
    (gcNode clk order p n).mem.nodes[n']? = p.mem.nodes[n']? := by
  obtain ⟨out, -, hsteps⟩ := (gcNode_turn clk order p n).steps
  refine hsteps.relates (fun m m' : Memory => m'.nodes[n']? = m.nodes[n']?) (fun _ => rfl) ?_ ?_
  · intro m1 m2 m3 h1 h2; exact h2.trans h1
  · intro m1 out m2 hstep; exact hstep.frame hn

/-- Every node the sweep visits has a service left, or is gone. -/
theorem gc_no_empty_node {n : String} {r : NodeRec} (h : (m.gc clk order).mem.nodes[n]? = some r) :
    r.services.isEmpty = false := by
  have hloop : ∀ ns : List String, n ∈ ns →
      (ns.foldl (gcNode clk order) ⟨m, [], 0⟩).mem.nodes[n]? = some r →
      r.services.isEmpty = false := by
    intro ns
    induction ns using List.reverseRecOn with
    | nil => simp
    | append_singleton ns a ih =>
      intro hmem hr
      rw [List.foldl_append, List.foldl_cons, List.foldl_nil] at hr
      rcases eq_or_ne n a with rfl | hne
      · exact gcNode_nonempty hr
      · rw [gcNode_frame hne] at hr
        exact ih (by simpa [hne] using hmem) hr
  refine hloop _ ?_ h
  rw [RangeOrder.mem_visit, Std.ExtTreeMap.mem_keys, Std.ExtTreeMap.mem_iff_isSome_getElem?]
  obtain ⟨old, hold, -⟩ := Option.map_eq_some_iff.mp (gc_node? (Memory.node?_of_node h))
  simp [hold]

/-! ## Readers -/

/-- An entry up to the index of its last change. -/
def unmodified (e : ServiceEntry) : ServiceEntry := { e with modifyIndex := 0 }

/-- What a lookup shows, up to `modifyIndex`. -/
theorem mem_unmodified_lookup (h : Filed m) (now : Time) (q : Query) (e : ServiceEntry) :
    e ∈ (m.lookup now q).entries.map unmodified ↔ Selects q e ∧
      ∃ svc, m.node? e.node.id = some e.node ∧
      m.record? e.node.id e.service.id = some svc ∧ (m.opts.lease svc now).2 = false ∧
        e = entry e.node svc (m.opts.lease svc now).1 := by
  rw [List.mem_map]
  constructor
  · rintro ⟨e, he, rfl⟩
    obtain ⟨hselects, svc, hnode, hsvc, hlive, heq⟩ := (mem_lookup_stored now q h e).mp he
    refine ⟨hselects, svc.unstamped, hnode, by simp [Memory.record?, hsvc, unmodified], hlive, ?_⟩
    rw [heq]
    rfl
  · rintro ⟨hselects, svc, hnode, hrecord, hlive, heq⟩
    obtain ⟨old, hold, rfl⟩ := Option.map_eq_some_iff.mp hrecord
    have hid : old.defn.id = e.service.id := h.service_id _ _ old hold
    refine ⟨entry e.node old (m.opts.lease old now).1,
      (mem_lookup_stored now q h _).mpr ?_, heq.symm⟩
    rw [heq] at hselects
    exact ⟨hselects, old, hnode, by simpa [entry, hid] using hold, hlive, rfl⟩

/-- A sweep is invisible: what it removes is not shown, and what it rewrites is shown as before. -/
theorem gc_lookup_entries (h : Filed m) (q : Query) :
    ((m.gc clk order).mem.lookup (clk 0) q).entries.map unmodified =
      (m.lookup (clk 0) q).entries.map unmodified := by
  have hfiled : Filed (m.gc clk order).mem := h.exec (.gc clk order)
  have hopts : (m.gc clk order).mem.opts = m.opts := exec_opts (.gc clk order) m
  have hsorted : ∀ m : Memory, Filed m →
      StrictlySorted ServiceEntry.key ((m.lookup (clk 0) q).entries.map unmodified) := by
    intro m hm
    exact List.pairwise_map.mpr (lookup_strictlySorted (clk 0) q hm)
  refine StrictlySorted.ext _ (hsorted _ hfiled) (hsorted m h) fun e => ?_
  rw [mem_unmodified_lookup hfiled, mem_unmodified_lookup h, hopts, gc_record?]
  refine and_congr_right fun _ => ?_
  constructor
  · rintro ⟨new, hnode, hrecord, hlive, heq⟩
    obtain ⟨old, hold, hswept⟩ := Option.bind_eq_some_iff.mp hrecord
    obtain ⟨holdLive, rfl⟩ := swept_eq_some.mp hswept
    exact ⟨old, gc_node? hnode, hold, hlive, heq⟩
  · rintro ⟨old, hnode, hold, hlive, heq⟩
    have hswept : (m.record? e.node.id e.service.id).bind (swept m.opts (clk 0)) =
        some { old with lastState := (m.opts.lease old (clk 0)).1 } := by
      rw [hold]
      exact swept_eq_some.mpr ⟨hlive, rfl⟩
    refine ⟨_, ?_, hswept, hlive, heq⟩
    -- A service is left on the node, so the node is there with its attributes.
    rw [← gc_record?] at hswept
    obtain ⟨svc, hsvc, -⟩ := Option.map_eq_some_iff.mp hswept
    obtain ⟨r, hr, -⟩ := Memory.service?_eq_some.mp hsvc
    have hnew := Memory.node?_of_node hr
    rw [hnew]
    exact (gc_node? hnew).symm.trans hnode

/-! ## A second sweep -/

/-- There is nothing for a sweep at `now` to do. -/
structure Swept (m : Memory) (now : Time) : Prop where
  live : ∀ n s svc, m.service? n s = some svc → (m.opts.lease svc now).2 = false
  settled : ∀ n s svc, m.service? n s = some svc → (m.opts.lease svc now).1 = svc.lastState
  nonempty : ∀ (n : String) (r : NodeRec), m.nodes[n]? = some r → r.services.isEmpty = false

theorem gc_swept (m : Memory) (clk : Nat → Time) (order : GcOrder) :
    Swept (m.gc clk order).mem (clk 0) := by
  have hopts : (m.gc clk order).mem.opts = m.opts := exec_opts (.gc clk order) m
  have hlease : ∀ n s svc, (m.gc clk order).mem.service? n s = some svc →
      (m.opts.lease svc (clk 0)).2 = false ∧ (m.opts.lease svc (clk 0)).1 = svc.lastState := by
    intro n s svc hsvc
    obtain ⟨old, -, hlive, hnew⟩ := gc_service? hsvc
    have hsame : m.opts.lease svc (clk 0) = m.opts.lease old (clk 0) := by
      change m.opts.lease svc.unstamped (clk 0) = _
      rw [hnew]
      rfl
    have hstate : svc.lastState = (m.opts.lease old (clk 0)).1 := congrArg ServiceRec.lastState hnew
    rw [hsame]
    exact ⟨hlive, hstate.symm⟩
  refine ⟨?_, ?_, fun n r hr => gc_no_empty_node hr⟩
  · intro n s svc hsvc
    rw [hopts]
    exact (hlease n s svc hsvc).1
  · intro n s svc hsvc
    rw [hopts]
    exact (hlease n s svc hsvc).2

theorem Swept.gcService (h : Swept m (clk 0)) (n : String) (nodeMeta : Node) (id : String)
    (events : List ChangeEvent) (removed : Nat) :
    gcService clk n nodeMeta ⟨m, events, removed⟩ id = ⟨m, events, removed⟩ := by
  have hturn := gcService_spec clk n nodeMeta ⟨m, events, removed⟩ id
  generalize Store.gcService clk n nodeMeta ⟨m, events, removed⟩ id = p' at hturn
  cases hturn with
  | absent _ => rfl
  | keep _ _ _ => rfl
  | reap hsvc hexpired => exact absurd ((h.live _ _ _ hsvc).symm.trans hexpired) (by simp)
  | reconcile hsvc _ hstate _ => exact absurd (h.settled _ _ _ hsvc) hstate

theorem Swept.gcNode (h : Swept m (clk 0)) (n : String) :
    gcNode clk order ⟨m, [], 0⟩ n = ⟨m, [], 0⟩ := by
  have hloop : ∀ nodeMeta (ids : List String),
      ids.foldl (Store.gcService clk n nodeMeta) ⟨m, [], 0⟩ = ⟨m, [], 0⟩ := fun nodeMeta =>
    List.foldl_fixed' fun id => h.gcService n nodeMeta id [] 0
  unfold Store.gcNode
  split
  · rfl
  · rename_i r hr
    simp only [hloop, Memory.dropIfEmpty]
    rw [show m.nodes[n]? = some r from hr]
    simp [h.nonempty n r hr]

theorem Swept.gc (h : Swept m (clk 0)) (order : GcOrder) : m.gc clk order = ⟨m, [], 0⟩ := by
  have hloop : ∀ ns : List String, ns.foldl (Store.gcNode clk order) ⟨m, [], 0⟩ = ⟨m, [], 0⟩ :=
    List.foldl_fixed' h.gcNode
  simp only [Memory.gc, hloop]

end Sweep

/-! ## The contract -/

structure SweptCleanly (m : Memory) (now : Time) (o : Outcome Nat) : Prop where
  /-- A lookup at the instant of the sweep does not notice it. -/
  readers : ∀ q, (o.mem.lookup now q).entries.map unmodified = (m.lookup now q).entries.map unmodified
  count : o.ret = (m.expired now).card
  removed : ∀ n s, o.mem.service? n s = none ↔ m.service? n s = none ∨ (n, s) ∈ m.expired now
  nonempty : ∀ (n : String) (r : NodeRec), o.mem.nodes[n]? = some r → r.services.isEmpty = false
  survivors : ∀ n s svc, o.mem.service? n s = some svc → ∃ old, m.service? n s = some old ∧
    svc.defn = old.defn ∧ svc.maintenance = old.maintenance
  /-- A second sweep at this instant changes nothing at all. -/
  again : ∀ clk order, clk 0 = now → o.mem.gc clk order = ⟨o.mem, [], 0⟩

theorem gc_sweeps_cleanly (m : Memory) (hm : Reachable m) (clk : Nat → Time) (order : GcOrder) :
    SweptCleanly m (clk 0) (m.gc clk order) where
  readers q := gc_lookup_entries hm.filed q
  count := gc_ret m clk order
  removed n s := gc_service?_eq_none_iff m clk order n s
  nonempty n r hr := gc_no_empty_node hr
  survivors n s svc hsvc := by
    obtain ⟨old, hold, -, hnew⟩ := gc_service? hsvc
    have hdefn := congrArg ServiceRec.defn hnew
    have hmaintenance := congrArg ServiceRec.maintenance hnew
    exact ⟨old, hold, hdefn, hmaintenance⟩
  again clk' order' hclk := by
    have hswept := gc_swept m clk order
    rw [← hclk] at hswept
    exact hswept.gc order'

/-- Of two services one is past grace at the sweep. -/
theorem gc_sweeps_cleanly_one :
    let calls : List Call := [
      .register (fun _ => 0)
        (single { id := "n1" } { id := "old", name := "old", ttl := 10 * second } 1),
      .register (fun _ => 5 * second)
        (single { id := "n2" } { id := "web", name := "web", ttl := 10 * second } 1)]
    let m := ((newMemory {}).run calls).1
    (m.expired (12 * second)).card = 1 ∧ SweptCleanly m (12 * second)
    (m.gc (fun _ => 12 * second) {}) := by
  intro calls m
  exact ⟨by decide +kernel, gc_sweeps_cleanly m ⟨{}, calls, rfl⟩ (fun _ => 12 * second) {}⟩

end YellowPages.Store
