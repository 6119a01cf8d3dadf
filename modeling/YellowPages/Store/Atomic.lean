import YellowPages.Store.Memory
import YellowPages.Lib.Trace

/-!
# What a call can do to the registry

Every call is a sequence of atomic changes, each with at most one event. The invariants of
the registry are proved for one atomic change and lifted from there.
-/

namespace YellowPages.Store

open Lib

namespace Memory

variable (m : Memory) (n s name : String) (svc : ServiceRec) (dfn : ServiceInstance)

/-! ## What the helpers leave alone -/

@[simp] theorem nodes_advance : m.advance.nodes = m.nodes := rfl
@[simp] theorem index_advance : m.advance.index = m.next := rfl

@[simp] theorem nodes_indexName : (m.indexName n dfn).nodes = m.nodes := rfl
@[simp] theorem opts_indexName : (m.indexName n dfn).opts = m.opts := rfl
@[simp] theorem index_indexName : (m.indexName n dfn).index = m.index := rfl

@[simp] theorem nodes_unindexName : (m.unindexName n name s).nodes = m.nodes := by
  unfold unindexName; split <;> [rfl; (dsimp only; split <;> rfl)]
@[simp] theorem opts_unindexName : (m.unindexName n name s).opts = m.opts := by
  unfold unindexName; split <;> [rfl; (dsimp only; split <;> rfl)]
@[simp] theorem index_unindexName : (m.unindexName n name s).index = m.index := by
  unfold unindexName; split <;> [rfl; (dsimp only; split <;> rfl)]

@[simp] theorem nodes_rename : (m.rename n name dfn).nodes = m.nodes := by
  unfold rename; split <;> simp
@[simp] theorem opts_rename : (m.rename n name dfn).opts = m.opts := by
  unfold rename; split <;> simp
@[simp] theorem index_rename : (m.rename n name dfn).index = m.index := by
  unfold rename; split <;> simp

@[simp] theorem index_setService : (m.setService n s svc).index = m.index := rfl
@[simp] theorem index_eraseService : (m.eraseService n s).index = m.index := rfl

theorem rename_self : m.rename n dfn.name dfn = m := by simp [rename]

/-! ## Which services are stored -/

variable {m n s svc}

theorem service?_eq_some : m.service? n s = some svc ↔
    ∃ r, m.nodes[n]? = some r ∧ r.services[s]? = some svc := Option.bind_eq_some_iff

theorem service?_of_node {r : NodeRec} (h : m.nodes[n]? = some r) :
    m.service? n s = r.services[s]? := by
  simp [service?, h]

theorem service?_of_nodes_eq {m' : Memory} (h : m'.nodes = m.nodes) (n s : String) :
    m'.service? n s = m.service? n s := by
  simp [service?, h]

theorem service?_setMeta (node : Node) (n s : String) :
    (m.setMeta node).service? n s = m.service? n s := by
  simp only [service?, setMeta, Std.ExtTreeMap.getElem?_insert, Std.compare_eq_iff_eq]
  split <;> rename_i h
  · subst h
    cases m.nodes[node.id]? <;> simp
  · rfl

theorem service?_setService {r : NodeRec} (h : m.nodes[n]? = some r) (n' s' : String) :
    (m.setService n s svc).service? n' s' =
      if n = n' ∧ s = s' then some svc else m.service? n' s' := by
  simp only [service?, setService, Std.ExtTreeMap.getElem?_modify, Std.compare_eq_iff_eq]
  by_cases hn : n = n'
  · subst hn
    by_cases hs : s = s' <;> simp [h, Std.ExtTreeMap.getElem?_insert, hs]
  · simp [hn]

theorem service?_eraseService (n s n' s' : String) :
    (m.eraseService n s).service? n' s' = if n = n' ∧ s = s' then none else m.service? n' s' := by
  simp only [service?, eraseService, Std.ExtTreeMap.getElem?_modify, Std.compare_eq_iff_eq]
  by_cases hn : n = n'
  · subst hn
    by_cases hs : s = s' <;> cases m.nodes[n]? <;> simp [Std.ExtTreeMap.getElem?_erase, hs]
  · simp [hn]

theorem service?_erase_empty {r : NodeRec} (h : m.nodes[n]? = some r) (he : r.services.isEmpty)
    (n' s' : String) :
    ({ m with nodes := m.nodes.erase n } : Memory).service? n' s' = m.service? n' s' := by
  simp only [service?, Std.ExtTreeMap.getElem?_erase, Std.compare_eq_iff_eq]
  split <;> rename_i hn
  · subst hn
    rw [Std.ExtTreeMap.isEmpty_iff] at he
    simp [h, he]
  · rfl

theorem service?_createService {r : NodeRec} (h : m.nodes[n]? = some r) (dfn : ServiceInstance)
    (n' s' : String) :
    (m.createService n dfn).1.service? n' s' =
      if n = n' ∧ dfn.id = s' then some (m.createService n dfn).2 else m.service? n' s' := by
  simp only [createService]
  rw [service?_of_nodes_eq (nodes_indexName ..), service?_setService (by exact h),
    service?_of_nodes_eq (nodes_advance m)]

theorem service?_rewriteService {r : NodeRec} (h : m.nodes[n]? = some r) (s : String)
    (old svc : ServiceRec) (n' s' : String) :
    (m.rewriteService n s old svc).1.service? n' s' =
      if n = n' ∧ s = s' then some (m.rewriteService n s old svc).2 else m.service? n' s' := by
  simp only [rewriteService]
  rw [service?_of_nodes_eq (nodes_rename ..), service?_setService (by exact h),
    service?_of_nodes_eq (nodes_advance m)]

theorem service?_removeService (n s : String) (old : ServiceRec) (n' s' : String) :
    (m.removeService n s old).service? n' s' =
      if n = n' ∧ s = s' then none else m.service? n' s' := by
  simp only [removeService]
  rw [service?_of_nodes_eq (nodes_unindexName ..), service?_eraseService,
    service?_of_nodes_eq (nodes_advance m)]

theorem service?_refresh {r : NodeRec} (h : m.nodes[n]? = some r)
    (f : String → ServiceRec → ServiceRec) (n' s' : String) :
    ({ m with nodes := m.nodes.insert n { r with services := r.services.map f } } : Memory).service?
      n' s' =
      if n = n' then (m.service? n' s').map (f s') else m.service? n' s' := by
  simp only [service?, Std.ExtTreeMap.getElem?_insert, Std.compare_eq_iff_eq]
  split <;> rename_i hn
  · subst hn
    simp [h, Std.ExtTreeMap.getElem?_map]
  · rfl

/-- What of a service does not depend on its lease is the same after a refresh. -/
theorem service?_refresh_map {β : Type} {r : NodeRec} (h : m.nodes[n]? = some r)
    {f : String → ServiceRec → ServiceRec} (g : ServiceRec → β) (hg : ∀ s svc, g (f s svc) = g svc)
    (n' s' : String) :
    (({ m with nodes := m.nodes.insert n { r with services := r.services.map f } } : Memory).service?
      n' s').map g = (m.service? n' s').map g := by
  rw [service?_refresh h]
  split
  · rw [Option.map_map]
    congr 1
    funext svc
    exact hg s' svc
  · rfl

/-! ## Which attributes a node has -/

def node? (m : Memory) (n : String) : Option Node := m.nodes[n]?.map NodeRec.nodeMeta

theorem node?_of_node {r : NodeRec} (h : m.nodes[n]? = some r) : m.node? n = some r.nodeMeta := by
  simp [node?, h]

theorem node?_of_nodes_eq {m' : Memory} (h : m'.nodes = m.nodes) (n : String) :
    m'.node? n = m.node? n := by
  simp [node?, h]

theorem node?_setMeta (node : Node) (n : String) :
    (m.setMeta node).node? n = if node.id = n then some node else m.node? n := by
  simp only [node?, setMeta, Std.ExtTreeMap.getElem?_insert, Std.compare_eq_iff_eq]
  split <;> rfl

theorem node?_setService (n s : String) (svc : ServiceRec) (n' : String) :
    (m.setService n s svc).node? n' = m.node? n' := by
  simp only [node?, setService, Std.ExtTreeMap.getElem?_modify, Std.compare_eq_iff_eq]
  split <;> rename_i h
  · subst h
    simp [Function.comp_def]
  · rfl

theorem node?_eraseService (n s n' : String) : (m.eraseService n s).node? n' = m.node? n' := by
  simp only [node?, eraseService, Std.ExtTreeMap.getElem?_modify, Std.compare_eq_iff_eq]
  split <;> rename_i h
  · subst h
    simp [Function.comp_def]
  · rfl

theorem node?_createService (n : String) (dfn : ServiceInstance) (n' : String) :
    (m.createService n dfn).1.node? n' = m.node? n' := by
  rw [createService, node?_of_nodes_eq (nodes_indexName ..), node?_setService]
  rfl

theorem node?_rewriteService (n s : String) (old svc : ServiceRec) (n' : String) :
    (m.rewriteService n s old svc).1.node? n' = m.node? n' := by
  rw [rewriteService, node?_of_nodes_eq (nodes_rename ..), node?_setService]
  rfl

end Memory

/-! ## Atomic changes -/

/-- One atomic change at a node, and the events it emits. A growing change (`true`) takes no
service out, and a shrinking one (`false`) neither adds nor redefines any. -/
inductive Atomic : Bool → String → Memory → List ChangeEvent → Memory → Prop where
  | setMeta {m : Memory} {node : Node} (hid : node.id ≠ "") :
      Atomic true node.id m [] (m.setMeta node)
  | create {m : Memory} {n : String} {r : NodeRec} {dfn : ServiceInstance} (now : Time)
      (hnode : m.nodes[n]? = some r) (hnew : r.services[dfn.id]? = none) (hid : dfn.id ≠ "") :
      Atomic true n m [putEvent m.opts now r.nodeMeta (m.createService n dfn).2]
        (m.createService n dfn).1
  /-- A stored service changes and takes the next index. -/
  | rewrite {grow : Bool} {m : Memory} {n s : String} {r : NodeRec} {old svc : ServiceRec} (now : Time)
      (hnode : m.nodes[n]? = some r) (hold : r.services[s]? = some old)
      (hid : grow = true ∧ svc.defn.id = s ∨ svc.defn = old.defn)
      (hcreate : svc.createIndex = old.createIndex) :
      Atomic grow n m [putEvent m.opts now r.nodeMeta (m.rewriteService n s old svc).2]
        (m.rewriteService n s old svc).1
  /-- Leases of a node are refreshed. Nobody is told. -/
  | refresh {grow : Bool} {m : Memory} {n : String} {r : NodeRec} {f : String → ServiceRec →
      ServiceRec}
      (hnode : m.nodes[n]? = some r)
      (hf : ∀ s svc, ∃ t b,
        f s svc = { svc with defn := { svc.defn with lastSeen := t }, failed := b }) :
      Atomic grow n m [] { m with nodes := m.nodes.insert n { r with services := r.services.map f } }
  | remove {m : Memory} {n s : String} {r : NodeRec} {old : ServiceRec}
      (hnode : m.nodes[n]? = some r) (hold : r.services[s]? = some old) :
      Atomic false n m [deleteEvent r.nodeMeta { old with modifyIndex := m.next }]
        (m.removeService n s old)
  | drop {m : Memory} {n : String} {r : NodeRec} (hnode : m.nodes[n]? = some r)
      (hempty : r.services.isEmpty) : Atomic false n m [] { m with nodes := m.nodes.erase n }

/-- Nodes come and go, but only `setMeta` gives a node its attributes. -/
theorem Atomic.node? {grow : Bool} {place : String} {m m' : Memory} {out : List ChangeEvent}
    (h : Atomic grow place m out m') {n : String} {node : Node} (hn : m'.node? n = some node) :
    m.node? n = some node ∨ node.id = n := by
  cases h with
  | setMeta _ =>
    rw [Memory.node?_setMeta] at hn
    split at hn <;> rename_i hid
    · obtain rfl := Option.some.inj hn
      exact Or.inr hid
    · exact Or.inl hn
  | create now hnode hnew hid =>
    rw [Memory.createService, Memory.node?_of_nodes_eq (Memory.nodes_indexName ..),
      Memory.node?_setService] at hn
    exact Or.inl hn
  | rewrite now hnode hold hid hcreate =>
    rw [Memory.rewriteService, Memory.node?_of_nodes_eq (Memory.nodes_rename ..),
      Memory.node?_setService] at hn
    exact Or.inl hn
  | refresh hnode hf =>
    simp only [Memory.node?, Std.ExtTreeMap.getElem?_insert, Std.compare_eq_iff_eq] at hn
    split at hn <;> rename_i hk
    · subst hk
      left
      simpa [Memory.node?, hnode] using hn
    · exact Or.inl hn
  | remove hnode hold =>
    rw [Memory.removeService, Memory.node?_of_nodes_eq (Memory.nodes_unindexName ..),
      Memory.node?_eraseService] at hn
    exact Or.inl hn
  | drop hnode hempty =>
    simp only [Memory.node?, Std.ExtTreeMap.getElem?_erase, Std.compare_eq_iff_eq] at hn
    split at hn
    · cases hn
    · exact Or.inl hn

/-! ## Register and Merge -/

def HasMeta (m : Memory) (n : String) (node : Node) : Prop :=
  ∃ r, m.nodes[n]? = some r ∧ r.nodeMeta = node

theorem hasMeta_setMeta (m : Memory) (node : Node) : HasMeta (m.setMeta node) node.id node := by
  simp [HasMeta, Memory.setMeta]

section HasMeta

variable {m m' : Memory} {n : String} {node : Node}

theorem HasMeta.of_nodes_eq (h : HasMeta m n node) (hn : m'.nodes = m.nodes) : HasMeta m' n node := by
  obtain ⟨r, hr, hm⟩ := h
  exact ⟨r, by rw [hn]; exact hr, hm⟩

theorem HasMeta.setService (h : HasMeta m n node) (s : String) (svc : ServiceRec) :
    HasMeta (m.setService n s svc) n node := by
  obtain ⟨r, hr, hm⟩ := h
  exact ⟨{ r with services := r.services.insert s svc }, by simp [Memory.setService, hr], hm⟩

theorem HasMeta.createService (h : HasMeta m n node) (dfn : ServiceInstance) :
    HasMeta (m.createService n dfn).1 n node := by
  refine HasMeta.of_nodes_eq ?_ (Memory.nodes_indexName ..)
  exact (h.of_nodes_eq (Memory.nodes_advance m)).setService _ _

theorem HasMeta.rewriteService (h : HasMeta m n node) (s : String) (old svc : ServiceRec) :
    HasMeta (m.rewriteService n s old svc).1 n node := by
  refine HasMeta.of_nodes_eq ?_ (Memory.nodes_rename ..)
  exact (h.of_nodes_eq (Memory.nodes_advance m)).setService _ _

theorem HasMeta.removeService (h : HasMeta m n node) (s : String) (svc : ServiceRec) :
    HasMeta (m.removeService n s svc) n node := by
  refine HasMeta.of_nodes_eq ?_ (Memory.nodes_unindexName ..)
  obtain ⟨r, hr, hm⟩ := h
  exact ⟨{ r with services := r.services.erase s }, by simp [Memory.eraseService, hr], hm⟩

theorem HasMeta.create (h : HasMeta m n node) {dfn : ServiceInstance}
    (hnew : m.service? n dfn.id = none) (hid : dfn.id ≠ "") (now : Time) :
    Atomic true n m [putEvent m.opts now node (m.createService n dfn).2] (m.createService n dfn).1 := by
  obtain ⟨r, hr, rfl⟩ := h
  rw [Memory.service?_of_node hr] at hnew
  exact Atomic.create now hr hnew hid

theorem HasMeta.rewrite {grow : Bool} (h : HasMeta m n node) {s : String} {old svc : ServiceRec}
    (hold : m.service? n s = some old) (hid : grow = true ∧ svc.defn.id = s ∨ svc.defn = old.defn)
    (hcreate : svc.createIndex = old.createIndex) (now : Time) :
    Atomic grow n m [putEvent m.opts now node (m.rewriteService n s old svc).2]
      (m.rewriteService n s old svc).1 := by
  obtain ⟨r, hr, rfl⟩ := h
  rw [Memory.service?_of_node hr] at hold
  exact Atomic.rewrite now hr hold hid hcreate

/-- A rewrite that keeps the definition does not touch the name index. -/
theorem HasMeta.rewrite_same_defn {grow : Bool} (h : HasMeta m n node) {s : String}
    {old svc : ServiceRec} (hold : m.service? n s = some old) (hdefn : svc.defn = old.defn)
    (hcreate : svc.createIndex = old.createIndex) (hmodify : svc.modifyIndex = m.next) (now : Time) :
    Atomic grow n m [putEvent m.opts now node svc] (m.advance.setService n s svc) := by
  have hrw : Atomic grow n m _ _ := h.rewrite hold (Or.inr hdefn) hcreate now
  simpa only [Memory.rewriteService, ← hmodify, ← hdefn, Memory.rename_self] using hrw

theorem HasMeta.remove (h : HasMeta m n node) {s : String} {old : ServiceRec}
    (hold : m.service? n s = some old) :
    Atomic false n m [deleteEvent node { old with modifyIndex := m.next }]
      (m.removeService n s old) := by
  obtain ⟨r, hr, rfl⟩ := h
  rw [Memory.service?_of_node hr] at hold
  exact Atomic.remove hr hold

end HasMeta

/-- Replacing one record by a refreshed one is a refresh of its node. -/
theorem setService_refresh {grow : Bool} {m : Memory} {n s : String} {r : NodeRec} {old : ServiceRec}
    (hnode : m.nodes[n]? = some r) (hold : r.services[s]? = some old) (t : Time) (b : Bool) :
    Atomic grow n m []
      (m.setService n s { old with defn := { old.defn with lastSeen := t }, failed := b }) := by
  let f : String → ServiceRec → ServiceRec := fun s' svc =>
    if s' = s then { svc with defn := { svc.defn with lastSeen := t }, failed := b } else svc
  have hmap : r.services.insert s { old with defn := { old.defn with lastSeen := t }, failed := b } =
      r.services.map f := by
    apply Std.ExtTreeMap.ext_getElem?
    intro k
    simp only [Std.ExtTreeMap.getElem?_insert, Std.ExtTreeMap.getElem?_map, Std.compare_eq_iff_eq, f]
    by_cases hk : s = k
    · subst hk; simp [hold]
    · have : ¬ k = s := fun h => hk h.symm
      simp [hk, this]
  have hset : m.setService n s { old with defn := { old.defn with lastSeen := t }, failed := b } =
      { m with nodes := m.nodes.insert n { r with services := r.services.map f } } := by
    simp only [Memory.setService, Memory.mk.injEq, true_and, and_true]
    apply Std.ExtTreeMap.ext_getElem?
    intro k
    simp only [Std.ExtTreeMap.getElem?_modify, Std.ExtTreeMap.getElem?_insert, Std.compare_eq_iff_eq]
    split <;> simp [hnode, hmap]
  rw [hset]
  refine Atomic.refresh hnode fun s' svc => ?_
  by_cases hs : s' = s
  · exact ⟨t, b, by simp [f, hs]⟩
  · exact ⟨svc.defn.lastSeen, svc.failed, by simp [f, hs]⟩

theorem refresh_of_service? {grow : Bool} {m : Memory} {n s : String} {old : ServiceRec}
    (hold : m.service? n s = some old) (t : Time) (b : Bool) :
    Atomic grow n m []
      (m.setService n s { old with defn := { old.defn with lastSeen := t }, failed := b }) := by
  obtain ⟨r, hr, hold⟩ := Memory.service?_eq_some.mp hold
  exact setService_refresh hr hold t b

/-- What one turn of a loop adds: the events it appends are the log of its changes. -/
structure Turn (R : Memory → List ChangeEvent → Memory → Prop) (m : Memory)
    (events : List ChangeEvent) (m' : Memory) (events' : List ChangeEvent) : Prop where
  steps : ∃ out, events' = events ++ out ∧ Steps R m out m'

section Turn

variable {R S : Memory → List ChangeEvent → Memory → Prop} {m m' m'' : Memory}
  {out e e' e'' : List ChangeEvent}

theorem Turn.refl (m : Memory) (events : List ChangeEvent) : Turn R m events m events :=
  ⟨[], by simp, Steps.refl m⟩

theorem Turn.single (h : R m out m') (events : List ChangeEvent) : Turn R m events m' (events ++ out) :=
  ⟨out, rfl, Steps.single h⟩

theorem Turn.silent (h : R m [] m') (events : List ChangeEvent) : Turn R m events m' events :=
  ⟨[], by simp, Steps.single h⟩

theorem Turn.trans (h1 : Turn R m e m' e') (h2 : Turn R m' e' m'' e'') : Turn R m e m'' e'' := by
  obtain ⟨out1, rfl, s1⟩ := h1.steps
  obtain ⟨out2, rfl, s2⟩ := h2.steps
  exact ⟨out1 ++ out2, by simp, s1.trans s2⟩

theorem Turn.mono (h : Turn R m e m' e') (hRS : ∀ m out m', R m out m' → S m out m') :
    Turn S m e m' e' := by
  obtain ⟨out, hout, hsteps⟩ := h.steps
  exact ⟨out, hout, hsteps.mono hRS⟩

theorem Turn.log (h : Turn R m [] m' e) : Steps R m e m' := by
  obtain ⟨out, rfl, hs⟩ := h.steps
  exact hs

end Turn

/-! ### Register -/

/-- One turn of the loop of Register, with the definition it makes of its input. `none` is the early
return. -/
inductive RegisterTurn (clk : Nat → Time) (node : Node) (dfn : ServiceInstance) (p : Pass) :
    Option Pass → Prop where
  | full (hnew : p.mem.service? node.id dfn.id = none) (hfull : p.mem.opts.atCapacity p.size = true) :
      RegisterTurn clk node dfn p none
  | create {svc : Memory × ServiceRec} (hnew : p.mem.service? node.id dfn.id = none)
      (hroom : p.mem.opts.atCapacity p.size = false) (hsvc : svc = p.mem.createService node.id dfn) :
      RegisterTurn clk node dfn p
        (some ⟨svc.1, p.size + 1,
          p.events ++ [putEvent p.mem.opts (clk (p.events.length + 1)) node svc.2]⟩)
  | rewrite {old : ServiceRec} {svc : Memory × ServiceRec}
      (hold : p.mem.service? node.id dfn.id = some old)
      (hchanged : changed old.defn dfn = true)
      (hsvc : svc =
        p.mem.rewriteService node.id dfn.id old { old with defn := dfn, lastState := .passing }) :
      RegisterTurn clk node dfn p
        (some ⟨svc.1, p.size,
          p.events ++ [putEvent p.mem.opts (clk (p.events.length + 1)) node svc.2]⟩)
  | refresh {old : ServiceRec} (hold : p.mem.service? node.id dfn.id = some old)
      (hsame : changed old.defn dfn = false) :
      RegisterTurn clk node dfn p (some
        ⟨p.mem.setService node.id dfn.id { old with defn := { old.defn with lastSeen := clk 0 } },
          p.size, p.events⟩)

theorem registerService_spec (clk : Nat → Time) (reg : Registration) (p : Pass)
    (input : ServiceInstance) :
    RegisterTurn clk reg.node (stamp p.mem.opts (clk 0) reg.generation input) p
      (registerService clk reg p input) := by
  unfold registerService
  dsimp only
  split
  · rename_i hnew
    split <;> rename_i hfull
    · exact .full hnew hfull
    · exact .create hnew (Bool.eq_false_iff.mpr hfull) rfl
  · rename_i old hold
    split <;> rename_i hchanged
    · exact .rewrite hold hchanged rfl
    · exact .refresh hold (Bool.eq_false_iff.mpr hchanged)

theorem RegisterTurn.opts {clk : Nat → Time} {node : Node} {dfn : ServiceInstance} {p p' : Pass}
    (h : RegisterTurn clk node dfn p (some p')) : p'.mem.opts = p.mem.opts := by
  cases h with
  | create _ _ hsvc =>
    rw [hsvc]
    exact Memory.opts_indexName ..
  | rewrite _ _ hsvc =>
    rw [hsvc]
    exact Memory.opts_rename ..
  | refresh _ _ => rfl

theorem RegisterTurn.hasMeta {clk : Nat → Time} {node : Node} {dfn : ServiceInstance} {p p' : Pass}
    (h : RegisterTurn clk node dfn p (some p')) (hmeta : HasMeta p.mem node.id node) :
    HasMeta p'.mem node.id node := by
  cases h with
  | create _ _ hsvc =>
    rw [hsvc]
    exact hmeta.createService _
  | rewrite _ _ hsvc =>
    rw [hsvc]
    exact hmeta.rewriteService _ _ _
  | refresh _ _ => exact hmeta.setService _ _

theorem RegisterTurn.atomic {clk : Nat → Time} {node : Node} {dfn : ServiceInstance} {p p' : Pass}
    (h : RegisterTurn clk node dfn p (some p')) (hmeta : HasMeta p.mem node.id node)
    (hid : dfn.id ≠ "") :
    Turn (Atomic true node.id) p.mem p.events p'.mem p'.events := by
  cases h with
  | create hnew _ hsvc =>
    rw [hsvc]
    exact Turn.single (hmeta.create hnew hid _) _
  | rewrite hold _ hsvc =>
    rw [hsvc]
    refine Turn.single (hmeta.rewrite hold ?_ ?_ _) _
    · exact Or.inl ⟨rfl, rfl⟩
    · rfl
  | @refresh old hold _ => exact Turn.silent (refresh_of_service? hold (clk 0) old.failed) _

theorem stamp_id_ne (o : Options) (now : Time) (g : Nat) (input : ServiceInstance)
    (h : input.name ≠ "") :
    (stamp o now g input).id ≠ "" := by
  simp only [stamp]
  split <;> assumption

theorem registerLoop_keeps {clk : Nat → Time} {reg : Registration} {o : Options}
    {inputs : List ServiceInstance} (P : Pass → Prop)
    (hturn : ∀ p p' i, i ∈ inputs → P p →
      RegisterTurn clk reg.node (stamp o (clk 0) reg.generation i) p (some p') → P p')
    {p : Pass} (hopts : p.mem.opts = o) (h : P p) : P (registerLoop clk reg inputs p).1 := by
  induction inputs generalizing p with
  | nil => exact h
  | cons input rest ih =>
    simp only [registerLoop]
    split
    · exact h
    · rename_i p' hp'
      have hspec := registerService_spec clk reg p input
      rw [hp', hopts] at hspec
      refine ih (fun p p' i hi => hturn p p' i (List.mem_cons_of_mem _ hi)) (hspec.opts.trans hopts) ?_
      exact hturn p p' input List.mem_cons_self h hspec

theorem registerLoop_hasMeta (clk : Nat → Time) (reg : Registration) (inputs : List ServiceInstance)
    {p : Pass} (h : HasMeta p.mem reg.node.id reg.node) :
    HasMeta (registerLoop clk reg inputs p).1.mem reg.node.id reg.node :=
  registerLoop_keeps (fun p => HasMeta p.mem reg.node.id reg.node)
    (fun _ _ _ _ hmeta hturn => hturn.hasMeta hmeta) rfl h

/-- What holds when the loop starts and is kept by its turns holds when Register returns. -/
theorem register_keeps {m : Memory} {clk : Nat → Time} {reg : Registration}
    (P : Memory → List ChangeEvent → Prop) (hrefused : P m [])
    (hstart : reg.node.id ≠ "" → P (m.setMeta reg.node) [])
    (hturn : ∀ p p' i, i ∈ reg.services → i.name ≠ "" → HasMeta p.mem reg.node.id reg.node →
      P p.mem p.events →
        RegisterTurn clk reg.node (stamp m.opts (clk 0) reg.generation i) p (some p') →
      P p'.mem p'.events) :
    P (m.register clk reg).mem (m.register clk reg).events := by
  unfold Memory.register
  split
  · exact hrefused
  · rename_i hvalid
    simp only [not_or, List.any_eq_true, decide_eq_true_eq, not_exists, not_and] at hvalid
    obtain ⟨hid, hnames⟩ := hvalid
    -- No turn takes the node away or changes its attributes.
    refine (registerLoop_keeps (fun p => HasMeta p.mem reg.node.id reg.node ∧ P p.mem p.events) ?_ rfl
      ⟨hasMeta_setMeta m reg.node, hstart hid⟩).2
    intro p p' i hi hp ht
    exact ⟨ht.hasMeta hp.1, hturn p p' i hi (hnames i hi) hp.1 hp.2 ht⟩

theorem register_steps (m : Memory) (clk : Nat → Time) (reg : Registration) :
    Steps (Atomic true reg.node.id) m (m.register clk reg).events (m.register clk reg).mem := by
  refine (register_keeps (fun m' events => Turn (Atomic true reg.node.id) m [] m' events)
    (Turn.refl m []) (fun hid => Turn.silent (Atomic.setMeta hid) []) ?_).log
  intro p p' i _ hname hmeta h hturn
  exact h.trans (hturn.atomic hmeta (stamp_id_ne _ _ _ _ hname))

/-! ### Merge -/

/-- Merge skips entries without a node id or a service id. -/
def Valid (e : ServiceEntry) : Prop := e.node.id ≠ "" ∧ e.service.id ≠ ""

instance (e : ServiceEntry) : Decidable (Valid e) := inferInstanceAs (Decidable (_ ∧ _))

inductive MergeTurn (clk : Nat → Time) (p : MergePass) (e : ServiceEntry) : MergePass → Prop where
  | skip (hvalid : ¬ Valid e) : MergeTurn clk p e p
  | full (hvalid : Valid e) (hnew : p.mem.service? e.node.id e.service.id = none)
      (hfull : p.mem.opts.atCapacity p.size = true) :
      MergeTurn clk p e { p with mem := p.mem.setMeta e.node }
  | create {svc : Memory × ServiceRec} (hvalid : Valid e)
      (hnew : p.mem.service? e.node.id e.service.id = none)
      (hroom : p.mem.opts.atCapacity p.size = false)
      (hsvc : svc = (p.mem.setMeta e.node).createService e.node.id (clamped p.mem.opts e.service)) :
      MergeTurn clk p e ⟨⟨svc.1, p.size + 1,
        p.events ++ [putEvent p.mem.opts (clk (p.events.length + 1)) e.node svc.2]⟩, p.applied + 1⟩
  | lose {old : ServiceRec} (hvalid : Valid e) (hold : p.mem.service? e.node.id e.service.id = some old)
      (hrank : ¬ old.defn.rank < e.service.rank) :
        MergeTurn clk p e { p with mem := p.mem.setMeta e.node }
  | win {old : ServiceRec} {svc : Memory × ServiceRec} (hvalid : Valid e)
      (hold : p.mem.service? e.node.id e.service.id = some old) (hrank : old.defn.rank < e.service.rank)
      (hsvc : svc = (p.mem.setMeta e.node).rewriteService e.node.id e.service.id old
        { old with defn := clamped p.mem.opts e.service }) :
      MergeTurn clk p e ⟨⟨svc.1, p.size,
        p.events ++ [putEvent p.mem.opts (clk (p.events.length + 1)) e.node svc.2]⟩, p.applied + 1⟩

theorem winsLWW_clamped (o : Options) (e : ServiceEntry) (old : ServiceInstance) :
    (clamped o e.service).winsLWW old = true ↔ old.rank < e.service.rank := by
  rw [ServiceInstance.winsLWW_iff]
  rfl

theorem mergeEntry_spec (clk : Nat → Time) (p : MergePass) (e : ServiceEntry) :
    MergeTurn clk p e (mergeEntry clk p e) := by
  unfold mergeEntry
  split
  · rename_i hskip
    exact .skip fun hvalid => hskip.elim hvalid.1 hvalid.2
  · rename_i hvalid
    rw [not_or] at hvalid
    dsimp only
    split <;> rename_i hsvc <;> rw [Memory.service?_setMeta] at hsvc
    · split <;> rename_i hfull
      · exact .full hvalid hsvc hfull
      · exact .create hvalid hsvc (Bool.eq_false_iff.mpr hfull) rfl
    · split <;> rename_i hwins <;> rw [winsLWW_clamped] at hwins
      · exact .win hvalid hsvc hwins rfl
      · exact .lose hvalid hsvc hwins

theorem MergeTurn.opts {clk : Nat → Time} {p p' : MergePass} {e : ServiceEntry}
    (h : MergeTurn clk p e p') :
    p'.mem.opts = p.mem.opts := by
  cases h with
  | skip _ | full _ _ _ | lose _ _ _ => rfl
  | create _ _ _ hsvc =>
    rw [hsvc]
    exact Memory.opts_indexName ..
  | win _ _ _ hsvc =>
    rw [hsvc]
    exact Memory.opts_rename ..

theorem MergeTurn.atomic {clk : Nat → Time} {p p' : MergePass} {e : ServiceEntry}
    (h : MergeTurn clk p e p') :
    Turn (Atomic true e.node.id) p.mem p.events p'.mem p'.events := by
  have hset : Valid e → Turn (Atomic true e.node.id) p.mem p.events (p.mem.setMeta e.node) p.events :=
    fun hvalid => Turn.silent (Atomic.setMeta hvalid.1) _
  have hmeta := hasMeta_setMeta p.mem e.node
  cases h with
  | skip _ => exact Turn.refl _ _
  | full hvalid _ _ | lose hvalid _ _ => exact hset hvalid
  | create hvalid hnew _ hsvc =>
    have hnew' : (p.mem.setMeta e.node).service? e.node.id (clamped p.mem.opts e.service).id =
        none := by
      rw [Memory.service?_setMeta]
      exact hnew
    rw [hsvc]
    exact (hset hvalid).trans (Turn.single (hmeta.create hnew' hvalid.2 _) _)
  | win hvalid hold _ hsvc =>
    rw [← Memory.service?_setMeta e.node] at hold
    rw [hsvc]
    refine (hset hvalid).trans (Turn.single (hmeta.rewrite hold ?_ ?_ _) _)
    · exact Or.inl ⟨rfl, rfl⟩
    · rfl

/-- What holds of the start and is kept by the turns holds when Merge returns. -/
theorem merge_keeps {m : Memory} {clk : Nat → Time} {es : List ServiceEntry}
    (P : MergePass → Prop) (hstart : P ⟨⟨m, m.sizeLocked, []⟩, 0⟩)
    (hturn : ∀ p p' e, e ∈ es → p.mem.opts = m.opts → P p → MergeTurn clk p e p' → P p') :
    P (es.foldl (mergeEntry clk) ⟨⟨m, m.sizeLocked, []⟩, 0⟩) := by
  have hloop : ∀ (es : List ServiceEntry) (p : MergePass), p.mem.opts = m.opts → P p →
      (∀ p p' e, e ∈ es → p.mem.opts = m.opts → P p → MergeTurn clk p e p' → P p') →
      P (es.foldl (mergeEntry clk) p) := by
    intro es
    induction es with
    | nil => intro p _ h _; exact h
    | cons e rest ih =>
      intro p hopts h hturn
      have hspec := mergeEntry_spec clk p e
      refine ih _ (hspec.opts.trans hopts) (hturn p _ e List.mem_cons_self hopts h hspec) ?_
      exact fun p p' e' he' => hturn p p' e' (List.mem_cons_of_mem _ he')
  exact hloop es _ rfl hstart hturn

def Somewhere (grow : Bool) (m : Memory) (out : List ChangeEvent) (m' : Memory) : Prop :=
  ∃ n, Atomic grow n m out m'

theorem somewhere {grow : Bool} {n : String} (m : Memory) (out : List ChangeEvent) (m' : Memory)
    (h : Atomic grow n m out m') : Somewhere grow m out m' := ⟨n, h⟩

theorem merge_steps (m : Memory) (clk : Nat → Time) (entries : List ServiceEntry) :
    Steps (Somewhere true) m (m.merge clk entries).events (m.merge clk entries).mem := by
  refine (merge_keeps (fun p => Turn (Somewhere true) m [] p.mem p.events) (Turn.refl m []) ?_).log
  intro p p' e _ _ h hturn
  exact h.trans (hturn.atomic.mono somewhere)

/-! ## Renew and the flags -/

theorem renewLoop_steps {grow : Bool} (now : Time) (n : String) (ids : List String) (m : Memory) :
    Steps (Atomic grow n) m [] (renewLoop now n ids m).1 := by
  induction ids generalizing m with
  | nil => exact Steps.refl m
  | cons id rest ih =>
    simp only [renewLoop]
    split
    · exact Steps.refl m
    · rename_i svc hsvc
      exact Steps.cons_silent (refresh_of_service? hsvc now false) (ih _)

theorem renew_steps {grow : Bool} (m : Memory) (clk : Nat → Time) (n : String) (ids : List String) :
    Steps (Atomic grow n) m (m.renew clk n ids).events (m.renew clk n ids).mem := by
  unfold Memory.renew
  split
  · exact Steps.refl m
  · rename_i r hr
    split
    · exact Steps.single (Atomic.refresh hr fun s svc => ⟨clk 0, false, rfl⟩)
    · exact renewLoop_steps (clk 0) n ids m

theorem setFlag_keeps {m : Memory} {clk : Nat → Time} {n s : String} {same : ServiceRec → Bool}
    {set : ServiceRec → ServiceRec} (P : Memory → List ChangeEvent → Prop) (hstill : P m [])
    (hchange : ∀ r svc new, m.nodes[n]? = some r → m.service? n s = some svc → same svc = false →
      new = { set svc with modifyIndex := m.next } →
      P (m.advance.setService n s new) [putEvent m.opts (clk 1) r.nodeMeta new]) :
    P (m.setFlag clk n s same set).mem (m.setFlag clk n s same set).events := by
  unfold Memory.setFlag
  split
  · exact hstill
  · rename_i r hr
    split
    · exact hstill
    · rename_i svc hs
      split
      · exact hstill
      · rename_i hsame
        exact hchange r svc _ hr (Memory.service?_eq_some.mpr ⟨r, hr, hs⟩)
          (Bool.eq_false_iff.mpr hsame) rfl

theorem setFlag_steps {grow : Bool} (m : Memory) (clk : Nat → Time) (n s : String)
    (same : ServiceRec → Bool) (set : ServiceRec → ServiceRec)
    (hdefn : ∀ svc, (set svc).defn = svc.defn)
    (hcreate : ∀ svc, (set svc).createIndex = svc.createIndex) :
    Steps (Atomic grow n) m (m.setFlag clk n s same set).events (m.setFlag clk n s same set).mem := by
  refine setFlag_keeps (fun m' events => Steps (Atomic grow n) m events m') (Steps.refl m) ?_
  rintro r svc _ hr hsvc - rfl
  have hmeta : HasMeta m n r.nodeMeta := ⟨r, hr, rfl⟩
  refine Steps.single (hmeta.rewrite_same_defn hsvc ?_ ?_ rfl _)
  · exact hdefn svc
  · exact hcreate svc

/-! ## Deregister -/

theorem dropIfEmpty_steps (m : Memory) (n : String) :
    Steps (Atomic false n) m [] (m.dropIfEmpty n) := by
  unfold Memory.dropIfEmpty
  split
  · rename_i r hr
    split
    · rename_i he
      exact Steps.single (Atomic.drop hr he)
    · exact Steps.refl m
  · exact Steps.refl m

theorem deregisterService_steps (m : Memory) (n s : String) :
    Steps (Atomic false n) m (m.deregisterService n s).events (m.deregisterService n s).mem := by
  unfold Memory.deregisterService
  split
  · exact Steps.refl m
  · rename_i r hr
    split
    · exact Steps.refl m
    · rename_i svc hsvc
      have := (Steps.single (Atomic.remove hr hsvc)).trans (dropIfEmpty_steps _ n)
      simpa using this

def Memory.withNodes (m : Memory) (nodes : Map NodeRec) : Memory := { m with nodes := nodes }

theorem withNodes_unindexName (m : Memory) (nodes : Map NodeRec) (n name s : String) :
    (m.withNodes nodes).unindexName n name s = (m.unindexName n name s).withNodes nodes := by
  simp only [Memory.unindexName, Memory.withNodes]
  split
  · rfl
  · split <;> rfl

theorem withNodes_removeService (m : Memory) (n s : String) (r : NodeRec) (svc : ServiceRec) :
    (m.withNodes (m.nodes.insert n r)).removeService n s svc =
      (m.advance.unindexName n svc.defn.name s).withNodes
        (m.nodes.insert n { r with services := r.services.erase s }) := by
  have herase : (m.withNodes (m.nodes.insert n r)).advance.eraseService n s =
      m.advance.withNodes (m.nodes.insert n { r with services := r.services.erase s }) := by
    simp only [Memory.withNodes, Memory.advance, Memory.eraseService, Memory.next, Memory.mk.injEq,
      true_and, and_true]
    apply Std.ExtTreeMap.ext_getElem?
    intro k
    by_cases hk : n = k <;> simp [Std.ExtTreeMap.getElem?_modify, Std.ExtTreeMap.getElem?_insert, hk]
  rw [Memory.removeService, herase, withNodes_unindexName]

/-- The loop of `Deregister` leaves the nodes alone, so it is compared with a loop that takes
each service out as it goes. `services` is what that loop has left. -/
theorem deregisterLoop_steps (n : String) (r : NodeRec) (ids : List String) (m : Memory)
    (events : List ChangeEvent) (services : Map ServiceRec) (hnodup : ids.Nodup)
    (hleft : ∀ id, services[id]? = if id ∈ ids then r.services[id]? else none) :
    ∃ out, (ids.foldl (deregisterOne n r) (m, events)).2 = events ++ out ∧
      Steps (Atomic false n) (m.withNodes (m.nodes.insert n { r with services := services })) out
        ((ids.foldl (deregisterOne n r) (m, events)).1.withNodes
          (m.nodes.insert n { r with services := ∅ })) := by
  induction ids generalizing m events services with
  | nil =>
    have he : services = ∅ := by
      apply Std.ExtTreeMap.ext_getElem?
      intro id
      simp [hleft id]
    subst he
    exact ⟨[], by simp, Steps.refl _⟩
  | cons id rest ih =>
    obtain ⟨hid, hrest⟩ := List.nodup_cons.mp hnodup
    simp only [List.foldl_cons, deregisterOne]
    cases hsvc : r.services[id]? with
    | none =>
      apply ih _ _ _ hrest
      intro k
      rw [hleft k]
      by_cases hk : k = id <;> simp [hk, hid, hsvc]
    | some svc =>
      -- The next turn starts where taking out `id` leads.
      have hnode : (m.withNodes (m.nodes.insert n { r with services := services })).nodes[n]? =
          some { r with services := services } := by simp [Memory.withNodes]
      have hstored : services[id]? = some svc := by simp [hleft id, hsvc]
      have hremove := Atomic.remove hnode hstored
      rw [withNodes_removeService] at hremove
      obtain ⟨out, hout, hsteps⟩ := ih (m.advance.unindexName n svc.defn.name id)
        (events ++ [deleteEvent r.nodeMeta { svc with modifyIndex := m.next }])
        (services.erase id) hrest (by
          intro k
          by_cases hk : id = k
          · subst hk; simp [hid]
          · have hk' : ¬ k = id := fun h => hk h.symm
            simp [Std.ExtTreeMap.getElem?_erase, hleft k, hk, hk'])
      rw [Memory.nodes_unindexName, Memory.nodes_advance] at hsteps
      refine ⟨deleteEvent r.nodeMeta { svc with modifyIndex := m.next } :: out, by simp [hout], ?_⟩
      exact (Steps.single hremove).trans hsteps

theorem deregisterLoop_nodes (n : String) (r : NodeRec) (ids : List String) (m : Memory)
    (events : List ChangeEvent) : (ids.foldl (deregisterOne n r) (m, events)).1.nodes = m.nodes := by
  induction ids generalizing m events with
  | nil => rfl
  | cons id rest ih =>
    simp only [List.foldl_cons, deregisterOne]
    split
    · exact ih m events
    · rw [ih, Memory.nodes_unindexName, Memory.nodes_advance]

theorem deregister_steps (m : Memory) (order : RangeOrder String) (n : String) :
    Steps (Atomic false n) m (m.deregister order n).events (m.deregister order n).mem := by
  unfold Memory.deregister
  split
  · exact Steps.refl m
  · rename_i r hr
    obtain ⟨out, hout, hsteps⟩ :=
      deregisterLoop_steps n r (order.visit r.services.keys) m [] r.services
      (order.nodup_visit _ Std.ExtTreeMap.nodup_keys) (by
        intro id
        by_cases hid : id ∈ r.services <;> simp [order.mem_visit, hid])
    have hstart : m.withNodes (m.nodes.insert n { r with services := r.services }) = m := by
      simp only [Memory.withNodes]
      congr
      apply Std.ExtTreeMap.ext_getElem?
      intro k
      by_cases hk : n = k <;> simp [Std.ExtTreeMap.getElem?_insert, hk, ← hr]
    rw [hstart] at hsteps
    -- The emptied node goes last.
    dsimp only
    rw [hout, List.nil_append]
    have hdrop : ∀ (p : Memory) (r' : NodeRec), r'.services.isEmpty → p.nodes = m.nodes →
        Atomic false n (p.withNodes (m.nodes.insert n r')) [] { p with nodes := p.nodes.erase n } := by
      intro p r' he hp
      have hnodes : (m.nodes.insert n r').erase n = m.nodes.erase n := by
        apply Std.ExtTreeMap.ext_getElem?
        intro k
        by_cases hk : n = k <;> simp [Std.ExtTreeMap.getElem?_erase, Std.ExtTreeMap.getElem?_insert, hk]
      rw [hp, ← hnodes]
      exact Atomic.drop (by simp [Memory.withNodes]) he
    exact Steps.snoc_silent hsteps (hdrop _ _ (by simp) (deregisterLoop_nodes n r _ m []))

/-! ## GC -/

inductive GcTurn (clk : Nat → Time) (n : String) (nodeMeta : Node) (p : GcPass) (id : String) :
    GcPass → Prop where
  | absent (hsvc : p.mem.service? n id = none) : GcTurn clk n nodeMeta p id p
  | reap {svc : ServiceRec} (hsvc : p.mem.service? n id = some svc)
      (hexpired : (p.mem.opts.lease svc (clk 0)).2 = true) :
      GcTurn clk n nodeMeta p id ⟨p.mem.removeService n id svc,
        p.events ++ [deleteEvent nodeMeta { svc with modifyIndex := p.mem.next }], p.removed + 1⟩
  | reconcile {svc new : ServiceRec} (hsvc : p.mem.service? n id = some svc)
      (hlive : (p.mem.opts.lease svc (clk 0)).2 = false)
      (hstate : (p.mem.opts.lease svc (clk 0)).1 ≠ svc.lastState)
      (hnew : new =
        { svc with lastState := (p.mem.opts.lease svc (clk 0)).1, modifyIndex := p.mem.next }) :
      GcTurn clk n nodeMeta p id ⟨p.mem.advance.setService n id new,
        p.events ++ [putEvent p.mem.opts (clk (p.events.length + 1)) nodeMeta new], p.removed⟩
  | keep {svc : ServiceRec} (hsvc : p.mem.service? n id = some svc)
      (hlive : (p.mem.opts.lease svc (clk 0)).2 = false)
      (hstate : (p.mem.opts.lease svc (clk 0)).1 = svc.lastState) : GcTurn clk n nodeMeta p id p

theorem gcService_spec (clk : Nat → Time) (n : String) (nodeMeta : Node) (p : GcPass) (id : String) :
    GcTurn clk n nodeMeta p id (gcService clk n nodeMeta p id) := by
  unfold gcService
  dsimp only
  split <;> rename_i hsvc
  · exact .absent hsvc
  · split <;> rename_i hexpired
    · exact .reap hsvc hexpired
    · rw [Bool.not_eq_true] at hexpired
      split <;> rename_i hstate
      · exact .reconcile hsvc hexpired hstate rfl
      · exact .keep hsvc hexpired (not_not.mp hstate)

section GcTurn

variable {clk : Nat → Time} {n id : String} {nodeMeta : Node} {p p' : GcPass}

theorem GcTurn.opts (h : GcTurn clk n nodeMeta p id p') : p'.mem.opts = p.mem.opts := by
  cases h with
  | absent _ | keep _ _ _ | reconcile _ _ _ _ => rfl
  | reap _ _ => exact Memory.opts_unindexName ..

theorem GcTurn.hasMeta (h : GcTurn clk n nodeMeta p id p') (hmeta : HasMeta p.mem n nodeMeta) :
    HasMeta p'.mem n nodeMeta := by
  cases h with
  | absent _ | keep _ _ _ => exact hmeta
  | reap _ _ => exact hmeta.removeService _ _
  | reconcile _ _ _ _ => exact (hmeta.of_nodes_eq (Memory.nodes_advance _)).setService _ _

theorem GcTurn.atomic (h : GcTurn clk n nodeMeta p id p') (hmeta : HasMeta p.mem n nodeMeta) :
    Turn (Atomic false n) p.mem p.events p'.mem p'.events := by
  cases h with
  | absent _ | keep _ _ _ => exact Turn.refl _ _
  | reap hsvc _ => exact Turn.single (hmeta.remove hsvc) _
  | reconcile hsvc _ _ hnew =>
    rw [hnew]
    refine Turn.single (hmeta.rewrite_same_defn hsvc ?_ ?_ ?_ _) _
    · rfl
    · rfl
    · rfl

end GcTurn

theorem gcServices_turn (clk : Nat → Time) (n : String) (nodeMeta : Node) (ids : List String)
    (p : GcPass) (hmeta : HasMeta p.mem n nodeMeta) :
    Turn (Atomic false n) p.mem p.events (ids.foldl (gcService clk n nodeMeta) p).mem
      (ids.foldl (gcService clk n nodeMeta) p).events := by
  induction ids generalizing p with
  | nil => exact Turn.refl _ _
  | cons id rest ih =>
    have hturn := gcService_spec clk n nodeMeta p id
    exact (hturn.atomic hmeta).trans (ih _ (hturn.hasMeta hmeta))

theorem gcNode_turn (clk : Nat → Time) (order : GcOrder) (p : GcPass) (n : String) :
    Turn (Atomic false n) p.mem p.events (gcNode clk order p n).mem (gcNode clk order p n).events := by
  unfold gcNode
  split
  · exact Turn.refl _ _
  · rename_i r hr
    have hloop :=
      gcServices_turn clk n r.nodeMeta ((order.services n).visit r.services.keys) p ⟨r, hr, rfl⟩
    exact hloop.trans ⟨[], by simp, dropIfEmpty_steps _ n⟩

theorem gc_steps (m : Memory) (clk : Nat → Time) (order : GcOrder) :
    Steps (Somewhere false) m (m.gc clk order).events (m.gc clk order).mem := by
  have hloop : ∀ (ns : List String) (p : GcPass), Turn (Somewhere false) p.mem p.events
      (ns.foldl (gcNode clk order) p).mem (ns.foldl (gcNode clk order) p).events := by
    intro ns
    induction ns with
    | nil => intro p; exact Turn.refl _ _
    | cons n rest ih => intro p; exact ((gcNode_turn clk order p n).mono somewhere).trans (ih _)
  exact (hloop _ ⟨m, [], 0⟩).log

/-! ## Every call, every run -/

/-- `Register` and `Merge` only grow the registry. The others only shrink it. -/
def Call.grows : Call → Bool
  | .register .. | .merge .. => true
  | _ => false

def Call.target : Call → Option String
  | .register _ reg => some reg.node.id
  | .renew _ n _ | .fail _ n _ | .setMaintenance _ n _ _ | .deregister _ n
      | .deregisterService n _ => some n
  | .merge .. | .gc .. => none

theorem exec_steps_target {c : Call} {n : String} (h : c.target = some n) (m : Memory) :
    Steps (Atomic c.grows n) m (c.exec m).2 (c.exec m).1 := by
  cases c with
  | register clk reg =>
    obtain rfl := Option.some.inj h
    exact register_steps m clk reg
  | renew clk n' ids =>
    obtain rfl := Option.some.inj h
    exact renew_steps m clk n' ids
  | fail clk n' s =>
    obtain rfl := Option.some.inj h
    exact setFlag_steps m clk n' s _ _ (fun _ => rfl) (fun _ => rfl)
  | setMaintenance clk n' s enabled =>
    obtain rfl := Option.some.inj h
    exact setFlag_steps m clk n' s _ _ (fun _ => rfl) (fun _ => rfl)
  | deregister order n' =>
    obtain rfl := Option.some.inj h
    exact deregister_steps m order n'
  | deregisterService n' s =>
    obtain rfl := Option.some.inj h
    exact deregisterService_steps m n' s
  | merge clk entries => cases h
  | gc clk order => cases h

theorem exec_steps (c : Call) (m : Memory) : Steps (Somewhere c.grows) m (c.exec m).2 (c.exec m).1 := by
  cases htarget : c.target with
  | some n => exact (exec_steps_target htarget m).mono somewhere
  | none =>
    cases c with
    | merge clk entries => exact merge_steps m clk entries
    | gc clk order => exact gc_steps m clk order
    | _ => cases htarget

def AnyAtomic (m : Memory) (out : List ChangeEvent) (m' : Memory) : Prop :=
  ∃ grow, Somewhere grow m out m'

theorem exec_any_steps (c : Call) (m : Memory) : Steps AnyAtomic m (c.exec m).2 (c.exec m).1 :=
  (exec_steps c m).mono fun _ _ _ h => ⟨_, h⟩

theorem emit_flatten (events : List ChangeEvent) : (emit events).flatten = events := by
  unfold emit
  split
  · simp_all
  · simp

/-- The log of a run is what `OnChange` received, batch after batch. -/
theorem run_steps (calls : List Call) (m : Memory) :
    Steps AnyAtomic m (m.run calls).2.flatten (m.run calls).1 := by
  induction calls generalizing m with
  | nil => exact Steps.refl m
  | cons c rest ih =>
    simp only [Memory.run, List.flatten_append, emit_flatten]
    exact (exec_any_steps c m).trans (ih _)

theorem run_append (m : Memory) (calls more : List Call) :
    m.run (calls ++ more) =
      (((m.run calls).1.run more).1, (m.run calls).2 ++ ((m.run calls).1.run more).2) := by
  induction calls generalizing m with
  | nil => rfl
  | cons c rest ih => simp [Memory.run, ih]

theorem run_snoc_log (m : Memory) (calls : List Call) (c : Call) :
    (m.run (calls ++ [c])).2.flatten = (m.run calls).2.flatten ++ (c.exec (m.run calls).1).2 := by
  rw [run_append]
  simp [Memory.run, emit_flatten]

end YellowPages.Store
