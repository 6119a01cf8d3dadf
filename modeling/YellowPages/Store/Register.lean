import YellowPages.Store.Names

/-!
# What one registration leaves

The agents register one service at a time. Whether the seed takes the new definition depends on
`changed` alone. The generation is compared for equality, not for order.
-/

namespace YellowPages.Store

open Lib

/-! ## Options and invariants across a call -/

theorem Atomic.opts {grow : Bool} {n : String} {m m' : Memory} {out : List ChangeEvent}
    (h : Atomic grow n m out m') : m'.opts = m.opts := by
  cases h with
  | rewrite now hnode hold hid hcreate => exact Memory.opts_rename ..
  | remove hnode hold => exact Memory.opts_unindexName ..
  | _ => rfl

theorem steps_opts {m m' : Memory} {log : List ChangeEvent} (h : Steps AnyAtomic m log m') :
    m'.opts = m.opts := by
  refine h.relates (fun m m' => m'.opts = m.opts) (fun _ => rfl) ?_ ?_
  · intro m1 m2 m3 h1 h2; exact h2.trans h1
  · rintro m1 out m2 ⟨grow, n, h⟩; exact h.opts

theorem exec_opts (c : Call) (m : Memory) : (c.exec m).1.opts = m.opts :=
  steps_opts (exec_any_steps c m)

theorem Filed.exec {m : Memory} (h : Filed m) (c : Call) : Filed (c.exec m).1 := by
  refine (exec_steps c m).keeps Filed h ?_
  rintro m1 out m2 h1 ⟨n, hstep⟩
  exact h1.atomic hstep

/-! ## Other nodes -/

theorem Atomic.frame {grow : Bool} {n n' : String} {m m' : Memory} {out : List ChangeEvent}
    (h : Atomic grow n m out m') (hn : n' ≠ n) : m'.nodes[n']? = m.nodes[n']? := by
  have hne : ¬ n = n' := fun h => hn h.symm
  cases h with
  | setMeta hid => simp [Memory.setMeta, Std.ExtTreeMap.getElem?_insert, hne]
  | create now hnode hnew hid =>
    rw [Memory.createService, Memory.nodes_indexName]
    simp [Memory.setService, Std.ExtTreeMap.getElem?_modify, hne]
  | rewrite now hnode hold hid hcreate =>
    rw [Memory.rewriteService, Memory.nodes_rename]
    simp [Memory.setService, Std.ExtTreeMap.getElem?_modify, hne]
  | refresh hnode hf => simp [Std.ExtTreeMap.getElem?_insert, hne]
  | remove hnode hold =>
    rw [Memory.removeService, Memory.nodes_unindexName]
    simp [Memory.eraseService, Std.ExtTreeMap.getElem?_modify, hne]
  | drop hnode hempty => simp [Std.ExtTreeMap.getElem?_erase, hne]

/-- A call about one node leaves the others exactly as they were. -/
theorem exec_frame {c : Call} {n n' : String} (h : c.target = some n) (hn : n' ≠ n) (m : Memory) :
    (c.exec m).1.nodes[n']? = m.nodes[n']? := by
  refine (exec_steps_target h m).relates (fun m m' => m'.nodes[n']? = m.nodes[n']?) (fun _ => rfl) ?_ ?_
  · intro m1 m2 m3 h1 h2; exact h2.trans h1
  · intro m1 out m2 h; exact h.frame hn

theorem exec_service?_frame {c : Call} {n n' : String} (h : c.target = some n) (hn : n' ≠ n)
    (m : Memory) (s : String) : (c.exec m).1.service? n' s = m.service? n' s := by
  rw [Memory.service?, exec_frame h hn, Memory.service?]

/-- No call stores anything under the empty node id. -/
theorem run_no_empty_node (opts : Options) (calls : List Call) :
    ((newMemory opts).run calls).1.nodes[""]? = none := by
  refine (run_steps calls (newMemory opts)).keeps (fun m => m.nodes[""]? = none)
    (by simp [newMemory]) ?_
  rintro m out m' hnone ⟨grow, n, hstep⟩
  by_cases hn : n = ""
  · have habsent : ∀ r, m.nodes[n]? ≠ some r := by
      intro r hr
      rw [hn, hnone] at hr
      cases hr
    cases hstep with
    | setMeta hid => exact absurd hn hid
    | create now hnode hnew hid => exact absurd hnode (habsent _)
    | rewrite now hnode hold hid hcreate => exact absurd hnode (habsent _)
    | refresh hnode hf => exact absurd hnode (habsent _)
    | remove hnode hold => exact absurd hnode (habsent _)
    | drop hnode hempty => exact absurd hnode (habsent _)
  · exact (hstep.frame (fun h => hn h.symm)).trans hnone

theorem eq_target_of_changed {c : Call} {n n' : String} {m : Memory} (h : c.target = some n)
    (hchanged : (c.exec m).1.nodes[n']? ≠ m.nodes[n']?) : n' = n := by
  by_contra hn
  exact hchanged (exec_frame h hn m)

/-- Also a registration that runs into the capacity leaves the node with its new attributes. -/
theorem register_hasMeta (m : Memory) (clk : Nat → Time) (reg : Registration)
    (hid : reg.node.id ≠ "") (hnames : ∀ svc ∈ reg.services, svc.name ≠ "") :
    HasMeta (m.register clk reg).mem reg.node.id reg.node := by
  unfold Memory.register
  rw [if_neg (by simpa [hid] using hnames)]
  exact registerLoop_hasMeta clk reg reg.services (hasMeta_setMeta m reg.node)

theorem deregister_removes (m : Memory) (order : RangeOrder String) (n : String) :
    (m.deregister order n).mem.nodes[n]? = none := by
  unfold Memory.deregister
  split
  · assumption
  · simp

theorem deregister_service? (m : Memory) (order : RangeOrder String) (n n' s' : String) :
    (m.deregister order n).mem.service? n' s' = if n = n' then none else m.service? n' s' := by
  split <;> rename_i hn
  · rw [← hn, Memory.service?, deregister_removes]
    rfl
  · exact exec_service?_frame (c := .deregister order n) rfl (fun heq => hn heq.symm) m s'

/-! ## Leases -/

/-- What is stored in `m'` was stored in `m`, with another `lastSeen` at most. -/
def Leased (m m' : Memory) : Prop :=
  ∀ n s new, m'.service? n s = some new →
    ∃ old t, m.service? n s = some old ∧ new.defn = { old.defn with lastSeen := t }

theorem Leased.refl (m : Memory) : Leased m m := fun _ _ new h => ⟨new, new.defn.lastSeen, h, rfl⟩

theorem Leased.trans {m m' m'' : Memory} (h1 : Leased m m') (h2 : Leased m' m'') : Leased m m'' := by
  intro n s new hnew
  obtain ⟨mid, t, hmid, hdefn⟩ := h2 n s new hnew
  obtain ⟨old, t', hold, hdefn'⟩ := h1 n s mid hmid
  exact ⟨old, t, hold, by rw [hdefn, hdefn']⟩

theorem Leased.of_service? {m m' : Memory} (h : ∀ n s, m'.service? n s = m.service? n s) :
    Leased m m' := by
  intro n s new hnew
  exact ⟨new, new.defn.lastSeen, by rw [← h]; exact hnew, rfl⟩

theorem Atomic.leased {n : String} {m m' : Memory} {out : List ChangeEvent}
    (h : Atomic false n m out m') : Leased m m' := by
  cases h with
  | @rewrite _ _ n s r old svc now hnode hold hid hcreate =>
    intro n' s' new hnew
    rw [Memory.service?_rewriteService hnode] at hnew
    split at hnew <;> rename_i hkey
    · obtain ⟨rfl, rfl⟩ := hkey
      obtain rfl := Option.some.inj hnew
      rw [← Memory.service?_of_node hnode] at hold
      refine ⟨old, old.defn.lastSeen, hold, ?_⟩
      exact hid.elim (fun h => absurd h.1 (by simp)) id
    · exact ⟨new, new.defn.lastSeen, hnew, rfl⟩
  | refresh hnode hf =>
    intro n' s' new hnew
    rw [Memory.service?_refresh hnode] at hnew
    split at hnew
    · obtain ⟨old, hold, rfl⟩ := Option.map_eq_some_iff.mp hnew
      obtain ⟨t, b, hfs⟩ := hf s' old
      exact ⟨old, t, hold, by rw [hfs]⟩
    · exact ⟨new, new.defn.lastSeen, hnew, rfl⟩
  | @remove _ n s r old hnode hold =>
    intro n' s' new hnew
    rw [Memory.service?_removeService] at hnew
    split at hnew
    · cases hnew
    · exact ⟨new, new.defn.lastSeen, hnew, rfl⟩
  | drop hnode hempty =>
    exact Leased.of_service? fun n' s' => Memory.service?_erase_empty hnode hempty n' s'

/-- Only `Register` and `Merge` bring in definitions. -/
theorem exec_leased {c : Call} (hc : c.grows = false) (m : Memory) : Leased m (c.exec m).1 := by
  have hsteps := exec_steps c m
  rw [hc] at hsteps
  refine hsteps.relates Leased Leased.refl ?_ ?_
  · intro m1 m2 m3 h1 h2; exact h1.trans h2
  · rintro m1 out m2 ⟨n, h⟩; exact h.leased

/-! ## One service -/

/-- The definition a seed holds after a registration of `dfn`, given what it held before. -/
def settled (old : Option ServiceInstance) (dfn : ServiceInstance) (now : Time) : ServiceInstance :=
  match old with
  | none => dfn
  | some old => if changed old dfn then dfn else { old with lastSeen := now }

theorem RegisterTurn.settles {clk : Nat → Time} {node : Node} {dfn : ServiceInstance} {p p' : Pass}
    (h : RegisterTurn clk node dfn p (some p')) (hmeta : HasMeta p.mem node.id node) :
    ∃ new, p'.mem.service? node.id dfn.id = some new ∧
      new.defn = settled ((p.mem.service? node.id dfn.id).map ServiceRec.defn) dfn (clk 0) := by
  obtain ⟨r, hr, -⟩ := hmeta
  cases h with
  | create hnew _ hsvc =>
    have hstored := Memory.service?_createService hr dfn node.id dfn.id
    rw [if_pos ⟨rfl, rfl⟩] at hstored
    rw [hsvc, hnew]
    exact ⟨_, hstored, rfl⟩
  | @rewrite old _ hold hchanged hsvc =>
    have hstored := Memory.service?_rewriteService hr dfn.id old
      { old with defn := dfn, lastState := .passing } node.id dfn.id
    rw [if_pos ⟨rfl, rfl⟩] at hstored
    rw [hsvc, hold]
    exact ⟨_, hstored, (if_pos hchanged).symm⟩
  | @refresh old hold hsame =>
    let svc : ServiceRec := { old with defn := { old.defn with lastSeen := clk 0 } }
    have hstored : (p.mem.setService node.id dfn.id svc).service? node.id dfn.id = _ :=
      Memory.service?_setService hr node.id dfn.id
    rw [if_pos ⟨rfl, rfl⟩] at hstored
    rw [hold]
    exact ⟨_, hstored, (if_neg (Bool.eq_false_iff.mp hsame)).symm⟩

def single (node : Node) (svc : ServiceInstance) (generation : Nat) : Registration :=
  { node := node, services := [svc], generation := generation }

/-- It settles on a definition, or the registry is full and the service was not there. -/
theorem register_single (m : Memory) (clk : Nat → Time) (node : Node) (svc : ServiceInstance)
    (generation : Nat) (hid : node.id ≠ "") (hname : svc.name ≠ "") :
    let o := m.register clk (single node svc generation)
    let dfn := stamp m.opts (clk 0) generation svc
    (o.ret = none ∧ ∃ new, o.mem.service? node.id dfn.id = some new ∧
        new.defn = settled ((m.service? node.id dfn.id).map ServiceRec.defn) dfn (clk 0)) ∨
      (o.ret = some .capacity ∧ m.opts.atCapacity m.sizeLocked ∧
        m.service? node.id dfn.id = none ∧ o.mem.service? node.id dfn.id = none) := by
  intro o dfn
  let p : Pass := ⟨m.setMeta node, m.sizeLocked, []⟩
  have hbefore : p.mem.service? node.id dfn.id = m.service? node.id dfn.id :=
    Memory.service?_setMeta node node.id dfn.id
  have ho : o = m.register clk (single node svc generation) := rfl
  rw [Memory.register, if_neg (by simp [single, hid, hname])] at ho
  simp only [single, registerLoop] at ho
  have hspec := registerService_spec clk (single node svc generation) p svc
  cases hturn : registerService clk (single node svc generation) p svc with
  | none =>
    rw [hturn] at hspec
    obtain ⟨hnew, hfull⟩ := hspec
    simp only [single, p] at hturn
    rw [hturn] at ho
    rw [ho]
    exact Or.inr ⟨rfl, hfull, hbefore.symm.trans hnew, hnew⟩
  | some p' =>
    rw [hturn] at hspec
    have hsettled := hspec.settles (hasMeta_setMeta m node)
    simp only [single, p] at hturn
    rw [hturn] at ho
    rw [ho, ← hbefore]
    exact Or.inl ⟨rfl, hsettled⟩

/-! ## Batches -/

def PutFor (events : List ChangeEvent) (s : String) (node : Node) : Prop :=
  ∃ ev ∈ events, ev.type = .put ∧ ev.entry.node = node ∧ ev.entry.service.id = s

theorem putFor_snoc (events : List ChangeEvent) (ev : ChangeEvent) (s : String) (node : Node) :
    PutFor (events ++ [ev]) s node ↔
      PutFor events s node ∨ ev.type = .put ∧ ev.entry.node = node ∧ ev.entry.service.id = s := by
  simp only [PutFor, List.mem_append, List.mem_singleton, or_and_right, exists_or, exists_eq_left]

end YellowPages.Store
