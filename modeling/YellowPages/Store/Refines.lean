import YellowPages.Store.Table
import YellowPages.Store.Sweep
import YellowPages.Lib.Trace

/-!
# The registry is the table of leases

Every run of calls on the registry gets the answers the table gives, and every lookup shows the
entries the table shows.
-/

namespace YellowPages.Store

open Lib

/-! ## Answers -/

/-- What a call on the registry returns. -/
def Call.reply (m : Memory) : Call → Reply
  | .register clk reg => .done (m.register clk reg).ret
  | .renew clk n ids => .done (m.renew clk n ids).ret
  | .fail clk n s => .done (m.fail clk n s).ret
  | .setMaintenance clk n s enabled => .done (m.setMaintenance clk n s enabled).ret
  | .deregister order n => .done (m.deregister order n).ret
  | .deregisterService n s => .done (m.deregisterService n s).ret
  | .merge clk entries => .count (m.merge clk entries).ret
  | .gc clk order => .count (m.gc clk order).ret

def Memory.answer (m : Memory) (c : Call) : Memory × Reply := ((c.exec m).1, c.reply m)

theorem runWith_answer (m : Memory) (calls : List Call) :
    (runWith Memory.answer m calls).1 = (m.run calls).1 := by
  induction calls generalizing m with
  | nil => rfl
  | cons c rest ih => exact ih (c.exec m).1

/-! ## The same table -/

structure Refines (m : Memory) (T : Table) : Prop where
  opts : T.opts = m.opts
  slots : ∀ n s, T.slot? n s = (m.service? n s).map ServiceRec.slot
  attrs : ∀ n, T.attrs[n]? = m.node? n

namespace Refines

variable {m m' : Memory} {T : Table} {n s : String}

theorem slot?_eq_none_iff (h : Refines m T) : T.slot? n s = none ↔ m.service? n s = none := by
  rw [h.slots, Option.map_eq_none_iff]

theorem slot?_of_service? (h : Refines m T) {svc : ServiceRec} (hsvc : m.service? n s = some svc) :
    T.slot? n s = some svc.slot := by
  rw [h.slots, hsvc]
  rfl

/-- The registry holds one service under another record. -/
theorem put (h : Refines m T) {svc : ServiceRec}
    (hput : ∀ n' s', m'.service? n' s' = if n = n' ∧ s = s' then some svc else m.service? n' s')
    (hnode : ∀ n', m'.node? n' = m.node? n') (hopts : m'.opts = m.opts) :
    Refines m' (T.put n s svc.slot) where
  opts := h.opts.trans hopts.symm
  slots := by
    intro n' s'
    rw [Table.slot?_put, hput, h.slots]
    split <;> rfl
  attrs := fun n' => (h.attrs n').trans (hnode n').symm

theorem describe (h : Refines m T) (node : Node) : Refines (m.setMeta node) (T.describe node) where
  opts := h.opts
  slots := by
    intro n s
    rw [Memory.service?_setMeta]
    exact h.slots n s
  attrs := by
    intro n
    rw [Memory.node?_setMeta, Table.describe, Std.ExtTreeMap.getElem?_insert, h.attrs]
    simp only [Std.compare_eq_iff_eq]

theorem size (h : Refines m T) : T.slots.size = m.sizeLocked := by
  have hnodup : (T.slots.keys.map fun ref => (ref.node, ref.service)).Nodup := by
    refine List.Nodup.map ?_ (List.nodup_iff_pairwise_ne.mpr (by simpa using T.slots.distinct_keys))
    rintro ⟨n, s⟩ ⟨n', s'⟩ heq
    simpa using heq
  have hstored : (T.slots.keys.map fun ref => (ref.node, ref.service)).toFinset = m.stored := by
    ext ⟨n, s⟩
    rw [Memory.mem_stored, ne_eq, ← h.slot?_eq_none_iff, List.mem_toFinset, List.mem_map]
    constructor
    · rintro ⟨⟨n', s'⟩, href, heq⟩
      cases heq
      rw [Std.ExtTreeMap.mem_keys, Std.ExtTreeMap.mem_iff_isSome_getElem?] at href
      exact Option.isSome_iff_ne_none.mp href
    · intro hslot
      refine ⟨⟨n, s⟩, ?_, rfl⟩
      rw [Std.ExtTreeMap.mem_keys, Std.ExtTreeMap.mem_iff_isSome_getElem?]
      exact Option.isSome_iff_ne_none.mpr hslot
  rw [← Memory.card_stored, ← hstored, List.toFinset_card_of_nodup hnodup, List.length_map,
    Std.ExtTreeMap.length_keys]

/-! ## Register and Merge -/

theorem opts_rewriteService (m : Memory) (n s : String) (old svc : ServiceRec) :
    (m.rewriteService n s old svc).1.opts = m.opts := Memory.opts_rename ..

variable {clk : Nat → Time} {reg : Registration}

theorem registerTurn {p : Pass} {dfn : ServiceInstance} {input : ServiceInstance}
    {out : Option Pass} (h : Refines p.mem T) (hsize : p.size = p.mem.sizeLocked)
    (hmeta : HasMeta p.mem reg.node.id reg.node)
    (hdfn : dfn = stamp p.mem.opts (clk 0) reg.generation input)
    (hturn : RegisterTurn clk reg.node dfn p out) :
    Option.Rel (fun p' T' => Refines p'.mem T') out (T.offer (clk 0) reg input) := by
  obtain ⟨r, hr, -⟩ := hmeta
  have hstamp : stamp T.opts (clk 0) reg.generation input = dfn := by rw [h.opts, hdfn]
  unfold Table.offer
  rw [hstamp]
  cases hturn with
  | full hnew hfull =>
    rw [hsize, ← h.size, ← h.opts] at hfull
    simp only [h.slot?_eq_none_iff.mpr hnew, hfull, if_true]
    exact .none
  | create hnew hroom hsvc =>
    subst hsvc
    rw [hsize, ← h.size, ← h.opts] at hroom
    simp only [h.slot?_eq_none_iff.mpr hnew, hroom]
    exact .some (h.put (Memory.service?_createService hr dfn) (Memory.node?_createService _ _) rfl)
  | @rewrite old _ hold hchanged hsvc =>
    subst hsvc
    simp only [h.slot?_of_service? hold, settled, ServiceRec.slot, hchanged, if_true]
    exact .some (h.put (Memory.service?_rewriteService hr _ _ _) (Memory.node?_rewriteService _ _ _ _)
      (opts_rewriteService ..))
  | @refresh old hold hsame =>
    simp only [h.slot?_of_service? hold, settled, ServiceRec.slot, hsame]
    exact .some (h.put (Memory.service?_setService hr) (Memory.node?_setService _ _ _) rfl)

theorem registerLoop (clk : Nat → Time) {p : Pass} (inputs : List ServiceInstance)
    (h : Refines p.mem T) (hcounted : Counted p) (hmeta : HasMeta p.mem reg.node.id reg.node) :
    Refines (Store.registerLoop clk reg inputs p).1.mem (Table.offerAll (clk 0) reg inputs T).1 ∧
      (Store.registerLoop clk reg inputs p).2 = (Table.offerAll (clk 0) reg inputs T).2 := by
  induction inputs generalizing p T with
  | nil => exact ⟨h, rfl⟩
  | cons input rest ih =>
    have hturn := registerService_spec clk reg p input
    have hsame := h.registerTurn hcounted.size hmeta rfl hturn
    rw [Store.registerLoop, Table.offerAll]
    generalize registerService clk reg p input = out, T.offer (clk 0) reg input = out'
      at hturn hsame ⊢
    cases hsame with
    | none => exact ⟨h, rfl⟩
    | some hnext => exact ih hnext (hcounted.registerTurn hmeta hturn) (hturn.hasMeta hmeta)

theorem register (h : Refines m T) (hwithin : m.Within) (clk : Nat → Time) (reg : Registration) :
    Refines (m.register clk reg).mem (T.register (clk 0) reg).1 ∧
      Reply.done (m.register clk reg).ret = (T.register (clk 0) reg).2 := by
  unfold Memory.register Table.register
  split
  · exact ⟨h, rfl⟩
  · have hcounted : Counted ⟨m.setMeta reg.node, m.sizeLocked, []⟩ :=
      have hsize := Memory.sizeLocked_congr (Memory.service?_setMeta (m := m) reg.node)
      ⟨hsize.symm, hwithin.of_le rfl hsize.le⟩
    obtain ⟨hloop, herr⟩ :=
      registerLoop clk reg.services (p := ⟨m.setMeta reg.node, m.sizeLocked, []⟩)
      (h.describe reg.node) hcounted (hasMeta_setMeta m reg.node)
    exact ⟨hloop, congrArg Reply.done herr⟩

theorem mergeTurn {p p' : MergePass} {e : ServiceEntry} (h : Refines p.mem T)
    (hcounted : Counted p.toPass) (hturn : MergeTurn clk p e p') :
    Refines p'.mem (Table.learn (T, p.applied) e).1 ∧ p'.applied =
      (Table.learn (T, p.applied) e).2 := by
  have hdescribed := h.describe e.node
  obtain ⟨r, hr, -⟩ := hasMeta_setMeta p.mem e.node
  have hsize : (T.describe e.node).slots.size = p.size := h.size.trans hcounted.size.symm
  have hopts : (T.describe e.node).opts = p.mem.opts := h.opts
  unfold Table.learn
  cases hturn with
  | skip hvalid =>
    rw [Valid, not_and_or, not_not, not_not] at hvalid
    rw [if_pos hvalid]
    exact ⟨h, rfl⟩
  | full hvalid hnew hfull =>
    rw [if_neg (not_or.mpr hvalid)]
    have hslot : (T.describe e.node).slot? e.node.id e.service.id = none := h.slot?_eq_none_iff.mpr hnew
    simp only [hslot, hopts, hsize, hfull]
    exact ⟨hdescribed, by trivial⟩
  | create hvalid hnew hroom hsvc =>
    subst hsvc
    rw [if_neg (not_or.mpr hvalid)]
    have hslot : (T.describe e.node).slot? e.node.id e.service.id = none := h.slot?_eq_none_iff.mpr hnew
    simp only [hslot, hopts, hsize, hroom]
    exact ⟨hdescribed.put (Memory.service?_createService hr _) (Memory.node?_createService _ _) rfl,
      rfl⟩
  | lose hvalid hold hrank =>
    rw [if_neg (not_or.mpr hvalid)]
    have hslot : (T.describe e.node).slot? e.node.id e.service.id = some _ := h.slot?_of_service? hold
    simp only [hslot, ServiceRec.slot, if_neg hrank]
    exact ⟨hdescribed, by trivial⟩
  | win hvalid hold hrank hsvc =>
    subst hsvc
    rw [if_neg (not_or.mpr hvalid)]
    have hslot : (T.describe e.node).slot? e.node.id e.service.id = some _ := h.slot?_of_service? hold
    simp only [hslot, hopts, ServiceRec.slot, if_pos hrank]
    exact ⟨hdescribed.put (Memory.service?_rewriteService hr _ _ _)
      (Memory.node?_rewriteService _ _ _ _)
      (opts_rewriteService ..), by trivial⟩

theorem mergeLoop (clk : Nat → Time) (es : List ServiceEntry) {p : MergePass} (h : Refines p.mem T)
    (hcounted : Counted p.toPass) :
    Refines (es.foldl (mergeEntry clk) p).mem (es.foldl Table.learn (T, p.applied)).1 ∧
      (es.foldl (mergeEntry clk) p).applied = (es.foldl Table.learn (T, p.applied)).2 := by
  induction es generalizing p T with
  | nil => exact ⟨h, rfl⟩
  | cons e rest ih =>
    have hturn := mergeEntry_spec clk p e
    obtain ⟨hnext, happlied⟩ := h.mergeTurn hcounted hturn
    have hrest := ih hnext (hcounted.mergeTurn hturn)
    rw [happlied] at hrest
    exact hrest

theorem merge (h : Refines m T) (hwithin : m.Within) (clk : Nat → Time) (es : List ServiceEntry) :
    Refines (m.merge clk es).mem (T.merge es).1 ∧ Reply.count (m.merge clk es).ret =
      (T.merge es).2 := by
  have hcounted : Counted (⟨⟨m, m.sizeLocked, []⟩, 0⟩ : MergePass).toPass := ⟨rfl, hwithin⟩
  obtain ⟨hloop, happlied⟩ := mergeLoop clk es (p := ⟨⟨m, m.sizeLocked, []⟩, 0⟩) h hcounted
  exact ⟨hloop, congrArg Reply.count happlied⟩

/-! ## Renew and the flags -/

theorem knows_eq (h : Refines m T) (n : String) : T.knows n = m.nodes[n]?.isSome := by
  rw [Table.knows, Std.ExtTreeMap.contains_eq_isSome_getElem?, h.attrs, Memory.node?, Option.isSome_map]

theorem setService (h : Refines m T) {old : ServiceRec} (hold : m.service? n s = some old)
    (svc : ServiceRec) :
    Refines (m.setService n s svc) (T.put n s svc.slot) := by
  obtain ⟨r, hr, -⟩ := Memory.service?_eq_some.mp hold
  exact h.put (Memory.service?_setService hr) (Memory.node?_setService _ _ _) rfl

theorem renewLoop (now : Time) (ids : List String) (h : Refines m T) :
    Refines (Store.renewLoop now n ids m).1 (Table.renewEach now n ids T).1 ∧
      (Store.renewLoop now n ids m).2 = (Table.renewEach now n ids T).2 := by
  induction ids generalizing m T with
  | nil => exact ⟨h, rfl⟩
  | cons id rest ih =>
    rw [Store.renewLoop, Table.renewEach]
    cases hsvc : m.service? n id with
    | none =>
      rw [h.slot?_eq_none_iff.mpr hsvc]
      exact ⟨h, rfl⟩
    | some svc =>
      rw [h.slot?_of_service? hsvc]
      exact ih (h.setService hsvc (svc.renewed now))

theorem renew (h : Refines m T) (clk : Nat → Time) (n : String) (ids : List String) :
    Refines (m.renew clk n ids).mem (T.renew (clk 0) n ids).1 ∧
      Reply.done (m.renew clk n ids).ret = (T.renew (clk 0) n ids).2 := by
  unfold Memory.renew Table.renew
  rw [h.knows_eq]
  cases hnode : m.nodes[n]? with
  | none => exact ⟨h, rfl⟩
  | some r =>
    simp only [Option.isSome_some, Bool.not_true, Bool.false_eq_true, if_false]
    split
    · refine ⟨⟨h.opts, fun n' s' => ?_, fun n' => ?_⟩, rfl⟩
      · rw [Memory.service?_refresh hnode]
        have hslot := h.slots n' s'
        unfold Table.slot? at hslot ⊢
        rw [Std.ExtTreeMap.getElem?_map, hslot, Option.map_map]
        by_cases hn : n = n'
        · simp only [hn, if_true, Option.map_map]
          rfl
        · simp only [hn, Ne.symm hn, if_false]
          rfl
      · simp only [h.attrs, Memory.node?, Std.ExtTreeMap.getElem?_insert, Std.compare_eq_iff_eq]
        split <;> rename_i hn
        · rw [← hn, hnode]
          rfl
        · rfl
    · obtain ⟨hloop, herr⟩ := h.renewLoop (n := n) (clk 0) ids
      exact ⟨hloop, congrArg Reply.done herr⟩

/-- Setting a flag that is set already changes nothing, so the check for it does not show. -/
theorem setFlag (h : Refines m T) {same : ServiceRec → Bool} {set : ServiceRec → ServiceRec}
    {f : Slot → Slot} (hset : ∀ svc, (set svc).slot = f svc.slot)
    (hsame : ∀ svc, same svc = true → f svc.slot = svc.slot) (clk : Nat → Time) (n s : String) :
    Refines (m.setFlag clk n s same set).mem (T.update n s f).1 ∧
      Reply.done (m.setFlag clk n s same set).ret = (T.update n s f).2 := by
  unfold Memory.setFlag Table.update
  cases hsvc : m.service? n s with
  | none =>
    rw [h.slot?_eq_none_iff.mpr hsvc]
    split
    · exact ⟨h, rfl⟩
    · rename_i r hr
      rw [Memory.service?_of_node hr] at hsvc
      rw [hsvc]
      exact ⟨h, rfl⟩
  | some svc =>
    obtain ⟨r, hr, hs⟩ := Memory.service?_eq_some.mp hsvc
    rw [h.slot?_of_service? hsvc, hr]
    simp only [hs]
    split <;> rename_i hcheck
    · refine ⟨?_, rfl⟩
      rw [hsame svc hcheck]
      refine h.put (fun n' s' => ?_) (fun _ => rfl) rfl
      split <;> rename_i hk
      · rw [← hk.1, ← hk.2, hsvc]
      · rfl
    · refine ⟨?_, rfl⟩
      rw [← hset svc]
      have hadvance : Refines m.advance T := ⟨h.opts, h.slots, h.attrs⟩
      exact hadvance.setService hsvc { set svc with modifyIndex := m.next }

/-! ## Deregister and GC -/

/-- Nodes with attributes and without a service are gone, among those that `p` marks. -/
theorem prune {T' : Table} {p : String → Bool} (hopts : T'.opts = m'.opts)
    (hslots : ∀ n s, T'.slot? n s = (m'.service? n s).map ServiceRec.slot)
    (hattrs : ∀ n, T'.attrs[n]? = m.node? n)
    (hnode : ∀ n node, m'.node? n = some node ↔
      m.node? n = some node ∧
        (p n = true → ∃ s, m'.service? n s ≠ none)) : Refines m' (T'.prune p) where
  opts := hopts
  slots := hslots
  attrs := by
    intro n
    have hhosts : T'.hosts n = true ↔ ∃ s, m'.service? n s ≠ none := by
      simp only [Table.hosts_iff, hslots, ne_eq, Option.map_eq_none_iff]
    refine Option.ext fun node => ?_
    rw [hnode, Table.prune, Std.ExtTreeMap.getElem?_filter', hattrs, Option.filter_eq_some_iff,
      Bool.or_eq_true,
      Bool.not_eq_true', hhosts]
    cases p n <;> simp

theorem deregister (h : Refines m T) (order : RangeOrder String) (n : String) :
    Refines (m.deregister order n).mem (T.deregister n).1 ∧
      Reply.done (m.deregister order n).ret = (T.deregister n).2 := by
  unfold Table.deregister
  rw [h.knows_eq]
  cases hnode : m.nodes[n]? with
  | none =>
    unfold Memory.deregister
    rw [hnode]
    exact ⟨h, rfl⟩
  | some r =>
    refine ⟨⟨?_, fun n' s' => ?_, fun n' => ?_⟩, ?_⟩
    · exact h.opts.trans (exec_opts (.deregister order n) m).symm
    · rw [deregister_service?]
      have hkept := Table.slot?_keep T (fun ref _ => ref.node ≠ n) n' s'
      refine hkept.trans ?_
      rw [h.slots]
      by_cases hn : n = n'
      · simp [hn]
      · cases m.service? n' s' <;> simp [hn, Ne.symm hn]
    · have hframe : n' ≠ n → (m.deregister order n).mem.nodes[n']? = m.nodes[n']? := fun hn =>
        exec_frame (c := .deregister order n) rfl hn m
      simp only [Option.isSome_some, Bool.not_true, Bool.false_eq_true, if_false,
        Std.ExtTreeMap.getElem?_erase,
        Std.compare_eq_iff_eq]
      split <;> rename_i hn
      · rw [Memory.node?, ← hn, deregister_removes]
        rfl
      · rw [h.attrs, Memory.node?, Memory.node?, hframe (Ne.symm hn)]
    · unfold Memory.deregister
      rw [hnode]
      rfl

theorem isEmpty_services_iff {r : NodeRec} (hr : m.nodes[n]? = some r) :
    r.services.isEmpty = true ↔ ∀ s, m.service? n s = none := by
  simp only [Std.ExtTreeMap.isEmpty_iff, Std.ExtTreeMap.eq_empty_iff_forall_not_mem,
    Memory.service?_of_node hr,
    Std.ExtTreeMap.mem_iff_isSome_getElem?, Option.not_isSome_iff_eq_none]

theorem node?_dropIfEmpty (m : Memory) (n n' : String) (node : Node) :
    (m.dropIfEmpty n).node? n' = some node ↔
      m.node? n' = some node ∧
        (decide (n' = n) = true → ∃ s, (m.dropIfEmpty n).service? n' s ≠ none) := by
  simp only [dropIfEmpty_service?, decide_eq_true_eq]
  unfold Memory.dropIfEmpty
  cases hr : m.nodes[n]? with
  | none =>
    refine (and_iff_left_of_imp fun hnode hn => ?_).symm
    rw [hn, Memory.node?, hr] at hnode
    cases hnode
  | some r =>
    dsimp only
    split <;> rename_i hempty <;> rw [isEmpty_services_iff hr] at hempty
    · simp only [Memory.node?, Std.ExtTreeMap.getElem?_erase, Std.compare_eq_iff_eq]
      split <;> rename_i hn
      · simp [← hn, hempty]
      · simp [Ne.symm hn]
    · refine (and_iff_left_of_imp fun _ hn => ?_).symm
      rw [hn]
      exact not_forall.mp hempty

theorem deregisterService (h : Refines m T) (n s : String) :
    Refines (m.deregisterService n s).mem (T.deregisterService n s).1 ∧
      Reply.done (m.deregisterService n s).ret = (T.deregisterService n s).2 := by
  have hservice := deregisterService_service? m n s
  have hopts : (m.deregisterService n s).mem.opts = m.opts := exec_opts (.deregisterService n s) m
  unfold Memory.deregisterService Table.deregisterService at *
  cases hsvc : m.service? n s with
  | none =>
    rw [h.slot?_eq_none_iff.mpr hsvc]
    cases hr : m.nodes[n]? with
    | none => exact ⟨h, rfl⟩
    | some r =>
      rw [Memory.service?_of_node hr] at hsvc
      simp only [hsvc]
      exact ⟨h, trivial⟩
  | some svc =>
    obtain ⟨r, hr, hs⟩ := Memory.service?_eq_some.mp hsvc
    rw [h.slot?_of_service? hsvc]
    simp only [hr, hs] at hservice hopts ⊢
    refine ⟨prune (m := m) (h.opts.trans hopts.symm) (fun n' s' => ?_) h.attrs fun n' node => ?_,
      trivial⟩
    · rw [hservice, Table.slot?_keep, h.slots]
      by_cases hk : n = n' ∧ s = s'
      · simp [hk]
      · have hk' : ¬ (n' = n ∧ s' = s) := fun hk' => hk ⟨hk'.1.symm, hk'.2.symm⟩
        cases m.service? n' s' <;> simp [hk, hk']
    · rw [node?_dropIfEmpty, Memory.removeService,
        Memory.node?_of_nodes_eq (Memory.nodes_unindexName ..),
        Memory.node?_eraseService]
      rfl

theorem lease_slot (o : Options) (svc : ServiceRec) (now : Time) :
    o.lease svc.slot.toRec now = o.lease svc now := rfl

theorem gc_slot? (m : Memory) (clk : Nat → Time) (order : GcOrder) (n s : String) :
    ((m.gc clk order).mem.service? n s).map ServiceRec.slot =
      ((m.service? n s).map ServiceRec.slot).filter fun v => !(m.opts.lease v.toRec (clk 0)).2 := by
  have hunstamped : ∀ m :
      Memory, (m.service? n s).map ServiceRec.slot = (m.record? n s).map ServiceRec.slot := by
    intro m
    rw [Memory.record?, Option.map_map]
    rfl
  rw [hunstamped, hunstamped, gc_record?]
  cases m.record? n s with
  | none => rfl
  | some svc =>
    rw [Option.bind_some, swept, Option.map_some, Option.filter_some, lease_slot]
    cases (m.opts.lease svc (clk 0)).2 <;> rfl

theorem gc (h : Refines m T) (clk : Nat → Time) (order : GcOrder) :
    Refines (m.gc clk order).mem (T.gc (clk 0)).1 ∧ Reply.count (m.gc clk order).ret =
      (T.gc (clk 0)).2 := by
  let live := T.keep fun _ v => !(T.opts.lease v.toRec (clk 0)).2
  have hopts : (m.gc clk order).mem.opts = m.opts := exec_opts (.gc clk order) m
  have hslots : ∀ n s, live.slot? n s = ((m.gc clk order).mem.service? n s).map ServiceRec.slot := by
    intro n s
    rw [gc_slot?, Table.slot?_keep, h.slots, h.opts]
  have hrefines : Refines (m.gc clk order).mem (T.gc (clk 0)).1 := by
    refine prune (m := m) (h.opts.trans hopts.symm) hslots h.attrs fun n node => ?_
    constructor
    · intro hnode
      obtain ⟨r, hr, rfl⟩ := Option.map_eq_some_iff.mp hnode
      refine ⟨gc_node? hnode, fun _ => not_forall.mp fun hnone => ?_⟩
      rw [← isEmpty_services_iff hr, gc_no_empty_node hr] at hnone
      cases hnone
    · rintro ⟨hnode, hhosts⟩
      obtain ⟨s, hs⟩ := hhosts rfl
      obtain ⟨svc, hsvc⟩ := Option.ne_none_iff_exists'.mp hs
      obtain ⟨r, hr, -⟩ := Memory.service?_eq_some.mp hsvc
      have hkept := Memory.node?_of_node hr
      rw [hkept, ← gc_node? hkept, hnode]
  refine ⟨hrefines, congrArg Reply.count ?_⟩
  have hsize : live.slots.size = (m.gc clk order).mem.sizeLocked := hrefines.size
  have hcounts := gc_counts m clk order
  rw [h.size, hsize]
  omega

/-! ## Whole runs -/

theorem exec (h : Refines m T) (hwithin : m.Within) (c : Call) :
    (m.answer c).2 = (T.exec c).2 ∧ Refines (m.answer c).1 (T.exec c).1 := by
  refine And.symm ?_
  cases c with
  | register clk reg => exact h.register hwithin clk reg
  | renew clk n ids => exact h.renew clk n ids
  | fail clk n s => exact h.setFlag (fun _ => rfl) (fun svc hsame => by rw [← hsame]; rfl) clk n s
  | setMaintenance clk n s enabled =>
    exact h.setFlag (fun _ => rfl) (fun svc hsame => by rw [← of_decide_eq_true hsame]; rfl) clk n s
  | deregister order n => exact h.deregister order n
  | deregisterService n s => exact h.deregisterService n s
  | merge clk entries => exact h.merge hwithin clk entries
  | gc clk order => exact h.gc clk order

theorem newTable (opts : Options) : Refines (newMemory opts) (newTable opts) where
  opts := rfl
  slots := fun n s => by simp [Store.newTable, newMemory, Table.slot?, Memory.service?]
  attrs := fun n => by simp [Store.newTable, newMemory, Memory.node?]

/-! ## Lookup -/

theorem visit_slot (o : Options) (now : Time) (q : Query) (node : Node) (svc : ServiceRec) :
    visit o now q node svc.slot.toRec = (visit o now q node svc).map ServiceEntry.unindexed := by
  refine Option.ext fun e => ?_
  simp only [Option.map_eq_some_iff, visit_eq_some]
  constructor
  · rintro ⟨hdc, htags, hlive, rfl⟩
    exact ⟨_, ⟨hdc, htags, hlive, rfl⟩, rfl⟩
  · rintro ⟨_, ⟨hdc, htags, hlive, rfl⟩, rfl⟩
    exact ⟨hdc, htags, hlive, rfl⟩

/-- What the table shows of a slot is what the registry shows of its record. -/
theorem shown (h : Refines m T) {now : Time} {q : Query} {v : Slot} {node : Node} {e : ServiceEntry}
    (hslot : T.slot? n s = some v) (hnode : T.attrs[n]? = some node)
    (he : visit T.opts now q node v.toRec = some e) :
    ∃ r svc e', m.nodes[n]? = some r ∧ r.services[s]? = some svc ∧ svc.defn = v.defn ∧
      visit m.opts now q r.nodeMeta svc = some e' ∧ e'.unindexed = e := by
  rw [h.slots] at hslot
  rw [h.attrs] at hnode
  obtain ⟨svc, hsvc, rfl⟩ := Option.map_eq_some_iff.mp hslot
  obtain ⟨r, hr, hs⟩ := Memory.service?_eq_some.mp hsvc
  obtain rfl := Option.some.inj ((Memory.node?_of_node hr).symm.trans hnode)
  rw [visit_slot, h.opts] at he
  obtain ⟨e', he', heq⟩ := Option.map_eq_some_iff.mp he
  exact ⟨r, svc, e', hr, hs, rfl, he', heq⟩

theorem table_lookup_strictlySorted (h : Refines m T) (hfiled : Filed m) (now : Time) (q : Query) :
    StrictlySorted ServiceEntry.key (T.lookup now q) := by
  have hkey : ∀ {ref : SvcRef} {v : Slot} {e : ServiceEntry}, (ref, v) ∈ T.slots.toList →
      (T.attrs[ref.node]?.bind fun node =>
        if q.name = "" ∨
          v.defn.name = q.name then visit T.opts now q node v.toRec else none) = some e →
      e.key = toLex (ref.node, ref.service) := by
    intro ref v e hslot he
    rw [Std.ExtTreeMap.mem_toList_iff_getElem?_eq_some] at hslot
    obtain ⟨node, hnode, he⟩ := Option.bind_eq_some_iff.mp he
    obtain ⟨-, he⟩ := Option.ite_none_right_eq_some.mp he
    obtain ⟨r, svc, e', hr, hs, -, he', rfl⟩ := h.shown hslot hnode he
    have hkey : e'.key = toLex (ref.node, ref.service) := key_of_visit now q hfiled hr hs he'
    exact hkey
  refine sortBy_strictlySorted ServiceEntry.key _ ?_
  rw [List.nodup_iff_pairwise_ne, List.pairwise_map, List.pairwise_filterMap]
  refine Std.ExtTreeMap.distinct_keys_toList.imp_of_mem ?_
  rintro ⟨⟨n1, s1⟩, v1⟩ ⟨⟨n2, s2⟩, v2⟩ h1 h2 hne e1 he1 e2 he2
  rw [hkey h1 he1, hkey h2 he2]
  simpa [Std.compare_eq_iff_eq] using hne

theorem lookup (h : Refines m T) (hfiled : Filed m) (now : Time) (q : Query) :
    (m.lookup now q).entries.map ServiceEntry.unindexed = T.lookup now q := by
  refine StrictlySorted.ext ServiceEntry.key ?_ (h.table_lookup_strictlySorted hfiled now q) fun e => ?_
  · exact List.pairwise_map.mpr (lookup_strictlySorted now q hfiled)
  simp only [Table.mem_lookup, List.mem_map, Memory.lookup, mem_sortBy, mem_collect now q hfiled]
  constructor
  · rintro ⟨e, ⟨n, r, s, svc, hr, hs, hname, he⟩, rfl⟩
    refine ⟨n, s, svc.slot, r.nodeMeta,
      h.slot?_of_service? (Memory.service?_eq_some.mpr ⟨r, hr, hs⟩), ?_, hname, ?_⟩
    · rw [h.attrs, Memory.node?_of_node hr]
    · rw [visit_slot, h.opts, he]
      rfl
  · rintro ⟨n, s, v, node, hslot, hnode, hname, he⟩
    obtain ⟨r, svc, e', hr, hs, hdefn, he', heq⟩ := h.shown hslot hnode he
    rw [← hdefn] at hname
    exact ⟨e', ⟨n, r, s, svc, hr, hs, hname, he'⟩, heq⟩

end Refines

/-- Every run of calls on a registry gets the answers it gets on a flat table of leases, whatever the
orders of its map loops and the clock readings after the first. A lookup shows the table's live rows. -/
theorem registry_is_table (opts : Options) (calls : List Call) :
    let T := runWith Table.exec (newTable opts) calls
    (runWith Memory.answer (newMemory opts) calls).2 = T.2 ∧
      ∀ now q, (((newMemory opts).run calls).1.lookup now q).entries.map ServiceEntry.unindexed =
        T.1.lookup now q := by
  intro T
  have hstep : ∀ m T c, Refines m T ∧ m.Within ∧ Filed m → (m.answer c).2 = (T.exec c).2 ∧
      Refines (m.answer c).1 (T.exec c).1 ∧ (m.answer c).1.Within ∧ Filed (m.answer c).1 := by
    rintro m T c ⟨h, hwithin, hfiled⟩
    obtain ⟨hanswer, hnext⟩ := h.exec hwithin c
    exact ⟨hanswer, hnext, hwithin.exec c, hfiled.exec c⟩
  obtain ⟨hanswers, hlast, -, hfiled⟩ :=
    runWith_simulates (fun m T => Refines m T ∧ m.Within ∧ Filed m) hstep
    calls ⟨Refines.newTable opts, newMemory_within opts, Filed.run opts []⟩
  rw [runWith_answer] at hlast hfiled
  exact ⟨hanswers, hlast.lookup hfiled⟩

end YellowPages.Store
