import YellowPages.Store.Merge
import YellowPages.Store.RegisterLoop
import YellowPages.Store.Replay
import YellowPages.Store.Log

/-!
# Attributes of a node

The node record is shared by all services of the node and replaced as a whole, while events are
decided per service, from the service definition alone. A change of the attributes is announced for
the services that change with it, and for no others.
-/

namespace YellowPages.Store

open Lib

/-! ## Indexes -/

theorem Atomic.advances {grow : Bool} {n n' s' : String} {m m' : Memory} {out : List ChangeEvent}
    (h : Atomic grow n m out m') (hfiled : Filed m) (hwrap : m.index + out.length < 2 ^ 64)
    {new : ServiceRec} (hnew : m'.service? n' s' = some new) :
    m.index < new.modifyIndex ∨ (∀ ev ∈ out, eventKey ev ≠ (n', s')) ∧
      ∃ old, m.service? n' s' = some old ∧ old.modifyIndex = new.modifyIndex := by
  rcases h.announces hfiled with ⟨rfl, hsame⟩ | ⟨s, v, ev, rfl, hkey, hstored, hv⟩
  · have hmap := congrArg (Option.map ServiceRec.modifyIndex) (hsame n' s')
    rw [Option.map_map, Option.map_map, hnew, Option.map_some, eq_comm, Option.map_eq_some_iff] at hmap
    exact Or.inr ⟨by simp, hmap⟩
  · rw [hstored] at hnew
    split at hnew <;> rename_i hk
    · rcases hv with ⟨rfl, -⟩ | ⟨svc, node, now, rfl, hnext, rfl⟩
      · cases hnew
      · obtain rfl := Option.some.inj hnew
        have hsucc : m.index + 1 < 2 ^ 64 := hwrap
        left
        rw [hnext, Memory.next, u64Succ, Nat.mod_eq_of_lt hsucc]
        omega
    · refine Or.inr ⟨fun ev' hev' heq => hk ?_, new, hnew, rfl⟩
      rw [List.mem_singleton.mp hev', hkey] at heq
      exact Prod.mk.inj heq

theorem steps_advance {m m' : Memory} {log : List ChangeEvent} (h : Steps AnyAtomic m log m')
    (hfiled : Filed m) (hwrap : m.index + log.length < 2 ^ 64) {n s : String} {svc : ServiceRec}
    (hsvc : m'.service? n s = some svc) (hev : ∃ ev ∈ log, eventKey ev = (n, s)) :
    m.index < svc.modifyIndex := by
  have hall := h.invariant (fun log m' => Filed m' ∧ (m.index + log.length < 2 ^ 64 →
      m'.index = m.index + log.length ∧ ∀ n s svc, m'.service? n s = some svc →
        (∃ ev ∈ log, eventKey ev = (n, s)) → m.index < svc.modifyIndex))
    ⟨hfiled, fun _ => ⟨rfl, fun _ _ _ _ hev => by simp at hev⟩⟩ (by
      rintro log m1 out m2 ⟨hfiled1, ih⟩ ⟨grow, place, hstep⟩
      refine ⟨hfiled1.atomic hstep, fun hwrap => ?_⟩
      rw [List.length_append] at hwrap
      obtain ⟨hindex, hlog⟩ := ih (by omega)
      have hwrap1 : m1.index + out.length < 2 ^ 64 := by omega
      have hindex2 := (Somewhere.simulates m1 out m2 ⟨place, hstep⟩ hwrap1).2
      refine ⟨by rw [List.length_append]; omega, ?_⟩
      rintro n s svc hsvc ⟨ev, hev, hkey⟩
      rcases hstep.advances hfiled1 hwrap1 hsvc with hlt | ⟨hout, old, hold, hmod⟩
      · omega
      · rw [← hmod]
        rcases List.mem_append.mp hev with hev | hev
        · exact hlog n s old hold ⟨ev, hev, hkey⟩
        · exact absurd hkey (hout ev hev))
  exact (hall.2 hwrap).2 n s svc hsvc hev

/-! ## The batches -/

section Batches

variable {m : Memory} (clk : Nat → Time)

theorem register_puts {reg : Registration} (hid : reg.node.id ≠ "")
    (hnames : ∀ i ∈ reg.services, i.name ≠ "") {s : String} {d : ServiceInstance}
    (hd : m.defn? reg.node.id s = some d) :
    PutFor (m.register clk reg).events s reg.node ↔
      Revised m.opts clk reg (accepted m reg.node.id [] reg.services) s d := by
  rw [register_eq_loop hid hnames]
  exact ((Registering.start m clk reg).run reg.services).puts s d hd

theorem merge_puts {es : List ServiceEntry} {s : String} {node : Node}
    (hs : m.service? node.id s ≠ none) :
    PutFor (m.merge clk es).events s node ↔ WonBy m es s node :=
  (merge_merging m clk es).1.puts s node fun hnone => absurd hnone hs

theorem lastNode_id {es : List ServiceEntry} {n : String} {node : Node}
    (h : lastNode es n = some node) :
    node.id = n := by
  obtain ⟨e, he, rfl⟩ := Option.map_eq_some_iff.mp h
  have hmem := (List.mem_filter.mp (List.mem_of_getLast? he)).2
  simp only [decide_eq_true_eq] at hmem
  exact hmem.2

end Batches

/-! ## What a lookup shows -/

/-- Every entry that two lookups, before and after the call, show with different attributes of its
node has a PUT with the new attributes in the batch, and a higher index. -/
def AttributesAnnounced (m : Memory) (c : Call) : Prop :=
  ∀ now now' q q' e e', e ∈ (m.lookup now q).entries → e' ∈ ((c.exec m).1.lookup now' q').entries →
    e'.key = e.key → e'.node ≠ e.node →
      (∃ ev ∈ (c.exec m).2, ev.type = .put ∧ ev.entry.key = e.key ∧ ev.entry.node = e'.node) ∧
        e.modifyIndex < e'.modifyIndex

/-- Every stored service of a node whose attributes the call replaces is replaced as well, by a
definition that comes with the new attributes. -/
def Call.Replaces (m : Memory) : Call → Prop
  | .register clk reg => reg.node.id ≠ "" → (∀ i ∈ reg.services, i.name ≠ "") →
    ∀ old, m.node? reg.node.id = some old → old ≠ reg.node → ∀ s d, m.defn? reg.node.id s = some d →
      Revised m.opts clk reg (accepted m reg.node.id [] reg.services) s d
  | .merge _ es => ∀ n old new, m.node? n = some old → lastNode es n = some new → old ≠ new →
    ∀ s, m.service? n s ≠ none → WonBy m es s new
  | _ => True

theorem ServiceEntry.key_eq_iff (e e' : ServiceEntry) :
    e'.key = e.key ↔ e'.node.id = e.node.id ∧ e'.service.id = e.service.id := by
  rw [ServiceEntry.key, ServiceEntry.key, toLex_inj, Prod.mk.injEq]

section Stored

variable {m : Memory}

theorem stored_of_lookup (h : Filed m) {now : Time} {q : Query} {e : ServiceEntry}
    (he : e ∈ (m.lookup now q).entries) :
    m.node? e.node.id = some e.node ∧
      ∃ svc, m.service? e.node.id e.service.id = some svc ∧ e.modifyIndex = svc.modifyIndex := by
  obtain ⟨n, r, s, svc, hr, hs, -, -, -, -, rfl⟩ := (mem_lookup now q h e).mp he
  have hnode : m.node? n = some r.nodeMeta := Memory.node?_of_node hr
  have hsvc : m.service? n s = some svc := Memory.service?_eq_some.mpr ⟨r, hr, hs⟩
  rw [entry, h.node_id n r.nodeMeta hnode, h.service_id n s svc hsvc]
  exact ⟨hnode, svc, hsvc, rfl⟩

theorem lookup_of_stored (h : Filed m) {n s : String} {node : Node} {svc : ServiceRec}
    (hnode : m.node? n = some node) (hsvc : m.service? n s = some svc) (httl : 0 < svc.defn.ttl) :
    ∃ e ∈ (m.lookup svc.defn.lastSeen {}).entries,
      e.key = toLex (n, s) ∧ e.node = node ∧ e.modifyIndex = svc.modifyIndex := by
  obtain ⟨r, hr, hs⟩ := Memory.service?_eq_some.mp hsvc
  have hmeta : r.nodeMeta = node := by simpa [Memory.node?, hr] using hnode
  have hage : timeSub svc.defn.lastSeen svc.defn.lastSeen ≤ svc.defn.ttl := by
    have hzero : timeSub svc.defn.lastSeen svc.defn.lastSeen = 0 := by simp [timeSub]
    rw [hzero]
    exact le_of_lt httl
  have hlive : (m.opts.lease svc svc.defn.lastSeen).2 = false := by
    by_cases hfailed : svc.failed = true <;> simp [Options.lease, hfailed, hage]
  refine ⟨entry r.nodeMeta svc (m.opts.lease svc svc.defn.lastSeen).1, ?_, ?_, hmeta, rfl⟩
  · exact (mem_lookup _ {} h _).mpr ⟨n, r, s, svc, hr, hs, Or.inl rfl, Or.inl rfl, by simp,
      hlive, rfl⟩
  · rw [ServiceEntry.key, entry, hmeta, h.node_id n node hnode, h.service_id n s svc hsvc]

end Stored

theorem Atomic.stays {place n s : String} {m m' : Memory} {out : List ChangeEvent}
    (h : Atomic true place m out m') (hs : m.service? n s ≠ none) : m'.service? n s ≠ none := by
  cases h with
  | setMeta _ => rw [Memory.service?_setMeta]; exact hs
  | create now hnode hnew hid =>
    rw [Memory.service?_createService hnode]
    split
    · simp
    · exact hs
  | rewrite now hnode hold hid hcreate =>
    rw [Memory.service?_rewriteService hnode]
    split
    · simp
    · exact hs
  | refresh hnode hf =>
    rw [Memory.service?_refresh hnode]
    split
    · simpa using hs
    · exact hs

theorem exec_stays {c : Call} (hc : c.grows = true) {m : Memory} {n s : String}
    (hs : m.service? n s ≠ none) :
    (c.exec m).1.service? n s ≠ none := by
  have hsteps := exec_steps c m
  rw [hc] at hsteps
  refine hsteps.keeps (fun m' => m'.service? n s ≠ none) hs ?_
  rintro m1 out m2 h1 ⟨place, hstep⟩
  exact hstep.stays h1

/-- The same as `Call.Replaces`, in terms of what the call does. -/
def NodePuts (m : Memory) (c : Call) : Prop :=
  ∀ n s old new, m.service? n s ≠ none → m.node? n = some old → (c.exec m).1.node? n = some new →
    old ≠ new → PutFor (c.exec m).2 s new

theorem nodePuts_register (m : Memory) (clk : Nat → Time) (reg : Registration) :
    NodePuts m (.register clk reg) ↔ (Call.register clk reg).Replaces m := by
  by_cases hvalid : reg.node.id ≠ "" ∧ ∀ i ∈ reg.services, i.name ≠ ""
  · obtain ⟨hid, hnames⟩ := hvalid
    obtain ⟨r, hr, hmeta⟩ := register_hasMeta m clk reg hid hnames
    have hnode : (m.register clk reg).mem.node? reg.node.id = some reg.node := by
      simp [Memory.node?, hr, hmeta]
    constructor
    · intro h _ _ old hold hne s d hd
      obtain ⟨svc, hsvc, rfl⟩ := Option.map_eq_some_iff.mp hd
      exact (register_puts clk hid hnames hd).mp (h _ s old _ (by simp [hsvc]) hold hnode hne)
    · intro h n s old new hs hold hnew hne
      by_cases hn : n = reg.node.id
      · subst hn
        obtain rfl := Option.some.inj (hnode.symm.trans hnew)
        obtain ⟨svc, hsvc⟩ := Option.ne_none_iff_exists'.mp hs
        have hd : m.defn? reg.node.id s = some svc.defn := by simp [Memory.defn?, hsvc]
        exact (register_puts clk hid hnames hd).mpr (h hid hnames old hold hne s _ hd)
      · have hframe := exec_frame (c := .register clk reg) (n := reg.node.id) rfl hn m
        rw [Memory.node?, hframe] at hnew
        exact absurd (Option.some.inj (hold.symm.trans hnew)) hne
  · -- A registration that is refused changes nothing.
    refine iff_of_true ?_ fun hid hnames => absurd ⟨hid, hnames⟩ hvalid
    intro n s old new _ hold hnew hne
    rw [show ((Call.register clk reg).exec m).1 = m from register_refused hvalid] at hnew
    exact absurd (Option.some.inj (hold.symm.trans hnew)) hne

theorem nodePuts_merge (m : Memory) (clk : Nat → Time) (es : List ServiceEntry) :
    NodePuts m (.merge clk es) ↔ (Call.merge clk es).Replaces m := by
  have hnode : ∀ n, (m.merge clk es).mem.node? n = (lastNode es n).or (m.node? n) :=
    (merge_merging m clk es).1.node
  constructor
  · intro h n old new hold hlast hne s hs
    obtain rfl := lastNode_id hlast
    refine (merge_puts clk hs).mp (h new.id s old new hs hold ?_ hne)
    exact (hnode new.id).trans (by rw [hlast]; rfl)
  · intro h n s old new hs hold hnew hne
    replace hnew := (hnode n).symm.trans hnew
    cases hlast : lastNode es n with
    | none =>
      rw [hlast, Option.none_or] at hnew
      exact absurd (Option.some.inj (hold.symm.trans hnew)) hne
    | some node =>
      rw [hlast, Option.some_or] at hnew
      obtain rfl := Option.some.inj hnew
      obtain rfl := lastNode_id hlast
      exact (merge_puts clk hs).mpr (h _ old node hold hlast hne s hs)

section Runs

variable {opts : Options} {calls : List Call} {c : Call}
  (hwrap : opts.startIndex + ((newMemory opts).run (calls ++ [c])).2.flatten.length < 2 ^ 64)

include hwrap

theorem exec_advance {n s : String} {svc svc' : ServiceRec}
    (hsvc : ((newMemory opts).run calls).1.service? n s = some svc)
    (hsvc' : (c.exec ((newMemory opts).run calls).1).1.service? n s = some svc')
    (hev : ∃ ev ∈ (c.exec ((newMemory opts).run calls).1).2, eventKey ev = (n, s)) :
    svc.modifyIndex < svc'.modifyIndex := by
  rw [run_snoc_log, List.length_append] at hwrap
  obtain ⟨hstamped, hindex⟩ := run_stamped (newMemory opts) calls (by rw [index_newMemory]; omega)
  rw [index_newMemory] at hindex
  rw [stamped_newMemory] at hstamped
  have hbound := ((Stamped.steps_sound hstamped).bounds (n, s) _ _ (stamps_service? hsvc)).2.2
  have hadvance := steps_advance (exec_any_steps c _) (Filed.run opts calls) (by omega) hsvc' hev
  exact lt_of_le_of_lt hbound hadvance

theorem announced_iff_nodePuts (hc : c.grows = true) :
    AttributesAnnounced ((newMemory opts).run calls).1 c ↔ NodePuts
      ((newMemory opts).run calls).1 c := by
  have hfiled : Filed ((newMemory opts).run calls).1 := Filed.run opts calls
  have hfiled' := hfiled.exec c
  constructor
  · -- A stored service has a positive TTL, so lookups at its own `lastSeen` show it.
    intro h n s old new hs hold hnew hne
    obtain ⟨svc, hsvc⟩ := Option.ne_none_iff_exists'.mp hs
    obtain ⟨svc', hsvc'⟩ := Option.ne_none_iff_exists'.mp (exec_stays hc hs)
    have httl' : 0 < svc'.defn.ttl := by
      have hrun := run_ttl_pos opts (calls ++ [c])
      rw [run_append] at hrun
      exact hrun n s svc' hsvc'
    obtain ⟨e, he, hkey, hnode, -⟩ :=
      lookup_of_stored hfiled hold hsvc (run_ttl_pos opts calls n s svc hsvc)
    obtain ⟨e', he', hkey', hnode', -⟩ := lookup_of_stored hfiled' hnew hsvc' httl'
    obtain ⟨⟨ev, hev, hput, hevkey, hevnode⟩, -⟩ := h _ _ _ _ e e' he he' (hkey'.trans hkey.symm)
      (by rw [hnode, hnode']; exact hne.symm)
    refine ⟨ev, hev, hput, hevnode.trans hnode', ?_⟩
    rw [hkey, ServiceEntry.key, toLex_inj, Prod.mk.injEq] at hevkey
    exact hevkey.2
  · intro h now now' q q' e e' he he' hkey hne
    obtain ⟨hnode, svc, hsvc, hmod⟩ := stored_of_lookup hfiled he
    obtain ⟨hnode', svc', hsvc', hmod'⟩ := stored_of_lookup hfiled' he'
    obtain ⟨hn, hs⟩ := (ServiceEntry.key_eq_iff e e').mp hkey
    rw [hn] at hnode' hsvc'
    rw [hs] at hsvc'
    obtain ⟨ev, hev, hput, hevnode, hevs⟩ :=
      h e.node.id e.service.id _ _ (by simp [hsvc]) hnode hnode' hne.symm
    have hevkey : ev.entry.node.id = e.node.id ∧ ev.entry.service.id = e.service.id :=
      ⟨by rw [hevnode, hn], hevs⟩
    refine ⟨⟨ev, hev, hput, (ServiceEntry.key_eq_iff e ev.entry).mpr hevkey, hevnode⟩, ?_⟩
    rw [hmod, hmod']
    exact exec_advance hwrap hsvc hsvc' ⟨ev, hev, Prod.ext hevkey.1 hevkey.2⟩

/-- Register and Merge announce the attributes of a node if and only if they replace every service
it has. -/
theorem node_change_announced_iff (hc : c.grows = true) :
    AttributesAnnounced ((newMemory opts).run calls).1 c ↔
      c.Replaces ((newMemory opts).run calls).1 := by
  rw [announced_iff_nodePuts hwrap hc]
  cases c with
  | register clk reg => exact nodePuts_register _ clk reg
  | merge clk es => exact nodePuts_merge _ clk es
  | _ => cases hc

end Runs

def located (address : String) (port : UInt16) : Registration :=
  { node := { id := "n", address := address }, services := [{ id := "s", name := "s", port := port }] }

theorem node_change_announced_with_port :
    AttributesAnnounced ((newMemory {}).run [.register (fun _ => 0) (located "10.0.0.1" 80)]).1
      (.register (fun _ => 0) (located "10.0.0.2" 81)) := by
  refine (node_change_announced_iff (by decide) rfl).mpr ?_
  intro _ _ old _ _ s d hd
  have hall :
      ∀ r ∈ ((newMemory {}).run [.register (fun _ => 0) (located "10.0.0.1" 80)]).1.nodes["n"]?,
      ∀ x ∈ r.services.toList, x.1 = "s" ∧
        changed x.2.defn (stamp (newMemory {}).opts 0 0 { id := "s", name := "s", port := 81 }) =
          true := by
    decide
  obtain ⟨svc, hsvc, rfl⟩ := Option.map_eq_some_iff.mp hd
  obtain ⟨r, hr, hs⟩ := Memory.service?_eq_some.mp hsvc
  obtain ⟨rfl, hchanged⟩ :=
    hall r hr (s, svc) (Std.ExtTreeMap.mem_toList_iff_getElem?_eq_some.mpr hs)
  exact ⟨{ id := "s", name := "s", port := 81 }, by decide, rfl, hchanged⟩

/-- The node moves, and its service stays as it is: a lookup has the new address, the batch is
empty. -/
theorem node_change_not_always_announced :
    ¬ ∀ (opts : Options) (calls : List Call) (c : Call), c.grows = true →
      opts.startIndex + ((newMemory opts).run (calls ++ [c])).2.flatten.length < 2 ^ 64 →
        AttributesAnnounced ((newMemory opts).run calls).1 c := by
  intro h
  have hwrap : ({} : Options).startIndex +
      ((newMemory {}).run ([.register (fun _ => 0) (located "10.0.0.1" 80)] ++
      [.register (fun _ => 0) (located "10.0.0.2" 80)])).2.flatten.length < 2 ^ 64 := by decide
  have hputs := (announced_iff_nodePuts hwrap rfl).mp (h _ _ _ rfl hwrap) "n" "s"
    (located "10.0.0.1" 80).node (located "10.0.0.2" 80).node (by decide) (by decide) (by decide)
      (by decide)
  obtain ⟨ev, hev, -⟩ := hputs
  have hquiet : ((Call.register (fun _ => 0) (located "10.0.0.2" 80)).exec
      ((newMemory {}).run [.register (fun _ => 0) (located "10.0.0.1" 80)]).1).2.length = 0 := by decide
  rw [List.length_eq_zero_iff.mp hquiet] at hev
  cases hev

end YellowPages.Store
