import YellowPages.Store.Merge
import YellowPages.Store.Settle

/-!
# What a call leaves alone

All calls work on the same maps. A service that a call does not address keeps its record and its
place in the name index, and a node that it does not address keeps its attributes.
-/

namespace YellowPages.Store

open Lib

/-! ## What a call addresses -/

/-- The services that a call is about. `Renew` without ids and `Deregister` are about every service
of their node, and a sweep is about all there are. -/
def Call.Addresses (c : Call) (n s : String) : Prop :=
  match c with
  | .register _ reg => reg.node.id = n ∧ ∃ i ∈ reg.services, serviceId i = s
  | .renew _ n' ids => n' = n ∧ (ids = [] ∨ s ∈ ids)
  | .fail _ n' s' | .setMaintenance _ n' s' _ | .deregisterService n' s' => n' = n ∧ s' = s
  | .deregister _ n' => n' = n
  | .merge _ es => ∃ e ∈ es, e.node.id = n ∧ e.service.id = s
  | .gc .. => True

def Call.AddressesNode (c : Call) (n : String) : Prop :=
  match c with
  | .merge _ es => ∃ e ∈ es, e.node.id = n
  | .gc .. => True
  | c => c.target = some n

/-! ## Records -/

section Record

variable {m : Memory} {clk : Nat → Time} {n s : String}

theorem register_unaddressed {reg : Registration} (h : ¬ (Call.register clk reg).Addresses n s) :
    (m.register clk reg).mem.service? n s = m.service? n s := by
  by_cases hn : n = reg.node.id
  · subst hn
    refine register_keeps (fun mem _ => mem.service? reg.node.id s = m.service? reg.node.id s) rfl
      (fun _ => Memory.service?_setMeta ..) ?_
    intro p p' i hi _ hmeta hp hturn
    have hid : (stamp m.opts (clk 0) reg.generation i).id ≠ s := fun hs => h ⟨rfl, i, hi, hs⟩
    exact (hturn.frame hmeta hid).trans hp
  · exact exec_service?_frame (c := .register clk reg) rfl hn m s

theorem renew_unaddressed {n' : String} {ids : List String}
    (h : ¬ (Call.renew clk n' ids).Addresses n s) :
    (m.renew clk n' ids).mem.service? n s = m.service? n s := by
  rw [renew_service?, if_neg]
  rintro ⟨hn, hall | hknown⟩
  · exact h ⟨hn, Or.inl hall⟩
  · exact h ⟨hn, Or.inr ((List.takeWhile_sublist _).subset hknown)⟩

theorem setFlag_unaddressed {n' s' : String} {same : ServiceRec → Bool}
    {set : ServiceRec → ServiceRec} (h : ¬ (n' = n ∧ s' = s)) :
    (m.setFlag clk n' s' same set).mem.service? n s = m.service? n s := by
  refine setFlag_keeps (fun mem _ => mem.service? n s = m.service? n s) rfl ?_
  intro r svc new hr _ _ _
  have hput : (m.advance.setService n' s' new).service? n s =
      if n' = n ∧ s' = s then some new else m.service? n s :=
    Memory.service?_setService hr n s
  rw [if_neg h] at hput
  exact hput

theorem exec_unaddressed (c : Call) (h : ¬ c.Addresses n s) :
    (c.exec m).1.service? n s = m.service? n s := by
  cases c with
  | register clk reg => exact register_unaddressed h
  | renew clk n' ids => exact renew_unaddressed h
  | fail clk n' s' => exact setFlag_unaddressed h
  | setMaintenance clk n' s' enabled => exact setFlag_unaddressed h
  | deregister order n' => exact (deregister_service? m order n' n s).trans (if_neg h)
  | deregisterService n' s' => exact (deregisterService_service? m n' s' n s).trans (if_neg h)
  | merge clk es =>
    refine merge_service?_of_not_leads clk ?_
    intro e he hn hs
    exact absurd ⟨e, he, hn, hs⟩ h
  | gc clk order => exact absurd trivial h

end Record

/-! ## Nodes -/

theorem merge_node_unaddressed {m : Memory} {clk : Nat → Time} {es : List ServiceEntry} {n : String}
    (h : ¬ ∃ e ∈ es, e.node.id = n) : (m.merge clk es).mem.nodes[n]? = m.nodes[n]? := by
  refine merge_keeps (fun p => p.mem.nodes[n]? = m.nodes[n]?) rfl ?_
  intro p p' e he _ hp hturn
  have hn : n ≠ e.node.id := fun hn => h ⟨e, he, hn.symm⟩
  obtain ⟨out, -, hsteps⟩ := hturn.atomic.steps
  refine (hsteps.relates (fun m m' : Memory => m'.nodes[n]? = m.nodes[n]?) (fun _ => rfl) ?_
    ?_).trans hp
  · intro m1 m2 m3 h1 h2; exact h2.trans h1
  · intro m1 out m2 hstep; exact hstep.frame hn

theorem exec_node_unaddressed {m : Memory} (c : Call) {n : String} (h : ¬ c.AddressesNode n) :
    (c.exec m).1.nodes[n]? = m.nodes[n]? := by
  have htarget : ∀ n', c.target = some n' → ¬ c.target = some n →
      (c.exec m).1.nodes[n]? = m.nodes[n]? := by
    intro n' hn' hn
    have hne : n ≠ n' := by
      rintro rfl
      exact hn hn'
    exact exec_frame hn' hne m
  cases c with
  | merge clk es => exact merge_node_unaddressed h
  | gc clk order => exact absurd trivial h
  | _ => exact htarget _ rfl h

/-! ## The contract -/

/-- The record `svc` is stored in `m` and the call leaves it as it is, where it is found. -/
structure LeftAlone (m : Memory) (c : Call) (n s : String) (svc : ServiceRec) : Prop where
  record : (c.exec m).1.service? n s = some svc
  named : (c.exec m).1.named svc.defn.name n s
  /-- A lookup of its name has it, as long as the lease lasts. -/
  found : ∀ now, (m.opts.lease svc now).2 = false →
    ∃ node, (c.exec m).1.node? n = some node ∧
      entry node svc (m.opts.lease svc now).1 ∈
        ((c.exec m).1.lookup now { name := svc.defn.name }).entries
  attributes : ¬ c.AddressesNode n → (c.exec m).1.node? n = m.node? n

theorem unaddressed_left_alone (m : Memory) (hm : Reachable m) (c : Call) (n s : String)
    (svc : ServiceRec) (hsvc : m.service? n s = some svc) (hc : ¬ c.Addresses n s) :
    LeftAlone m c n s svc := by
  have hfiled : Filed (c.exec m).1 := (hm.exec c).filed
  have hopts : (c.exec m).1.opts = m.opts := exec_opts c m
  have hrecord : (c.exec m).1.service? n s = some svc := (exec_unaddressed c hc).trans hsvc
  refine ⟨hrecord, (hfiled.named_stored hrecord _).mpr rfl, ?_, ?_⟩
  · intro now hlive
    obtain ⟨r, hr, hs⟩ := Memory.service?_eq_some.mp hrecord
    refine ⟨r.nodeMeta, Memory.node?_of_node hr, ?_⟩
    rw [mem_lookup now _ hfiled, hopts]
    exact ⟨n, r, s, svc, hr, hs, Or.inr rfl, Or.inl rfl, by simp, hlive, rfl⟩
  · intro hnode
    rw [Memory.node?, exec_node_unaddressed c hnode, Memory.node?]

/-- The node loses its other service, and with it one of two services of the same name. -/
theorem unaddressed_left_alone_web :
    let web (id : String) := single { id := "n1" } { id := id, name := "web" } 1
    let m := ((newMemory {}).run [.register (fun _ => 0) (web "a"), .register (fun _ => 0) (web "b")]).1
    ∃ svc, m.service? "n1" "a" = some svc ∧ LeftAlone m
      (.deregisterService "n1" "b") "n1" "a" svc := by
  intro web m
  have hstored : (m.service? "n1" "a").isSome = true := by decide +kernel
  obtain ⟨svc, hsvc⟩ := Option.isSome_iff_exists.mp hstored
  refine ⟨svc, hsvc, unaddressed_left_alone m ⟨{}, _, rfl⟩ _ _ _ svc hsvc ?_⟩
  rintro ⟨-, hs⟩
  exact absurd hs (by decide)

end YellowPages.Store
