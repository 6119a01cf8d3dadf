import YellowPages.Store.Expiry
import YellowPages.Store.Renew

/-!
# Where a stored definition comes from

Register stamps the definitions it is given, Merge takes those of its entries, and a refreshed
lease has a new `lastSeen`. A property of definitions that these three keep holds of everything
that is ever stored.
-/

namespace YellowPages.Store

open Lib

def Memory.defn? (m : Memory) (n s : String) : Option ServiceInstance :=
  (m.service? n s).map ServiceRec.defn

def Everywhere (P : String → String → ServiceInstance → Prop) (m : Memory) : Prop :=
  ∀ n s svc, m.service? n s = some svc → P n s svc.defn

namespace Everywhere

variable {P : String → String → ServiceInstance → Prop} {m m' : Memory} {n s : String}

theorem of_sub (h : Everywhere P m) (hsub : ∀ n s new, m'.service? n s = some new →
    ∃ old, m.service? n s = some old ∧ new.defn = old.defn) : Everywhere P m' := by
  intro n s new hnew
  obtain ⟨old, hold, hdefn⟩ := hsub n s new hnew
  rw [hdefn]
  exact h n s old hold

theorem same (h : Everywhere P m) (hsame : ∀ n s, m'.service? n s = m.service? n s) :
    Everywhere P m' :=
  h.of_sub fun n s new hnew => ⟨new, by rw [← hsame]; exact hnew, rfl⟩

theorem put (h : Everywhere P m) {svc : ServiceRec}
    (hput : ∀ n' s', m'.service? n' s' = if n = n' ∧ s = s' then some svc else m.service? n' s')
    (hP : P n s svc.defn) : Everywhere P m' := by
  intro n' s' new hnew
  rw [hput] at hnew
  split at hnew <;> rename_i hk
  · obtain ⟨rfl, rfl⟩ := hk
    obtain rfl := Option.some.inj hnew
    exact hP
  · exact h n' s' new hnew

/-! ## Register -/

section Register

variable {clk : Nat → Time} {reg : Registration}

structure Registers (P : String → String → ServiceInstance → Prop) (o : Options) (clk : Nat → Time)
    (reg : Registration) (i : ServiceInstance) : Prop where
  stamps : P reg.node.id (stamp o (clk 0) reg.generation i).id (stamp o (clk 0) reg.generation i)
  refreshes : ∀ d, P reg.node.id (stamp o (clk 0) reg.generation i).id d →
    P reg.node.id (stamp o (clk 0) reg.generation i).id { d with lastSeen := clk 0 }

theorem registerTurn {dfn : ServiceInstance} {node : Node} {p p' : Pass} (h : Everywhere P p.mem)
    (hmeta : HasMeta p.mem node.id node) (hstamps : P node.id dfn.id dfn)
    (hrefreshes : ∀ d, P node.id dfn.id d → P node.id dfn.id { d with lastSeen := clk 0 })
    (hturn : RegisterTurn clk node dfn p (some p')) : Everywhere P p'.mem := by
  obtain ⟨r, hr, -⟩ := hmeta
  cases hturn with
  | create _ _ hsvc =>
    rw [hsvc]
    exact h.put (Memory.service?_createService hr _) hstamps
  | rewrite _ _ hsvc =>
    rw [hsvc]
    exact h.put (Memory.service?_rewriteService hr _ _ _) hstamps
  | refresh hold _ => exact h.put (Memory.service?_setService hr) (hrefreshes _ (h _ _ _ hold))

theorem register (h : Everywhere P m) (hinputs : ∀ i ∈ reg.services, Registers P m.opts clk reg i) :
    Everywhere P (m.register clk reg).mem := by
  refine register_keeps (fun m' _ => Everywhere P m') h
    (fun _ => h.same (Memory.service?_setMeta reg.node)) ?_
  intro p p' i hi _ hmeta hp hturn
  exact hp.registerTurn hmeta (hinputs i hi).stamps (hinputs i hi).refreshes hturn

end Register

/-! ## Merge -/

section Merge

variable {clk : Nat → Time}

theorem mergeTurn {p p' : MergePass} {e : ServiceEntry} (h : Everywhere P p.mem)
    (he : P e.node.id e.service.id (clamped p.mem.opts e.service)) (hturn : MergeTurn clk p e p') :
    Everywhere P p'.mem := by
  obtain ⟨r, hr, -⟩ := hasMeta_setMeta p.mem e.node
  have hset : Everywhere P (p.mem.setMeta e.node) := h.same (Memory.service?_setMeta e.node)
  cases hturn with
  | skip _ => exact h
  | full _ _ _ | lose _ _ _ => exact hset
  | create _ _ _ hsvc =>
    rw [hsvc]
    exact hset.put (Memory.service?_createService hr _) he
  | win _ _ _ hsvc =>
    rw [hsvc]
    exact hset.put (Memory.service?_rewriteService hr _ _ _) he

theorem merge {es : List ServiceEntry} (h : Everywhere P m)
    (hes : ∀ e ∈ es, P e.node.id e.service.id (clamped m.opts e.service)) :
    Everywhere P (m.merge clk es).mem := by
  refine merge_keeps (fun p => Everywhere P p.mem) h ?_
  intro p p' e he hopts hp hturn
  exact hp.mergeTurn (by rw [hopts]; exact hes e he) hturn

end Merge

/-! ## The other calls -/

theorem renew {clk : Nat → Time} {n : String} {ids : List String} (h : Everywhere P m)
    (hrefresh : ∀ s d, ids = [] ∨ s ∈ ids → P n s d → P n s { d with lastSeen := clk 0 }) :
    Everywhere P (m.renew clk n ids).mem := by
  intro n' s new hnew
  rw [renew_service?] at hnew
  split at hnew <;> rename_i hk
  · obtain ⟨old, hold, rfl⟩ := Option.map_eq_some_iff.mp hnew
    obtain ⟨rfl, hrenews⟩ := hk
    exact hrefresh s old.defn (hrenews.imp_right fun hs => (List.takeWhile_sublist _).mem hs)
      (h n s old hold)
  · exact h n' s new hnew

theorem setFlag {clk : Nat → Time} {n s : String} {same : ServiceRec → Bool}
    {set : ServiceRec → ServiceRec} (h : Everywhere P m) (hdefn : ∀ svc, (set svc).defn = svc.defn) :
    Everywhere P (m.setFlag clk n s same set).mem := by
  refine setFlag_keeps (fun m' _ => Everywhere P m') h ?_
  intro r svc new hr hsvc _ hnew
  have hsame : new.defn = svc.defn := by
    rw [hnew]
    exact hdefn svc
  refine h.put (Memory.service?_setService (m := m.advance) hr) ?_
  rw [hsame]
  exact h n s svc hsvc

theorem deregister {order : RangeOrder String} {n : String} (h : Everywhere P m) :
    Everywhere P (m.deregister order n).mem := by
  refine h.of_sub fun n' s' new hnew => ?_
  rw [deregister_service?] at hnew
  split at hnew
  · cases hnew
  · exact ⟨new, hnew, rfl⟩

theorem deregisterService {n s : String} (h : Everywhere P m) :
    Everywhere P (m.deregisterService n s).mem := by
  refine h.of_sub fun n' s' new hnew => ?_
  rw [deregisterService_service?] at hnew
  split at hnew
  · cases hnew
  · exact ⟨new, hnew, rfl⟩

theorem gc {clk : Nat → Time} {order : GcOrder} (h : Everywhere P m) :
    Everywhere P (m.gc clk order).mem := by
  refine h.of_sub fun n s new hnew => ?_
  obtain ⟨old, hold, -, hun⟩ := gc_service? hnew
  have hdefn : new.unstamped.defn = old.defn := by rw [hun]
  exact ⟨old, hold, hdefn⟩

end Everywhere

def Call.Obliges (P : String → String → ServiceInstance → Prop) (o : Options) : Call → Prop
  | .register clk reg => ∀ i ∈ reg.services, Everywhere.Registers P o clk reg i
  | .renew clk n ids => ∀ s d, ids = [] ∨ s ∈ ids → P n s d → P n s { d with lastSeen := clk 0 }
  | .merge _ es => ∀ e ∈ es, P e.node.id e.service.id (clamped o e.service)
  | _ => True

theorem Everywhere.exec {P : String → String → ServiceInstance → Prop} {m : Memory} {c : Call}
    (h : Everywhere P m) (hc : c.Obliges P m.opts) : Everywhere P (c.exec m).1 := by
  cases c with
  | register clk reg => exact h.register hc
  | renew clk n ids => exact h.renew hc
  | fail clk n s => exact h.setFlag fun _ => rfl
  | setMaintenance clk n s enabled => exact h.setFlag fun _ => rfl
  | deregister order n => exact h.deregister
  | deregisterService n s => exact h.deregisterService
  | merge clk es => exact h.merge hc
  | gc clk order => exact h.gc

/-! ## Granted TTLs -/

theorem pos_of_bounded {d bound : Duration} {c : Prop} [Decidable (bound > 0 ∧ c)] (h : 0 < d) :
    0 < if bound > 0 ∧ c then bound else d := by
  split <;> rename_i hbound
  · exact hbound.1
  · exact h

theorem clampTTL_pos {o : Options} (h : 0 < o.defaultTTL) (d : Duration) : 0 < o.clampTTL d := by
  have hgiven : 0 < if d ≤ 0 then o.defaultTTL else d := by
    split <;> rename_i hd
    · exact h
    · exact not_le.mp hd
  exact pos_of_bounded (pos_of_bounded hgiven)

theorem defaultTTL_newMemory (opts : Options) : 0 < (newMemory opts).opts.defaultTTL := by
  simp only [newMemory]
  split <;> rename_i h
  · exact (by decide : (0 : Duration) < 30 * second)
  · exact not_le.mp h

theorem run_ttl_pos (opts : Options) (calls : List Call) :
    Everywhere (fun _ _ d => 0 < d.ttl) ((newMemory opts).run calls).1 := by
  have hrun : ∀ (calls : List Call) (m : Memory), 0 < m.opts.defaultTTL →
      Everywhere (fun _ _ d => 0 < d.ttl) m →
        Everywhere (fun _ _ d => 0 < d.ttl) (m.run calls).1 := by
    intro calls
    induction calls with
    | nil => intro m _ h; exact h
    | cons c rest ih =>
      intro m hpos h
      have hopts : 0 < (c.exec m).1.opts.defaultTTL := by
        rw [exec_opts]
        exact hpos
      refine ih _ hopts (h.exec ?_)
      cases c with
      | register clk reg => exact fun i _ => ⟨clampTTL_pos hpos i.ttl, fun _ hd => hd⟩
      | renew clk n ids => exact fun _ _ _ hd => hd
      | merge clk es => exact fun e _ => clampTTL_pos hpos e.service.ttl
      | _ => trivial
  refine hrun calls _ (defaultTTL_newMemory opts) fun n s svc hsvc => ?_
  simp [newMemory, Memory.service?] at hsvc

/-! ## Lease times -/

/-- The call is a Register or Renew that covers service `s` of node `n`, with `t` on its clock. -/
def Call.Stamps (n s : String) (t : Time) : Call → Prop
  | .register clk reg =>
    clk 0 = t ∧ reg.node.id = n ∧ ∃ i ∈ reg.services, (if i.id = "" then i.name else i.id) = s
  | .renew clk n' ids => clk 0 = t ∧ n' = n ∧ (ids = [] ∨ s ∈ ids)
  | _ => False

def Call.isMerge : Call → Bool
  | .merge .. => true
  | _ => false

def SeenAt (m : Memory) (n s : String) (t : Time) : Prop :=
  ∃ svc, m.service? n s = some svc ∧ svc.defn.lastSeen = t

/-- Outside of Merge a lease time is an old one, or the clock of a call that covers the service. -/
theorem exec_seen {m : Memory} {c : Call} (hlocal : c.isMerge = false) {n s : String} {t : Time}
    (h : SeenAt (c.exec m).1 n s t) : SeenAt m n s t ∨ c.Stamps n s t := by
  let P := fun (n s : String) (d : ServiceInstance) => SeenAt m n s d.lastSeen ∨
      c.Stamps n s d.lastSeen
  have hstart : Everywhere P m := fun n s svc hsvc => Or.inl ⟨svc, hsvc, rfl⟩
  have hall : Everywhere P (c.exec m).1 := by
    refine hstart.exec ?_
    cases c with
    | register clk reg =>
      intro i hi
      have hstamps : ∀ d : ServiceInstance, d.lastSeen = clk 0 →
          P reg.node.id (stamp m.opts (clk 0) reg.generation i).id d :=
        fun d hd => Or.inr ⟨hd.symm, rfl, i, hi, rfl⟩
      exact ⟨hstamps _ rfl, fun d _ => hstamps _ rfl⟩
    | renew clk n ids => exact fun s d hs _ => Or.inr ⟨rfl, rfl, hs⟩
    | merge clk es => cases hlocal
    | _ => trivial
  obtain ⟨svc, hsvc, rfl⟩ := h
  exact hall n s svc hsvc

theorem merge_seen {m : Memory} {clk : Nat → Time} {es : List ServiceEntry} {n s : String} {t : Time}
    (h : SeenAt (m.merge clk es).mem n s t) :
    SeenAt m n s t ∨ ∃ e ∈ es, e.node.id = n ∧ e.service.id = s ∧ e.service.lastSeen = t := by
  let P := fun (n s : String) (d : ServiceInstance) => SeenAt m n s d.lastSeen ∨
    ∃ e ∈ es, e.node.id = n ∧ e.service.id = s ∧ e.service.lastSeen = d.lastSeen
  have hstart : Everywhere P m := fun n s svc hsvc => Or.inl ⟨svc, hsvc, rfl⟩
  have hall : Everywhere P (m.merge clk es).mem :=
    hstart.merge fun e he => Or.inr ⟨e, he, rfl, rfl, rfl⟩
  obtain ⟨svc, hsvc, rfl⟩ := h
  exact hall n s svc hsvc

end YellowPages.Store
