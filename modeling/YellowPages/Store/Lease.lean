import YellowPages.Store.Merge
import YellowPages.Store.RegisterLoop

/-!
# Leases that are refreshed in time

A lease whose next refresh is due before it runs out. Each call of the registry keeps it that way or
moves it to the present.
-/

namespace YellowPages.Store

/-! ## Records -/

/-- Seen by `now`, not failed, and good until the refresh that is `due`. -/
structure Holds (now due : Time) (period : Duration) (svc : ServiceRec) : Prop where
  alive : svc.failed = false
  seen : svc.defn.lastSeen ≤ now
  covers : due ≤ svc.defn.lastSeen + period
  granted : period ≤ svc.defn.ttl

theorem timeSub_le {t u : Time} {d : Duration} (hle : u ≤ t) (h : t - u ≤ d) : timeSub t u ≤ d := by
  have hnonneg : 0 ≤ t - u := sub_nonneg.mpr hle
  refine max_le ?_ ((min_le_right _ _).trans h)
  exact le_trans (by decide) (hnonneg.trans h)

namespace Holds

variable {now now' due due' : Time} {period : Duration} {svc : ServiceRec}

theorem passing (h : Holds now due period svc) (hdue : now ≤ due) (o : Options) :
    o.lease svc now = (.passing, false) := by
  have hage : timeSub now svc.defn.lastSeen ≤ svc.defn.ttl := by
    refine timeSub_le h.seen (le_trans ?_ h.granted)
    exact sub_le_iff_le_add'.mpr (hdue.trans h.covers)
  simp [Options.lease, h.alive, hage]

theorem later (h : Holds now due period svc) (hle : now ≤ now') : Holds now' due period svc :=
  { h with seen := h.seen.trans hle }

theorem renewed (h : Holds now due period svc) (hdue : due' ≤ now + period) :
    Holds now due' period (svc.renewed now) where
  alive := rfl
  seen := le_rfl
  covers := hdue
  granted := h.granted

theorem of_refreshed {m : Memory} {n : String} {i : ServiceInstance}
    (h : Refreshed m (fun _ => now) n i svc) (hdue : due ≤ now + period)
    (hgranted : period ≤ m.opts.clampTTL i.ttl)
    (hfailed : ∀ old ∈ m.service? n (serviceId i), old.failed = false) :
    Holds now due period svc where
  alive := by
    by_contra hsvc
    obtain ⟨old, hold, hbad⟩ := h.failed (Bool.eq_true_of_not_eq_false hsvc)
    rw [hfailed old hold] at hbad
    cases hbad
  seen := le_of_eq h.seen
  covers := by rw [h.seen]; exact hdue
  granted := by rw [h.ttl]; exact hgranted

end Holds

/-! ## The registry -/

def Kept (m : Memory) (n s : String) (now due : Time) (period : Duration) : Prop :=
  ∃ svc, m.service? n s = some svc ∧ Holds now due period svc

namespace Kept

variable {m m' : Memory} {n n' s : String} {now now' due due' : Time} {period : Duration}

theorem stored (h : Kept m n s now due period) : (m.service? n s).isSome := by
  obtain ⟨svc, hsvc, -⟩ := h
  simp [hsvc]

theorem later (h : Kept m n s now due period) (hle : now ≤ now') : Kept m n s now' due period := by
  obtain ⟨svc, hsvc, hholds⟩ := h
  exact ⟨svc, hsvc, hholds.later hle⟩

theorem same (h : Kept m n s now due period) (hsame : m'.service? n s = m.service? n s) :
    Kept m' n s now due period := by
  rw [Kept, hsame]
  exact h

theorem register {reg : Registration} (hid : reg.node.id ≠ "")
    (hnames : ∀ i ∈ reg.services, i.name ≠ "") (hfits : Fits m reg.node.id reg.services)
    (hdue : due ≤ now + period)
    (hother : s ∉ reg.services.map serviceId → Kept m reg.node.id s now due period)
    (hgrants : ∀ i ∈ reg.services, serviceId i = s → period ≤ m.opts.clampTTL i.ttl ∧
      ∀ old ∈ m.service? reg.node.id s, old.failed = false) :
    Kept (m.register (fun _ => now) reg).mem reg.node.id s now due period := by
  have hs : s ∈ reg.services.map serviceId ∨ m.service? reg.node.id s ≠ none := by
    by_cases hs : s ∈ reg.services.map serviceId
    · exact Or.inl hs
    · exact Or.inr (Option.isSome_iff_ne_none.mp (hother hs).stored)
  obtain ⟨svc, hsvc, ⟨hs, hbefore⟩ | ⟨i, hi, rfl, hfresh⟩⟩ :=
    (register_fits (fun _ => now) hid hnames hfits).2 s hs
  · obtain ⟨old, hold, hholds⟩ := hother hs
    obtain rfl := Option.some.inj (hold.symm.trans hbefore)
    exact ⟨old, hsvc, hholds⟩
  · obtain ⟨hgranted, hfailed⟩ := hgrants i hi rfl
    exact ⟨svc, hsvc, Holds.of_refreshed hfresh hdue hgranted hfailed⟩

theorem renew (h : Kept m n s now due period) (hdue : due ≤ now + period) (ids : List String) :
    Kept (m.renew (fun _ => now) n' ids).mem n s now due period := by
  obtain ⟨svc, hsvc, hholds⟩ := h
  rw [Kept, renew_service?]
  split
  · exact ⟨svc.renewed now, by rw [hsvc]; rfl, hholds.renewed hdue⟩
  · exact ⟨svc, hsvc, hholds⟩

theorem renew_listed (h : Kept m n s now due period) {ids : List String} (hids : Renews m n ids s)
    (hdue : due' ≤ now + period) : Kept (m.renew (fun _ => now) n ids).mem n s now due' period := by
  obtain ⟨svc, hsvc, hholds⟩ := h
  refine ⟨svc.renewed now, ?_, hholds.renewed hdue⟩
  rw [renew_service?, if_pos ⟨rfl, hids⟩, hsvc]
  rfl

theorem gc (h : Kept m n s now due period) (hdue : now ≤ due) (order : GcOrder) :
    Kept (m.gc (fun _ => now) order).mem n s now due period := by
  obtain ⟨old, hold, hholds⟩ := h
  have hlease := hholds.passing hdue m.opts
  obtain ⟨svc, hsvc, hdefn⟩ := gc_keeps (fun _ => now) order hold (by rw [hlease])
  obtain ⟨old', hold', -, hun⟩ := gc_service? hsvc
  obtain rfl := Option.some.inj (hold.symm.trans hold')
  have hfailed : svc.unstamped.failed = old.failed := by rw [hun]
  refine ⟨svc, hsvc, hfailed.trans hholds.alive, ?_, ?_, ?_⟩ <;> rw [hdefn]
  · exact hholds.seen
  · exact hholds.covers
  · exact hholds.granted

theorem deregisterService (h : Kept m n s now due period) {s' : String} (hs : s' ≠ s) :
    Kept (m.deregisterService n s').mem n s now due period := by
  refine h.same ?_
  rw [deregisterService_service?, if_neg fun hk => hs hk.2]

theorem exec (h : Kept m n s now due period) {c : Call} (hc : c.target = some n') (hn : n ≠ n') :
    Kept (c.exec m).1 n s now due period :=
  h.same (exec_service?_frame hc hn m s)

theorem merge (h : Kept m n s now due period) {es : List ServiceEntry} (clk : Nat → Time)
    (hes : ∀ e ∈ es, e.node.id = n → e.service.id = s → ¬ Leads m e) :
    Kept (m.merge clk es).mem n s now due period :=
  h.same (merge_service?_of_not_leads clk hes)

end Kept

end YellowPages.Store
