import YellowPages.Store.Isolation
import YellowPages.Store.Refines

/-!
# Services that fall silent

A service that no call is about any more. Other services come and go beside it, also on its node, and
the sweeps of `internal/store/gcloop.go` go on. What a lookup shows of it runs down with the clock.
-/

namespace YellowPages.Store

/-! ## Running down -/

/-- What is shown of a slot at `t`: passing up to its TTL, critical up to the end of the grace window,
and then nothing. A failed one stays critical. -/
def Slot.shownAt (o : Options) (v : Slot) (t : Time) :
    Option (ServiceInstance × HealthState × Bool) :=
  let age := timeSub t v.defn.lastSeen
  if v.failed then some (v.defn, .critical, v.maintenance)
  else if age ≤ v.defn.ttl then some (v.defn, .passing, v.maintenance)
  else if age ≤ durAdd v.defn.ttl o.gracePeriod then some (v.defn, .critical, v.maintenance)
  else none

theorem shownAt_slot (o : Options) (svc : ServiceRec) (t : Time) :
    svc.slot.shownAt o t =
      if (o.lease svc t).2 then none else some (svc.defn, (o.lease svc t).1, svc.maintenance) := by
  unfold Slot.shownAt Options.lease ServiceRec.slot
  dsimp only
  split
  · simp
  · split
    · simp
    · split <;> simp

/-! ## Silence -/

/-- The call is not about the service, or it is a sweep no later than `t`. -/
def Call.SilentOn (c : Call) (n s : String) (t : Time) : Prop :=
  match c with
  | .gc clk _ => clk 0 ≤ t
  | c => ¬ c.Addresses n s

/-- The record has kept its slot, or its lease is over and a sweep took it. -/
def Rests (o : Options) (v : Slot) (t : Time) (m : Memory) (n s : String) : Prop :=
  m.opts = o ∧ ((m.service? n s).map ServiceRec.slot = some v ∨
    m.service? n s = none ∧ (o.lease v.toRec t).2 = true)

variable {o : Options} {v : Slot} {t : Time} {m : Memory} {n s : String}

theorem Rests.gc (h : Rests o v t m n s) {clk : Nat → Time} (order : GcOrder) (hclk : clk 0 ≤ t) :
    Rests o v t (m.gc clk order).mem n s := by
  obtain ⟨hopts, hslot⟩ := h
  refine ⟨(exec_opts (.gc clk order) m).trans hopts, ?_⟩
  have hgc := Refines.gc_slot? m clk order n s
  rcases hslot with hslot | ⟨hnone, hover⟩
  · rw [hslot, Option.filter_some, hopts] at hgc
    cases hlease : (o.lease v.toRec (clk 0)).2 with
    | false => exact Or.inl (hgc.trans (by simp [hlease]))
    | true =>
      refine Or.inr ⟨?_, lease_expired_mono o v.toRec hclk hlease⟩
      simpa [hlease] using hgc
  · rw [hnone] at hgc
    exact Or.inr ⟨by simpa using hgc, hover⟩

theorem Rests.exec (h : Rests o v t m n s) {c : Call} (hc : c.SilentOn n s t) :
    Rests o v t (c.exec m).1 n s := by
  have hframe : ¬ c.Addresses n s → Rests o v t (c.exec m).1 n s := by
    intro hc
    refine ⟨(exec_opts c m).trans h.1, ?_⟩
    rw [exec_unaddressed c hc]
    exact h.2
  cases c with
  | gc clk order => exact h.gc order hc
  | _ => exact hframe hc

theorem Rests.run (h : Rests o v t m n s) {calls : List Call}
    (hcalls : ∀ c ∈ calls, c.SilentOn n s t) :
    Rests o v t (m.run calls).1 n s := by
  induction calls generalizing m with
  | nil => exact h
  | cons c rest ih =>
    exact ih (h.exec (hcalls c List.mem_cons_self)) fun d hd => hcalls d (List.mem_cons_of_mem c hd)

/-- A lookup shows of it what the slot shows. -/
theorem Rests.shown (h : Rests o v t m n s) (hfiled : Filed m)
    (x : ServiceInstance × HealthState × Bool) :
    (∃ e ∈ (m.lookup t {}).entries, e.node.id = n ∧ e.service.id = s ∧
      (e.service, e.health, e.maintenance) = x) ↔
      v.shownAt o t = some x := by
  obtain ⟨rfl, hslot⟩ := h
  rcases hslot with hslot | ⟨hnone, hover⟩
  · obtain ⟨svc, hsvc, rfl⟩ := Option.map_eq_some_iff.mp hslot
    rw [shownAt_slot]
    constructor
    · rintro ⟨e, he, rfl, rfl, rfl⟩
      obtain ⟨-, svc', -, hsvc', hlive, heq⟩ := (mem_lookup_stored t {} hfiled e).mp he
      obtain rfl := Option.some.inj (hsvc.symm.trans hsvc')
      rw [if_neg (by simp [hlive]), heq]
      rfl
    · intro hx
      obtain ⟨hlive, hx⟩ := Option.ite_none_left_eq_some.mp hx
      obtain ⟨r, hr, -⟩ := Memory.service?_eq_some.mp hsvc
      have hnode := Memory.node?_of_node hr
      have hn : r.nodeMeta.id = n := hfiled.node_id n _ hnode
      have hs : svc.defn.id = s := hfiled.service_id n s svc hsvc
      refine ⟨entry r.nodeMeta svc (m.opts.lease svc t).1, ?_, hn, hs, Option.some.inj hx⟩
      refine (mem_lookup_stored t {} hfiled _).mpr ⟨by simp [Selects], svc, ?_, ?_,
        by simpa using hlive, rfl⟩
      · simpa only [entry, hn] using hnode
      · simpa only [entry, hn, hs] using hsvc
  · have hgone : v.shownAt m.opts t = none := (shownAt_slot m.opts v.toRec t).trans (if_pos hover)
    rw [hgone]
    simp only [reduceCtorEq, iff_false]
    rintro ⟨e, he, rfl, rfl, -⟩
    obtain ⟨-, svc, -, hsvc, -⟩ := (mem_lookup_stored t {} hfiled e).mp he
    rw [hnone] at hsvc
    cases hsvc

/-! ## Gone for good -/

theorem absent_exec (h : m.service? n s = none) {c : Call} (hc : c.SilentOn n s t) :
    (c.exec m).1.service? n s = none := by
  cases c with
  | gc clk order =>
    have hgc := Refines.gc_slot? m clk order n s
    rw [h] at hgc
    exact Option.map_eq_none_iff.mp hgc
  | _ => exact (exec_unaddressed _ hc).trans h

theorem absent_run (h : m.service? n s = none) {calls : List Call}
    (hcalls : ∀ c ∈ calls, c.SilentOn n s t) :
    (m.run calls).1.service? n s = none := by
  induction calls generalizing m with
  | nil => exact h
  | cons c rest ih =>
    exact ih (absent_exec h (hcalls c List.mem_cons_self)) fun d hd =>
      hcalls d (List.mem_cons_of_mem c hd)

/-- A sweep after the end of the lease takes the record. -/
theorem Rests.swept (h : Rests o v t m n s) {clk : Nat → Time} (order : GcOrder)
    (hover : (o.lease v.toRec (clk 0)).2 = true) : (m.gc clk order).mem.service? n s = none := by
  obtain ⟨rfl, hslot⟩ := h
  have hgc := Refines.gc_slot? m clk order n s
  rcases hslot with hslot | ⟨hnone, -⟩
  · rw [hslot, Option.filter_some, hover] at hgc
    exact Option.map_eq_none_iff.mp hgc
  · rw [hnone] at hgc
    exact Option.map_eq_none_iff.mp hgc

/-- What a lookup shows of a service that fell silent is fixed by its last record and the clock,
whatever else happens: passing, then critical, then nothing, and the first sweep after that frees the
record. One with a failed check is critical for good. -/
theorem silent_service_decays (opts : Options) (calls later : List Call) (n s : String)
    (svc : ServiceRec) (hsvc : ((newMemory opts).run calls).1.service? n s = some svc) (t : Time)
    (hsilent : ∀ c ∈ later, c.SilentOn n s t) :
    let m := ((newMemory opts).run (calls ++ later)).1
    (∀ x, (∃ e ∈ (m.lookup t {}).entries, e.node.id = n ∧ e.service.id = s ∧
        (e.service, e.health, e.maintenance) = x) ↔ svc.slot.shownAt m.opts t = some x) ∧
      ∀ first clk order rest, later = first ++ .gc clk order :: rest →
        svc.slot.shownAt m.opts (clk 0) = none →
        m.service? n s = none := by
  intro m
  have hrun : m = (((newMemory opts).run calls).1.run later).1 := by
    simp only [m, run_append]
  have hrests :
      Rests ((newMemory opts).run calls).1.opts svc.slot t ((newMemory opts).run calls).1 n s :=
    ⟨rfl, Or.inl (by rw [hsvc]; rfl)⟩
  have hlast := hrests.run hsilent
  rw [← hrun] at hlast
  rw [hlast.1]
  refine ⟨fun x => hlast.shown (Filed.run opts _) x, fun first clk order rest hlater hgone => ?_⟩
  have hover : (((newMemory opts).run calls).1.opts.lease svc.slot.toRec (clk 0)).2 = true := by
    rw [shownAt_slot] at hgone
    simpa [Refines.lease_slot] using hgone
  have hfirst : ∀ c ∈ first, c.SilentOn n s t := fun c hc => hsilent c (by simp [hlater, hc])
  have hrest : ∀ c ∈ rest, c.SilentOn n s t := fun c hc => hsilent c (by simp [hlater, hc])
  rw [hrun, hlater, run_append]
  exact absent_run ((hrests.run hfirst).swept order hover) hrest

/-- Two services of one node have ten seconds, and the node says no more of the first. -/
theorem silent_service_decays_web :
    let web (id : String) := single { id := "n1" } { id := id, name := "web", ttl := 10 * second } 1
    let calls : List Call := [.register (fun _ => 0) (web "a"), .register (fun _ => 0) (web "b")]
    let later : List Call := [.register (fun _ => 20 * second) (web "b"), .gc (fun _ => 25 * second) {}]
    let m := ((newMemory { gracePeriod := 10 * second }).run (calls ++ later)).1
    (∀ e ∈ (m.lookup (25 * second) {}).entries, e.node.id = "n1" → e.service.id ≠ "a") ∧
      m.service? "n1" "a" = none := by
  intro web calls later m
  have hshown : (((newMemory { gracePeriod := 10 * second }).run calls).1.service? "n1" "a").map
      (fun svc => svc.slot.shownAt m.opts (25 * second)) = some none := by
    decide +kernel
  obtain ⟨svc, hsvc, hgone⟩ := Option.map_eq_some_iff.mp hshown
  have hsilent : ∀ c ∈ later, c.SilentOn "n1" "a" (25 * second) := by
    intro c hc
    rcases List.mem_cons.mp hc with rfl | hc
    · rintro ⟨-, i, hi, hid⟩
      obtain rfl := List.mem_singleton.mp hi
      exact absurd hid (by decide)
    · obtain rfl := List.mem_singleton.mp hc
      exact le_refl _
  obtain ⟨hshows, hfreed⟩ :=
    silent_service_decays _ calls later "n1" "a" svc hsvc (25 * second) hsilent
  refine ⟨fun e he hn hs => ?_, hfreed [_] _ _ [] rfl hgone⟩
  have hentry := (hshows _).mp ⟨e, he, hn, hs, rfl⟩
  rw [hgone] at hentry
  cases hentry

end YellowPages.Store
