import YellowPages.SeedClient.Lookup
import YellowPages.Store.Definitions

/-!
# Seeds that pull from each other

`internal/membership/syncer.go`. A seed asks its peers for everything they hold and merges the
answers. Answers can arrive late, more than once and from anywhere in a cycle of seeds.
-/

namespace YellowPages.Membership

open Store SeedClient Wire

/-! ## The cluster -/

/-- The seeds, and every answer to a pull that was ever on its way. -/
structure Cluster (k : Nat) where
  seeds : Fin k → Memory
  snapshots : List Answer := []

inductive Action (k : Nat) where
  /-- A call on one seed, of any kind but Merge. -/
  | call (i : Fin k) (c : Call) (hlocal : c.isMerge = false)
  | snapshot (i : Fin k) (addr : String) (now : Time)
  /-- `syncOnce`, with the answers that reached it. -/
  | sync (i : Fin k) (clk : Nat → Time) (arrived : List Nat)

variable {k : Nat}

def Brings (n s : String) (t : Time) (a : Answer) : Prop :=
  ∃ e ∈ received a, e.node.id = n ∧ e.service.id = s ∧ e.service.lastSeen = t

def unavailable : Answer := { addr := "", reply := .error "unavailable" }

namespace Cluster

def start (opts : Fin k → Options) : Cluster k := { seeds := fun i => newMemory (opts i) }

def syncOnce (m : Memory) (clk : Nat → Time) (answers : List Answer) : Memory :=
  match lookup answers with
  | .error _ => m
  | .ok res => (m.merge clk res.entries).mem

variable (c : Cluster k)

def step : Action k → Cluster k
  | .call i call _ => { c with seeds := Function.update c.seeds i (call.exec (c.seeds i)).1 }
  | .snapshot i addr now => { c with snapshots := c.snapshots ++ [answer addr (c.seeds i) now {}] }
  | .sync i clk arrived =>
    let answers := arrived.map fun j => (c.snapshots[j]?).getD unavailable
    { c with seeds := Function.update c.seeds i (syncOnce (c.seeds i) clk answers) }

def run (actions : List (Action k)) : Cluster k := actions.foldl step c

/-- Some seed or some snapshot has service `s` of node `n`, last seen at `t`. -/
def Held (n s : String) (t : Time) : Prop :=
  (∃ i, SeenAt (c.seeds i) n s t) ∨ ∃ a ∈ c.snapshots, Brings n s t a

theorem not_held_start (opts : Fin k → Options) (n s : String) (t : Time) :
    ¬ (start opts).Held n s t := by
  rintro (⟨i, svc, hsvc, -⟩ | ⟨a, ha, -⟩)
  · simp [start, newMemory, Memory.service?] at hsvc
  · cases ha

end Cluster

def Action.Stamps (n s : String) (t : Time) : Action k → Prop
  | .call _ c _ => c.Stamps n s t
  | _ => False

/-- An instant that survives the wire: an int64 of nanoseconds other than 0. -/
def Representable (t : Int) : Prop := -2 ^ 63 ≤ t ∧ t < 2 ^ 63 ∧ t ≠ 0

instance (t : Int) : Decidable (Representable t) := inferInstanceAs (Decidable (_ ∧ _))

def Action.Clocked : Action k → Prop
  | .call _ (.register clk _) _ | .call _ (.renew clk _ _) _ => Representable (clk 0)
  | _ => True

theorem overWire_lastSeen {t : Time} (h : Representable t) : fromUnixNano (toUnixNano t) = t := by
  obtain ⟨hlo, hhi, hne⟩ := h
  have hzero : t ≠ zeroTime := by
    intro heq
    rw [heq] at hlo
    exact absurd hlo (by decide)
  have hbmod : Int.bmod t (2 ^ 64) = t := Int.bmod_eq_of_le (by omega) (by omega)
  rw [toUnixNano, if_neg hzero, hbmod, fromUnixNano, if_neg hne]

theorem Action.Clocked.stamps {a : Action k} (h : a.Clocked) {n s : String} {t : Time}
    (hs : a.Stamps n s t) :
    Representable t := by
  cases a with
  | call i c hlocal =>
    cases c with
    | register clk reg => exact hs.1 ▸ h
    | renew clk n' ids => exact hs.1 ▸ h
    | _ => exact hs.elim
  | snapshot i addr now => exact hs.elim
  | sync i clk arrived => exact hs.elim

/-! ## One step -/

structure Cluster.Sound (c : Cluster k) : Prop where
  filed : ∀ i, Filed (c.seeds i)
  representable : ∀ n s t, c.Held n s t → Representable t

theorem syncOnce_seen {m : Memory} {clk : Nat → Time} {answers : List Answer} {n s : String}
    {t : Time} (h : SeenAt (Cluster.syncOnce m clk answers) n s t) :
    SeenAt m n s t ∨ ∃ a ∈ answers, Brings n s t a := by
  unfold Cluster.syncOnce at h
  split at h
  · exact Or.inl h
  · rename_i res hres
    rcases merge_seen h with hold | ⟨e, he, hkey⟩
    · exact Or.inl hold
    · -- The winners of the read merge are among the entries that arrived.
      have hentries := lookup_entries answers
      rw [hres] at hentries
      split at hentries
      · cases hentries
      · rw [Option.some.inj hentries] at he
        have harrived := Lib.mem_of_mem_mergeBy Health.winsLWW_rank _ e he
        obtain ⟨a, ha, hea⟩ := List.mem_flatMap.mp harrived
        exact Or.inr ⟨a, ha, e, hea, hkey⟩

theorem not_brings_unavailable (n s : String) (t : Time) : ¬ Brings n s t unavailable := by
  rintro ⟨e, he, -⟩
  cases he

namespace Cluster

variable {c : Cluster k}

theorem snapshot_brings (h : c.Sound) {i : Fin k} {addr : String} {now : Time} {n s : String} {t : Time}
    (hb : Brings n s t (answer addr (c.seeds i) now {})) : SeenAt (c.seeds i) n s t := by
  obtain ⟨e, he, rfl, rfl, rfl⟩ := hb
  obtain ⟨svc, ttl, hsvc, hservice⟩ := mem_received (h.filed i) he
  have hseen : SeenAt (c.seeds i) e.node.id e.service.id svc.defn.lastSeen := ⟨svc, hsvc, rfl⟩
  have ht : e.service.lastSeen = svc.defn.lastSeen := by
    rw [hservice]
    exact overWire_lastSeen (h.representable _ _ _ (Or.inl ⟨i, hseen⟩))
  rw [ht]
  exact hseen

theorem held_update {i : Fin k} {m : Memory} {n s : String} {t : Time}
    (h : Held { c with seeds := Function.update c.seeds i m } n s t) :
    SeenAt m n s t ∨ c.Held n s t := by
  rcases h with ⟨j, hj⟩ | hsnap
  · dsimp only at hj
    by_cases hi : j = i
    · subst hi
      rw [Function.update_self] at hj
      exact Or.inl hj
    · rw [Function.update_of_ne hi] at hj
      exact Or.inr (Or.inl ⟨j, hj⟩)
  · exact Or.inr (Or.inr hsnap)

theorem Sound.held_step (h : c.Sound) (a : Action k) {n s : String} {t : Time}
    (hheld : (c.step a).Held n s t) : c.Held n s t ∨ a.Stamps n s t := by
  cases a with
  | call i call hlocal =>
    rcases held_update hheld with hnew | hold
    · exact (exec_seen hlocal hnew).imp_left fun hold => Or.inl ⟨i, hold⟩
    · exact Or.inl hold
  | snapshot i addr now =>
    rcases hheld with hseed | ⟨a, ha, hb⟩
    · exact Or.inl (Or.inl hseed)
    · rcases List.mem_append.mp ha with ha | ha
      · exact Or.inl (Or.inr ⟨a, ha, hb⟩)
      · rw [List.mem_singleton.mp ha] at hb
        exact Or.inl (Or.inl ⟨i, snapshot_brings h hb⟩)
  | sync i clk arrived =>
    left
    rcases held_update hheld with hnew | hold
    · rcases syncOnce_seen hnew with hold | ⟨a, ha, hb⟩
      · exact Or.inl ⟨i, hold⟩
      · obtain ⟨x, -, rfl⟩ := List.mem_map.mp ha
        cases hx : c.snapshots[x]? with
        | none =>
          rw [hx] at hb
          exact absurd hb (not_brings_unavailable n s t)
        | some a =>
          rw [hx] at hb
          exact Or.inr ⟨a, List.mem_of_getElem? hx, hb⟩
    · exact hold

theorem syncOnce_filed {m : Memory} (h : Filed m) (clk : Nat → Time) (answers : List Answer) :
    Filed (syncOnce m clk answers) := by
  unfold syncOnce
  split
  · exact h
  · exact h.exec (.merge clk _)

theorem Sound.step (h : c.Sound) {a : Action k} (ha : a.Clocked) : (c.step a).Sound where
  filed := by
    have hupdate : ∀ i m, Filed m → ∀ j, Filed (Function.update c.seeds i m j) := fun i m hm =>
      (Function.forall_update_iff c.seeds fun _ m => Filed m).mpr ⟨hm, fun j _ => h.filed j⟩
    cases a with
    | call i call hlocal => exact hupdate i _ ((h.filed i).exec call)
    | snapshot i addr now => exact h.filed
    | sync i clk arrived => exact hupdate i _ (syncOnce_filed (h.filed i) clk _)
  representable := by
    intro n s t hheld
    rcases h.held_step a hheld with hold | hstamps
    · exact h.representable n s t hold
    · exact ha.stamps hstamps

theorem Sound.start (opts : Fin k → Options) : (start opts).Sound where
  filed := fun i => Filed.newMemory (opts i)
  representable := by
    intro n s t hheld
    exact absurd hheld (not_held_start opts n s t)

/-! ## Whole runs -/

theorem Sound.run (h : c.Sound) {actions : List (Action k)} (ha : ∀ a ∈ actions, a.Clocked) :
    (c.run actions).Sound := by
  induction actions generalizing c with
  | nil => exact h
  | cons a rest ih =>
    rw [List.forall_mem_cons] at ha
    exact ih (h.step ha.1) ha.2

theorem Sound.held_run (h : c.Sound) {actions : List (Action k)} (ha : ∀ a ∈ actions, a.Clocked)
    {n s : String} {t : Time} (hheld : (c.run actions).Held n s t) :
    c.Held n s t ∨ ∃ a ∈ actions, a.Stamps n s t := by
  induction actions generalizing c with
  | nil => exact Or.inl hheld
  | cons a rest ih =>
    rw [List.forall_mem_cons] at ha
    rcases ih (h.step ha.1) ha.2 hheld with hmid | ⟨a', ha', hstamps⟩
    · rcases h.held_step a hmid with hold | hstamps
      · exact Or.inl hold
      · exact Or.inr ⟨a, List.mem_cons_self, hstamps⟩
    · exact Or.inr ⟨a', List.mem_cons_of_mem _ ha', hstamps⟩

end Cluster

/-- Every stored lease time was read by a Register or Renew that covers the service, and once there
are no more of these, everything still held was held before. -/
theorem lease_time_provenance (opts : Fin k → Options) (actions : List (Action k))
    (hclocks : ∀ a ∈ actions, a.Clocked) :
    (∀ i n s svc, (((Cluster.start opts).run actions).seeds i).service? n s = some svc →
        ∃ a ∈ actions, a.Stamps n s svc.defn.lastSeen) ∧
      ∀ before after, actions = before ++ after → ∀ n s, (∀ a ∈ after, ∀ t, ¬ a.Stamps n s t) →
        ∀ t, ((Cluster.start opts).run actions).Held n s t →
          ((Cluster.start opts).run before).Held n s t := by
  have hstart := Cluster.Sound.start opts
  constructor
  · intro i n s svc hsvc
    have hheld : ((Cluster.start opts).run actions).Held n s svc.defn.lastSeen :=
      Or.inl ⟨i, svc, hsvc, rfl⟩
    exact (hstart.held_run hclocks hheld).resolve_left (Cluster.not_held_start opts n s _)
  · rintro before after rfl n s hquiet t hheld
    rw [List.forall_mem_append] at hclocks
    have hrun :
        (Cluster.start opts).run (before ++ after) = ((Cluster.start opts).run before).run after :=
      List.foldl_append
    rw [hrun] at hheld
    rcases (hstart.run hclocks.1).held_run hclocks.2 hheld with hmid | ⟨a, ha, hstamps⟩
    · exact hmid
    · exact absurd hstamps (hquiet a ha t)

/-- Of three seeds, a service is registered on seed 0, pulled and deregistered there, and comes up on
seed 1. -/
def lateSnapshot : List (Action 3) :=
  [.call 0 (.register (fun _ => second) (single { id := "n" } { id := "s", name := "web" } 0)) rfl,
    .snapshot 0 "seed-0" (2 * second), .call 0 (.deregister Lib.RangeOrder.asStored "n") rfl,
    .sync 1 (fun _ => 3 * second) [0]]

theorem lateSnapshot_clocked : ∀ a ∈ lateSnapshot, a.Clocked := by
  simp only [lateSnapshot, List.forall_mem_cons, Action.Clocked, List.not_mem_nil, false_imp_iff,
    implies_true, and_true]
  decide

theorem lease_time_provenance_late :
    ∃ svc, (((Cluster.start fun _ => {}).run lateSnapshot).seeds 1).service? "n" "s" = some svc ∧
      ∃ a ∈ lateSnapshot, a.Stamps "n" "s" svc.defn.lastSeen := by
  have hstored :
      ((((Cluster.start fun _ => {}).run lateSnapshot).seeds 1).service? "n" "s").isSome := by
    decide
  obtain ⟨svc, hsvc⟩ := Option.isSome_iff_exists.mp hstored
  exact ⟨svc, hsvc,
    (lease_time_provenance _ lateSnapshot lateSnapshot_clocked).1 1 "n" "s" svc hsvc⟩

end YellowPages.Membership
