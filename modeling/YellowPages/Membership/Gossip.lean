import YellowPages.Membership.Exchange
import YellowPages.Store.Sweep
import YellowPages.Lib.Gossip

/-!
# Any number of seeds

Once the calls stop, only pulls go on: snapshots are taken, and they arrive late, more than once or
not at all. In the ranks of what the seeds hold this is gossip in a semilattice.
-/

namespace YellowPages.Membership

open Store SeedClient Wire Lib

/-! ## Levels -/

/-- The rank a seed holds for each (node, service), with a bottom for what it does not hold. -/
def level (m : Memory) (key : String × String) : WithBot (Nat ×ₗ Int) :=
  (rankOf m key.1 key.2).elim ⊥ WithBot.some

/-- The highest rank that the entries bring for each (node, service). -/
def brought (es : List ServiceEntry) (key : String × String) : WithBot (Nat ×ₗ Int) :=
  (es.filter fun e => Valid e ∧ (e.node.id, e.service.id) = key).toFinset.sup fun e =>
    (e.service.rank : WithBot _)

theorem level_le_iff {m : Memory} {key : String × String} {x : WithBot (Nat ×ₗ Int)} :
    level m key ≤ x ↔ ∀ r, rankOf m key.1 key.2 = some r → (r : WithBot _) ≤ x := by
  unfold level
  cases rankOf m key.1 key.2 <;> simp

theorem level_eq_iff {m m' : Memory} (n s : String) :
    level m (n, s) = level m' (n, s) ↔ rankOf m n s = rankOf m' n s := by
  unfold level
  cases rankOf m n s <;> cases rankOf m' n s <;> simp

theorem brought_le_iff {es : List ServiceEntry} {key : String × String} {x : WithBot (Nat ×ₗ Int)} :
    brought es key ≤ x ↔
      ∀ e ∈ es, Valid e → (e.node.id, e.service.id) = key → (e.service.rank : WithBot _) ≤ x := by
  simp only [brought, Finset.sup_le_iff, List.mem_toFinset, List.mem_filter, decide_eq_true_eq, and_imp]

theorem brought_mergeLWW (es : List ServiceEntry) : brought (Health.mergeLWW es) = brought es := by
  funext key
  refine eq_of_forall_ge_iff fun x => ?_
  rw [brought_le_iff, brought_le_iff]
  constructor
  · intro h e he hvalid hkey
    obtain ⟨w, hwkey, hw⟩ := exists_winner ServiceEntry.key Health.rank es e he
    have hids : (w.node.id, w.service.id) = (e.node.id, e.service.id) := toLex_inj.mp hwkey
    obtain ⟨hn, hs⟩ := Prod.mk.inj hids
    have hwvalid : Valid w := by rw [Valid, hn, hs]; exact hvalid
    have hle : e.service.rank ≤ w.service.rank :=
      hw.le e ((mem_versions _ es _ e).mpr ⟨he, hwkey.symm⟩)
    exact (WithBot.coe_le_coe.mpr hle).trans
      (h w ((Health.mem_mergeLWW es w).mpr hw) hwvalid (hids.trans hkey))
  · intro h e he
    exact h e (mem_of_mem_mergeBy Health.winsLWW_rank es e he)

theorem level_merge {m : Memory} (h : Exchanges m) (clk : Nat → Time) (es : List ServiceEntry) :
    level (m.merge clk es).mem = level m ⊔ brought es := by
  funext key
  refine eq_of_forall_ge_iff fun x => ?_
  rw [Pi.sup_apply, sup_le_iff, level_le_iff, level_le_iff, brought_le_iff]
  have hranks : (∀ r, rankOf (m.merge clk es).mem key.1 key.2 = some r → (r : WithBot _) ≤ x) ↔
      ∀ r ∈ ranks m es key.1 key.2, (r : WithBot _) ≤ x := by
    constructor
    · intro hx r hr
      obtain ⟨r', hr'⟩ := rankOf_merge_of_mem h clk hr
      exact (WithBot.coe_le_coe.mpr (((rankOf_merge h clk).mp hr').2 hr)).trans (hx r' hr')
    · intro hx r hr
      exact hx r ((rankOf_merge h clk).mp hr).1
  rw [hranks]
  constructor
  · intro hx
    refine ⟨fun r hr => hx r (Or.inl hr), ?_⟩
    rintro e he hvalid rfl
    exact hx _ (Or.inr ⟨e, he, hvalid, rfl, rfl, rfl⟩)
  · rintro ⟨hold, hnew⟩ r (hr | ⟨e, he, hvalid, hn, hs, rfl⟩)
    · exact hold r hr
    · exact hnew e he hvalid (by rw [hn, hs])

theorem brought_pulled {m : Memory} (h : Exchanges m) {now : Time} (hlive : Live m now) :
    brought (pulled m now) = level m := by
  funext key
  refine eq_of_forall_ge_iff fun x => ?_
  rw [brought_le_iff, level_le_iff]
  constructor
  · intro hx r hr
    obtain ⟨svc, hsvc, rfl⟩ := rankOf_eq_some.mp hr
    obtain ⟨e, he, hvalid, hn, hs, hrank⟩ := exists_pulled h hsvc (hlive _ _ svc hsvc)
    rw [← hrank]
    exact hx e he hvalid (by rw [hn, hs])
  · rintro hx e he - rfl
    exact hx _ (pulled_rank h he)

/-! ## Pulls -/

theorem live_iff_expired (m : Memory) (now : Time) : Live m now ↔ m.expired now = ∅ := by
  simp only [Live, Finset.eq_empty_iff_forall_notMem, Prod.forall, Memory.mem_expired,
    not_exists, not_and,
    Bool.not_eq_true]

instance (m : Memory) (now : Time) : Decidable (Live m now) :=
  decidable_of_iff _ (live_iff_expired m now).symm

/-- What goes on when no calls are made. -/
inductive Pull (k : Nat) where
  | snapshot (i : Fin k) (addr : String) (now : Time)
  | sync (i : Fin k) (clk : Nat → Time) (arrived : List Nat)

variable {k : Nat}

namespace Pull

def action : Pull k → Action k
  | .snapshot i addr now => .snapshot i addr now
  | .sync i clk arrived => .sync i clk arrived

def move : Pull k → Gossip.Move (Fin k)
  | .snapshot i _ _ => .send i
  | .sync i _ arrived => .receive i arrived

theorem clocked (p : Pull k) : p.action.Clocked := by cases p <;> trivial

/-- A snapshot shows everything the seed holds. -/
def Complete (c : Cluster k) : Pull k → Prop
  | .snapshot i _ now => Live (c.seeds i) now
  | .sync .. => True

instance (c : Cluster k) : (p : Pull k) → Decidable (p.Complete c)
  | .snapshot i _ now => inferInstanceAs (Decidable (Live (c.seeds i) now))
  | .sync .. => inferInstanceAs (Decidable True)

end Pull

namespace Cluster

def pulls (c : Cluster k) (ps : List (Pull k)) : Cluster k := c.run (ps.map Pull.action)

/-- The cluster in the ranks its seeds and snapshots hold. -/
def gossip (c : Cluster k) : Gossip (Fin k) (String × String → WithBot (Nat ×ₗ Int)) :=
  ⟨fun i => level (c.seeds i), c.snapshots.map fun a => brought (received a)⟩

variable {c : Cluster k}

theorem message_gossip (c : Cluster k) (x : Nat) :
    c.gossip.message x = brought (received ((c.snapshots[x]?).getD unavailable)) := by
  simp only [Gossip.message, gossip, List.getElem?_map]
  cases c.snapshots[x]? <;> rfl

theorem syncOnce_merges (m : Memory) (clk : Nat → Time) (answers : List Answer) :
    syncOnce m clk answers = m ∧ answers.flatMap received = [] ∨
      syncOnce m clk answers = (m.merge clk (Health.mergeLWW (answers.flatMap received))).mem := by
  have hentries := lookup_entries answers
  unfold syncOnce
  generalize lookup answers = found at hentries ⊢
  split at hentries <;> rename_i hnone
  · cases found with
    | error err => exact Or.inl ⟨rfl, received_of_unanswered answers hnone⟩
    | ok res => cases hentries
  · cases found with
    | error err => cases hentries
    | ok res =>
      rw [← Option.some.inj hentries]
      exact Or.inr rfl

theorem level_syncOnce {m : Memory} (h : Exchanges m) (clk : Nat → Time) (answers : List Answer) :
    level (syncOnce m clk answers) = level m ⊔ brought (answers.flatMap received) := by
  rcases syncOnce_merges m clk answers with ⟨hsame, hnone⟩ | hmerged
  · rw [hsame, hnone]
    exact (sup_bot_eq _).symm
  · rw [hmerged, level_merge h clk, brought_mergeLWW]

theorem brought_arrived (c : Cluster k) (arrived : List Nat) :
    brought ((arrived.map fun x => (c.snapshots[x]?).getD unavailable).flatMap received) =
      arrived.toFinset.sup c.gossip.message := by
  funext key
  refine eq_of_forall_ge_iff fun x => ?_
  simp only [Finset.sup_apply, Finset.sup_le_iff, List.mem_toFinset, message_gossip, brought_le_iff,
    List.mem_flatMap,
    List.mem_map]
  constructor
  · intro h y hy e he
    exact h e ⟨_, ⟨y, hy, rfl⟩, he⟩
  · rintro h e ⟨_, ⟨y, hy, rfl⟩, he⟩
    exact h y hy e he

theorem gossip_step (h : ∀ i, Exchanges (c.seeds i)) {p : Pull k} (hp : p.Complete c) :
    (c.step p.action).gossip = c.gossip.step p.move := by
  cases p with
  | snapshot i addr now =>
    have hbrought : brought (received (answer addr (c.seeds i) now {})) = level (c.seeds i) := by
      rw [← brought_pulled (h i) hp, received_eq, pulled, received_eq]
    simp only [gossip, Cluster.step, Pull.action, Pull.move, Gossip.step, List.map_append,
      List.map_cons, hbrought,
      List.map_nil]
  | sync i clk arrived =>
    have hlevel := level_syncOnce (h i) clk (arrived.map fun x => (c.snapshots[x]?).getD unavailable)
    rw [brought_arrived] at hlevel
    refine congrArg (Gossip.mk · _) (funext fun j => ?_)
    rcases eq_or_ne j i with rfl | hne
    · simp only [Cluster.step, Pull.action, Function.update_self]
      exact hlevel
    · simp only [Cluster.step, Pull.action, Function.update_of_ne hne]
      rfl

/-! ## Clusters that calls lead to -/

theorem seeds_run (opts : Fin k → Options) (actions : List (Action k)) (i : Fin k) :
    ∃ calls, ((start opts).run actions).seeds i = ((newMemory (opts i)).run calls).1 := by
  have hcall : ∀ {m : Memory} (c : Call), (∃ calls, m = ((newMemory (opts i)).run calls).1) →
      ∃ calls, (c.exec m).1 = ((newMemory (opts i)).run calls).1 := by
    rintro m c ⟨calls, rfl⟩
    refine ⟨calls ++ [c], ?_⟩
    rw [run_append]
    rfl
  refine List.foldlRecOn actions step (b := start opts)
    (motive := fun c => ∃ calls, c.seeds i = ((newMemory (opts i)).run calls).1) ⟨[], rfl⟩ fun c
      hc a _ => ?_
  cases a with
  | call j call hlocal =>
    rcases eq_or_ne i j with rfl | hne
    · simp only [step, Function.update_self]
      exact hcall call hc
    · simp only [step, Function.update_of_ne hne]
      exact hc
  | snapshot j addr now => exact hc
  | sync j clk arrived =>
    rcases eq_or_ne i j with rfl | hne
    · simp only [step, Function.update_self]
      rcases syncOnce_merges (c.seeds i) clk
        (arrived.map fun x => (c.snapshots[x]?).getD unavailable) with
        ⟨hsame, -⟩ | hmerged
      · rw [hsame]
        exact hc
      · rw [hmerged]
        exact hcall (.merge clk _) hc
    · simp only [step, Function.update_of_ne hne]
      exact hc

theorem exchanges_run {opts : Fin k → Options} (hroom : ∀ i, (opts i).maxServices ≤ 0)
    {actions : List (Action k)} (hclocks : ∀ a ∈ actions, a.Clocked) (i : Fin k) :
    Exchanges (((start opts).run actions).seeds i) := by
  have hsound := (Sound.start opts).run hclocks
  obtain ⟨calls, hcalls⟩ := seeds_run opts actions i
  refine ⟨hsound.filed i, fun n s svc hsvc => ?_, fun n s svc hsvc => ?_, fun size => ?_⟩
  · rw [hcalls] at hsvc
    exact reachable_ids ⟨opts i, calls, rfl⟩ hsvc
  · exact overWire_lastSeen (hsound.representable n s _ (Or.inl ⟨i, svc, hsvc, rfl⟩))
  · have hempty : Exchanges ((newMemory (opts i)).run []).1 := Exchanges.run (hroom i) (by simp)
    rw [hcalls, steps_opts (run_steps calls (newMemory (opts i)))]
    exact hempty.room size

theorem exchanges_pulls {opts : Fin k → Options} (hroom : ∀ i, (opts i).maxServices ≤ 0)
    {actions : List (Action k)} (hclocks : ∀ a ∈ actions, a.Clocked) (ps : List (Pull k))
    (i : Fin k) :
    Exchanges ((((start opts).run actions).pulls ps).seeds i) := by
  have hrun : ((start opts).run actions).pulls ps = (start opts).run (actions ++ ps.map Pull.action) :=
    List.foldl_append.symm
  rw [hrun]
  refine exchanges_run hroom (List.forall_mem_append.mpr ⟨hclocks, ?_⟩) i
  intro a ha
  obtain ⟨p, -, rfl⟩ := List.mem_map.mp ha
  exact p.clocked

theorem gossip_pulls {opts : Fin k → Options} (hroom : ∀ i, (opts i).maxServices ≤ 0)
    (ps : List (Pull k)) {actions : List (Action k)} (hclocks : ∀ a ∈ actions, a.Clocked)
    (hcomplete : Throughout (fun c p => c.step p.action) (fun c p => p.Complete c)
      ((start opts).run actions) ps) :
    (((start opts).run actions).pulls ps).gossip = ((start opts).run actions).gossip.run
      (ps.map Pull.move) := by
  induction ps generalizing actions with
  | nil => rfl
  | cons p rest ih =>
    have hnext : (start opts).run (actions ++ [p.action]) = ((start opts).run actions).step p.action :=
      List.foldl_append
    have hclocks' : ∀ a ∈ actions ++ [p.action], a.Clocked := by
      simp only [List.forall_mem_append, List.forall_mem_singleton]
      exact ⟨hclocks, p.clocked⟩
    have hstep := gossip_step (exchanges_run hroom hclocks) hcomplete.1
    have hrest := ih hclocks' (by rw [hnext]; exact hcomplete.2)
    rw [hnext, hstep] at hrest
    exact hrest

theorem level_pulls {opts : Fin k → Options} (hroom : ∀ i, (opts i).maxServices ≤ 0)
    {actions : List (Action k)} (hclocks : ∀ a ∈ actions, a.Clocked) {ps : List (Pull k)}
    (hcomplete : Throughout (fun c p => c.step p.action) (fun c p => p.Complete c)
      ((start opts).run actions) ps) (i : Fin k) :
    level ((((start opts).run actions).pulls ps).seeds i) =
      (Gossip.heard ((start opts).run actions).snapshots.length (ps.map Pull.move) i).sup
        ((start opts).run actions).gossip.origin := by
  have hvalues := ((start opts).run actions).gossip.values_run (ps.map Pull.move) i
  rw [← gossip_pulls hroom ps hclocks hcomplete] at hvalues
  have hlength :
      ((start opts).run actions).gossip.sent.length = ((start opts).run actions).snapshots.length :=
    List.length_map _
  rw [hlength] at hvalues
  exact hvalues

end Cluster

theorem merge_pulled_zero_of_level {m peer : Memory} (hpeer : Exchanges peer)
    (h : level peer = level m) (now : Time) (clk : Nat → Time) :
    (m.merge clk (pulled peer now)).ret = 0 :=
  merge_pulled_zero hpeer (fun n s => (level_eq_iff n s).mp (congrFun h (n, s))) clk

/-- Seeds without a capacity limit, whose clocks read what the wire carries. Once the calls have
stopped, and while every snapshot shows all that its seed holds, what a seed holds is the join, by
(Generation, LastSeen), of what the seeds and the snapshots it has heard of held then, whatever
order the pulls come in and whichever of their answers are lost, late or repeated. Two seeds that
have heard of the same hold the same, and nothing passes between them any more. -/
theorem pulls_join (opts : Fin k → Options) (hroom : ∀ i, (opts i).maxServices ≤ 0)
    (actions : List (Action k)) (hclocks : ∀ a ∈ actions, a.Clocked) (ps : List (Pull k))
    (hcomplete : Throughout (fun c p => c.step p.action) (fun c p => p.Complete c)
      ((Cluster.start opts).run actions) ps) :
    let c := (Cluster.start opts).run actions
    let c' := c.pulls ps
    let heard := Gossip.heard c.snapshots.length (ps.map Pull.move)
    (∀ i key, level (c'.seeds i) key = (heard i).sup fun source => c.gossip.origin source key) ∧
      ∀ i j, heard i = heard j → (∀ n s, rankOf (c'.seeds i) n s = rankOf (c'.seeds j) n s) ∧
        ∀ later clk, ((c'.seeds i).merge clk (pulled (c'.seeds j) later)).ret = 0 := by
  intro c c' heard
  have hlevel := Cluster.level_pulls hroom hclocks hcomplete
  refine ⟨fun i key => by rw [hlevel, Finset.sup_apply], fun i j hheard => ?_⟩
  have hsame : level (c'.seeds i) = level (c'.seeds j) := by
    rw [hlevel, hlevel]
    exact congrArg (Finset.sup · _) hheard
  exact ⟨fun n s => (level_eq_iff n s).mp (congrFun hsame (n, s)),
    merge_pulled_zero_of_level (Cluster.exchanges_pulls hroom hclocks ps j) hsame.symm⟩

/-- The service of `lateSnapshot` goes from seed `j` through seed `l` to seed `i`. -/
def relayed (i j l : Fin k) : List (Pull k) :=
  [.snapshot i "seed-0" (3 * second), .snapshot j "seed-1" (3 * second),
    .sync l (fun _ => 3 * second) [2, 1, 2],
    .snapshot l "seed-2" (4 * second), .sync i (fun _ => 4 * second) [3]]

theorem pulls_join_relayed :
    let c := (Cluster.start fun _ => {}).run lateSnapshot
    let c' := c.pulls (relayed 0 1 2)
    rankOf (c.seeds 0) "n" "s" = none ∧ rankOf (c'.seeds 2) "n" "s" ≠ none ∧
      rankOf (c'.seeds 0) "n" "s" = rankOf (c'.seeds 2) "n" "s" := by
  have hjoin := pulls_join (fun _ => {}) (by decide) lateSnapshot lateSnapshot_clocked (relayed 0 1 2)
    (by decide +kernel)
  exact ⟨by decide +kernel, by decide +kernel, (hjoin.2 0 2 (by decide +kernel)).1 "n" "s"⟩

/-- Under the same conditions: when every seed has, since the calls stopped, taken in an answer of every
other seed made since then, and none from before, all seeds hold the same, which is for each service
the highest rank that any of them held. -/
theorem pulls_converge (opts : Fin k → Options) (hroom : ∀ i, (opts i).maxServices ≤ 0)
    (actions : List (Action k)) (hclocks : ∀ a ∈ actions, a.Clocked) (ps : List (Pull k))
    (hcomplete : Throughout (fun c p => c.step p.action) (fun c p => p.Complete c)
      ((Cluster.start opts).run actions) ps)
    (hfresh : Gossip.Fresh ((Cluster.start opts).run actions).snapshots.length (ps.map Pull.move))
    (hall : ∀ i j, i ≠ j →
      Gossip.Receives ((Cluster.start opts).run actions).snapshots.length (ps.map Pull.move) i j) :
    let c := (Cluster.start opts).run actions
    let c' := c.pulls ps
    (∀ i key, level (c'.seeds i) key = Finset.univ.sup fun j => level (c.seeds j) key) ∧
      ∀ i j later clk, ((c'.seeds i).merge clk (pulled (c'.seeds j) later)).ret = 0 := by
  intro c c'
  have hlevel : ∀ i, level (c'.seeds i) = Finset.univ.sup fun j => level (c.seeds j) := by
    intro i
    rw [Cluster.level_pulls hroom hclocks hcomplete, Gossip.heard_eq_of_receives hfresh hall,
      Finset.sup_image]
    rfl
  refine ⟨fun i key => by rw [hlevel, Finset.sup_apply], fun i j => ?_⟩
  exact merge_pulled_zero_of_level (Cluster.exchanges_pulls hroom hclocks ps j)
    ((hlevel j).trans (hlevel i).symm)

/-- Two seeds that learned of one service each, and pull from each other at the same time. -/
def crossing (i j : Fin k) : List (Pull k) :=
  [.snapshot i "seed-0" (2 * second), .snapshot j "seed-1" (2 * second),
    .sync i (fun _ => 3 * second) [1],
    .sync j (fun _ => 3 * second) [0]]

theorem pulls_converge_crossing :
    let actions : List (Action 2) :=
      [.call 0 (.register (fun _ => second) (single { id := "n" } { id := "a", name := "web" } 0)) rfl,
        .call 1 (.register (fun _ => second) (single { id := "n" } { id := "b", name := "web" } 0)) rfl]
    let c := (Cluster.start fun _ => {}).run actions
    level (c.seeds 0) ("n", "b") = ⊥ ∧ level (c.seeds 1) ("n", "b") ≠ ⊥ ∧
      level ((c.pulls (crossing 0 1)).seeds 0) ("n", "b") =
        Finset.univ.sup fun j => level (c.seeds j) ("n", "b") := by
  intro actions c
  have hclocks : ∀ a ∈ actions, a.Clocked := by
    simp only [actions, List.forall_mem_cons, Action.Clocked, List.not_mem_nil, false_imp_iff,
      implies_true, and_true]
    decide
  have hall : ∀ i j : Fin 2, i ≠ j → Gossip.Receives 0 ((crossing 0 1).map Pull.move) i j := by
    simp only [Fin.forall_fin_two]
    refine ⟨⟨fun h => absurd rfl h, fun _ => ?_⟩, fun _ => ?_, fun h => absurd rfl h⟩
    · exact ⟨[.send 0], [], [.receive 1 [0]], [1], rfl, by decide⟩
    · exact ⟨[], [.send 1, .receive 0 [1]], [], [0], rfl, by decide⟩
  have hfresh : Gossip.Fresh 0 ((crossing (0 : Fin 2) 1).map Pull.move) :=
    fun _ _ _ _ _ => Nat.zero_le _
  refine ⟨by decide +kernel, by decide +kernel, ?_⟩
  exact (pulls_converge (fun _ => {}) (by decide) actions hclocks (crossing 0 1) (by decide +kernel)
    hfresh hall).1 0 _

end YellowPages.Membership
