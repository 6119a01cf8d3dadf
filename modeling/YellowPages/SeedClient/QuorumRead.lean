import YellowPages.SeedClient.Lookup
import YellowPages.SeedClient.Quorum
import YellowPages.Store.Sustain

/-!
# Reading what was written

A registration that went through is on as many seeds as the quorum asks for, and on some of the others
perhaps not, or in an older version. A lookup hears from some of the seeds, each on its own clock. If
there are too many of both to be apart, the lookup finds the registration or a later one.
-/

namespace YellowPages.SeedClient

open Lib Store Wire Server

/-! ## The seeds that took it -/

variable {k : Nat}

/-- The seeds that the agent counts as successes. -/
def accepting (seeds : Fin k → Memory) (reg : Registration) (fates : Fin k → Fate) :
    Finset (Fin k) :=
  Finset.univ.filter fun i => (deliver (seeds i) (registrationToProto reg) (fates i)).2 = true

theorem card_accepting (seeds : Fin k → Memory) (reg : Registration) (fates : Fin k → Fate) :
    (accepting seeds reg fates).card = (registerAll seeds reg fates).2.succeeded := by
  unfold registerAll accepting
  dsimp only
  rw [List.countP_eq_length_filter, ← List.toFinset_card_of_nodup ((List.nodup_finRange _).filter _)]
  congr 1
  ext i
  simp

theorem deliver_accepted {m : Memory} {reg : Registration} {fate : Fate}
    (h : (deliver m (registrationToProto reg) fate).2 = true) :
    ∃ clk replied, fate = .processed clk replied ∧
      (m.register clk (wireRegistration reg)).ret = none ∧
      (deliver m (registrationToProto reg) fate).1 = (m.register clk (wireRegistration reg)).mem := by
  cases fate with
  | lost => cases h
  | processed clk replied =>
    obtain ⟨-, hret⟩ := Bool.and_eq_true_iff.mp h
    rw [server_register] at hret
    refine ⟨clk, replied, rfl, by simpa [reply] using hret, ?_⟩
    rw [deliver, server_register]
    rfl

/-! ## What the seeds are asked to hold -/

/-- What a seed with these options, and this clock when it gets to the request, promises to readers. -/
def pledgeOf (o : Options) (clk : Nat → Time) (reg : Registration) (svc : ServiceInstance) : Pledge :=
  .of (stamp o (clk 0) reg.generation (wireService (named svc)))

theorem serviceId_wireService (svc : ServiceInstance) :
    serviceId (wireService svc) = serviceId svc := rfl

theorem serviceId_sent (p : Proxy) (reg : Registration) :
    (wireRegistration (p.sends reg)).services.map serviceId = reg.services.map serviceId := by
  simp only [wireRegistration, Proxy.sends, List.map_map]
  refine List.map_congr_left fun svc _ => ?_
  exact (serviceId_wireService _).trans (serviceId_named svc)

/-- A seed that accepted holds the service as pledged. -/
theorem upholds_of_accepted {m : Memory} {p : Proxy} {reg : Registration} {clk : Nat → Time}
    (hids : (reg.services.map serviceId).Nodup)
    (hret : (m.register clk (wireRegistration (p.sends reg))).ret = none) {svc : ServiceInstance}
    (hsvc : svc ∈ reg.services) :
    Upholds (m.register clk (wireRegistration (p.sends reg))).mem p.node.id (serviceId svc)
      (pledgeOf m.opts clk reg svc) := by
  have hmem : wireService (named svc) ∈ (wireRegistration (p.sends reg)).services :=
    List.mem_map_of_mem (List.mem_map_of_mem hsvc)
  have hup := Upholds.registered ((serviceId_sent p reg).symm ▸ hids) hret hmem
  rw [serviceId_wireService, serviceId_named] at hup
  exact hup

/-- The seed shows it until the lease runs out, if no call puts it back. -/
theorem accepted_shown {m : Memory} (hm : Reachable m) {p : Proxy} {reg : Registration}
    {clk : Nat → Time} (hids : (reg.services.map serviceId).Nodup)
    (hret : (m.register clk (wireRegistration (p.sends reg))).ret = none) {svc : ServiceInstance}
    (hsvc : svc ∈ reg.services) {later : List Call} {now : Time}
    (hlease : timeSub now (pledgeOf m.opts clk reg svc).seen ≤ (pledgeOf m.opts clk reg svc).ttl)
    (hsustains : ∀ c ∈ later,
      c.Sustains m.opts p.node.id (serviceId svc) (pledgeOf m.opts clk reg svc) now) :
    ∃ e ∈ (((m.register clk (wireRegistration (p.sends reg))).mem.run later).1.lookup now
      { name := svc.name }).entries,
      e.node.id = p.node.id ∧ e.service.id = serviceId svc ∧
        reg.generation ≤ e.service.generation := by
  have hopts : (m.register clk (wireRegistration (p.sends reg))).mem.opts = m.opts :=
    exec_opts (.register clk _) m
  have hup := (upholds_of_accepted hids hret hsvc).run hlease fun c hc => hopts.symm ▸ hsustains c hc
  have hreach : Reachable ((m.register clk (wireRegistration (p.sends reg))).mem.run later).1 :=
    (hm.exec (.register clk (wireRegistration (p.sends reg)))).run later
  exact hup.shown hreach.filed hlease

/-! ## What the reader makes of it -/

/-- A client that hears of a service gets it at that generation or a later one, whatever else it
hears. -/
theorem lookup_finds {answers : List Answer} {a : Answer} (ha : a ∈ answers) {e : ServiceEntry}
    (he : e ∈ received a) :
    ∃ lr, lookup answers = .ok lr ∧ ∃ w ∈ lr.entries, w.node.id = e.node.id ∧
      w.service.id = e.service.id ∧
      e.service.generation ≤ w.service.generation := by
  have hanswered : answered a = true := by
    unfold received at he
    unfold answered
    cases hreply : a.reply with
    | error err =>
      rw [hreply] at he
      cases he
    | ok resp => rfl
  obtain ⟨lr, hlookup, hentries⟩ := lookup_ok answers ⟨a, ha, hanswered⟩
  have hall : e ∈ answers.flatMap received := List.mem_flatMap.mpr ⟨a, ha, he⟩
  obtain ⟨w, ⟨hw, hkey⟩, -⟩ := Health.exists_unique_winner hall
  have htop := top_of_winner Health.winsLWW_rank _ w hw
  have hrank : Health.rank e ≤ Health.rank w := htop.2 e hall hkey.symm
  obtain ⟨hnode, hid⟩ := Prod.mk.injEq _ _ _ _ ▸ toLex_inj.mp hkey
  refine ⟨lr, hlookup, w, hentries ▸ hw, hnode, hid, ?_⟩
  rcases Prod.Lex.toLex_le_toLex.mp hrank with hlt | ⟨heq, -⟩
  · exact hlt.le
  · exact heq.le

theorem mem_received_answer {addr : String} {m : Memory} {t : Time} {name : String} {e : ServiceEntry}
    (he : e ∈ (m.lookup t { name := name }).entries) :
    overWire e ∈ received (answer addr m t { name := name }) := by
  rw [received_eq]
  exact List.mem_map_of_mem he

/-! ## Together -/

/-- A registration that went through was counted on enough seeds. -/
theorem registerServices_ok {p : Proxy} {seeds : Fin k → Memory} {reg : Registration}
    {fates : Fin k → Fate} (h : (p.registerServices seeds reg fates).2.2 = none) :
    p.quorum ≤ (accepting seeds (p.sends reg) fates).card ∧
      (p.registerServices seeds reg fates).2.1 = (registerAll seeds (p.sends reg) fates).1 := by
  rcases registerServices_cases p seeds reg fates with ⟨err, -, hr⟩
    | ⟨sent, hsent, ⟨hok, hr⟩ | ⟨-, err, hr⟩⟩
  · rw [hr] at h
    cases h
  · obtain rfl := sends_of_prepare hsent
    rw [card_accepting, hr]
    exact ⟨hok, rfl⟩
  · rw [hr] at h
    cases h

/-- If the registration reached the seed, it is within its lease, and no call since then took the
service off or put it behind. -/
def Undisturbed (m : Memory) (p : Proxy) (reg : Registration) (svc : ServiceInstance)
    (later : List Call) (now : Time) :
    Fate → Prop
  | .lost => True
  | .processed clk _ =>
    let w := pledgeOf m.opts clk reg svc
    timeSub now w.seen ≤ w.ttl ∧ ∀ c ∈ later, c.Sustains m.opts p.node.id (serviceId svc) w now

/-- An agent is told that its registration, of services with different ids, went through. Then more than
`k - quorum` of the `k` seeds answer a lookup by name, among other answers or failures and in any order,
within the lease and with nothing done to the service that takes it off them or puts it behind. Whatever
the seeds missed of the registration, and whatever older version they have, the lookup shows the service
at that generation or a later one. -/
theorem quorum_read_finds_write (p : Proxy) (seeds : Fin k → Memory)
    (hseeds : ∀ i, Reachable (seeds i)) (reg : Registration)
    (hids : (reg.services.map serviceId).Nodup) (fates : Fin k → Fate)
    (hdone : (p.registerServices seeds reg fates).2.2 = none) (later : Fin k → List Call)
    (now : Fin k → Time) (heard : Finset (Fin k)) (hheard : (k : Int) < p.quorum + heard.card)
    (svc : ServiceInstance) (hsvc : svc ∈ reg.services)
    (hlater : ∀ i ∈ heard, Undisturbed (seeds i) p reg svc (later i) (now i) (fates i))
    (addr : Fin k → String) (answers : List Answer)
    (hanswers : ∀ i ∈ heard,
      let m := (((p.registerServices seeds reg fates).2.1 i).run (later i)).1
      answer (addr i) m (now i) { name := svc.name } ∈ answers) :
    ∃ lr, lookup answers = .ok lr ∧ ∃ e ∈ lr.entries, e.node.id = p.node.id ∧
      e.service.id = serviceId svc ∧
      reg.generation ≤ e.service.generation := by
  obtain ⟨hquorum, hafter⟩ := registerServices_ok hdone
  -- Too many accepted and too many are heard for the two sets to be apart.
  have hmeet : (accepting seeds (p.sends reg) fates ∩ heard).Nonempty := by
    apply Finset.inter_nonempty_of_card_lt_card_add_card (Finset.subset_univ _) (Finset.subset_univ _)
    rw [Finset.card_univ, Fintype.card_fin]
    omega
  obtain ⟨i, hi⟩ := hmeet
  obtain ⟨haccepted, hi⟩ := Finset.mem_inter.mp hi
  obtain ⟨clk, replied, hfate, hret, hmem⟩ := deliver_accepted (Finset.mem_filter.mp haccepted).2
  have hrest := hlater i hi
  rw [hfate] at hrest
  obtain ⟨hlease, hsustains⟩ := hrest
  obtain ⟨e, he, hnode, hid, hgeneration⟩ :=
    accepted_shown (hseeds i) hids hret hsvc hlease hsustains
  -- That seed is among those that answer, and the merge keeps nothing older.
  have hstart : (p.registerServices seeds reg fates).2.1 i =
      ((seeds i).register clk (wireRegistration (p.sends reg))).mem := by
    rw [hafter]
    exact hmem
  have hanswer := hanswers i hi
  rw [hstart] at hanswer
  obtain ⟨lr, hlookup, w, hw, hwnode, hwid, hwgeneration⟩ :=
    lookup_finds hanswer (mem_received_answer he)
  rw [overWire_eq] at hwnode hwid hwgeneration
  exact ⟨lr, hlookup, w, hw, hwnode.trans hnode, hwid.trans hid, hgeneration.trans hwgeneration⟩

/-- A seed that has the first version of a service. -/
def olderWeb : Memory :=
  ((newMemory {}).run [.register (fun _ => 0) (single { id := "n" } (webAt 80) 1)]).1

/-- Of three seeds the first misses the update. It answers, and so does one of the others. -/
theorem quorum_read_finds_write_missed :
    let p := newProxy { id := "n" } 2
    let reg := single { id := "n" } (webAt 81) 2
    let fates : Fin 3 → Fate :=
      fun i => if i.val = 0 then .lost else .processed (fun _ => second) true
    let later : List Call := [.renew (fun _ => 5 * second) "n" [], .gc (fun _ => 6 * second) {}]
    let after i := (((p.registerServices (fun _ => olderWeb) reg fates).2.1 i).run later).1
    ((after 0).service? "n" "web").map (·.defn.generation) = some 1 ∧
      ∃ lr, lookup [answer "a:1" (after 0) (10 * second) { name := "web" },
          answer "b:1" (after 1) (10 * second) { name := "web" }] = .ok lr ∧
        ∃ e ∈ lr.entries, e.node.id = "n" ∧ e.service.id = "web" ∧ 2 ≤ e.service.generation := by
  intro p reg fates later after
  refine ⟨by decide +kernel, ?_⟩
  apply quorum_read_finds_write p (fun _ => olderWeb) (fun _ => ⟨_, _, rfl⟩) reg (by decide) fates
    (by decide +kernel)
    (fun _ => later) (fun _ => 10 * second) {0, 1} (by decide) (webAt 81) (by decide) ?_
    (fun i => if i.val = 0 then "a:1" else "b:1")
  · intro i hi
    rcases Finset.mem_insert.mp hi with rfl | hi
    · exact List.mem_cons_self
    · rw [Finset.mem_singleton.mp hi]
      exact List.mem_cons_of_mem _ List.mem_cons_self
  · intro i hi
    rcases Finset.mem_insert.mp hi with rfl | hi
    · trivial
    · rw [Finset.mem_singleton.mp hi]
      refine ⟨by decide +kernel, fun c hc => ?_⟩
      rcases List.mem_cons.mp hc with rfl | hc
      · exact fun _ => by decide +kernel
      · rw [List.mem_singleton.mp hc]
        exact (by decide +kernel : 6 * second ≤ 10 * second)

end YellowPages.SeedClient
