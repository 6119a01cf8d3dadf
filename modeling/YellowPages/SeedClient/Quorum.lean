import YellowPages.Resolver
import YellowPages.SeedClient.KeepAlive

/-!
# k of N

The addresses an agent dials come from the merged list of its providers, and a write counts the calls
that succeed. Errors are kept by address, so the count is one of distinct seeds only if no address is
dialled twice.
-/

namespace YellowPages.SeedClient

open Lib Store Wire Server Resolver

/-! ## The connections -/

/-- `New`: a connection for each address. `dial` is the error of the transport, and `quote` is `%q`. -/
def new (dial : String → Option String) (quote : String → String) (seeds : List String) :
    Except String (List String) :=
  if seeds.isEmpty then .error "seedclient: no seeds"
  else
    let failed := seeds.findSome? fun addr => (dial addr).map fun err => (addr, err)
    match failed with
    | some (addr, err) => .error ("seedclient: dial " ++ quote addr ++ ": " ++ err)
    | none => .ok seeds

theorem new_ok {dial : String → Option String} {quote : String → String} {seeds conns : List String}
    (h : new dial quote seeds = .ok conns) : conns = seeds := by
  unfold new at h
  split at h
  · cases h
  · dsimp only at h
    split at h
    · cases h
    · exact (Except.ok.inj h).symm

/-! ## The result of a fan-out -/

structure FanOut where
  total : Nat
  succeeded : Nat := 0
  errors : Map String := ∅

def FanOut.account (res : FanOut) (addr : String) : Option String → FanOut
  | some err => { res with errors := res.errors.insert addr err }
  | none => { res with succeeded := res.succeeded + 1 }

variable {conns : List String}

/-- The calls take the mutex in the order in which they finish. -/
def collect (conns : List String) (op : Fin conns.length → Option String)
    (finished : List (Fin conns.length)) :
    FanOut :=
  finished.foldl (fun res i => res.account (conns.get i) (op i)) { total := conns.length }

structure Accounted (op : Fin conns.length → Option String) (finished : List (Fin conns.length))
    (res : FanOut) :
    Prop where
  total : res.total = conns.length
  succeeded : res.succeeded = finished.countP fun i => (op i).isNone
  errors : res.errors.size = finished.countP fun i => (op i).isSome
  failed : ∀ addr, addr ∈ res.errors → ∃ i ∈ finished, conns.get i = addr

theorem Accounted.account {op : Fin conns.length → Option String}
    {finished : List (Fin conns.length)} {res : FanOut} (h : Accounted op finished res)
    (hconns : conns.Nodup) {i : Fin conns.length} (hi : i ∉ finished) :
    Accounted op (finished ++ [i]) (res.account (conns.get i) (op i)) := by
  have hfailed : ∀ addr, (∃ j ∈ finished, conns.get j = addr) →
      ∃ j ∈ finished ++ [i], conns.get j = addr :=
    fun addr ⟨j, hj, hget⟩ => ⟨j, List.mem_append_left _ hj, hget⟩
  cases hop : op i with
  | none =>
    refine ⟨h.total, ?_, ?_, fun addr haddr => hfailed addr (h.failed addr haddr)⟩
    · simp [FanOut.account, h.succeeded, List.countP_append, hop]
    · simp [FanOut.account, h.errors, List.countP_append, hop]
  | some err =>
    have hnew : conns.get i ∉ res.errors := by
      intro hmem
      obtain ⟨j, hj, hget⟩ := h.failed _ hmem
      exact hi (List.nodup_iff_injective_get.mp hconns hget ▸ hj)
    refine ⟨h.total, ?_, ?_, fun addr haddr => ?_⟩
    · simp [FanOut.account, h.succeeded, List.countP_append, hop]
    · dsimp only [FanOut.account]
      rw [Std.ExtTreeMap.size_insert, if_neg (by rwa [Std.ExtTreeMap.contains_iff_mem]), h.errors]
      simp [List.countP_append, hop]
    · rcases Std.ExtTreeMap.mem_insert.mp haddr with heq | hmem
      · exact ⟨i, by simp, Std.compare_eq_iff_eq.mp heq⟩
      · exact hfailed addr (h.failed addr hmem)

theorem collect_accounted (hconns : conns.Nodup) (op : Fin conns.length → Option String)
    (finished : List (Fin conns.length)) (hfinished : finished.Nodup) :
    Accounted op finished (collect conns op finished) := by
  induction finished using List.reverseRecOn with
  | nil => exact ⟨rfl, rfl, rfl, fun addr haddr => absurd haddr Std.ExtTreeMap.not_mem_empty⟩
  | append_singleton finished i ih =>
    obtain ⟨hbefore, -, hdisjoint⟩ := List.nodup_append.mp hfinished
    rw [collect, List.foldl_append]
    exact (ih hbefore).account hconns fun hi => hdisjoint i hi i (by simp) rfl

/-! ## A registration -/

/-- What the agent gets for its call to one seed. `unreachable` is the error of a call without a
reply. -/
def seedError (m : Memory) (req : PbRegistration) (unreachable : String) : Fate → Option String
  | .lost => some unreachable
  | .processed clk replied =>
    if replied then (Server.register m clk (some req)).ret.map Status.text else some unreachable

theorem isNone_seedError (m : Memory) (req : PbRegistration) (unreachable : String) (fate : Fate) :
    (seedError m req unreachable fate).isNone = (deliver m req fate).2 := by
  cases fate with
  | lost => rfl
  | processed clk replied =>
    cases replied with
    | false => rfl
    | true => simp [seedError, deliver]

/-- The addresses whose seed accepts the registration. -/
def acceptedBy (conns : List String) (seeds : Fin conns.length → Memory) (reg : Registration)
    (fates : Fin conns.length → Fate) : Finset String :=
  (Finset.univ.filter fun i =>
    (deliver (seeds i) (registrationToProto reg) (fates i)).2 = true).image conns.get

theorem card_acceptedBy (hconns : conns.Nodup) (seeds : Fin conns.length → Memory)
    (reg : Registration) (fates : Fin conns.length → Fate) :
    (acceptedBy conns seeds reg fates).card = (registerAll seeds reg fates).2.succeeded := by
  rw [acceptedBy, Finset.card_image_of_injective _ (List.nodup_iff_injective_get.mp hconns)]
  simp only [registerAll]
  rw [List.countP_eq_length_filter, ← List.toFinset_card_of_nodup ((List.nodup_finRange _).filter _)]
  congr 1
  ext i
  simp

/-- The request is hosted: under each id the last service it lists, and what was hosted before
elsewhere. -/
def Recorded (before after : Map ServiceInstance) (reg : Registration) : Prop :=
  ∀ id : String, after[id]? =
    ((under id reg.services).getLast?.map fun s => { named s with generation := reg.generation }).or
      before[id]?

theorem recorded_host (p : Proxy) (reg : Registration) :
    Recorded p.hosted (p.host (p.sends reg)).hosted reg := by
  intro id
  have hfilter : (p.sends reg).services.filter (·.id = id) = (under id reg.services).map named := by
    rw [Proxy.sends, List.filter_map]
    rfl
  rw [host_last, hfilter, List.getLast?_map, Option.map_map]
  rfl

theorem prepare_valid (p : Proxy) {reg : Registration} (hne : reg.services ≠ [])
    (hnames : ∀ s ∈ reg.services, s.name ≠ "") : p.prepare reg = .ok (p.sends reg) := by
  unfold Proxy.prepare
  rw [if_neg (by simpa using hne), if_neg (by simpa using hnames)]
  rfl

theorem quorum_newProxy (node : Node) (quorum : Int) :
    (newProxy node quorum).quorum = max 1 quorum := by
  simp only [newProxy]
  split <;> omega

/-- A valid request is hosted exactly if enough addresses accept it. -/
theorem registerServices_quorum (hconns : conns.Nodup) (p : Proxy) (seeds : Fin conns.length → Memory)
    {reg : Registration} (fates : Fin conns.length → Fate) (hne : reg.services ≠ [])
    (hnames : ∀ s ∈ reg.services, s.name ≠ "") :
    let r := p.registerServices seeds reg fates
    (p.quorum ≤ (acceptedBy conns seeds (p.sends reg) fates).card →
      r.2.2 = none ∧ Recorded p.hosted r.1.hosted reg) ∧
    (¬ p.quorum ≤ (acceptedBy conns seeds (p.sends reg) fates).card → r.2.2 ≠ none ∧ r.1 = p) := by
  intro r
  rw [card_acceptedBy hconns]
  rcases registerServices_cases p seeds reg fates with ⟨err, herr, -⟩
    | ⟨sent, hsent, ⟨hok, hr⟩ | ⟨hok, err, hr⟩⟩
  · rw [prepare_valid p hne hnames] at herr
    cases herr
  · obtain rfl := Except.ok.inj ((prepare_valid p hne hnames).symm.trans hsent)
    refine ⟨fun _ => ?_, fun hnot => absurd hok hnot⟩
    rw [show r = _ from hr]
    exact ⟨rfl, recorded_host p reg⟩
  · obtain rfl := Except.ok.inj ((prepare_valid p hne hnames).symm.trans hsent)
    refine ⟨fun hquorum => absurd hquorum hok, fun _ => ?_⟩
    rw [show r = _ from hr]
    exact ⟨Option.some_ne_none err, rfl⟩

/-! ## From the providers to the quorum -/

/-- The merged list, with respect to what the providers that work offer. -/
structure MergedList (providers : List SeedProvider) (list : List String) : Prop where
  distinct : list.Nodup
  notBlank : ∀ s ∈ list, s ≠ "" ∧ trimSpace s = s
  complete : ∀ s, s ∈ list ↔ s ∈ offered providers
  firstSeen : list.Pairwise fun a b => (offered providers).idxOf a < (offered providers).idxOf b
  working : Resolver.seeds (providers.filter SeedProvider.works) = .ok list

theorem mergedList_of_seeds {providers : List SeedProvider} {list : List String}
    (h : Resolver.seeds providers = .ok list) : MergedList providers list := by
  obtain ⟨rfl, hne⟩ := (seeds_ok_iff providers list).mp h
  refine ⟨nodup_firstSeen _, fun s hs => not_blank_of_offered ((mem_firstSeen _ s).mp hs),
    mem_firstSeen _,
    firstSeen_ordered _, (seeds_ok_iff _ _).mpr ⟨?_, hne⟩⟩
  rw [offered_works]

theorem MergedList.length {providers : List SeedProvider} {list : List String}
    (h : MergedList providers list) :
    list.length = (offered providers).toFinset.card := by
  rw [← List.toFinset_card_of_nodup h.distinct]
  congr 1
  ext s
  simp [h.complete]

/-- k accepted calls are k seeds. -/
theorem quorum_of_distinct_seeds (providers : List SeedProvider) (dial : String → Option String)
    (quote : String → String) (list conns : List String) (hlist : Resolver.seeds providers = .ok list)
    (hconns : new dial quote list = .ok conns) :
    MergedList providers conns ∧
    (∀ (op : Fin conns.length → Option String) (finished : List (Fin conns.length)),
      finished.Perm (List.finRange conns.length) →
        let res := collect conns op finished
        res.succeeded + res.errors.size = res.total ∧
          res.total = (offered providers).toFinset.card) ∧
    ∀ (node : Node) (quorum : Int) (hosted : Map ServiceInstance)
      (seeds : Fin conns.length → Memory)
      (reg : Registration) (fates : Fin conns.length → Fate),
      reg.services ≠ [] → (∀ s ∈ reg.services, s.name ≠ "") →
        let p := { newProxy node quorum with hosted := hosted }
        let r := p.registerServices seeds reg fates
        let accepted := acceptedBy conns seeds (p.sends reg) fates
        (∀ (unreachable : String) (finished : List (Fin conns.length)),
          finished.Perm (List.finRange conns.length) →
            (collect conns
              (fun i => seedError (seeds i) (registrationToProto (p.sends reg)) unreachable (fates i))
              finished).succeeded = accepted.card) ∧
        (max 1 quorum ≤ accepted.card → r.2.2 = none ∧ Recorded hosted r.1.hosted reg) ∧
        (¬ max 1 quorum ≤ accepted.card → r.2.2 ≠ none ∧ r.1.hosted = hosted) := by
  obtain rfl := new_ok hconns
  have hmerged := mergedList_of_seeds hlist
  refine ⟨hmerged, fun op finished hperm => ?_,
    fun node quorum hosted seeds reg fates hne hnames => ?_⟩
  · intro res
    have hres :=
      collect_accounted hmerged.distinct op finished (hperm.nodup_iff.mpr (List.nodup_finRange _))
    refine ⟨?_, hres.total.trans hmerged.length⟩
    have hlength : finished.length = conns.length := by rw [hperm.length_eq, List.length_finRange]
    have hsplit := List.length_eq_countP_add_countP (fun i => (op i).isNone) (l := finished)
    have hsome : finished.countP (fun i => (op i).isSome) =
        finished.countP fun i => ¬ (op i).isNone = true := by
      congr 1
      funext i
      cases op i <;> rfl
    rw [hres.succeeded, hres.errors, hres.total, hsome]
    exact hsplit.symm.trans hlength
  · intro p r accepted
    have hquorum : p.quorum = max 1 quorum := quorum_newProxy node quorum
    obtain ⟨hok, hfew⟩ := registerServices_quorum hmerged.distinct p seeds fates hne hnames
    refine ⟨fun unreachable finished hperm => ?_, fun h => hok (hquorum ▸ h), fun h => ?_⟩
    · rw [(collect_accounted hmerged.distinct _ finished
        (hperm.nodup_iff.mpr (List.nodup_finRange _))).succeeded,
        hperm.countP_eq, card_acceptedBy hmerged.distinct]
      simp only [isNone_seedError]
      rfl
    · obtain ⟨hret, hsame⟩ := hfew (hquorum ▸ h)
      exact ⟨hret, congrArg Proxy.hosted hsame⟩

/-- Three seeds, offered five times, and a plugin that fails. -/
def repeatedSeeds : List SeedProvider :=
  [newStatic ["a:1", " b:1 ", "a:1"], { name := "plugin", seeds := .error "exit status 1" },
    newStatic ["", "b:1", "c:1"]]

theorem quorum_two_of_three :
    ((newProxy { id := "n" } 2).registerServices (fun _ : Fin 3 => newMemory {})
      (listed [labelled 80 "a" ""])
      fun i => if i = 0 then .lost else .processed (fun _ => 0) true).2.2 = none := by
  have h :=
    quorum_of_distinct_seeds repeatedSeeds (fun _ => none) id ["a:1", "b:1", "c:1"]
      ["a:1", "b:1", "c:1"]
    (by decide) (by decide)
  exact ((h.2.2 { id := "n" } 2 ∅ (fun _ => newMemory {}) (listed [labelled 80 "a" ""])
    (fun i => if i = 0 then .lost else .processed (fun _ => 0) true) (by decide)
      (by decide)).2.1 (by decide)).1

end YellowPages.SeedClient
