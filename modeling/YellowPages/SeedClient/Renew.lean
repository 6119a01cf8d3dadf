import YellowPages.SeedClient.Proxy
import YellowPages.Store.Renew

/-!
# Heartbeats

On every tick the renew loop refreshes the leases of the hosted services, except those a monitor
checks and keeps alive itself. A seed that does not know a service answers NotFound, and the loop
takes no notice as long as it reaches some seed.
-/

namespace YellowPages.SeedClient

open Lib Store Server

/-! ## The tick -/

def callSeed (op : Memory → (Nat → Time) → Outcome (Option Status)) (m : Memory) :
    Fate → Memory × Bool
  | .lost => (m, false)
  | .processed clk replied =>
    let o := op m clk
    (o.mem, replied && o.ret.isNone)

def fanOut {n : Nat} (op : Memory → (Nat → Time) → Outcome (Option Status)) (seeds : Fin n → Memory)
    (fates : Fin n → Fate) : (Fin n → Memory) × WriteResult :=
  (fun i => (callSeed op (seeds i) (fates i)).1,
    { total := n
      succeeded := (List.finRange n).countP fun i => (callSeed op (seeds i) (fates i)).2 })

/-- Services the gate answers `true` for are kept alive by the monitor. -/
abbrev CheckGate := String → Bool

variable {k : Nat} (p : Proxy) (order : RangeOrder String)

def Proxy.hostedCount : Nat := p.hosted.size

/-- The ids `renewAll` sends. The empty list stands for all, `none` for no request. -/
def Proxy.renewIds : Option CheckGate → Option (List String)
  | none => some []
  | some gate =>
    let ids := (order.visit p.hosted.keys).filter fun id => !gate id
    if ids.isEmpty then none else some ids

def Proxy.renewAll (gate : Option CheckGate) (seeds : Fin k → Memory) (fates : Fin k → Fate) :
    (Fin k → Memory) × WriteResult :=
  match p.renewIds order gate with
  | none => (seeds, { total := 0, succeeded := 0 })
  | some ids => fanOut (fun m clk => Server.renew m clk p.node.id ids) seeds fates

def Proxy.renewOnce (gate : Option CheckGate) (seeds : Fin k → Memory) (fates : Fin k → Fate) :
    Fin k → Memory :=
  if p.hostedCount = 0 then seeds else (p.renewAll order gate seeds fates).1

/-! ## Requests of the applications -/

def Proxy.renew (seeds : Fin k → Memory) (ids : List String) (fates : Fin k → Fate) :
    (Fin k → Memory) × Option Status :=
  let (seeds, res) := fanOut (fun m clk => Server.renew m clk p.node.id ids) seeds fates
  if !res.ok 1 then
    (seeds, some ⟨.unavailable, s!"renewed on {res.succeeded}/{res.total} seeds"⟩)
  else (seeds, none)

def Proxy.removeService (seeds : Fin k → Memory) (serviceID : String) (fates : Fin k → Fate) :
    Proxy × (Fin k → Memory) × Option Status :=
  if serviceID = "" then (p, seeds, some ⟨.invalidArgument, "service_id is required"⟩)
  else
    let (seeds, res) := fanOut (fun m _ => Server.deregisterService m p.node.id serviceID) seeds fates
    let p := { p with hosted := p.hosted.erase serviceID }
    if !res.ok 1 then
      (p, seeds, some ⟨.unavailable, s!"deregistered on {res.succeeded}/{res.total} seeds"⟩)
    else (p, seeds, none)

def Proxy.deregister (seeds : Fin k → Memory) (fates : Fin k → Fate) :
    Proxy × (Fin k → Memory) × Option Status :=
  let (seeds, res) := fanOut (fun m _ => Server.deregister m order p.node.id) seeds fates
  let p := { p with hosted := ∅ }
  if !res.ok 1 then
    (p, seeds, some ⟨.unavailable, s!"deregistered on {res.succeeded}/{res.total} seeds"⟩)
  else (p, seeds, none)

theorem removeService_cases (p : Proxy) (seeds : Fin k → Memory) (id : String)
    (fates : Fin k → Fate) :
    (∃ err, p.removeService seeds id fates = (p, seeds, some err)) ∨ ∃ ret, id ≠ "" ∧
      p.removeService seeds id fates = ({ p with hosted := p.hosted.erase id },
        (fanOut (fun m _ => Server.deregisterService m p.node.id id) seeds fates).1, ret) := by
  unfold Proxy.removeService
  split <;> rename_i hid
  · exact Or.inl ⟨_, rfl⟩
  · refine Or.inr ?_
    dsimp only
    split
    · exact ⟨_, hid, rfl⟩
    · exact ⟨_, hid, rfl⟩

/-! ## What a tick does to one seed -/

def Proxy.listed (gate : Option CheckGate) (s : String) : Prop :=
  s ∈ p.hosted ∧ ∀ g, gate = some g → g s = false

variable {p order}

theorem callSeed_renew {m : Memory} {n : String} (hn : n ≠ "") (ids : List String)
    (clk : Nat → Time) (replied : Bool) :
    (callSeed (fun m clk => Server.renew m clk n ids) m (.processed clk replied)).1 =
      (m.renew clk n ids).mem := by
  simp [callSeed, Server.renew, hn, reply]

theorem hostedCount_ne_zero {s : String} (hs : s ∈ p.hosted) : p.hostedCount ≠ 0 := by
  intro hzero
  rw [Proxy.hostedCount, ← Std.ExtTreeMap.eq_empty_iff_size_eq_zero] at hzero
  rw [hzero] at hs
  exact Std.ExtTreeMap.not_mem_empty hs

/-! ## One missing service -/

/-- After the tick every listed service that a reached seed holds has a lease as of the tick. -/
def TickRefreshes (p : Proxy) (order : RangeOrder String) (gate : CheckGate) (seeds : Fin k → Memory)
    (fates : Fin k → Fate) : Prop :=
  ∀ i clk replied, fates i = .processed clk replied → ∀ s, p.listed (some gate) s → ∀ svc,
    (seeds i).service? p.node.id s = some svc →
      ∃ new, (p.renewOnce order (some gate) seeds fates i).service? p.node.id s = some new ∧
        new.defn.lastSeen = clk 0

/-- The ids of a tick in the order of its list. -/
def tickIds (p : Proxy) (order : RangeOrder String) (gate : CheckGate) : List String :=
  (order.visit p.hosted.keys).filter fun id => !gate id

/-- On no seed that is reached an unknown id stands before a service whose lease is not as of the
tick already. -/
def NoneStarved (p : Proxy) (order : RangeOrder String) (gate : CheckGate) (seeds : Fin k → Memory)
    (fates : Fin k → Fate) : Prop :=
  ∀ i clk replied, fates i = .processed clk replied → ∀ s ∈ tickIds p order gate, ∀ svc,
    (seeds i).service? p.node.id s = some svc → svc.defn.lastSeen ≠ clk 0 →
      ¬ Starved (seeds i) p.node.id (tickIds p order gate) s

theorem renewIds_some (gate : CheckGate) : p.renewIds order (some gate) =
    if tickIds p order gate = [] then none else some (tickIds p order gate) := by
  simp only [Proxy.renewIds, List.isEmpty_iff]
  rfl

theorem mem_tickIds {gate : CheckGate} {s : String} : s ∈ tickIds p order gate ↔
    p.listed (some gate) s := by
  simp [tickIds, Proxy.listed, RangeOrder.mem_visit]

theorem tickIds_nodup (gate : CheckGate) : (tickIds p order gate).Nodup :=
  (order.nodup_visit _ (Std.ExtTreeMap.nodup_keys (t := p.hosted))).filter _

theorem renewOnce_seed {gate : CheckGate} {seeds : Fin k → Memory} {fates : Fin k → Fate}
    {i : Fin k} {clk : Nat → Time} {replied : Bool} {s : String} (hn : p.node.id ≠ "")
    (hs : s ∈ p.hosted) (hfate : fates i = .processed clk replied) :
    p.renewOnce order (some gate) seeds fates i = if tickIds p order gate = [] then seeds i
      else ((seeds i).renew clk p.node.id (tickIds p order gate)).mem := by
  rw [Proxy.renewOnce, if_neg (hostedCount_ne_zero hs), Proxy.renewAll, renewIds_some]
  by_cases hids : tickIds p order gate = []
  · rw [if_pos hids, if_pos hids]
  · rw [if_neg hids, if_neg hids]
    simp only [fanOut, hfate, callSeed_renew hn]

theorem tick_refreshes_one {gate : CheckGate} {seeds : Fin k → Memory} {fates : Fin k → Fate}
    {i : Fin k} {clk : Nat → Time} {replied : Bool} {s : String} {svc : ServiceRec}
    (hn : p.node.id ≠ "") (hfate : fates i = .processed clk replied) (hs : s ∈ tickIds p order gate)
    (hsvc : (seeds i).service? p.node.id s = some svc) :
    (∃ new, (p.renewOnce order (some gate) seeds fates i).service? p.node.id s = some new ∧
        new.defn.lastSeen = clk 0) ↔
      (svc.defn.lastSeen ≠ clk 0 → ¬ Starved (seeds i) p.node.id (tickIds p order gate) s) := by
  rw [renewOnce_seed hn (mem_tickIds.mp hs).1 hfate, if_neg (List.ne_nil_of_mem hs), renew_service?,
    ← renews_iff_not_starved (tickIds_nodup gate) hs (by simp [hsvc])]
  by_cases hrenews : Renews (seeds i) p.node.id (tickIds p order gate) s
  · simp [hrenews, hsvc, ServiceRec.renewed]
  · simp [hrenews, hsvc]

def reached (opts : Fin k → Options) (calls : Fin k → List Call) (i : Fin k) : Memory :=
  ((newMemory (opts i)).run (calls i)).1

/-- A tick refreshes every listed service, unless an unknown one stands in its way. -/
theorem tick_refreshes_iff (p : Proxy) (order : RangeOrder String) (gate : CheckGate)
    (opts : Fin k → Options) (calls : Fin k → List Call) (fates : Fin k → Fate) :
    TickRefreshes p order gate (reached opts calls) fates ↔
      NoneStarved p order gate (reached opts calls) fates := by
  refine forall₄_congr fun i clk replied hfate => forall_congr' fun s => ?_
  have hlisted : p.listed (some gate) s ↔ s ∈ tickIds p order gate := mem_tickIds.symm
  rw [hlisted]
  refine forall₃_congr fun hs svc hsvc => ?_
  have hn : p.node.id ≠ "" := by
    intro hempty
    simp [reached, Memory.service?, hempty, run_no_empty_node] at hsvc
  exact tick_refreshes_one hn hfate hs hsvc

def twoServices : Proxy :=
  ((newProxy { id := "n" } 1).host (single { id := "n" } { id := "a", name := "a" } 0)).host
    (single { id := "n" } { id := "b", name := "b" } 0)

/-- A seed that knows service `b` and not `a`. -/
def lostOne : List Call := [.register (fun _ => 0) (single { id := "n" } { id := "b", name := "b" } 0)]

theorem tick_not_always_refreshes :
    ¬ ∀ (p : Proxy) (order : RangeOrder String) (gate : CheckGate) (opts : Fin 1 → Options)
      (calls : Fin 1 → List Call) (fates : Fin 1 → Fate),
      TickRefreshes p order gate (reached opts calls) fates := by
  intro h
  have hlisted : twoServices.listed (some fun _ => false) "b" :=
    ⟨by decide, fun g hg => by rw [← Option.some.inj hg]⟩
  have hheld : ((reached (fun _ : Fin 1 => {}) (fun _ => lostOne) 0).service? "n" "b").map
      (·.defn.lastSeen) = some 0 := by decide
  obtain ⟨svc, hsvc, hseen⟩ := Option.map_eq_some_iff.mp hheld
  let fates : Fin 1 → Fate := fun _ => .processed (fun _ => second) true
  have hfate : fates 0 = .processed (fun _ => second) true := rfl
  have htick := h twoServices RangeOrder.asStored (fun _ => false) (fun _ => {}) (fun _ => lostOne)
    fates 0 _ _ hfate "b" hlisted svc hsvc
  refine (tick_refreshes_one (by decide) hfate (mem_tickIds.mpr hlisted) hsvc).mp htick ?_ ?_
  · rw [hseen]
    decide
  · exact ⟨[], "a", ["b"], by decide, by decide, by decide⟩

/-! ## A seed that lost its registry -/

/-- The seed holds every hosted service as it is hosted. -/
def Refilled (p : Proxy) (m : Memory) (now : Time) : Prop :=
  ∀ s dfn, p.hosted[s]? = some dfn → ∃ svc, m.service? p.node.id s = some svc ∧
    svc.defn = stamp m.opts now dfn.generation (wireService dfn)

theorem callSeed_renew_empty {m : Memory} (hempty : m.nodes = ∅) (n : String) (ids : List String)
    (fate : Fate) : (callSeed (fun m clk => Server.renew m clk n ids) m fate).1 = m := by
  cases fate with
  | lost => rfl
  | processed clk replied =>
    simp only [callSeed, Server.renew]
    split
    · rfl
    · simp [reply, Memory.renew, hempty]

theorem renewOnce_empty {seeds : Fin k → Memory} {i : Fin k} (hempty : (seeds i).nodes = ∅)
    (gate : Option CheckGate) (fates : Fin k → Fate) :
    p.renewOnce order gate seeds fates i = seeds i := by
  unfold Proxy.renewOnce Proxy.renewAll
  split
  · rfl
  · split
    · rfl
    · exact callSeed_renew_empty hempty _ _ _

/-- A tick does not bring a service to a seed that lost everything. -/
theorem restarted_seed_refilled_iff (p : Proxy) (order : RangeOrder String) (gate : Option CheckGate)
    (seeds : Fin k → Memory) (fates : Fin k → Fate) (i : Fin k) (opts : Options) (clk : Nat → Time)
    (replied : Bool) :
    let seeds := Function.update seeds i (newMemory opts)
    let fates := Function.update fates i (.processed clk replied)
    Refilled p (p.renewOnce order gate seeds fates i) (clk 0) ↔ p.hosted = ∅ := by
  intro seeds fates
  have hseed : seeds i = newMemory opts := Function.update_self i _ _
  rw [renewOnce_empty (by rw [hseed]; rfl), hseed]
  constructor
  · intro h
    refine Std.ExtTreeMap.ext_getElem? fun s => ?_
    rw [Std.ExtTreeMap.getElem?_empty, Option.eq_none_iff_forall_ne_some]
    intro dfn hdfn
    obtain ⟨svc, hsvc, -⟩ := h s dfn hdfn
    simp [newMemory, Memory.service?] at hsvc
  · intro hempty s dfn hdfn
    simp [hempty] at hdfn

theorem restarted_seed_not_refilled :
    ¬ ∀ (p : Proxy) (order : RangeOrder String) (gate : Option CheckGate) (seeds : Fin 2 → Memory)
      (fates : Fin 2 → Fate) (i : Fin 2) (opts : Options) (clk : Nat → Time) (replied : Bool),
      Refilled p (p.renewOnce order gate (Function.update seeds i (newMemory opts))
        (Function.update fates i (.processed clk replied)) i) (clk 0) := by
  intro h
  have hheld := h twoServices RangeOrder.asStored none (fun _ => newMemory {}) (fun _ => .lost) 0 {}
    (fun _ => 0) true
  rw [renewOnce_empty (by rfl)] at hheld
  obtain ⟨dfn, hdfn⟩ := Option.isSome_iff_exists.mp (by decide : (twoServices.hosted["a"]?).isSome)
  obtain ⟨svc, hsvc, -⟩ := hheld "a" dfn hdfn
  simp [newMemory, Memory.service?] at hsvc

end YellowPages.SeedClient
