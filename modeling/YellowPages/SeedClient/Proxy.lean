import YellowPages.Lib.Keyed
import YellowPages.Server.Service
import YellowPages.Store.Register

/-!
# Writing to all seeds

The agent's `Proxy` and the write half of `SeedClient`. A write goes to every seed and is accepted
if enough of them acknowledge it. What the other seeds have is not undone.
-/

namespace YellowPages.SeedClient

open Lib Store Wire Server

/-! ## The fan-out of a registration -/

/-- What happens to one seed's copy of a request. A request that is processed can still go
without a reply in time, and then counts as failed. -/
inductive Fate where
  | lost
  | processed (clk : Nat → Time) (replied : Bool)

def Fate.reaches : Fate → Bool
  | .lost => false
  | .processed .. => true

def deliver (m : Memory) (req : PbRegistration) : Fate → Memory × Bool
  | .lost => (m, false)
  | .processed clk replied =>
    let o := Server.register m clk (some req)
    (o.mem, replied && o.ret.isNone)

structure WriteResult where
  total : Nat
  succeeded : Nat

def WriteResult.ok (w : WriteResult) (quorum : Int) : Bool := w.succeeded ≥ quorum

def registerAll {n : Nat} (seeds : Fin n → Memory) (reg : Registration) (fates : Fin n → Fate) :
    (Fin n → Memory) × WriteResult :=
  let req := registrationToProto reg
  (fun i => (deliver (seeds i) req (fates i)).1,
    { total := n
      succeeded := (List.finRange n).countP fun i => (deliver (seeds i) req (fates i)).2 })

theorem registerAll_opts {n : Nat} {seeds : Fin n → Memory} {reg : Registration}
    {fates : Fin n → Fate} (i : Fin n) :
    ((registerAll seeds reg fates).1 i).opts = (seeds i).opts := by
  simp only [registerAll, deliver]
  cases fates i with
  | lost => rfl
  | processed clk replied => exact exec_opts (.register clk _) (seeds i)

/-! ## The proxy -/

structure Proxy where
  node : Node
  quorum : Int
  hosted : Map ServiceInstance := ∅

def newProxy (node : Node) (quorum : Int) : Proxy :=
  { node := node, quorum := if quorum < 1 then 1 else quorum }

/-- The checks and defaults of `RegisterServices`. -/
def Proxy.prepare (p : Proxy) (reg : Registration) : Except Status Registration :=
  if reg.services.isEmpty then .error ⟨.invalidArgument, "registration has no services"⟩
  else if reg.services.any (·.name = "") then .error ⟨.invalidArgument, "service name is required"⟩
  else
    let services := reg.services.map fun s => { s with id := if s.id = "" then s.name else s.id }
    .ok { reg with node := p.node, services := services }

theorem prepare_ok {p : Proxy} {reg sent : Registration} (h : p.prepare reg = .ok sent) :
    sent = { reg with
      node := p.node
      services := reg.services.map fun s => { s with id := if s.id = "" then s.name else s.id } } ∧
      ∀ s ∈ reg.services, s.name ≠ "" := by
  unfold Proxy.prepare at h
  split at h
  · cases h
  · split at h <;> rename_i hnames
    · cases h
    · exact ⟨(Except.ok.inj h).symm, by simpa using hnames⟩

/-- The hosted services after a registration went through. -/
def Proxy.host (p : Proxy) (reg : Registration) : Proxy :=
  let remember := fun (hosted : Map ServiceInstance) (s : ServiceInstance) =>
    hosted.insert s.id { s with generation := reg.generation }
  { p with hosted := reg.services.foldl remember p.hosted }

def Proxy.registerServices {n : Nat} (p : Proxy) (seeds : Fin n → Memory) (reg : Registration)
    (fates : Fin n → Fate) : Proxy × (Fin n → Memory) × Option Status :=
  match p.prepare reg with
  | .error err => (p, seeds, some err)
  | .ok reg =>
    let (seeds, res) := registerAll seeds reg fates
    if !res.ok p.quorum then
      (p, seeds, some ⟨.unavailable,
        s!"registered on {res.succeeded}/{res.total} seeds (quorum {p.quorum})"⟩)
    else (p.host reg, seeds, none)

/-- What `KeepAlive` sends for a hosted service: the definition and the generation it remembered. -/
def Proxy.keepAliveRegistration (p : Proxy) (serviceID : String) : Option Registration :=
  p.hosted[serviceID]?.map fun svc => single p.node svc svc.generation

def Proxy.keepAlive {n : Nat} (p : Proxy) (seeds : Fin n → Memory) (serviceID : String)
    (fates : Fin n → Fate) : (Fin n → Memory) × Option Status :=
  match p.keepAliveRegistration serviceID with
  | none => (seeds, none)
  | some reg =>
    let (seeds, res) := registerAll seeds reg fates
    if !res.ok p.quorum then
      (seeds, some ⟨.unavailable, s!"keep-alive reached {res.succeeded}/{res.total} seeds"⟩)
    else (seeds, none)

theorem keepAlive_seeds {n : Nat} (p : Proxy) (seeds : Fin n → Memory) (serviceID : String)
    (fates : Fin n → Fate) :
    (p.keepAlive seeds serviceID fates).1 =
      match p.hosted[serviceID]? with
      | none => seeds
      | some svc => (registerAll seeds (single p.node svc svc.generation) fates).1 := by
  unfold Proxy.keepAlive Proxy.keepAliveRegistration
  cases p.hosted[serviceID]? with
  | none => rfl
  | some svc =>
    dsimp only [Option.map_some]
    split <;> rfl

/-! ## Messages on their way to one seed -/

/-- A registration of one service, and the clock of the seed when it gets to it. -/
structure Message where
  node : Node
  svc : ServiceInstance
  generation : Nat
  clk : Nat → Time

def wireService (svc : ServiceInstance) : ServiceInstance :=
  serviceFromProto (some (serviceToProto svc))

/-- The request as a seed receives it. -/
def wireRegistration (reg : Registration) : Registration :=
  { reg with services := reg.services.map wireService }

theorem server_register (m : Memory) (clk : Nat → Time) (reg : Registration) :
    Server.register m clk (some (registrationToProto reg)) = reply
      (m.register clk (wireRegistration reg)) := by
  have hreg : registrationFromProto (some (registrationToProto reg)) = wireRegistration reg := by
    simp [registrationFromProto, registrationToProto, wireRegistration, wireService]
  rw [Server.register, hreg]

def Message.process (m : Memory) (msg : Message) : Memory :=
  (Server.register m msg.clk (some (registrationToProto (single msg.node msg.svc msg.generation)))).mem

/-- The definition the message asks the seed to hold. -/
def Message.defn (o : Options) (msg : Message) : ServiceInstance :=
  stamp o (msg.clk 0) msg.generation (wireService msg.svc)

def Message.For (n s : String) (msg : Message) : Prop :=
  msg.node.id = n ∧ (if msg.svc.id = "" then msg.svc.name else msg.svc.id) = s ∧ msg.svc.name ≠ ""

theorem Message.for_of_id {n s : String} {msg : Message} (hnode : msg.node.id = n)
    (hid : msg.svc.id = s) (hs : s ≠ "") (hname : msg.svc.name ≠ "") : msg.For n s := by
  refine ⟨hnode, ?_, hname⟩
  rw [hid, if_neg hs]

theorem process_opts (m : Memory) (msg : Message) : (msg.process m).opts = m.opts :=
  exec_opts (.register msg.clk (single msg.node (wireService msg.svc) msg.generation)) m

/-- A seed takes the message and settles on a definition, or has no room for it. -/
theorem process_spec (m : Memory) {n s : String} (msg : Message) (hn : n ≠ "") (hfor : msg.For n s) :
    ((m.register msg.clk (single msg.node (wireService msg.svc) msg.generation)).ret = none ∧
        ∃ new, (msg.process m).service? n s = some new ∧
          new.defn = settled ((m.service? n s).map ServiceRec.defn) (msg.defn m.opts) (msg.clk 0)) ∨
      ((m.register msg.clk (single msg.node (wireService msg.svc) msg.generation)).ret =
        some .capacity ∧
        m.opts.atCapacity m.sizeLocked ∧ m.service? n s = none ∧
          (msg.process m).service? n s = none) := by
  obtain ⟨hnode, hid, hname⟩ := hfor
  have hspec := register_single m msg.clk msg.node (wireService msg.svc) msg.generation
    (by rw [hnode]; exact hn) hname
  have hkey : (stamp m.opts (msg.clk 0) msg.generation (wireService msg.svc)).id = s := hid
  simp only [hnode, hkey] at hspec
  exact hspec

theorem process_settles (m : Memory) {n s : String} (msg : Message) (hn : n ≠ "") (hfor : msg.For n s)
    (hroom : m.service? n s = none → m.opts.atCapacity m.sizeLocked = false) :
    ∃ new, (msg.process m).service? n s = some new ∧
      new.defn = settled ((m.service? n s).map ServiceRec.defn) (msg.defn m.opts) (msg.clk 0) := by
  rcases process_spec m msg hn hfor with ⟨-, hsettled⟩ | ⟨-, hfull, hnone, -⟩
  · exact hsettled
  · rw [hroom hnone] at hfull
    cases hfull

/-! ## What a fan-out leaves -/

theorem deliver_processed (m : Memory) (node : Node) (svc : ServiceInstance) (generation : Nat)
    (clk : Nat → Time) (replied : Bool) :
    deliver m (registrationToProto (single node svc generation)) (.processed clk replied) =
      (Message.process m ⟨node, svc, generation, clk⟩,
        replied && (m.register clk (single node (wireService svc) generation)).ret.isNone) := by
  have hret : (Server.register m clk (some (registrationToProto (single node svc generation)))).ret =
      (m.register clk (single node (wireService svc) generation)).ret.map mapError := rfl
  simp only [deliver, hret, Option.isNone_map]
  rfl

/-- The seed processes the request, has the service or room for it, and replies in time. -/
def Fate.acked (m : Memory) (n s : String) : Fate → Bool
  | .lost => false
  | .processed _ replied =>
    replied && ((m.service? n s).isSome || !m.opts.atCapacity m.sizeLocked)

theorem deliver_of_acked (m : Memory) {n s : String} {node : Node} {svc : ServiceInstance}
    (generation : Nat) (fate : Fate) (hn : n ≠ "")
    (hfor : ∀ clk, Message.For n s ⟨node, svc, generation, clk⟩) (h : fate.acked m n s = true) :
    (deliver m (registrationToProto (single node svc generation)) fate).2 = true := by
  cases fate with
  | lost => cases h
  | processed clk replied =>
    obtain ⟨rfl, hroom⟩ := Bool.and_eq_true_iff.mp h
    rw [deliver_processed]
    rcases process_spec m _ hn (hfor clk) with ⟨hret, -⟩ | ⟨-, hfull, hnone, -⟩
    · rw [hret]
      rfl
    · rw [hfull, hnone] at hroom
      cases hroom

/-- A registration is refused, or goes to all seeds and is hosted if enough of them acknowledge it. -/
theorem registerServices_cases {k : Nat} (p : Proxy) (seeds : Fin k → Memory) (reg : Registration)
    (fates : Fin k → Fate) :
    (∃ err, p.prepare reg = .error err ∧
      p.registerServices seeds reg fates = (p, seeds, some err)) ∨
      ∃ sent, p.prepare reg = .ok sent ∧
        (p.quorum ≤ (registerAll seeds sent fates).2.succeeded ∧
            p.registerServices seeds reg fates =
              (p.host sent, (registerAll seeds sent fates).1, none) ∨
          ¬ p.quorum ≤ (registerAll seeds sent fates).2.succeeded ∧
            ∃ err, p.registerServices seeds reg fates =
              (p, (registerAll seeds sent fates).1, some err)) := by
  unfold Proxy.registerServices
  cases hprepare : p.prepare reg with
  | error err => exact Or.inl ⟨err, rfl, rfl⟩
  | ok sent =>
    refine Or.inr ⟨sent, rfl, ?_⟩
    dsimp only
    split <;> rename_i hok
    · exact Or.inr ⟨by simpa [WriteResult.ok] using hok, _, rfl⟩
    · exact Or.inl ⟨by simpa [WriteResult.ok] using hok, rfl⟩

theorem registerServices_single {k : Nat} (p : Proxy) (seeds : Fin k → Memory) (node : Node)
    (svc : ServiceInstance) (generation : Nat) (fates : Fin k → Fate) (hname : svc.name ≠ "")
    (hid : svc.id ≠ "") :
    let reg := single p.node svc generation
    let r := p.registerServices seeds (single node svc generation) fates
    r.2.1 = (registerAll seeds reg fates).1 ∧
      (r.2.2 = none ∧ r.1 = p.host reg ∧ p.quorum ≤ (registerAll seeds reg fates).2.succeeded ∨
        r.2.2 ≠ none ∧ r.1 = p ∧ ¬ p.quorum ≤ (registerAll seeds reg fates).2.succeeded) := by
  intro reg r
  have hprepare : p.prepare (single node svc generation) = .ok reg := by
    simp [Proxy.prepare, single, hname, hid, reg]
  rcases registerServices_cases p seeds (single node svc generation) fates with
    ⟨err, herr, -⟩ | ⟨sent, hsent, ⟨hok, hr⟩ | ⟨hok, err, hr⟩⟩
  · rw [hprepare] at herr
    cases herr
  · obtain rfl := Except.ok.inj (hprepare.symm.trans hsent)
    simp only [r, hr]
    exact ⟨trivial, Or.inl ⟨trivial, trivial, hok⟩⟩
  · obtain rfl := Except.ok.inj (hprepare.symm.trans hsent)
    simp only [r, hr]
    exact ⟨trivial, Or.inr ⟨by simp, trivial, hok⟩⟩

/-- What the proxy hosts after a registration is new or was hosted before. -/
theorem host_getElem? (p : Proxy) (reg : Registration) (id : String) {dfn : ServiceInstance}
    (h : (p.host reg).hosted[id]? = some dfn) :
    (∃ svc ∈ reg.services, svc.id = id ∧ dfn = { svc with generation := reg.generation }) ∨
      (∀ svc ∈ reg.services, svc.id ≠ id) ∧ p.hosted[id]? = some dfn :=
  foldl_insert_cases ServiceInstance.id (fun svc => { svc with generation := reg.generation }) h

theorem settled_of_generation_ne (old dfn : ServiceInstance) (now : Time)
    (h : old.generation ≠ dfn.generation) : settled (some old) dfn now = dfn := by
  have hchanged : Store.changed old dfn = true := by simp [Store.changed, h]
  exact if_pos hchanged

theorem settled_generation (old : Option ServiceInstance) (dfn : ServiceInstance) (now : Time) :
    (settled old dfn now).generation = dfn.generation := by
  cases old with
  | none => rfl
  | some old =>
    by_cases h : old.generation = dfn.generation
    · unfold settled
      dsimp only
      split
      · rfl
      · exact h
    · rw [settled_of_generation_ne old dfn now h]

/-- The seed holds the generation it processed last. -/
theorem processed_generation (m : Memory) {n s : String} (msgs : List Message) (hne : msgs ≠ [])
    (hn : n ≠ "") (hfor : ∀ msg ∈ msgs, msg.For n s)
    (hroom : m.service? n s = none → m.opts.atCapacity m.sizeLocked = false) :
    (msgs.foldl Message.process m).opts = m.opts ∧
      ∃ new, (msgs.foldl Message.process m).service? n s = some new ∧
        new.defn.generation = (msgs.getLast hne).generation := by
  induction msgs using List.reverseRecOn with
  | nil => exact absurd rfl hne
  | append_singleton before msg ih =>
    rw [List.foldl_append, List.foldl_cons, List.foldl_nil, List.getLast_concat]
    have hmsg : msg.For n s := hfor msg (by simp)
    have hbefore : (before.foldl Message.process m).opts = m.opts ∧
        ((before.foldl Message.process m).service? n s = none →
          (before.foldl Message.process m).opts.atCapacity
            (before.foldl Message.process m).sizeLocked = false) := by
      rcases List.eq_nil_or_concat before with rfl | ⟨l, x, hx⟩
      · exact ⟨rfl, hroom⟩
      · obtain ⟨hopts, old, hold, -⟩ :=
          ih (by simp [hx]) fun y hy => hfor y (List.mem_append_left _ hy)
        exact ⟨hopts, fun h => absurd (hold.symm.trans h) (by simp)⟩
    obtain ⟨new, hstored, hdefn⟩ := process_settles _ msg hn hmsg hbefore.2
    refine ⟨(process_opts _ msg).trans hbefore.1, new, hstored, ?_⟩
    rw [hdefn, settled_generation]
    rfl

/-- With a different generation each, the seed holds the definition it processed last. A lone
message has to differ in generation from what the seed holds. -/
theorem processed_last (m : Memory) {n s : String} (msgs : List Message) (hne : msgs ≠ [])
    (hn : n ≠ "") (hfor : ∀ msg ∈ msgs, msg.For n s) (hgen : (msgs.map Message.generation).Nodup)
    (hroom : m.service? n s = none → m.opts.atCapacity m.sizeLocked = false)
    (hother : ∀ old, m.service? n s = some old →
      2 ≤ msgs.length ∨ old.defn.generation ≠ (msgs.getLast hne).generation) :
    ∃ new, (msgs.foldl Message.process m).service? n s = some new ∧
      new.defn = (msgs.getLast hne).defn m.opts := by
  obtain ⟨before, msg, rfl⟩ : ∃ before msg, msgs = before ++ [msg] :=
    (List.eq_nil_or_concat' msgs).resolve_left hne
  rw [List.foldl_append, List.foldl_cons, List.foldl_nil, List.getLast_concat]
  have hmsg : msg.For n s := hfor msg (by simp)
  by_cases hb : before = []
  · subst hb
    obtain ⟨new, hstored, hdefn⟩ := process_settles m msg hn hmsg hroom
    refine ⟨new, hstored, ?_⟩
    cases hold : m.service? n s with
    | none => rw [hold] at hdefn; exact hdefn
    | some old =>
      have hdiff : old.defn.generation ≠ msg.generation :=
        (hother old hold).resolve_left (by simp)
      rw [hold, Option.map_some, settled_of_generation_ne _ _ _ hdiff] at hdefn
      exact hdefn
  · rw [List.map_append, List.nodup_append] at hgen
    obtain ⟨hopts, old, hold, holdgen⟩ := processed_generation m before hb hn
      (fun x hx => hfor x (List.mem_append_left _ hx)) hroom
    obtain ⟨new, hstored, hdefn⟩ := process_settles (before.foldl Message.process m) msg hn hmsg
      (by rw [hold]; intro h; cases h)
    -- What `msg` meets has the generation of the message before it, so `msg` is a change.
    have hdiff : old.defn.generation ≠ msg.generation := by
      rw [holdgen]
      exact hgen.2.2 _ (List.mem_map_of_mem (List.getLast_mem hb)) _ (by simp)
    rw [hold, hopts, Option.map_some, settled_of_generation_ne _ _ _ hdiff] at hdefn
    exact ⟨new, hstored, hdefn⟩

/-- Of registrations with distinct generations the seed ends up with the highest one exactly if
it processes that one last: `Register` does not compare generations. -/
theorem seed_keeps_highest_iff (m : Memory) (n s : String) (msgs : List Message) (hne : msgs ≠ [])
    (hn : n ≠ "") (hfor : ∀ msg ∈ msgs, msg.For n s) (hgen : (msgs.map Message.generation).Nodup)
    (hroom : m.service? n s = none → m.opts.atCapacity m.sizeLocked = false)
    (hother : ∀ old, m.service? n s = some old →
      2 ≤ msgs.length ∨ old.defn.generation ≠ (msgs.getLast hne).generation) :
    (∃ msg ∈ msgs, (∀ other ∈ msgs, other.generation ≤ msg.generation) ∧
        ∃ svc, (msgs.foldl Message.process m).service? n s = some svc ∧
          svc.defn = msg.defn m.opts) ↔
      ∀ other ∈ msgs, other.generation ≤ (msgs.getLast hne).generation := by
  obtain ⟨new, hstored, hdefn⟩ := processed_last m msgs hne hn hfor hgen hroom hother
  constructor
  · rintro ⟨msg, hmsg, hhighest, svc, hsvc, hheld⟩
    obtain rfl := Option.some.inj (hstored.symm.trans hsvc)
    have hsame : (msgs.getLast hne).generation = msg.generation := by
      have := congrArg ServiceInstance.generation (hdefn.symm.trans hheld)
      exact this
    rw [hsame]
    exact hhighest
  · intro h
    exact ⟨msgs.getLast hne, List.getLast_mem hne, h, new, hstored, hdefn⟩

def webAt (port : UInt16) : ServiceInstance := { id := "web", name := "web", port := port }

/-- Two updates that arrive in order. -/
theorem seed_keeps_second_update :
    let first : Message := ⟨{ id := "n" }, webAt 80, 1, fun _ => 0⟩
    let second : Message := ⟨{ id := "n" }, webAt 81, 2, fun _ => 1⟩
    ∃ svc, ([first, second].foldl Message.process (newMemory {})).service? "n" "web" = some svc ∧
      svc.defn.generation = 2 := by
  intro first second
  have h := (seed_keeps_highest_iff (newMemory {}) "n" "web" [first, second] (by simp) (by decide)
    (by simp [first, second, Message.For, webAt]) (by decide) (by decide) (by simp)).mpr (by decide)
  obtain ⟨msg, hmsg, hhighest, svc, hsvc, hdefn⟩ := h
  refine ⟨svc, hsvc, ?_⟩
  rw [hdefn]
  rcases List.mem_cons.mp hmsg with rfl | hmsg
  · exact absurd (hhighest second (by simp)) (by decide)
  · rw [List.mem_singleton.mp hmsg]; rfl

/-- A keep-alive was built before an update and arrives after it. The seed goes back to the old
port and the old generation. -/
theorem late_keep_alive_rolls_back :
    let node : Node := { id := "n" }
    let proxy := (newProxy node 1).host (single node (webAt 80) 1)
    let first : Message := ⟨node, webAt 80, 1, fun _ => 0⟩
    let update : Message := ⟨node, webAt 81, 2, fun _ => 1⟩
    let keepAlive : Message := ⟨node, { webAt 80 with generation := 1 }, 1, fun _ => 2⟩
    let m := first.process (newMemory {})
    proxy.keepAliveRegistration "web" = some (single node keepAlive.svc keepAlive.generation) ∧
      (([update, keepAlive].foldl Message.process m).service? "n" "web").map
        (fun svc => (svc.defn.generation, svc.defn.port)) = some (1, 80) := by
  decide

end YellowPages.SeedClient
