import YellowPages.Store.RegisterLoop

/-!
# What a registration leaves under one id

A registration can list an id more than once. The seed goes through the services in order and takes
each one that `changed` tells from the one it holds.
-/

namespace YellowPages.Store

/-- The inputs that end up under id `s`. -/
def under (s : String) (inputs : List ServiceInstance) : List ServiceInstance :=
  inputs.filter fun i => serviceId i = s

theorem under_cons (s : String) (i : ServiceInstance) (rest : List ServiceInstance) :
    under s (i :: rest) = if serviceId i = s then i :: under s rest else under s rest := by
  by_cases hs : serviceId i = s <;> simp [under, hs]

def settledAll (o : Options) (now : Time) (generation : Nat) (old : Option ServiceInstance)
    (inputs : List ServiceInstance) : Option ServiceInstance :=
  inputs.foldl (fun d i => some (settled d (stamp o now generation i) now)) old

/-! ## The loop -/

theorem RegisterTurn.frame {clk : Nat → Time} {node : Node} {dfn : ServiceInstance} {p p' : Pass}
    (h : RegisterTurn clk node dfn p (some p')) (hmeta : HasMeta p.mem node.id node) {s : String}
    (hs : dfn.id ≠ s) : p'.mem.service? node.id s = p.mem.service? node.id s := by
  obtain ⟨r, hr, -⟩ := hmeta
  have hkey : ¬ (node.id = node.id ∧ dfn.id = s) := fun h => hs h.2
  cases h with
  | create _ _ hsvc =>
    rw [hsvc]
    exact (Memory.service?_createService hr dfn node.id s).trans (if_neg hkey)
  | rewrite _ _ hsvc =>
    rw [hsvc]
    exact (Memory.service?_rewriteService hr _ _ _ node.id s).trans (if_neg hkey)
  | refresh _ _ => exact (Memory.service?_setService hr node.id s).trans (if_neg hkey)

theorem registerLoop_defn? {clk : Nat → Time} {reg : Registration} {inputs : List ServiceInstance}
    {p : Pass} (hret : (registerLoop clk reg inputs p).2 = none)
    (hmeta : HasMeta p.mem reg.node.id reg.node) (s : String) :
    (registerLoop clk reg inputs p).1.mem.defn? reg.node.id s =
      settledAll p.mem.opts (clk 0) reg.generation (p.mem.defn? reg.node.id s) (under s inputs) := by
  induction inputs generalizing p with
  | nil => rfl
  | cons i rest ih =>
    have hspec := registerService_spec clk reg p i
    simp only [registerLoop] at hret ⊢
    cases hturn : registerService clk reg p i with
    | none =>
      rw [hturn] at hret
      cases hret
    | some p' =>
      rw [hturn] at hret hspec
      rw [ih hret (hspec.hasMeta hmeta), hspec.opts]
      by_cases hs : serviceId i = s
      · obtain ⟨new, hnew, hdefn⟩ := hspec.settles hmeta
        have hid : (stamp p.mem.opts (clk 0) reg.generation i).id = s := hs
        rw [hid] at hnew hdefn
        rw [under_cons, if_pos hs, Memory.defn?, hnew, Option.map_some, hdefn]
        rfl
      · rw [under_cons, if_neg hs, Memory.defn?, hspec.frame hmeta hs]
        rfl

/-- A registration that is accepted settles on the services of each id, in order. -/
theorem register_defn? {m : Memory} {clk : Nat → Time} {reg : Registration}
    (hret : (m.register clk reg).ret = none) (s : String) :
    (m.register clk reg).mem.defn? reg.node.id s =
      settledAll m.opts (clk 0) reg.generation (m.defn? reg.node.id s) (under s reg.services) := by
  unfold Memory.register at hret ⊢
  split at hret
  · cases hret
  · rename_i hvalid
    rw [if_neg hvalid]
    dsimp only at hret ⊢
    rw [registerLoop_defn? hret (hasMeta_setMeta m reg.node)]
    rw [Memory.defn?, Memory.service?_setMeta]
    rfl

/-! ## What is settled on -/

theorem equalMap_self (a : Map String) : equalMap a a = true := by
  simp only [equalMap, true_and, decide_eq_true_eq, List.all_eq_true]
  intro kv hkv
  rw [Std.ExtTreeMap.mem_toList_iff_getElem?_eq_some.mp hkv]
  rfl

theorem equalStrings_iff (a b : List String) : equalStrings a b = true ↔ a = b := by
  rw [equalStrings, decide_eq_true_eq, List.all_eq_true]
  constructor
  · rintro ⟨hlength, hall⟩
    refine List.ext_getElem hlength fun k hk hk' => ?_
    have hmem : (a[k], b[k]) ∈ a.zip b :=
      List.mem_iff_getElem.mpr ⟨k, by simpa using ⟨hk, hk'⟩, by simp⟩
    simpa using hall _ hmem
  · rintro rfl
    refine ⟨rfl, fun p hp => ?_⟩
    obtain ⟨k, hk, rfl⟩ := List.mem_iff_getElem.mp hp
    simp

theorem changed_self (d : ServiceInstance) : changed d d = false := by
  simp [changed, (equalStrings_iff _ _).mpr rfl, equalMap_self]

/-- `changed` sees every field but the id and the lease, and the metadata only up to `equalMap`. -/
theorem eq_of_not_changed {a b : ServiceInstance} (h : changed a b = false) (hid : a.id = b.id)
    (hmetadata : a.metadata = b.metadata) : { a with lastSeen := b.lastSeen } = b := by
  obtain ⟨hname, haddress, hport, httl, hgeneration, hweights, htags, -⟩ :=
    fields_of_not_changed (Bool.eq_false_iff.mp h)
  rw [equalStrings_iff] at htags
  rw [hid, hname, haddress, hport, httl, hgeneration, hweights, htags, hmetadata]

section Settled

variable {o : Options} {now : Time} {generation : Nat}

theorem changed_settled (old : Option ServiceInstance) (i : ServiceInstance) :
    changed (settled old (stamp o now generation i) now) (stamp o now generation i) = false := by
  cases old with
  | none => exact changed_self _
  | some old =>
    unfold settled
    dsimp only
    split <;> rename_i hchanged
    · exact changed_self _
    · exact Bool.eq_false_iff.mpr hchanged

theorem settledAll_concat (old : Option ServiceInstance) (inputs : List ServiceInstance)
    (i : ServiceInstance) :
    settledAll o now generation old (inputs ++ [i]) =
      some (settled (settledAll o now generation old inputs) (stamp o now generation i) now) := by
  simp [settledAll]

/-- The last service listed is no change to what the seed ends with. -/
theorem not_changed_of_last {old : Option ServiceInstance} {inputs : List ServiceInstance}
    {i : ServiceInstance} (hlast : inputs.getLast? = some i) :
    ∃ d, settledAll o now generation old inputs = some d ∧ changed d
      (stamp o now generation i) = false := by
  obtain ⟨before, rfl⟩ := List.getLast?_eq_some_iff.mp hlast
  exact ⟨_, settledAll_concat old before i, changed_settled _ i⟩

/-- A seed without the service ends with one of those listed. -/
theorem mem_of_settledAll {inputs : List ServiceInstance} {d : ServiceInstance}
    (h : settledAll o now generation none inputs = some d) :
    ∃ i ∈ inputs, d = stamp o now generation i := by
  induction inputs using List.reverseRecOn generalizing d with
  | nil => cases h
  | append_singleton inputs i ih =>
    rw [settledAll_concat] at h
    obtain rfl := Option.some.inj h
    cases hold : settledAll o now generation none inputs with
    | none => exact ⟨i, by simp, rfl⟩
    | some old =>
      unfold settled
      dsimp only
      split
      · exact ⟨i, by simp, rfl⟩
      · obtain ⟨j, hj, rfl⟩ := ih hold
        exact ⟨j, List.mem_append_left _ hj, rfl⟩

/-- `changed` does not look at the lease, so what is settled on does not depend on the time. -/
theorem settledAll_at (now' : Time) (inputs : List ServiceInstance) :
    settledAll o now generation none inputs =
      (settledAll o now' generation none inputs).map fun d => { d with lastSeen := now } := by
  induction inputs using List.reverseRecOn with
  | nil => rfl
  | append_singleton inputs i ih =>
    rw [settledAll_concat, settledAll_concat, ih]
    cases settledAll o now' generation none inputs with
    | none => rfl
    | some d =>
      have hsame : changed { d with lastSeen := now } (stamp o now generation i) =
          changed d (stamp o now' generation i) := rfl
      simp only [Option.map_some, settled, hsame]
      split <;> rfl

theorem stamp_eq_of_not_changed {i j : ServiceInstance}
    (h : changed (stamp o now generation i) (stamp o now generation j) = false)
    (hid : serviceId i = serviceId j) (hmetadata : i.metadata = j.metadata) :
    stamp o now generation i = stamp o now generation j :=
  eq_of_not_changed h hid hmetadata

/-- A stored definition settles to the submitted one unless `changed` takes other metadata for it. -/
theorem settled_eq_stamp_iff {old : Option ServiceInstance} {i : ServiceInstance}
    (hid : ∀ d ∈ old, d.id = serviceId i) :
    settled old (stamp o now generation i) now = stamp o now generation i ↔
      ∀ d ∈ old, changed d (stamp o now generation i) = false → d.metadata = i.metadata := by
  cases old with
  | none => simp [settled]
  | some d =>
    have hid' : d.id = (stamp o now generation i).id := hid d rfl
    unfold settled
    dsimp only
    split <;> rename_i hchanged
    · simp [hchanged]
    · rw [Bool.not_eq_true] at hchanged
      constructor
      · intro heq d' hd' _
        obtain rfl := Option.some.inj hd'
        have hmetadata := congrArg ServiceInstance.metadata heq
        exact hmetadata
      · intro hsame
        exact eq_of_not_changed hchanged hid' (hsame d rfl hchanged)

end Settled

/-! ## A registration that changes nothing -/

/-- The record with a lease as of `now`. -/
def ServiceRec.refreshed (svc : ServiceRec) (now : Time) : ServiceRec :=
  { svc with defn := { svc.defn with lastSeen := now } }

theorem register_same {m : Memory} {clk : Nat → Time} {node : Node} {svc : ServiceInstance}
    {generation : Nat} {old : ServiceRec} (hid : node.id ≠ "") (hname : svc.name ≠ "")
    (hold : m.service? node.id (serviceId svc) = some old)
    (hsame : changed old.defn (stamp m.opts (clk 0) generation svc) = false) :
    m.register clk (single node svc generation) =
      ⟨(m.setMeta node).setService node.id (serviceId svc) (old.refreshed (clk 0)), [], none⟩ := by
  have hbefore : (m.setMeta node).service? node.id (stamp m.opts (clk 0) generation svc).id =
      some old :=
    (Memory.service?_setMeta node node.id _).trans hold
  rw [Memory.register, if_neg (by simp [single, hid, hname])]
  simp only [single, registerLoop, registerService]
  have hopts : (m.setMeta node).opts = m.opts := rfl
  rw [hopts, hbefore]
  simp only [hsame]
  rfl

/-! ## What is shown after a registration -/

/-- A lookup of everything has the service on the node of the registration, as it was submitted. -/
def ShownAsSubmitted (m : Memory) (now : Time) (reg : Registration) (i : ServiceInstance) : Prop :=
  ∃ e ∈ (m.lookup now {}).entries, e.node = reg.node ∧ e.service = stamp m.opts now reg.generation i

theorem lease_of_seen_now {o : Options} {svc : ServiceRec} {now : Time}
    (hseen : svc.defn.lastSeen = now) (httl : 0 < svc.defn.ttl) : (o.lease svc now).2 = false := by
  rw [Bool.eq_false_iff, ne_eq, lease_expired_iff, hseen]
  rintro ⟨-, hage, -⟩
  have hzero : timeSub now now = 0 := by simp [timeSub]
  rw [hzero] at hage
  exact absurd hage (not_lt.mpr httl.le)

theorem Reachable.defaultTTL_pos {m : Memory} (h : Reachable m) : 0 < m.opts.defaultTTL := by
  obtain ⟨opts, calls, rfl⟩ := h
  rw [steps_opts (run_steps calls _)]
  exact defaultTTL_newMemory opts

theorem under_eq_singleton {inputs : List ServiceInstance} (hids : (inputs.map serviceId).Nodup)
    {i : ServiceInstance} (hi : i ∈ inputs) : under (serviceId i) inputs = [i] := by
  have hinj : ∀ j ∈ inputs, serviceId j = serviceId i ↔ j = i := by
    intro j hj
    exact ⟨fun h => List.inj_on_of_nodup_map hids hj hi h, congrArg serviceId⟩
  have hnodup : inputs.Nodup := List.Nodup.of_map serviceId hids
  rw [under, List.filter_congr fun j hj => decide_eq_decide.mpr (hinj j hj), List.filter_eq,
    List.count_eq_one_of_mem hnodup hi]
  rfl

section Shown

variable {m : Memory} {clk : Nat → Time} {reg : Registration}

/-- The record of a submitted service whose id is listed once. -/
theorem register_settles (hids : (reg.services.map serviceId).Nodup)
    (hret : (m.register clk reg).ret = none) {i : ServiceInstance} (hi : i ∈ reg.services) :
    ∃ svc, (m.register clk reg).mem.service? reg.node.id (serviceId i) = some svc ∧
      svc.defn = settled (m.defn? reg.node.id (serviceId i)) (stamp m.opts (clk 0) reg.generation i)
        (clk 0) := by
  have hdefn := register_defn? hret (serviceId i)
  rw [under_eq_singleton hids hi] at hdefn
  exact Option.map_eq_some_iff.mp hdefn

theorem shownAsSubmitted_iff (hm : Reachable m) (hids : (reg.services.map serviceId).Nodup)
    (hret : (m.register clk reg).ret = none) {i : ServiceInstance} (hi : i ∈ reg.services) :
    ShownAsSubmitted (m.register clk reg).mem (clk 0) reg i ↔
      ∀ d ∈ m.defn? reg.node.id (serviceId i),
        changed d (stamp m.opts (clk 0) reg.generation i) = false → d.metadata = i.metadata := by
  have hreach : Reachable (m.register clk reg).mem := hm.exec (.register clk reg)
  have hopts : (m.register clk reg).mem.opts = m.opts := exec_opts (.register clk reg) m
  obtain ⟨svc, hsvc, hdefn⟩ := register_settles hids hret hi
  obtain ⟨hid, hnames⟩ := wellFormed_of_accepted hret
  obtain ⟨r, hr, hmeta⟩ := register_hasMeta m clk reg hid hnames
  have hnode : (m.register clk reg).mem.node? reg.node.id = some reg.node := by
    rw [Memory.node?_of_node hr, hmeta]
  have hstored : ∀ d ∈ m.defn? reg.node.id (serviceId i), d.id = serviceId i := by
    intro d hd
    obtain ⟨old, hold, rfl⟩ := Option.map_eq_some_iff.mp hd
    exact hm.filed.service_id _ _ old hold
  rw [← settled_eq_stamp_iff hstored, ← hdefn]
  have hlookup := exists_lookup_iff (clk 0) hreach.filed hnode hsvc
    (P := fun e => e.node = reg.node ∧ e.service = stamp m.opts (clk 0) reg.generation i)
  unfold ShownAsSubmitted
  rw [hopts]
  constructor
  · rintro ⟨e, he, heNode, heService⟩
    have hkey : e.key = toLex (reg.node.id, serviceId i) := by
      rw [ServiceEntry.key, heNode, heService]
      rfl
    exact (hlookup.mp ⟨e, he, hkey, heNode, heService⟩).2.2
  · intro heq
    have hlive : (m.opts.lease svc (clk 0)).2 = false := by
      apply lease_of_seen_now
      · rw [heq]
        rfl
      · rw [heq]
        exact clampTTL_pos hm.defaultTTL_pos i.ttl
    rw [← hopts] at hlive
    obtain ⟨e, he, -, heNode, heService⟩ := hlookup.mpr ⟨hlive, rfl, heq⟩
    exact ⟨e, he, heNode, heService⟩

end Shown

/-- Every service of an accepted registration is shown as it was submitted exactly if none of them
is stored with other metadata that `changed` takes for the submitted one. -/
theorem registered_as_submitted_iff (m : Memory) (hm : Reachable m) (clk : Nat → Time)
    (reg : Registration) (hids : (reg.services.map serviceId).Nodup)
    (hret : (m.register clk reg).ret = none) :
    (∀ i ∈ reg.services, ShownAsSubmitted (m.register clk reg).mem (clk 0) reg i) ↔
      ∀ i ∈ reg.services, ∀ d ∈ m.defn? reg.node.id (serviceId i),
        changed d (stamp m.opts (clk 0) reg.generation i) = false → d.metadata = i.metadata :=
  forall₂_congr fun _ hi => shownAsSubmitted_iff hm hids hret hi

/-- Of two stored services, one is submitted as it was and the other with new metadata and a new
port. -/
theorem registered_as_submitted_iff_web :
    let web : ServiceInstance :=
      { id := "", name := "web", metadata := Std.ExtTreeMap.ofList [("a", "")] }
    let db (port : UInt16) (value : String) : ServiceInstance :=
      { id := "db", name := "db", port := port, metadata := Std.ExtTreeMap.ofList [("a", value)] }
    let reg (port : UInt16) (value : String) : Registration :=
      { node := { id := "n1" }, services := [web, db port value], generation := 1 }
    let m := ((newMemory {}).run [.register (fun _ => 0) (reg 80 "x")]).1
    (m.register (fun _ => second) (reg 81 "y")).ret = none ∧
      ∀ i ∈ (reg 81 "y").services,
        ShownAsSubmitted (m.register (fun _ => second) (reg 81 "y")).mem second (reg 81 "y") i := by
  intro web db reg m
  have hret : (m.register (fun _ => second) (reg 81 "y")).ret = none := by decide +kernel
  refine ⟨hret, (registered_as_submitted_iff m ⟨{}, _, rfl⟩ (fun _ => second) (reg 81 "y")
    (by decide) hret).mpr ?_⟩
  decide +kernel

/-- The metadata {a: ""} is stored, and {b: "x"} is taken for a refresh of it. -/
theorem registered_metadata_kept_back :
    ¬ ∀ (opts : Options) (calls : List Call) (clk : Nat → Time) (reg : Registration),
      let m := ((newMemory opts).run calls).1
      (reg.services.map serviceId).Nodup → (m.register clk reg).ret = none →
        ∀ i ∈ reg.services, ShownAsSubmitted (m.register clk reg).mem (clk 0) reg i := by
  intro h
  let web (key value : String) : ServiceInstance :=
    { id := "web", name := "web", metadata := Std.ExtTreeMap.ofList [(key, value)] }
  obtain ⟨e, he, -, hservice⟩ :=
    h {} [.register (fun _ => 0) (single { id := "n1" } (web "a" "") 1)] (fun _ => 0)
    (single { id := "n1" } (web "b" "x") 1) (by decide) (by decide +kernel) (web "b" "x")
      (by simp [single])
  have hstale : ∀ e ∈
      ((((newMemory {}).run [.register (fun _ => 0) (single { id := "n1" } (web "a" "") 1)]).1.register
      (fun _ => 0) (single { id := "n1" } (web "b" "x") 1)).mem.lookup 0 {}).entries,
        e.service.metadata = Std.ExtTreeMap.ofList [("a", "")] := by decide +kernel
  have hmetadata := hstale e he
  rw [hservice] at hmetadata
  exact absurd hmetadata (by decide +kernel)

end YellowPages.Store
