import YellowPages.Store.Capacity
import YellowPages.Store.Merge

/-!
# What a refused write leaves behind

Register finds out that it is over capacity inside its loop, and Merge compares an entry after it
has set the attributes of its node. Both have written by then.
-/

namespace YellowPages.Store

open Lib

def Outcome.NoTrace {α : Type} (o : Outcome α) (m : Memory) : Prop := o.mem = m ∧ o.events = []

/-! ## Writes that change nothing -/

theorem setMeta_eq_iff {m : Memory} {node : Node} : m.setMeta node = m ↔ HasMeta m node.id node := by
  constructor
  · intro h
    rw [← h]
    exact hasMeta_setMeta m node
  · rintro ⟨r, hr, rfl⟩
    have hnodes : m.nodes.insert r.nodeMeta.id ⟨r.nodeMeta, r.services⟩ = m.nodes := by
      refine Std.ExtTreeMap.ext_getElem? fun n => ?_
      rw [Std.ExtTreeMap.getElem?_insert]
      split <;> rename_i hn
      · rw [← Std.compare_eq_iff_eq.mp hn, hr]
      · rfl
    simp [Memory.setMeta, hr, hnodes]

theorem setService_self {m : Memory} {n s : String} {svc : ServiceRec} (h : m.service? n s = some svc) :
    m.setService n s svc = m := by
  obtain ⟨r, hr, hs⟩ := Memory.service?_eq_some.mp h
  have hservices : r.services.insert s svc = r.services := by
    refine Std.ExtTreeMap.ext_getElem? fun s' => ?_
    rw [Std.ExtTreeMap.getElem?_insert]
    split <;> rename_i hs'
    · rw [← Std.compare_eq_iff_eq.mp hs', hs]
    · rfl
  have hnodes : (m.nodes.modify n fun r => { r with services := r.services.insert s svc }) =
      m.nodes := by
    refine Std.ExtTreeMap.ext_getElem? fun n' => ?_
    rw [Std.ExtTreeMap.getElem?_modify]
    split <;> rename_i hn
    · obtain rfl := Std.compare_eq_iff_eq.mp hn
      simp [hr, hservices]
    · rfl
  simp [Memory.setService, hnodes]

/-! ## A peer's entry that does not win -/

/-- The instance is stored with an equal or a greater rank, or it is new and there is no room. -/
def Loses (m : Memory) (e : ServiceEntry) : Prop :=
  (∃ old ∈ m.service? e.node.id e.service.id, e.service.rank ≤ old.defn.rank) ∨
    m.service? e.node.id e.service.id = none ∧ m.opts.atCapacity m.sizeLocked = true

instance (m : Memory) (e : ServiceEntry) : Decidable (Loses m e) :=
  inferInstanceAs (Decidable (_ ∨ _ ∧ _))

theorem merge_loser {m : Memory} {e : ServiceEntry} (h : Loses m e) (clk : Nat → Time) :
    m.merge clk [e] = ⟨if Valid e then m.setMeta e.node else m, [], 0⟩ := by
  unfold Memory.merge
  have hturn := mergeEntry_spec clk ⟨⟨m, m.sizeLocked, []⟩, 0⟩ e
  rw [List.foldl_cons, List.foldl_nil]
  generalize mergeEntry clk ⟨⟨m, m.sizeLocked, []⟩, 0⟩ e = p' at hturn
  cases hturn with
  | skip hvalid => simp [hvalid]
  | full hvalid _ _ => simp [hvalid]
  | lose hvalid _ _ => simp [hvalid]
  | create _ hnew hroom _ =>
    rcases h with ⟨old, hold, -⟩ | ⟨-, hfull⟩
    · exact absurd (hold.symm.trans hnew) (by simp)
    · exact absurd (hfull.symm.trans hroom) (by simp)
  | win _ hold hrank _ =>
    rcases h with ⟨old, hold', hle⟩ | ⟨hnew, -⟩
    · obtain rfl := Option.some.inj (hold'.symm.trans hold)
      exact absurd hrank (not_lt.mpr hle)
    · exact absurd (hnew.symm.trans hold) (by simp)

/-- A losing entry leaves the registry alone exactly if it is skipped, or the node is stored with
the attributes that the entry has. -/
theorem losing_entry_ignored_iff (m : Memory) (clk : Nat → Time) (e : ServiceEntry) (h : Loses m e) :
    (m.merge clk [e]).ret = 0 ∧ (m.merge clk [e]).mem = m ↔
      ¬ Valid e ∨ HasMeta m e.node.id e.node := by
  rw [merge_loser h, ← setMeta_eq_iff]
  dsimp only
  split <;> rename_i hvalid
  · simp [hvalid]
  · simp [hvalid]

theorem losing_entry_ignored_iff_web :
    let clk : Nat → Time := fun _ => 0
    let node : Node := { id := "n1", address := "10.0.0.2" }
    let m := ((newMemory {}).run [.register clk (single node { id := "web", name := "web" } 2)]).1
    let e : ServiceEntry :=
      { node := node, service := { id := "web", name := "web", generation := 1 }, health := .passing }
    Loses m e ∧ (m.merge clk [e]).ret = 0 ∧ (m.merge clk [e]).mem = m := by
  intro clk node m e
  have hloses : Loses m e := by decide +kernel
  have hmeta : HasMeta m e.node.id e.node :=
    register_hasMeta (newMemory {}) clk _ (by decide) (by decide)
  exact ⟨hloses, (losing_entry_ignored_iff m clk e hloses).mpr (Or.inr hmeta)⟩

/-- The node was registered at 10.0.0.2, and a peer's older entry moves it back to 10.0.0.1. -/
theorem losing_entry_resets_node :
    ¬ ∀ (opts : Options) (calls : List Call) (clk : Nat → Time) (e : ServiceEntry),
      let m := ((newMemory opts).run calls).1
      Loses m e → (m.merge clk [e]).ret = 0 ∧ (m.merge clk [e]).mem = m := by
  intro h
  let node : Node := { id := "n1", address := "10.0.0.2" }
  let e : ServiceEntry :=
    { node := { id := "n1", address := "10.0.0.1" }
      service := { id := "web", name := "web", generation := 1 }
      health := .passing }
  have hsame :=
    h {} [.register (fun _ => 0) (single node { id := "web", name := "web" } 2)] (fun _ => 0) e
    (by decide +kernel)
  exact absurd hsame.2 (by decide +kernel)

/-! ## A registration over capacity -/

/-- The services before the first one that the node does not hold. -/
def knownFirst (m : Memory) (n : String) (inputs : List ServiceInstance) : List ServiceInstance :=
  inputs.takeWhile fun i => (m.service? n (serviceId i)).isSome

/-- Registering `i` writes what is stored: no change, and a lease taken at this very instant. -/
def Still (m : Memory) (clk : Nat → Time) (reg : Registration) (i : ServiceInstance) : Prop :=
  ∃ old ∈ m.service? reg.node.id (serviceId i),
    changed old.defn (stamp m.opts (clk 0) reg.generation i) = false ∧ old.defn.lastSeen = clk 0

instance (m : Memory) (clk : Nat → Time) (reg : Registration) (i : ServiceInstance) :
    Decidable (Still m clk reg i) := inferInstanceAs (Decidable (∃ _ ∈ m.service? _ _, _ ∧ _))

section Register

variable {m : Memory} {clk : Nat → Time} {reg : Registration}

theorem Still.registerService {i : ServiceInstance} (h : Still m clk reg i) (size : Nat)
    (events : List ChangeEvent) :
    registerService clk reg ⟨m, size, events⟩ i = some ⟨m, size, events⟩ := by
  obtain ⟨old, hold, hsame, hseen⟩ := h
  have hturn := registerService_spec clk reg ⟨m, size, events⟩ i
  generalize Store.registerService clk reg ⟨m, size, events⟩ i = r at hturn
  cases hturn with
  | full hnew _ => exact absurd (hold.symm.trans hnew) (by simp)
  | create hnew _ _ => exact absurd (hold.symm.trans hnew) (by simp)
  | rewrite hother hchanged _ =>
    obtain rfl : old = _ := Option.some.inj (hold.symm.trans hother)
    exact absurd (hsame.symm.trans hchanged) (by simp)
  | refresh hother _ =>
    obtain rfl : old = _ := Option.some.inj (hold.symm.trans hother)
    have hrefreshed :
        ({ old with defn := { old.defn with lastSeen := clk 0 } } : ServiceRec) = old := by
      rw [← hseen]
    rw [hrefreshed, setService_self hother]

theorem registerLoop_still {size : Nat} (hfull : m.opts.atCapacity size = true)
    (inputs : List ServiceInstance) (events : List ChangeEvent)
    (h : ∀ i ∈ knownFirst m reg.node.id inputs, Still m clk reg i) :
    (registerLoop clk reg inputs ⟨m, size, events⟩).1 = ⟨m, size, events⟩ := by
  induction inputs with
  | nil => rfl
  | cons i rest ih =>
    unfold registerLoop
    cases hi : m.service? reg.node.id (serviceId i) with
    | none =>
      -- The first new service is the one that is refused.
      have hturn := registerService_spec clk reg ⟨m, size, events⟩ i
      generalize registerService clk reg ⟨m, size, events⟩ i = r at hturn
      cases hturn with
      | full _ _ => rfl
      | create _ hroom _ => exact absurd (hfull.symm.trans hroom) (by simp)
      | rewrite hold _ _ => exact absurd (hi.symm.trans hold) (by simp)
      | refresh hold _ => exact absurd (hi.symm.trans hold) (by simp)
    | some old =>
      have hknown : knownFirst m reg.node.id (i :: rest) = i :: knownFirst m reg.node.id rest := by
        simp [knownFirst, hi]
      rw [hknown, List.forall_mem_cons] at h
      rw [h.1.registerService]
      exact ih h.2

/-! ### What the refused loop has accepted -/

theorem subset_accepted (m : Memory) (n : String) (seen inputs : List ServiceInstance) :
    ∀ i ∈ seen, i ∈ accepted m n seen inputs := by
  induction inputs generalizing seen with
  | nil => exact fun i hi => hi
  | cons j rest ih =>
    intro i hi
    unfold accepted
    split
    · exact ih (seen ++ [j]) i (List.mem_append_left _ hi)
    · exact hi

theorem knownFirst_accepted {n : String} (seen inputs : List ServiceInstance) (hfits : Fits m n seen) :
    ∀ i ∈ knownFirst m n inputs, i ∈ accepted m n seen inputs := by
  induction inputs generalizing seen with
  | nil => simp [knownFirst]
  | cons j rest ih =>
    intro i hi
    cases hj : m.service? n (serviceId j) with
    | none => simp [knownFirst, hj] at hi
    | some old =>
      have hneeded : needed m n (seen ++ [j]) = needed m n seen := by simp [needed_snoc, hj]
      have hfits' : Fits m n (seen ++ [j]) := by
        unfold Fits at hfits ⊢
        rwa [hneeded]
      unfold accepted
      rw [if_pos hfits']
      simp only [knownFirst, hj, List.takeWhile_cons, Option.isSome_some, if_true, List.mem_cons] at hi
      rcases hi with rfl | hi
      · exact subset_accepted m n _ rest i (by simp)
      · exact ih _ hfits' i hi

theorem exists_refused {n : String} (seen inputs : List ServiceInstance)
    (hnot : ¬ Fits m n (seen ++ inputs)) (hfits : Fits m n seen) :
    ∃ i, ¬ Fits m n (accepted m n seen inputs ++ [i]) := by
  induction inputs generalizing seen with
  | nil => exact absurd hfits (by simpa using hnot)
  | cons i rest ih =>
    unfold accepted
    split <;> rename_i hi
    · exact ih (seen ++ [i]) (by simpa using hnot) hi
    · exact ⟨i, hi⟩

/-- One more service does not fit and none was added so far, so there was no room to begin with. -/
theorem atCapacity_of_refused {n : String} {seen : List ServiceInstance} {i : ServiceInstance}
    (hnone : needed m n seen = ∅) (hnot : ¬ Fits m n (seen ++ [i])) :
    m.opts.atCapacity m.sizeLocked = true := by
  unfold Fits at hnot
  rw [needed_snoc, hnone] at hnot
  have hcard : ∀ s : String, (insert s (∅ : Finset String)).card = 1 := fun s => by simp
  split at hnot
  · rw [hcard] at hnot
    simp only [not_or, not_le] at hnot
    simp only [Options.atCapacity, decide_eq_true_eq]
    omega
  · exact absurd (Or.inl rfl) hnot

/-- What a loop that left no trace says of the services it has accepted. -/
theorem Registering.still {seen : List ServiceInstance} {p : Pass} (h : Registering m clk reg seen p)
    (hmem : p.mem = m) (hevents : p.events = []) {i : ServiceInstance} (hi : i ∈ seen) :
    Still m clk reg i := by
  have hmapped : serviceId i ∈ seen.map serviceId := List.mem_map_of_mem hi
  cases hold : m.service? reg.node.id (serviceId i) with
  | none =>
    have hneeded : serviceId i ∈ needed m reg.node.id seen := by
      simp only [needed, Finset.mem_filter, List.mem_toFinset]
      exact ⟨hmapped, hold⟩
    have hheld := (h.held (serviceId i)).mp (by rw [hmem, hold])
    exact absurd hneeded hheld.2
  | some old =>
    have hdefn : m.defn? reg.node.id (serviceId i) = some old.defn := by simp [Memory.defn?, hold]
    refine ⟨old, hold, ?_, ?_⟩
    · rw [Bool.eq_false_iff]
      intro hchanged
      obtain ⟨ev, hev, -⟩ := (h.puts _ _ hdefn).mpr ⟨i, hi, rfl, hchanged⟩
      rw [hevents] at hev
      cases hev
    · rcases h.leases (serviceId i) old (by rw [hmem, hold]) with ⟨hout, -⟩ | ⟨j, -, -, hrefreshed⟩
      · exact absurd hmapped hout
      · exact hrefreshed.seen

theorem Registering.none_needed {seen : List ServiceInstance} {p : Pass}
    (h : Registering m clk reg seen p) (hmem : p.mem = m) : needed m reg.node.id seen = ∅ := by
  rw [Finset.eq_empty_iff_forall_notMem]
  intro s hs
  have hnew : m.service? reg.node.id s = none := (Finset.mem_filter.mp hs).2
  exact ((h.held s).mp (by rw [hmem, hnew])).2 hs

/-! ### The call -/

theorem noTrace_iff_of_wellFormed (hwell : WellFormed reg)
    (hret : (m.register clk reg).ret = some .capacity) :
    (m.register clk reg).NoTrace m ↔ HasMeta m reg.node.id reg.node ∧
      m.opts.atCapacity m.sizeLocked = true ∧
        ∀ i ∈ knownFirst m reg.node.id reg.services, Still m clk reg i := by
  have hnot := (register_capacity_iff hwell.1 hwell.2).mp hret
  have hstart := Registering.start m clk reg
  constructor
  · rintro ⟨hmem, hevents⟩
    have hmeta := register_hasMeta m clk reg hwell.1 hwell.2
    rw [hmem] at hmeta
    rw [register_eq_loop hwell.1 hwell.2] at hmem hevents
    have hrun := hstart.run reg.services
    obtain ⟨i, hi⟩ := exists_refused [] reg.services hnot hstart.fits
    refine ⟨hmeta, atCapacity_of_refused (hrun.none_needed hmem) hi, ?_⟩
    intro j hj
    exact hrun.still hmem hevents (knownFirst_accepted [] reg.services hstart.fits j hj)
  · rintro ⟨hmeta, hfull, hstill⟩
    rw [register_eq_loop hwell.1 hwell.2, setMeta_eq_iff.mpr hmeta]
    have hloop :
        (registerLoop clk reg reg.services ⟨m, m.sizeLocked, []⟩).1 = ⟨m, m.sizeLocked, []⟩ :=
      registerLoop_still hfull reg.services [] hstill
    exact ⟨congrArg Pass.mem hloop, congrArg Pass.events hloop⟩

end Register

/-- A refused registration leaves no trace exactly if it was malformed, or found its node as it
describes it and no room from the start, and what it repeats before its first new service is
unchanged and was registered at this very instant. -/
theorem refused_without_trace_iff (m : Memory) (clk : Nat → Time) (reg : Registration)
    (err : StoreError) (hret : (m.register clk reg).ret = some err) :
    (m.register clk reg).NoTrace m ↔ ¬ WellFormed reg ∨ HasMeta m reg.node.id reg.node ∧
      m.opts.atCapacity m.sizeLocked = true ∧
        ∀ i ∈ knownFirst m reg.node.id reg.services, Still m clk reg i := by
  by_cases hwell : WellFormed reg
  · have hcapacity : (m.register clk reg).ret = some .capacity := by
      rw [register_eq_loop hwell.1 hwell.2] at hret ⊢
      exact registerLoop_capacity _ _ (Option.ne_none_iff_exists'.mpr ⟨err, hret⟩)
    rw [noTrace_iff_of_wellFormed hwell hcapacity]
    simp [hwell]
  · rw [register_not_wellFormed hwell]
    simp [hwell, Outcome.NoTrace]

theorem refused_without_trace_iff_web :
    let clk : Nat → Time := fun _ => 0
    let node : Node := { id := "n1" }
    let m := ((newMemory { maxServices := 1 }).run
      [.register clk (single node { id := "web", name := "web" } 1)]).1
    let reg : Registration :=
      { node := node, services := [{ id := "web", name := "web" }, { id := "db", name := "db" }],
        generation := 1 }
    (m.register clk reg).ret = some .capacity ∧ (m.register clk reg).NoTrace m := by
  intro clk node m reg
  have hret : (m.register clk reg).ret = some .capacity := by decide +kernel
  have hmeta : HasMeta m reg.node.id reg.node :=
    register_hasMeta (newMemory { maxServices := 1 }) clk _ (by decide) (by decide)
  exact ⟨hret, (refused_without_trace_iff m clk reg .capacity hret).mpr
    (Or.inr ⟨hmeta, by decide +kernel, by decide +kernel⟩)⟩

/-- With room for one service, a refused request for two has stored the first. -/
theorem refused_registration_leaves_trace :
    ¬ ∀ (opts : Options) (calls : List Call) (clk : Nat → Time) (reg : Registration)
      (err : StoreError),
      let m := ((newMemory opts).run calls).1
      (m.register clk reg).ret = some err → (m.register clk reg).NoTrace m := by
  intro h
  let services : List ServiceInstance := [{ id := "web", name := "web" }, { id := "db", name := "db" }]
  have htrace := h { maxServices := 1 } [] (fun _ => 0)
    { node := { id := "n1" }, services := services, generation := 1 } .capacity (by decide +kernel)
  exact absurd htrace.1 (by decide +kernel)

end YellowPages.Store
