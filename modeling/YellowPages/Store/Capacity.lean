import YellowPages.Store.RegisterLoop

/-!
# The capacity limit

Register and Merge count the services they add, from the size at the start of the call. The
count stays the size, so neither goes over `MaxServices`, and Register refuses a request exactly
if the services it would add do not fit.
-/

namespace YellowPages.Store

open Lib

/-! ## The size -/

namespace Memory

/-- The stored services, as (node, service) pairs. -/
def stored (m : Memory) : Finset (String × String) :=
  (m.nodes.toList.flatMap fun p => p.2.services.keys.map fun s => (p.1, s)).toFinset

theorem mem_stored (m : Memory) (n s : String) : (n, s) ∈ m.stored ↔ m.service? n s ≠ none := by
  simp only [stored, List.mem_toFinset, List.mem_flatMap, List.mem_map, Prod.mk.injEq]
  constructor
  · rintro ⟨⟨n', r⟩, hr, s', hs', rfl, rfl⟩
    rw [Std.ExtTreeMap.mem_toList_iff_getElem?_eq_some] at hr
    rw [service?_of_node hr]
    rw [Std.ExtTreeMap.mem_keys, Std.ExtTreeMap.mem_iff_isSome_getElem?] at hs'
    exact Option.isSome_iff_ne_none.mp hs'
  · intro h
    obtain ⟨svc, hsvc⟩ := Option.ne_none_iff_exists'.mp h
    obtain ⟨r, hr, hs⟩ := service?_eq_some.mp hsvc
    refine ⟨(n, r), Std.ExtTreeMap.mem_toList_iff_getElem?_eq_some.mpr hr, s, ?_, rfl, rfl⟩
    rw [Std.ExtTreeMap.mem_keys, Std.ExtTreeMap.mem_iff_isSome_getElem?, hs]
    rfl

theorem card_stored (m : Memory) : m.stored.card = m.sizeLocked := by
  have hnodup : (m.nodes.toList.flatMap fun p => p.2.services.keys.map fun s => (p.1, s)).Nodup := by
    rw [List.nodup_flatMap]
    refine ⟨fun p _ => ?_, Std.ExtTreeMap.distinct_keys_toList.imp ?_⟩
    · exact (List.nodup_iff_pairwise_ne.mpr (by simpa using p.2.services.distinct_keys)).map
        fun a b hab => (Prod.mk.inj hab).2
    · intro p p' hne
      simp only [Function.onFun, List.disjoint_left, List.mem_map]
      rintro _ ⟨s, -, rfl⟩ ⟨s', -, hs'⟩
      exact hne (by simp [(Prod.mk.inj hs').1])
  rw [stored, List.toFinset_card_of_nodup hnodup, List.length_flatMap, sizeLocked]
  simp

variable {m m' : Memory} {n s : String} {svc : ServiceRec}

theorem sizeLocked_le (h : ∀ n s, m'.service? n s ≠ none → m.service? n s ≠ none) :
    m'.sizeLocked ≤ m.sizeLocked := by
  rw [← card_stored, ← card_stored]
  apply Finset.card_le_card
  rintro ⟨n, s⟩ hk
  exact (mem_stored m n s).mpr (h n s ((mem_stored m' n s).mp hk))

theorem sizeLocked_congr (h : ∀ n s, m'.service? n s = m.service? n s) :
    m'.sizeLocked = m.sizeLocked := by
  apply le_antisymm
  · exact sizeLocked_le fun n s hs => by rwa [← h]
  · exact sizeLocked_le fun n s hs => by rwa [h]

theorem pair_eq_iff (n s n' s' : String) : (n', s') = (n, s) ↔ n = n' ∧ s = s' := by
  rw [eq_comm, Prod.mk.injEq]

theorem stored_put
    (hput : ∀ n' s', m'.service? n' s' = if n = n' ∧ s = s' then some svc else m.service? n' s') :
    m'.stored = insert (n, s) m.stored := by
  ext ⟨n', s'⟩
  rw [Finset.mem_insert, mem_stored, mem_stored, hput, pair_eq_iff]
  by_cases hk : n = n' ∧ s = s'
  · simp [hk]
  · simp [hk]

theorem sizeLocked_put_new (hnew : m.service? n s = none)
    (hput : ∀ n' s', m'.service? n' s' = if n = n' ∧ s = s' then some svc else m.service? n' s') :
    m'.sizeLocked = m.sizeLocked + 1 := by
  have hnot : (n, s) ∉ m.stored := by simp [mem_stored, hnew]
  rw [← card_stored, stored_put hput, Finset.card_insert_of_notMem hnot, card_stored]

theorem sizeLocked_put_held (hheld : m.service? n s ≠ none)
    (hput : ∀ n' s', m'.service? n' s' = if n = n' ∧ s = s' then some svc else m.service? n' s') :
    m'.sizeLocked = m.sizeLocked := by
  rw [← card_stored, stored_put hput, Finset.insert_eq_of_mem ((mem_stored m n s).mpr hheld),
    card_stored]

theorem sizeLocked_remove (hheld : m.service? n s ≠ none)
    (hput : ∀ n' s', m'.service? n' s' = if n = n' ∧ s = s' then none else m.service? n' s') :
    m'.sizeLocked + 1 = m.sizeLocked := by
  have hstored : m'.stored = m.stored.erase (n, s) := by
    ext ⟨n', s'⟩
    rw [Finset.mem_erase, mem_stored, mem_stored, hput]
    simp only [ne_eq, pair_eq_iff]
    by_cases hk : n = n' ∧ s = s'
    · simp [hk]
    · simp [hk]
  rw [← card_stored, hstored, Finset.card_erase_add_one ((mem_stored m n s).mpr hheld), card_stored]

/-- No more services than the limit, if there is one. -/
def Within (m : Memory) : Prop := 0 < m.opts.maxServices → (m.sizeLocked : Int) ≤ m.opts.maxServices

theorem Within.of_le (h : m.Within) (hopts : m'.opts = m.opts) (hle : m'.sizeLocked ≤ m.sizeLocked) :
    m'.Within := by
  intro hmax
  rw [hopts] at hmax ⊢
  have hsize := h hmax
  omega

end Memory

/-! ## The running count -/

/-- The count of a loop is the size of the registry, and the registry is within its limit. -/
structure Counted (p : Pass) : Prop where
  size : p.size = p.mem.sizeLocked
  within : p.mem.Within

namespace Counted

variable {p p' : Pass} {n s : String} {svc : ServiceRec}

theorem same (h : Counted p) (hopts : p'.mem.opts = p.mem.opts) (hsize : p'.size = p.size)
    (hlocked : p'.mem.sizeLocked = p.mem.sizeLocked) : Counted p' :=
  ⟨by rw [hsize, hlocked, h.size], h.within.of_le hopts hlocked.le⟩

theorem create (h : Counted p) (hopts : p'.mem.opts = p.mem.opts) (hsize : p'.size = p.size + 1)
    (hroom : p.mem.opts.atCapacity p.size = false) (hnew : p.mem.service? n s = none)
    (hput : ∀ n' s',
      p'.mem.service? n' s' = if n = n' ∧ s = s' then some svc else p.mem.service? n' s') :
    Counted p' := by
  have hlocked := Memory.sizeLocked_put_new hnew hput
  refine ⟨by rw [hsize, hlocked, h.size], ?_⟩
  intro hmax
  rw [hopts] at hmax ⊢
  simp only [Options.atCapacity, decide_eq_false_iff_not, not_and] at hroom
  have hlt := hroom hmax
  rw [h.size] at hlt
  omega

theorem replace (h : Counted p) (hopts : p'.mem.opts = p.mem.opts) (hsize : p'.size = p.size)
    (hheld : p.mem.service? n s ≠ none)
    (hput : ∀ n' s',
      p'.mem.service? n' s' = if n = n' ∧ s = s' then some svc else p.mem.service? n' s') :
    Counted p' := h.same hopts hsize (Memory.sizeLocked_put_held hheld hput)

theorem registerTurn (h : Counted p) {clk : Nat → Time} {node : Node} {dfn : ServiceInstance}
    (hmeta : HasMeta p.mem node.id node) (hturn : RegisterTurn clk node dfn p (some p')) :
    Counted p' := by
  obtain ⟨r, hr, -⟩ := hmeta
  have hopts := hturn.opts
  cases hturn with
  | create hnew hroom hsvc =>
    subst hsvc
    exact h.create hopts rfl hroom hnew (Memory.service?_createService hr dfn)
  | rewrite hold _ hsvc =>
    subst hsvc
    exact h.replace hopts rfl (by simp [hold]) (Memory.service?_rewriteService hr dfn.id _ _)
  | refresh hold _ => exact h.replace hopts rfl (by simp [hold]) (Memory.service?_setService hr)

theorem mergeTurn {p p' : MergePass} (h : Counted p.toPass) {clk : Nat → Time} {e : ServiceEntry}
    (hturn : MergeTurn clk p e p') : Counted p'.toPass := by
  have hopts := hturn.opts
  have hnode : ∃ r, (p.mem.setMeta e.node).nodes[e.node.id]? = some r := by simp [Memory.setMeta]
  obtain ⟨r, hr⟩ := hnode
  have hsame : ∀ n s, (p.mem.setMeta e.node).service? n s = p.mem.service? n s :=
    Memory.service?_setMeta e.node
  have hmeta : Counted ⟨p.mem.setMeta e.node, p.size, p.events⟩ :=
    h.same rfl rfl (Memory.sizeLocked_congr hsame)
  cases hturn with
  | skip _ => exact h
  | full _ _ _ => exact hmeta
  | lose _ _ _ => exact hmeta
  | create hvalid hnew hroom hsvc =>
    subst hsvc
    exact hmeta.create hopts rfl hroom ((hsame _ _).trans hnew) (Memory.service?_createService hr _)
  | win hvalid hold _ hsvc =>
    subst hsvc
    have hheld : (p.mem.setMeta e.node).service? e.node.id e.service.id ≠ none := by
      simp [hsame, hold]
    exact hmeta.replace hopts rfl hheld (Memory.service?_rewriteService hr _ _ _)

end Counted

/-! ## Runs -/

namespace Memory.Within

variable {m : Memory}

theorem register (h : m.Within) (clk : Nat → Time) (reg : Registration) :
    (m.register clk reg).mem.Within := by
  unfold Memory.register
  split
  · exact h
  · have hstart : Counted ⟨m.setMeta reg.node, m.sizeLocked, []⟩ :=
      have hsize := Memory.sizeLocked_congr (Memory.service?_setMeta (m := m) reg.node)
      ⟨hsize.symm, h.of_le rfl hsize.le⟩
    refine (registerLoop_keeps (fun p => HasMeta p.mem reg.node.id reg.node ∧ Counted p) ?_ rfl
      ⟨hasMeta_setMeta m reg.node, hstart⟩).2.within
    intro p p' i _ hp hturn
    exact ⟨hturn.hasMeta hp.1, hp.2.registerTurn hp.1 hturn⟩

theorem merge (h : m.Within) (clk : Nat → Time) (es : List ServiceEntry) :
    (m.merge clk es).mem.Within := by
  refine (merge_keeps (fun p => Counted p.toPass) ⟨rfl, h⟩ ?_ : Counted _).within
  intro p p' e _ _ hp hturn
  exact hp.mergeTurn hturn

theorem exec (h : m.Within) (c : Call) : (c.exec m).1.Within := by
  cases hgrows : c.grows with
  | true =>
    cases c with
    | register clk reg => exact h.register clk reg
    | merge clk es => exact h.merge clk es
    | _ => cases hgrows
  | false =>
    -- The other calls store no service that was not there.
    refine h.of_le (exec_opts c m) (Memory.sizeLocked_le fun n s hs => ?_)
    obtain ⟨new, hnew⟩ := Option.ne_none_iff_exists'.mp hs
    obtain ⟨old, t, hold, -⟩ := exec_leased hgrows m n s new hnew
    simp [hold]

theorem run (h : m.Within) (calls : List Call) : (m.run calls).1.Within := by
  induction calls generalizing m with
  | nil => exact h
  | cons c rest ih => exact ih (h.exec c)

end Memory.Within

theorem newMemory_maxServices (opts : Options) :
    (newMemory opts).opts.maxServices = opts.maxServices := by
  unfold newMemory
  dsimp only
  split <;> rfl

theorem newMemory_within (opts : Options) : (newMemory opts).Within := by
  intro hmax
  have hsize : (newMemory opts).sizeLocked = 0 := by
    simp [← Memory.card_stored, Finset.eq_empty_iff_forall_notMem, Memory.mem_stored, newMemory,
      Memory.service?]
  omega

/-! ## Refusals -/

theorem Registering.fits_of_accepted {m : Memory} {clk : Nat → Time} {reg : Registration}
    {seen : List ServiceInstance} {p : Pass} (h : Registering m clk reg seen p)
    {inputs : List ServiceInstance} (hret : (registerLoop clk reg inputs p).2 = none) :
    Fits m reg.node.id (seen ++ inputs) := by
  induction inputs generalizing seen p with
  | nil => simpa using h.fits
  | cons i rest ih =>
    have hstep := h.step (i := i)
    simp only [registerLoop] at hret
    cases hturn : registerService clk reg p i with
    | none =>
      rw [hturn] at hret
      cases hret
    | some p' =>
      rw [hturn] at hstep hret
      rw [List.append_cons]
      exact ih hstep hret

section Refusal

variable {m : Memory} {clk : Nat → Time} {reg : Registration}

theorem registerLoop_capacity (inputs : List ServiceInstance) (p : Pass)
    (h : (registerLoop clk reg inputs p).2 ≠ none) :
    (registerLoop clk reg inputs p).2 = some .capacity := by
  induction inputs generalizing p with
  | nil => exact absurd rfl h
  | cons i rest ih =>
    unfold registerLoop at h ⊢
    split at h
    · rfl
    · exact ih _ h

theorem register_capacity_iff (hid : reg.node.id ≠ "") (hnames : ∀ i ∈ reg.services, i.name ≠ "") :
    (m.register clk reg).ret = some .capacity ↔ ¬ Fits m reg.node.id reg.services := by
  constructor
  · intro hret hfits
    rw [(register_fits clk hid hnames hfits).1] at hret
    cases hret
  · intro hfits
    rw [register_eq_loop hid hnames]
    apply registerLoop_capacity
    intro hret
    exact hfits (by simpa using (Registering.start m clk reg).fits_of_accepted hret)

theorem Memory.Within.fits_iff (h : m.Within) (hmax : 0 < m.opts.maxServices) (n : String)
    (inputs : List ServiceInstance) :
    Fits m n inputs ↔ ((needed m n inputs).card : Int) ≤ m.opts.maxServices - m.sizeLocked := by
  have hsize := h hmax
  unfold Fits
  constructor
  · rintro (hnone | hfree | hroom)
    · rw [hnone, Finset.card_empty]
      omega
    · omega
    · omega
  · intro hroom
    exact Or.inr (Or.inr (by omega))

end Refusal

/-- The registry never outgrows its limit, and a well-formed registration is refused exactly if the
ids it would add are more than the room that is left. -/
theorem capacity_exact (opts : Options) (hmax : 0 < opts.maxServices) (calls : List Call) :
    let m := ((newMemory opts).run calls).1
    (m.sizeLocked : Int) ≤ opts.maxServices ∧
      ∀ (clk : Nat → Time) (reg : Registration), reg.node.id ≠ "" →
        (∀ i ∈ reg.services, i.name ≠ "") →
        ((m.register clk reg).ret = some .capacity ↔
            opts.maxServices - m.sizeLocked < ((needed m reg.node.id reg.services).card : Int)) ∧
          ((∀ i ∈ reg.services, m.service? reg.node.id (serviceId i) ≠ none) →
            (m.register clk reg).ret = none) := by
  intro m
  have hwithin : m.Within := (newMemory_within opts).run calls
  have hopts : m.opts.maxServices = opts.maxServices := by
    rw [steps_opts (run_steps calls _), newMemory_maxServices]
  refine ⟨by rw [← hopts]; exact hwithin (hopts ▸ hmax), ?_⟩
  intro clk reg hid hnames
  have hfits := hwithin.fits_iff (hopts ▸ hmax) reg.node.id reg.services
  refine ⟨by rw [register_capacity_iff hid hnames, hfits, not_le, hopts], ?_⟩
  intro hheld
  refine (register_fits clk hid hnames (Or.inl ?_)).1
  rw [needed, Finset.filter_eq_empty_iff]
  intro s hs
  obtain ⟨i, hi, rfl⟩ := List.mem_map.mp (List.mem_toFinset.mp hs)
  exact hheld i hi

theorem capacity_exact_one :
    let clk : Nat → Time := fun _ => 0
    let m := ((newMemory { maxServices := 1 }).run
      [.register clk (single { id := "n1" } { id := "", name := "web" } 1)]).1
    (m.sizeLocked : Int) ≤ 1 ∧
      (m.register clk (single { id := "n1" } { id := "web", name := "api" } 2)).ret = none ∧
      (m.register clk (single { id := "n1" } { id := "db", name := "db" } 1)).ret = some .capacity := by
  intro clk m
  have h := capacity_exact { maxServices := 1 } (by decide)
    [.register clk (single { id := "n1" } { id := "", name := "web" } 1)]
  refine ⟨h.1, (h.2 clk _ (by decide) (by decide)).2 (by decide +kernel), ?_⟩
  exact (h.2 clk _ (by decide) (by decide)).1.mpr (by decide +kernel)

end YellowPages.Store
