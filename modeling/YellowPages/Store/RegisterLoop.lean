import YellowPages.Store.Definitions

/-!
# The loop of a registration

Register goes through its services one by one and stops at the first one it has no room for. What
it has done up to then stays.
-/

namespace YellowPages.Store

/-! ## The inputs -/

def serviceId (input : ServiceInstance) : String := if input.id = "" then input.name else input.id

/-- A service without an id goes by its name. -/
def named (s : ServiceInstance) : ServiceInstance := { s with id := serviceId s }

theorem serviceId_named (s : ServiceInstance) : serviceId (named s) = serviceId s := by
  by_cases hid : s.id = "" <;> simp [named, serviceId, hid]

/-- The records the inputs need and the node does not have. -/
def needed (m : Memory) (n : String) (inputs : List ServiceInstance) : Finset String :=
  {s ∈ (inputs.map serviceId).toFinset | m.service? n s = none}

/-- The registry has room for the records the inputs need. -/
def Fits (m : Memory) (n : String) (inputs : List ServiceInstance) : Prop :=
  needed m n inputs = ∅ ∨ m.opts.maxServices ≤ 0 ∨
    ((m.sizeLocked + (needed m n inputs).card : Nat) : Int) ≤ m.opts.maxServices

instance (m : Memory) (n : String) (inputs : List ServiceInstance) : Decidable (Fits m n inputs) :=
  inferInstanceAs (Decidable (_ ∨ _ ∨ _))

/-- The inputs before the first one that the registry has no room for, after those of `seen`. -/
def accepted (m : Memory) (n : String) : List ServiceInstance → List ServiceInstance →
    List ServiceInstance
  | seen, [] => seen
  | seen, i :: rest => if Fits m n (seen ++ [i]) then accepted m n (seen ++ [i]) rest else seen

/-- One of the inputs changes the definition `d` of service `s`. -/
def Revised (o : Options) (clk : Nat → Time) (reg : Registration) (inputs : List ServiceInstance)
    (s : String) (d : ServiceInstance) : Prop :=
  ∃ i ∈ inputs, serviceId i = s ∧ changed d (stamp o (clk 0) reg.generation i) = true

theorem revised_snoc (o : Options) (clk : Nat → Time) (reg : Registration)
    (inputs : List ServiceInstance) (i : ServiceInstance) (s : String) (d : ServiceInstance) :
    Revised o clk reg (inputs ++ [i]) s d ↔ Revised o clk reg inputs s d ∨
      serviceId i = s ∧ changed d (stamp o (clk 0) reg.generation i) = true := by
  simp only [Revised, List.mem_append, List.mem_singleton, or_and_right, exists_or, exists_eq_left]

theorem needed_snoc (m : Memory) (n : String) (inputs : List ServiceInstance) (i : ServiceInstance) :
    needed m n (inputs ++ [i]) = if m.service? n (serviceId i) = none then
      insert (serviceId i) (needed m n inputs) else needed m n inputs := by
  have hids : ((inputs ++ [i]).map serviceId).toFinset =
      insert (serviceId i) (inputs.map serviceId).toFinset := by
    ext s
    simp
  rw [needed, hids, Finset.filter_insert]
  rfl

theorem Fits.of_append {m : Memory} {n : String} {inputs rest : List ServiceInstance}
    (h : Fits m n (inputs ++ rest)) : Fits m n inputs := by
  have hsub : needed m n inputs ⊆ needed m n (inputs ++ rest) := by
    intro s hs
    simp only [needed, Finset.mem_filter, List.mem_toFinset, List.map_append, List.mem_append] at hs ⊢
    exact ⟨Or.inl hs.1, hs.2⟩
  rcases h with hempty | hlimit | hroom
  · exact Or.inl (Finset.subset_empty.mp (hempty ▸ hsub))
  · exact Or.inr (Or.inl hlimit)
  · have hcard := Finset.card_le_card hsub
    refine Or.inr (Or.inr (le_trans ?_ hroom))
    omega

/-! ## What the loop has done -/

/-- The record is as of the call and has the TTL the registry grants the input. A failed check in it
is older than the call. -/
structure Refreshed (m : Memory) (clk : Nat → Time) (n : String) (i : ServiceInstance)
    (svc : ServiceRec) :
    Prop where
  seen : svc.defn.lastSeen = clk 0
  ttl : svc.defn.ttl = m.opts.clampTTL i.ttl
  failed : svc.failed = true → ∃ old, m.service? n (serviceId i) = some old ∧ old.failed = true

/-- `changed` compares every field but the id and the lease. -/
structure SameFields (a b : ServiceInstance) : Prop where
  name : a.name = b.name
  address : a.address = b.address
  port : a.port = b.port
  ttl : a.ttl = b.ttl
  generation : a.generation = b.generation
  weights : a.weights = b.weights
  tags : equalStrings a.tags b.tags = true
  metadata : equalMap a.metadata b.metadata = true

theorem fields_of_not_changed {a b : ServiceInstance} (h : ¬ changed a b = true) : SameFields a b := by
  unfold changed at h
  split at h <;> rename_i hfields
  · exact absurd rfl h
  · simp only [not_or, not_not] at hfields
    obtain ⟨hname, haddress, hport, httl, hgeneration, hweights⟩ := hfields
    simp only [Bool.or_eq_true, Bool.not_eq_true', not_or, Bool.not_eq_false] at h
    exact ⟨hname, haddress, hport, httl, hgeneration, hweights, h.1, h.2⟩

structure Registering (m : Memory) (clk : Nat → Time) (reg : Registration)
    (seen : List ServiceInstance) (p : Pass) : Prop where
  opts : p.mem.opts = m.opts
  node : HasMeta p.mem reg.node.id reg.node
  size : p.size = m.sizeLocked + (needed m reg.node.id seen).card
  fits : Fits m reg.node.id seen
  held : ∀ s, p.mem.service? reg.node.id s = none ↔
    m.service? reg.node.id s = none ∧ s ∉ needed m reg.node.id seen
  puts : ∀ s d, m.defn? reg.node.id s = some d →
    (PutFor p.events s reg.node ↔ Revised m.opts clk reg seen s d)
  kept : ∀ s d, m.defn? reg.node.id s = some d → ¬ Revised m.opts clk reg seen s d →
    ∃ t, p.mem.defn? reg.node.id s = some { d with lastSeen := t }
  leases : ∀ s svc, p.mem.service? reg.node.id s = some svc →
    s ∉ seen.map serviceId ∧ m.service? reg.node.id s = some svc ∨
      ∃ i ∈ seen, serviceId i = s ∧ Refreshed m clk reg.node.id i svc

namespace Registering

variable {m : Memory} {clk : Nat → Time} {reg : Registration} {seen : List ServiceInstance}
  {p p' : Pass}
  {i : ServiceInstance}

theorem start (m : Memory) (clk : Nat → Time) (reg : Registration) :
    Registering m clk reg [] ⟨m.setMeta reg.node, m.sizeLocked, []⟩ where
  opts := rfl
  node := hasMeta_setMeta m reg.node
  size := rfl
  fits := Or.inl rfl
  held := fun s => by simp [Memory.service?_setMeta, needed]
  puts := fun s d _ => by simp [PutFor, Revised]
  kept := fun s d hd _ => ⟨d.lastSeen, by simpa [Memory.defn?, Memory.service?_setMeta] using hd⟩
  leases := fun s svc hsvc => Or.inl ⟨by simp, by rw [← hsvc, Memory.service?_setMeta]⟩

theorem turn (h : Registering m clk reg seen p) {svc : ServiceRec}
    (hopts : p'.mem.opts = p.mem.opts) (hnode : HasMeta p'.mem reg.node.id reg.node)
    (hstored : ∀ n s, p'.mem.service? n s =
      if reg.node.id = n ∧ serviceId i = s then some svc else p.mem.service? n s)
    (hsize : p'.size = m.sizeLocked + (needed m reg.node.id (seen ++ [i])).card)
    (hfits : Fits m reg.node.id (seen ++ [i]))
    (hothers : ∀ s, s ≠ serviceId i → (PutFor p'.events s reg.node ↔ PutFor p.events s reg.node))
    (hputs : ∀ d, m.defn? reg.node.id (serviceId i) = some d →
      (PutFor p'.events (serviceId i) reg.node ↔
        Revised m.opts clk reg (seen ++ [i]) (serviceId i) d))
    (hkept : ∀ d, m.defn? reg.node.id (serviceId i) = some d →
      ¬ Revised m.opts clk reg (seen ++ [i]) (serviceId i) d →
        ∃ t, svc.defn = { d with lastSeen := t }) (hsvc : Refreshed m clk reg.node.id i svc) :
    Registering m clk reg (seen ++ [i]) p' where
  opts := hopts.trans h.opts
  node := hnode
  size := hsize
  fits := hfits
  held := by
    intro s
    rw [hstored, needed_snoc]
    by_cases hs : serviceId i = s
    · subst hs
      simp only [and_self, if_true, reduceCtorEq, false_iff, not_and, not_not]
      intro hnew
      simp [hnew]
    · have hs' : ¬ s = serviceId i := fun heq => hs heq.symm
      rw [if_neg fun hk => hs hk.2, h.held]
      split <;> simp [hs']
  puts := by
    intro s d hd
    by_cases hs : s = serviceId i
    · subst hs
      exact hputs d hd
    · rw [hothers s hs, h.puts s d hd, revised_snoc, or_iff_left]
      exact fun hk => hs hk.1.symm
  kept := by
    intro s d hd hrevised
    rw [Memory.defn?, hstored]
    by_cases hs : serviceId i = s
    · subst hs
      obtain ⟨t, ht⟩ := hkept d hd hrevised
      exact ⟨t, by simp [ht]⟩
    · rw [if_neg fun hk => hs hk.2]
      exact h.kept s d hd fun hr => hrevised ((revised_snoc ..).mpr (Or.inl hr))
  leases := by
    intro s new hnew
    rw [hstored] at hnew
    split at hnew <;> rename_i hk
    · obtain rfl := Option.some.inj hnew
      exact Or.inr ⟨i, by simp, hk.2, hsvc⟩
    · rcases h.leases s new hnew with ⟨hs, hold⟩ | ⟨j, hj, hs⟩
      · have hs' : ¬ s = serviceId i := fun heq => hk ⟨rfl, heq.symm⟩
        exact Or.inl ⟨by simpa [hs'] using hs, hold⟩
      · exact Or.inr ⟨j, List.mem_append_left _ hj, hs⟩

theorem fits_new (h : Registering m clk reg seen p)
    (hnew : p.mem.service? reg.node.id (serviceId i) = none) :
    (needed m reg.node.id (seen ++ [i])).card = (needed m reg.node.id seen).card + 1 ∧
      (Fits m reg.node.id (seen ++ [i]) ↔ p.mem.opts.atCapacity p.size = false) := by
  obtain ⟨hnone, hneeded⟩ := (h.held _).mp hnew
  have hcard : (needed m reg.node.id (seen ++ [i])).card = (needed m reg.node.id seen).card + 1 := by
    rw [needed_snoc, if_pos hnone, Finset.card_insert_of_notMem hneeded]
  refine ⟨hcard, ?_⟩
  have hne : needed m reg.node.id (seen ++ [i]) ≠ ∅ := by
    rw [← Finset.card_pos.trans Finset.nonempty_iff_ne_empty, hcard]
    omega
  have hroom : m.opts.atCapacity p.size = false ↔ m.opts.maxServices ≤ 0 ∨
      (p.size : Int) < m.opts.maxServices := by
    simp [Options.atCapacity, imp_iff_not_or]
  rw [h.opts, hroom, Fits, hcard, h.size]
  simp only [hne, false_or]
  omega

theorem needed_held (h : Registering m clk reg seen p)
    (hheld : p.mem.service? reg.node.id (serviceId i) ≠ none) :
    needed m reg.node.id (seen ++ [i]) = needed m reg.node.id seen := by
  rw [needed_snoc]
  split <;> rename_i hnone
  · refine Finset.insert_eq_of_mem ?_
    by_contra hneeded
    exact hheld ((h.held _).mpr ⟨hnone, hneeded⟩)
  · rfl

theorem fits_held (h : Registering m clk reg seen p)
    (hheld : p.mem.service? reg.node.id (serviceId i) ≠ none) : Fits m reg.node.id (seen ++ [i]) := by
  have hfits := h.fits
  rw [Fits] at hfits ⊢
  rwa [h.needed_held hheld]

theorem changed_iff (h : Registering m clk reg seen p) {old : ServiceRec} {d : ServiceInstance}
    (hold : p.mem.service? reg.node.id (serviceId i) = some old)
    (hd : m.defn? reg.node.id (serviceId i) = some d)
    (hrevised : ¬ Revised m.opts clk reg seen (serviceId i) d) :
    (∃ t, old.defn = { d with lastSeen := t }) ∧
      changed d (stamp m.opts (clk 0) reg.generation i) =
        changed old.defn (stamp p.mem.opts (clk 0) reg.generation i) := by
  obtain ⟨t, ht⟩ := h.kept _ d hd hrevised
  rw [Memory.defn?, hold, Option.map_some, Option.some.injEq] at ht
  refine ⟨⟨t, ht⟩, ?_⟩
  rw [ht, h.opts]
  rfl

theorem revised_of_changed (h : Registering m clk reg seen p) {old : ServiceRec} {d : ServiceInstance}
    (hold : p.mem.service? reg.node.id (serviceId i) = some old)
    (hchanged : changed old.defn (stamp p.mem.opts (clk 0) reg.generation i) = true)
    (hd : m.defn? reg.node.id (serviceId i) = some d) :
    Revised m.opts clk reg (seen ++ [i]) (serviceId i) d := by
  rw [revised_snoc]
  by_cases hseen : Revised m.opts clk reg seen (serviceId i) d
  · exact Or.inl hseen
  · exact Or.inr ⟨rfl, (h.changed_iff hold hd hseen).2.trans hchanged⟩

theorem revised_iff_of_same (h : Registering m clk reg seen p) {old : ServiceRec} {d : ServiceInstance}
    (hold : p.mem.service? reg.node.id (serviceId i) = some old)
    (hsame : changed old.defn (stamp p.mem.opts (clk 0) reg.generation i) = false)
    (hd : m.defn? reg.node.id (serviceId i) = some d) :
    Revised m.opts clk reg (seen ++ [i]) (serviceId i) d ↔ Revised m.opts clk reg seen
      (serviceId i) d := by
  rw [revised_snoc, or_iff_left_iff_imp]
  rintro ⟨-, hch⟩
  by_contra hseen
  -- Up to `lastSeen` the definition is still the stored one, which this input does not change.
  rw [(h.changed_iff hold hd hseen).2, hsame] at hch
  cases hch

theorem failed_before (h : Registering m clk reg seen p) {old : ServiceRec}
    (hold : p.mem.service? reg.node.id (serviceId i) = some old) (hfailed : old.failed = true) :
    ∃ before, m.service? reg.node.id (serviceId i) = some before ∧ before.failed = true := by
  rcases h.leases _ old hold with ⟨-, hbefore⟩ | ⟨j, -, hj, hsvc⟩
  · exact ⟨old, hbefore, hfailed⟩
  · rw [← hj]
    exact hsvc.failed hfailed

theorem create (h : Registering m clk reg seen p) {svc : ServiceRec} {ev : ChangeEvent}
    (hopts : p'.mem.opts = p.mem.opts) (hnode : HasMeta p'.mem reg.node.id reg.node)
    (hnew : p.mem.service? reg.node.id (serviceId i) = none)
    (hroom : p.mem.opts.atCapacity p.size = false)
    (hstored : ∀ n s, p'.mem.service? n s =
      if reg.node.id = n ∧ serviceId i = s then some svc else p.mem.service? n s)
    (hsize : p'.size = p.size + 1) (hevents : p'.events = p.events ++ [ev])
    (hid : ev.entry.service.id = serviceId i) (hsvc : Refreshed m clk reg.node.id i svc) :
    Registering m clk reg (seen ++ [i]) p' := by
  obtain ⟨hcard, hfits⟩ := h.fits_new hnew
  have habsent : ∀ d, m.defn? reg.node.id (serviceId i) ≠ some d := by
    intro d
    rw [Memory.defn?, ((h.held _).mp hnew).1]
    simp
  refine h.turn hopts hnode hstored (by rw [hsize, hcard, h.size, Nat.add_assoc]) (hfits.mpr hroom) ?_
    (fun d hd => absurd hd (habsent d)) (fun d hd => absurd hd (habsent d)) hsvc
  intro s hs
  rw [hevents, putFor_snoc, hid, or_iff_left]
  exact fun hk => hs hk.2.2.symm

theorem rewrite (h : Registering m clk reg seen p) {old svc : ServiceRec} {ev : ChangeEvent}
    (hopts : p'.mem.opts = p.mem.opts) (hnode : HasMeta p'.mem reg.node.id reg.node)
    (hold : p.mem.service? reg.node.id (serviceId i) = some old)
    (hchanged : changed old.defn (stamp p.mem.opts (clk 0) reg.generation i) = true)
    (hstored : ∀ n s, p'.mem.service? n s =
      if reg.node.id = n ∧ serviceId i = s then some svc else p.mem.service? n s)
    (hsize : p'.size = p.size) (hevents : p'.events = p.events ++ [ev])
    (hev : ev.type = .put ∧ ev.entry.node = reg.node ∧ ev.entry.service.id = serviceId i)
    (hsvc : Refreshed m clk reg.node.id i svc) :
    Registering m clk reg (seen ++ [i]) p' := by
  have hheld : p.mem.service? reg.node.id (serviceId i) ≠ none := by simp [hold]
  have hrevised : ∀ d, m.defn? reg.node.id (serviceId i) = some d →
      Revised m.opts clk reg (seen ++ [i]) (serviceId i) d := fun d =>
        h.revised_of_changed hold hchanged
  refine h.turn hopts hnode hstored (by rw [hsize, h.needed_held hheld, h.size])
    (h.fits_held hheld) ?_ ?_
    (fun d hd hno => absurd (hrevised d hd) hno) hsvc
  · intro s hs
    rw [hevents, putFor_snoc, hev.2.2, or_iff_left]
    exact fun hk => hs hk.2.2.symm
  · intro d hd
    rw [hevents, putFor_snoc]
    exact iff_of_true (Or.inr hev) (hrevised d hd)

theorem refresh (h : Registering m clk reg seen p) {old svc : ServiceRec}
    (hopts : p'.mem.opts = p.mem.opts) (hnode : HasMeta p'.mem reg.node.id reg.node)
    (hold : p.mem.service? reg.node.id (serviceId i) = some old)
    (hchanged : changed old.defn (stamp p.mem.opts (clk 0) reg.generation i) = false)
    (hstored : ∀ n s, p'.mem.service? n s =
      if reg.node.id = n ∧ serviceId i = s then some svc else p.mem.service? n s)
    (hsize : p'.size = p.size) (hevents : p'.events = p.events)
    (hdefn : svc.defn = { old.defn with lastSeen := clk 0 })
    (hsvc : Refreshed m clk reg.node.id i svc) :
    Registering m clk reg (seen ++ [i]) p' := by
  have hheld : p.mem.service? reg.node.id (serviceId i) ≠ none := by simp [hold]
  have hrevised : ∀ d, m.defn? reg.node.id (serviceId i) = some d →
      (Revised m.opts clk reg (seen ++ [i]) (serviceId i) d ↔
        Revised m.opts clk reg seen (serviceId i) d) := fun d => h.revised_iff_of_same hold hchanged
  refine h.turn hopts hnode hstored (by rw [hsize, h.needed_held hheld, h.size]) (h.fits_held hheld)
    (fun s _ => by rw [hevents]) ?_ ?_ hsvc
  · intro d hd
    rw [hrevised d hd, hevents]
    exact h.puts _ d hd
  · intro d hd hno
    rw [hrevised d hd] at hno
    obtain ⟨⟨t, ht⟩, -⟩ := h.changed_iff hold hd hno
    exact ⟨clk 0, by rw [hdefn, ht]⟩

theorem step (h : Registering m clk reg seen p) :
    match registerService clk reg p i with
    | none => ¬ Fits m reg.node.id (seen ++ [i])
    | some p' => Registering m clk reg (seen ++ [i]) p' := by
  have hspec := registerService_spec clk reg p i
  split <;> rename_i hturn <;> rw [hturn] at hspec
  · obtain ⟨hnew, hfull⟩ := hspec
    rw [(h.fits_new hnew).2, hfull]
    simp
  · have hopts := hspec.opts
    have hnode := hspec.hasMeta h.node
    obtain ⟨r, hr, -⟩ := h.node
    have hgranted : (stamp p.mem.opts (clk 0) reg.generation i).ttl = m.opts.clampTTL i.ttl := by
      rw [h.opts]
      rfl
    cases hspec with
    | create hnew hroom hsvc =>
      subst hsvc
      exact h.create hopts hnode hnew hroom (Memory.service?_createService hr _) rfl rfl rfl
        ⟨rfl, hgranted, nofun⟩
    | rewrite hold hchanged hsvc =>
      subst hsvc
      exact h.rewrite hopts hnode hold hchanged (Memory.service?_rewriteService hr _ _ _) rfl rfl
        ⟨rfl, rfl, rfl⟩ ⟨rfl, hgranted, fun hfailed => h.failed_before hold hfailed⟩
    | refresh hold hsame =>
      have httl := (fields_of_not_changed (Bool.eq_false_iff.mp hsame)).ttl
      exact h.refresh hopts hnode hold hsame (Memory.service?_setService hr) rfl rfl rfl
        ⟨rfl, httl.trans hgranted, fun hfailed => h.failed_before hold hfailed⟩

/-- What a turn keeps, with what is known of the pass, holds of all accepted inputs. -/
theorem induct (P : List ServiceInstance → Pass → Prop)
    (hstep : ∀ seen p p' i, Registering m clk reg seen p → P seen p →
      registerService clk reg p i = some p' →
      P (seen ++ [i]) p') (h : Registering m clk reg seen p) (h0 : P seen p)
    (inputs : List ServiceInstance) :
    Registering m clk reg (accepted m reg.node.id seen inputs) (registerLoop clk reg inputs p).1 ∧
      P (accepted m reg.node.id seen inputs) (registerLoop clk reg inputs p).1 := by
  induction inputs generalizing seen p with
  | nil => exact ⟨h, h0⟩
  | cons i rest ih =>
    have hturn := h.step (i := i)
    simp only [registerLoop, accepted]
    cases heq : registerService clk reg p i with
    | none =>
      rw [heq] at hturn
      rw [if_neg hturn]
      exact ⟨h, h0⟩
    | some p' =>
      rw [heq] at hturn
      rw [if_pos hturn.fits]
      exact ih hturn (hstep seen p p' i h h0 heq)

theorem run (h : Registering m clk reg seen p) (inputs : List ServiceInstance) :
    Registering m clk reg (accepted m reg.node.id seen inputs) (registerLoop clk reg inputs p).1 :=
  (h.induct (fun _ _ => True) (fun _ _ _ _ _ _ _ => trivial) trivial inputs).1

theorem run_of_fits (h : Registering m clk reg seen p) {inputs : List ServiceInstance}
    (hfits : Fits m reg.node.id (seen ++ inputs)) :
    Registering m clk reg (seen ++ inputs) (registerLoop clk reg inputs p).1 ∧
      (registerLoop clk reg inputs p).2 = none := by
  induction inputs generalizing seen p with
  | nil => exact ⟨by simpa [registerLoop] using h, rfl⟩
  | cons i rest ih =>
    rw [List.append_cons] at hfits ⊢
    have hstep := h.step (i := i)
    simp only [registerLoop]
    cases hturn : registerService clk reg p i with
    | none =>
      rw [hturn] at hstep
      exact absurd (hfits.of_append) hstep
    | some p' =>
      rw [hturn] at hstep
      exact ih hstep hfits

end Registering

/-! ## The call -/

section Call

variable {m : Memory} {clk : Nat → Time} {reg : Registration}

theorem register_eq_loop (hid : reg.node.id ≠ "") (hnames : ∀ i ∈ reg.services, i.name ≠ "") :
    m.register clk reg =
      let r := registerLoop clk reg reg.services ⟨m.setMeta reg.node, m.sizeLocked, []⟩
      ⟨r.1.mem, r.1.events, r.2⟩ := by
  unfold Memory.register
  rw [if_neg (by simpa [hid] using hnames)]

/-- A node id, and a name for each service. -/
def WellFormed (reg : Registration) : Prop := reg.node.id ≠ "" ∧ ∀ i ∈ reg.services, i.name ≠ ""

theorem register_not_wellFormed (h : ¬ WellFormed reg) :
    m.register clk reg = ⟨m, [], some .invalid⟩ := by
  unfold Memory.register
  rw [if_pos]
  rw [WellFormed, not_and_or, not_not] at h
  simpa using h

theorem register_refused (h : ¬ WellFormed reg) : (m.register clk reg).mem = m := by
  rw [register_not_wellFormed h]

theorem wellFormed_of_accepted (hret : (m.register clk reg).ret = none) : WellFormed reg := by
  by_contra h
  rw [register_not_wellFormed h] at hret
  cases hret

/-- With room for all services the call succeeds, and each of them has a lease as of the call. -/
theorem register_fits (clk : Nat → Time) (hid : reg.node.id ≠ "")
    (hnames : ∀ i ∈ reg.services, i.name ≠ "") (hfits : Fits m reg.node.id reg.services) :
    (m.register clk reg).ret = none ∧
      ∀ s, s ∈ reg.services.map serviceId ∨ m.service? reg.node.id s ≠ none →
        ∃ svc, (m.register clk reg).mem.service? reg.node.id s = some svc ∧
          (s ∉ reg.services.map serviceId ∧ m.service? reg.node.id s = some svc ∨
            ∃ i ∈ reg.services, serviceId i = s ∧ Refreshed m clk reg.node.id i svc) := by
  obtain ⟨hrun, hret⟩ := (Registering.start m clk reg).run_of_fits hfits
  rw [List.nil_append] at hrun
  rw [register_eq_loop hid hnames]
  refine ⟨hret, fun s hs => ?_⟩
  have hheld :
      (registerLoop clk reg reg.services ⟨m.setMeta reg.node, m.sizeLocked, []⟩).1.mem.service?
      reg.node.id s ≠ none := by
    rw [ne_eq, hrun.held, not_and, not_not]
    intro hnone
    exact Finset.mem_filter.mpr
      ⟨List.mem_toFinset.mpr (hs.resolve_right fun hne => hne hnone), hnone⟩
  obtain ⟨svc, hsvc⟩ := Option.ne_none_iff_exists'.mp hheld
  exact ⟨svc, hsvc, hrun.leases s svc hsvc⟩

end Call

end YellowPages.Store
