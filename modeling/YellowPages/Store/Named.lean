import YellowPages.Store.Attributes
import YellowPages.Store.Renew

/-!
# What a lookup by name shows

A call that writes a service announces it under the name it has then. Under the name it had before,
nothing is said.
-/

namespace YellowPages.Store

open Lib

/-! ## The answer -/

/-- The empty name asks for all services. -/
def Answers (name : String) (d : ServiceInstance) : Prop := name = "" ∨ d.name = name

instance (name : String) (d : ServiceInstance) : Decidable (Answers name d) :=
  inferInstanceAs (Decidable (_ ∨ _))

theorem Answers.congr {name : String} {d d' : ServiceInstance} (h : Answers name d)
    (hname : d'.name = d.name) :
    Answers name d' := h.imp id hname.trans

def Mentions (events : List ChangeEvent) (name : String) : Prop :=
  ∃ ev ∈ events, Answers name ev.entry.service

theorem mentions_snoc (events : List ChangeEvent) (ev : ChangeEvent) (name : String) :
    Mentions (events ++ [ev]) name ↔ Mentions events name ∨ Answers name ev.entry.service := by
  simp only [Mentions, List.mem_append, List.mem_singleton, or_and_right, exists_or, exists_eq_left]

namespace Memory

/-- The keys and definitions, up to `lastSeen`, that a lookup of the name answers with. -/
def namedResult (m : Memory) (now : Time) (name : String) :
    List (String × String × ServiceInstance) :=
  (m.lookup now { name := name }).entries.map fun e =>
    (e.node.id, e.service.id, { e.service with lastSeen := zeroTime })

/-- The part of the answer that is about service `s` of node `n`. -/
def namedDefn (m : Memory) (now : Time) (name n s : String) : Option ServiceInstance :=
  (m.service? n s).bind fun svc =>
    if Answers name svc.defn ∧ (m.opts.lease svc now).2 = false then
      some { svc.defn with lastSeen := zeroTime }
    else none

variable {m m' : Memory} {now : Time} {name n s : String} {svc svc' : ServiceRec}

theorem namedDefn_of_none (h : m.service? n s = none) : m.namedDefn now name n s = none := by
  simp [namedDefn, h]

theorem namedDefn_of_not_answers (h : m.service? n s = some svc) (hname : ¬ Answers name svc.defn) :
    m.namedDefn now name n s = none := by
  simp [namedDefn, h, hname]

theorem namedDefn_of_answers (h : m.service? n s = some svc) (hname : Answers name svc.defn)
    (hlive : (m.opts.lease svc now).2 = false) :
    m.namedDefn now name n s = some { svc.defn with lastSeen := zeroTime } := by
  simp [namedDefn, h, hname, hlive]

theorem namedDefn_eq_none (h : m.service? n s = some svc) (hname : Answers name svc.defn) :
    m.namedDefn now name n s = none ↔ (m.opts.lease svc now).2 = true := by
  simp [namedDefn, h, hname]

/-- Services with the same definition up to `lastSeen` differ in an answer if one is past its grace
window and the other is not. -/
theorem namedDefn_eq_iff {t : Time} (h : m.service? n s = some svc) (h' : m'.service? n s = some svc')
    (hdefn : svc'.defn = { svc.defn with lastSeen := t }) (hopts : m'.opts = m.opts)
    (hname : Answers name svc.defn) :
    m'.namedDefn now name n s = m.namedDefn now name n s ↔
      (m.opts.lease svc' now).2 = (m.opts.lease svc now).2 := by
  have hname' : Answers name svc'.defn := hname.congr (by rw [hdefn])
  simp only [namedDefn, h, h', Option.bind_some, hname, hname', true_and, hopts]
  cases (m.opts.lease svc' now).2 <;> cases (m.opts.lease svc now).2 <;> simp [hdefn]

theorem mem_namedResult (h : Filed m) (x : String × String × ServiceInstance) :
    x ∈ m.namedResult now name ↔ m.namedDefn now name x.1 x.2.1 = some x.2.2 := by
  obtain ⟨n, s, d⟩ := x
  simp only [namedResult, List.mem_map, mem_lookup_stored now _ h]
  constructor
  · rintro ⟨e, ⟨hselects, svc, -, hsvc, hlive, he⟩, hx⟩
    have hdefn : e.service = svc.defn := congrArg ServiceEntry.service he
    have hname : Answers name svc.defn := hdefn ▸ hselects.1
    obtain ⟨rfl, rfl, rfl⟩ := hx
    rw [namedDefn_of_answers hsvc hname hlive, hdefn]
  · intro hd
    obtain ⟨svc, hsvc, hd⟩ := Option.bind_eq_some_iff.mp hd
    split at hd <;> rename_i hshown
    · obtain ⟨r, hr, -⟩ := Memory.service?_eq_some.mp hsvc
      have hnode : m.node? n = some r.nodeMeta := Memory.node?_of_node hr
      have hn := h.node_id n r.nodeMeta hnode
      have hs := h.service_id n s svc hsvc
      refine ⟨entry r.nodeMeta svc (m.opts.lease svc now).1, ⟨?_, svc, ?_, ?_, hshown.2, rfl⟩, ?_⟩
      · exact ⟨hshown.1, Or.inl rfl, by simp⟩
      · simpa only [entry, hn] using hnode
      · simpa only [entry, hn, hs] using hsvc
      · rw [← Option.some.inj hd]
        exact congrArg₂ Prod.mk hn (congrArg₂ Prod.mk hs rfl)
    · cases hd

theorem namedResult_strictlySorted (h : Filed m) :
    StrictlySorted (fun x => toLex (x.1, x.2.1)) (m.namedResult now name) :=
  List.pairwise_map.mpr (lookup_strictlySorted now _ h)

theorem namedResult_eq_iff (h : Filed m) (h' : Filed m') :
    m'.namedResult now name = m.namedResult now name ↔
      ∀ n s, m'.namedDefn now name n s = m.namedDefn now name n s := by
  constructor
  · intro heq n s
    refine Option.ext fun d => ?_
    rw [← mem_namedResult h' (n, s, d), ← mem_namedResult h (n, s, d), heq]
  · intro heq
    refine StrictlySorted.ext _ (namedResult_strictlySorted h') (namedResult_strictlySorted h)
      fun x => ?_
    rw [mem_namedResult h', mem_namedResult h, heq]

end Memory

/-! ## Calls that write and refresh -/

/-- Of the services of this name, only some that are past their grace window are replaced, and a
refresh neither shows nor hides one. -/
def Settled (m : Memory) (now : Time) (name : String) (replaced refreshed : String → String → Prop)
    (refresh : ServiceRec → ServiceRec) : Prop :=
  ∀ n s old, m.service? n s = some old → Answers name old.defn →
    (replaced n s → (m.opts.lease old now).2 = true) ∧
      (¬ replaced n s → refreshed n s →
        (m.opts.lease (refresh old) now).2 = (m.opts.lease old now).2)

/-- A call that adds services, replaces some and refreshes others, with an event for what it writes. -/
structure Writes (m : Memory) (events : List ChangeEvent) (m' : Memory)
    (replaced refreshed : String → String → Prop) (refresh : ServiceRec → ServiceRec) : Prop where
  opts : m'.opts = m.opts
  stays : ∀ n s, m.service? n s ≠ none → m'.service? n s ≠ none
  kept : ∀ n s old, m.service? n s = some old → ¬ replaced n s → ¬ refreshed n s →
    m'.service? n s = some old
  fresh : ∀ n s old, m.service? n s = some old → ¬ replaced n s → refreshed n s →
    m'.service? n s = some (refresh old)
  defn : ∀ old, ∃ t, (refresh old).defn = { old.defn with lastSeen := t }
  told : ∀ n s svc, m'.service? n s = some svc → (m.service? n s ≠ none → replaced n s) →
    ∃ ev ∈ events, ev.entry.service.name = svc.defn.name

namespace Writes

variable {m m' : Memory} {events : List ChangeEvent} {replaced refreshed : String → String → Prop}
  {refresh : ServiceRec → ServiceRec} {now : Time} {name : String}

theorem not_answers (h : Writes m events m' replaced refreshed refresh)
    (hno : ¬ Mentions events name) {n s : String} {svc : ServiceRec}
    (hsvc : m'.service? n s = some svc) (hrep : m.service? n s ≠ none → replaced n s) :
    ¬ Answers name svc.defn := by
  intro hname
  obtain ⟨ev, hev, heq⟩ := h.told n s svc hsvc hrep
  exact hno ⟨ev, hev, hname.congr heq⟩

theorem fresh_iff (h : Writes m events m' replaced refreshed refresh) {n s : String} {old : ServiceRec}
    (hold : m.service? n s = some old) (hname : Answers name old.defn) (hrep : ¬ replaced n s) :
    m'.namedDefn now name n s = m.namedDefn now name n s ↔
      (refreshed n s → (m.opts.lease (refresh old) now).2 = (m.opts.lease old now).2) := by
  by_cases href : refreshed n s
  · obtain ⟨t, ht⟩ := h.defn old
    rw [Memory.namedDefn_eq_iff hold (h.fresh n s old hold hrep href) ht h.opts hname]
    exact ⟨fun heq _ => heq, fun himp => himp href⟩
  · refine iff_of_true ?_ fun hr => absurd hr href
    simp only [Memory.namedDefn, h.kept n s old hold hrep href, hold, h.opts]

theorem settled (h : Writes m events m' replaced refreshed refresh) (hno : ¬ Mentions events name)
    (hsame : ∀ n s, m'.namedDefn now name n s = m.namedDefn now name n s) :
    Settled m now name replaced refreshed refresh := by
  intro n s old hold hname
  refine ⟨fun hrep => ?_, fun hrep => (h.fresh_iff hold hname hrep).mp (hsame n s)⟩
  obtain ⟨svc, hsvc⟩ := Option.ne_none_iff_exists'.mp (h.stays n s (by simp [hold]))
  rw [← Memory.namedDefn_eq_none hold hname, ← hsame]
  exact Memory.namedDefn_of_not_answers hsvc (h.not_answers hno hsvc fun _ => hrep)

theorem same (h : Writes m events m' replaced refreshed refresh) (hno : ¬ Mentions events name)
    (hsettled : Settled m now name replaced refreshed refresh) (n s : String) :
    m'.namedDefn now name n s = m.namedDefn now name n s := by
  cases hold : m.service? n s with
  | none =>
    rw [Memory.namedDefn_of_none hold]
    cases hsvc : m'.service? n s with
    | none => exact Memory.namedDefn_of_none hsvc
    | some svc =>
      exact Memory.namedDefn_of_not_answers hsvc (h.not_answers hno hsvc fun hne => absurd hold hne)
  | some old =>
    by_cases hrep : replaced n s
    · -- What replaces the service is announced under its own name, which is not this one.
      obtain ⟨svc, hsvc⟩ := Option.ne_none_iff_exists'.mp (h.stays n s (by simp [hold]))
      rw [Memory.namedDefn_of_not_answers hsvc (h.not_answers hno hsvc fun _ => hrep)]
      by_cases hname : Answers name old.defn
      · exact ((Memory.namedDefn_eq_none hold hname).mpr ((hsettled n s old hold hname).1 hrep)).symm
      · exact (Memory.namedDefn_of_not_answers hold hname).symm
    · by_cases hname : Answers name old.defn
      · exact (h.fresh_iff hold hname hrep).mpr ((hsettled n s old hold hname).2 hrep)
      · rw [Memory.namedDefn_of_not_answers hold hname]
        by_cases href : refreshed n s
        · obtain ⟨t, ht⟩ := h.defn old
          refine Memory.namedDefn_of_not_answers (h.fresh n s old hold hrep href) fun hans => hname ?_
          exact hans.congr (by rw [ht])
        · exact Memory.namedDefn_of_not_answers (h.kept n s old hold hrep href) hname

theorem mentions_or_same_iff (h : Writes m events m' replaced refreshed refresh) :
    (Mentions events name ∨ ∀ n s, m'.namedDefn now name n s = m.namedDefn now name n s) ↔
      Mentions events name ∨ Settled m now name replaced refreshed refresh := by
  by_cases hno : Mentions events name
  · simp [hno]
  · rw [or_iff_right hno, or_iff_right hno]
    exact ⟨h.settled hno, h.same hno⟩

end Writes

/-! ## Renew -/

theorem renew_writes (m : Memory) (clk : Nat → Time) (n : String) (ids : List String) :
    Writes m (m.renew clk n ids).events (m.renew clk n ids).mem (fun _ _ => False)
      (fun n' s => n = n' ∧ Renews m n ids s) (·.renewed (clk 0)) where
  opts := exec_opts (.renew clk n ids) m
  stays n' s' h := by
    rw [renew_service?]
    split
    · simpa using h
    · exact h
  kept n' s' old hold _ hno := by rw [renew_service?, if_neg hno, hold]
  fresh n' s' old hold _ hk := by rw [renew_service?, if_pos hk, hold, Option.map_some]
  defn old := ⟨clk 0, rfl⟩
  told n' s' svc hsvc hrep := by
    refine (hrep fun hnone => ?_).elim
    rw [renew_service?, hnone] at hsvc
    simp at hsvc

/-! ## Register -/

/-- Some input of this name adds its service, or changes it, in its turn or before. -/
def RegistersUnder (m : Memory) (clk : Nat → Time) (reg : Registration)
    (inputs : List ServiceInstance) (name : String) : Prop :=
  ∃ before i, before ++ [i] <+: inputs ∧ Answers name i ∧
    ∀ d ∈ m.defn? reg.node.id (serviceId i), Revised m.opts clk reg (before ++ [i]) (serviceId i) d

/-- A record that Register finds unchanged. -/
def ServiceRec.seenAt (svc : ServiceRec) (t : Time) : ServiceRec :=
  { svc with defn := { svc.defn with lastSeen := t } }

theorem registersUnder_snoc (m : Memory) (clk : Nat → Time) (reg : Registration)
    (inputs : List ServiceInstance) (i : ServiceInstance) (name : String) :
    RegistersUnder m clk reg (inputs ++ [i]) name ↔ RegistersUnder m clk reg inputs name ∨
      Answers name i ∧
      ∀ d ∈ m.defn? reg.node.id (serviceId i),
        Revised m.opts clk reg (inputs ++ [i]) (serviceId i) d :=
  exists_prefix_snoc

structure Naming (m : Memory) (clk : Nat → Time) (reg : Registration) (seen : List ServiceInstance)
    (p : Pass) :
    Prop where
  kept : ∀ s old, m.service? reg.node.id s = some old → ¬ Revised m.opts clk reg seen s old.defn →
    p.mem.service? reg.node.id s = some (if s ∈ seen.map serviceId then old.seenAt (clk 0) else old)
  told : ∀ s svc, p.mem.service? reg.node.id s = some svc →
    (∀ d ∈ m.defn? reg.node.id s, Revised m.opts clk reg seen s d) →
      ∃ ev ∈ p.events, ev.entry.service.name = svc.defn.name
  named : ∀ name, Mentions p.events name ↔ RegistersUnder m clk reg seen name

namespace Naming

variable {m : Memory} {clk : Nat → Time} {reg : Registration} {seen : List ServiceInstance}
  {p p' : Pass}
  {i : ServiceInstance}

theorem start (m : Memory) (clk : Nat → Time) (reg : Registration) :
    Naming m clk reg [] ⟨m.setMeta reg.node, m.sizeLocked, []⟩ where
  kept s old hold _ := by simp [Memory.service?_setMeta, hold]
  told s svc hsvc hrevised := by
    rw [Memory.service?_setMeta] at hsvc
    obtain ⟨i, hi, -⟩ := hrevised svc.defn (by simp [Memory.defn?, hsvc])
    simp at hi
  named name := by simp [Mentions, RegistersUnder]

theorem turn (h : Naming m clk reg seen p) {svc : ServiceRec}
    (hstored : ∀ n s, p'.mem.service? n s =
      if reg.node.id = n ∧ serviceId i = s then some svc else p.mem.service? n s)
    (hevents : ∀ ev ∈ p.events, ev ∈ p'.events)
    (hkept : ∀ old, m.service? reg.node.id (serviceId i) = some old →
      ¬ Revised m.opts clk reg (seen ++ [i]) (serviceId i) old.defn → svc = old.seenAt (clk 0))
    (htold : (∀ d ∈ m.defn? reg.node.id (serviceId i),
      Revised m.opts clk reg (seen ++ [i]) (serviceId i) d) →
      ∃ ev ∈ p'.events, ev.entry.service.name = svc.defn.name)
    (hnamed : ∀ name, Mentions p'.events name ↔ Mentions p.events name ∨ Answers name i ∧
      ∀ d ∈ m.defn? reg.node.id (serviceId i),
        Revised m.opts clk reg (seen ++ [i]) (serviceId i) d) :
    Naming m clk reg (seen ++ [i]) p' where
  kept := by
    intro s old hold hrevised
    rw [hstored]
    by_cases hs : serviceId i = s
    · subst hs
      rw [if_pos ⟨rfl, rfl⟩, hkept old hold hrevised, if_pos (by simp)]
    · have hs' : ¬ s = serviceId i := fun heq => hs heq.symm
      rw [if_neg fun hk => hs hk.2,
        h.kept s old hold fun hr => hrevised ((revised_snoc ..).mpr (Or.inl hr))]
      simp [hs']
  told := by
    intro s new hnew hrevised
    rw [hstored] at hnew
    by_cases hs : serviceId i = s
    · subst hs
      rw [if_pos ⟨rfl, rfl⟩] at hnew
      obtain rfl := Option.some.inj hnew
      exact htold hrevised
    · rw [if_neg fun hk => hs hk.2] at hnew
      obtain ⟨ev, hev, hname⟩ := h.told s new hnew fun d hd =>
        ((revised_snoc ..).mp (hrevised d hd)).resolve_right fun hk => hs hk.1
      exact ⟨ev, hevents ev hev, hname⟩
  named := by
    intro name
    rw [hnamed, registersUnder_snoc, h.named]

theorem put (h : Naming m clk reg seen p) {svc : ServiceRec} {ev : ChangeEvent}
    (hstored : ∀ n s, p'.mem.service? n s =
      if reg.node.id = n ∧ serviceId i = s then some svc else p.mem.service? n s)
    (hevents : p'.events = p.events ++ [ev]) (hev : ev.entry.service = svc.defn)
    (hname : svc.defn.name = i.name)
    (hrevised : ∀ d ∈ m.defn? reg.node.id (serviceId i),
      Revised m.opts clk reg (seen ++ [i]) (serviceId i) d) :
    Naming m clk reg (seen ++ [i]) p' := by
  refine h.turn hstored (fun ev hmem => ?_) (fun old hold hno => ?_) (fun _ => ?_) fun name => ?_
  · rw [hevents]
    exact List.mem_append_left _ hmem
  · exact absurd (hrevised old.defn (by simp [Memory.defn?, hold])) hno
  · exact ⟨ev, by simp [hevents], by rw [hev]⟩
  · rw [hevents, mentions_snoc, hev, and_iff_left hrevised, Answers, Answers, hname]

theorem refresh (h : Naming m clk reg seen p) (hreg : Registering m clk reg seen p) {old : ServiceRec}
    (hold : p.mem.service? reg.node.id (serviceId i) = some old)
    (hsame : changed old.defn (stamp p.mem.opts (clk 0) reg.generation i) = false)
    (hstored : ∀ n s, p'.mem.service? n s =
      if reg.node.id = n ∧ serviceId i = s then some (old.seenAt (clk 0)) else p.mem.service? n s)
    (hevents : p'.events = p.events) : Naming m clk reg (seen ++ [i]) p' := by
  have htold :
      (∀ d ∈ m.defn? reg.node.id (serviceId i),
        Revised m.opts clk reg (seen ++ [i]) (serviceId i) d) →
      ∃ ev ∈ p'.events, ev.entry.service.name = old.defn.name := by
    intro hall
    rw [hevents]
    exact h.told _ old hold fun d hd => (hreg.revised_iff_of_same hold hsame hd).mp (hall d hd)
  refine h.turn hstored (fun ev hev => hevents ▸ hev) (fun first hfirst hno => ?_) htold
    fun name => ?_
  · have hkept := h.kept _ first hfirst fun hr => hno ((revised_snoc ..).mpr (Or.inl hr))
    rw [hold, Option.some.injEq] at hkept
    rw [hkept]
    split <;> rfl
  · rw [hevents, or_iff_left_of_imp]
    rintro ⟨hname, hall⟩
    obtain ⟨ev, hev, heq⟩ := htold hall
    -- An input that changes nothing has the name that is stored.
    have hstamp : i.name = old.defn.name :=
      (fields_of_not_changed (Bool.eq_false_iff.mp hsame)).name.symm
    exact ⟨ev, hevents ▸ hev, hname.congr (heq.trans hstamp.symm)⟩

theorem step (h : Naming m clk reg seen p) (hreg : Registering m clk reg seen p)
    (hturn : registerService clk reg p i = some p') : Naming m clk reg (seen ++ [i]) p' := by
  have hspec := registerService_spec clk reg p i
  rw [hturn] at hspec
  obtain ⟨r, hr, -⟩ := hreg.node
  cases hspec with
  | create hnew hroom hsvc =>
    subst hsvc
    have hnone : m.service? reg.node.id (serviceId i) = none := ((hreg.held _).mp hnew).1
    refine h.put (Memory.service?_createService hr _) rfl rfl rfl fun d hd => ?_
    rw [Memory.defn?, hnone] at hd
    cases hd
  | rewrite hold hchanged hsvc =>
    subst hsvc
    exact h.put (Memory.service?_rewriteService hr _ _ _) rfl rfl rfl fun d =>
      hreg.revised_of_changed hold hchanged
  | refresh hold hsame => exact h.refresh hreg hold hsame (Memory.service?_setService hr) rfl

end Naming

/-- The stored services that a registration changes. -/
def Changes (m : Memory) (clk : Nat → Time) (reg : Registration) (inputs : List ServiceInstance)
    (n s : String) :
    Prop :=
  n = reg.node.id ∧ ∃ d, m.defn? n s = some d ∧ Revised m.opts clk reg inputs s d

section Register

variable {m : Memory} {clk : Nat → Time} {reg : Registration}

theorem changes_of_revised {inputs : List ServiceInstance} {s : String} {old : ServiceRec}
    (hold : m.service? reg.node.id s = some old) (hr : Revised m.opts clk reg inputs s old.defn) :
    Changes m clk reg inputs reg.node.id s :=
  ⟨rfl, old.defn, by rw [Memory.defn?, hold, Option.map_some], hr⟩

theorem register_naming (hid : reg.node.id ≠ "") (hnames : ∀ i ∈ reg.services, i.name ≠ "") :
    ∃ p : Pass, (m.register clk reg).mem = p.mem ∧ (m.register clk reg).events = p.events ∧
      Naming m clk reg (accepted m reg.node.id [] reg.services) p := by
  have hrun :=
    (Registering.start m clk reg).induct (Naming m clk reg) (fun _ _ _ _ hreg h => h.step hreg)
    (Naming.start m clk reg) reg.services
  rw [register_eq_loop hid hnames]
  exact ⟨_, rfl, rfl, hrun.2⟩

theorem register_writes (hid : reg.node.id ≠ "") (hnames : ∀ i ∈ reg.services, i.name ≠ "") :
    Writes m (m.register clk reg).events (m.register clk reg).mem
      (Changes m clk reg (accepted m reg.node.id [] reg.services))
      (fun n s => n = reg.node.id ∧ s ∈ (accepted m reg.node.id [] reg.services).map serviceId)
      (·.seenAt (clk 0)) ∧
    ∀ name, Mentions (m.register clk reg).events name ↔
      RegistersUnder m clk reg (accepted m reg.node.id [] reg.services) name := by
  have hopts : (m.register clk reg).mem.opts = m.opts := exec_opts (.register clk reg) m
  have hstays : ∀ n s, m.service? n s ≠ none → (m.register clk reg).mem.service? n s ≠ none :=
    fun n s => exec_stays (c := .register clk reg) rfl
  have hframe : ∀ n s, n ≠ reg.node.id → (m.register clk reg).mem.service? n s = m.service? n s :=
    fun n s hn => exec_service?_frame (c := .register clk reg) rfl hn m s
  obtain ⟨p, hmem, hevents, hnaming⟩ := @register_naming m clk reg hid hnames
  rw [hmem] at hopts hstays hframe
  rw [hmem, hevents]
  refine ⟨⟨hopts, hstays, ?_, ?_, fun old => ⟨clk 0, rfl⟩, ?_⟩, hnaming.named⟩
  · intro n s old hold hno hseen
    by_cases hn : n = reg.node.id
    · subst hn
      rw [hnaming.kept s old hold fun hr => hno (changes_of_revised hold hr),
        if_neg fun hs => hseen ⟨rfl, hs⟩]
    · rw [hframe n s hn, hold]
  · rintro n s old hold hno ⟨rfl, hseen⟩
    rw [hnaming.kept s old hold fun hr => hno (changes_of_revised hold hr), if_pos hseen]
  · intro n s svc hsvc hrep
    by_cases hn : n = reg.node.id
    · subst hn
      refine hnaming.told s svc hsvc fun d hd => ?_
      obtain ⟨old, hold, -⟩ := Option.map_eq_some_iff.mp hd
      obtain ⟨-, d', hd', hr⟩ := hrep (by simp [hold])
      rwa [← Option.some.inj (hd'.symm.trans hd)]
    · rw [hframe n s hn] at hsvc
      exact absurd (hrep (by simp [hsvc])).1 hn

end Register

/-! ## Merge -/

/-- The keys that Merge has room to add. -/
def admitted (m : Memory) (es : List ServiceEntry) : Finset (String × String) :=
  es.foldl (fun keys e =>
    if Valid e ∧ m.service? e.node.id e.service.id = none ∧
        m.opts.atCapacity (m.sizeLocked + keys.card) = false then
      insert (e.node.id, e.service.id) keys
    else keys) ∅

theorem admitted_snoc (m : Memory) (es : List ServiceEntry) (e : ServiceEntry) :
    admitted m (es ++ [e]) =
      if Valid e ∧ m.service? e.node.id e.service.id = none ∧
          m.opts.atCapacity (m.sizeLocked + (admitted m es).card) = false then
        insert (e.node.id, e.service.id) (admitted m es)
      else admitted m es := by
  rw [admitted, List.foldl_append]
  rfl

/-- Some entry of this name wins its turn, and its key is stored or there is room for it. -/
def MergesUnder (m : Memory) (es : List ServiceEntry) (name : String) : Prop :=
  ∃ before e, before ++ [e] <+: es ∧ Answers name e.service ∧ Wins m before e ∧
    (m.service? e.node.id e.service.id ≠ none ∨
      (e.node.id, e.service.id) ∈ admitted m (before ++ [e]))

theorem mergesUnder_snoc (m : Memory) (es : List ServiceEntry) (e : ServiceEntry) (name : String) :
    MergesUnder m (es ++ [e]) name ↔ MergesUnder m es name ∨ Answers name e.service ∧ Wins m es e ∧
      (m.service? e.node.id e.service.id ≠ none ∨
        (e.node.id, e.service.id) ∈ admitted m (es ++ [e])) :=
  exists_prefix_snoc

structure MergeNaming (m : Memory) (seen : List ServiceEntry) (p : MergePass) : Prop where
  opts : p.mem.opts = m.opts
  size : p.size = m.sizeLocked + (admitted m seen).card
  held : ∀ n s, p.mem.service? n s = none ↔ m.service? n s = none ∧ (n, s) ∉ admitted m seen
  refused : ∀ e ∈ seen, Valid e → p.mem.service? e.node.id e.service.id = none →
    m.opts.atCapacity p.size = true
  defn : ∀ n s, p.mem.service? n s ≠ none →
    p.mem.defn? n s = (copies m seen n s).argmax ServiceInstance.rank
  told : ∀ n s svc, p.mem.service? n s = some svc →
    m.service? n s = some svc ∨ ∃ ev ∈ p.events, ev.entry.service.name = svc.defn.name
  named : ∀ name, Mentions p.events name ↔ MergesUnder m seen name

namespace MergeNaming

variable {m : Memory} {seen : List ServiceEntry} {p p' : MergePass} {e : ServiceEntry}

theorem start (m : Memory) : MergeNaming m [] ⟨⟨m, m.sizeLocked, []⟩, 0⟩ where
  opts := rfl
  size := rfl
  held n s := by simp [admitted]
  refused := by simp
  defn n s h := by
    obtain ⟨svc, hsvc⟩ := Option.ne_none_iff_exists'.mp h
    have hsvc : m.service? n s = some svc := hsvc
    simp [copies, offers, Memory.defn?, hsvc]
  told n s svc h := Or.inl h
  named name := by simp [Mentions, MergesUnder]

theorem leads_iff (h : MergeNaming m seen p) (hheld : p.mem.service? e.node.id e.service.id ≠ none) :
    Leads p.mem e ↔ Wins m seen e := by
  rw [Leads, h.defn _ _ hheld, forall_argmax_lt]
  rfl

theorem admitted_of_held (h : MergeNaming m seen p)
    (hheld : p.mem.service? e.node.id e.service.id ≠ none) :
    admitted m (seen ++ [e]) = admitted m seen := by
  rw [admitted_snoc]
  split <;> rename_i hk
  · refine Finset.insert_eq_of_mem ?_
    by_contra hnot
    exact hheld ((h.held _ _).mpr ⟨hk.2.1, hnot⟩)
  · rfl

theorem pass (h : MergeNaming m seen p) (hopts : p'.mem.opts = p.mem.opts)
    (hsize : p'.size = p.size) (hsame : ∀ n s, p'.mem.service? n s = p.mem.service? n s)
    (hevents : p'.events = p.events) (hadmitted : admitted m (seen ++ [e]) = admitted m seen)
    (hrefused : Valid e → p.mem.service? e.node.id e.service.id = none →
      m.opts.atCapacity p.size = true)
    (hwins : p.mem.service? e.node.id e.service.id ≠ none → ¬ Wins m seen e) :
    MergeNaming m (seen ++ [e]) p' where
  opts := hopts.trans h.opts
  size := by rw [hsize, hadmitted, h.size]
  held n s := by rw [hsame, hadmitted, h.held]
  refused := by
    intro e' he' hvalid hnone
    rw [hsame] at hnone
    rw [hsize]
    rcases List.mem_append.mp he' with he' | he'
    · exact h.refused e' he' hvalid hnone
    · rw [List.mem_singleton.mp he'] at hvalid hnone
      exact hrefused hvalid hnone
  defn := by
    intro n s hheld
    rw [hsame] at hheld
    rw [Memory.defn?, hsame, ← Memory.defn?, h.defn n s hheld, argmax_copies_snoc, if_neg]
    rintro ⟨hw, rfl, rfl⟩
    exact hwins hheld hw
  told n s svc hsvc := by
    rw [hevents]
    exact h.told n s svc (hsame n s ▸ hsvc)
  named name := by
    rw [hevents, mergesUnder_snoc, h.named, or_iff_left]
    rintro ⟨-, hw, hstored⟩
    rw [hadmitted] at hstored
    refine hwins (fun hnone => ?_) hw
    obtain ⟨hnew, hnot⟩ := (h.held _ _).mp hnone
    exact hstored.elim (fun hne => hne hnew) hnot

theorem write (h : MergeNaming m seen p) (hopts : p'.mem.opts = p.mem.opts) {svc : ServiceRec}
    {ev : ChangeEvent}
    (hstored : ∀ n s, p'.mem.service? n s =
      if e.node.id = n ∧ e.service.id = s then some svc else p.mem.service? n s)
    (hdefn : svc.defn = clamped p.mem.opts e.service) (hevents : p'.events = p.events ++ [ev])
    (hev : ev.entry.service = svc.defn) (hwins : Wins m seen e)
    (hsize : p'.size = m.sizeLocked + (admitted m (seen ++ [e])).card)
    (hadmitted : m.service? e.node.id e.service.id ≠ none ∨
      (e.node.id, e.service.id) ∈ admitted m (seen ++ [e]))
    (hothers : ∀ n s, ¬ (e.node.id = n ∧ e.service.id = s) →
      ((n, s) ∈ admitted m (seen ++ [e]) ↔ (n, s) ∈ admitted m seen))
    (hrefused : ∀ e' ∈ seen, Valid e' → p.mem.service? e'.node.id e'.service.id = none →
      m.opts.atCapacity p'.size = true) : MergeNaming m (seen ++ [e]) p' where
  opts := hopts.trans h.opts
  size := hsize
  held := by
    intro n s
    rw [hstored]
    by_cases hk : e.node.id = n ∧ e.service.id = s
    · obtain ⟨rfl, rfl⟩ := hk
      rw [if_pos ⟨rfl, rfl⟩]
      refine iff_of_false (by simp) fun hnone => ?_
      exact hadmitted.elim (fun hne => hne hnone.1) hnone.2
    · rw [if_neg hk, hothers n s hk, h.held]
  refused := by
    intro e' he' hvalid hnone
    rw [hstored] at hnone
    split at hnone <;> rename_i hk
    · cases hnone
    · rcases List.mem_append.mp he' with he' | he'
      · exact hrefused e' he' hvalid hnone
      · rw [List.mem_singleton.mp he'] at hk
        exact absurd ⟨rfl, rfl⟩ hk
  defn := by
    intro n s hheld
    rw [hstored] at hheld
    rw [Memory.defn?, hstored, argmax_copies_snoc]
    by_cases hk : e.node.id = n ∧ e.service.id = s
    · rw [if_pos hk, if_pos ⟨hwins, hk⟩, Option.map_some, hdefn, h.opts]
    · rw [if_neg hk] at hheld
      rw [if_neg hk, if_neg fun hall => hk hall.2]
      exact h.defn n s hheld
  told := by
    intro n s new hnew
    rw [hstored] at hnew
    rw [hevents]
    split at hnew
    · obtain rfl := Option.some.inj hnew
      exact Or.inr ⟨ev, by simp, by rw [hev]⟩
    · rcases h.told n s new hnew with hsame | ⟨ev', hev', hname⟩
      · exact Or.inl hsame
      · exact Or.inr ⟨ev', List.mem_append_left _ hev', hname⟩
  named := by
    intro name
    have hname : Answers name ev.entry.service ↔ Answers name e.service := by
      rw [hev, hdefn]
      rfl
    rw [hevents, mentions_snoc, mergesUnder_snoc, h.named, hname, and_iff_left ⟨hwins, hadmitted⟩]

/-- Room at the turn of a new key means that no entry was turned away before. -/
theorem wins_of_room (h : MergeNaming m seen p) (hvalid : Valid e)
    (hnew : p.mem.service? e.node.id e.service.id = none) (hroom : m.opts.atCapacity p.size = false) :
    Wins m seen e := by
  refine ⟨hvalid, fun d hd => ?_⟩
  rcases List.mem_append.mp hd with hd | hd
  · rw [Memory.defn?, ((h.held _ _).mp hnew).1] at hd
    simp at hd
  · obtain ⟨e', he', -⟩ := List.mem_map.mp hd
    obtain ⟨he', hk⟩ := List.mem_filter.mp he'
    obtain ⟨hvalid', hn, hs⟩ := of_decide_eq_true hk
    have hfull := h.refused e' he' hvalid' (by rw [hn, hs]; exact hnew)
    rw [hroom] at hfull
    cases hfull

theorem create (h : MergeNaming m seen p) (hopts : p'.mem.opts = p.mem.opts) {svc : ServiceRec}
    {ev : ChangeEvent} (hvalid : Valid e) (hnew : p.mem.service? e.node.id e.service.id = none)
    (hroom : m.opts.atCapacity p.size = false)
    (hstored : ∀ n s, p'.mem.service? n s =
      if e.node.id = n ∧ e.service.id = s then some svc else p.mem.service? n s)
    (hdefn : svc.defn = clamped p.mem.opts e.service) (hevents : p'.events = p.events ++ [ev])
    (hev : ev.entry.service = svc.defn) (hsize : p'.size = p.size + 1) :
    MergeNaming m (seen ++ [e]) p' := by
  obtain ⟨hnone, hnot⟩ := (h.held _ _).mp hnew
  have hinsert : admitted m (seen ++ [e]) = insert (e.node.id, e.service.id) (admitted m seen) := by
    rw [admitted_snoc, if_pos ⟨hvalid, hnone, h.size ▸ hroom⟩]
  refine h.write hopts hstored hdefn hevents hev (h.wins_of_room hvalid hnew hroom) ?_ ?_ ?_ ?_
  · rw [hsize, h.size, hinsert, Finset.card_insert_of_notMem hnot, Nat.add_assoc]
  · exact Or.inr (hinsert ▸ Finset.mem_insert_self _ _)
  · intro n s hk
    rw [hinsert, Finset.mem_insert, or_iff_right]
    exact fun heq => hk ⟨(Prod.mk.inj heq).1.symm, (Prod.mk.inj heq).2.symm⟩
  · intro e' he' hvalid' hnone'
    have hfull := h.refused e' he' hvalid' hnone'
    rw [hroom] at hfull
    cases hfull

theorem win (h : MergeNaming m seen p) (hopts : p'.mem.opts = p.mem.opts) {old svc : ServiceRec}
    {ev : ChangeEvent} (hvalid : Valid e) (hold : p.mem.service? e.node.id e.service.id = some old)
    (hrank : old.defn.rank < e.service.rank)
    (hstored : ∀ n s, p'.mem.service? n s =
      if e.node.id = n ∧ e.service.id = s then some svc else p.mem.service? n s)
    (hdefn : svc.defn = clamped p.mem.opts e.service) (hevents : p'.events = p.events ++ [ev])
    (hev : ev.entry.service = svc.defn) (hsize : p'.size = p.size) :
    MergeNaming m (seen ++ [e]) p' := by
  have hheld : p.mem.service? e.node.id e.service.id ≠ none := by simp [hold]
  have hsame := h.admitted_of_held hheld
  have hwins := (h.leads_iff hheld).mp ((leads_iff_of_stored hvalid hold).mpr hrank)
  refine h.write hopts hstored hdefn hevents hev hwins ?_ ?_ ?_ ?_
  · rw [hsize, h.size, hsame]
  · rw [hsame]
    by_contra hno
    rw [not_or, not_not] at hno
    exact hheld ((h.held _ _).mpr hno)
  · intro n s _
    rw [hsame]
  · intro e' he' hvalid' hnone
    rw [hsize]
    exact h.refused e' he' hvalid' hnone

theorem step (h : MergeNaming m seen p) {clk : Nat → Time} (hturn : MergeTurn clk p e p') :
    MergeNaming m (seen ++ [e]) p' := by
  obtain ⟨r, hr, -⟩ := hasMeta_setMeta p.mem e.node
  have hopts := hturn.opts
  cases hturn with
  | skip hvalid =>
    have hadmitted : admitted m (seen ++ [e]) = admitted m seen := by
      rw [admitted_snoc, if_neg fun hk => hvalid hk.1]
    exact h.pass rfl rfl (fun _ _ => rfl) rfl hadmitted (fun hv => absurd hv hvalid) fun _ hw =>
      hvalid hw.1
  | full hvalid hnew hfull =>
    rw [h.opts] at hfull
    have hadmitted : admitted m (seen ++ [e]) = admitted m seen := by
      rw [admitted_snoc, if_neg]
      rw [← h.size, hfull]
      simp
    exact h.pass rfl rfl (Memory.service?_setMeta e.node) rfl hadmitted (fun _ _ => hfull)
      fun hne => absurd hnew hne
  | lose hvalid hold hrank =>
    have hheld : p.mem.service? e.node.id e.service.id ≠ none := by simp [hold]
    refine h.pass rfl rfl (Memory.service?_setMeta e.node) rfl (h.admitted_of_held hheld)
      (fun _ hnone => absurd hnone hheld) fun _ hw => hrank ?_
    exact (leads_iff_of_stored hvalid hold).mp ((h.leads_iff hheld).mpr hw)
  | create hvalid hnew hroom hsvc =>
    subst hsvc
    rw [h.opts] at hroom
    refine h.create hopts hvalid hnew hroom (fun n s => ?_) rfl rfl rfl rfl
    rw [Memory.service?_createService hr, Memory.service?_setMeta]
    rfl
  | win hvalid hold hrank hsvc =>
    subst hsvc
    refine h.win hopts hvalid hold hrank (fun n s => ?_) rfl rfl rfl rfl
    rw [Memory.service?_rewriteService hr, Memory.service?_setMeta]

/-- The definition ends up at least as high as every entry, so one that an entry leads is gone. -/
theorem not_kept (h : MergeNaming m seen p) (he : e ∈ seen) (hlead : Leads m e) {svc : ServiceRec}
    (hsvc : p.mem.service? e.node.id e.service.id = some svc) :
    m.service? e.node.id e.service.id ≠ some svc := by
  intro hsame
  have hbest := h.defn e.node.id e.service.id (by simp [hsvc])
  rw [Memory.defn?, hsvc, Option.map_some, eq_comm, argmax_eq_some_iff] at hbest
  have hmem : clamped m.opts e.service ∈ copies m seen e.node.id e.service.id := by
    refine List.mem_append_right _ (List.mem_map.mpr ⟨e, List.mem_filter.mpr ⟨he, ?_⟩, rfl⟩)
    simpa using hlead.1
  have hle := hbest.le _ hmem
  exact absurd (hlead.2 svc.defn (by simp [Memory.defn?, hsame])) (not_lt_of_ge hle)

theorem run (h : MergeNaming m seen p) (clk : Nat → Time) (es : List ServiceEntry) :
    MergeNaming m (seen ++ es) (es.foldl (mergeEntry clk) p) := by
  induction es generalizing seen p with
  | nil => simpa using h
  | cons e rest ih =>
    rw [List.append_cons]
    exact ih (h.step (mergeEntry_spec clk p e))

end MergeNaming

/-- The stored services that some entry ranks above. -/
def Overtaken (m : Memory) (es : List ServiceEntry) (n s : String) : Prop :=
  ∃ e ∈ es, e.node.id = n ∧ e.service.id = s ∧ Leads m e

theorem merge_writes (m : Memory) (clk : Nat → Time) (es : List ServiceEntry) :
    Writes m (m.merge clk es).events (m.merge clk es).mem (Overtaken m es) (fun _ _ => False) id ∧
      ∀ name, Mentions (m.merge clk es).events name ↔ MergesUnder m es name := by
  have hnaming := (MergeNaming.start m).run clk es
  rw [List.nil_append] at hnaming
  have hstays := fun n s => exec_stays (c := .merge clk es) rfl (m := m) (n := n) (s := s)
  refine ⟨⟨hnaming.opts, hstays, ?_, nofun, fun old => ⟨old.defn.lastSeen, rfl⟩, ?_⟩, hnaming.named⟩
  · intro n s old hold hno _
    rw [merge_service?_of_not_leads clk fun e he hn hs hlead => hno ⟨e, he, hn, hs, hlead⟩, hold]
  · intro n s svc hsvc hrep
    refine (hnaming.told n s svc hsvc).resolve_left fun hsame => ?_
    obtain ⟨e, he, rfl, rfl, hlead⟩ := hrep (by simp [hsame])
    exact hnaming.not_kept he hlead hsvc hsame

end YellowPages.Store
