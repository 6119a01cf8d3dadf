import YellowPages.Store.Named
import YellowPages.Watch.Index
import YellowPages.Watch.Track

/-!
# The index of a name against the answer for it

A client waits on the index of a name. It misses what the answer for the name loses or gets back
without an event of that name.
-/

namespace YellowPages.Watch

open Lib Store

/-! ## What moves the index of a name -/

theorem mentions_empty (events : List ChangeEvent) : Mentions events "" ↔ events ≠ [] := by
  cases events <;> simp [Mentions, Answers]

theorem concerns_iff (events : List ChangeEvent) (name : String) :
    Watcher.Concerns (.notify events) { name := name } ↔ Mentions events name := by
  by_cases hname : name = ""
  · subst hname
    rw [mentions_empty]
    simp [Watcher.Concerns, WatchCall.names]
  · simp [Watcher.Concerns, WatchCall.names, Mentions, Answers, hname]

/-- A batch moves the index of the names in it, and of those that the watcher has not met yet. -/
theorem Watcher.Counted.notify_moves_iff {base k : Nat} {w : Watcher} (h : w.Counted base k)
    (hbase : 1 ≤ base) (events : List ChangeEvent) (name : String)
    (hwrap : base + k + events.length < 2 ^ 64) :
    w.currentIndex { name := name } < (w.notify events).currentIndex { name := name } ↔
      Mentions events name ∨ w.nameIndex[name]? = none ∧ events ≠ [] := by
  have hlen : (WatchCall.notify events).names.length = events.length := by simp [WatchCall.names]
  by_cases hmentions : Mentions events name
  · refine iff_of_true ?_ (Or.inl hmentions)
    exact (h.exec_moves_iff (.notify events) _ ((concerns_iff events name).mpr hmentions)
      (by rw [hlen]; exact hwrap)).mpr
      (Or.inl (by omega))
  · rw [or_iff_right hmentions]
    by_cases hevents : events = []
    · subst hevents
      simp [Watcher.notify]
    · have hname : name ≠ "" := fun heq => hmentions (heq ▸ (mentions_empty events).mpr hevents)
      have hno : name ∉ (WatchCall.notify events).names := by
        intro hmem
        obtain ⟨ev, hev, heq⟩ := List.mem_map.mp hmem
        exact hmentions ⟨ev, hev, Or.inr heq⟩
      have hsame := Watcher.exec_sameIndex w (.notify events)
      have hkept : (w.notify events).nameIndex[name]? = w.nameIndex[name]? := by
        have hfold := Watcher.nameIndex_of_not_mem w _ name hno
        rw [← hsame.2] at hfold
        exact hfold
      cases hseen : w.nameIndex[name]? with
      | some i =>
        rw [w.currentIndex_seen { name := name } hname i hseen,
          Watcher.currentIndex_seen _ { name := name } hname i (hkept.trans hseen)]
        simp
      | none =>
        have hindex : (w.notify events).index = w.index + events.length := by
          rw [← hlen, ← Watcher.index_foldl_advance w _ (by rw [hlen, h.index_eq]; exact hwrap),
            ← hsame.1]
          rfl
        have hpos := List.length_pos_of_ne_nil hevents
        have hone : 1 ≤ w.index := by rw [h.index_eq]; omega
        rw [w.currentIndex_unseen { name := name } hseen,
          Watcher.currentIndex_unseen _ { name := name } (hkept.trans hseen), hindex]
        refine iff_of_true ?_ ⟨rfl, hevents⟩
        exact (Watcher.atLeastOne_lt_iff _ _ (by omega)).mpr (Or.inl hone)

/-! ## Calls that add and redefine nothing -/

section Tracked

variable {m m' : Memory} {events : List ChangeEvent} {now : Time} {name : String}

theorem wanted_of_not_mentions (hno : ¬ Mentions events name) :
    wanted { name := name } events = [] := by
  rw [wanted, List.filter_eq_nil_iff]
  intro ev hev hmatches
  exact hno ⟨ev, hev, ((matchesQuery_iff _ _).mp hmatches).1⟩

theorem matched_of_answers {n s : String} {svc : ServiceRec} (hsvc : m.service? n s = some svc)
    (hname : Answers name svc.defn) : m.matched { name := name } n s = true := by
  obtain ⟨r, hr, -⟩ := Memory.service?_eq_some.mp hsvc
  have hnode : m.node? n = some r.nodeMeta := Memory.node?_of_node hr
  rw [Memory.matched_of_some hnode hsvc, asked, matchesQuery_iff]
  exact ⟨hname, Or.inl rfl, by simp⟩

theorem mentions_or_same_of_tracks (htracks : Tracks { name := name } m events m')
    (hopts : m'.opts = m.opts) (hlease : ∀ n s, SameLease m m' n s) :
    Mentions events name ∨ ∀ n s, m'.namedDefn now name n s = m.namedDefn now name n s := by
  by_cases hmentions : Mentions events name
  · exact Or.inl hmentions
  · refine Or.inr fun n s => ?_
    cases hsvc' : m'.service? n s with
    | some svc' =>
      obtain ⟨svc, hsvc, hdefn, hfailed⟩ := hlease n s svc' hsvc'
      simp only [Memory.namedDefn, hsvc, hsvc', Option.bind_some, hdefn, hopts,
        lease_congr hdefn hfailed]
    | none =>
      rw [Memory.namedDefn_of_none hsvc', eq_comm]
      cases hsvc : m.service? n s with
      | none => exact Memory.namedDefn_of_none hsvc
      | some svc =>
        refine Memory.namedDefn_of_not_answers hsvc fun hname => ?_
        -- No event of the name says that it is gone.
        have hmatched := htracks n s
        rw [wanted_of_not_mentions hmentions, Memory.matched_of_none hsvc',
          matched_of_answers hsvc hname] at hmatched
        cases hmatched

theorem setFlag_mentions_or_same (m : Memory) (clk : Nat → Time) (n s : String)
    (same : ServiceRec → Bool) {set : ServiceRec → ServiceRec}
    (hdefn : ∀ svc, (set svc).defn = svc.defn) :
    Mentions (m.setFlag clk n s same set).events name ∨
      ∀ n' s', (m.setFlag clk n s same set).mem.namedDefn now name n' s' =
        m.namedDefn now name n' s' := by
  refine setFlag_keeps (fun m' events => Mentions events name ∨
    ∀ n' s', m'.namedDefn now name n' s' = m.namedDefn now name n' s') (Or.inr fun _ _ => rfl) ?_
  intro r svc new hr hsvc _ hnew
  have hsame : new.defn = svc.defn := by
    rw [hnew]
    exact hdefn svc
  by_cases hname : Answers name svc.defn
  · exact Or.inl ⟨_, List.mem_singleton_self _, hname.congr (congrArg ServiceInstance.name hsame)⟩
  · refine Or.inr fun n' s' => ?_
    have hput : (m.advance.setService n s new).service? n' s' = _ :=
      Memory.service?_setService (m := m.advance) hr n' s'
    by_cases hk : n = n' ∧ s = s'
    · obtain ⟨rfl, rfl⟩ := hk
      rw [if_pos ⟨rfl, rfl⟩] at hput
      rw [Memory.namedDefn_of_not_answers hsvc hname,
        Memory.namedDefn_of_not_answers hput (hsame ▸ hname)]
    · rw [if_neg hk] at hput
      simp only [Memory.namedDefn, hput]
      rfl

end Tracked

/-! ## What a call does to the answer for a name -/

/-- The call writes a service of this name, or it takes none of those that the lookup shows away from
the name and refreshes none so that it comes into sight or drops out of it. -/
def Call.NameTold (m : Memory) (now : Time) (name : String) : Call → Prop
  | .register clk reg =>
    let inputs := accepted m reg.node.id [] reg.services
    reg.node.id ≠ "" → (∀ i ∈ reg.services, i.name ≠ "") → RegistersUnder m clk reg inputs name ∨
      Settled m now name (Changes m clk reg inputs)
        (fun n s => n = reg.node.id ∧ s ∈ inputs.map serviceId) (·.seenAt (clk 0))
  | .renew clk n ids =>
    Settled m now name (fun _ _ => False) (fun n' s => n = n' ∧ Renews m n ids s) (·.renewed (clk 0))
  | .merge _ es => MergesUnder m es name ∨ Settled m now name (Overtaken m es) (fun _ _ => False) id
  | .fail .. | .setMaintenance .. | .deregister .. | .deregisterService .. | .gc .. => True

/-- A registration or a merge that writes some service. -/
def Call.Speaks (m : Memory) : Call → Prop
  | .register clk reg => RegistersUnder m clk reg (accepted m reg.node.id [] reg.services) ""
  | .merge _ es => MergesUnder m es ""
  | _ => False

theorem Call.nameTold_iff {m : Memory} (hfiled : Filed m) (now : Time) (name : String) (c : Call) :
    (Mentions (c.exec m).2 name ∨
      ∀ n s, (c.exec m).1.namedDefn now name n s = m.namedDefn now name n s) ↔
      Call.NameTold m now name c := by
  have hkeeps : c.grows = false → (∀ n s, SameLease m (c.exec m).1 n s) →
      (Mentions (c.exec m).2 name ∨
        ∀ n s, (c.exec m).1.namedDefn now name n s = m.namedDefn now name n s) := by
    intro hgrows hlease
    have hsteps := exec_steps c m
    rw [hgrows] at hsteps
    exact mentions_or_same_of_tracks (Steps.tracks hsteps hfiled _) (exec_opts c m) hlease
  cases c with
  | register clk reg =>
    by_cases hvalid : reg.node.id ≠ "" ∧ ∀ i ∈ reg.services, i.name ≠ ""
    · obtain ⟨hwrites, hnamed⟩ := @register_writes m clk reg hvalid.1 hvalid.2
      refine (hwrites.mentions_or_same_iff.trans (or_congr_left (hnamed name))).trans ?_
      exact ⟨fun h _ _ => h, fun h => h hvalid.1 hvalid.2⟩
    · refine iff_of_true (Or.inr fun n s => ?_) fun hid hnames => absurd ⟨hid, hnames⟩ hvalid
      exact congrArg (fun m' : Memory => m'.namedDefn now name n s) (register_refused hvalid)
  | renew clk n ids =>
    have hevents : ¬ Mentions (m.renew clk n ids).events name := by
      rw [renew_events]
      simp [Mentions]
    exact ((renew_writes m clk n ids).mentions_or_same_iff).trans (or_iff_right hevents)
  | merge clk es =>
    obtain ⟨hwrites, hnamed⟩ := merge_writes m clk es
    exact hwrites.mentions_or_same_iff.trans (or_congr_left (hnamed name))
  | fail clk n s => exact iff_of_true (setFlag_mentions_or_same m clk n s _ fun _ => rfl) trivial
  | setMaintenance clk n s enabled =>
    exact iff_of_true (setFlag_mentions_or_same m clk n s _ fun _ => rfl) trivial
  | deregister order n => exact iff_of_true (hkeeps rfl (deregister_sameLease m order n)) trivial
  | deregisterService n s => exact iff_of_true (hkeeps rfl (deregisterService_sameLease m n s)) trivial
  | gc clk order => exact iff_of_true (hkeeps rfl (gc_sameLease m clk order)) trivial

theorem Call.speaks_iff {m : Memory} {now : Time} {name : String} {c : Call}
    (h : ¬ Call.NameTold m now name c) :
    (c.exec m).2 ≠ [] ↔ Call.Speaks m c := by
  rw [← mentions_empty]
  cases c with
  | register clk reg =>
    by_cases hvalid : reg.node.id ≠ "" ∧ ∀ i ∈ reg.services, i.name ≠ ""
    · exact (register_writes hvalid.1 hvalid.2).2 ""
    · exact absurd (fun hid hnames => absurd ⟨hid, hnames⟩ hvalid) h
  | renew clk n ids =>
    rw [mentions_empty]
    exact iff_of_false (fun hne => hne (renew_events m n clk ids)) id
  | merge clk es => exact (merge_writes m clk es).2 ""
  | fail | setMaintenance | deregister | deregisterService | gc => exact absurd trivial h

/-! ## The run of a seed -/

namespace Feed

def storeCalls : List FeedAction → List Call :=
  List.filterMap fun a => match a with
    | .call c => some c
    | _ => none

/-- The watcher has counted the events of the log that are not pending. -/
structure Counts (opts : Options) (base : Nat) (calls : List Call) (s : Feed) : Prop where
  mem : s.mem = ((newMemory opts).run calls).1
  counted : ∃ k, s.watcher.Counted base k ∧
    k + s.pending.flatten.length = ((newMemory opts).run calls).2.flatten.length

variable {opts : Options} {base : Nat} {calls : List Call} {s : Feed}

theorem Counts.startAt (opts : Options) (base : Nat) : Counts opts base [] (startAt opts base) where
  mem := rfl
  counted := by
    refine ⟨0, Watcher.SameIndex.counted ?_ (Watcher.counted_new base), rfl⟩
    exact Watcher.exec_sameIndex (newWatcher base) (.subscribe {})

theorem Counts.watched (h : Counts opts base calls s) {c : WatchCall} (hc : c.names = [])
    {got : List ChangeEvent} :
    Counts opts base (calls ++ []) { s with watcher := c.exec s.watcher, got := got } where
  mem := by rw [List.append_nil, h.mem]
  counted := by
    obtain ⟨k, hcounted, hlog⟩ := h.counted
    have hsame := Watcher.exec_sameIndex s.watcher c
    rw [hc] at hsame
    exact ⟨k, hsame.counted hcounted, by rw [List.append_nil]; exact hlog⟩

theorem Counts.call (h : Counts opts base calls s) (c : Call) :
    Counts opts base (calls ++ [c]) (s.step (.call c)) where
  mem := by
    rw [run_append]
    simp only [Feed.step, h.mem, Memory.run]
  counted := by
    obtain ⟨k, hcounted, hlog⟩ := h.counted
    refine ⟨k, hcounted, ?_⟩
    rw [run_append]
    simp only [Feed.step, Memory.run, List.flatten_append, List.length_append, emit_flatten,
      List.append_nil, ← h.mem]
    omega

theorem Counts.notify (h : Counts opts base calls s) (k : Nat)
    (hwrap : base + ((newMemory opts).run calls).2.flatten.length < 2 ^ 64) :
    Counts opts base calls (s.step (.notify k)) := by
  simp only [Feed.step]
  split
  · exact h
  · rename_i events hevents
    obtain ⟨j, hcounted, hlog⟩ := h.counted
    rw [flatten_of_getElem? hevents] at hlog
    simp only [List.length_append] at hlog
    have hlen : (WatchCall.notify events).names.length = events.length := by simp [WatchCall.names]
    refine ⟨h.mem, j + events.length, ?_, ?_⟩
    · rw [← hlen]
      exact hcounted.exec (.notify events) (by rw [hlen]; omega)
    · rw [List.eraseIdx_eq_take_drop_succ, List.flatten_append, List.length_append]
      omega

theorem counts_run (opts : Options) (base : Nat) (actions : List FeedAction)
    (hwrap : base + ((newMemory opts).run (storeCalls actions)).2.flatten.length < 2 ^ 64) :
    Counts opts base (storeCalls actions) ((startAt opts base).run actions) := by
  induction actions using List.reverseRecOn with
  | nil => exact Counts.startAt opts base
  | append_singleton actions a ih =>
    rw [Feed.run, List.foldl_append]
    have hcalls : storeCalls (actions ++ [a]) = storeCalls actions ++ storeCalls [a] :=
      List.filterMap_append ..
    rw [hcalls] at hwrap ⊢
    have hbefore : base + ((newMemory opts).run (storeCalls actions)).2.flatten.length < 2 ^ 64 := by
      rw [run_append, List.flatten_append, List.length_append] at hwrap
      omega
    have hcounts := ih hbefore
    cases a with
    | call c => exact hcounts.call c
    | notify k =>
      have hnotify := hcounts.notify k hbefore
      rwa [← List.append_nil (storeCalls actions)] at hnotify
    | receive => exact hcounts.watched (c := .receive 0) rfl
    | subscribe q => exact hcounts.watched (c := .subscribe q) rfl
    | cancelOther k => exact hcounts.watched (c := .cancel (k + 1)) rfl
    | receiveOther k => exact hcounts.watched (c := .receive (k + 1)) rfl

theorem Counts.filed (h : Counts opts base calls s) : Filed s.mem := h.mem ▸ Filed.run opts calls

/-- If the call changes the answer for the name, its Notify moves the index of the name. -/
def IndexFollows (s : Feed) (c : Call) (now : Time) (name : String) : Prop :=
  (c.exec s.mem).1.namedResult now name ≠ s.mem.namedResult now name →
    s.watcher.currentIndex { name := name } <
      (s.watcher.notify (c.exec s.mem).2).currentIndex { name := name }

instance (s : Feed) (c : Call) (now : Time) (name : String) : Decidable (s.IndexFollows c now name) :=
  inferInstanceAs (Decidable (_ → _))

end Feed

/-- The index of a name follows the answer for it exactly if the call tells what it does to the name,
or the watcher has not met the name yet and the call tells anything at all. -/
theorem name_index_follows_iff (opts : Options) (base : Nat) (actions : List FeedAction) (c : Call)
    (now : Time) (name : String) (hbase : 1 ≤ base)
    (hwrap : base + ((newMemory opts).run (Feed.storeCalls actions ++ [c])).2.flatten.length < 2 ^ 64)
    :
    let s := (Feed.startAt opts base).run actions
    s.IndexFollows c now name ↔
      Call.NameTold s.mem now name c ∨ s.watcher.nameIndex[name]? = none ∧ Call.Speaks s.mem c := by
  intro s
  rw [run_append, List.flatten_append, List.length_append] at hwrap
  have hcounts : Feed.Counts opts base (Feed.storeCalls actions) s :=
    Feed.counts_run opts base actions (by omega)
  obtain ⟨k, hcounted, hlog⟩ := hcounts.counted
  have hfiled := hcounts.filed
  have hevents : (((newMemory opts).run (Feed.storeCalls actions)).1.run [c]).2.flatten =
      (c.exec s.mem).2 := by
    simp [Memory.run, hcounts.mem, emit_flatten]
  rw [hevents] at hwrap
  have hmoves := hcounted.notify_moves_iff hbase (c.exec s.mem).2 name (by omega)
  have hsame : (c.exec s.mem).1.namedResult now name = s.mem.namedResult now name ↔ _ :=
    Memory.namedResult_eq_iff hfiled (hfiled.exec c)
  have htold := Call.nameTold_iff hfiled now name c
  rw [Feed.IndexFollows, hmoves, ne_eq, hsame, ← or_iff_not_imp_left, or_left_comm,
    ← or_assoc, htold]
  by_cases h : Call.NameTold s.mem now name c
  · simp [h]
  · rw [or_iff_right h, or_iff_right h, Call.speaks_iff h]

/-! ## A service that changes its name -/

def registerAs (name : String) (port : UInt16) : Call :=
  .register (fun _ => 0) (single { id := "n" } { id := "s", name := name, port := port } 0)

def webFeed : Feed := (Feed.startAt {} 1).run [.call (registerAs "web" 80), .notify 0]

theorem name_index_follows_new_port :
    ((registerAs "web" 81).exec webFeed.mem).1.namedResult 0 "web" ≠
      webFeed.mem.namedResult 0 "web" ∧
      webFeed.IndexFollows (registerAs "web" 81) 0 "web" := by
  refine ⟨by decide, ?_⟩
  refine (name_index_follows_iff {} 1 [.call (registerAs "web" 80), .notify 0]
    (registerAs "web" 81) 0 "web"
    (by decide) (by decide)).mpr (Or.inl fun _ _ => Or.inl ?_)
  refine ⟨[], { id := "s", name := "web", port := 81 }, by decide, Or.inr rfl, fun d hd => ?_⟩
  exact ⟨_, List.mem_singleton_self _, rfl, by rw [← Option.some.inj hd]; decide⟩

/-- The service is registered again as `api`. The answer for `web` is empty from then on, and its index
stays where it was. -/
theorem renamed_service_missed :
    (webFeed.mem.namedResult 0 "web").map (·.1) = ["n"] ∧
      ((registerAs "api" 80).exec webFeed.mem).1.namedResult 0 "web" = [] ∧
      webFeed.watcher.currentIndex { name := "web" } = 2 ∧
      (webFeed.watcher.notify ((registerAs "api" 80).exec webFeed.mem).2).currentIndex
        { name := "web" } = 2 ∧
      ¬ ∀ (opts : Options) (base : Nat) (actions : List FeedAction) (c : Call) (now : Time)
        (name : String),
        1 ≤ base →
          base + ((newMemory opts).run (Feed.storeCalls actions ++ [c])).2.flatten.length < 2 ^ 64 →
          ((Feed.startAt opts base).run actions).IndexFollows c now name := by
  refine ⟨by decide, by decide, by decide, by decide, fun h => ?_⟩
  have hfollows : webFeed.IndexFollows (registerAs "api" 80) 0 "web" :=
    h {} 1 [.call (registerAs "web" 80), .notify 0] (registerAs "api" 80) 0 "web" (by decide)
      (by decide)
  exact absurd hfollows (by decide)

end YellowPages.Watch
