import YellowPages.Healthcheck.Monitor
import YellowPages.Lib.Threads

/-!
# The check loops of a monitor

`Set` takes the lock twice: to remove the old state of a service, and to install the new one. In
between it holds no lock, and starts the loop after it let go of the lock again. A loop ends when its
context is cancelled, and the cancel function is in the state of the service and nowhere else.
-/

namespace YellowPages.Healthcheck

open Lib

/-! ## The calls and the loops -/

inductive SetPhase where
  | entered
  /-- The old state is removed. -/
  | removed
  /-- The new state is installed, with the cancel function of this context. -/
  | installed (ctx : Nat)
  | returned
  deriving DecidableEq

structure SetCall where
  serviceID : String
  defs : List Definition
  phase : SetPhase := .entered

structure CheckLoop where
  serviceID : String
  ctx : Nat

/-- The monitor, its calls of `Set` and the loops they started. Contexts are numbered. -/
structure Loops where
  services : Map Nat := ∅
  cancelled : List Nat := []
  /-- The root context is cancelled, and every other one with it. -/
  stopped : Bool := false
  nextCtx : Nat := 0
  calls : Threads SetCall := ∅
  loops : List CheckLoop := []

inductive LoopAction where
  | set (id : Nat) (serviceID : String) (defs : List Definition)
  | setRemoves (id : Nat)
  | setInstalls (id : Nat)
  | setStarts (id : Nat)
  | remove (serviceID : String)
  | stopCancels
  | stopClears

namespace Loops

variable (s : Loops)

def remove (serviceID : String) : Loops :=
  match s.services[serviceID]? with
  | some ctx => { s with services := s.services.erase serviceID, cancelled := ctx :: s.cancelled }
  | none => s

def setRemoves (id : Nat) (c : SetCall) : Loops :=
  match c.phase with
  | .entered =>
    let phase := if c.defs.isEmpty then SetPhase.returned else .removed
    { s.remove c.serviceID with calls := s.calls.insert id { c with phase := phase } }
  | _ => s

def setInstalls (id : Nat) (c : SetCall) : Loops :=
  match c.phase with
  | .removed =>
    { s with
      services := s.services.insert c.serviceID s.nextCtx
      nextCtx := s.nextCtx + 1
      calls := s.calls.insert id { c with phase := .installed s.nextCtx } }
  | _ => s

def setStarts (id : Nat) (c : SetCall) : Loops :=
  match c.phase with
  | .installed ctx =>
    { s with
      loops := s.loops ++ [⟨c.serviceID, ctx⟩]
      calls := s.calls.insert id { c with phase := .returned } }
  | _ => s

/-- A step that a call is not at changes nothing. -/
def step : LoopAction → Loops
  | .set id serviceID defs =>
    if id ∈ s.calls then s
    else { s with calls := s.calls.insert id { serviceID := serviceID, defs := defs } }
  | .setRemoves id => (s.calls[id]?.map (s.setRemoves id)).getD s
  | .setInstalls id => (s.calls[id]?.map (s.setInstalls id)).getD s
  | .setStarts id => (s.calls[id]?.map (s.setStarts id)).getD s
  | .remove serviceID => s.remove serviceID
  | .stopCancels => { s with stopped := true }
  | .stopClears => if s.stopped then { s with services := ∅ } else s

def run (actions : List LoopAction) : Loops := actions.foldl step s

/-- The loops of a service whose context is not cancelled. -/
def live (serviceID : String) : List CheckLoop :=
  s.loops.filter fun l => l.serviceID = serviceID ∧ s.stopped = false ∧ l.ctx ∉ s.cancelled

/-- No `Set` of the service is on its way. -/
def Idle (serviceID : String) : Prop :=
  Each (fun c => c.serviceID = serviceID → c.phase = .returned) s.calls

end Loops

/-- When a `Set` comes to install its state, the one it removed has no successor yet. -/
def Unoccupied (s : Loops) : LoopAction → Prop
  | .setInstalls id => ∀ c ∈ s.calls[id]?, c.phase = .removed → c.serviceID ∉ s.services
  | _ => True

instance (s : Loops) : ∀ a, Decidable (Unoccupied s a)
  | .setInstalls _ => inferInstanceAs (Decidable (∀ c ∈ _, _ → _))
  | .set .. | .setRemoves _ | .setStarts _ | .remove _ | .stopCancels | .stopClears =>
    inferInstanceAs (Decidable True)

/-! ## Who holds a cancel function -/

/-- The context is cancelled, or its cancel function can be reached. -/
def Loops.Reaches (s : Loops) (serviceID : String) (ctx : Nat) : Prop :=
  s.stopped = false → ctx ∉ s.cancelled → s.services[serviceID]? = some ctx

theorem Loops.Reaches.remove {s : Loops} {serviceID : String} {ctx : Nat} (h : s.Reaches serviceID ctx)
    (removed : String) : (s.remove removed).Reaches serviceID ctx := by
  unfold Loops.remove
  cases hservice : s.services[removed]? with
  | none => exact h
  | some ctx' =>
    intro hstopped hcancelled
    rw [List.mem_cons, not_or] at hcancelled
    have hheld := h hstopped hcancelled.2
    have hne : removed ≠ serviceID := by
      rintro rfl
      exact hcancelled.1 (Option.some.inj (hheld.symm.trans hservice))
    rw [Std.ExtTreeMap.getElem?_erase, if_neg (by rwa [Std.compare_eq_iff_eq])]
    exact hheld

def SetCall.ctx? (c : SetCall) : Option Nat :=
  match c.phase with
  | .installed ctx => some ctx
  | _ => none

structure Owned (s : Loops) : Prop where
  loops : ∀ l ∈ s.loops, l.ctx < s.nextCtx ∧ s.Reaches l.serviceID l.ctx
  calls : Each (fun c => ∀ ctx, c.ctx? = some ctx → ctx < s.nextCtx ∧ s.Reaches c.serviceID ctx ∧
    ∀ l ∈ s.loops, l.ctx ≠ ctx) s.calls
  distinct : (s.loops.map CheckLoop.ctx).Nodup
  solo : Solo SetCall.ctx? s.calls

namespace Owned

variable {s s' : Loops}

theorem new : Owned {} where
  loops _ hl := (List.not_mem_nil hl).elim
  calls := Each.empty _
  distinct := List.nodup_nil
  solo := Solo.empty _

/-- No context is made, and what can be reached stays so. -/
theorem quiet (h : Owned s) (hloops : s'.loops = s.loops) (hnext : s'.nextCtx = s.nextCtx)
    (hcalls : s'.calls = s.calls)
    (hreaches : ∀ serviceID ctx, s.Reaches serviceID ctx → s'.Reaches serviceID ctx) :
    Owned s' where
  loops l hl := by
    rw [hloops] at hl
    rw [hnext]
    exact ⟨(h.loops l hl).1, hreaches _ _ (h.loops l hl).2⟩
  calls := by
    rw [hloops, hnext, hcalls]
    refine h.calls.mono fun c hc ctx hctx => ?_
    obtain ⟨hlt, hreach, hother⟩ := hc ctx hctx
    exact ⟨hlt, hreaches _ _ hreach, hother⟩
  distinct := hloops ▸ h.distinct
  solo := hcalls ▸ h.solo

/-- A call moves to a point where it has no context. -/
theorem move (h : Owned s) (id : Nat) {c : SetCall} (hc : c.ctx? = none) :
    Owned { s with calls := s.calls.insert id c } where
  loops := h.loops
  calls := by
    refine h.calls.insert id (fun ctx hctx => ?_) fun _ _ _ _ hu => hu
    rw [hc] at hctx
    cases hctx
  distinct := h.distinct
  solo := by
    refine h.solo.insert id fun ctx hctx => ?_
    rw [hc] at hctx
    cases hctx

theorem remove (h : Owned s) (serviceID : String) : Owned (s.remove serviceID) := by
  refine h.quiet ?_ ?_ ?_ fun _ _ hreach => hreach.remove serviceID <;>
    (unfold Loops.remove; split <;> rfl)

theorem setRemoves (h : Owned s) (id : Nat) (c : SetCall) : Owned (s.setRemoves id c) := by
  unfold Loops.setRemoves
  split
  · have hcalls : (s.remove c.serviceID).calls = s.calls := by
      unfold Loops.remove
      split <;> rfl
    rw [← hcalls]
    refine (h.remove c.serviceID).move id ?_
    unfold SetCall.ctx?
    split <;> rename_i hphase
    · split at hphase <;> cases hphase
    · rfl
  · exact h

theorem setInstalls (h : Owned s) (id : Nat) {c : SetCall}
    (hfree : c.phase = .removed → c.serviceID ∉ s.services) :
    Owned (s.setInstalls id c) := by
  unfold Loops.setInstalls
  split
  · rename_i hphase
    -- Nothing is under the id of the service, so no cancel function is lost.
    have hreaches : ∀ serviceID ctx, s.Reaches serviceID ctx → s.stopped = false →
        ctx ∉ s.cancelled →
        (s.services.insert c.serviceID s.nextCtx)[serviceID]? = some ctx := by
      intro serviceID ctx hreach hstopped hcancelled
      have hheld := hreach hstopped hcancelled
      have hne : c.serviceID ≠ serviceID := by
        rintro heq
        refine hfree hphase (Std.ExtTreeMap.mem_iff_isSome_getElem?.mpr ?_)
        rw [heq, hheld]
        rfl
      rw [Std.ExtTreeMap.getElem?_insert, if_neg (by rwa [Std.compare_eq_iff_eq])]
      exact hheld
    refine ⟨fun l hl => ?_, ?_, h.distinct, ?_⟩
    · obtain ⟨hlt, hreach⟩ := h.loops l hl
      exact ⟨Nat.lt_succ_of_lt hlt, hreaches _ _ hreach⟩
    · refine h.calls.insert id (fun ctx hctx => ?_) fun other u _ _ hu ctx hctx => ?_
      · obtain rfl := Option.some.inj hctx
        refine ⟨Nat.lt_succ_self _, fun _ _ => by simp, fun l hl => ?_⟩
        exact Nat.ne_of_lt (h.loops l hl).1
      · obtain ⟨hlt, hreach, hother⟩ := hu ctx hctx
        exact ⟨Nat.lt_succ_of_lt hlt, hreaches _ _ hreach, hother⟩
    · refine h.solo.insert id fun ctx hctx other u _ hu hctx' => ?_
      obtain rfl := Option.some.inj hctx
      exact Nat.lt_irrefl _ (h.calls other u hu _ hctx').1
  · exact h

theorem setStarts (h : Owned s) {id : Nat} {c : SetCall} (hc : s.calls[id]? = some c) :
    Owned (s.setStarts id c) := by
  unfold Loops.setStarts
  split
  · rename_i ctx hphase
    have hctx : c.ctx? = some ctx := by rw [SetCall.ctx?, hphase]
    obtain ⟨hlt, hreach, hother⟩ := h.calls id c hc ctx hctx
    refine ⟨fun l hl => ?_, ?_, ?_, h.solo.move hc (Or.inl rfl)⟩
    · rcases List.mem_append.mp hl with hl | hl
      · exact h.loops l hl
      · rw [List.mem_singleton.mp hl]
        exact ⟨hlt, hreach⟩
    · refine h.calls.insert id (fun ctx' hctx' => by cases hctx') fun other u hne hu hkept ctx'
        hctx' => ?_
      obtain ⟨hlt', hreach', hother'⟩ := hkept ctx' hctx'
      refine ⟨hlt', hreach', fun l hl => ?_⟩
      rcases List.mem_append.mp hl with hl | hl
      · exact hother' l hl
      · rw [List.mem_singleton.mp hl]
        rintro rfl
        exact hne (h.solo other id u c _ hu hc hctx' hctx)
    · rw [List.map_append, List.map_singleton]
      refine List.nodup_append.mpr ⟨h.distinct, List.nodup_singleton _, fun a ha b hb => ?_⟩
      obtain ⟨l, hl, rfl⟩ := List.mem_map.mp ha
      rw [List.mem_singleton.mp hb]
      exact hother l hl
  · exact h

theorem step (h : Owned s) {a : LoopAction} (ha : Unoccupied s a) : Owned (s.step a) := by
  cases a with
  | set id serviceID defs =>
    dsimp only [Loops.step]
    split
    · exact h
    · exact h.move id rfl
  | setRemoves id =>
    dsimp only [Loops.step]
    cases hc : s.calls[id]? with
    | none => exact h
    | some c => exact h.setRemoves id c
  | setInstalls id =>
    dsimp only [Loops.step]
    cases hc : s.calls[id]? with
    | none => exact h
    | some c => exact h.setInstalls id (ha c hc)
  | setStarts id =>
    dsimp only [Loops.step]
    cases hc : s.calls[id]? with
    | none => exact h
    | some c => exact h.setStarts hc
  | remove serviceID => exact h.remove serviceID
  | stopCancels => exact h.quiet rfl rfl rfl fun _ _ _ hstopped => by cases hstopped
  | stopClears =>
    dsimp only [Loops.step]
    split
    · rename_i hstopped
      exact h.quiet rfl rfl rfl fun _ _ _ hnot => by cases hstopped.symm.trans hnot
    · exact h

/-! ## Live loops -/

theorem live_reached (h : Owned s) {serviceID : String} {l : CheckLoop} (hl : l ∈ s.live serviceID) :
    s.services[serviceID]? = some l.ctx := by
  obtain ⟨hmem, hlive⟩ := List.mem_filter.mp hl
  obtain ⟨rfl, hstopped, hcancelled⟩ := of_decide_eq_true hlive
  exact (h.loops l hmem).2 hstopped hcancelled

theorem live_none (h : Owned s) {serviceID : String} (hnone : serviceID ∉ s.services) :
    s.live serviceID = [] := by
  refine List.eq_nil_iff_forall_not_mem.mpr fun l hl => hnone ?_
  rw [Std.ExtTreeMap.mem_iff_isSome_getElem?, h.live_reached hl]
  rfl

/-- All live loops of the service have the context in the map, and no two loops have the same one. -/
theorem live_length (h : Owned s) (serviceID : String) : (s.live serviceID).length ≤ 1 := by
  cases hlive : s.live serviceID with
  | nil => exact Nat.zero_le 1
  | cons l rest =>
    have hsame : ∀ ctx ∈ (s.live serviceID).map CheckLoop.ctx, ctx = l.ctx := by
      intro ctx hctx
      obtain ⟨l', hl', rfl⟩ := List.mem_map.mp hctx
      have hl : l ∈ s.live serviceID := by simp [hlive]
      exact Option.some.inj ((h.live_reached hl').symm.trans (h.live_reached hl))
    have hnodup : ((s.live serviceID).map CheckLoop.ctx).Nodup :=
      List.Nodup.sublist (List.filter_sublist.map CheckLoop.ctx) h.distinct
    rw [List.eq_replicate_of_mem hsame, List.nodup_replicate, List.length_map] at hnodup
    rwa [← hlive]

end Owned

theorem mem_remove (s : Loops) (serviceID id : String) :
    id ∈ (s.remove serviceID).services ↔ serviceID ≠ id ∧ id ∈ s.services := by
  unfold Loops.remove
  cases hservice : s.services[serviceID]? with
  | some ctx => rw [Std.ExtTreeMap.mem_erase, ne_eq, Std.compare_eq_iff_eq]
  | none =>
    rw [iff_and_self]
    rintro hmem rfl
    rw [Std.ExtTreeMap.mem_iff_isSome_getElem?, hservice] at hmem
    cases hmem

/-- As long as no `Set` installs over the state of another one, a service has at most one live loop, and
none when it is not in the map: after a `Remove` until the next `Set`. -/
theorem one_loop_per_service (actions : List LoopAction)
    (hrun : Throughout Loops.step Unoccupied {} actions) (serviceID : String) :
    let s := Loops.run {} actions
    (s.live serviceID).length ≤ 1 ∧ (s.step (.remove serviceID)).live serviceID = [] ∧
      (serviceID ∉ s.services → s.live serviceID = []) := by
  intro s
  have howned : Owned s := hrun.keeps Owned Owned.new fun s a ha h => h.step ha
  exact ⟨howned.live_length serviceID, (howned.remove serviceID).live_none
    (fun hmem => ((mem_remove s serviceID serviceID).mp hmem).1 rfl), howned.live_none⟩

/-- A registration of a service, from start to end. -/
def wholeSet (id : Nat) (serviceID : String) (defs : List Definition) : List LoopAction :=
  [.set id serviceID defs, .setRemoves id, .setInstalls id, .setStarts id]

theorem one_loop_after_replacement :
    (((Loops.run {}
      (wholeSet 0 "web" [{ kind := .http }] ++ wholeSet 1 "web" [{ kind := .tcp }])).live "web").length
        ≤ 1) :=
  (one_loop_per_service (wholeSet 0 "web" [{ kind := .http }] ++ wholeSet 1 "web" [{ kind := .tcp }])
    (by decide) "web").1

/-- Two registrations of one service at the same time: the cancel function of the first is overwritten,
and its loop goes on after the service is removed. -/
theorem overlapping_sets_leak :
    ¬ ∀ (actions : List LoopAction) (serviceID : String),
      let s := Loops.run {} actions
      (s.live serviceID).length ≤ 1 ∧
        (s.Idle serviceID → (s.step (.remove serviceID)).live serviceID = []) := by
  intro h
  have hweb :=
    (h [.set 0 "web" [{ kind := .http }], .set 1 "web" [{ kind := .http }], .setRemoves 0,
      .setRemoves 1,
    .setInstalls 0, .setInstalls 1, .setStarts 0, .setStarts 1] "web").1
  revert hweb
  decide

/-! ## Alone -/

theorem step_of_call {s : Loops} {id : Nat} {c : SetCall} (hc : s.calls[id]? = some c) :
    s.step (.setRemoves id) = s.setRemoves id c ∧ s.step (.setInstalls id) = s.setInstalls id c ∧
      s.step (.setStarts id) = s.setStarts id c := by
  simp [Loops.step, hc]

/-- A `Set` that no other call interrupts does to the map what `Monitor.set` does. -/
theorem wholeSet_active {s : Loops} {m : Monitor}
    (hagree : ∀ id, id ∈ s.services ↔ m.active id = true) {id : Nat} (hid : id ∉ s.calls)
    (now : Time) (serviceID : String) (defs : List Definition) (id' : String) :
    id' ∈ (s.run (wholeSet id serviceID defs)).services ↔
      (m.set now serviceID defs).active id' = true := by
  let s1 : Loops := { s with calls := s.calls.insert id ⟨serviceID, defs, .entered⟩ }
  have hentered : s.step (.set id serviceID defs) = s1 := if_neg hid
  have hremoves : s1.step (.setRemoves id) = s1.setRemoves id ⟨serviceID, defs, .entered⟩ :=
    (step_of_call Std.ExtTreeMap.getElem?_insert_self).1
  rw [wholeSet, Loops.run, List.foldl_cons, hentered, List.foldl_cons, hremoves, active_set]
  cases defs with
  | nil =>
    let s2 : Loops :=
      { s1.remove serviceID with calls := s1.calls.insert id ⟨serviceID, [], .returned⟩ }
    have hcall : s2.calls[id]? = some ⟨serviceID, [], .returned⟩ :=
      Std.ExtTreeMap.getElem?_insert_self
    obtain ⟨-, hinstalls, hstarts⟩ := step_of_call hcall
    have hrun : List.foldl Loops.step s2 [.setInstalls id, .setStarts id] = s2 := by
      rw [List.foldl_cons, hinstalls, List.foldl_cons]
      exact hstarts
    have hservices : id' ∈ s2.services ↔ serviceID ≠ id' ∧ id' ∈ s1.services :=
      mem_remove s1 serviceID id'
    rw [show s1.setRemoves id ⟨serviceID, [], .entered⟩ = s2 from rfl, hrun, hservices, hagree]
    by_cases heq : serviceID = id' <;> simp [heq]
  | cons first rest =>
    let s2 : Loops :=
      { s1.remove serviceID with calls := s1.calls.insert id ⟨serviceID, first :: rest, .removed⟩ }
    let s3 : Loops := s2.setInstalls id ⟨serviceID, first :: rest, .removed⟩
    have hinstalls : s2.step (.setInstalls id) = s3 :=
      (step_of_call Std.ExtTreeMap.getElem?_insert_self).2.1
    have hstarts :
        s3.step (.setStarts id) =
          s3.setStarts id ⟨serviceID, first :: rest, .installed s2.nextCtx⟩ :=
      (step_of_call Std.ExtTreeMap.getElem?_insert_self).2.2
    have hservices :
        id' ∈ (s3.setStarts id ⟨serviceID, first :: rest, .installed s2.nextCtx⟩).services ↔
        serviceID = id' ∨ serviceID ≠ id' ∧ id' ∈ s1.services := by
      rw [← mem_remove s1 serviceID id', ← Std.compare_eq_iff_eq (a := serviceID)]
      exact Std.ExtTreeMap.mem_insert
    rw [show s1.setRemoves id ⟨serviceID, first :: rest, .entered⟩ = s2 from rfl, List.foldl_cons,
      hinstalls,
      List.foldl_cons, hstarts, List.foldl_nil, hservices, hagree]
    by_cases heq : serviceID = id' <;> simp [heq]

end YellowPages.Healthcheck
