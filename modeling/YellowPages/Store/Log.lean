import YellowPages.Lib.Stamped
import YellowPages.Store.Atomic
import YellowPages.Watch.Index

/-!
# The event log

The registry counts its events. Seen through its indices it is a store of keys stamped by that
counter, so the log has no gap and no two services share an index.
-/

namespace YellowPages.Store

open Lib Watch

/-! ## The registry as a stamped store -/

def ServiceRec.stamps (svc : ServiceRec) : Nat × Nat := (svc.createIndex, svc.modifyIndex)

def Memory.stamped (m : Memory) : Stamped (String × String) :=
  ⟨m.index, fun k => (m.service? k.1 k.2).map ServiceRec.stamps⟩

section Simulation

variable {grow : Bool} {m m' : Memory} {n s : String}

theorem stamps_service? {svc : ServiceRec} (h : m.service? n s = some svc) :
    m.stamped.stamps (n, s) = some svc.stamps := by
  simp [Memory.stamped, h]

theorem stamped_silent (hindex : m'.index = m.index)
    (h : ∀ n s, (m'.service? n s).map ServiceRec.stamps = (m.service? n s).map ServiceRec.stamps) :
    Stamped.Change grow m.stamped [] m'.stamped := by
  have hsame : m'.stamped = m.stamped := by
    simp only [Memory.stamped, hindex, Stamped.mk.injEq, true_and]
    funext k
    exact h k.1 k.2
  rw [hsame]
  exact Stamped.Change.silent _

theorem stamped_put (v : Option ServiceRec) (hindex : m'.index = m.index + 1)
    (h : ∀ n' s', m'.service? n' s' = if n = n' ∧ s = s' then v else m.service? n' s') :
    m'.stamped = m.stamped.put (n, s) (v.map ServiceRec.stamps) := by
  simp only [Memory.stamped, Stamped.put, hindex, Stamped.mk.injEq, true_and]
  funext k
  rw [h, Function.update_apply, apply_ite (Option.map ServiceRec.stamps)]
  simp only [Prod.ext_iff, eq_comm]

/-- Without a wrap an atomic change is a change of the stamped store. -/
theorem Atomic.stamped {out : List ChangeEvent} (h : Atomic grow n m out m')
    (hwrap : m.index + out.length < 2 ^ 64) :
    Stamped.Change grow m.stamped (out.map ChangeEvent.index) m'.stamped := by
  have hnext : out ≠ [] → m.next = m.index + 1 := by
    intro hne
    have := List.length_pos_of_ne_nil hne
    exact u64Succ_of_lt m.index (by omega)
  cases h with
  | setMeta _ => exact stamped_silent rfl fun n s => by rw [Memory.service?_setMeta]
  | @create _ _ r dfn now hnode hnew _ =>
    replace hnext := hnext (by simp)
    rw [← Memory.service?_of_node hnode] at hnew
    rw [stamped_put _ hnext (Memory.service?_createService hnode dfn)]
    have hchange := Stamped.Change.create (s := m.stamped) (n, dfn.id) (by simp [Memory.stamped, hnew])
    simpa [ServiceRec.stamps, Memory.createService, putEvent, entry, Memory.stamped, hnext]
      using hchange
  | @rewrite _ _ _ s r old svc now hnode hold _ hcreate =>
    replace hnext := hnext (by simp)
    rw [← Memory.service?_of_node hnode] at hold
    rw [stamped_put _ (by simpa [Memory.rewriteService] using hnext)
      (Memory.service?_rewriteService hnode s old svc)]
    have hchange : Stamped.Change grow _ _ _ :=
      Stamped.Change.rewrite (s := m.stamped) (n, s) (stamps_service? hold)
    simpa [ServiceRec.stamps, Memory.rewriteService, putEvent, entry, Memory.stamped, hnext, hcreate]
      using hchange
  | refresh hnode hf =>
    refine stamped_silent rfl (Memory.service?_refresh_map hnode ServiceRec.stamps fun s svc => ?_)
    obtain ⟨t, b, hfs⟩ := hf s svc
    rw [hfs]
    rfl
  | @remove _ _ s r old hnode hold =>
    replace hnext := hnext (by simp)
    rw [stamped_put none (by simpa [Memory.removeService] using hnext)
      (Memory.service?_removeService n s old)]
    have hchange := Stamped.Change.remove (s := m.stamped) (n, s)
    simpa [deleteEvent, entry, Memory.stamped, hnext] using hchange
  | drop hnode hempty =>
    exact stamped_silent rfl fun n' s' => by rw [Memory.service?_erase_empty hnode hempty]

end Simulation

/-- Runs of atomic changes are runs of the stamped store. -/
theorem steps_stamped {R : Memory → List ChangeEvent → Memory → Prop}
    {S : Stamped (String × String) → List Nat → Stamped (String × String) → Prop}
    (hsim : ∀ m out m', R m out m' → m.index + out.length < 2 ^ 64 →
      S m.stamped (out.map ChangeEvent.index) m'.stamped ∧ m'.index = m.index + out.length)
    {m m' : Memory} {log : List ChangeEvent} (h : Steps R m log m')
    (hwrap : m.index + log.length < 2 ^ 64) :
    Steps S m.stamped (log.map ChangeEvent.index) m'.stamped ∧ m'.index = m.index + log.length := by
  induction h with
  | refl => exact ⟨Steps.refl _, rfl⟩
  | @tail t u log out _ hr ih =>
    rw [List.length_append] at hwrap
    obtain ⟨hsteps, hindex⟩ := ih (by omega)
    obtain ⟨hstep, hindex'⟩ := hsim t out u hr (by omega)
    refine ⟨?_, by rw [hindex', hindex, List.length_append]; omega⟩
    rw [List.map_append]
    exact Steps.tail hsteps hstep

theorem Somewhere.simulates {grow : Bool} (m : Memory) (out : List ChangeEvent) (m' : Memory)
    (h : Somewhere grow m out m') (hwrap : m.index + out.length < 2 ^ 64) :
    Stamped.Change grow m.stamped (out.map ChangeEvent.index) m'.stamped ∧
      m'.index = m.index + out.length := by
  obtain ⟨n, h⟩ := h
  have hchange := h.stamped hwrap
  exact ⟨hchange, by simpa [Memory.stamped] using hchange.counter⟩

theorem run_stamped (m : Memory) (calls : List Call)
    (hwrap : m.index + (m.run calls).2.flatten.length < 2 ^ 64) :
    Steps Stamped.AnyChange m.stamped ((m.run calls).2.flatten.map ChangeEvent.index)
      (m.run calls).1.stamped ∧
      (m.run calls).1.index = m.index + (m.run calls).2.flatten.length := by
  refine steps_stamped ?_ (run_steps calls m) hwrap
  rintro m out m' ⟨grow, h⟩ hlt
  obtain ⟨hchange, hindex⟩ := h.simulates m out m' hlt
  exact ⟨⟨grow, hchange⟩, hindex⟩

@[simp] theorem index_newMemory (opts : Options) : (newMemory opts).index = opts.startIndex := by
  simp only [newMemory]
  split <;> rfl

theorem stamped_newMemory (opts : Options) :
    (newMemory opts).stamped = Stamped.init opts.startIndex := by
  simp only [Memory.stamped, Stamped.init, index_newMemory]
  simp [newMemory, Memory.service?]

/-! ## Services that stay -/

/-- A call does not restamp a service that is there before and after it. -/
theorem exec_createIndex (c : Call) (m : Memory) (hwrap : m.index + (c.exec m).2.length < 2 ^ 64)
    {n s : String} {svc svc' : ServiceRec} (h : m.service? n s = some svc)
    (h' : (c.exec m).1.service? n s = some svc') : svc'.createIndex = svc.createIndex := by
  have hsteps := (steps_stamped Somewhere.simulates (exec_steps c m) hwrap).1
  refine Stamped.steps_created hsteps (n, s) _ _ ?_ ?_
  · rw [Stamped.created, stamps_service? h]; rfl
  · rw [Stamped.created, stamps_service? h']; rfl

def Memory.after (m : Memory) (calls : List Call) (k : Nat) : Memory := (m.run (calls.take k)).1

theorem after_succ (m : Memory) (calls : List Call) (k : Nat) (h : k < calls.length) :
    m.after calls (k + 1) = (calls[k].exec (m.after calls k)).1 := by
  simp only [Memory.after]
  rw [List.take_add_one, List.getElem?_eq_getElem h, Option.toList_some, run_append]
  rfl

theorem log_take_length (m : Memory) (calls : List Call) (k : Nat) (h : k < calls.length) :
    (m.run (calls.take k)).2.flatten.length + (calls[k].exec (m.after calls k)).2.length ≤
      (m.run calls).2.flatten.length := by
  have hsplit : calls = calls.take k ++ ([calls[k]] ++ calls.drop (k + 1)) := by simp
  conv_rhs => rw [hsplit, run_append, run_append]
  simp only [List.flatten_append, List.length_append, Memory.run, emit_flatten, Memory.after,
    List.flatten_nil, List.length_nil]
  omega

theorem after_createIndex (m : Memory) (calls : List Call)
    (hwrap : m.index + (m.run calls).2.flatten.length < 2 ^ 64)
    (n s : String) (i j : Nat) (hij : i ≤ j) (hj : j ≤ calls.length)
    (hstays : ∀ k, i ≤ k → k ≤ j → (m.after calls k).service? n s ≠ none)
    (svc svc' : ServiceRec) (h : (m.after calls i).service? n s = some svc)
    (h' : (m.after calls j).service? n s = some svc') : svc'.createIndex = svc.createIndex := by
  induction j, hij using Nat.le_induction generalizing svc' with
  | base => rw [h] at h'; rw [Option.some.inj h']
  | succ j hij ih =>
    obtain ⟨mid, hmid⟩ := Option.ne_none_iff_exists'.mp (hstays j hij (by omega))
    have hlen := log_take_length m calls j hj
    have hindex : (m.after calls j).index = m.index + (m.run (calls.take j)).2.flatten.length :=
      (run_stamped m (calls.take j) (by omega)).2
    rw [after_succ m calls j hj] at h'
    have hsame := exec_createIndex calls[j] (m.after calls j) (by omega) hmid h'
    rw [hsame]
    exact ih (by omega) (fun k hk hk' => hstays k hk (by omega)) mid hmid

/-! ## The log of a run -/

/-- The counter is dense over the log, and every stored index is one of its values. A service
keeps its creation index while it stays. A watcher fed the batches counts the same. -/
theorem event_log_gap_free (opts : Options) (calls : List Call)
    (hwrap : opts.startIndex + ((newMemory opts).run calls).2.flatten.length < 2 ^ 64) :
    let m := ((newMemory opts).run calls).1
    let batches := ((newMemory opts).run calls).2
    let log := batches.flatten
    log.map ChangeEvent.index = List.range' (opts.startIndex + 1) log.length ∧
      m.index = opts.startIndex + log.length ∧
      (∀ ev, log.getLast? = some ev → ev.index = m.index) ∧
      (∀ n s svc, m.service? n s = some svc →
        opts.startIndex < svc.createIndex ∧ svc.createIndex ≤ svc.modifyIndex ∧
          svc.modifyIndex ≤ m.index) ∧
      (∀ n s svc n' s' svc', m.service? n s = some svc → m.service? n' s' = some svc' →
        svc.createIndex = svc'.createIndex ∨ svc.modifyIndex = svc'.modifyIndex → n = n' ∧ s = s') ∧
      (∀ n s i j, i ≤ j → j ≤ calls.length →
        (∀ k, i ≤ k → k ≤ j → ((newMemory opts).after calls k).service? n s ≠ none) →
        ∀ svc svc', ((newMemory opts).after calls i).service? n s = some svc →
          ((newMemory opts).after calls j).service? n s = some svc' →
          svc'.createIndex = svc.createIndex) ∧
      (batches.foldl Watcher.notify (newWatcher opts.startIndex)).index = m.index := by
  intro m batches log
  rw [← index_newMemory] at hwrap
  obtain ⟨hsteps, hcount⟩ := run_stamped (newMemory opts) calls hwrap
  rw [stamped_newMemory] at hsteps
  have hindex : m.index = opts.startIndex + log.length := by rw [← index_newMemory opts]; exact hcount
  have hlog : log.map ChangeEvent.index = List.range' (opts.startIndex + 1) log.length := by
    simpa only [List.length_map] using (Stamped.steps_log hsteps).1
  have hsound := Stamped.steps_sound hsteps
  refine ⟨hlog, hindex, ?_, ?_, ?_, ?_, ?_⟩
  · intro ev hev
    have hlast : (log.map ChangeEvent.index).getLast? = some ev.index := by
      rw [List.getLast?_map, hev]; rfl
    have hpos : 0 < log.length := List.length_pos_of_ne_nil (by rintro hnil; simp [hnil] at hev)
    rw [hlog, List.getLast?_range'] at hlast
    simp only [Nat.pos_iff_ne_zero.mp hpos, if_false, Option.some.injEq] at hlast
    omega
  · intro n s svc h
    exact hsound.bounds (n, s) _ _ (stamps_service? h)
  · intro n s svc n' s' svc' h h' hsame
    refine Prod.mk.inj ?_
    rcases hsame with hc | hm
    · exact hsound.create_inj _ _ _ _ svc'.modifyIndex (stamps_service? h)
        (by rw [hc]; exact stamps_service? h')
    · exact hsound.change_inj _ _ _ svc'.createIndex _ (stamps_service? h)
        (by rw [hm]; exact stamps_service? h')
  · intro n s i j hij hj hstays svc svc' h h'
    exact after_createIndex (newMemory opts) calls hwrap n s i j hij hj hstays svc svc' h h'
  · rw [index_newMemory] at hwrap
    rw [Watcher.index_notify_batches opts.startIndex batches hwrap, hindex]

/-- A registration of two services from index 5: the events take 6 and 7. -/
theorem event_log_of_registration :
    let services : List ServiceInstance := [{ id := "", name := "web" }, { id := "", name := "db" }]
    let calls := [Call.register (fun _ => 0) { node := { id := "n" }, services := services }]
    ((newMemory { startIndex := 5 }).run calls).2.flatten.map ChangeEvent.index = [6, 7] := by
  intro services calls
  rw [(event_log_gap_free { startIndex := 5 } calls (by decide)).1]
  decide

end YellowPages.Store
