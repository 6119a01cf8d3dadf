import YellowPages.Store.Register
import YellowPages.Lib.Replay

/-!
# The event stream against the registry

A follower sets an entry on PUT and removes it on DELETE. After every run it holds the services of
the registry, up to their leases.
-/

namespace YellowPages.Store

open Lib

/-! ## The follower -/

def eventKey (ev : ChangeEvent) : String × String := (ev.entry.node.id, ev.entry.service.id)

def applyEvent (ev : ChangeEvent) (held : Option ServiceEntry) : Option ServiceEntry :=
  match ev.type with
  | .put => some ev.entry
  | .delete => none
  | .unspecified => held

def follow (log : List ChangeEvent) : String × String → Option ServiceEntry :=
  replay eventKey applyEvent log

theorem follow_snoc (log : List ChangeEvent) (ev : ChangeEvent) (k : String × String) :
    follow (log ++ [ev]) k = if k = eventKey ev then applyEvent ev
      (follow log k) else follow log k := by
  unfold follow
  rw [replay_append_singleton, Function.update_apply]
  split <;> rename_i hk
  · rw [hk]
  · rfl

/-- Seen through `f` the follower holds what the registry holds seen through `g`. -/
def Mirrors {β : Type} (f : ServiceEntry → β) (g : ServiceRec → β) (log : List ChangeEvent)
    (m : Memory) : Prop :=
  ∀ n s, (follow log (n, s)).map f = (m.service? n s).map g

namespace Mirrors

variable {β : Type} {f : ServiceEntry → β} {g : ServiceRec → β} {log : List ChangeEvent}
  {m m' : Memory} {n s : String}

theorem start (f : ServiceEntry → β) (g : ServiceRec → β) (opts : Options) :
    Mirrors f g [] (newMemory opts) := by
  intro n s
  simp [follow, replay, newMemory, Memory.service?]

theorem silent (h : Mirrors f g log m)
    (hsame : ∀ n s, (m'.service? n s).map g = (m.service? n s).map g) :
    Mirrors f g (log ++ []) m' := by
  intro n s
  rw [List.append_nil, h, hsame]

theorem announce (h : Mirrors f g log m) (v : Option ServiceRec) {ev : ChangeEvent}
    (hput : ∀ n' s', m'.service? n' s' = if n = n' ∧ s = s' then v else m.service? n' s')
    (hkey : eventKey ev = (n, s)) (hev : ∀ held, (applyEvent ev held).map f = v.map g) :
    Mirrors f g (log ++ [ev]) m' := by
  intro n' s'
  rw [follow_snoc, hkey, hput]
  by_cases hk : n = n' ∧ s = s'
  · obtain ⟨rfl, rfl⟩ := hk
    rw [if_pos rfl, if_pos ⟨rfl, rfl⟩]
    exact hev _
  · have hk' : ¬ (n', s') = (n, s) := by
      intro heq
      obtain ⟨rfl, rfl⟩ := Prod.mk.inj heq
      exact hk ⟨rfl, rfl⟩
    rw [if_neg hk, if_neg hk']
    exact h n' s'

theorem isSome_iff (h : Mirrors f g log m) (n s : String) :
    (follow log (n, s)).isSome ↔ (m.service? n s).isSome := by
  have hmap := congrArg Option.isSome (h n s)
  rw [Option.isSome_map, Option.isSome_map] at hmap
  rw [hmap]

theorem apply (h : Mirrors f g log m) {e : ServiceEntry} {svc : ServiceRec}
    (he : follow log (n, s) = some e) (hsvc : m.service? n s = some svc) : f e = g svc := by
  have hmap := h n s
  rw [he, hsvc] at hmap
  exact Option.some.inj hmap

end Mirrors

/-! ## What an atomic change announces -/

theorem Filed.eventKey_eq {m : Memory} (h : Filed m) {n s : String} {r : NodeRec} {ev : ChangeEvent}
    (hnode : m.nodes[n]? = some r) (hmeta : ev.entry.node = r.nodeMeta)
    (hs : ev.entry.service.id = s) : eventKey ev = (n, s) := by
  have hid := h.node_id n r.nodeMeta (Memory.node?_of_node hnode)
  rw [eventKey, hmeta, hid, hs]

/-- A stored service up to what a refresh may change. -/
def ServiceRec.unleased (svc : ServiceRec) : ServiceRec :=
  { svc with defn := { svc.defn with lastSeen := zeroTime }, failed := false }

/-- A step without an event only refreshes. The others write the key of their event. -/
theorem Atomic.announces {grow : Bool} {n : String} {m m' : Memory} {out : List ChangeEvent}
    (h : Atomic grow n m out m') (hfiled : Filed m) :
    (out = [] ∧ ∀ n s, (m'.service? n s).map ServiceRec.unleased =
      (m.service? n s).map ServiceRec.unleased) ∨
    ∃ s v ev, out = [ev] ∧ eventKey ev = (n, s) ∧
      (∀ n' s', m'.service? n' s' = if n = n' ∧ s = s' then v else m.service? n' s') ∧
      (v = none ∧ ev.type = .delete ∨
        ∃ svc node now, v = some svc ∧ svc.modifyIndex = m.next ∧
          ev = putEvent m.opts now node svc) := by
  have hid : ∀ {s : String} {r : NodeRec} {svc}, m.nodes[n]? = some r → r.services[s]? = some svc →
      svc.defn.id = s := by
    intro s r svc hnode hold
    exact hfiled.service_id n s svc (Memory.service?_eq_some.mpr ⟨r, hnode, hold⟩)
  cases h with
  | setMeta _ => exact Or.inl ⟨rfl, fun n s => by rw [Memory.service?_setMeta]⟩
  | @create _ _ r dfn now hnode hnew _ =>
    exact Or.inr ⟨dfn.id, _, _, rfl, hfiled.eventKey_eq hnode rfl rfl,
      Memory.service?_createService hnode dfn, Or.inr ⟨_, _, _, rfl, rfl, rfl⟩⟩
  | @rewrite _ _ _ s r old svc now hnode hold hdefn _ =>
    have hs : svc.defn.id = s := by
      rcases hdefn with hdefn | hdefn
      · exact hdefn.2
      · rw [hdefn]
        exact hid hnode hold
    exact Or.inr ⟨s, _, _, rfl, hfiled.eventKey_eq hnode rfl hs,
      Memory.service?_rewriteService hnode s old svc, Or.inr ⟨_, _, _, rfl, rfl, rfl⟩⟩
  | refresh hnode hf =>
    refine Or.inl ⟨rfl, Memory.service?_refresh_map hnode ServiceRec.unleased fun s svc => ?_⟩
    obtain ⟨t, b, hfs⟩ := hf s svc
    rw [hfs]
    rfl
  | @remove _ _ s r old hnode hold =>
    exact Or.inr ⟨s, none, _, rfl, hfiled.eventKey_eq hnode rfl (hid hnode hold),
      Memory.service?_removeService n s old, Or.inl ⟨rfl, rfl⟩⟩
  | drop hnode hempty =>
    exact Or.inl ⟨rfl, fun n s => by rw [Memory.service?_erase_empty hnode hempty]⟩

theorem Mirrors.atomic {β : Type} {f : ServiceEntry → β} {g : ServiceRec → β}
    {log : List ChangeEvent} {m m' : Memory} {grow : Bool} {n : String} {out : List ChangeEvent}
    (h : Mirrors f g log m) (hfiled : Filed m) (hstep : Atomic grow n m out m')
    (hrefresh : ∀ svc t b,
      g { svc with defn := { svc.defn with lastSeen := t }, failed := b } = g svc)
    (hput : ∀ s svc node now, m'.service? n s = some svc → putEvent m.opts now node svc ∈ out →
      f (entry node svc (m.opts.lease svc now).1) = g svc) :
    Mirrors f g (log ++ out) m' := by
  rcases hstep.announces hfiled with ⟨rfl, hsame⟩ | ⟨s, v, ev, rfl, hkey, hstored, hv⟩
  · have hg : g ∘ ServiceRec.unleased = g := funext fun svc => hrefresh svc zeroTime false
    refine h.silent fun n s => ?_
    have hmap := congrArg (Option.map g) (hsame n s)
    rw [Option.map_map, Option.map_map, hg] at hmap
    exact hmap
  · refine h.announce v hstored hkey fun held => ?_
    rcases hv with ⟨rfl, hdelete⟩ | ⟨svc, node, now, rfl, -, rfl⟩
    · simp [applyEvent, hdelete]
    · exact congrArg some (hput s svc node now (by simp [hstored]) (List.mem_singleton_self _))

/-! ## Definitions and indexes -/

/-- A stored service without its lease, its health and its flag of a failed check. -/
def ServiceRec.published (svc : ServiceRec) : ServiceInstance × Bool × Nat × Nat :=
  ({ svc.defn with lastSeen := zeroTime }, svc.maintenance, svc.createIndex, svc.modifyIndex)

def publishedEntry (e : ServiceEntry) : ServiceInstance × Bool × Nat × Nat :=
  ({ e.service with lastSeen := zeroTime }, e.maintenance, e.createIndex, e.modifyIndex)

theorem mirrors_published (opts : Options) (calls : List Call) :
    Mirrors publishedEntry ServiceRec.published ((newMemory opts).run calls).2.flatten
      ((newMemory opts).run calls).1 := by
  have hboth := (run_steps calls (newMemory opts)).invariant
    (fun log m => Mirrors publishedEntry ServiceRec.published log m ∧ Filed m)
    ⟨Mirrors.start _ _ opts, Filed.newMemory opts⟩ (by
      rintro log m out m' ⟨hmirrors, hfiled⟩ ⟨grow, n, hstep⟩
      refine ⟨hmirrors.atomic hfiled hstep ?_ ?_, hfiled.atomic hstep⟩
      · intro svc t b
        rfl
      · intro s svc node now _ _
        rfl)
  exact hboth.1

/-- After every run a follower of the events holds exactly the stored services, each with its
definition up to `lastSeen`, its maintenance flag and its two indexes. -/
theorem replay_reconstructs (opts : Options) (calls : List Call) :
    let m := ((newMemory opts).run calls).1
    let held := follow ((newMemory opts).run calls).2.flatten
    (∀ n s, (held (n, s)).isSome ↔ (m.service? n s).isSome) ∧
      ∀ n s e svc, held (n, s) = some e → m.service? n s = some svc →
        e.service = { svc.defn with lastSeen := e.service.lastSeen } ∧
          e.maintenance = svc.maintenance ∧ e.createIndex = svc.createIndex ∧
          e.modifyIndex = svc.modifyIndex := by
  intro m held
  have h := mirrors_published opts calls
  refine ⟨h.isSome_iff, ?_⟩
  intro n s e svc he hsvc
  have hsame := h.apply he hsvc
  simp only [publishedEntry, ServiceRec.published, Prod.mk.injEq] at hsame
  obtain ⟨hdefn, hmaint, hcreate, hmodify⟩ := hsame
  refine ⟨?_, hmaint, hcreate, hmodify⟩
  exact congrArg (fun d : ServiceInstance => { d with lastSeen := e.service.lastSeen }) hdefn

end YellowPages.Store
