import YellowPages.Store.Atomic

/-!
# The name index

`byName` repeats what the nodes hold, turned around. As long as it is exact, a lookup by name is
a filter of the full scan.
-/

namespace YellowPages.Store

open Lib

namespace Memory

/-- Service `s` of node `n` is filed under `name`. -/
def named (m : Memory) (name n s : String) : Prop :=
  ∃ set, m.byName[name]? = some set ∧ ⟨n, s⟩ ∈ set

/-! ## The index operations -/

section Named

variable {m : Memory} {n s name : String} {dfn : ServiceInstance}

theorem named_of_byName_eq {m' : Memory} (h : m'.byName = m.byName) (name n s : String) :
    m'.named name n s ↔ m.named name n s := by
  simp [named, h]

theorem named_indexName (name' n' s' : String) :
    (m.indexName n dfn).named name' n' s' ↔
      (dfn.name = name' ∧ n = n' ∧ dfn.id = s') ∨ m.named name' n' s' := by
  simp only [named, indexName, Std.ExtTreeMap.getElem?_insert, Std.compare_eq_iff_eq]
  by_cases hname : dfn.name = name'
  · subst hname
    cases hset : m.byName[dfn.name]? <;>
      simp [Std.ExtTreeSet.mem_insert]
  · simp [hname]

theorem named_unindexName (name' n' s' : String) :
    (m.unindexName n name s).named name' n' s' ↔
      m.named name' n' s' ∧ ¬ (name = name' ∧ n = n' ∧ s = s') := by
  by_cases hname : name = name'
  · subst hname
    unfold unindexName named
    cases hset : m.byName[name]? with
    | none => simp [hset]
    | some set =>
      have herase : (⟨n', s'⟩ : SvcRef) ∈ set.erase ⟨n, s⟩ ↔ ⟨n', s'⟩ ∈ set ∧
          ¬ (n = n' ∧ s = s') := by
        simp [Std.ExtTreeSet.mem_erase, and_comm]
      dsimp only
      split <;> rename_i he
      · rw [Std.ExtTreeSet.isEmpty_iff] at he
        rw [he] at herase
        simpa using herase
      · simp [herase]
  · have hother : (m.unindexName n name s).byName[name']? = m.byName[name']? := by
      unfold unindexName
      split
      · rfl
      · dsimp only
        split <;>
          simp [Std.ExtTreeMap.getElem?_insert, Std.ExtTreeMap.getElem?_erase, hname]
    simp [named, hother, hname]

/-- A service that was filed under its old name is filed under the new one, and only there. -/
theorem named_rename (oldName : String) (hold : m.named oldName n dfn.id) (name' n' s' : String) :
    (m.rename n oldName dfn).named name' n' s' ↔
      (dfn.name = name' ∧ n = n' ∧ dfn.id = s') ∨
        (m.named name' n' s' ∧ ¬ (oldName = name' ∧ n = n' ∧ dfn.id = s')) := by
  unfold rename
  split <;> rename_i h
  · rw [named_indexName, named_unindexName]
  · rw [ne_eq, not_not] at h
    subst h
    constructor
    · intro hn; by_cases hkey : dfn.name = name' ∧ n = n' ∧ dfn.id = s'
      · exact Or.inl hkey
      · exact Or.inr ⟨hn, hkey⟩
    · rintro (⟨rfl, rfl, rfl⟩ | ⟨hn, -⟩)
      · exact hold
      · exact hn

/-- No name is kept with an empty set. -/
def NoEmptySet (m : Memory) : Prop := ∀ name : String, m.byName[name]? ≠ some ∅

theorem NoEmptySet.indexName (h : m.NoEmptySet) (n : String) (dfn : ServiceInstance) :
    (m.indexName n dfn).NoEmptySet := by
  intro name
  simp only [Memory.indexName, Std.ExtTreeMap.getElem?_insert, Std.compare_eq_iff_eq]
  split
  · simp
  · exact h name

theorem NoEmptySet.unindexName (h : m.NoEmptySet) (n name s : String) :
    (m.unindexName n name s).NoEmptySet := by
  unfold Memory.unindexName
  split
  · exact h
  · dsimp only
    split <;> rename_i hempty <;> intro name'
    · simp only [Std.ExtTreeMap.getElem?_erase, Std.compare_eq_iff_eq]
      split
      · exact Option.some_ne_none _ ∘ Eq.symm
      · exact h name'
    · simp only [Std.ExtTreeMap.getElem?_insert, Std.compare_eq_iff_eq]
      split
      · rwa [Std.ExtTreeSet.isEmpty_iff, ← Option.some_inj] at hempty
      · exact h name'

theorem NoEmptySet.rename (h : m.NoEmptySet) (n oldName : String) (dfn : ServiceInstance) :
    (m.rename n oldName dfn).NoEmptySet := by
  unfold Memory.rename
  split
  · exact (h.unindexName n oldName dfn.id).indexName n dfn
  · exact h

end Named

end Memory

/-! ## The index is exact -/

/-- The redundant parts of the registry agree. -/
structure Filed (m : Memory) : Prop where
  exact_names : ∀ name n s, m.named name n s ↔ ∃ svc, m.service? n s = some svc ∧
    svc.defn.name = name
  no_empty_set : m.NoEmptySet
  service_id : ∀ n s svc, m.service? n s = some svc → svc.defn.id = s
  node_id : ∀ n node, m.node? n = some node → node.id = n

namespace Filed

variable {m m' : Memory}

theorem newMemory (opts : Options) : Filed (newMemory opts) := by
  constructor <;> simp [Store.newMemory, Memory.named, Memory.service?, Memory.NoEmptySet, Memory.node?]

theorem named_stored (h : Filed m) {n s : String} {svc : ServiceRec} (hs : m.service? n s = some svc)
    (name : String) : m.named name n s ↔ svc.defn.name = name := by
  rw [h.exact_names, hs]
  simp

theorem not_named (h : Filed m) {n s : String} (hs : m.service? n s = none) (name : String) :
    ¬ m.named name n s := by
  rw [h.exact_names, hs]
  simp

theorem exact_put (h : Filed m) {n s : String} (v : Option ServiceRec)
    (hput : ∀ n' s', m'.service? n' s' = if n = n' ∧ s = s' then v else m.service? n' s')
    (hsame : ∀ name, m'.named name n s ↔ ∃ svc, v = some svc ∧ svc.defn.name = name)
    (hother : ∀ name n' s', ¬ (n = n' ∧ s = s') → (m'.named name n' s' ↔ m.named name n' s')) :
    ∀ name n' s', m'.named name n' s' ↔ ∃ svc, m'.service? n' s' = some svc ∧
      svc.defn.name = name := by
  intro name n' s'
  rw [hput]
  by_cases hkey : n = n' ∧ s = s'
  · obtain ⟨rfl, rfl⟩ := hkey
    simpa using hsame name
  · rw [if_neg hkey, hother name n' s' hkey, h.exact_names]

theorem id_put (h : Filed m) {n s : String} (v : Option ServiceRec)
    (hput : ∀ n' s', m'.service? n' s' = if n = n' ∧ s = s' then v else m.service? n' s')
    (hid : ∀ svc, v = some svc → svc.defn.id = s) :
    ∀ n' s' svc, m'.service? n' s' = some svc → svc.defn.id = s' := by
  intro n' s' svc hsvc
  rw [hput] at hsvc
  split at hsvc <;> rename_i hkey
  · rw [← hkey.2]; exact hid svc hsvc
  · exact h.service_id n' s' svc hsvc

theorem of_same (h : Filed m) (hnames : m'.byName = m.byName)
    (hdefn : ∀ n s, (m'.service? n s).map (fun svc => (svc.defn.id, svc.defn.name)) =
      (m.service? n s).map fun svc => (svc.defn.id, svc.defn.name))
    (hnode : ∀ n node, m'.node? n = some node → node.id = n) : Filed m' where
  exact_names := by
    intro name n s
    rw [Memory.named_of_byName_eq hnames, h.exact_names]
    have hd := hdefn n s
    cases hm' : m'.service? n s <;> cases hm : m.service? n s <;> simp_all
  no_empty_set := by intro name; rw [hnames]; exact h.no_empty_set name
  service_id := by
    intro n s svc' hs'
    have hd := hdefn n s
    rw [hs'] at hd
    obtain ⟨svc, hs, heq⟩ := Option.map_eq_some_iff.mp hd.symm
    rw [← (Prod.mk.inj heq).1]
    exact h.service_id n s svc hs
  node_id := hnode

theorem createService (h : Filed m) {n : String} {r : NodeRec} {dfn : ServiceInstance}
    (hnode : m.nodes[n]? = some r) (hnew : m.service? n dfn.id = none)
    (hid : ∀ n' node, (m.createService n dfn).1.node? n' = some node → node.id = n') :
    Filed (m.createService n dfn).1 where
  exact_names := by
    have hnamed : ∀ name n' s', (m.createService n dfn).1.named name n' s' ↔
        (dfn.name = name ∧ n = n' ∧ dfn.id = s') ∨ m.named name n' s' := by
      intro name n' s'
      rw [Memory.createService, Memory.named_indexName]
      rfl
    refine h.exact_put _ (Memory.service?_createService hnode dfn) ?_ ?_
    · intro name
      rw [hnamed]
      simp [h.not_named hnew name, Memory.createService]
    · intro name n' s' hkey
      rw [hnamed]
      simp [hkey]
  no_empty_set := Memory.NoEmptySet.indexName (by exact h.no_empty_set) n dfn
  service_id := by
    refine h.id_put _ (Memory.service?_createService hnode dfn) ?_
    rintro svc hsvc
    rw [← Option.some.inj hsvc]
    rfl
  node_id := hid

theorem rewriteService (h : Filed m) {n s : String} {r : NodeRec} {old svc : ServiceRec}
    (hnode : m.nodes[n]? = some r) (hold : m.service? n s = some old) (hs : svc.defn.id = s)
    (hid : ∀ n' node, (m.rewriteService n s old svc).1.node? n' = some node → node.id = n') :
    Filed (m.rewriteService n s old svc).1 where
  exact_names := by
    have hnamed : ∀ name n' s', (m.rewriteService n s old svc).1.named name n' s' ↔
        (svc.defn.name = name ∧ n = n' ∧ s = s') ∨
          (m.named name n' s' ∧ ¬ (old.defn.name = name ∧ n = n' ∧ s = s')) := by
      intro name n' s'
      have hfiled : (m.advance.setService n s { svc with modifyIndex := m.next }).named
          old.defn.name n svc.defn.id := by
        rw [hs]; exact (h.named_stored hold _).mpr rfl
      have hrename := Memory.named_rename old.defn.name hfiled name n' s'
      rw [hs] at hrename
      exact hrename
    refine h.exact_put _ (Memory.service?_rewriteService hnode s old svc) ?_ ?_
    · intro name
      rw [hnamed]
      simp [h.named_stored hold name, Memory.rewriteService]
    · intro name n' s' hkey
      rw [hnamed]
      simp [hkey]
  no_empty_set := Memory.NoEmptySet.rename (by exact h.no_empty_set) n _ _
  service_id := by
    refine h.id_put _ (Memory.service?_rewriteService hnode s old svc) ?_
    rintro svc' hsvc
    rw [← Option.some.inj hsvc]
    exact hs
  node_id := hid

theorem removeService (h : Filed m) {n s : String} {old : ServiceRec} (hold : m.service? n s = some old)
    (hid : ∀ n' node, (m.removeService n s old).node? n' = some node → node.id = n') :
    Filed (m.removeService n s old) where
  exact_names := by
    have hnamed : ∀ name n' s', (m.removeService n s old).named name n' s' ↔
        m.named name n' s' ∧ ¬ (old.defn.name = name ∧ n = n' ∧ s = s') := by
      intro name n' s'
      exact Memory.named_unindexName name n' s'
    refine h.exact_put _ (Memory.service?_removeService n s old) ?_ ?_
    · intro name
      simp [hnamed, h.named_stored hold name]
    · intro name n' s' hkey
      rw [hnamed]
      simp [hkey]
  no_empty_set := Memory.NoEmptySet.unindexName (by exact h.no_empty_set) n _ s
  service_id := h.id_put none (Memory.service?_removeService n s old) (by simp)
  node_id := hid

theorem atomic {grow : Bool} {place : String} {out : List ChangeEvent} (h : Filed m)
    (hstep : Atomic grow place m out m') : Filed m' := by
  have hid : ∀ n node, m'.node? n = some node → node.id = n := by
    intro n node hn
    rcases hstep.node? hn with hn | hn
    · exact h.node_id n node hn
    · exact hn
  cases hstep with
  | setMeta _ => exact h.of_same rfl (fun n s => by rw [Memory.service?_setMeta]) hid
  | create now hnode hnew _ =>
    rw [← Memory.service?_of_node hnode] at hnew
    exact h.createService hnode hnew hid
  | rewrite now hnode hold hs _ =>
    rw [← Memory.service?_of_node hnode] at hold
    have hs : _ = _ := hs.elim And.right fun hdefn => hdefn ▸ h.service_id _ _ _ hold
    exact h.rewriteService hnode hold hs hid
  | refresh hnode hf =>
    refine h.of_same rfl (Memory.service?_refresh_map hnode _ fun s svc => ?_) hid
    obtain ⟨t, b, hfs⟩ := hf s svc
    rw [hfs]
  | remove hnode hold =>
    rw [← Memory.service?_of_node hnode] at hold
    exact h.removeService hold hid
  | drop hnode hempty =>
    exact h.of_same rfl (fun n' s' => by rw [Memory.service?_erase_empty hnode hempty]) hid

theorem run (opts : Options) (calls : List Call) : Filed ((Store.newMemory opts).run calls).1 := by
  refine (run_steps calls _).keeps Filed (newMemory opts) ?_
  rintro m out m' h ⟨grow, n, hstep⟩
  exact h.atomic hstep

end Filed

def Reachable (m : Memory) : Prop := ∃ opts calls, m = ((newMemory opts).run calls).1

theorem Reachable.filed {m : Memory} (h : Reachable m) : Filed m := by
  obtain ⟨opts, calls, rfl⟩ := h
  exact Filed.run opts calls

theorem Reachable.exec {m : Memory} (h : Reachable m) (c : Call) : Reachable (c.exec m).1 := by
  obtain ⟨opts, calls, rfl⟩ := h
  refine ⟨opts, calls ++ [c], ?_⟩
  rw [run_append]
  rfl

/-! ## Lookup -/

theorem visit_eq_some (o : Options) (now : Time) (q : Query) (nodeMeta : Node) (svc : ServiceRec)
    (e : ServiceEntry) :
    visit o now q nodeMeta svc = some e ↔
      (q.datacenter = "" ∨ nodeMeta.datacenter = q.datacenter) ∧ (∀ t ∈ q.tags, t ∈ svc.defn.tags) ∧
        (o.lease svc now).2 = false ∧ e = entry nodeMeta svc (o.lease svc now).1 := by
  rw [← ServiceInstance.matchesTags_iff]
  unfold visit
  split <;> rename_i hdc
  · simp only [reduceCtorEq, false_iff, not_and]
    intro h
    exact absurd h (not_or.mpr hdc)
  · have hdc' : q.datacenter = "" ∨ nodeMeta.datacenter = q.datacenter := by
      by_contra hcon
      exact hdc (not_or.mp hcon)
    cases htags : svc.defn.matchesTags q.tags with
    | false => simp
    | true =>
      cases hexp : (o.lease svc now).2 with
      | true => simp [hexp]
      | false => simp [hexp, hdc', eq_comm (a := e)]

section Lookup

variable {m : Memory} (now : Time) (q : Query)

theorem mem_collect (h : Filed m) (e : ServiceEntry) :
    e ∈ m.collect now q ↔ ∃ (n : String) (r : NodeRec) (s : String) (svc : ServiceRec),
      m.nodes[n]? = some r ∧ r.services[s]? = some svc ∧ (q.name = "" ∨ svc.defn.name = q.name) ∧
        visit m.opts now q r.nodeMeta svc = some e := by
  unfold Memory.collect
  split <;> rename_i hname
  · simp only [List.mem_flatMap, List.mem_filterMap, Prod.exists, hname, true_or, true_and,
      Std.ExtTreeMap.mem_toList_iff_getElem?_eq_some]
    constructor
    · rintro ⟨n, r, hr, s, svc, hs, hv⟩; exact ⟨n, r, s, svc, hr, hs, hv⟩
    · rintro ⟨n, r, s, svc, hr, hs, hv⟩; exact ⟨n, r, hr, s, svc, hs, hv⟩
  · have hmem : ∀ ref : SvcRef, ref ∈ (m.byName[q.name]?.getD ∅).toList ↔
        m.named q.name ref.node ref.service := by
      intro ref
      rw [Std.ExtTreeSet.mem_toList]
      cases hset : m.byName[q.name]? <;> simp [Memory.named, hset]
    simp only [List.mem_filterMap, hmem, h.exact_names, Option.bind_eq_some_iff, hname, false_or,
      Memory.service?_eq_some]
    constructor
    · rintro ⟨ref, ⟨svc', ⟨r', hr', hs'⟩, hn⟩, r, hr, svc, hs, hv⟩
      obtain rfl := Option.some.inj (hr'.symm.trans hr)
      obtain rfl := Option.some.inj (hs'.symm.trans hs)
      exact ⟨ref.node, r', ref.service, svc', hr, hs, hn, hv⟩
    · rintro ⟨n, r, s, svc, hr, hs, hn, hv⟩
      exact ⟨⟨n, s⟩, ⟨svc, ⟨r, hr, hs⟩, hn⟩, r, hr, svc, hs, hv⟩

/-- An entry has the identity it is stored under. -/
theorem key_of_visit (h : Filed m) {n s : String} {r : NodeRec} {svc : ServiceRec} {e : ServiceEntry}
    (hr : m.nodes[n]? = some r) (hs : r.services[s]? = some svc)
    (hv : visit m.opts now q r.nodeMeta svc = some e) : e.key = toLex (n, s) := by
  obtain ⟨-, -, -, rfl⟩ := (visit_eq_some _ _ _ _ _ _).mp hv
  have hn := h.node_id n r.nodeMeta (Memory.node?_of_node hr)
  have hid := h.service_id n s svc (Memory.service?_eq_some.mpr ⟨r, hr, hs⟩)
  simp [ServiceEntry.key, entry, hn, hid]

theorem collect_keys_nodup (h : Filed m) : ((m.collect now q).map ServiceEntry.key).Nodup := by
  rw [List.nodup_iff_pairwise_ne, List.pairwise_map]
  unfold Memory.collect
  split
  · rw [List.pairwise_flatMap]
    constructor
    · rintro ⟨n, r⟩ hr
      rw [Std.ExtTreeMap.mem_toList_iff_getElem?_eq_some] at hr
      rw [List.pairwise_filterMap]
      refine Std.ExtTreeMap.distinct_keys_toList.imp_of_mem ?_
      rintro ⟨s1, svc1⟩ ⟨s2, svc2⟩ h1 h2 hne e1 he1 e2 he2
      rw [Std.ExtTreeMap.mem_toList_iff_getElem?_eq_some] at h1 h2
      rw [key_of_visit now q h hr h1 he1, key_of_visit now q h hr h2 he2]
      simpa using hne
    · refine Std.ExtTreeMap.distinct_keys_toList.imp_of_mem ?_
      rintro ⟨n1, r1⟩ ⟨n2, r2⟩ hr1 hr2 hne e1 he1 e2 he2
      simp only [List.mem_filterMap, Prod.exists, Std.ExtTreeMap.mem_toList_iff_getElem?_eq_some]
        at hr1 hr2 he1 he2
      obtain ⟨s1, svc1, h1, hv1⟩ := he1
      obtain ⟨s2, svc2, h2, hv2⟩ := he2
      rw [key_of_visit now q h hr1 h1 hv1, key_of_visit now q h hr2 h2 hv2]
      simp only [ne_eq, EmbeddingLike.apply_eq_iff_eq, Prod.mk.injEq, not_and]
      intro hn
      simp [hn] at hne
  · rw [List.pairwise_filterMap]
    refine Std.ExtTreeSet.distinct_toList.imp ?_
    rintro ⟨n1, s1⟩ ⟨n2, s2⟩ hne e1 he1 e2 he2
    simp only [Option.bind_eq_some_iff] at he1 he2
    obtain ⟨r1, hr1, svc1, h1, hv1⟩ := he1
    obtain ⟨r2, hr2, svc2, h2, hv2⟩ := he2
    rw [key_of_visit now q h hr1 h1 hv1, key_of_visit now q h hr2 h2 hv2]
    simpa [Std.compare_eq_iff_eq] using hne

/-- Lookup ranges over maps. The order it meets the services in does not show. -/
theorem lookup_of_walk (h : Filed m) (walk : List ServiceEntry) (hw : walk.Perm (m.collect now q)) :
    sortBy ServiceEntry.key walk = (m.lookup now q).entries :=
  sortBy_eq_of_perm ServiceEntry.key (collect_keys_nodup now q h) hw

theorem lookup_strictlySorted (h : Filed m) :
    StrictlySorted ServiceEntry.key (m.lookup now q).entries :=
  sortBy_strictlySorted ServiceEntry.key _ (collect_keys_nodup now q h)

theorem mem_lookup (h : Filed m) (e : ServiceEntry) :
    e ∈ (m.lookup now q).entries ↔ ∃ (n : String) (r : NodeRec) (s : String) (svc : ServiceRec),
      m.nodes[n]? = some r ∧ r.services[s]? = some svc ∧ (q.name = "" ∨ svc.defn.name = q.name) ∧
        (q.datacenter = "" ∨ r.nodeMeta.datacenter = q.datacenter) ∧
        (∀ t ∈ q.tags, t ∈ svc.defn.tags) ∧ (m.opts.lease svc now).2 = false ∧
        e = entry r.nodeMeta svc (m.opts.lease svc now).1 := by
  simp only [Memory.lookup, mem_sortBy, mem_collect now q h, visit_eq_some]

/-- The query's own filter on an entry. -/
def Selects (q : Query) (e : ServiceEntry) : Prop :=
  (q.name = "" ∨ e.service.name = q.name) ∧
    (q.datacenter = "" ∨ e.node.datacenter = q.datacenter) ∧ ∀ t ∈ q.tags, t ∈ e.service.tags

instance (q : Query) (e : ServiceEntry) : Decidable (Selects q e) :=
  inferInstanceAs (Decidable ((q.name = "" ∨ e.service.name = q.name) ∧
    (q.datacenter = "" ∨ e.node.datacenter = q.datacenter) ∧ ∀ t ∈ q.tags, t ∈ e.service.tags))

/-- An answer is what is stored under its key, with the health it has at `now`. -/
theorem mem_lookup_stored (h : Filed m) (e : ServiceEntry) :
    e ∈ (m.lookup now q).entries ↔ Selects q e ∧ ∃ svc, m.node? e.node.id = some e.node ∧
      m.service? e.node.id e.service.id = some svc ∧ (m.opts.lease svc now).2 = false ∧
        e = entry e.node svc (m.opts.lease svc now).1 := by
  rw [mem_lookup now q h]
  constructor
  · rintro ⟨n, r, s, svc, hr, hs, hname, hdc, htags, hlive, rfl⟩
    have hnode : m.node? n = some r.nodeMeta := Memory.node?_of_node hr
    have hsvc : m.service? n s = some svc := Memory.service?_eq_some.mpr ⟨r, hr, hs⟩
    simp only [entry, h.node_id n r.nodeMeta hnode, h.service_id n s svc hsvc]
    exact ⟨⟨hname, hdc, htags⟩, svc, hnode, hsvc, hlive, rfl⟩
  · rintro ⟨⟨hname, hdc, htags⟩, svc, hnode, hsvc, hlive, he⟩
    obtain ⟨r, hr, hs⟩ := Memory.service?_eq_some.mp hsvc
    have hmeta : r.nodeMeta = e.node := by simpa [Memory.node?, hr] using hnode
    have hdefn : e.service = svc.defn := congrArg ServiceEntry.service he
    rw [hdefn] at hname htags
    rw [← hmeta] at hdc he
    exact ⟨e.node.id, r, e.service.id, svc, hr, hs, hname, hdc, htags, hlive, he⟩

theorem exists_lookup_iff (h : Filed m) {n s : String} {node : Node} {svc : ServiceRec}
    (hnode : m.node? n = some node) (hsvc : m.service? n s = some svc) {P : ServiceEntry → Prop} :
    (∃ e ∈ (m.lookup now {}).entries, e.key = toLex (n, s) ∧ P e) ↔
      (m.opts.lease svc now).2 = false ∧ P (entry node svc (m.opts.lease svc now).1) := by
  constructor
  · rintro ⟨e, he, hkey, hP⟩
    obtain ⟨-, svc', hnode', hsvc', hlive, he⟩ := (mem_lookup_stored now {} h e).mp he
    obtain ⟨hn, hs⟩ := Prod.mk.injEq _ _ _ _ ▸ toLex_inj.mp hkey
    rw [hn, hnode] at hnode'
    rw [hn, hs, hsvc] at hsvc'
    obtain rfl := Option.some.inj hsvc'
    rw [he, ← Option.some.inj hnode'] at hP
    exact ⟨hlive, hP⟩
  · rintro ⟨hlive, hP⟩
    have hn : node.id = n := h.node_id n node hnode
    have hs : svc.defn.id = s := h.service_id n s svc hsvc
    refine ⟨entry node svc (m.opts.lease svc now).1, ?_,
      by rw [ServiceEntry.key, entry, hn, hs], hP⟩
    rw [mem_lookup_stored now {} h]
    refine ⟨by simp [Selects], svc, ?_, ?_, hlive, rfl⟩
    · simpa only [entry, hn] using hnode
    · simpa only [entry, hn, hs] using hsvc

theorem lookup_eq_filter (h : Filed m) :
    (m.lookup now q).entries = (m.lookup now {}).entries.filter (Selects q ·) := by
  refine StrictlySorted.ext ServiceEntry.key (lookup_strictlySorted now q h) ?_ ?_
  · exact (lookup_strictlySorted now {} h).filter ServiceEntry.key _
  · intro e
    rw [List.mem_filter, decide_eq_true_iff, mem_lookup now q h, mem_lookup now {} h]
    constructor
    · rintro ⟨n, r, s, svc, hr, hs, hname, hdc, htags, hlive, rfl⟩
      exact ⟨⟨n, r, s, svc, hr, hs, Or.inl rfl, Or.inl rfl, by simp, hlive, rfl⟩, hname, hdc, htags⟩
    · rintro ⟨⟨n, r, s, svc, hr, hs, -, -, -, hlive, rfl⟩, hname, hdc, htags⟩
      exact ⟨n, r, s, svc, hr, hs, hname, hdc, htags, hlive, rfl⟩

end Lookup

/-- In every registry that calls lead to, the name index is exact. So a lookup is the full scan,
filtered, and each live service that the query selects is there once, in order. -/
theorem name_index_exact (opts : Options) (calls : List Call) (now : Time) (q : Query) :
    let m := ((newMemory opts).run calls).1
    (∀ name n s, m.named name n s ↔ ∃ svc, m.service? n s = some svc ∧ svc.defn.name = name) ∧
      (∀ name : String, m.byName[name]? ≠ some ∅) ∧
      (∀ n s svc, m.service? n s = some svc → svc.defn.id = s) ∧
      (∀ n node, m.node? n = some node → node.id = n) ∧
      (m.lookup now q).entries = (m.lookup now {}).entries.filter (Selects q ·) ∧
      (∀ e, e ∈ (m.lookup now q).entries ↔
        ∃ (n : String) (r : NodeRec) (s : String) (svc : ServiceRec),
          m.nodes[n]? = some r ∧ r.services[s]? = some svc ∧
          (q.name = "" ∨ svc.defn.name = q.name) ∧
          (q.datacenter = "" ∨ r.nodeMeta.datacenter = q.datacenter) ∧
          (∀ t ∈ q.tags, t ∈ svc.defn.tags) ∧ (m.opts.lease svc now).2 = false ∧
          e = entry r.nodeMeta svc (m.opts.lease svc now).1) ∧
      StrictlySorted ServiceEntry.key (m.lookup now q).entries := by
  intro m
  have h : Filed m := Filed.run opts calls
  exact ⟨h.exact_names, h.no_empty_set, h.service_id, h.node_id, lookup_eq_filter now q h,
    mem_lookup now q h, lookup_strictlySorted now q h⟩

end YellowPages.Store
