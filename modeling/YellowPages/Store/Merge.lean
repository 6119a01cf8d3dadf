import YellowPages.Health
import YellowPages.Store.Definitions

/-!
# Anti-entropy

Merge takes the entries of a peer one by one. For every key it ends with the first maximum of the
local copy and the entries, which is what the read path computes from the same entries.
-/

namespace YellowPages.Store

open Lib

/-! ## One entry -/

/-- The entry is for a key that is not stored, or ranks above the stored definition. -/
def Leads (m : Memory) (e : ServiceEntry) : Prop :=
  Valid e ∧ ∀ c ∈ m.defn? e.node.id e.service.id, c.rank < e.service.rank

instance (m : Memory) (e : ServiceEntry) : Decidable (Leads m e) :=
  inferInstanceAs (Decidable (_ ∧ _))

theorem leads_of_service?_eq {m m' : Memory} (h : ∀ n s, m'.service? n s = m.service? n s)
    (e : ServiceEntry) :
    Leads m' e ↔ Leads m e := by
  simp only [Leads, Memory.defn?, h]

section Entry

variable {clk : Nat → Time} {p p' : MergePass} {e : ServiceEntry}

structure Applied (p : MergePass) (e : ServiceEntry) (p' : MergePass) : Prop where
  stored : ∃ svc, svc.defn = clamped p.mem.opts e.service ∧ ∀ n s, p'.mem.service? n s =
    if e.node.id = n ∧ e.service.id = s then some svc else p.mem.service? n s
  announced : ∃ ev, p'.events = p.events ++ [ev] ∧ ev.type = .put ∧ ev.entry.node = e.node ∧
    ev.entry.service.id = e.service.id
  counted : p'.applied = p.applied + 1
  node : ∀ n, p'.mem.node? n = (p.mem.setMeta e.node).node? n

theorem leads_of_new (hvalid : Valid e) (hnew : p.mem.service? e.node.id e.service.id = none) :
    Leads p.mem e :=
  ⟨hvalid, by simp [Memory.defn?, hnew]⟩

theorem leads_iff_of_stored {old : ServiceRec} (hvalid : Valid e)
    (hold : p.mem.service? e.node.id e.service.id = some old) :
    Leads p.mem e ↔ old.defn.rank < e.service.rank := by
  simp [Leads, hvalid, Memory.defn?, hold]

/-- An entry is skipped, or only brings its node, or is applied. An entry that leads is not applied
only if the registry is full. -/
theorem MergeTurn.outcome (h : MergeTurn clk p e p') :
    ¬ Valid e ∧ p' = p ∨
      Valid e ∧ p' = { p with mem := p.mem.setMeta e.node } ∧
        (Leads p.mem e → p.mem.service? e.node.id e.service.id = none ∧
          p.mem.opts.atCapacity p.size = true) ∨
      Leads p.mem e ∧ Applied p e p' := by
  obtain ⟨r, hr, -⟩ := hasMeta_setMeta p.mem e.node
  cases h with
  | skip hvalid => exact Or.inl ⟨hvalid, rfl⟩
  | full hvalid hnew hfull => exact Or.inr (Or.inl ⟨hvalid, rfl, fun _ => ⟨hnew, hfull⟩⟩)
  | lose hvalid hold hrank =>
    refine Or.inr (Or.inl ⟨hvalid, rfl, fun hlead => absurd ?_ hrank⟩)
    exact (leads_iff_of_stored hvalid hold).mp hlead
  | @create svc hvalid hnew hroom hsvc =>
    refine Or.inr
      (Or.inr ⟨leads_of_new hvalid hnew, ⟨⟨svc.2, ?_, fun n s => ?_⟩, ?_, rfl, fun n => ?_⟩⟩)
    · rw [hsvc]
      rfl
    · rw [hsvc, Memory.service?_createService hr, Memory.service?_setMeta]
      rfl
    · rw [hsvc]
      exact ⟨_, rfl, rfl, rfl, rfl⟩
    · rw [hsvc, Memory.createService, Memory.node?_of_nodes_eq (Memory.nodes_indexName ..),
        Memory.node?_setService]
      rfl
  | @win _ svc hvalid hold hrank hsvc =>
    have hlead := (leads_iff_of_stored hvalid hold).mpr hrank
    refine Or.inr (Or.inr ⟨hlead, ⟨⟨svc.2, ?_, fun n s => ?_⟩, ?_, rfl, fun n => ?_⟩⟩)
    · rw [hsvc]
      rfl
    · rw [hsvc, Memory.service?_rewriteService hr, Memory.service?_setMeta]
    · rw [hsvc]
      exact ⟨_, rfl, rfl, rfl, rfl⟩
    · rw [hsvc, Memory.rewriteService, Memory.node?_of_nodes_eq (Memory.nodes_rename ..),
        Memory.node?_setService]
      rfl

end Entry

/-! ## The loop -/

/-- The definitions the valid entries of `es` offer for a key, in order. -/
def offers (o : Options) (es : List ServiceEntry) (n s : String) : List ServiceInstance :=
  (es.filter fun e => Valid e ∧ e.node.id = n ∧ e.service.id = s).map fun e => clamped o e.service

def copies (m : Memory) (es : List ServiceEntry) (n s : String) : List ServiceInstance :=
  (m.defn? n s).toList ++ offers m.opts es n s

/-- The attributes the last valid entry for a node brings. -/
def lastNode (es : List ServiceEntry) (n : String) : Option Node :=
  ((es.filter fun e => Valid e ∧ e.node.id = n).getLast?).map ServiceEntry.node

/-- The entry ranks above the local copy and above all earlier entries of its key. -/
def Wins (m : Memory) (seen : List ServiceEntry) (e : ServiceEntry) : Prop :=
  Valid e ∧ ∀ d ∈ copies m seen e.node.id e.service.id, d.rank < e.service.rank

instance (m : Memory) (seen : List ServiceEntry) (e : ServiceEntry) : Decidable (Wins m seen e) :=
  inferInstanceAs (Decidable (_ ∧ _))

/-- The creations and strict wins of a list, after the entries `seen`. -/
def countWins (m : Memory) : List ServiceEntry → List ServiceEntry → Nat
  | _, [] => 0
  | seen, e :: rest => (if Wins m seen e then 1 else 0) + countWins m (seen ++ [e]) rest

theorem copies_snoc (m : Memory) (es : List ServiceEntry) (e : ServiceEntry) (n s : String) :
    copies m (es ++ [e]) n s = if Valid e ∧ e.node.id = n ∧ e.service.id = s then
      copies m es n s ++ [clamped m.opts e.service] else copies m es n s := by
  by_cases h : Valid e ∧ e.node.id = n ∧ e.service.id = s <;> simp [copies, offers, h]

theorem argmax_copies_snoc (m : Memory) (es : List ServiceEntry) (e : ServiceEntry) (n s : String) :
    (copies m (es ++ [e]) n s).argmax ServiceInstance.rank =
      if Wins m es e ∧ e.node.id = n ∧ e.service.id = s then some (clamped m.opts e.service)
      else (copies m es n s).argmax ServiceInstance.rank := by
  rw [copies_snoc]
  by_cases hk : Valid e ∧ e.node.id = n ∧ e.service.id = s
  · obtain ⟨hvalid, rfl, rfl⟩ := hk
    rw [if_pos ⟨hvalid, rfl, rfl⟩, argmax_snoc]
    refine if_congr ?_ rfl rfl
    rw [forall_argmax_lt]
    exact ⟨fun h => ⟨⟨hvalid, h⟩, rfl, rfl⟩, fun h => h.1.2⟩
  · rw [if_neg hk, if_neg fun h => hk ⟨h.1.1, h.2⟩]

theorem lastNode_snoc (es : List ServiceEntry) (e : ServiceEntry) (n : String) :
    lastNode (es ++ [e]) n = if Valid e ∧ e.node.id = n then some e.node else lastNode es n := by
  by_cases h : Valid e ∧ e.node.id = n <;> simp [lastNode, h]

/-- The key is stored, or nothing keeps Merge from creating it. -/
def Tracked (m : Memory) (n s : String) : Prop :=
  m.service? n s = none → ∀ size, m.opts.atCapacity size = false

/-- Some entry for service `s` wins its turn and brings these attributes of its node. -/
def WonBy (m : Memory) (es : List ServiceEntry) (s : String) (node : Node) : Prop :=
  ∃ seen e, seen ++ [e] <+: es ∧ Wins m seen e ∧ e.node = node ∧ e.service.id = s

theorem wonBy_snoc (m : Memory) (es : List ServiceEntry) (e : ServiceEntry) (s : String) (node : Node) :
    WonBy m (es ++ [e]) s node ↔
      WonBy m es s node ∨ Wins m es e ∧ e.node = node ∧ e.service.id = s := exists_prefix_snoc

structure Merging (m : Memory) (seen : List ServiceEntry) (p : MergePass) : Prop where
  opts : p.mem.opts = m.opts
  defn : ∀ n s, Tracked m n s → p.mem.defn? n s = (copies m seen n s).argmax ServiceInstance.rank
  untouched : ∀ n s, (∀ e ∈ seen, ¬ (Valid e ∧ e.node.id = n ∧ e.service.id = s)) →
    p.mem.service? n s = m.service? n s
  node : ∀ n, p.mem.node? n = (lastNode seen n).or (m.node? n)
  puts : ∀ s node, Tracked m node.id s → (PutFor p.events s node ↔ WonBy m seen s node)
  events : p.events.length = p.applied

namespace Merging

variable {m : Memory} {seen : List ServiceEntry} {p : MergePass}

theorem start (m : Memory) : Merging m [] ⟨⟨m, m.sizeLocked, []⟩, 0⟩ where
  opts := rfl
  defn := by
    intro n s _
    cases hd : m.defn? n s <;> simp [copies, offers, hd]
  untouched := fun _ _ _ => rfl
  node := fun n => by simp [lastNode]
  puts := fun s node _ => by simp [PutFor, WonBy]
  events := rfl

theorem leads_iff (h : Merging m seen p) {e : ServiceEntry} (ht : Tracked m e.node.id e.service.id) :
    Leads p.mem e ↔ Wins m seen e := by
  rw [Leads, h.defn _ _ ht, forall_argmax_lt]
  rfl

theorem not_tracked (h : Merging m seen p) {n s : String} (hnew : p.mem.service? n s = none)
    {size : Nat} (hfull : m.opts.atCapacity size = true) : ¬ Tracked m n s := by
  intro ht
  cases hsvc : m.service? n s with
  | none =>
    rw [ht hsvc] at hfull
    cases hfull
  | some svc =>
    have hdefn := h.defn n s ht
    rw [Memory.defn?, hnew, Option.map_none, eq_comm, List.argmax_eq_none] at hdefn
    simp [copies, Memory.defn?, hsvc] at hdefn

theorem skip (h : Merging m seen p) {e : ServiceEntry} {p' : MergePass}
    (hopts : p'.mem.opts = p.mem.opts) (hsame : ∀ n s, p'.mem.service? n s = p.mem.service? n s)
    (hwins : Tracked m e.node.id e.service.id → ¬ Wins m seen e)
    (hnode : ∀ n, p'.mem.node? n = if Valid e ∧ e.node.id = n then some e.node else p.mem.node? n)
    (hevents : p'.events = p.events) (happlied : p'.applied = p.applied) :
    Merging m (seen ++ [e]) p' where
  opts := hopts.trans h.opts
  defn := by
    intro n s ht
    rw [Memory.defn?, hsame, ← Memory.defn?, h.defn n s ht, argmax_copies_snoc, if_neg]
    rintro ⟨hw, rfl, rfl⟩
    exact hwins ht hw
  untouched := by
    intro n s hkeys
    rw [hsame]
    exact h.untouched n s fun e' he' => hkeys e' (List.mem_append_left _ he')
  node := by
    intro n
    rw [hnode, lastNode_snoc, h.node]
    split <;> rfl
  puts := by
    intro s node ht
    rw [hevents, h.puts s node ht, wonBy_snoc, or_iff_left]
    rintro ⟨hw, rfl, rfl⟩
    exact hwins ht hw
  events := by rw [hevents, happlied, h.events]

theorem apply (h : Merging m seen p) {e : ServiceEntry} {p' : MergePass} (hlead : Leads p.mem e)
    (hopts : p'.mem.opts = p.mem.opts) (happlied : Applied p e p') : Merging m (seen ++ [e]) p' := by
  obtain ⟨svc, hdefn, hstored⟩ := happlied.stored
  obtain ⟨ev, hev, hput, hevnode, hevid⟩ := happlied.announced
  refine ⟨hopts.trans h.opts, ?_, ?_, ?_, ?_, ?_⟩
  · intro n s ht
    rw [Memory.defn?, hstored, argmax_copies_snoc]
    by_cases hk : e.node.id = n ∧ e.service.id = s
    · obtain ⟨rfl, rfl⟩ := hk
      rw [if_pos ⟨rfl, rfl⟩, if_pos ⟨(h.leads_iff ht).mp hlead, rfl, rfl⟩, Option.map_some,
        hdefn, h.opts]
    · rw [if_neg hk, if_neg fun hall => hk hall.2]
      exact h.defn n s ht
  · intro n s hkeys
    have hk : ¬ (e.node.id = n ∧ e.service.id = s) := fun hk => hkeys e (by simp) ⟨hlead.1, hk⟩
    rw [hstored, if_neg hk]
    exact h.untouched n s fun e' he' => hkeys e' (List.mem_append_left _ he')
  · intro n
    rw [happlied.node, Memory.node?_setMeta, lastNode_snoc, h.node]
    by_cases hn : e.node.id = n <;> simp [hn, hlead.1]
  · intro s node ht
    rw [hev, putFor_snoc, wonBy_snoc, h.puts s node ht, hevnode, hevid]
    refine or_congr_right ⟨fun hk => ⟨?_, hk.2⟩, fun hk => ⟨hput, hk.2⟩⟩
    obtain ⟨-, rfl, rfl⟩ := hk
    exact (h.leads_iff ht).mp hlead
  · rw [hev, List.length_append, List.length_singleton, h.events, happlied.counted]

theorem step (h : Merging m seen p) {clk : Nat → Time} {e : ServiceEntry} {p' : MergePass}
    (hturn : MergeTurn clk p e p') :
    Merging m (seen ++ [e]) p' ∧ (Tracked m e.node.id e.service.id →
      p'.applied = p.applied + if Wins m seen e then 1 else 0) := by
  rcases hturn.outcome with ⟨hvalid, rfl⟩ | ⟨hvalid, rfl, hfull⟩ | ⟨hlead, happlied⟩
  · have hwins : ¬ Wins m seen e := fun hw => hvalid hw.1
    rw [if_neg hwins]
    exact ⟨h.skip rfl (fun _ _ => rfl) (fun _ => hwins) (fun n => by simp [hvalid]) rfl rfl,
      fun _ => rfl⟩
  · -- An entry that is turned away at capacity leads too, but its key is not tracked.
    have hwins : Tracked m e.node.id e.service.id → ¬ Wins m seen e := by
      intro ht hw
      obtain ⟨hnew, hsize⟩ := hfull ((h.leads_iff ht).mpr hw)
      exact h.not_tracked hnew (h.opts ▸ hsize) ht
    refine ⟨h.skip rfl (Memory.service?_setMeta e.node) hwins (fun n => ?_) rfl rfl, fun ht => ?_⟩
    · rw [Memory.node?_setMeta]
      by_cases hn : e.node.id = n <;> simp [hn, hvalid]
    · rw [if_neg (hwins ht)]
      rfl
  · refine ⟨h.apply hlead hturn.opts happlied, fun ht => ?_⟩
    rw [happlied.counted, if_pos ((h.leads_iff ht).mp hlead)]

theorem run (h : Merging m seen p) (clk : Nat → Time) (es : List ServiceEntry) :
    Merging m (seen ++ es) (es.foldl (mergeEntry clk) p) ∧ ((∀ n s, Tracked m n s) →
      (es.foldl (mergeEntry clk) p).applied = p.applied + countWins m seen es) := by
  induction es generalizing seen p with
  | nil => simpa [countWins] using h
  | cons e rest ih =>
    obtain ⟨hstep, hcount⟩ := h.step (mergeEntry_spec clk p e)
    obtain ⟨hrun, hrest⟩ := ih hstep
    rw [List.append_assoc, List.singleton_append] at hrun
    refine ⟨hrun, fun ht => ?_⟩
    rw [List.foldl_cons, hrest ht, hcount (ht _ _), countWins, Nat.add_assoc]

end Merging

/-! ## A second merge -/

/-- Only the attributes of the nodes, as the valid entries bring them. -/
def Memory.retag (m : Memory) (es : List ServiceEntry) : Memory :=
  es.foldl (fun m e => if Valid e then m.setMeta e.node else m) m

theorem merge_of_none_leads (clk : Nat → Time) {es : List ServiceEntry} {p : MergePass}
    (h : ∀ e ∈ es, ¬ Leads p.mem e) :
    es.foldl (mergeEntry clk) p = { p with mem := p.mem.retag es } := by
  induction es generalizing p with
  | nil => rfl
  | cons e rest ih =>
    rw [List.forall_mem_cons] at h
    rw [List.foldl_cons, Memory.retag, List.foldl_cons]
    rcases (mergeEntry_spec clk p e).outcome with ⟨hvalid, heq⟩ | ⟨hvalid, heq, -⟩ | ⟨hlead, -⟩
    · rw [heq, if_neg hvalid]
      exact ih h.2
    · rw [heq, if_pos hvalid]
      refine ih fun e' he' => ?_
      rw [leads_of_service?_eq (Memory.service?_setMeta e.node)]
      exact h.2 e' he'
    · exact absurd hlead h.1

theorem applied_le (clk : Nat → Time) (es : List ServiceEntry) (p : MergePass) :
    p.applied ≤ (es.foldl (mergeEntry clk) p).applied := by
  induction es generalizing p with
  | nil => exact le_rfl
  | cons e rest ih =>
    refine le_trans ?_ (ih (mergeEntry clk p e))
    rcases (mergeEntry_spec clk p e).outcome with ⟨-, heq⟩ | ⟨-, heq, -⟩ | ⟨-, happlied⟩
    · rw [heq]
    · rw [heq]
    · rw [happlied.counted]
      exact Nat.le_succ _

/-- A record no entry leads stays as it is, flags and indexes included. -/
theorem merge_service?_of_not_leads {m : Memory} {es : List ServiceEntry} {n s : String}
    (clk : Nat → Time) (hes : ∀ e ∈ es, e.node.id = n → e.service.id = s → ¬ Leads m e) :
    (m.merge clk es).mem.service? n s = m.service? n s := by
  refine merge_keeps (fun p => p.mem.service? n s = m.service? n s) rfl ?_
  intro p p' e he _ hp hturn
  rcases hturn.outcome with ⟨-, rfl⟩ | ⟨-, rfl, -⟩ | ⟨hlead, happlied⟩
  · exact hp
  · rw [Memory.service?_setMeta]
    exact hp
  · obtain ⟨svc, -, hstored⟩ := happlied.stored
    rw [hstored, if_neg]
    · exact hp
    · rintro ⟨rfl, rfl⟩
      refine hes e he rfl rfl ?_
      simpa only [Leads, Memory.defn?, hp] using hlead

/-- An entry that leads a stored record is applied, or an earlier one is. -/
theorem applied_lt_of_leads (clk : Nat → Time) {es : List ServiceEntry} {p : MergePass}
    (h : ∃ e ∈ es, Leads p.mem e ∧ p.mem.service? e.node.id e.service.id ≠ none) :
    p.applied < (es.foldl (mergeEntry clk) p).applied := by
  induction es generalizing p with
  | nil => simp at h
  | cons e rest ih =>
    rw [List.foldl_cons]
    rcases (mergeEntry_spec clk p e).outcome with ⟨hvalid, heq⟩ | ⟨hvalid, heq, hfull⟩
      | ⟨hlead, happlied⟩
    · rw [heq]
      obtain ⟨e', he', hlead, hstored⟩ := h
      rcases List.mem_cons.mp he' with rfl | he'
      · exact absurd hlead.1 hvalid
      · exact ih ⟨e', he', hlead, hstored⟩
    · rw [heq]
      obtain ⟨e', he', hlead, hstored⟩ := h
      rcases List.mem_cons.mp he' with rfl | he'
      · exact absurd (hfull hlead).1 hstored
      · refine ih (p := { p with mem := p.mem.setMeta e.node }) ⟨e', he', ?_, ?_⟩
        · exact (leads_of_service?_eq (Memory.service?_setMeta e.node) e').mpr hlead
        · rw [Memory.service?_setMeta]
          exact hstored
    · have hmore := applied_le clk rest (mergeEntry clk p e)
      rw [happlied.counted] at hmore
      exact hmore

theorem retag_snoc (m : Memory) (es : List ServiceEntry) (e : ServiceEntry) :
    m.retag (es ++ [e]) = if Valid e then (m.retag es).setMeta e.node else m.retag es := by
  simp [Memory.retag]

theorem retag_nodes (m : Memory) (es : List ServiceEntry) (n : String) :
    (m.retag es).nodes[n]? = match lastNode es n with
      | none => m.nodes[n]?
      | some node => some ⟨node, (m.nodes[n]?.map NodeRec.services).getD ∅⟩ := by
  induction es using List.reverseRecOn with
  | nil => rfl
  | append_singleton es e ih =>
    have hservices : ((m.retag es).nodes[n]?.map NodeRec.services).getD ∅ =
        (m.nodes[n]?.map NodeRec.services).getD ∅ := by
      rw [ih]
      split <;> rfl
    rw [retag_snoc, lastNode_snoc]
    by_cases hvalid : Valid e
    · by_cases hn : e.node.id = n
      · subst hn
        simp [hvalid, Memory.setMeta, hservices]
      · simpa [hvalid, hn, Memory.setMeta, Std.ExtTreeMap.getElem?_insert] using ih
    · simpa [hvalid] using ih

theorem retag_rest (m : Memory) (es : List ServiceEntry) :
    m.retag es = m.withNodes (m.retag es).nodes := by
  induction es using List.reverseRecOn with
  | nil => rfl
  | append_singleton es e ih =>
    rw [retag_snoc]
    split
    · conv_lhs => rw [ih]
      rw [ih]
      rfl
    · exact ih

theorem retag_eq {m : Memory} {es : List ServiceEntry}
    (h : ∀ n node, lastNode es n = some node → m.node? n = some node) : m.retag es = m := by
  have hnodes : (m.retag es).nodes = m.nodes := by
    refine Std.ExtTreeMap.ext_getElem? fun n => ?_
    rw [retag_nodes]
    cases hlast : lastNode es n with
    | none => rfl
    | some node =>
      obtain ⟨r, hr, rfl⟩ := Option.map_eq_some_iff.mp (h n node hlast)
      simp [hr]
  rw [retag_rest, hnodes]
  rfl

/-! ## The merge as a whole -/

/-- The pointwise first maximum under (generation, last seen). -/
structure MergedLWW (m : Memory) (es : List ServiceEntry) (o : Outcome Nat) : Prop where
  first_max : ∀ n s d, n ≠ "" → s ≠ "" → (o.mem.defn? n s = some d ↔
    FirstMax ServiceInstance.rank ((m.defn? n s).toList ++
      (es.filter fun e => e.node.id = n ∧ e.service.id = s).map fun e => clamped m.opts e.service) d)
  untouched : ∀ n s, (∀ e ∈ es, ¬ (e.node.id = n ∧ e.service.id = s)) →
    o.mem.service? n s = m.service? n s
  not_lower : ∀ n s d, m.defn? n s = some d → ∃ d', o.mem.defn? n s = some d' ∧ d.rank ≤ d'.rank
  count : o.ret = countWins m [] es
  again : ∀ clk, (o.mem.merge clk es).ret = 0 ∧ (o.mem.merge clk es).events = [] ∧
    (o.mem.merge clk es).mem = o.mem

/-- The stored definitions are those the read path picks, with their TTL clamped. -/
def SameAsRead (es : List ServiceEntry) (m : Memory) : Prop :=
  ∀ n s d, m.defn? n s = some d ↔
    ∃ e ∈ Health.mergeLWW es, e.node.id = n ∧ e.service.id = s ∧ d = clamped m.opts e.service

theorem offers_of_named (o : Options) (es : List ServiceEntry) {n s : String} (hn : n ≠ "")
    (hs : s ≠ "") :
    offers o es n s =
      (es.filter fun e => e.node.id = n ∧ e.service.id = s).map fun e => clamped o e.service := by
  unfold offers
  congr 2
  funext e
  rw [decide_eq_decide]
  refine ⟨fun h => h.2, fun h => ⟨⟨?_, ?_⟩, h⟩⟩
  · rw [h.1]
    exact hn
  · rw [h.2]
    exact hs

theorem filter_valid_versions (es : List ServiceEntry) (n s : String) :
    versions ServiceEntry.key (es.filter Valid) (toLex (n, s)) =
      es.filter fun e => Valid e ∧ e.node.id = n ∧ e.service.id = s := by
  rw [versions, List.filter_filter]
  congr 1
  funext e
  have hkey : e.key = toLex (n, s) ↔ e.node.id = n ∧ e.service.id = s := by
    rw [ServiceEntry.key, toLex_inj, Prod.mk.injEq]
  simp [hkey, and_comm]

section Whole

variable {m : Memory} {es : List ServiceEntry} {clk : Nat → Time}

theorem merge_merging (m : Memory) (clk : Nat → Time) (es : List ServiceEntry) :
    Merging m es (es.foldl (mergeEntry clk) ⟨⟨m, m.sizeLocked, []⟩, 0⟩) ∧
      ((∀ n s, Tracked m n s) → (m.merge clk es).ret = countWins m [] es) := by
  have hrun := (Merging.start m).run clk es
  rw [List.nil_append, Nat.zero_add] at hrun
  exact hrun

theorem Merging.none_leads {p : MergePass} (h : Merging m es p) (ht : ∀ n s, Tracked m n s) :
    ∀ e ∈ es, ¬ Leads p.mem e := by
  intro e he hlead
  have hwins := ((h.leads_iff (ht _ _)).mp hlead).2 (clamped m.opts e.service) (by
    refine List.mem_append_right _ (List.mem_map.mpr ⟨e, List.mem_filter.mpr ⟨he, ?_⟩, rfl⟩)
    simpa using hlead.1)
  exact lt_irrefl _ hwins

theorem Merging.again {p : MergePass} (h : Merging m es p) (ht : ∀ n s, Tracked m n s)
    (clk : Nat → Time) :
    (p.mem.merge clk es).ret = 0 ∧ (p.mem.merge clk es).events = [] ∧
      (p.mem.merge clk es).mem = p.mem := by
  have hnone := merge_of_none_leads clk (p := ⟨⟨p.mem, p.mem.sizeLocked, []⟩, 0⟩) (h.none_leads ht)
  have hretag : p.mem.retag es = p.mem := retag_eq fun n node hlast => by
    rw [h.node, hlast]
    rfl
  unfold Memory.merge
  rw [hnone]
  exact ⟨rfl, rfl, hretag⟩

theorem merge_mergedLWW (hroom : ∀ size, m.opts.atCapacity size = false) (clk : Nat → Time)
    (es : List ServiceEntry) : MergedLWW m es (m.merge clk es) := by
  obtain ⟨h, hcount⟩ := merge_merging m clk es
  have ht : ∀ n s, Tracked m n s := fun _ _ _ => hroom
  refine ⟨?_, ?_, ?_, hcount ht, h.again ht⟩
  · intro n s d hn hs
    rw [← offers_of_named m.opts es hn hs, ← argmax_eq_some_iff]
    exact (congrArg (· = some d) (h.defn n s (ht n s))).to_iff
  · intro n s hkeys
    exact h.untouched n s fun e he hk => hkeys e he hk.2
  · intro n s d hd
    have hmem : d ∈ copies m es n s := by simp [copies, hd]
    obtain ⟨w, hw⟩ := exists_firstMax ServiceInstance.rank _ (List.ne_nil_of_mem hmem)
    exact ⟨w, (h.defn n s (ht n s)).trans hw.argmax, hw.le d hmem⟩

theorem merge_sameAsRead (hroom : ∀ size, m.opts.atCapacity size = false) (hempty : m.nodes = ∅)
    (clk : Nat → Time) (es : List ServiceEntry) :
    SameAsRead (es.filter Valid) (m.merge clk es).mem := by
  intro n s d
  obtain ⟨h, -⟩ := merge_merging m clk es
  have ht : ∀ n s, Tracked m n s := fun _ _ _ => hroom
  have hopts : (m.merge clk es).mem.opts = m.opts := h.opts
  have hlocal : m.defn? n s = none := by simp [Memory.defn?, Memory.service?, hempty]
  have hdefn : (m.merge clk es).mem.defn? n s =
      ((versions ServiceEntry.key (es.filter Valid) (toLex (n, s))).argmax Health.rank).map
        fun e => clamped m.opts e.service := by
    refine (h.defn n s (ht n s)).trans ?_
    rw [copies, hlocal, Option.toList_none, List.nil_append, offers, argmax_map,
      ← filter_valid_versions]
    rfl
  rw [hdefn, Option.map_eq_some_iff, hopts]
  constructor
  · rintro ⟨e, he, rfl⟩
    rw [argmax_eq_some_iff] at he
    have hkey := ((mem_versions ServiceEntry.key _ _ e).mp he.mem).2
    refine ⟨e, (Health.mem_mergeLWW _ e).mpr (by rw [Health.Freshest, hkey]; exact he), ?_, ?_, rfl⟩
    · exact congrArg (fun k => (ofLex k).1) hkey
    · exact congrArg (fun k => (ofLex k).2) hkey
  · rintro ⟨e, he, rfl, rfl, rfl⟩
    exact ⟨e, ((Health.mem_mergeLWW _ e).mp he).argmax, rfl⟩

end Whole

/-- With no limit on the number of services, Merge is the pointwise last-writer-wins maximum, and
into an empty store it agrees with the read path on the entries that have both ids. -/
theorem merge_pointwise_lww (opts : Options) (calls : List Call) (clk : Nat → Time)
    (es : List ServiceEntry) :
    let start := newMemory { opts with maxServices := 0 }
    let m := (start.run calls).1
    MergedLWW m es (m.merge clk es) ∧ SameAsRead (es.filter Valid) (start.merge clk es).mem := by
  intro start m
  have hstart : ∀ size, start.opts.atCapacity size = false := by
    intro size
    simp only [start, newMemory]
    split <;> rfl
  have hopts : m.opts = start.opts := steps_opts (run_steps calls start)
  refine ⟨merge_mergedLWW (fun size => by rw [hopts]; exact hstart size) clk es, ?_⟩
  exact merge_sameAsRead hstart rfl clk es

/-- The read path keeps an entry without a node id, which Merge skips. -/
theorem merge_differs_from_read :
    ¬ ∀ (opts : Options) (clk : Nat → Time) (es : List ServiceEntry),
      SameAsRead es ((newMemory { opts with maxServices := 0 }).merge clk es).mem := by
  intro h
  let e : ServiceEntry :=
    { node := { id := "" }, service := { id := "s", name := "s" }, health := .passing }
  have hread : e ∈ Health.mergeLWW [e] := by decide
  have hstored := (h {} (fun _ => 0) [e] "" "s" _).mpr ⟨e, hread, rfl, rfl, rfl⟩
  rw [Memory.defn?, Option.map_eq_some_iff] at hstored
  obtain ⟨svc, hsvc, -⟩ := hstored
  have hnone :
      ((newMemory { ({} : Options) with maxServices := 0 }).merge (fun _ => 0) [e]).mem.service?
      "" "s" = none := by decide
  rw [hnone] at hsvc
  cases hsvc

end YellowPages.Store
