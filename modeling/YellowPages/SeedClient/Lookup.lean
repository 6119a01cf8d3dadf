import YellowPages.Server.Service
import YellowPages.Store.Names

/-!
# Reading from all seeds

`SeedClient.Lookup` asks every seed and merges what they answer. The answers come in the order
the seeds happen to reply in.
-/

namespace YellowPages.SeedClient

open Lib Store Wire

/-! ## The client -/

structure Answer where
  addr : String
  reply : Except String PbLookupResponse

structure Gathered where
  all : List ServiceEntry := []
  maxIndex : Nat := 0
  okCount : Nat := 0
  errs : List String := []

def gather (g : Gathered) (a : Answer) : Gathered :=
  match a.reply with
  | .error err => { g with errs := g.errs ++ [a.addr ++ ": " ++ err] }
  | .ok resp =>
    let lr := lookupResultFromProto resp
    { g with
      okCount := g.okCount + 1
      all := g.all ++ lr.entries
      maxIndex := if lr.index > g.maxIndex then lr.index else g.maxIndex }

/-- `%w` of `errors.Join`, which is nil for no errors. -/
def joinErrors (errs : List String) : String :=
  if errs.isEmpty then "%!w(<nil>)" else "\n".intercalate errs

/-- `answers` are in order of arrival. -/
def lookup (answers : List Answer) : Except String LookupResult :=
  let g := answers.foldl gather {}
  if g.okCount = 0 then .error ("seedclient: lookup failed on all seeds: " ++ joinErrors g.errs)
  else .ok { entries := Health.mergeLWW g.all, index := g.maxIndex }

/-! ## What is gathered -/

def received (a : Answer) : List ServiceEntry :=
  match a.reply with
  | .error _ => []
  | .ok resp => (lookupResultFromProto resp).entries

def answered (a : Answer) : Bool := a.reply.isOk

theorem gather_spec (g : Gathered) (a : Answer) :
    (gather g a).all = g.all ++ received a ∧
      (gather g a).okCount = g.okCount + if answered a then 1 else 0 := by
  unfold gather received answered
  cases a.reply <;> simp [Except.isOk, Except.toBool]

theorem gather_loop (answers : List Answer) (g : Gathered) :
    (answers.foldl gather g).all = g.all ++ answers.flatMap received ∧
      (answers.foldl gather g).okCount = g.okCount + answers.countP answered := by
  induction answers generalizing g with
  | nil => simp
  | cons a rest ih =>
    obtain ⟨hall, hcount⟩ := gather_spec g a
    obtain ⟨ihall, ihcount⟩ := ih (gather g a)
    rw [List.foldl_cons, ihall, ihcount, hall, hcount, List.countP_cons, List.flatMap_cons]
    exact ⟨by simp, by omega⟩

/-- One answer is enough, and the merge then sees every entry that arrived. -/
theorem lookup_entries (answers : List Answer) :
    (lookup answers).toOption.map LookupResult.entries =
      if answers.countP answered = 0 then none
      else some (Health.mergeLWW (answers.flatMap received)) := by
  obtain ⟨hall, hcount⟩ := gather_loop answers {}
  rw [List.nil_append] at hall
  rw [Nat.zero_add] at hcount
  simp only [lookup, hall, hcount]
  split <;> rfl

theorem lookup_ok (answers : List Answer) (h : ∃ a ∈ answers, answered a = true) :
    ∃ lr, lookup answers = .ok lr ∧ lr.entries = Health.mergeLWW (answers.flatMap received) := by
  have hentries := lookup_entries answers
  rw [if_neg (by simpa [List.countP_eq_zero] using h)] at hentries
  cases hlookup : lookup answers with
  | error err => rw [hlookup] at hentries; cases hentries
  | ok lr =>
    rw [hlookup] at hentries
    exact ⟨lr, rfl, Option.some.inj hentries⟩

/-! ## The order of the answers -/

theorem received_of_unanswered (answers : List Answer) (h : answers.countP answered = 0) :
    answers.flatMap received = [] := by
  rw [List.flatMap_eq_nil_iff]
  intro a ha
  have hno := List.countP_eq_zero.mp h a ha
  unfold answered at hno
  unfold received
  cases hr : a.reply with
  | error err => rfl
  | ok resp => rw [hr] at hno; simp [Except.isOk, Except.toBool] at hno

/-- The merge depends on the order of its input exactly if an instance has different versions
that tie for the highest generation and `lastSeen`. The same goes for a lookup and the order in
which the seeds, each with its own instances listed once, answer. -/
theorem merge_order_independent_iff (entries : List ServiceEntry) (answers : List Answer)
    (hdistinct : ∀ a ∈ answers, ((received a).map ServiceEntry.key).Nodup) :
    ((∀ entries' : List ServiceEntry, entries'.Perm entries →
        Health.mergeLWW entries' = Health.mergeLWW entries) ↔
      Agree ServiceEntry.key Health.rank entries) ∧
    ((∀ answers' : List Answer, answers'.Perm answers →
        (lookup answers').toOption.map LookupResult.entries =
          (lookup answers).toOption.map LookupResult.entries) ↔
      Agree ServiceEntry.key Health.rank (answers.flatMap received)) := by
  refine ⟨mergeBy_perm_iff Health.winsLWW_rank entries, ?_⟩
  rw [← mergeBy_flatMap_perm_iff Health.winsLWW_rank received answers hdistinct]
  refine forall_congr' fun answers' => imp_congr_right fun hperm => ?_
  rw [lookup_entries, lookup_entries, hperm.countP_eq]
  split <;> rename_i hnone
  · have hnone' : answers'.countP answered = 0 := by rw [hperm.countP_eq]; exact hnone
    rw [received_of_unanswered answers hnone, received_of_unanswered answers' hnone']
    simp
  · rw [Option.some_inj]
    rfl

def soleAnswer (e : ServiceEntry) : Answer :=
  { addr := "seed", reply := .ok { entries := [entryToProto e], index := 1 } }

/-- One seed has an older version, and the two can answer in any order. -/
theorem merge_order_of_copies :
    let web (generation : Nat) : ServiceInstance :=
      { id := "web", name := "web", generation, lastSeen := 7 }
    let e (generation : Nat) : ServiceEntry :=
      { node := { id := "n" }, service := web generation, health := .passing }
    Health.mergeLWW [e 1, e 2] = [e 2] ∧
      ∀ answers' : List Answer, answers'.Perm [soleAnswer (e 1), soleAnswer (e 2)] →
        (lookup answers').toOption.map LookupResult.entries = some [e 2] := by
  intro web e
  have hreceived : [soleAnswer (e 1), soleAnswer (e 2)].flatMap received = [e 1, e 2] := by decide
  have hagree :
      Agree ServiceEntry.key Health.rank ([soleAnswer (e 1), soleAnswer (e 2)].flatMap received) := by
    have htop : ∀ a, Top ServiceEntry.key Health.rank [e 1, e 2] a → a = e 2 := by
      rintro a ⟨ha, hle⟩
      rcases List.mem_pair.mp ha with rfl | rfl
      · exact absurd (hle (e 2) (by simp) rfl) (by decide)
      · rfl
    rw [hreceived]
    intro a b ha hb _
    rw [htop a ha, htop b hb]
  have h := merge_order_independent_iff [e 1, e 2] [soleAnswer (e 1), soleAnswer (e 2)] (by decide)
  refine ⟨by decide, fun answers' hperm => ?_⟩
  rw [h.2.mpr hagree answers' hperm]
  decide

/-- Anti-entropy copies `lastSeen`, so two seeds can tie and still differ: here one of them has
marked the service failed. Whoever answers first is believed. -/
theorem tie_depends_on_order :
    let web : ServiceInstance := { id := "web", name := "web", generation := 1, lastSeen := 7 }
    let up : ServiceEntry := { node := { id := "n" }, service := web, health := .passing }
    let down : ServiceEntry := { node := { id := "n" }, service := web, health := .critical }
    Health.mergeLWW [up, down] = [up] ∧ Health.mergeLWW [down, up] = [down] ∧
      (lookup [soleAnswer up, soleAnswer down]).toOption.map LookupResult.entries = some [up] ∧
      (lookup [soleAnswer down, soleAnswer up]).toOption.map LookupResult.entries = some [down] := by
  decide

/-! ## Filters on the seeds -/

def answer (addr : String) (m : Memory) (now : Time) (q : Query) : Answer :=
  { addr := addr, reply := .ok (Server.lookup m now (some (queryToProto q))) }

/-- A seed that answers: a registry that calls led to, and its clock when it answers. -/
structure Seed where
  addr : String := "seed"
  registry : Memory
  now : Time
  reachable : Reachable registry

def Seed.answer (s : Seed) (q : Query) : Answer := SeedClient.answer s.addr s.registry s.now q

def readAll (seeds : List Seed) (q : Query) : Except String LookupResult :=
  lookup (seeds.map (·.answer q))

def contents (seeds : List Seed) : List ServiceEntry := seeds.flatMap fun s => received (s.answer {})

/-- The filter a seed applies before it answers. -/
def passes (q : Query) (e : ServiceEntry) : Bool :=
  decide (Selects q e) && (!q.onlyHealthy || Health.visible e { onlyPassing := true })

theorem passes_overWire (q : Query) (e : ServiceEntry) : passes q (overWire e) = passes q e := by
  rw [overWire_eq]
  rfl

theorem received_eq (addr : String) (m : Memory) (now : Time) (q : Query) :
    received (answer addr m now q) =
      (if q.onlyHealthy then Health.filter (m.lookup now q).entries { onlyPassing := true }
        else (m.lookup now q).entries).map overWire := by
  simp only [received, answer, Server.lookup, lookupResult_overWire]
  rfl

/-- Whatever a seed answers is stored there. -/
theorem mem_received {addr : String} {m : Memory} {now : Time} {q : Query} {e : ServiceEntry}
    (h : Filed m) (he : e ∈ received (answer addr m now q)) :
    ∃ svc ttl, m.service? e.node.id e.service.id = some svc ∧ e.service =
      { svc.defn with ttl := ttl, lastSeen := fromUnixNano (toUnixNano svc.defn.lastSeen) } := by
  rw [received_eq] at he
  obtain ⟨e', hmem, rfl⟩ := List.mem_map.mp he
  have hlookup : e' ∈ (m.lookup now q).entries := by
    split at hmem
    · exact List.mem_of_mem_filter hmem
    · exact hmem
  obtain ⟨n, r, s, svc, hr, hs, -, -, -, -, rfl⟩ := (mem_lookup now q h e').mp hlookup
  have hstored : m.service? n s = some svc := by rw [Memory.service?_of_node hr]; exact hs
  have hn : r.nodeMeta.id = n := h.node_id n r.nodeMeta (Memory.node?_of_node hr)
  rw [overWire_eq]
  refine ⟨svc, _, ?_, rfl⟩
  simp only [entry, hn, h.service_id n s svc hstored]
  exact hstored

theorem filter_overWire (q : Query) (entries : List ServiceEntry) :
    (entries.map overWire).filter (passes q) = (entries.filter (passes q)).map overWire := by
  have hcomp : passes q ∘ overWire = passes q := by
    funext e
    exact passes_overWire q e
  rw [List.filter_map, hcomp]

theorem received_answer (s : Seed) (q : Query) :
    received (s.answer q) = (received (s.answer {})).filter (passes q) := by
  have hfull : received (s.answer {}) = (s.registry.lookup s.now {}).entries.map overWire :=
    received_eq s.addr s.registry s.now {}
  rw [Seed.answer, received_eq, hfull, filter_overWire, lookup_eq_filter s.now q s.reachable.filed]
  congr 1
  split <;> rename_i hq
  · rw [Health.filter, List.filter_filter]
    congr 1
    funext e
    simp [passes, hq, Bool.and_comm]
  · congr 1
    funext e
    simp [passes, hq]

theorem readAll_entries (seeds : List Seed) (q : Query) :
    (readAll seeds q).toOption.map LookupResult.entries =
      if seeds = [] then none else some (Health.mergeLWW ((contents seeds).filter (passes q))) := by
  have hall : (seeds.map (·.answer q)).flatMap received = (contents seeds).filter (passes q) := by
    rw [contents, List.filter_flatMap, List.flatMap_map]
    congr 1
    funext s
    exact received_answer s q
  have hcount : (seeds.map (·.answer q)).countP answered = seeds.length := by
    rw [List.countP_map]
    exact List.countP_eq_length.mpr fun s _ => rfl
  rw [readAll, lookup_entries, hall, hcount]
  simp only [List.length_eq_zero_iff]

/-- The seeds filter before the client merges. That gives the filtered merge of everything they
hold exactly if, for each instance, the freshest version passes the seeds' filter as soon as it
is selected by the query or some seed holds a version that passes. -/
theorem filter_commutes_iff (seeds : List Seed) (q : Query) :
    (readAll seeds q).toOption.map LookupResult.entries =
        (readAll seeds {}).toOption.map (fun full => full.entries.filter (Selects q ·)) ↔
      ∀ w, Health.Freshest (contents seeds) w →
        (Selects q w ∨ ∃ e ∈ contents seeds, e.key = w.key ∧ passes q e) → passes q w := by
  have hfull : (readAll seeds {}).toOption.map (fun full => full.entries.filter (Selects q ·)) =
      ((readAll seeds {}).toOption.map LookupResult.entries).map (·.filter (Selects q ·)) := by
    rw [Option.map_map]; rfl
  have hnofilter : (contents seeds).filter (passes {}) = contents seeds := by
    rw [List.filter_eq_self]
    intro e _
    simp [passes, Selects]
  have hiff : Health.mergeLWW ((contents seeds).filter (passes q)) =
      (Health.mergeLWW (contents seeds)).filter (Selects q ·) ↔ _ :=
    mergeBy_filter_iff Health.winsLWW_rank (contents seeds) (passes q) (Selects q ·) (by
      intro e he
      exact (Bool.and_eq_true_iff.mp he).1)
  rw [hfull, readAll_entries, readAll_entries, hnofilter]
  split <;> rename_i hnil
  · simp only [Option.map_none, true_iff]
    intro w hw
    exact absurd hw.mem (by simp [contents, hnil, versions])
  · rw [Option.map_some, Option.some_inj]
    simpa only [decide_eq_true_eq, Health.Freshest] using hiff

/-- A seed after one registration of service `s` of node `n`. -/
def seedWith (name : String) (generation : Nat) : Seed where
  registry :=
    let web : ServiceInstance := { id := "s", name := name, ttl := 30 * second }
    ((newMemory {}).run [.register (fun _ => 0)
      { node := { id := "n" }, services := [web], generation := generation }]).1
  now := second
  reachable := ⟨_, _, rfl⟩

/-- The service is renamed, and one seed misses it. A lookup of the old name finds the instance
there, although the merge of all contents has only the new name. -/
theorem stale_match_returned :
    let seeds := [seedWith "web" 1, seedWith "api" 2]
    ((readAll seeds { name := "web" }).toOption.map fun lr =>
        lr.entries.map fun e => (e.service.name, e.service.generation)) = some [("web", 1)] ∧
      ((readAll seeds {}).toOption.map fun lr =>
        lr.entries.map fun e => (e.service.name, e.service.generation)) = some [("api", 2)] ∧
      (readAll seeds { name := "web" }).toOption.map LookupResult.entries ≠
        (readAll seeds {}).toOption.map
          (fun full => full.entries.filter (Selects { name := "web" } ·)) := by
  decide

end YellowPages.SeedClient
