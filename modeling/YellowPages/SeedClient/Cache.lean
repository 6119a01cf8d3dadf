import YellowPages.Health
import YellowPages.Lib.Join
import YellowPages.Lib.Trace

/-!
# The read cache of an agent

`internal/seedclient/cache.go`. A slot holds the merged answer to the query that filled it, and
the background refresh repeats that query.
-/

namespace YellowPages.SeedClient

open Lib

/-! ## The cache -/

structure CacheKey where
  name : String
  dc : String
  tags : String
  deriving DecidableEq

instance : Ord CacheKey :=
  ⟨compareLex (compareOn CacheKey.name)
    (compareLex (compareOn CacheKey.dc) (compareOn CacheKey.tags))⟩

instance : Std.TransOrd CacheKey :=
  inferInstanceAs (Std.TransCmp (compareLex (compareOn CacheKey.name)
    (compareLex (compareOn CacheKey.dc) (compareOn CacheKey.tags))))

instance : Std.LawfulEqOrd CacheKey where
  eq_of_compare {a b} h := by
    obtain ⟨h1, h2⟩ := Ordering.then_eq_eq.mp h
    obtain ⟨h2, h3⟩ := Ordering.then_eq_eq.mp h2
    cases a; cases b
    simp_all [compareOn]

def keyFor (q : Query) : CacheKey :=
  { name := q.name, dc := q.datacenter, tags := "\x00".intercalate q.tags }

structure CacheEntry where
  query : Query
  /-- The full merged set, before the health filter. -/
  merged : List ServiceEntry
  index : Nat
  fetchedAt : Time
  deriving DecidableEq

structure Cache where
  maxAge : Duration
  entries : Std.ExtTreeMap CacheKey CacheEntry := ∅

def newCache (maxAge : Duration) : Cache := { maxAge := if maxAge ≤ 0 then 5 * second else maxAge }

/-- `SeedClient.Lookup` at one moment: what the seeds make of a query. -/
abbrev Client := Query → Except String LookupResult

def endpointChanged (a b : ServiceEntry) : Bool :=
  a.service.address ≠ b.service.address ∨ a.service.port ≠ b.service.port ∨
    a.service.generation ≠ b.service.generation ∨ a.health ≠ b.health

def changed (prev : Option CacheEntry) (cur : CacheEntry) : Bool :=
  match prev with
  | none => cur.merged.length > 0
  | some prev =>
    if prev.merged.length ≠ cur.merged.length then true
    else (prev.merged.zip cur.merged).any fun (a, b) =>
      a.node.id ≠ b.node.id ∨ a.service.id ≠ b.service.id ∨ endpointChanged a b

/-- A successful fetch: the cache after it, the new entry, the fan-out behind it and the names
handed to `onChange`. -/
structure Fetched where
  cache : Cache
  entry : CacheEntry
  asked : Query
  answer : LookupResult
  notified : List String

/-- The query that goes to the seeds. Health is filtered on each read, after the merge. -/
def raw (q : Query) : Query := { q with onlyHealthy := false }

def Cache.fetch (c : Cache) (client : Client) (now : Time) (q : Query) : Except String Fetched :=
  match client (raw q) with
  | .error err => .error err
  | .ok lr =>
    let entry := { query := q, merged := lr.entries, index := lr.index, fetchedAt := now }
    let prev := c.entries[keyFor q]?
    .ok {
      cache := { c with entries := c.entries.insert (keyFor q) entry }
      entry := entry
      asked := raw q
      answer := lr
      notified := if changed prev entry then [q.name] else [] }

/-- The entry `LookupWithAge` works with, or why there is none. -/
inductive Pick where
  | cached (e : CacheEntry)
  | fetched (f : Fetched)
  | failed (err : String)
  | crashed

def Cache.pick (c : Cache) (client : Client) (clk : Nat → Time) (q : Query) : Pick :=
  let e := c.entries[keyFor q]?
  match e.filter fun e => timeSub (clk 0) e.fetchedAt < c.maxAge with
  | some e => .cached e
  | none =>
    match c.fetch client (clk 1) q with
    | .ok f => .fetched f
    | .error err =>
      -- The failed fetch has set `e` to nil, and a stale entry is "served" through that nil.
      if e.isSome then .crashed else .failed err

inductive Served where
  | ok (result : LookupResult) (age : Duration)
  | failed (err : String)
  | crashed

def serve (e : CacheEntry) (now : Time) (q : Query) : Served :=
  let entries := if q.onlyHealthy then Health.filter e.merged { onlyPassing := true } else e.merged
  .ok { entries := entries, index := e.index } (timeSub now e.fetchedAt)

def Cache.lookupWithAge (c : Cache) (client : Client) (clk : Nat → Time) (q : Query) :
    Cache × Served :=
  match c.pick client clk q with
  | .cached e => (c, serve e (clk 2) q)
  | .fetched f => (f.cache, serve f.entry (clk 2) q)
  | .failed err => (c, .failed err)
  | .crashed => (c, .crashed)

/-- The loop of `Refresh`, with the fetches that succeeded. A failed one is only logged. -/
def Cache.refreshLoop (client : Nat → Client) (clk : Nat → Time) :
    List (Query × Nat) → Cache → Cache × List Fetched
  | [], c => (c, [])
  | (q, k) :: rest, c =>
    match c.fetch (client k) (clk k) q with
    | .error _ => refreshLoop client clk rest c
    | .ok f =>
      let (c, fs) := refreshLoop client clk rest f.cache
      (c, f :: fs)

def Cache.refresh (c : Cache) (order : RangeOrder CacheKey) (client : Nat → Client)
    (clk : Nat → Time) :
    Cache × List Fetched :=
  let queries := (order.visit c.entries.keys).filterMap fun k => c.entries[k]?.map CacheEntry.query
  refreshLoop client clk queries.zipIdx c

/-! ## Runs -/

inductive CacheCall where
  | lookupWithAge (client : Client) (clk : Nat → Time) (q : Query)
  | refresh (order : RangeOrder CacheKey) (client : Nat → Client) (clk : Nat → Time)

/-- The cache a call leaves, and the fan-outs it made. -/
def CacheCall.exec (c : Cache) : CacheCall → Cache × List Fetched
  | .lookupWithAge client clk q =>
    match c.pick client clk q with
    | .fetched f => (f.cache, [f])
    | _ => (c, [])
  | .refresh order client clk => c.refresh order client clk

def Cache.run (c : Cache) : List CacheCall → Cache × List Fetched
  | [] => (c, [])
  | call :: rest =>
    let (c, fs) := call.exec c
    let (c, fs') := c.run rest
    (c, fs ++ fs')

def CacheCall.Within (S : Query → Prop) : CacheCall → Prop
  | .lookupWithAge _ _ q => S q
  | .refresh .. => True

/-! ## Slots -/

/-- The pieces of a tag list between NUL characters. -/
def tagPieces (tags : List String) : List (List Char) := pieces '\x00' (tags.map String.toList)

theorem keyFor_eq_iff (q q' : Query) : keyFor q = keyFor q' ↔
    q.name = q'.name ∧ q.datacenter = q'.datacenter ∧ tagPieces q.tags = tagPieces q'.tags := by
  have htags : ("\x00".intercalate q.tags = "\x00".intercalate q'.tags) ↔
      tagPieces q.tags = tagPieces q'.tags := by
    rw [← String.toList_inj, String.toList_intercalate, String.toList_intercalate]
    exact join_eq_iff '\x00' _ _
  simp only [keyFor, CacheKey.mk.injEq, htags]

/-- Tags without a NUL collide in one way only: a lone empty tag looks like no tags. -/
theorem tags_eq_of_pieces_eq (tags tags' : List String) (h : ∀ t ∈ tags, '\x00' ∉ t.toList)
    (h' : ∀ t ∈ tags', '\x00' ∉ t.toList) (hne : tags ≠ [""]) (hne' : tags' ≠ [""])
    (hp : tagPieces tags = tagPieces tags') : tags = tags' := by
  have hself : ∀ ts : List String, ts ≠ [] → (∀ t ∈ ts, '\x00' ∉ t.toList) →
      tagPieces ts = ts.map String.toList := by
    intro ts hts hclean
    exact pieces_of_not_mem _ _ (by simpa using hts) (by simpa using hclean)
  have hlone : ∀ ts : List String, ts.map String.toList = [[]] → ts = [""] := by
    intro ts hts
    obtain ⟨t, ht, htl⟩ := List.map_eq_singleton_iff.mp hts
    rw [ht, ← String.toList_inj.mp (htl.trans (by rfl : [] = "".toList))]
  have hmap : Function.Injective (List.map String.toList) :=
    List.map_injective_iff.mpr fun a b hab => String.toList_inj.mp hab
  by_cases hn : tags = [] <;> by_cases hn' : tags' = []
  · rw [hn, hn']
  · rw [hn, hself tags' hn' h'] at hp
    exact absurd (hlone tags' hp.symm) hne'
  · rw [hn', hself tags hn h] at hp
    exact absurd (hlone tags hp) hne
  · rw [hself tags hn h, hself tags' hn' h'] at hp
    exact hmap hp

/-! ## Where a slot comes from -/

def FetchStep (S : Query → Prop) (c : Cache) (out : List Fetched) (c' : Cache) : Prop :=
  ∃ client now q f, S q ∧ c.fetch client now q = .ok f ∧ out = [f] ∧ c' = f.cache

theorem fetch_ok {c : Cache} {client : Client} {now : Time} {q : Query} {f : Fetched}
    (h : c.fetch client now q = .ok f) :
    f.cache.entries = c.entries.insert (keyFor q) f.entry ∧ f.cache.maxAge = c.maxAge ∧
      f.entry.query = q ∧ f.asked = raw q ∧ f.entry.merged = f.answer.entries := by
  unfold Cache.fetch at h
  split at h
  · cases h
  · obtain rfl := Except.ok.inj h
    exact ⟨rfl, rfl, rfl, rfl, rfl⟩

/-- Each slot was filled by a fetch of the log, for a query of `S` that has the slot's key. -/
structure Sourced (S : Query → Prop) (log : List Fetched) (c : Cache) : Prop where
  slot : ∀ k e, c.entries[k]? = some e → keyFor e.query = k ∧ S e.query ∧ ∃ f ∈ log, f.entry = e
  fanOut : ∀ f ∈ log, f.asked = raw f.entry.query ∧ f.entry.merged = f.answer.entries

theorem Sourced.newCache (S : Query → Prop) (maxAge : Duration) : Sourced S [] (newCache maxAge) where
  slot := by intro k e h; simp [SeedClient.newCache] at h
  fanOut := by simp

theorem Sourced.fetch {S : Query → Prop} {log out : List Fetched} {c c' : Cache}
    (h : Sourced S log c) (hstep : FetchStep S c out c') : Sourced S (log ++ out) c' := by
  obtain ⟨client, now, q, f, hq, hf, rfl, rfl⟩ := hstep
  obtain ⟨hentries, -, hquery, hasked, hmerged⟩ := fetch_ok hf
  refine ⟨?_, ?_⟩
  · intro k e he
    rw [hentries, Std.ExtTreeMap.getElem?_insert] at he
    split at he <;> rename_i hk
    · obtain rfl := Option.some.inj he
      rw [hquery]
      exact ⟨Std.compare_eq_iff_eq.mp hk, hq, f, by simp, rfl⟩
    · obtain ⟨hkey, hS, g, hg, hge⟩ := h.slot k e he
      exact ⟨hkey, hS, g, List.mem_append_left _ hg, hge⟩
  · intro g hg
    rcases List.mem_append.mp hg with hg | hg
    · exact h.fanOut g hg
    · obtain rfl := List.mem_singleton.mp hg
      exact ⟨by rw [hquery, hasked], hmerged⟩

/-! ## Calls are made of fetches -/

theorem refreshLoop_steps {S : Query → Prop} (client : Nat → Client) (clk : Nat → Time)
    (qs : List (Query × Nat)) (c : Cache) (hqs : ∀ p ∈ qs, S p.1) :
    Steps (FetchStep S) c (Cache.refreshLoop client clk qs c).2
      (Cache.refreshLoop client clk qs c).1 := by
  induction qs generalizing c with
  | nil => exact Steps.refl c
  | cons p rest ih =>
    obtain ⟨q, k⟩ := p
    have hrest : ∀ p ∈ rest, S p.1 := fun p hp => hqs p (List.mem_cons_of_mem _ hp)
    unfold Cache.refreshLoop
    split
    · exact ih c hrest
    · rename_i f hf
      have hstep : FetchStep S c [f] f.cache :=
        ⟨client k, clk k, q, f, hqs (q, k) List.mem_cons_self, hf, rfl, rfl⟩
      exact (Steps.single hstep).trans (ih f.cache hrest)

theorem pick_cached {c : Cache} {client : Client} {clk : Nat → Time} {q : Query} {e : CacheEntry}
    (h : c.pick client clk q = .cached e) : c.entries[keyFor q]? = some e := by
  unfold Cache.pick at h
  dsimp only at h
  split at h
  · rename_i e' he'
    obtain rfl := Pick.cached.inj h
    exact (Option.filter_eq_some_iff.mp he').1
  · split at h
    · cases h
    · split at h <;> cases h

theorem pick_fetched {c : Cache} {client : Client} {clk : Nat → Time} {q : Query} {f : Fetched}
    (h : c.pick client clk q = .fetched f) : c.fetch client (clk 1) q = .ok f := by
  unfold Cache.pick at h
  dsimp only at h
  split at h
  · cases h
  · split at h
    · rename_i f' hf'
      obtain rfl := Pick.fetched.inj h
      exact hf'
    · split at h <;> cases h

theorem pick_of_fresh {c : Cache} {client : Client} {clk : Nat → Time} {q : Query} {e : CacheEntry}
    (he : c.entries[keyFor q]? = some e) (hfresh : timeSub (clk 0) e.fetchedAt < c.maxAge) :
    c.pick client clk q = .cached e := by
  unfold Cache.pick
  dsimp only
  rw [he, Option.filter_some, if_pos (decide_eq_true hfresh)]

theorem pick_of_absent {c : Cache} {client : Client} {clk : Nat → Time} {q : Query} {f : Fetched}
    (hnone : c.entries[keyFor q]? = none) (hf : c.fetch client (clk 1) q = .ok f) :
    c.pick client clk q = .fetched f := by
  unfold Cache.pick
  dsimp only
  rw [hnone, Option.filter_none, hf]

theorem exec_steps {S : Query → Prop} {log : List Fetched} (c : Cache) (call : CacheCall)
    (hS : call.Within S) (h : Sourced S log c) :
    Steps (FetchStep S) c (call.exec c).2 (call.exec c).1 := by
  cases call with
  | lookupWithAge client clk q =>
    unfold CacheCall.exec
    dsimp only
    split
    · rename_i f hf
      exact Steps.single ⟨client, clk 1, q, f, hS, pick_fetched hf, rfl, rfl⟩
    · exact Steps.refl c
  | refresh order client clk =>
    -- The slots hold queries of `S`, and these are the ones repeated.
    refine refreshLoop_steps client clk _ c ?_
    intro p hp
    obtain ⟨k, -, hk⟩ := List.mem_filterMap.mp (List.fst_mem_of_mem_zipIdx hp)
    obtain ⟨e, he, heq⟩ := Option.map_eq_some_iff.mp hk
    rw [← heq]
    exact (h.slot k e he).2.1

theorem Sourced.steps {S : Query → Prop} {log out : List Fetched} {c c' : Cache} (h : Sourced S log c)
    (hsteps : Steps (FetchStep S) c out c') : Sourced S (log ++ out) c' := by
  refine hsteps.invariant (fun out c' => Sourced S (log ++ out) c') (by simpa using h) ?_
  intro out t out' u ht hstep
  rw [← List.append_assoc]
  exact ht.fetch hstep

theorem Sourced.run {S : Query → Prop} {log : List Fetched} {c : Cache} (h : Sourced S log c)
    (calls : List CacheCall) (hS : ∀ call ∈ calls, call.Within S) :
    Sourced S (log ++ (c.run calls).2) (c.run calls).1 := by
  induction calls generalizing c log with
  | nil => simpa [Cache.run] using h
  | cons call rest ih =>
    have hcall := exec_steps c call (hS call List.mem_cons_self) h
    have hrest := ih (h.steps hcall) fun x hx => hS x (List.mem_cons_of_mem _ hx)
    simpa [Cache.run] using hrest

/-! ## Which query a lookup is answered for -/

def shown (q : Query) (merged : List ServiceEntry) : List ServiceEntry :=
  if q.onlyHealthy then Health.filter merged { onlyPassing := true } else merged

theorem lookupWithAge_ok {c : Cache} {client : Client} {clk : Nat → Time} {q : Query}
    {result : LookupResult} {age : Duration} (h : (c.lookupWithAge client clk q).2 = .ok result age) :
    ∃ e, result.entries = shown q e.merged ∧
      (c.entries[keyFor q]? = some e ∨
        ∃ f, c.pick client clk q = .fetched f ∧ c.fetch client
          (clk 1) q = .ok f ∧ f.entry = e) := by
  unfold Cache.lookupWithAge at h
  split at h
  · rename_i e he
    obtain ⟨rfl, -⟩ := Served.ok.inj h
    exact ⟨e, rfl, Or.inl (pick_cached he)⟩
  · rename_i f hf
    obtain ⟨rfl, -⟩ := Served.ok.inj h
    exact ⟨f.entry, rfl, Or.inr ⟨f, hf, pick_fetched hf, rfl⟩⟩
  · cases h
  · cases h

def AskedFor (q : Query) (f : Fetched) : Prop :=
  f.asked.name = q.name ∧ f.asked.datacenter = q.datacenter ∧ f.asked.tags = q.tags

/-- After any calls that ask for queries of `S`, a lookup of one of them is answered with the
merged result of a fan-out for that query. -/
def Isolated (maxAge : Duration) (S : Query → Prop) : Prop :=
  ∀ calls : List CacheCall, (∀ call ∈ calls, call.Within S) →
    ∀ (client : Client) (clk : Nat → Time) (q : Query), S q →
      let c := ((newCache maxAge).run calls).1
      let log := ((newCache maxAge).run calls).2 ++ ((CacheCall.lookupWithAge client clk q).exec c).2
      ∀ result age, (c.lookupWithAge client clk q).2 = .ok result age →
        ∃ f ∈ log, AskedFor q f ∧ result.entries = shown q f.answer.entries

theorem isolated_of_distinct (maxAge : Duration) (S : Query → Prop)
    (h : ∀ q q', S q → S q' → keyFor q = keyFor q' → q.tags = q'.tags) : Isolated maxAge S := by
  intro calls hcalls client clk q hq c log result age hok
  have hsourced : Sourced S ((newCache maxAge).run calls).2 c := by
    simpa using (Sourced.newCache S maxAge).run calls hcalls
  obtain ⟨e, hshown, hfrom⟩ := lookupWithAge_ok hok
  rcases hfrom with hslot | ⟨f, hpick, hfetch, rfl⟩
  · obtain ⟨hkey, hS, f, hf, rfl⟩ := hsourced.slot _ e hslot
    obtain ⟨hasked, hmerged⟩ := hsourced.fanOut f hf
    have hsame := (keyFor_eq_iff _ _).mp hkey
    refine ⟨f, List.mem_append_left _ hf, ⟨?_, ?_, ?_⟩, by rw [hshown, hmerged]⟩
    · rw [hasked]; exact hsame.1
    · rw [hasked]; exact hsame.2.1
    · rw [hasked]; exact h f.entry.query q hS hq hkey
  · obtain ⟨-, -, -, hasked, hmerged⟩ := fetch_ok hfetch
    have hlog : f ∈ log := List.mem_append_right _ (by simp [CacheCall.exec, hpick])
    refine ⟨f, hlog, ⟨?_, ?_, ?_⟩, by rw [hshown, hmerged]⟩ <;> rw [hasked] <;> rfl

theorem newCache_maxAge_pos (maxAge : Duration) : 0 < (newCache maxAge).maxAge := by
  have hdefault : 0 < 5 * second := by decide
  unfold newCache
  dsimp only
  split <;> rename_i h
  · exact hdefault
  · exact not_le.mp h

/-- The slot that a lookup of `q'` has just filled answers a lookup of `q` with the same key. -/
theorem not_isolated_of_collision (maxAge : Duration) (S : Query → Prop) (q q' : Query) (hq : S q)
    (hq' : S q') (hkey : keyFor q' = keyFor q) (htags : q'.tags ≠ q.tags) : ¬ Isolated maxAge S := by
  intro h
  let client : Client := fun _ => .ok {}
  let clk : Nat → Time := fun _ => 0
  obtain ⟨f, hfetch⟩ : ∃ f, (newCache maxAge).fetch client 0 q' = .ok f := ⟨_, rfl⟩
  obtain ⟨hentries, hage, -, hasked, -⟩ := fetch_ok hfetch
  have hpick : (newCache maxAge).pick client clk q' = .fetched f :=
    pick_of_absent (by simp [newCache]) hfetch
  have hrun : (newCache maxAge).run [.lookupWithAge client clk q'] = (f.cache, [f]) := by
    simp [Cache.run, CacheCall.exec, hpick]
  have hslot : f.cache.entries[keyFor q]? = some f.entry := by simp [hentries, hkey]
  have hfresh : timeSub 0 f.entry.fetchedAt < f.cache.maxAge := by
    have hnow : f.entry.fetchedAt = 0 := by
      obtain rfl := Except.ok.inj hfetch
      rfl
    rw [hnow, hage]
    exact newCache_maxAge_pos maxAge
  have hcached : f.cache.pick client clk q = .cached f.entry := pick_of_fresh hslot hfresh
  have hlookup :=
    h [.lookupWithAge client clk q'] (by simpa [CacheCall.Within] using hq') client clk q hq
  rw [hrun] at hlookup
  dsimp only at hlookup
  obtain ⟨g, hg, hfor, -⟩ := hlookup _ _ (by rw [Cache.lookupWithAge, hcached]; rfl)
  have hgf : g = f := by simpa [CacheCall.exec, hcached] using hg
  rw [hgf] at hfor
  apply htags
  rw [← hfor.2.2, hasked]
  rfl

/-- The cache keeps the queries of `S` apart exactly if no two of them, with the same name and
datacenter, have different tags with the same pieces between NUL characters. -/
theorem cache_isolated_iff (maxAge : Duration) (S : Query → Prop) :
    (Isolated maxAge S ∧ ∀ q q', S q → S q' → keyFor q = keyFor q' →
        q.name = q'.name ∧ q.datacenter = q'.datacenter ∧ q.tags = q'.tags) ↔
      ∀ q q', S q → S q' → q.name = q'.name → q.datacenter = q'.datacenter →
        tagPieces q.tags = tagPieces q'.tags → q.tags = q'.tags := by
  constructor
  · rintro ⟨hisolated, -⟩ q q' hq hq' hname hdc hpieces
    by_contra htags
    have hkey : keyFor q = keyFor q' := (keyFor_eq_iff q q').mpr ⟨hname, hdc, hpieces⟩
    exact not_isolated_of_collision maxAge S q' q hq' hq hkey htags hisolated
  · intro h
    have hdistinct : ∀ q q', S q → S q' → keyFor q = keyFor q' →
        q.name = q'.name ∧ q.datacenter = q'.datacenter ∧ q.tags = q'.tags := by
      intro q q' hq hq' hkey
      obtain ⟨hname, hdc, hpieces⟩ := (keyFor_eq_iff q q').mp hkey
      exact ⟨hname, hdc, h q q' hq hq' hname hdc hpieces⟩
    refine ⟨isolated_of_distinct maxAge S ?_, hdistinct⟩
    intro q q' hq hq' hkey
    exact (hdistinct q q' hq hq' hkey).2.2

/-- `?tag=` asks for a lone empty tag and finds nothing. A plain lookup of the service is then
answered from that slot: the seeds hold an instance, and it is not shown. -/
theorem empty_tag_answers_plain_lookup :
    let web : ServiceInstance := { id := "web", name := "web" }
    let e : ServiceEntry := { node := { id := "n" }, service := web, health := .passing }
    let client : Client := fun q => .ok { entries := if q.tags = [""] then [] else [e], index := 1 }
    let c := ((newCache 0).run [.lookupWithAge client (fun _ => 0) { name := "web", tags := [""] }]).1
    client { name := "web" } = .ok { entries := [e], index := 1 } ∧
      (c.lookupWithAge client (fun _ => 0) { name := "web" }).2 = .ok
        { entries := [], index := 1 } 0 := by
  intro web e client c
  exact ⟨rfl, rfl⟩

end YellowPages.SeedClient
