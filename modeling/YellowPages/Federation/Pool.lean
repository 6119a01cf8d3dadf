import YellowPages.SeedClient.Cache
import YellowPages.SeedClient.Lookup

/-!
# The three ways to read

An agent answers a read from the seeds, from its cache, or from the seeds of another datacenter
(`internal/federation`). All three merge what the seeds hold, and `Filter` has to come after the
merge.
-/

namespace YellowPages.Federation

open Lib Store SeedClient

/-! ## The pool -/

structure Pool where
  localDC : String
  clients : Map Client

/-- One client for each remote datacenter that has seeds. -/
def newPool (localDC : String) (datacenters : Map (List Seed)) : Pool :=
  { localDC := localDC
    clients := datacenters.filterMap fun dc seeds =>
      if dc = localDC ∨ seeds.length = 0 then none else some (readAll seeds) }

def Pool.isRemote (p : Pool) (dc : String) : Bool :=
  if dc = "" ∨ dc = p.localDC then false else p.clients.contains dc

/-- An unknown datacenter has no instances. -/
def Pool.resolve (p : Pool) (dc : String) (q : Query) : Except String LookupResult :=
  match p.clients[dc]? with
  | none => .ok {}
  | some c => c { q with datacenter := dc }

/-! ## The agent -/

inductive Consistency where
  | default | stale | consistent
  deriving DecidableEq

/-- What `Proxy` reads through. -/
structure Reader where
  client : Client
  cache : Option Cache := none
  federation : Option Pool := none

namespace Reader

def directLookup (r : Reader) (q : Query) : Except String LookupResult :=
  match r.client (raw q) with
  | .error err => .error err
  | .ok lr =>
    .ok (if q.onlyHealthy then { lr with entries := Health.filter lr.entries { onlyPassing := true } }
      else lr)

/-- A result that was not cached has age 0. -/
def ofDirect : Except String LookupResult → Served
  | .error err => .failed err
  | .ok lr => .ok lr 0

def resolve (r : Reader) (clk : Nat → Time) (q : Query) (mode : Consistency) : Reader × Served :=
  match r.federation.filter (·.isRemote q.datacenter) with
  | some pool => (r, ofDirect (pool.resolve q.datacenter q))
  | none =>
    match r.cache with
    | none => (r, ofDirect (r.directLookup q))
    | some cache =>
      if mode = .consistent then (r, ofDirect (r.directLookup q))
      else
        let p := cache.lookupWithAge r.client clk q
        ({ r with cache := some p.1 }, p.2)

end Reader

def entriesOf : Served → Option (List ServiceEntry)
  | .ok lr _ => some lr.entries
  | _ => none

/-! ## What a read should return -/

/-- `Filter(MergeLWW(...))` of what the seeds hold for the query. -/
def filteredMerge (seeds : List Seed) (q : Query) : List ServiceEntry :=
  shown q (Health.mergeLWW ((contents seeds).filter (Selects q ·)))

/-- Every read of `q` from these seeds filters after the merge: one that goes to the seeds, one that
finds a fresh cache entry that they filled, and one from another datacenter. -/
structure FiltersMerged (seeds : List Seed) (q : Query) : Prop where
  uncached : ∀ (r : Reader) (clk : Nat → Time) (mode : Consistency), r.client = readAll seeds →
    r.federation.filter (·.isRemote q.datacenter) = none → mode = .consistent ∨ r.cache = none →
      entriesOf (r.resolve clk q mode).2 = some (filteredMerge seeds q)
  cached : ∀ (r : Reader) (clk : Nat → Time) (mode : Consistency) (c : Cache) (q' : Query)
    (now : Time)
    (f : Fetched), r.federation.filter (·.isRemote q.datacenter) = none → mode ≠ .consistent →
      c.fetch (readAll seeds) now q' = .ok f → raw q' = raw q → r.cache = some f.cache →
        timeSub (clk 0) now < c.maxAge →
          entriesOf (r.resolve clk q mode).2 = some (filteredMerge seeds q)
  federated : ∀ (r : Reader) (clk : Nat → Time) (mode : Consistency) (localDC : String)
    (datacenters : Map (List Seed)), r.federation = some (newPool localDC datacenters) →
      (newPool localDC datacenters).isRemote q.datacenter = true →
        datacenters[q.datacenter]? = some seeds →
        entriesOf (r.resolve clk q mode).2 = some (filteredMerge seeds q)

/-- Of each instance the query selects, the version that wins the merge is visible as soon as any
version is. -/
def FreshestVisible (seeds : List Seed) (q : Query) : Prop :=
  ∀ w, Health.Freshest ((contents seeds).filter (Selects q ·)) w →
    (∃ e ∈ (contents seeds).filter (Selects q ·), e.key = w.key ∧
      Health.visible e { onlyPassing := true }) →
      Health.visible w { onlyPassing := true }

section Reads

variable {seeds : List Seed} {q : Query}

theorem passes_eq_selects (h : q.onlyHealthy = false) (e : ServiceEntry) :
    passes q e = decide (Selects q e) := by
  simp [passes, h]

/-- What the seeds answer to a query without a health filter. -/
theorem readAll_raw (hseeds : seeds ≠ []) (q : Query) :
    (readAll seeds (raw q)).toOption.map LookupResult.entries =
      some (Health.mergeLWW ((contents seeds).filter (Selects q ·))) := by
  rw [readAll_entries, if_neg hseeds]
  congr 3
  funext e
  exact passes_eq_selects rfl e

theorem directLookup_entries (hseeds : seeds ≠ []) {r : Reader} (hr : r.client = readAll seeds)
    (q : Query) :
    (r.directLookup q).toOption.map LookupResult.entries = some (filteredMerge seeds q) := by
  have hraw := readAll_raw hseeds q
  unfold Reader.directLookup filteredMerge shown
  rw [hr]
  cases hread : readAll seeds (raw q) with
  | error err =>
    rw [hread] at hraw
    cases hraw
  | ok lr =>
    rw [hread] at hraw
    rw [← Option.some.inj hraw]
    dsimp only
    split <;> rfl

theorem entriesOf_ofDirect (result : Except String LookupResult) :
    entriesOf (Reader.ofDirect result) = result.toOption.map LookupResult.entries := by
  cases result <;> rfl

theorem resolve_uncached {r : Reader} (hlocal : r.federation.filter (·.isRemote q.datacenter) = none)
    {mode : Consistency} (hmode : mode = .consistent ∨ r.cache = none) (clk : Nat → Time) :
    (r.resolve clk q mode).2 = Reader.ofDirect (r.directLookup q) := by
  unfold Reader.resolve
  rw [hlocal]
  dsimp only
  split
  · rfl
  · rename_i cache hcache
    rw [if_pos (hmode.resolve_right (by rw [hcache]; nofun))]

theorem resolve_cached {r : Reader} (hlocal : r.federation.filter (·.isRemote q.datacenter) = none)
    {mode : Consistency} (hmode : mode ≠ .consistent) {cache : Cache} (hcache : r.cache = some cache)
    (clk : Nat → Time) : (r.resolve clk q mode).2 = (cache.lookupWithAge r.client clk q).2 := by
  unfold Reader.resolve
  rw [hlocal, hcache]
  dsimp only
  rw [if_neg hmode]

theorem fetch_entry {c : Cache} {client : Client} {now : Time} {q' : Query} {f : Fetched}
    (h : c.fetch client now q' = .ok f) :
    f.entry.fetchedAt = now ∧
      (client (raw q')).toOption.map LookupResult.entries = some f.entry.merged := by
  unfold Cache.fetch at h
  cases hclient : client (raw q') with
  | error err =>
    rw [hclient] at h
    cases h
  | ok lr =>
    rw [hclient] at h
    obtain rfl := Except.ok.inj h
    exact ⟨rfl, rfl⟩

/-- A fresh entry answers with the filtered merge, whichever health filter it was fetched for. -/
theorem lookupWithAge_fresh (hseeds : seeds ≠ []) {c : Cache} {now : Time} {q' : Query} {f : Fetched}
    (hf : c.fetch (readAll seeds) now q' = .ok f) (hq' : raw q' = raw q) {clk : Nat → Time}
    (hfresh : timeSub (clk 0) now < c.maxAge) (client : Client) :
    entriesOf (f.cache.lookupWithAge client clk q).2 = some (filteredMerge seeds q) := by
  obtain ⟨hentries, hage, -, -, -⟩ := fetch_ok hf
  obtain ⟨hnow, hmerged⟩ := fetch_entry hf
  have hkey : keyFor (raw q') = keyFor (raw q) := by rw [hq']
  have hslot : f.cache.entries[keyFor q]? = some f.entry := by
    rw [hentries, show keyFor q' = keyFor q from hkey]
    simp
  rw [hq', readAll_raw hseeds] at hmerged
  rw [Cache.lookupWithAge, pick_of_fresh hslot (by rw [hnow, hage]; exact hfresh)]
  simp only [entriesOf, serve, filteredMerge, shown, ← Option.some.inj hmerged]

/-- The empty datacenter and the local one are never remote. -/
theorem newPool_isRemote_iff {localDC : String} {datacenters : Map (List Seed)} (hseeds : seeds ≠ [])
    (hpool : datacenters[q.datacenter]? = some seeds) :
    (newPool localDC datacenters).isRemote q.datacenter = true ↔ q.datacenter ≠ "" ∧
      q.datacenter ≠ localDC := by
  unfold Pool.isRemote newPool
  split
  · rename_i hdc
    refine ⟨fun h => absurd h Bool.false_ne_true, fun h => absurd hdc ?_⟩
    exact not_or.mpr h
  · rename_i hdc
    rw [not_or] at hdc
    simp [hpool, hdc, hseeds, Std.ExtTreeMap.contains_eq_isSome_getElem?]

theorem resolve_federated {r : Reader} {localDC : String} {datacenters : Map (List Seed)}
    (hseeds : seeds ≠ []) (hfederation : r.federation = some (newPool localDC datacenters))
    (hremote : (newPool localDC datacenters).isRemote q.datacenter = true)
    (hpool : datacenters[q.datacenter]? = some seeds) (clk : Nat → Time) (mode : Consistency) :
    entriesOf (r.resolve clk q mode).2 = (readAll seeds q).toOption.map LookupResult.entries := by
  have hdc := ((newPool_isRemote_iff hseeds hpool).mp hremote).2
  have hclient : (newPool localDC datacenters).clients[q.datacenter]? = some (readAll seeds) := by
    simp [newPool, hpool, hdc, hseeds]
  unfold Reader.resolve
  rw [hfederation, Option.filter_some, if_pos hremote]
  dsimp only
  rw [entriesOf_ofDirect, Pool.resolve, hclient]

/-- The seeds of the other datacenter filter before the merge. -/
theorem readAll_filtered_iff (hseeds : seeds ≠ []) (q : Query) :
    (readAll seeds q).toOption.map LookupResult.entries = some (filteredMerge seeds q) ↔
      (q.onlyHealthy = true → FreshestVisible seeds q) := by
  rw [readAll_entries, if_neg hseeds, Option.some_inj]
  cases hq : q.onlyHealthy with
  | false =>
    have hpasses : passes q = fun e => decide (Selects q e) := funext (passes_eq_selects hq)
    simp [filteredMerge, shown, hq, hpasses]
  | true =>
    have hpasses : (contents seeds).filter (passes q) =
        ((contents seeds).filter (Selects q ·)).filter
          (Health.visible · { onlyPassing := true }) := by
      rw [List.filter_filter]
      congr 1
      funext e
      simp [passes, hq, Bool.and_comm]
    have hiff : Health.mergeLWW (((contents seeds).filter (Selects q ·)).filter
          (Health.visible · { onlyPassing := true })) =
        (Health.mergeLWW ((contents seeds).filter (Selects q ·))).filter
          (Health.visible · { onlyPassing := true }) ↔ _ :=
      mergeBy_filter_iff Health.winsLWW_rank _ _ _ fun _ he => he
    simp only [filteredMerge, shown, hq, if_true, hpasses, true_imp_iff]
    refine hiff.trans (forall₂_congr fun w _ => ?_)
    refine ⟨fun h hex => h (Or.inr hex), fun h hor => hor.elim id h⟩

end Reads

/-- Reads filter after the merge exactly if no health filter is asked for, or the query names no
datacenter, or no stale seed shows an instance whose freshest version is not visible. The federated
read is the one that depends on it, and a query without a datacenter is not federated. -/
theorem reads_filter_merged_iff (seeds : List Seed) (hseeds : seeds ≠ []) (q : Query) :
    FiltersMerged seeds q ↔
      (q.onlyHealthy = true → q.datacenter = "" ∨ FreshestVisible seeds q) := by
  have hfiltered : (q.onlyHealthy = true → q.datacenter = "" ∨ FreshestVisible seeds q) ↔
      (q.datacenter ≠ "" →
        (readAll seeds q).toOption.map LookupResult.entries = some (filteredMerge seeds q)) := by
    rw [readAll_filtered_iff hseeds]
    exact ⟨fun h hdc hq => (h hq).resolve_left hdc,
      fun h hq => or_iff_not_imp_left.mpr fun hdc => h hdc hq⟩
  rw [hfiltered]
  constructor
  · intro h hdc
    obtain ⟨localDC, hlocal⟩ := exists_ne q.datacenter
    let datacenters : Map (List Seed) := (∅ : Map (List Seed)).insert q.datacenter seeds
    have hpool : datacenters[q.datacenter]? = some seeds := by simp [datacenters]
    have hremote := (newPool_isRemote_iff hseeds hpool).mpr ⟨hdc, hlocal.symm⟩
    let r : Reader := { client := readAll seeds, federation := some (newPool localDC datacenters) }
    have hfederated := h.federated r (fun _ => 0) .default localDC datacenters rfl hremote hpool
    rwa [resolve_federated hseeds rfl hremote hpool] at hfederated
  · intro h
    refine ⟨?_, ?_, ?_⟩
    · intro r clk mode hr hlocal hmode
      rw [resolve_uncached hlocal hmode, entriesOf_ofDirect, directLookup_entries hseeds hr]
    · intro r clk mode c q' now f hlocal hmode hf hq' hcache hfresh
      rw [resolve_cached hlocal hmode hcache]
      exact lookupWithAge_fresh hseeds hf hq' hfresh r.client
    · intro r clk mode localDC datacenters hfederation hremote hpool
      rw [resolve_federated hseeds hfederation hremote hpool]
      exact h ((newPool_isRemote_iff hseeds hpool).mp hremote).1

/-- A seed of `dc2` after one registration and the given calls. -/
def seedIn (generation : Nat) (calls : List Call) : Seed where
  registry :=
    let web : ServiceInstance := { id := "s", name := "web", ttl := 30 * second }
    let reg : Registration :=
      { node := { id := "n", datacenter := "dc2" }, services := [web], generation := generation }
    ((newMemory {}).run (.register (fun _ => second) reg :: calls)).1
  now := 2 * second
  reachable := ⟨_, _, rfl⟩

def healthyWeb : Query := { name := "web", datacenter := "dc2", onlyHealthy := true }

theorem reads_filter_merged_passing : FiltersMerged [seedIn 1 [], seedIn 2 []] healthyWeb := by
  refine (reads_filter_merged_iff _ (by simp) healthyWeb).mpr fun _ => Or.inr fun w hw _ => ?_
  have hvisible : ∀ e ∈ contents [seedIn 1 [], seedIn 2 []],
      Health.visible e { onlyPassing := true } := by
    decide
  have hmem := ((mem_versions ServiceEntry.key _ _ w).mp hw.mem).1
  exact hvisible w (List.mem_of_mem_filter hmem)

/-- One seed has not heard that the check of an instance failed, and a read from another datacenter
returns the instance as healthy. -/
theorem federated_read_filters_early :
    ¬ ∀ (seeds : List Seed), seeds ≠ [] → ∀ q : Query, FiltersMerged seeds q := by
  intro h
  let seeds := [seedIn 1 [], seedIn 2 [.fail (fun _ => second) "n" "s"]]
  let datacenters : Map (List Seed) := (∅ : Map (List Seed)).insert "dc2" seeds
  have hseeds : seeds ≠ [] := by simp [seeds]
  have hpool : datacenters[healthyWeb.datacenter]? = some seeds := by simp [datacenters, healthyWeb]
  have hremote : (newPool "dc1" datacenters).isRemote healthyWeb.datacenter = true :=
    (newPool_isRemote_iff hseeds hpool).mpr (by decide)
  let r : Reader := { client := readAll [], federation := some (newPool "dc1" datacenters) }
  have hfederated :=
    (h seeds hseeds healthyWeb).federated r (fun _ => 0) .default "dc1" datacenters rfl hremote hpool
  rw [resolve_federated hseeds rfl hremote hpool] at hfederated
  revert hfederated
  decide

end YellowPages.Federation
