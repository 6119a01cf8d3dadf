import YellowPages.SeedClient.Cache

/-!
# Stale entries of the cache

Two ways in which a reader of the agent's cache is left behind: a refresh that fails while an old
entry is there, and a refresh that brings a change nobody is told of.
-/

namespace YellowPages.SeedClient

open Lib

/-! ## A refresh that fails -/

section Refresh

variable {c : Cache} {client : Client} {clk : Nat → Time} {q : Query}

theorem fetch_error {now : Time} {err : String} (h : client (raw q) = .error err) :
    c.fetch client now q = .error err := by
  unfold Cache.fetch
  rw [h]

theorem pick_of_stale {e : CacheEntry} {err : String} (hslot : c.entries[keyFor q]? = some e)
    (hstale : c.maxAge ≤ timeSub (clk 0) e.fetchedAt) (herr : client (raw q) = .error err) :
    c.pick client clk q = .crashed := by
  unfold Cache.pick
  dsimp only
  rw [hslot, Option.filter_some, if_neg (by simpa using hstale), fetch_error herr]
  rfl

theorem slot_of_failed {err : String} (h : (c.lookupWithAge client clk q).2 = .failed err) :
    c.entries[keyFor q]? = none := by
  have hpick : c.pick client clk q = .failed err := by
    unfold Cache.lookupWithAge at h
    split at h
    · cases h
    · cases h
    · rename_i err' hpick
      rw [hpick, Served.failed.inj h]
    · cases h
  unfold Cache.pick at hpick
  dsimp only at hpick
  split at hpick
  · cases hpick
  · split at hpick
    · cases hpick
    · split at hpick <;> rename_i hslot
      · cases hpick
      · simpa using hslot

end Refresh

/-- An entry past `maxAge` is served while the seeds cannot be read, and a lookup fails only if
nothing is cached. -/
structure ServesStale (c : Cache) (client : Client) (clk : Nat → Time) (q : Query) : Prop where
  stale : ∀ e err, c.entries[keyFor q]? = some e → c.maxAge ≤ timeSub (clk 0) e.fetchedAt →
    client (raw q) = .error err → c.lookupWithAge client clk q =
      (c, .ok { entries := shown q e.merged, index := e.index } (timeSub (clk 2) e.fetchedAt))
  failed : ∀ err, (c.lookupWithAge client clk q).2 = .failed err → c.entries[keyFor q]? = none

/-- That is so exactly if there is no such entry, or the seeds answer. -/
theorem serves_stale_iff (c : Cache) (client : Client) (clk : Nat → Time) (q : Query) :
    ServesStale c client clk q ↔
      (∀ e, c.entries[keyFor q]? = some e → timeSub (clk 0) e.fetchedAt < c.maxAge) ∨
        ∃ lr, client (raw q) = .ok lr := by
  constructor
  · intro h
    cases hread : client (raw q) with
    | ok lr => exact Or.inr ⟨lr, rfl⟩
    | error err =>
      refine Or.inl fun e he => ?_
      by_contra hstale
      have hserved := h.stale e err he (not_lt.mp hstale) hread
      rw [Cache.lookupWithAge, pick_of_stale he (not_lt.mp hstale) hread] at hserved
      cases hserved
  · intro h
    refine ⟨?_, fun err => slot_of_failed⟩
    intro e err he hstale herr
    rcases h with hfresh | ⟨lr, hlr⟩
    · exact absurd (hfresh e he) (not_lt.mpr hstale)
    · rw [hlr] at herr
      cases herr

/-- An entry filled at 0 s is past `maxAge` at 10 s, when no seed answers. -/
theorem stale_entry_crashes :
    ¬ ∀ (maxAge : Duration) (calls : List CacheCall) (client : Client) (clk : Nat → Time)
      (q : Query),
      ServesStale ((newCache maxAge).run calls).1 client clk q := by
  intro h
  let q : Query := { name := "web" }
  let calls : List CacheCall := [.lookupWithAge (fun _ => .ok {}) (fun _ => 0) q]
  let e : CacheEntry := { query := q, merged := [], index := 0, fetchedAt := 0 }
  have hslot : ((newCache (5 * second)).run calls).1.entries[keyFor q]? = some e := by decide +kernel
  have hstale : ((newCache (5 * second)).run calls).1.maxAge ≤ timeSub (10 * second) e.fetchedAt := by
    decide +kernel
  have hserved :=
    (h (5 * second) calls (fun _ => .error "down") (fun _ => 10 * second) q).stale e "down" hslot
    hstale rfl
  rw [Cache.lookupWithAge, pick_of_stale hslot hstale rfl] at hserved
  cases hserved

/-! ## A refresh that is not announced -/

/-- What the read surfaces show of an entry, beside its key. -/
structure Displayed where
  name : String
  address : String
  port : UInt16
  tags : List String
  metadata : Map String
  weights : Weights
  health : HealthState
  maintenance : Bool
  generation : Nat
  nodeName : String
  nodeAddress : String
  datacenter : String
  nodeMeta : Map String
  deriving DecidableEq

def displayed (e : ServiceEntry) : Displayed :=
  { name := e.service.name, address := e.service.address, port := e.service.port,
    tags := e.service.tags,
    metadata := e.service.metadata, weights := e.service.weights, health := e.health,
    maintenance := e.maintenance, generation := e.service.generation, nodeName := e.node.name,
    nodeAddress := e.node.address, datacenter := e.node.datacenter, nodeMeta := e.node.metadata }

def SameKeys (prev cur : List ServiceEntry) : Prop :=
  ∀ k, k ∈ prev.map ServiceEntry.key ↔ k ∈ cur.map ServiceEntry.key

/-- Some instance of both sets is told apart by `differs`. -/
def SomeDiffers (differs : ServiceEntry → ServiceEntry → Prop) (prev cur : List ServiceEntry) :
    Prop :=
  ∃ a ∈ prev, ∃ b ∈ cur, a.key = b.key ∧ differs a b

def VisiblyDiffer (prev cur : List ServiceEntry) : Prop :=
  ¬ SameKeys prev cur ∨ SomeDiffers (fun a b => displayed a ≠ displayed b) prev cur

/-- A set as the merge of the seeds' answers leaves it. -/
def IsMerged (entries : List ServiceEntry) : Prop := ∃ answers, entries = Health.mergeLWW answers

theorem IsMerged.strictlySorted {entries : List ServiceEntry} (h : IsMerged entries) :
    StrictlySorted ServiceEntry.key entries := by
  obtain ⟨answers, rfl⟩ := h
  exact Health.mergeLWW_strictlySorted answers

theorem not_changed_iff_forall₂ (prev cur : CacheEntry) : changed (some prev) cur = false ↔
    List.Forall₂
      (fun a b => a.key = b.key ∧ endpointChanged a b = false) prev.merged cur.merged := by
  have hkey : ∀ a b : ServiceEntry, a.key = b.key ↔ a.node.id = b.node.id ∧
      a.service.id = b.service.id := by
    intro a b
    rw [ServiceEntry.key, ServiceEntry.key, toLex_inj, Prod.mk.injEq]
  unfold changed
  dsimp only
  split <;> rename_i hlength
  · simp only [Bool.true_eq_false, false_iff]
    intro h
    exact hlength h.length_eq
  · rw [ne_eq, not_not] at hlength
    rw [List.any_eq_false, List.forall₂_iff_zip]
    simp only [hlength, true_and, hkey]
    constructor
    · intro h a b hab
      simpa [not_or, and_assoc] using h (a, b) hab
    · rintro h ⟨a, b⟩ hab
      simpa [not_or, and_assoc] using h hab

/-- The comparison goes by position, and on merged sets that is by key. -/
theorem changed_iff {prev cur : CacheEntry} (hprev : IsMerged prev.merged)
    (hcur : IsMerged cur.merged) :
    changed (some prev) cur = true ↔ ¬ SameKeys prev.merged cur.merged ∨
      SomeDiffers (fun a b => endpointChanged a b) prev.merged cur.merged := by
  rw [← Bool.not_eq_false, not_changed_iff_forall₂,
    hprev.strictlySorted.forall₂_iff ServiceEntry.key hcur.strictlySorted, not_and_or]
  refine or_congr Iff.rfl ?_
  simp [SomeDiffers]

theorem notified_iff {c : Cache} {client : Client} {now : Time} {q : Query} {prev : CacheEntry}
    {f : Fetched} (hprev : c.entries[keyFor q]? = some prev) (hf : c.fetch client now q = .ok f) :
    q.name ∈ f.notified ↔ changed (some prev) f.entry = true := by
  unfold Cache.fetch at hf
  split at hf
  · cases hf
  · obtain rfl := Except.ok.inj hf
    dsimp only
    rw [hprev]
    split <;> rename_i hchanged
    · simp [hchanged]
    · simp [hchanged]

/-- A visible change of a cached set is announced exactly if it comes with another set of keys, or
with another address, port, generation or health of some instance. -/
theorem visible_change_notified_iff (c : Cache) (client : Client) (now : Time) (q : Query)
    (prev : CacheEntry) (f : Fetched) (hslot : c.entries[keyFor q]? = some prev)
    (hf : c.fetch client now q = .ok f) (hprev : IsMerged prev.merged)
    (hcur : IsMerged f.answer.entries) :
    (VisiblyDiffer prev.merged f.answer.entries → q.name ∈ f.notified) ↔
      ¬ SameKeys prev.merged f.answer.entries ∨
        SomeDiffers (fun a b => endpointChanged a b) prev.merged f.answer.entries ∨
          ¬ SomeDiffers (fun a b => displayed a ≠ displayed b) prev.merged f.answer.entries := by
  obtain ⟨-, -, -, -, hmerged⟩ := fetch_ok hf
  rw [notified_iff hslot hf, changed_iff hprev (hmerged ▸ hcur), hmerged, VisiblyDiffer]
  tauto

theorem visible_change_notified_iff_port :
    let web (port : UInt16) : ServiceEntry :=
      { node := { id := "n1" }, service := { id := "web", name := "web", port := port },
        health := .passing }
    let q : Query := { name := "web" }
    let c := ((newCache 0).run [.lookupWithAge (fun _ => .ok { entries := [web 80] }) (fun _ => 0) q]).1
    ∃ f, c.fetch (fun _ => .ok { entries := [web 81] }) 1 q = .ok f ∧
      VisiblyDiffer [web 80] f.answer.entries ∧
      q.name ∈ f.notified := by
  intro web q c
  obtain ⟨f, hf, hanswer⟩ : ∃ f, c.fetch (fun _ => .ok { entries := [web 81] }) 1 q = .ok f ∧
    f.answer.entries = [web 81] := ⟨_, rfl, rfl⟩
  have hslot :
      c.entries[keyFor q]? = some { query := q, merged := [web 80], index := 0, fetchedAt := 0 } := by
    decide +kernel
  have hport : SomeDiffers (fun a b => endpointChanged a b) [web 80] f.answer.entries := by
    rw [hanswer]
    exact ⟨web 80, by simp, web 81, by simp, rfl, by decide⟩
  have hvisible : VisiblyDiffer [web 80] f.answer.entries := by
    rw [hanswer]
    exact Or.inr ⟨web 80, by simp, web 81, by simp, rfl, by decide⟩
  have hiff := visible_change_notified_iff c _ 1 q _ f hslot hf ⟨[web 80], by decide +kernel⟩
    ⟨[web 81], by rw [hanswer]; decide +kernel⟩
  exact ⟨f, hf, hvisible, hiff.mpr (Or.inr (Or.inl hport)) hvisible⟩

/-- The instance gets a tag, and its generation stays what it was. -/
theorem visible_change_unannounced :
    ¬ ∀ (maxAge : Duration) (calls : List CacheCall) (client : Client) (now : Time) (q : Query)
      (prev : CacheEntry) (f : Fetched),
      ((newCache maxAge).run calls).1.entries[keyFor q]? = some prev →
        ((newCache maxAge).run calls).1.fetch client now q = .ok f → IsMerged prev.merged →
          IsMerged f.answer.entries → VisiblyDiffer prev.merged f.answer.entries →
            q.name ∈ f.notified := by
  intro h
  let web (tags : List String) : ServiceEntry :=
    { node := { id := "n1" }, service := { id := "web", name := "web", tags := tags },
      health := .passing }
  let q : Query := { name := "web" }
  let calls : List CacheCall := [.lookupWithAge (fun _ => .ok { entries := [web []] }) (fun _ => 0) q]
  let prev : CacheEntry := { query := q, merged := [web []], index := 0, fetchedAt := 0 }
  obtain ⟨f, hf, hanswer⟩ : ∃ f, ((newCache 0).run calls).1.fetch
    (fun _ => .ok { entries := [web ["v2"]] }) 1 q = .ok f ∧
      f.answer.entries = [web ["v2"]] := ⟨_, rfl, rfl⟩
  have hslot : ((newCache 0).run calls).1.entries[keyFor q]? = some prev := by decide +kernel
  have hnotified := h 0 calls _ 1 q prev f hslot hf ⟨[web []], by decide +kernel⟩
    ⟨[web ["v2"]], by rw [hanswer]; decide +kernel⟩
    (by rw [hanswer]; exact Or.inr ⟨web [], by simp [prev], web ["v2"], by simp, rfl, by decide⟩)
  rw [notified_iff hslot hf, ← Bool.not_eq_false, not_changed_iff_forall₂, (fetch_ok hf).2.2.2.2,
    hanswer] at hnotified
  exact hnotified (List.Forall₂.cons ⟨rfl, by decide⟩ List.Forall₂.nil)

end YellowPages.SeedClient
