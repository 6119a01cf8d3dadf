import YellowPages.SeedClient.Watch

/-!
# The index of a lookup

`Proxy.Lookup` answers with the highest index among the seeds that it heard from, or with the one that
was cached. Each seed counts on its own, and not all of them answer every time.
-/

namespace YellowPages.SeedClient

open Lib Store Wire Federation

/-! ## The highest index -/

/-- The seed answers, with index `i` or more. -/
def Answer.reaches (i : Nat) (a : Answer) : Bool :=
  match a.reply with
  | .error _ => false
  | .ok resp => i ≤ resp.index

theorem maxIndex_gather (g : Gathered) (a : Answer) :
    g.maxIndex ≤ (gather g a).maxIndex ∧ ∀ i, a.reaches i = true → i ≤ (gather g a).maxIndex := by
  unfold gather Answer.reaches
  cases a.reply with
  | error err => simp
  | ok resp =>
    have hindex : (lookupResultFromProto resp).index = resp.index := rfl
    simp only [hindex, decide_eq_true_eq]
    split
    · exact ⟨by omega, fun i hi => hi⟩
    · exact ⟨le_refl _, fun i hi => by omega⟩

theorem maxIndex_gather_loop (answers : List Answer) (g : Gathered) :
    g.maxIndex ≤ (answers.foldl gather g).maxIndex ∧
      ∀ i, answers.any (·.reaches i) = true → i ≤ (answers.foldl gather g).maxIndex := by
  induction answers generalizing g with
  | nil => simp
  | cons a rest ih =>
    obtain ⟨hkept, hreached⟩ := maxIndex_gather g a
    obtain ⟨hrest, ihreached⟩ := ih (gather g a)
    refine ⟨hkept.trans hrest, fun i hi => ?_⟩
    rw [List.any_cons, Bool.or_eq_true] at hi
    rcases hi with hi | hi
    · exact (hreached i hi).trans hrest
    · exact ihreached i hi

/-- Somebody answered, and the index is not below any that was answered. -/
theorem lookup_index {answers : List Answer} {lr : LookupResult} (h : lookup answers = .ok lr) :
    answers.any answered = true ∧ ∀ i, answers.any (·.reaches i) = true → i ≤ lr.index := by
  have hcount := (gather_loop answers {}).2
  rw [Nat.zero_add] at hcount
  unfold lookup at h
  dsimp only at h
  split at h <;> rename_i hok
  · cases h
  · obtain rfl := Except.ok.inj h
    refine ⟨?_, (maxIndex_gather_loop answers {}).2⟩
    rw [hcount, List.countP_eq_zero] at hok
    simpa using hok

/-! ## Lookups of one query -/

/-- What the seeds answer at one moment, in order of arrival. -/
abbrev Answers := Query → List Answer

def Answers.client (seeds : Answers) : Client := fun q => lookup (seeds q)

/-- An agent that is asked for a query, and the indexes it answered with. -/
structure Lookups where
  query : Query
  reader : Reader
  indexes : List Nat := []

inductive LookupAction where
  | lookup (seeds : Answers) (clk : Nat → Time)
  /-- A fetch for somebody else: a turn of `Refresh`, or a read of another query. -/
  | fetch (seeds : Answers) (now : Time) (q : Query)

namespace Lookups

variable (s : Lookups)

def step : LookupAction → Lookups
  | .lookup seeds clk =>
    let p := { s.reader with client := seeds.client }.lookup clk s.query
    match p.2 with
    | .ok lr _ => { s with reader := p.1, indexes := s.indexes ++ [lr.index] }
    | _ => { s with reader := p.1 }
  | .fetch seeds now q =>
    match s.reader.cache with
    | none => s
    | some cache =>
      match cache.fetch seeds.client now q with
      | .error _ => s
      | .ok f => { s with reader := { s.reader with cache := some f.cache } }

def run (actions : List LookupAction) : Lookups := actions.foldl step s

/-- The index in the slot of the query or, without a cache, the one answered last. -/
def held : Option Nat :=
  match s.reader.cache with
  | some cache => cache.entries[keyFor s.query]?.map CacheEntry.index
  | none => s.indexes.getLast?

/-- Unless no seed answers, one of those that do has reached the index `held`. -/
def Reached (answers : List Answer) : Prop :=
  answers.any answered = true → ∀ i ∈ s.held, answers.any (·.reaches i) = true

instance (answers : List Answer) : Decidable (s.Reached answers) :=
  inferInstanceAs (Decidable (_ → ∀ i ∈ _, _))

/-- A lookup at this time finds a fresh slot, and asks nobody. -/
def Fresh (clk : Nat → Time) : Prop :=
  ∃ cache ∈ s.reader.cache, ∃ e ∈ cache.entries[keyFor s.query]?, timeSub (clk 0) e.fetchedAt <
    cache.maxAge

instance (clk : Nat → Time) : Decidable (s.Fresh clk) :=
  inferInstanceAs (Decidable (∃ cache ∈ _, ∃ e ∈ _, _ < _))

def KeepsUp : LookupAction → Prop
  | .lookup seeds clk => ¬ s.Fresh clk → s.Reached (seeds (raw s.query))
  | .fetch seeds _ q => keyFor q = keyFor s.query → s.Reached (seeds (raw q))

instance : ∀ a, Decidable (s.KeepsUp a)
  | .lookup _ _ => inferInstanceAs (Decidable (_ → s.Reached _))
  | .fetch _ _ _ => inferInstanceAs (Decidable (_ → s.Reached _))

/-- The indexes went up so far, to at most `held`. -/
structure Rising : Prop where
  sorted : s.indexes.Pairwise (· ≤ ·)
  below : ∀ i ∈ s.indexes, ∃ h ∈ s.held, i ≤ h

variable {s}

theorem Reached.index_le {answers : List Answer} {lr : LookupResult} (h : s.Reached answers)
    (hlookup : SeedClient.lookup answers = .ok lr) : ∀ i ∈ s.held, i ≤ lr.index := by
  obtain ⟨hanswered, hreached⟩ := lookup_index hlookup
  exact fun i hi => hreached i (h hanswered i hi)

namespace Rising

variable {s' : Lookups}

/-- The held index goes up, and no answer is given. -/
theorem refill (h : Rising s) (hindexes : s'.indexes = s.indexes) {j : Nat} (hheld : s'.held = some j)
    (hle : ∀ i ∈ s.held, i ≤ j) : Rising s' := by
  refine ⟨by rw [hindexes]; exact h.sorted, fun i hi => ⟨j, hheld, ?_⟩⟩
  rw [hindexes] at hi
  obtain ⟨k, hk, hik⟩ := h.below i hi
  exact hik.trans (hle k hk)

/-- An answer with the index that is held from then on. -/
theorem answer (h : Rising s) {j : Nat} (hindexes : s'.indexes = s.indexes ++ [j])
    (hheld : s'.held = some j) (hle : ∀ i ∈ s.held, i ≤ j) : Rising s' := by
  have hbelow : ∀ i ∈ s.indexes, i ≤ j := by
    intro i hi
    obtain ⟨k, hk, hik⟩ := h.below i hi
    exact hik.trans (hle k hk)
  refine ⟨?_, fun i hi => ⟨j, hheld, ?_⟩⟩
  · rw [hindexes, List.pairwise_append]
    refine ⟨h.sorted, List.pairwise_singleton _ _, fun i hi k hk => ?_⟩
    rw [List.mem_singleton.mp hk]
    exact hbelow i hi
  · rw [hindexes] at hi
    rcases List.mem_append.mp hi with hi | hi
    · exact hbelow i hi
    · rw [List.mem_singleton.mp hi]

end Rising

/-! ## One step -/

theorem fetch_answer {c : Cache} {client : Client} {now : Time} {q : Query} {f : Fetched}
    (h : c.fetch client now q = .ok f) :
    client (raw q) = .ok f.answer ∧ f.entry.index = f.answer.index := by
  unfold Cache.fetch at h
  split at h <;> rename_i hclient
  · cases h
  · obtain rfl := Except.ok.inj h
    exact ⟨hclient, rfl⟩

theorem slot_of_fetch {c : Cache} {client : Client} {now : Time} {q : Query} {f : Fetched}
    (h : c.fetch client now q = .ok f) (k : CacheKey) :
    f.cache.entries[k]? = if keyFor q = k then some f.entry else c.entries[k]? := by
  rw [(fetch_ok h).1, Std.ExtTreeMap.getElem?_insert]
  simp only [Std.compare_eq_iff_eq]

theorem directLookup_index {r : Reader} {q : Query} {lr : LookupResult}
    (h : r.directLookup q = .ok lr) :
    ∃ full, r.client (raw q) = .ok full ∧ lr.index = full.index := by
  unfold Reader.directLookup at h
  split at h <;> rename_i hclient
  · cases h
  · obtain rfl := Except.ok.inj h
    refine ⟨_, hclient, ?_⟩
    split <;> rfl

theorem Rising.fetch (h : Rising s) (seeds : Answers) (now : Time) (q : Query)
    (hup : s.KeepsUp (.fetch seeds now q)) : Rising (s.step (.fetch seeds now q)) := by
  dsimp only [Lookups.step]
  split
  · exact h
  · rename_i cache hcache
    split
    · exact h
    · rename_i f hf
      obtain ⟨hclient, hindex⟩ := fetch_answer hf
      have hslot := slot_of_fetch hf (keyFor s.query)
      by_cases hkey : keyFor q = keyFor s.query
      · refine h.refill rfl ?_ ((hup hkey).index_le hclient)
        rw [if_pos hkey] at hslot
        simp only [held, hslot, Option.map_some, hindex]
      · rw [if_neg hkey] at hslot
        refine ⟨h.sorted, fun i hi => ?_⟩
        obtain ⟨k, hk, hik⟩ := h.below i hi
        refine ⟨k, ?_, hik⟩
        simpa only [held, hcache, hslot] using hk

theorem Rising.lookup_cached (h : Rising s) {cache : Cache} (hcache : s.reader.cache = some cache)
    (seeds : Answers) (clk : Nat → Time) (hup : s.KeepsUp (.lookup seeds clk)) :
    Rising (s.step (.lookup seeds clk)) := by
  have hheld : s.held = cache.entries[keyFor s.query]?.map CacheEntry.index := by
    simp only [held, hcache]
  have hsame : ∀ s' : Lookups, s'.indexes = s.indexes → s'.held = s.held → Rising s' := by
    intro s' hindexes hheld
    exact ⟨by rw [hindexes]; exact h.sorted, by rw [hindexes, hheld]; exact h.below⟩
  simp only [Lookups.step, Reader.lookup, hcache, Cache.lookupWithAge]
  cases hpick : cache.pick seeds.client clk s.query with
  | cached e =>
    have hslot := pick_cached hpick
    rw [hslot, Option.map_some] at hheld
    refine h.answer (j := e.index) rfl ?_ ?_
    · simp only [held, serve, hslot, Option.map_some]
    · rw [hheld]
      exact fun i hi => le_of_eq (Option.some.inj hi).symm
  | fetched f =>
    have hf := pick_fetched hpick
    obtain ⟨hclient, hindex⟩ := fetch_answer hf
    have hslot := slot_of_fetch hf (keyFor s.query)
    rw [if_pos rfl] at hslot
    have hstale : ¬ s.Fresh clk := by
      rintro ⟨cache', hcache', e, he, hfresh⟩
      obtain rfl := Option.some.inj (hcache.symm.trans hcache')
      rw [pick_of_fresh he hfresh] at hpick
      cases hpick
    refine h.answer (j := f.entry.index) rfl ?_ ?_
    · simp only [held, serve, hslot, Option.map_some]
    · rw [hindex]
      exact (hup hstale).index_le hclient
  | failed err => exact hsame _ rfl hheld.symm
  | crashed => exact hsame _ rfl hheld.symm

theorem Rising.lookup_direct (h : Rising s) (hcache : s.reader.cache = none) (seeds : Answers)
    (clk : Nat → Time) (hup : s.KeepsUp (.lookup seeds clk)) :
    Rising (s.step (.lookup seeds clk)) := by
  let r : Reader := { s.reader with client := seeds.client }
  have hlookup : r.lookup clk s.query = (r, Reader.ofDirect (r.directLookup s.query)) := by
    simp only [Reader.lookup, r, hcache]
  simp only [Lookups.step, hlookup, r]
  cases hdirect : r.directLookup s.query with
  | error err => exact ⟨h.sorted, by simpa only [held, Reader.ofDirect, hcache] using h.below⟩
  | ok lr =>
    obtain ⟨full, hclient, hindex⟩ := directLookup_index hdirect
    have hstale : ¬ s.Fresh clk := by
      rintro ⟨cache, hcache', -⟩
      rw [hcache] at hcache'
      cases hcache'
    refine h.answer (j := lr.index) rfl ?_ ?_
    · simp only [held, Reader.ofDirect, hcache, List.getLast?_concat]
    · rw [hindex]
      exact (hup hstale).index_le hclient

theorem Rising.step (h : Rising s) (a : LookupAction) (hup : s.KeepsUp a) : Rising (s.step a) := by
  cases a with
  | fetch seeds now q => exact h.fetch seeds now q hup
  | lookup seeds clk =>
    cases hcache : s.reader.cache with
    | none => exact h.lookup_direct hcache seeds clk hup
    | some cache => exact h.lookup_cached hcache seeds clk hup

end Lookups

/-! ## Runs -/

/-- The index of the lookups of a query goes up as long as, at every fan-out, some seed that answers
has caught up with it. -/
theorem lookup_index_monotone (q : Query) (reader : Reader) (actions : List LookupAction)
    (hrun : Throughout Lookups.step Lookups.KeepsUp { query := q, reader := reader } actions) :
    (Lookups.run { query := q, reader := reader } actions).indexes.Pairwise (· ≤ ·) := by
  have hrising := hrun.keeps Lookups.Rising ⟨List.Pairwise.nil, by simp⟩ fun s a ha h => h.step a ha
  exact hrising.sorted

/-- The seeds with these addresses and indexes answer. -/
def answeringAt (indexes : List (String × Nat)) : Answers :=
  fun _ => indexes.map fun p => { addr := p.1, reply := .ok { index := p.2 } }

def cachedReader : Reader := { client := fun _ => .ok {}, cache := some (newCache 0) }

/-- The second lookup is answered from the slot, and which seeds are there does not matter to it. -/
theorem lookup_index_second_seed_lost :
    (Lookups.run { query := { name := "web" }, reader := cachedReader }
      [.lookup (answeringAt [("a", 9), ("b", 5)]) fun _ => 0,
        .lookup (answeringAt [("b", 5)]) fun _ => second,
        .lookup (answeringAt [("a", 9)]) fun _ => 10 * second]).indexes.Pairwise (· ≤ ·) :=
  lookup_index_monotone { name := "web" } cachedReader _ (by decide)

/-- The seed that is ahead does not answer the second time. -/
theorem lookup_index_falls :
    ¬ ∀ (q : Query) (reader : Reader) (actions : List LookupAction),
      (Lookups.run { query := q, reader := reader } actions).indexes.Pairwise (· ≤ ·) := by
  intro h
  have hsorted :=
    h { name := "web" } cachedReader [.lookup (answeringAt [("a", 9), ("b", 5)]) fun _ => 0,
    .lookup (answeringAt [("b", 5)]) fun _ => 10 * second]
  revert hsorted
  decide

end YellowPages.SeedClient
