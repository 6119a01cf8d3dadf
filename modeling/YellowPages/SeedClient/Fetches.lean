import YellowPages.Lib.Threads
import YellowPages.SeedClient.Cache

/-!
# Reads and refreshes at the same time

`LookupWithAge` and `Refresh` take the lock of the cache to look at a slot and to fill it, and not for
the fan-out in between. A fetch fills its slot with what it got, whatever is there by then.
-/

namespace YellowPages.SeedClient

open Lib

/-! ## The calls -/

def defaultSeedTimeout : Duration := 3 * second

/-- The timeout of `New`. -/
def newSeedTimeout (seedTimeout : Duration) : Duration :=
  if seedTimeout ≤ 0 then defaultSeedTimeout else seedTimeout

inductive Caller where
  /-- `stale`: the slot has an entry, too old to be served. -/
  | lookupWithAge (stale : Bool)
  | refresh (rest : List Query)

/-- Where a call is. -/
inductive Job where
  /-- The seeds are being asked. -/
  | asking (caller : Caller) (q : Query) (started : Time)
  /-- Their answers, as of `taken`, are on the way. -/
  | answering (caller : Caller) (q : Query) (started taken : Time)
  /-- The fan-out is over and the entry made. The lock is not taken yet. -/
  | storing (caller : Caller) (e : CacheEntry) (taken : Time)
  /-- The entry to be served is chosen, its age not yet taken. -/
  | serving (q : Query) (e : CacheEntry)
  | done
  | crashed

/-- A read that was served, and when. -/
structure Reading where
  readAt : Time
  query : Query
  outcome : Served

/-- What a slot was filled with. -/
structure Snapshot where
  key : CacheKey
  taken : Time
  deriving DecidableEq

/-- A cache with its calls. `seeds` is what the seeds hold over time. -/
structure Fetching where
  seeds : Time → Client
  seedTimeout : Duration
  now : Time
  cache : Cache
  jobs : Threads Job := ∅
  stored : List Snapshot := []
  served : List Reading := []

inductive FetchAction where
  | elapse (d : Nat)
  | lookupWithAge (id : Nat) (q : Query)
  | refresh (id : Nat) (order : RangeOrder CacheKey)
  | snapshot (id : Nat)
  | answer (id : Nat)
  | store (id : Nat)
  | serve (id : Nat)

namespace Job

/-- A seed that does not answer in time fails. -/
def inTime (timeout : Duration) (t : Time) : Job → Bool
  | .asking _ _ started | .answering _ _ started _ => t ≤ started + timeout
  | _ => true

/-- The next fetch of `Refresh`. -/
def next (now : Time) : List Query → Job
  | [] => .done
  | q :: rest => .asking (.refresh rest) q now

/-- After a failed fetch. `LookupWithAge` has overwritten the stale entry it means to serve with nil. -/
def failed (now : Time) : Caller → Job
  | .lookupWithAge stale => if stale then .crashed else .done
  | .refresh rest => next now rest

def stored (now : Time) (e : CacheEntry) : Caller → Job
  | .lookupWithAge _ => .serving e.query e
  | .refresh rest => next now rest

/-- The slot that a fetch has a snapshot for. -/
def holds : Job → Option Snapshot
  | .answering _ q _ taken => some ⟨keyFor q, taken⟩
  | .storing _ e taken => some ⟨keyFor e.query, taken⟩
  | _ => none

def holdsFor (j : Job) : Option CacheKey := j.holds.map Snapshot.key

/-- The slot that a fetch is about to have a snapshot for. -/
def wants : Job → Option CacheKey
  | .asking _ q _ => some (keyFor q)
  | _ => none

/-- The time on the entry that is about to be served. -/
def dated : Job → Option Time
  | .serving _ e => some e.fetchedAt
  | _ => none

end Job

/-- The read shows what the seeds held at some moment, which is not further back than the age it reports
and the timeout of a seed. -/
def Reading.Reflects (seeds : Time → Client) (timeout : Duration) (r : Reading) : Prop :=
  ∀ result age, r.outcome = .ok result age → ∃ t q' lr, r.readAt - (age + timeout) ≤ t ∧
    t ≤ r.readAt ∧
    keyFor q' = keyFor r.query ∧ seeds t (raw q') = .ok lr ∧
      result = { entries := shown r.query lr.entries, index := lr.index }

namespace Fetching

def new (seeds : Time → Client) (seedTimeout maxAge : Duration) (now : Time) : Fetching :=
  { seeds := seeds, seedTimeout := newSeedTimeout seedTimeout, now := now, cache := newCache maxAge }

variable (s : Fetching)

def put (id : Nat) (j : Job) : Fetching := { s with jobs := s.jobs.insert id j }

def enter (id : Nat) (j : Job) : Fetching := if id ∈ s.jobs then s else s.put id j

/-- The entry of a slot, if it can be served as it is. -/
def fresh (q : Query) : Option CacheEntry :=
  s.cache.entries[keyFor q]?.filter fun e => timeSub s.now e.fetchedAt < s.cache.maxAge

def answered (id : Nat) (caller : Caller) (q : Query) (taken : Time) : Fetching :=
  match s.seeds taken (raw q) with
  | .error _ => s.put id (.failed s.now caller)
  | .ok lr =>
    let e := { query := q, merged := lr.entries, index := lr.index, fetchedAt := s.now }
    s.put id (.storing caller e taken)

def fill (id : Nat) (caller : Caller) (e : CacheEntry) (taken : Time) : Fetching :=
  { s.put id (.stored s.now e caller) with
    cache := { s.cache with entries := s.cache.entries.insert (keyFor e.query) e }
    stored := s.stored ++ [⟨keyFor e.query, taken⟩] }

/-- A step that a call is not at changes nothing. -/
def step : FetchAction → Fetching
  | .elapse d =>
    if s.jobs.toList.all fun p => p.2.inTime s.seedTimeout (s.now + d) then
      { s with now := s.now + d }
    else s
  | .lookupWithAge id q =>
    match s.fresh q with
    | some e => s.enter id (.serving q e)
    | none => s.enter id (.asking (.lookupWithAge (s.cache.entries.contains (keyFor q))) q s.now)
  | .refresh id order =>
    let queries :=
      (order.visit s.cache.entries.keys).filterMap fun k => s.cache.entries[k]?.map CacheEntry.query
    s.enter id (.next s.now queries)
  | .snapshot id =>
    match s.jobs[id]? with
    | some (.asking caller q started) => s.put id (.answering caller q started s.now)
    | _ => s
  | .answer id =>
    match s.jobs[id]? with
    | some (.answering caller q _ taken) => s.answered id caller q taken
    | _ => s
  | .store id =>
    match s.jobs[id]? with
    | some (.storing caller e taken) => s.fill id caller e taken
    | _ => s
  | .serve id =>
    match s.jobs[id]? with
    | some (.serving q e) =>
      { s.put id .done with served := s.served ++ [⟨s.now, q, SeedClient.serve e s.now q⟩] }
    | _ => s

def run (actions : List FetchAction) : Fetching := actions.foldl step s

/-! ## What is asked of the cache -/

/-- The snapshots a slot held, one after the other. -/
def history (k : CacheKey) : List Time := (s.stored.filter (·.key = k)).map Snapshot.taken


/-- A fetch takes its snapshot when no other fetch has one that it is yet to store in the same slot. -/
def Apart : FetchAction → Prop
  | .snapshot id => ∀ k ∈ s.jobs[id]?.bind Job.wants, ∀ p ∈ s.jobs.toList, p.2.holdsFor ≠ some k
  | _ => True

instance : ∀ a, Decidable (s.Apart a)
  | .snapshot _ => inferInstanceAs (Decidable (∀ k ∈ _, ∀ p ∈ _, _))
  | .elapse _ | .lookupWithAge _ _ | .refresh _ _ | .answer _ | .store _ | .serve _ =>
    inferInstanceAs (Decidable True)

/-- An entry is served before its age leaves the range of a `Duration`. -/
def InRange : FetchAction → Prop
  | .serve id => ∀ t ∈ s.jobs[id]?.bind Job.dated, s.now - t < 2 ^ 63
  | _ => True

instance : ∀ a, Decidable (s.InRange a)
  | .serve _ => inferInstanceAs (Decidable (∀ t ∈ _, _))
  | .elapse _ | .lookupWithAge _ _ | .refresh _ _ | .snapshot _ | .answer _ | .store _ =>
    inferInstanceAs (Decidable True)

end Fetching

/-! ## What one step does -/

/-- The jobs that a call starts with. -/
def Fetching.Begins (s : Fetching) : Job → Prop
  | .serving q e => s.cache.entries[keyFor q]? = some e
  | .asking _ _ started => started = s.now
  | .done => True
  | .answering .. | .storing .. | .crashed => False

inductive FetchTurn (s : Fetching) : FetchAction → Fetching → Prop where
  | idle {a : FetchAction} : FetchTurn s a s
  | elapse {d : Nat} (hjobs : Each (·.inTime s.seedTimeout (s.now + d) = true) s.jobs) :
      FetchTurn s (.elapse d) { s with now := s.now + d }
  | enter {a : FetchAction} {id : Nat} {j : Job} (hnew : id ∉ s.jobs) (hj : s.Begins j) :
      FetchTurn s a (s.put id j)
  | snapshot {id : Nat} {caller : Caller} {q : Query} {started : Time}
      (hj : s.jobs[id]? = some (.asking caller q started)) :
      FetchTurn s (.snapshot id) (s.put id (.answering caller q started s.now))
  | fail {id : Nat} {caller : Caller} {q : Query} {started taken : Time}
      (hj : s.jobs[id]? = some (.answering caller q started taken)) :
      FetchTurn s (.answer id) (s.put id (.failed s.now caller))
  | answer {id : Nat} {caller : Caller} {q : Query} {started taken : Time} {lr : LookupResult}
      (hj : s.jobs[id]? = some (.answering caller q started taken))
        (hlr : s.seeds taken (raw q) = .ok lr) :
      FetchTurn s (.answer id) (s.put id (.storing caller
        { query := q, merged := lr.entries, index := lr.index, fetchedAt := s.now } taken))
  | store {id : Nat} {caller : Caller} {e : CacheEntry} {taken : Time}
      (hj : s.jobs[id]? = some (.storing caller e taken)) :
        FetchTurn s (.store id) (s.fill id caller e taken)
  | serve {id : Nat} {q : Query} {e : CacheEntry} (hj : s.jobs[id]? = some (.serving q e)) :
      FetchTurn s (.serve id)
        { s.put id .done with served := s.served ++ [⟨s.now, q, SeedClient.serve e s.now q⟩] }

namespace FetchTurn

variable {s : Fetching}

theorem of_begins {a : FetchAction} {id : Nat} {j : Job} (hj : s.Begins j) :
    FetchTurn s a (s.enter id j) := by
  unfold Fetching.enter
  split
  · exact .idle
  · exact .enter (by assumption) hj

theorem begins_next (queries : List Query) : s.Begins (.next s.now queries) := by
  cases queries with
  | nil => trivial
  | cons q rest => rfl

end FetchTurn

theorem step_turn (s : Fetching) (a : FetchAction) : FetchTurn s a (s.step a) := by
  cases a with
  | elapse d =>
    dsimp only [Fetching.step]
    split <;> rename_i hall
    · refine .elapse fun id j hj => ?_
      exact List.all_eq_true.mp hall (id, j) (Std.ExtTreeMap.mem_toList_iff_getElem?_eq_some.mpr hj)
    · exact .idle
  | lookupWithAge id q =>
    dsimp only [Fetching.step]
    split <;> rename_i hfresh
    · exact .of_begins (Option.filter_eq_some_iff.mp hfresh).1
    · exact .of_begins rfl
  | refresh id order => exact .of_begins (FetchTurn.begins_next _)
  | snapshot id =>
    dsimp only [Fetching.step]
    split <;> rename_i hj
    · exact .snapshot hj
    · exact .idle
  | answer id =>
    dsimp only [Fetching.step, Fetching.answered]
    split <;> rename_i hj
    · split <;> rename_i hseeds
      · exact .fail hj
      · exact .answer hj hseeds
    · exact .idle
  | store id =>
    dsimp only [Fetching.step]
    split <;> rename_i hj
    · exact .store hj
    · exact .idle
  | serve id =>
    dsimp only [Fetching.step]
    split <;> rename_i hj
    · exact .serve hj
    · exact .idle

/-! ## Where entries come from -/

section Origin

variable (seeds : Time → Client) (timeout : Duration) (now : Time)

/-- The entry shows a snapshot, and was made within the timeout of a seed. -/
structure Made (e : CacheEntry) (taken : Time) : Prop where
  answer : seeds taken (raw e.query) = .ok { entries := e.merged, index := e.index }
  taken_le : taken ≤ e.fetchedAt
  late : e.fetchedAt ≤ taken + timeout
  past : e.fetchedAt ≤ now

/-- The times that a call carries fit each other. -/
def Job.Timed : Job → Prop
  | .asking _ _ started => started ≤ now ∧ now ≤ started + timeout
  | .answering _ _ started taken => started ≤ taken ∧ taken ≤ now ∧ now ≤ started + timeout
  | .storing _ e taken => Made seeds timeout now e taken
  | .serving q e => keyFor e.query = keyFor q ∧ ∃ taken, Made seeds timeout now e taken
  | .done | .crashed => True

variable {seeds timeout now}

theorem newSeedTimeout_pos (d : Duration) : 0 < newSeedTimeout d := by
  have hdefault : 0 < defaultSeedTimeout := by decide
  unfold newSeedTimeout
  split <;> rename_i hd
  · exact hdefault
  · exact not_le.mp hd

theorem Made.later {e : CacheEntry} {taken now' : Time} (h : Made seeds timeout now e taken)
    (hle : now ≤ now') :
    Made seeds timeout now' e taken :=
  { h with past := h.past.trans hle }

namespace Job

theorem Timed.later {j : Job} {now' : Time} (h : j.Timed seeds timeout now) (hle : now ≤ now')
    (hj : j.inTime timeout now' = true) : j.Timed seeds timeout now' := by
  cases j with
  | asking caller q started => exact ⟨h.1.trans hle, of_decide_eq_true hj⟩
  | answering caller q started taken => exact ⟨h.1, h.2.1.trans hle, of_decide_eq_true hj⟩
  | storing caller e taken => exact Made.later h hle
  | serving q e =>
    obtain ⟨hkey, taken, hmade⟩ := h
    exact ⟨hkey, taken, hmade.later hle⟩
  | done => trivial
  | crashed => trivial

theorem timed_asking (htimeout : 0 < timeout) (caller : Caller) (q : Query) :
    (Job.asking caller q now).Timed seeds timeout now :=
  ⟨le_refl _, le_add_of_nonneg_right htimeout.le⟩

theorem timed_next (htimeout : 0 < timeout) (queries : List Query) :
    (next now queries).Timed seeds timeout now := by
  cases queries with
  | nil => trivial
  | cons q rest => exact timed_asking htimeout _ q

theorem timed_failed (htimeout : 0 < timeout) (caller : Caller) :
    (failed now caller).Timed seeds timeout now := by
  cases caller with
  | lookupWithAge stale => cases stale <;> trivial
  | refresh rest => exact timed_next htimeout rest

theorem timed_stored (htimeout : 0 < timeout) {e : CacheEntry} {taken : Time}
    (h : Made seeds timeout now e taken) (caller : Caller) :
    (stored now e caller).Timed seeds timeout now := by
  cases caller with
  | lookupWithAge stale => exact ⟨rfl, taken, h⟩
  | refresh rest => exact timed_next htimeout rest

end Job

theorem timeSub_of_lt {t u : Int} (hle : u ≤ t) (h : t - u < 2 ^ 63) : timeSub t u = t - u := by
  have hhigh : t - u ≤ 2 ^ 63 - 1 := by omega
  have hlow : -2 ^ 63 ≤ t - u := by omega
  unfold timeSub
  rw [min_eq_right hhigh, max_eq_right hlow]

/-- An entry whose age is in range is served with that age. -/
theorem Made.reflects {e : CacheEntry} {taken : Time} {q : Query} (h : Made seeds timeout now e taken)
    (hkey : keyFor e.query = keyFor q) (hage : now - e.fetchedAt < 2 ^ 63) :
    Reading.Reflects seeds timeout ⟨now, q, serve e now q⟩ := by
  rintro result age houtcome
  obtain ⟨rfl, rfl⟩ := Served.ok.inj houtcome
  have hback : ∀ now' fetchedAt taken timeout : Int, fetchedAt ≤ taken + timeout →
      now' - (now' - fetchedAt + timeout) ≤ taken := by
    intros
    omega
  refine ⟨taken, e.query, _, ?_, h.taken_le.trans h.past, hkey, h.answer, rfl⟩
  rw [timeSub_of_lt h.past hage]
  exact hback now _ _ _ h.late

end Origin

namespace Fetching

structure Sound (s : Fetching) : Prop where
  timeout : 0 < s.seedTimeout
  jobs : Each (·.Timed s.seeds s.seedTimeout s.now) s.jobs
  slots : ∀ k e, s.cache.entries[k]? = some e →
    keyFor e.query = k ∧ ∃ taken, Made s.seeds s.seedTimeout s.now e taken

variable {s : Fetching}

namespace Sound

theorem new (seeds : Time → Client) (seedTimeout maxAge : Duration) (now : Time) :
    Sound (Fetching.new seeds seedTimeout maxAge now) where
  timeout := newSeedTimeout_pos seedTimeout
  jobs := Each.empty _
  slots k e h := by simp [Fetching.new, newCache] at h

theorem put (h : Sound s) (id : Nat) {j : Job} (hj : j.Timed s.seeds s.seedTimeout s.now) :
    Sound (s.put id j) where
  timeout := h.timeout
  jobs := h.jobs.insert id hj fun _ _ _ _ hu => hu
  slots := h.slots

theorem begins (h : Sound s) {j : Job} (hj : s.Begins j) : j.Timed s.seeds s.seedTimeout s.now := by
  cases j with
  | asking caller q started =>
    obtain rfl := hj
    exact Job.timed_asking h.timeout caller q
  | serving q e => exact h.slots _ e hj
  | done => trivial
  | answering => cases hj
  | storing => cases hj
  | crashed => cases hj

theorem fill (h : Sound s) (id : Nat) (caller : Caller) {e : CacheEntry} {taken : Time}
    (hmade : Made s.seeds s.seedTimeout s.now e taken) : Sound (s.fill id caller e taken) := by
  have hput := h.put id (Job.timed_stored h.timeout hmade caller)
  refine ⟨h.timeout, hput.jobs, fun k e' he' => ?_⟩
  dsimp only [Fetching.fill] at he'
  rw [Std.ExtTreeMap.getElem?_insert] at he'
  split at he' <;> rename_i hk
  · obtain rfl := Option.some.inj he'
    exact ⟨Std.compare_eq_iff_eq.mp hk, taken, hmade⟩
  · exact h.slots k e' he'

theorem turn {s' : Fetching} {a : FetchAction} (h : Sound s) (hturn : FetchTurn s a s') : Sound s' := by
  cases hturn with
  | idle => exact h
  | @elapse d hjobs =>
    have hle : s.now ≤ s.now + d := le_add_of_nonneg_right (Int.natCast_nonneg d)
    refine ⟨h.timeout, fun id j hj => (h.jobs id j hj).later hle (hjobs id j hj), fun k e he => ?_⟩
    obtain ⟨hkey, taken, hmade⟩ := h.slots k e he
    exact ⟨hkey, taken, hmade.later hle⟩
  | enter _ hj => exact h.put _ (h.begins hj)
  | snapshot hj =>
    obtain ⟨hstarted, hnow⟩ := h.jobs _ _ hj
    exact h.put _ ⟨hstarted, le_refl _, hnow⟩
  | fail hj => exact h.put _ (Job.timed_failed h.timeout _)
  | answer hj hlr =>
    obtain ⟨hstarted, htaken, hnow⟩ := h.jobs _ _ hj
    exact h.put _ ⟨hlr, htaken, hnow.trans (add_le_add_left hstarted _), le_refl _⟩
  | store hj => exact h.fill _ _ (h.jobs _ _ hj)
  | @serve id q e hj =>
    have hput : Sound (s.put id .done) := h.put id trivial
    exact ⟨hput.timeout, hput.jobs, hput.slots⟩

end Sound

theorem turn_seeds {s' : Fetching} {a : FetchAction} (hturn : FetchTurn s a s') :
    s'.seeds = s.seeds ∧ s'.seedTimeout = s.seedTimeout := by
  cases hturn <;> exact ⟨rfl, rfl⟩

def AllReflect (s : Fetching) : Prop := ∀ r ∈ s.served, r.Reflects s.seeds s.seedTimeout

theorem AllReflect.turn {s' : Fetching} {a : FetchAction} (h : AllReflect s) (hsound : Sound s)
    (ha : s.InRange a) (hturn : FetchTurn s a s') : AllReflect s' := by
  cases hturn with
  | @serve id q e hj =>
    obtain ⟨hkey, taken, hmade⟩ := hsound.jobs id _ hj
    have hage : s.now - e.fetchedAt < 2 ^ 63 := ha e.fetchedAt (by simp [hj, Job.dated])
    intro r hr
    rcases List.mem_append.mp hr with hr | hr
    · exact h r hr
    · rw [List.mem_singleton.mp hr]
      exact hmade.reflects hkey hage
  | _ => exact h

/-! ## The order of the snapshots -/

/-- Each slot has at most one snapshot on its way, and that one is not behind what the slot held. -/
structure InOrder (s : Fetching) : Prop where
  past : ∀ x ∈ s.stored, x.taken ≤ s.now
  solo : Solo Job.holdsFor s.jobs
  ahead : Each (fun j => ∀ x ∈ j.holds, ∀ y ∈ s.stored, y.key = x.key → y.taken ≤ x.taken) s.jobs
  sorted : ∀ k, (s.history k).Pairwise (· ≤ ·)

theorem holds_next (now : Time) (queries : List Query) : (Job.next now queries).holds = none := by
  cases queries <;> rfl

theorem holds_failed (now : Time) (caller : Caller) : (Job.failed now caller).holds = none := by
  cases caller with
  | lookupWithAge stale => cases stale <;> rfl
  | refresh rest => exact holds_next now rest

theorem holds_stored (now : Time) (e : CacheEntry) (caller : Caller) :
    (Job.stored now e caller).holds = none := by
  cases caller with
  | lookupWithAge stale => rfl
  | refresh rest => exact holds_next now rest

theorem history_append (k : CacheKey) (x : Snapshot) (s' : Fetching)
    (hs' : s'.stored = s.stored ++ [x]) :
    s'.history k = if x.key = k then s.history k ++ [x.taken] else s.history k := by
  unfold history
  rw [hs', List.filter_append, List.map_append]
  split <;> rename_i hk <;> simp [hk]

namespace InOrder

theorem new (seeds : Time → Client) (seedTimeout maxAge : Duration) (now : Time) :
    InOrder (Fetching.new seeds seedTimeout maxAge now) where
  past x hx := by simp [Fetching.new] at hx
  solo := Solo.empty _
  ahead := Each.empty _
  sorted k := by simp [Fetching.new, history]

/-- A call that has no snapshot moves on, or keeps the one it has. -/
theorem put (h : InOrder s) {id : Nat} {j j' : Job} (hj : s.jobs[id]? = some j)
    (hholds : j'.holds = none ∨ j'.holds = j.holds) : InOrder (s.put id j') where
  past := h.past
  solo := by
    refine h.solo.move hj ?_
    unfold Job.holdsFor
    rcases hholds with hholds | hholds <;> rw [hholds]
    · exact Or.inl rfl
    · exact Or.inr rfl
  ahead := by
    refine h.ahead.insert id ?_ fun _ _ _ _ hu => hu
    rcases hholds with hholds | hholds <;> rw [hholds]
    · intro x hx
      cases hx
    · exact h.ahead id j hj
  sorted := h.sorted

theorem enter (h : InOrder s) (id : Nat) {j : Job} (hj : s.Begins j) : InOrder (s.put id j) := by
  have hholds : j.holds = none := by
    cases j with
    | asking | serving | done => rfl
    | answering | storing | crashed => cases hj
  refine ⟨h.past, h.solo.insert id ?_, h.ahead.insert id ?_ fun _ _ _ _ hu => hu, h.sorted⟩
  · intro k hk
    rw [Job.holdsFor, hholds] at hk
    cases hk
  · intro x hx
    rw [hholds] at hx
    cases hx

theorem snapshot (h : InOrder s) {id : Nat} {caller : Caller} {q : Query} {started : Time}
    (hfree : ∀ p ∈ s.jobs.toList, p.2.holdsFor ≠ some (keyFor q)) :
    InOrder (s.put id (.answering caller q started s.now)) where
  past := h.past
  solo := by
    refine h.solo.insert id fun k hk other u _ hu => ?_
    obtain rfl := Option.some.inj hk
    exact hfree (other, u) (Std.ExtTreeMap.mem_toList_iff_getElem?_eq_some.mpr hu)
  ahead := by
    refine h.ahead.insert id ?_ fun _ _ _ _ hu => hu
    intro x hx y hy _
    obtain rfl := Option.some.inj hx
    exact h.past y hy
  sorted := h.sorted

/-- The snapshot that is stored is the only one on its way to the slot. -/
theorem fill (h : InOrder s) {id : Nat} {caller : Caller} {e : CacheEntry} {taken : Time}
    (hj : s.jobs[id]? = some (.storing caller e taken)) (htaken : taken ≤ s.now) :
    InOrder (s.fill id caller e taken) where
  past x hx := by
    rcases List.mem_append.mp hx with hx | hx
    · exact h.past x hx
    · rw [List.mem_singleton.mp hx]
      exact htaken
  solo := (h.put hj (Or.inl (holds_stored s.now e caller))).solo
  ahead := by
    refine h.ahead.insert id ?_ fun other u hne hu hold x hx y hy hkey => ?_
    · intro x hx
      rw [holds_stored] at hx
      cases hx
    · rcases List.mem_append.mp hy with hy | hy
      · exact hold x hx y hy hkey
      · -- Another call with a snapshot for this slot would not be alone.
        obtain rfl := List.mem_singleton.mp hy
        have hu' : u.holdsFor = some (keyFor e.query) := by
          rw [Job.holdsFor, Option.mem_def.mp hx, Option.map_some, ← hkey]
        exact absurd (h.solo other id u _ _ hu hj hu' rfl) hne
  sorted k := by
    rw [history_append k ⟨keyFor e.query, taken⟩ _ rfl]
    split <;> rename_i hk
    · rw [List.pairwise_append]
      refine ⟨h.sorted k, List.pairwise_singleton _ _, fun t ht t' ht' => ?_⟩
      obtain ⟨y, hy, rfl⟩ := List.mem_map.mp ht
      obtain ⟨hy, hykey⟩ := List.mem_filter.mp hy
      rw [List.mem_singleton.mp ht']
      exact h.ahead id _ hj ⟨keyFor e.query, taken⟩ rfl y hy
        ((of_decide_eq_true hykey).trans hk.symm)
    · exact h.sorted k

theorem turn {s' : Fetching} {a : FetchAction} (h : InOrder s) (hsound : Sound s) (ha : s.Apart a)
    (hturn : FetchTurn s a s') : InOrder s' := by
  cases hturn with
  | idle => exact h
  | elapse hjobs =>
    refine ⟨fun x hx => (h.past x hx).trans ?_, h.solo, h.ahead, h.sorted⟩
    exact le_add_of_nonneg_right (Int.natCast_nonneg _)
  | enter _ hj => exact h.enter _ hj
  | @snapshot id caller q started hj => exact h.snapshot (ha (keyFor q) (by simp [hj, Job.wants]))
  | fail hj => exact h.put hj (Or.inl (holds_failed s.now _))
  | answer hj _ => exact h.put hj (Or.inr rfl)
  | @store id caller e taken hj =>
    have hmade : Made s.seeds s.seedTimeout s.now e taken := hsound.jobs id _ hj
    exact h.fill hj (hmade.taken_le.trans hmade.past)
  | @serve id q e hj =>
    have hput : InOrder (s.put id .done) := h.put hj (Or.inl rfl)
    exact ⟨hput.past, hput.solo, hput.ahead, hput.sorted⟩

end InOrder

end Fetching

/-! ## Runs -/

/-- What a slot holds does not go back in time as long as at most one snapshot at a time is on its
way to it. No read is older than it says by more than the timeout of a seed. -/
theorem cached_reads_in_order (seeds : Time → Client) (seedTimeout maxAge : Duration) (now : Time)
    (actions : List FetchAction) :
    let start := Fetching.new seeds seedTimeout maxAge now
    (Throughout Fetching.step Fetching.Apart start actions →
        ∀ k, ((start.run actions).history k).Pairwise (· ≤ ·)) ∧
      (Throughout Fetching.step Fetching.InRange start actions →
        ∀ r ∈ (start.run actions).served, r.Reflects seeds (newSeedTimeout seedTimeout)) := by
  intro start
  have hstart : start.Sound := Fetching.Sound.new seeds seedTimeout maxAge now
  constructor
  · intro hrun
    have hinv := hrun.keeps (fun s => s.Sound ∧ s.InOrder)
      ⟨hstart, Fetching.InOrder.new seeds seedTimeout maxAge now⟩
      (fun s a ha h => ⟨h.1.turn (step_turn s a), h.2.turn h.1 ha (step_turn s a)⟩)
    exact hinv.2.sorted
  · intro hrun
    have hinv := hrun.keeps
      (fun s => s.Sound ∧ s.AllReflect ∧ s.seeds = seeds ∧
        s.seedTimeout = newSeedTimeout seedTimeout)
      ⟨hstart, by simp [Fetching.AllReflect, start, Fetching.new], rfl, rfl⟩
      (fun s a ha h => ⟨h.1.turn (step_turn s a), h.2.1.turn h.1 ha (step_turn s a),
        (Fetching.turn_seeds (step_turn s a)).1.trans h.2.2.1,
          (Fetching.turn_seeds (step_turn s a)).2.trans h.2.2.2⟩)
    obtain ⟨-, hreflect, hseeds, htimeout⟩ := hinv
    rw [Fetching.AllReflect, hseeds, htimeout] at hreflect
    exact hreflect

def quietSeeds : Time → Client := fun _ _ => .ok {}

/-- One lookup after the other. The second one comes when the entry is too old. -/
def lookupTwice : List FetchAction :=
  [.lookupWithAge 0 { name := "web" }, .snapshot 0, .answer 0, .store 0, .serve 0, .elapse 6000000000,
    .lookupWithAge 1 { name := "web" }, .snapshot 1, .answer 1, .store 1, .serve 1]

theorem cached_reads_one_by_one :
    let s := (Fetching.new quietSeeds 0 0 0).run lookupTwice
    s.history (keyFor { name := "web" }) = [0, 6000000000] ∧
      (s.history (keyFor { name := "web" })).Pairwise
        (· ≤ ·) ∧ ∀ r ∈ s.served, r.Reflects quietSeeds (3 * second) := by
  intro s
  have h := cached_reads_in_order quietSeeds 0 0 0 lookupTwice
  exact ⟨by decide +kernel, h.1 (by decide +kernel) _, h.2 (by decide +kernel)⟩

/-- A fetch is slow, a later one fast. The slow one puts its older answer over the newer one. -/
theorem slow_fetch_overwrites :
    ¬ ∀ (seeds : Time → Client) (seedTimeout maxAge : Duration) (now : Time)
      (actions : List FetchAction),
      let s := (Fetching.new seeds seedTimeout maxAge now).run actions
      (∀ k, (s.history k).Pairwise (· ≤ ·)) ∧
        ∀ r ∈ s.served, r.Reflects seeds (newSeedTimeout seedTimeout) := by
  intro h
  have hsorted := (h quietSeeds 0 0 0 [.lookupWithAge 0 { name := "web" }, .snapshot 0, .elapse 1,
    .lookupWithAge 1 { name := "web" }, .snapshot 1, .answer 1, .store 1, .answer 0, .store 0]).1
    (keyFor { name := "web" })
  revert hsorted
  decide +kernel

end YellowPages.SeedClient
