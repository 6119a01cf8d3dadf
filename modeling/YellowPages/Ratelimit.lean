import YellowPages.Lib.Windows
import YellowPages.Model

/-!
# The rate limiter

`internal/ratelimit`: requests per second and key, counted in one window that all keys share. The
window is renewed by the first call after its end, and lasts a second from that call on.
-/

namespace YellowPages.Ratelimit

open Lib

structure Limiter where
  limit : Int
  counts : Map Nat := ∅
  resetAt : Time := zeroTime

def new (perSecond : Int) : Limiter := { limit := perSecond }

/-- The window, renewed if it is over. -/
def Limiter.renewed (l : Limiter) (now : Time) : Limiter :=
  if l.resetAt < now then { l with counts := ∅, resetAt := now + second } else l

/-- The clock is read under the lock, so calls have their readings in the order in which they count. -/
def Limiter.allow (l : Limiter) (now : Time) (key : String) : Bool × Limiter :=
  if l.limit ≤ 0 then (true, l)
  else
    let l := l.renewed now
    let count := l.counts.getD key 0 + 1
    (count ≤ l.limit, { l with counts := l.counts.insert key count })

/-! ## Runs -/

/-- A call, with what it found and what it was told. -/
structure Call where
  time : Time
  key : String
  starts : Bool
  allowed : Bool
  deriving DecidableEq

def serve (s : Limiter × List Call) (request : Time × String) : Limiter × List Call :=
  let (now, key) := request
  let (allowed, l) := s.1.allow now key
  (l, s.2 ++ [{ time := now, key := key, starts := s.1.resetAt < now, allowed := allowed }])

def serveAll (perSecond : Int) (requests : List (Time × String)) : Limiter × List Call :=
  requests.foldl serve (new perSecond, [])

theorem serveAll_concat (perSecond : Int) (requests : List (Time × String))
    (request : Time × String) :
    serveAll perSecond (requests ++ [request]) = serve (serveAll perSecond requests) request := by
  rw [serveAll, List.foldl_append]
  rfl

/-- Around the end of a window, a client has two calls within a nanosecond. -/
example :
    (serveAll 1 [(0, "b"), (second, "a"), (second + 1, "a"), (second + 1, "a")]).2.map Call.allowed =
    [true, true, true, false] := by decide +kernel

/-! ## One call -/

section Tracks

variable {n : Nat} {l : Limiter} {log : List Call} {now : Time} {key : String}

/-- The limiter against the calls it has seen. -/
structure Tracks (n : Nat) (l : Limiter) (log : List Call) : Prop where
  limit : l.limit = n
  counts : ∀ k, l.counts.getD k 0 = (window Call.starts log).countP (·.key = k)
  times : ∀ c ∈ log, c.time ≤ l.resetAt ∧ (c.starts = true → c.time + second ≤ l.resetAt)

theorem tracks_new (n : Nat) : Tracks n (new n) [] :=
  ⟨rfl, fun _ => Std.ExtTreeMap.getD_empty, by simp⟩

/-- Before the call counts, the window has its calls only if it is not over. -/
theorem Tracks.getD_renewed (h : Tracks n l log) (now : Time) (k : String) :
    (l.renewed now).counts.getD k 0 =
      if l.resetAt < now then 0 else (window Call.starts log).countP (·.key = k) := by
  unfold Limiter.renewed
  split
  · exact Std.ExtTreeMap.getD_empty
  · exact h.counts k

theorem Tracks.limit_renewed (h : Tracks n l log) (now : Time) : (l.renewed now).limit = n := by
  unfold Limiter.renewed
  split
  · exact h.limit
  · exact h.limit

theorem resetAt_renewed (l : Limiter) (now : Time) :
    l.resetAt ≤ (l.renewed now).resetAt ∧ now ≤ (l.renewed now).resetAt ∧
      (l.resetAt < now → now + second ≤ (l.renewed now).resetAt) := by
  have hsecond : 0 ≤ second := by decide
  unfold Limiter.renewed
  split <;> rename_i hover
  · exact ⟨hover.le.trans (le_add_of_nonneg_right hsecond), le_add_of_nonneg_right hsecond,
      fun _ => le_rfl⟩
  · exact ⟨le_rfl, not_lt.mp hover, fun h => absurd h hover⟩

theorem countP_window_concat (log : List Call) (c : Call) (k : String) :
    (window Call.starts (log ++ [c])).countP (·.key = k) =
      (if c.starts then 0 else (window Call.starts log).countP (·.key = k)) +
        if c.key = k then 1 else 0 := by
  rw [window_concat]
  split
  · simp [List.countP_singleton]
  · simp [List.countP_append, List.countP_singleton]

/-- A call counts itself among the calls of its key in the window, and is allowed up to the limit. -/
theorem Tracks.serve (hn : 0 < n) (h : Tracks n l log) (now : Time) (key : String) :
    ∃ c l', Ratelimit.serve (l, log) (now, key) = (l', log ++ [c]) ∧ c.time = now ∧
      c.starts = decide (l.resetAt < now) ∧
      (c.allowed = true ↔ (window Call.starts (log ++ [c])).countP (·.key = c.key) ≤ n) ∧
        Tracks n l' (log ++ [c]) := by
  have hlimit : ¬l.limit ≤ 0 := by
    rw [h.limit]
    omega
  have hcount : ∀ k, (l.renewed now).counts.getD k 0 =
      if decide (l.resetAt < now) = true then 0 else (window Call.starts log).countP (·.key = k) := by
    intro k
    rw [h.getD_renewed]
    simp only [decide_eq_true_eq]
  obtain ⟨hreset, hnow, hover⟩ := resetAt_renewed l now
  unfold Ratelimit.serve Limiter.allow
  dsimp only
  rw [if_neg hlimit]
  refine ⟨_, _, rfl, rfl, rfl, ?_, ?_⟩
  · rw [countP_window_concat, if_pos rfl, ← hcount, decide_eq_true_eq, h.limit_renewed]
    exact Nat.cast_le
  · refine ⟨h.limit_renewed now, fun k => ?_, fun c hc => ?_⟩
    · rw [countP_window_concat, ← hcount, Std.ExtTreeMap.getD_insert]
      by_cases hk : key = k
      · subst hk
        simp
      · simp [hk]
    · rcases List.mem_append.mp hc with hc | hc
      · exact ⟨(h.times c hc).1.trans hreset,
          fun hstarts => ((h.times c hc).2 hstarts).trans hreset⟩
      · rw [List.mem_singleton.mp hc]
        exact ⟨hnow, fun hstarts => hover (of_decide_eq_true hstarts)⟩

end Tracks

/-! ## Whole runs -/

section Runs

variable {n : Nat} {log : List Call}

/-- Every call is decided by the number of calls of its key in the window so far. -/
def Decided (n : Nat) (log : List Call) : Prop :=
  ∀ before c after, log = before ++ c :: after →
    (c.allowed = true ↔ (window Call.starts (before ++ [c])).countP (·.key = c.key) ≤ n)

theorem Decided.concat (h : Decided n log) {c : Call}
    (hc : c.allowed = true ↔ (window Call.starts (log ++ [c])).countP (·.key = c.key) ≤ n) :
    Decided n (log ++ [c]) := by
  intro before d after heq
  rcases List.eq_nil_or_concat after with rfl | ⟨after, d', rfl⟩
  · obtain ⟨rfl, hd⟩ := List.append_inj' heq rfl
    obtain rfl := List.singleton_inj.mp hd
    exact hc
  · rw [List.concat_eq_append, ← List.cons_append, ← List.append_assoc] at heq
    exact h before d after (List.append_inj' heq rfl).1

/-- A key has as many calls allowed in a window as it makes, up to the limit. -/
theorem Decided.allowed_le (h : Decided n log) (k : String) :
    (window Call.starts log).countP (fun c => c.key = k ∧ c.allowed = true) ≤ n := by
  induction log using List.reverseRecOn with
  | nil => exact Nat.zero_le n
  | append_singleton log c ih =>
    have hlog : Decided n log := fun before d after heq => h before d (after ++ [c]) (by rw [heq]; simp)
    by_cases hc : c.key = k ∧ c.allowed = true
    · -- the call is allowed, so all calls of the key are within the limit
      refine le_trans (List.countP_mono_left fun d _ hd => ?_) ((h log c [] rfl).mp hc.2)
      simp only [decide_eq_true_eq] at hd ⊢
      rw [hd.1, hc.1]
    · rw [window_concat]
      split
      · simp [hc]
      · rw [List.countP_append]
        have hnone : [c].countP (fun c => c.key = k ∧ c.allowed = true) = 0 := by simp [hc]
        rw [hnone, Nat.add_zero]
        exact ih hlog

/-- The calls of a run follow each other as windows of a second do. -/
def Spaced (log : List Call) : Prop :=
  log.Pairwise (Follows Call.starts (fun c => (c.time : ℝ)) (second : ℝ))

theorem Tracks.follows {l : Limiter} (h : Tracks n l log) {c : Call}
    (hstarts : c.starts = decide (l.resetAt < c.time)) (hclock : ∀ d ∈ log, d.time ≤ c.time) :
    ∀ d ∈ log, Follows Call.starts (fun c => (c.time : ℝ)) (second : ℝ) d c := by
  intro d hd
  refine ⟨Int.cast_le.mpr (hclock d hd), fun hc => ?_⟩
  have hover : l.resetAt < c.time := of_decide_eq_true (hstarts ▸ hc)
  obtain ⟨htime, hstart⟩ := h.times d hd
  refine ⟨Int.cast_lt.mpr (htime.trans_lt hover), fun hd' => ?_⟩
  change (d.time : ℝ) + (second : ℝ) < (c.time : ℝ)
  exact_mod_cast (hstart hd').trans_lt hover

theorem serveAll_spec (hn : 0 < n) (requests : List (Time × String))
    (hclock : (requests.map Prod.fst).Pairwise (· ≤ ·)) :
    Tracks n (serveAll n requests).1 (serveAll n requests).2 ∧ Decided n (serveAll n requests).2 ∧
      Spaced (serveAll n requests).2 ∧
        (serveAll n requests).2.map Call.time = requests.map Prod.fst := by
  induction requests using List.reverseRecOn with
  | nil => exact ⟨tracks_new n, fun before c after heq => by simp [serveAll] at heq, List.Pairwise.nil, rfl⟩
  | append_singleton requests request ih =>
    rw [List.map_append, List.pairwise_append] at hclock
    obtain ⟨hbefore, -, hlast⟩ := hclock
    obtain ⟨htracks, hdecided, hspaced, htimes⟩ := ih hbefore
    obtain ⟨c, l', hserve, htime, hstarts, hallowed, htracks'⟩ :=
      htracks.serve hn request.1 request.2
    rw [serveAll_concat, show serve (serveAll n requests) request =
      (l', (serveAll n requests).2 ++ [c]) from hserve]
    refine ⟨htracks', hdecided.concat hallowed, ?_, ?_⟩
    · refine List.pairwise_append.mpr ⟨hspaced, List.pairwise_singleton _ _, fun d hd c' hc' => ?_⟩
      rw [List.mem_singleton.mp hc']
      refine htracks.follows (htime ▸ hstarts) (fun d hd => ?_) d hd
      rw [htime]
      exact hlast d.time (htimes ▸ List.mem_map_of_mem hd) request.1 (by simp)
    · simp [htimes, htime]

end Runs

/-- What each client gets: the first `n` calls of a window, so at most `n` in a window and at most
`2 * n` in a second. -/
structure Bounded (n : Nat) (log : List Call) : Prop where
  kth : Decided n log
  perWindow : ∀ before after, log = before ++ after → ∀ k,
    (window Call.starts before).countP (fun c => c.key = k ∧ c.allowed = true) ≤ n
  perSecond : ∀ k (a : ℝ),
    log.countP (fun c => (c.key = k ∧ c.allowed = true) ∧ a ≤ c.time ∧ c.time ≤ a + second) ≤ 2 * n

theorem serveAll_bounded (n : Nat) (hn : 0 < n) (requests : List (Time × String))
    (hclock : (requests.map Prod.fst).Pairwise (· ≤ ·)) : Bounded n (serveAll n requests).2 := by
  obtain ⟨-, hdecided, hspaced, -⟩ := serveAll_spec hn requests hclock
  have hwindow : ∀ before after, (serveAll n requests).2 = before ++ after → ∀ k,
      (window Call.starts before).countP (fun c => c.key = k ∧ c.allowed = true) ≤ n := by
    intro before after heq k
    refine Decided.allowed_le (fun before' c after' heq' => hdecided before' c (after' ++ after) ?_) k
    rw [heq, heq']
    simp
  refine ⟨hdecided, hwindow, fun k a => ?_⟩
  have hcount := countP_interval_le hspaced (fun before after heq => hwindow before after heq k) a
  simpa only [Bool.decide_and] using hcount

theorem serveAll_bounded_edge :
    Bounded 1 (serveAll 1 [(0, "a"), (second, "a"), (second + 1, "a"), (second + 1, "b")]).2 :=
  serveAll_bounded 1 (by decide) [(0, "a"), (second, "a"), (second + 1, "a"), (second + 1, "b")]
    (by decide)

end YellowPages.Ratelimit
