import YellowPages.SeedClient.Staleness
import YellowPages.Sdk.Replay

/-!
# The rounds of an agent's Watch

A round of `Proxy.Watch` remembers the index it was woken with and then reads. After a read that
fails it waits for an index it has already taken note of.
-/

namespace YellowPages.SeedClient

open Lib Store Wire Watch Server Federation

/-! ## Slots are not given up -/

section Slots

variable {c : Cache} {k : CacheKey}

theorem fetch_keeps_slot {client : Client} {now : Time} {q : Query} {f : Fetched}
    (hf : c.fetch client now q = .ok f) (h : c.entries[k]? ≠ none) :
    f.cache.entries[k]? ≠ none := by
  rw [(fetch_ok hf).1, Std.ExtTreeMap.getElem?_insert]
  split
  · simp
  · exact h

theorem lookupWithAge_keeps_slot (client : Client) (clk : Nat → Time) (q : Query)
    (h : c.entries[k]? ≠ none) :
    (c.lookupWithAge client clk q).1.entries[k]? ≠ none := by
  unfold Cache.lookupWithAge
  split
  · exact h
  · rename_i f hf
    exact fetch_keeps_slot (pick_fetched hf) h
  · exact h
  · exact h

theorem refreshLoop_keeps_slot (client : Nat → Client) (clk : Nat → Time) (qs : List (Query × Nat))
    (h : c.entries[k]? ≠ none) : (Cache.refreshLoop client clk qs c).1.entries[k]? ≠ none := by
  induction qs generalizing c with
  | nil => exact h
  | cons p rest ih =>
    unfold Cache.refreshLoop
    split
    · exact ih h
    · rename_i f hf
      exact ih (fetch_keeps_slot hf h)

theorem exec_keeps_slot (call : CacheCall) (h : c.entries[k]? ≠ none) :
    (call.exec c).1.entries[k]? ≠ none := by
  cases call with
  | lookupWithAge client clk q =>
    unfold CacheCall.exec
    dsimp only
    split
    · rename_i f hf
      exact fetch_keeps_slot (pick_fetched hf) h
    · exact h
  | refresh order client clk => exact refreshLoop_keeps_slot client clk _ h

/-- A lookup that is answered leaves a slot. -/
theorem slot_of_ok {client : Client} {clk : Nat → Time} {q : Query} {lr : LookupResult}
    {age : Duration} (h : (c.lookupWithAge client clk q).2 = .ok lr age) :
    (c.lookupWithAge client clk q).1.entries[keyFor q]? ≠ none := by
  unfold Cache.lookupWithAge at h ⊢
  split at h
  · rename_i e he
    simp [pick_cached he]
  · rename_i f hf
    simp [(fetch_ok (pick_fetched hf)).1]
  · cases h
  · cases h

end Slots

/-! ## Runs -/

namespace ProxyStream

/-- The loop is parked in `WaitForChange` with an index it remembers, after the first snapshot. -/
def blocked (s : ProxyStream) : Bool :=
  match s.phase, s.watcher.waitTurn s.query s.lastIdx with
  | .waiting, .park _ => !s.first && 0 < s.lastIdx
  | _, _ => false

/-- At some point of the run the watcher's index for the query had reached `idx`. -/
def Reached (s : ProxyStream) (actions : List ProxyAction) (idx : Nat) : Prop :=
  ∃ earlier, earlier <+: actions ∧ idx ≤ (s.run earlier).watcher.currentIndex s.query

/-- The set the client was last brought to is the one of the last lookup that succeeded, and that
lookup came after the watcher's index had reached `idx`. -/
def LookedUpAfter (s : ProxyStream) (actions : List ProxyAction) (idx : Nat) : Prop :=
  ∃ before a after lr, actions = before ++ a :: after ∧ (s.run before).obtains a = some lr ∧
    ((s.run before).step a).obtained after = [] ∧ (s.run actions).last = byKey lr.entries ∧
      s.Reached before idx

/-- After the first snapshot a round reads through a cache, or the seeds answer it. -/
def answered (s : ProxyStream) : ProxyAction → Bool
  | .read .. =>
    match s.phase with
    | .reading _ => s.first || s.reader.cache.isSome || (s.reader.client (raw s.query)).toBool
    | _ => true
  | _ => true

variable {s : ProxyStream}

theorem blocked_waiting (h : s.blocked = true) : s.phase = .waiting ∧ s.first = false := by
  unfold blocked at h
  split at h
  · rename_i hphase _
    rw [Bool.and_eq_true, Bool.not_eq_true'] at h
    exact ⟨hphase, h.1⟩
  · cases h

theorem run_concat (s : ProxyStream) (actions : List ProxyAction) (a : ProxyAction) :
    s.run (actions ++ [a]) = (s.run actions).step a := by
  simp [run, List.foldl_append]

theorem obtained_concat (s : ProxyStream) (actions : List ProxyAction) (a : ProxyAction) :
    s.obtained (actions ++ [a]) = s.obtained actions ++ ((s.run actions).obtains a).toList := by
  induction actions generalizing s with
  | nil => simp [obtained, run]
  | cons b rest ih =>
    simp only [List.cons_append, obtained, ih, List.append_assoc]
    rfl

theorem Reached.concat {actions : List ProxyAction} {idx : Nat} (h : s.Reached actions idx)
    (a : ProxyAction) :
    s.Reached (actions ++ [a]) idx := by
  obtain ⟨earlier, hearlier, hidx⟩ := h
  exact ⟨earlier, hearlier.trans (List.prefix_append _ _), hidx⟩

theorem LookedUpAfter.concat {actions : List ProxyAction} {idx : Nat} (h : s.LookedUpAfter actions idx)
    {a : ProxyAction} (hnone : (s.run actions).obtains a = none)
    (hlast : ((s.run actions).step a).last = (s.run actions).last) :
    s.LookedUpAfter (actions ++ [a]) idx := by
  obtain ⟨before, b, after, lr, rfl, hobtains, hquiet, hset, hreached⟩ := h
  have hrun : ((s.run before).step b).run after = s.run (before ++ b :: after) := by
    simp [run, List.foldl_append]
  refine ⟨before, b, after ++ [a], lr, by simp, hobtains, ?_, ?_, hreached⟩
  · rw [obtained_concat, hrun, hquiet, hnone]
    rfl
  · rw [run_concat, hlast, hset]

/-! ## One action -/

/-- What one action can do to the round that the stream is in. -/
inductive RoundTurn (s : ProxyStream) (a : ProxyAction) : ProxyStream → Prop where
  | still {s' : ProxyStream} (hnone : s.obtains a = none) (hquery : s'.query = s.query)
      (hlast : s'.last = s.last) (hidx : s'.lastIdx = s.lastIdx) (hfirst : s'.first = s.first)
      (hreading : ∀ idx, s'.phase = .reading idx → s.phase = .reading idx ∨
        s.watcher.currentIndex s.query = idx)
      (hlive : s'.phase.live = true → s.phase.live = true)
      (hslot : ∀ c', s'.reader.cache = some c' → ∃ c, s.reader.cache = some c ∧
        (c.entries[keyFor s.query]? ≠ none → c'.entries[keyFor s.query]? ≠ none)) : RoundTurn s a s'
  | obtained {clk : Nat → Time} {puts deletes : RangeOrder String} {idx : Nat} {lr : LookupResult}
      {age : Duration}
      (ha : a = .read clk puts deletes) (hphase : s.phase = .reading idx)
      (hserved : (s.reader.lookup clk s.query).2 = .ok lr age) :
      RoundTurn s a { s with
        reader := (s.reader.lookup clk s.query).1
        lastIdx := idx
        last := byKey lr.entries
        first := false
        phase := .sending (s.responses lr idx puts deletes) }
  | failed {clk : Nat → Time} {puts deletes : RangeOrder String} {idx : Nat} {err : String}
      (ha : a = .read clk puts deletes) (hphase : s.phase = .reading idx)
      (hserved : (s.reader.lookup clk s.query).2 = .failed err) :
      RoundTurn s a
        { s with reader := (s.reader.lookup clk s.query).1, lastIdx := idx, phase := .waiting }
  | crashed {clk : Nat → Time} {puts deletes : RangeOrder String} {idx : Nat}
      (ha : a = .read clk puts deletes) (hphase : s.phase = .reading idx)
      (hserved : (s.reader.lookup clk s.query).2 = .crashed) :
      RoundTurn s a
        { s with reader := (s.reader.lookup clk s.query).1, lastIdx := idx, phase := .crashed }

theorem woken_reading {idx idx' : Nat} (h : (s.woken idx).phase = .reading idx') :
    s.phase = .reading idx' ∨ idx = idx' := by
  unfold woken at h
  split at h
  · exact Or.inl h
  · exact Or.inr (ProxyPhase.reading.inj h)

theorem woken_turn {a : ProxyAction} (hnone : s.obtains a = none) (hphase : s.phase = .waiting) :
    RoundTurn s a (s.woken (s.watcher.currentIndex s.query)) := by
  have hsame : ∀ idx, (s.woken idx).query = s.query ∧ (s.woken idx).last = s.last ∧
      (s.woken idx).lastIdx = s.lastIdx ∧ (s.woken idx).first = s.first ∧
        (s.woken idx).reader = s.reader := by
    intro idx
    unfold woken
    split <;> exact ⟨rfl, rfl, rfl, rfl, rfl⟩
  obtain ⟨hquery, hlast, hidx, hfirst, hreader⟩ := hsame (s.watcher.currentIndex s.query)
  refine .still hnone hquery hlast hidx hfirst (fun _ => woken_reading)
    (fun _ => by rw [hphase]; rfl) ?_
  rw [hreader]
  exact fun c hc => ⟨c, hc, id⟩

/-- An action that neither wakes the stream nor reads. -/
theorem RoundTurn.idle {a : ProxyAction} (hnone : s.obtains a = none) (phase : ProxyPhase)
    (hphase : ∀ idx, phase = .reading idx → s.phase = .reading idx)
    (hlive : phase.live = true → s.phase.live = true) (watcher : Watcher)
    (sent : List PbWatchResponse) :
    RoundTurn s a { s with phase := phase, watcher := watcher, sent := sent } :=
  .still hnone rfl rfl rfl rfl (fun idx h => Or.inl (hphase idx h)) hlive fun c hc => ⟨c, hc, id⟩

theorem RoundTurn.refl {a : ProxyAction} (hnone : s.obtains a = none) : RoundTurn s a s :=
  .idle hnone s.phase (fun _ => id) id s.watcher s.sent

theorem wait_turn (s : ProxyStream) (timedOut : Bool) :
    RoundTurn s (.wait timedOut) (s.step (.wait timedOut)) := by
  unfold step
  dsimp only
  split
  · rename_i hphase
    -- Whether the wait ends by a change or by its timer, it ends with the current index.
    split <;> rename_i hturn
    · rw [← Watcher.index_of_done hturn]
      exact woken_turn rfl hphase
    · split
      · exact woken_turn rfl hphase
      · exact .refl rfl
  · exact .refl rfl

theorem read_turn (s : ProxyStream) (clk : Nat → Time) (puts deletes : RangeOrder String) :
    RoundTurn s (.read clk puts deletes) (s.step (.read clk puts deletes)) := by
  unfold step
  dsimp only
  split
  · rename_i idx hphase
    unfold read
    dsimp only
    split <;> rename_i hserved
    · exact .failed rfl hphase hserved
    · exact .crashed rfl hphase hserved
    · exact .obtained rfl hphase hserved
  · rename_i hphase
    refine .refl ?_
    unfold obtains
    dsimp only
    split
    · rename_i idx h
      exact absurd h (hphase idx)
    · rfl

theorem send_turn (s : ProxyStream) : RoundTurn s .send (s.step .send) := by
  unfold step
  dsimp only
  split
  · rename_i r rest hphase
    exact .idle rfl _ (by simp) (fun _ => by rw [hphase]; rfl) s.watcher _
  · rename_i hphase
    exact .idle rfl _ (by simp) (fun _ => by rw [hphase]; rfl) s.watcher s.sent
  · exact .refl rfl

theorem step_turn (s : ProxyStream) (a : ProxyAction) : RoundTurn s a (s.step a) := by
  cases a with
  | wait timedOut => exact wait_turn s timedOut
  | read clk puts deletes => exact read_turn s clk puts deletes
  | send => exact send_turn s
  | cancel => exact .idle rfl _ (by simp) (by simp [ProxyPhase.live]) s.watcher s.sent
  | seeds client =>
    exact .still rfl rfl rfl rfl rfl (fun _ => Or.inl) id fun c hc => ⟨c, hc, id⟩
  | cache call =>
    refine .still rfl rfl rfl rfl rfl (fun _ => Or.inl) id fun c' hc' => ?_
    obtain ⟨c, hc, rfl⟩ := Option.map_eq_some_iff.mp hc'
    exact ⟨c, hc, exec_keeps_slot call⟩
  | watch call => exact .idle rfl s.phase (fun _ => id) id _ s.sent

/-! ## The invariant -/

/-- What holds after the actions of a run in which every round is answered. -/
structure Rounds (s : ProxyStream) (actions : List ProxyAction) : Prop where
  query : (s.run actions).query = s.query
  reading : ∀ idx, (s.run actions).phase = .reading idx → s.Reached actions idx
  cached : (s.run actions).first = false → ∀ c, (s.run actions).reader.cache = some c →
    c.entries[keyFor s.query]? ≠ none
  looked : (s.run actions).first = false → (s.run actions).phase.live = true →
    s.LookedUpAfter actions (s.run actions).lastIdx

theorem Rounds.new (reader : Reader) (base : Nat) (q : Query) : Rounds (new reader base q) [] where
  query := rfl
  reading := by
    intro idx h
    simp only [run, List.foldl_nil, ProxyStream.new] at h
    split at h <;> cases h
  cached := by intro h; cases h
  looked := by intro h; cases h

theorem lookup_ok_slot {r : Reader} {clk : Nat → Time} {q : Query} {lr : LookupResult}
    {age : Duration} {c : Cache} (hok : (r.lookup clk q).2 = .ok lr age)
    (hc : (r.lookup clk q).1.cache = some c) :
    c.entries[keyFor q]? ≠ none := by
  unfold Reader.lookup at hok hc
  split at hok
  · rename_i cache hcache
    rw [hcache] at hc
    obtain rfl := Option.some.inj hc
    exact slot_of_ok hok
  · rename_i hcache
    rw [hcache] at hc
    exact absurd (hcache.symm.trans hc) (by simp)

theorem lookup_keeps_slot {r : Reader} {clk : Nat → Time} {q : Query} {c : Cache}
    (h : ∀ c, r.cache = some c → c.entries[keyFor q]? ≠ none)
    (hc : (r.lookup clk q).1.cache = some c) :
    c.entries[keyFor q]? ≠ none := by
  unfold Reader.lookup at hc
  split at hc
  · rename_i cache hcache
    obtain rfl := Option.some.inj hc
    exact lookupWithAge_keeps_slot r.client clk q (h cache hcache)
  · exact h c hc

/-- A cache that has a slot does not fail, and seeds that answer do not either. -/
theorem lookup_not_failed {r : Reader} {clk : Nat → Time} {q : Query} {err : String}
    (hcached : ∀ c, r.cache = some c → c.entries[keyFor q]? ≠ none)
    (hanswered : (r.cache.isSome || (r.client (raw q)).toBool) = true) :
    (r.lookup clk q).2 ≠ .failed err := by
  intro hfailed
  unfold Reader.lookup at hfailed
  split at hfailed
  · rename_i cache hcache
    exact hcached cache hcache (slot_of_failed hfailed)
  · rename_i hcache
    rw [hcache] at hanswered
    unfold Reader.directLookup at hfailed
    cases hread : r.client (raw q) with
    | error err' => simp [hread, Except.toBool] at hanswered
    | ok lr =>
      rw [hread] at hfailed
      cases hfailed

namespace Rounds

variable {actions : List ProxyAction}

theorem lookedUp (h : s.Rounds actions) {a : ProxyAction} {idx : Nat} {lr : LookupResult}
    (hphase : (s.run actions).phase = .reading idx) (hobtains : (s.run actions).obtains a = some lr)
    (hlast : (s.run (actions ++ [a])).last = byKey lr.entries) : s.LookedUpAfter (actions ++ [a]) idx :=
  ⟨actions, a, [], lr, rfl, hobtains, rfl, hlast, h.reading idx hphase⟩

/-- A read fails only before the first snapshot. -/
theorem first_of_failed (h : s.Rounds actions) {clk : Nat → Time} {puts deletes : RangeOrder String}
    {idx : Nat} {err : String} (hphase : (s.run actions).phase = .reading idx)
    (hanswered : (s.run actions).answered (.read clk puts deletes) = true)
    (hserved : ((s.run actions).reader.lookup clk (s.run actions).query).2 = .failed err) :
    (s.run actions).first = true := by
  rw [← Bool.not_eq_false]
  intro hfirst
  simp only [answered, hphase, hfirst, Bool.false_or] at hanswered
  refine lookup_not_failed ?_ hanswered hserved
  rw [h.query]
  exact h.cached hfirst

theorem step (h : s.Rounds actions) {a : ProxyAction} (hanswered : (s.run actions).answered a = true) :
    s.Rounds (actions ++ [a]) := by
  have hturn := step_turn (s.run actions) a
  generalize hs' : (s.run actions).step a = s' at hturn
  have hrun : s.run (actions ++ [a]) = s' := by rw [run_concat, hs']
  cases hturn with
  | still hnone hquery hlast hidx hfirst hreading hlive hslot =>
    refine ⟨by rw [hrun, hquery, h.query], ?_, ?_, ?_⟩
    · intro idx hphase
      rw [hrun] at hphase
      rcases hreading idx hphase with hbefore | hnow
      · exact (h.reading idx hbefore).concat a
      · exact ⟨actions, List.prefix_append _ _, by rw [← hnow, h.query]⟩
    · intro hf c' hc'
      rw [hrun] at hf hc'
      obtain ⟨c, hc, hkept⟩ := hslot c' hc'
      rw [h.query] at hkept
      exact hkept (h.cached (hfirst ▸ hf) c hc)
    · intro hf hphase
      rw [hrun] at hf hphase ⊢
      rw [hidx]
      exact (h.looked (hfirst ▸ hf) (hlive hphase)).concat hnone (by rw [hs', hlast])
  | @obtained clk puts deletes idx lr age ha hphase hserved =>
    have hobtains : (s.run actions).obtains a = some lr := by
      rw [ha]
      simp only [obtains, hphase, hserved]
    refine ⟨by rw [hrun]; exact h.query, by rw [hrun]; simp, ?_, ?_⟩
    · intro _ c hc
      rw [hrun] at hc
      rw [← h.query]
      exact lookup_ok_slot hserved hc
    · intro _ _
      have hlooked := h.lookedUp hphase hobtains (by rw [hrun])
      rw [hrun]
      exact hlooked
  | failed ha hphase hserved =>
    rw [ha] at hanswered
    have hfirst := h.first_of_failed hphase hanswered hserved
    have hnot : (s.run (actions ++ [a])).first ≠ false := by
      rw [hrun, Bool.ne_false_iff]
      exact hfirst
    exact ⟨by rw [hrun]; exact h.query, by rw [hrun]; simp, fun hf => absurd hf hnot,
      fun hf => absurd hf hnot⟩
  | crashed ha hphase hserved =>
    refine ⟨by rw [hrun]; exact h.query, by rw [hrun]; simp, ?_,
      by rw [hrun]; simp [ProxyPhase.live]⟩
    intro hf c hc
    rw [hrun] at hf hc
    rw [← h.query]
    refine lookup_keeps_slot ?_ hc
    rw [h.query]
    exact h.cached hf

theorem run {rest : List ProxyAction} (h : s.Rounds actions)
    (hrun : Throughout ProxyStream.step (fun s a => s.answered a = true) (s.run actions) rest) :
    s.Rounds (actions ++ rest) := by
  induction rest generalizing actions with
  | nil => simpa using h
  | cons a rest ih =>
    rw [List.append_cons]
    apply ih (h.step hrun.1)
    rw [run_concat]
    exact hrun.2

end Rounds

end ProxyStream

/-- In a run whose rounds are answered after the first snapshot, a stream that blocks has sent the
set of a lookup made after the watcher had reached the index it blocks on. -/
theorem blocked_watch_is_current (reader : Reader) (base : Nat) (q : Query)
    (actions : List ProxyAction)
    (hrun : Throughout ProxyStream.step (fun s a => s.answered a = true)
      (ProxyStream.new reader base q) actions)
    (hblocked : ((ProxyStream.new reader base q).run actions).blocked = true) :
    (ProxyStream.new reader base q).LookedUpAfter actions
      ((ProxyStream.new reader base q).run actions).lastIdx := by
  have hrounds : (ProxyStream.new reader base q).Rounds ([] ++ actions) :=
    (ProxyStream.Rounds.new reader base q).run hrun
  obtain ⟨hphase, hfirst⟩ := ProxyStream.blocked_waiting hblocked
  exact hrounds.looked hfirst (by rw [List.nil_append, hphase]; rfl)

/-- A snapshot, a change of the service, and the read of the round after it. -/
def changeAfterSnapshot (client : Client) : List ProxyAction :=
  let read := ProxyAction.read (fun _ => 0) .asStored .asStored
  [.wait false, read, .send, .send, .send, .watch (.notifyNames ["web"]), .seeds client,
    .wait false, read]

/-- An agent without a cache, with one instance on the seeds. -/
def oneInstance : Reader := { client := fun _ => .ok { entries := [Sdk.passing "a" 80] } }

theorem blocked_watch_is_current_web :
    let s := ProxyStream.new oneInstance 1 { name := "web" }
    let actions :=
      changeAfterSnapshot (fun _ => .ok { entries := [Sdk.passing "a" 81] }) ++ [.send, .send]
    (s.run actions).blocked = true ∧ s.LookedUpAfter actions (s.run actions).lastIdx := by
  intro s actions
  have hblocked : (s.run actions).blocked = true := by decide +kernel
  exact ⟨hblocked,
    blocked_watch_is_current oneInstance 1 { name := "web" } actions (by decide +kernel) hblocked⟩

/-- The read after the change fails. The stream has taken note of index 2, and the set that the
client has was looked up when the index was 1. -/
theorem failed_lookup_swallows_change :
    ¬ ∀ (reader : Reader) (base : Nat) (q : Query) (actions : List ProxyAction),
      ((ProxyStream.new reader base q).run actions).blocked = true →
        (ProxyStream.new reader base q).LookedUpAfter actions
          ((ProxyStream.new reader base q).run actions).lastIdx := by
  intro h
  let s := ProxyStream.new oneInstance 1 { name := "web" }
  let actions := changeAfterSnapshot fun _ => .error "down"
  have hblocked : (s.run actions).blocked = true := by decide +kernel
  obtain ⟨before, a, after, lr, hsplit, hobtains, -, -, earlier, hearlier, hidx⟩ :=
    h _ _ _ actions hblocked
  -- Whichever lookup of the run it is, the index has not reached 2 by then.
  have hnever : ∀ n < 9, ∀ a ∈ actions[n]?, ((s.run (actions.take n)).obtains a).isSome = true →
      ∀ k ≤ n, ¬ (s.run actions).lastIdx ≤
        (s.run (actions.take k)).watcher.currentIndex { name := "web" } := by
    decide +kernel
  have hbefore : before = actions.take before.length := by rw [hsplit]; simp
  have hn : before.length < 9 := by
    have hlength : actions.length = 9 := rfl
    rw [hsplit, List.length_append, List.length_cons] at hlength
    omega
  have hmem : actions[before.length]? = some a := by rw [hsplit]; simp
  have hprefix : earlier = actions.take earlier.length := by
    rw [hsplit]
    exact (List.prefix_iff_eq_take.mp (hearlier.trans (List.prefix_append _ _)))
  refine hnever before.length hn a hmem ?_ earlier.length hearlier.length_le ?_
  · rw [← hbefore, hobtains]
    rfl
  · rw [← hprefix]
    exact hidx

end YellowPages.SeedClient
