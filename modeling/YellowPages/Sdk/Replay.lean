import YellowPages.Lib.Join
import YellowPages.Sdk.Watch

/-!
# The set of a client of an agent

The agent sends what differs from its last read, and the client applies it to what it holds. Between
two rounds the client holds the last read.
-/

namespace YellowPages.SeedClient

open Lib Store Wire Watch Server Federation

/-! ## The keys of a read -/

/-- An id that cannot be taken for a longer one in `entryKey`. -/
def NulFree (e : ServiceEntry) : Prop := '\x00' ∉ e.node.id.toList ∧ '\x00' ∉ e.service.id.toList

instance (e : ServiceEntry) : Decidable (NulFree e) := inferInstanceAs (Decidable (_ ∧ _))

structure WellKeyed (entries : List ServiceEntry) : Prop where
  distinct : (entries.map ServiceEntry.key).Nodup
  nulFree : ∀ e ∈ entries, NulFree e

theorem entryKey_toList (e : ServiceEntry) :
    (entryKey e).toList = ['\x00'].intercalate [e.node.id.toList, e.service.id.toList] := by
  simp [entryKey, List.intercalate]

theorem key_eq_of_entryKey_eq {e e' : ServiceEntry} (he : NulFree e) (he' : NulFree e')
    (h : entryKey e = entryKey e') : e.key = e'.key := by
  have hjoin := congrArg String.toList h
  rw [entryKey_toList, entryKey_toList, join_eq_iff,
    pieces_of_not_mem _ _ (by simp) (by simpa [NulFree] using he),
    pieces_of_not_mem _ _ (by simp) (by simpa [NulFree] using he')] at hjoin
  obtain ⟨hnode, hservice⟩ : e.node.id = e'.node.id ∧ e.service.id = e'.service.id := by
    simpa [String.toList_inj] using hjoin
  rw [ServiceEntry.key, ServiceEntry.key, hnode, hservice]

namespace WellKeyed

variable {entries : List ServiceEntry}

theorem inj (h : WellKeyed entries) {e e' : ServiceEntry} (he : e ∈ entries) (he' : e' ∈ entries)
    (hkey : entryKey e = entryKey e') : e = e' :=
  List.inj_on_of_nodup_map h.distinct he he'
    (key_eq_of_entryKey_eq (h.nulFree e he) (h.nulFree e' he') hkey)

theorem byKey_iff (h : WellKeyed entries) (k : String) (e : ServiceEntry) :
    (byKey entries)[k]? = some e ↔ e ∈ entries ∧ entryKey e = k := by
  constructor
  · exact mem_of_byKey entries k e
  · rintro ⟨he, rfl⟩
    obtain ⟨e', hfiled⟩ : ∃ e', (byKey entries)[entryKey e]? = some e' := exists_fileBy he
    obtain ⟨hmem, hkey⟩ := mem_of_byKey entries _ e' hfiled
    rw [hfiled, h.inj hmem he hkey]

theorem byKey_none (h : WellKeyed entries) (k : String) :
    (byKey entries)[k]? = none ↔ ∀ e ∈ entries, entryKey e ≠ k := by
  rw [Option.eq_none_iff_forall_ne_some]
  constructor
  · intro hnone e he hk
    exact hnone e ((h.byKey_iff k e).mpr ⟨he, hk⟩)
  · intro hall e he
    exact hall e ((h.byKey_iff k e).mp he).1 ((h.byKey_iff k e).mp he).2

end WellKeyed

/-! ## Lookups and rounds -/

/-- The lookup of the action, if it is one and succeeds. -/
def ProxyStream.obtains (s : ProxyStream) : ProxyAction → Option LookupResult
  | .read clk _ _ =>
    match s.phase with
    | .reading _ =>
      match (s.reader.lookup clk s.query).2 with
      | .ok lr _ => some lr
      | .failed _ | .crashed => none
    | _ => none
  | _ => none

/-- The successful lookups of a run, in order. -/
def ProxyStream.obtained (s : ProxyStream) : List ProxyAction → List LookupResult
  | [] => []
  | a :: rest => (s.obtains a).toList ++ (s.step a).obtained rest

namespace ProxyPhase

def unsent : ProxyPhase → List PbWatchResponse
  | .sending queue => queue
  | _ => []

/-- The handler has not returned. -/
def live : ProxyPhase → Bool
  | .waiting | .reading _ | .sending _ => true
  | .returned _ | .crashed => false

end ProxyPhase

end YellowPages.SeedClient

namespace YellowPages.Sdk

open Lib Store Wire Watch Server Federation SeedClient

/-! ## What a response says of a key -/

def aboutKey (r : PbWatchResponse) : Option String := (r.event.bind (·.entry)).map entryKey

/-- The entry a PUT leaves for its key, and that a DELETE leaves none. -/
def leaves (r : PbWatchResponse) : Option (Option PbEntry) :=
  match r.event with
  | some { type := .put, entry := some e } => some (some e)
  | some { type := .delete, entry := some _ } => some none
  | _ => none

theorem recv_getElem? (c : ClientSet) (r : PbWatchResponse) (k : String) :
    (c.recv r).set[k]? = (if aboutKey r = some k then leaves r else none).getD c.set[k]? := by
  obtain ⟨event, idx, snapshotDone⟩ := r
  cases event with
  | none => simp [ClientSet.recv, aboutKey]
  | some ev =>
    obtain ⟨type, entry⟩ := ev
    cases entry with
    | none => simp [ClientSet.recv, applyEvent, aboutKey]
    | some e =>
      cases type with
      | put =>
        simp only [ClientSet.recv, Option.elim_some, applyEvent, Std.ExtTreeMap.getElem?_insert,
          aboutKey, leaves,
          Option.bind_some, Option.map_some, Option.some.injEq, Std.compare_eq_iff_eq]
        split <;> rfl
      | delete =>
        simp only [ClientSet.recv, Option.elim_some, applyEvent, Std.ExtTreeMap.getElem?_erase,
          aboutKey, leaves,
          Option.bind_some, Option.map_some, Option.some.injEq, Std.compare_eq_iff_eq]
        split <;> rfl
      | unspecified => simp [ClientSet.recv, applyEvent, leaves]
      | unrecognized _ => simp [ClientSet.recv, applyEvent, leaves]

/-- The last PUT or DELETE of a key decides. -/
theorem recv_all_getElem? (rs : List PbWatchResponse) (c : ClientSet) (k : String) :
    (rs.foldl ClientSet.recv c).set[k]? = (lastWord aboutKey leaves (some k) rs).getD c.set[k]? := by
  induction rs using List.reverseRecOn with
  | nil => rfl
  | append_singleton rs r ih =>
    rw [List.foldl_append, List.foldl_cons, List.foldl_nil, recv_getElem?, lastWord_append,
      lastWord_singleton, ih]
    cases (if aboutKey r = some k then leaves r else none) <;> rfl

/-! ## A round -/

/-- The client holds this instance of a read. -/
structure SameEndpoint (held : PbEntry) (e : ServiceEntry) : Prop where
  key : (entryFromProto held).key = e.key
  address : (entryFromProto held).service.address = e.service.address
  port : (entryFromProto held).service.port = e.service.port
  generation : (entryFromProto held).service.generation = e.service.generation
  health : (entryFromProto held).health = e.health

theorem sameEndpoint_toProto (e : ServiceEntry) : SameEndpoint (entryToProto e) e := by
  have hwire : entryFromProto (entryToProto e) = overWire e := rfl
  rw [overWire_eq] at hwire
  constructor <;> rw [hwire]
  rfl

/-- The agent sends no PUT for such a change, and the client needs none. -/
theorem SameEndpoint.trans {held : PbEntry} {e e' : ServiceEntry} (h : SameEndpoint held e)
    (hkey : e.key = e'.key) (he : endpointChanged e e' = false) : SameEndpoint held e' := by
  simp only [endpointChanged, decide_eq_false_iff_not, not_or, not_not] at he
  obtain ⟨haddress, hport, hgeneration, hhealth⟩ := he
  exact ⟨h.key.trans hkey, h.address.trans haddress, h.port.trans hport,
    h.generation.trans hgeneration,
    h.health.trans hhealth⟩

/-- The client holds the instances of this read, and no others. -/
structure Holds (set : Map PbEntry) (cur : Map ServiceEntry) : Prop where
  some : ∀ (k : String) (e : ServiceEntry), cur[k]? = some e → ∃ held, set[k]? = some held ∧
    SameEndpoint held e
  none : ∀ k : String, cur[k]? = none → set[k]? = none

section Round

variable {s : ProxyStream} {lr : LookupResult} {idx : Nat} {puts deletes : RangeOrder String}

/-- A response about `k` tells of `k` what the new read has. -/
theorem leaves_responses (hlr : WellKeyed lr.entries)
    (hlast : ∀ (k : String) (e : ServiceEntry), s.last[k]? = some e → SeedClient.entryKey e = k ∧
      NulFree e) (k : String) :
    ∀ r ∈ s.responses lr idx puts deletes, aboutKey r = some k →
      leaves r = some ((byKey lr.entries)[k]?.map entryToProto) := by
  intro r hr hk
  unfold ProxyStream.responses at hr
  split at hr
  · rcases List.mem_append.mp hr with hr | hr
    · obtain ⟨e, he, rfl⟩ := List.mem_map.mp hr
      rw [(hlr.byKey_iff k e).mpr ⟨he, Option.some.inj hk⟩]
      rfl
    · rw [List.mem_singleton.mp hr] at hk
      cases hk
  · rcases List.mem_append.mp hr with hr | hr
    · obtain ⟨k', -, hput⟩ := List.mem_filterMap.mp hr
      obtain ⟨e, he, hput⟩ := Option.bind_eq_some_iff.mp hput
      split at hput
      · obtain rfl := Option.some.inj hput
        rw [(hlr.byKey_iff k e).mpr ⟨((hlr.byKey_iff k' e).mp he).1, Option.some.inj hk⟩]
        rfl
      · cases hput
    · obtain ⟨k', -, hdelete⟩ := List.mem_filterMap.mp hr
      obtain ⟨e, he, hdelete⟩ := Option.bind_eq_some_iff.mp hdelete
      split at hdelete
      · cases hdelete
      · rename_i hgone
        obtain rfl := Option.some.inj hdelete
        obtain rfl : k' = k := (hlast k' e he).1.symm.trans (Option.some.inj hk)
        rw [getElem?_neg _ _ hgone]
        rfl

/-- An instance that no response is about was there before, at the same endpoint. -/
theorem kept_of_silent (hlr : WellKeyed lr.entries) {k : String} {e : ServiceEntry}
    (he : (byKey lr.entries)[k]? = some e)
    (hsilent : ∀ r ∈ s.responses lr idx puts deletes, aboutKey r ≠ some k) :
    ∃ e', s.last[k]? = some e' ∧ endpointChanged e' e = false := by
  obtain ⟨hmem, hk⟩ := (hlr.byKey_iff k e).mp he
  unfold ProxyStream.responses at hsilent
  split at hsilent
  · exact absurd (congrArg some hk) (hsilent _ (List.mem_append_left _ (List.mem_map_of_mem hmem)))
  · cases hput : s.last[k]?.all (endpointChanged · e) with
    | true =>
      have hevent : sendEvent .put e idx ∈ deltas s.last (byKey lr.entries) puts deletes idx := by
        refine List.mem_append_left _ (List.mem_filterMap.mpr ⟨k, ?_, ?_⟩)
        · rw [RangeOrder.mem_visit, Std.ExtTreeMap.mem_keys,
            Std.ExtTreeMap.mem_iff_isSome_getElem?, he]
          rfl
        · rw [he, Option.bind_some, if_pos hput]
      exact absurd (congrArg some hk) (hsilent _ hevent)
    | false =>
      obtain ⟨e', he'⟩ : ∃ e', s.last[k]? = some e' := by
        cases hold : s.last[k]? with
        | none => simp [hold] at hput
        | some e' => exact ⟨e', rfl⟩
      rw [he', Option.all_some] at hput
      exact ⟨e', he', hput⟩

/-- A key without an instance that no response is about had none before. -/
theorem absent_of_silent (hfirst : s.first = true → s.last = ∅)
    (hlast : ∀ (k : String) (e : ServiceEntry), s.last[k]? = some e → SeedClient.entryKey e = k ∧
      NulFree e) {k : String} (hnone : (byKey lr.entries)[k]? = none)
    (hsilent : ∀ r ∈ s.responses lr idx puts deletes, aboutKey r ≠ some k) : s.last[k]? = none := by
  unfold ProxyStream.responses at hsilent
  split at hsilent
  · rename_i hs
    simp [hfirst hs]
  · rw [Option.eq_none_iff_forall_ne_some]
    intro e he
    have hgone : k ∉ byKey lr.entries := by
      rw [Std.ExtTreeMap.mem_iff_isSome_getElem?, hnone]
      exact Bool.false_ne_true
    have hevent : sendEvent .delete e idx ∈ deltas s.last (byKey lr.entries) puts deletes idx := by
      refine List.mem_append_right _ (List.mem_filterMap.mpr ⟨k, ?_, ?_⟩)
      · rw [RangeOrder.mem_visit, Std.ExtTreeMap.mem_keys, Std.ExtTreeMap.mem_iff_isSome_getElem?, he]
        rfl
      · rw [he, Option.bind_some, if_neg hgone]
    exact hsilent _ hevent (congrArg some (hlast k e he).1)

/-- A client that holds the last read holds the new one after the round. -/
theorem holds_round {c : ClientSet} (hlr : WellKeyed lr.entries)
    (hfirst : s.first = true → s.last = ∅)
    (hlast : ∀ (k : String) (e : ServiceEntry), s.last[k]? = some e → SeedClient.entryKey e = k ∧
      NulFree e) (h : Holds c.set s.last) :
    Holds ((s.responses lr idx puts deletes).foldl ClientSet.recv c).set (byKey lr.entries) := by
  -- Either the round speaks of a key, and then of the new read, or it is silent and nothing changes.
  have hround : ∀ k : String,
      ((s.responses lr idx puts deletes).foldl ClientSet.recv c).set[k]? =
        (byKey lr.entries)[k]?.map entryToProto ∨
      ((s.responses lr idx puts deletes).foldl ClientSet.recv c).set[k]? = c.set[k]? ∧
        ∀ r ∈ s.responses lr idx puts deletes, aboutKey r ≠ some k := by
    intro k
    have hleaves : ∀ r ∈ s.responses lr idx puts deletes, aboutKey r = some k →
        leaves r = some ((byKey lr.entries)[k]?.map entryToProto) := leaves_responses hlr hlast k
    rw [recv_all_getElem?]
    cases hword : lastWord aboutKey leaves (some k) (s.responses lr idx puts deletes) with
    | some left =>
      rw [lastWord_of_agree hword hleaves]
      exact .inl rfl
    | none =>
      refine .inr ⟨rfl, fun r hr hk => ?_⟩
      have hnone := word_of_lastWord_none hword hr hk
      rw [hleaves r hr hk] at hnone
      cases hnone
  constructor
  · intro k e he
    rcases hround k with hset | ⟨hset, hsilent⟩
    · rw [hset, he]
      exact ⟨entryToProto e, rfl, sameEndpoint_toProto e⟩
    · obtain ⟨e', he', hsame⟩ := kept_of_silent hlr he hsilent
      obtain ⟨held, hheld, hsame'⟩ := h.some k e' he'
      obtain ⟨hmem, hkey⟩ := (hlr.byKey_iff k e).mp he
      obtain ⟨hkey', hnul⟩ := hlast k e' he'
      have hids : e'.key = e.key :=
        key_eq_of_entryKey_eq hnul (hlr.nulFree e hmem) (hkey'.trans hkey.symm)
      exact ⟨held, hset.trans hheld, hsame'.trans hids hsame⟩
  · intro k hnone
    rcases hround k with hset | ⟨hset, hsilent⟩
    · rw [hset, hnone]
      rfl
    · exact hset.trans (h.none k (absent_of_silent hfirst hlast hnone hsilent))

end Round

/-! ## A run -/

/-- `last` is the last read that succeeded. What is sent and what is yet to be sent of its round make
the client hold it. -/
structure InStep (s : ProxyStream) (last : Option LookupResult) : Prop where
  first : s.first = true → s.last = ∅
  keyed : ∀ (k : String) (e : ServiceEntry), s.last[k]? = some e →
    SeedClient.entryKey e = k ∧ NulFree e
  last : ∀ lr, last = some lr → WellKeyed lr.entries ∧ s.last = byKey lr.entries
  holds : s.phase.live = true → Holds (received (s.sent ++ s.phase.unsent)).set s.last

namespace InStep

variable {s s' : ProxyStream} {last : Option LookupResult}

theorem new (reader : Reader) (base : Nat) (q : Query) :
    InStep (ProxyStream.new reader base q) none where
  first _ := rfl
  keyed k e he := by simp [ProxyStream.new] at he
  last lr hlr := by cases hlr
  holds _ := by
    have hunsent : (ProxyStream.new reader base q).phase.unsent = [] := by
      dsimp only [ProxyStream.new]
      split <;> rfl
    rw [hunsent]
    exact ⟨fun k e he => by simp [ProxyStream.new] at he,
      fun k _ => by simp [ProxyStream.new, received]⟩

/-- A step within a round: the same responses, on one side or the other. -/
theorem same (h : InStep s last) (hfirst : s'.first = s.first) (hlast : s'.last = s.last)
    (hphase : s'.phase.live = true → s.phase.live = true ∧
      s'.sent ++ s'.phase.unsent = s.sent ++ s.phase.unsent) :
    InStep s' last where
  first hs' := by rw [hlast]; exact h.first (hfirst ▸ hs')
  keyed := by rw [hlast]; exact h.keyed
  last := by rw [hlast]; exact h.last
  holds hlive := by
    obtain ⟨hlive, hsent⟩ := hphase hlive
    rw [hsent, hlast]
    exact h.holds hlive

theorem woken (h : InStep s last) (hphase : s.phase = .waiting) (idx : Nat) :
    InStep (s.woken idx) last := by
  unfold ProxyStream.woken
  split
  · exact h
  · exact h.same rfl rfl fun _ => by rw [hphase]; exact ⟨rfl, rfl⟩

theorem read (h : InStep s last) {clk : Nat → Time} {puts deletes : RangeOrder String} {idx : Nat}
    (hphase : s.phase = .reading idx)
    (hlr : ∀ lr, s.obtains (.read clk puts deletes) = some lr → WellKeyed lr.entries) :
    InStep (s.read clk puts deletes idx) ((s.obtains (.read clk puts deletes)).or last) := by
  have hobtains : s.obtains (.read clk puts deletes) =
      match (s.reader.lookup clk s.query).2 with
      | .ok lr _ => some lr
      | .failed _ | .crashed => none := by
    rw [ProxyStream.obtains, hphase]
  dsimp only [ProxyStream.read]
  cases hread : (s.reader.lookup clk s.query).2 with
  | failed e =>
    rw [hobtains, hread]
    exact h.same rfl rfl fun _ => by rw [hphase]; exact ⟨rfl, rfl⟩
  | crashed =>
    rw [hobtains, hread]
    exact h.same rfl rfl fun hlive => by cases hlive
  | ok lr age =>
    rw [hread] at hobtains
    have hkeyed := hlr lr hobtains
    rw [hobtains, Option.some_or]
    refine ⟨fun hs => (Bool.false_ne_true hs).elim, fun k e he => ?_, fun lr' hlr' => ?_,
      fun _ => ?_⟩
    · obtain ⟨hmem, hk⟩ := (hkeyed.byKey_iff k e).mp he
      exact ⟨hk, hkeyed.nulFree e hmem⟩
    · obtain rfl := Option.some.inj hlr'
      exact ⟨hkeyed, rfl⟩
    · have hheld := h.holds (by rw [hphase]; rfl)
      have hunsent : s.phase.unsent = [] := by rw [hphase]; rfl
      rw [hunsent, List.append_nil] at hheld
      rw [ProxyPhase.unsent, received, List.foldl_append]
      exact holds_round hkeyed h.first h.keyed hheld

theorem step (h : InStep s last) (a : ProxyAction)
    (hlr : ∀ lr, s.obtains a = some lr → WellKeyed lr.entries) :
    InStep (s.step a) ((s.obtains a).or last) := by
  cases a with
  | wait timedOut =>
    dsimp only [ProxyStream.step]
    split
    · rename_i hphase
      split
      · exact h.woken hphase _
      · split
        · exact h.woken hphase _
        · exact h
    · exact h
  | read clk puts deletes =>
    cases hphase : s.phase with
    | reading idx =>
      rw [ProxyStream.step, hphase]
      exact h.read hphase hlr
    | waiting | sending _ | returned _ | crashed =>
      rw [ProxyStream.step, ProxyStream.obtains, hphase]
      exact h
  | send =>
    dsimp only [ProxyStream.step]
    split
    · rename_i r rest hphase
      exact h.same rfl rfl fun _ => by rw [hphase]; exact ⟨rfl, by simp [ProxyPhase.unsent]⟩
    · rename_i hphase
      exact h.same rfl rfl fun _ => by rw [hphase]; exact ⟨rfl, rfl⟩
    · exact h
  | cancel => exact h.same rfl rfl fun hlive => by cases hlive
  | seeds client => exact h.same rfl rfl fun hlive => ⟨hlive, rfl⟩
  | cache c => exact h.same rfl rfl fun hlive => ⟨hlive, rfl⟩
  | watch c => exact h.same rfl rfl fun hlive => ⟨hlive, rfl⟩

theorem run (h : InStep s last) (actions : List ProxyAction)
    (hlr : ∀ lr ∈ s.obtained actions, WellKeyed lr.entries) :
    InStep (s.run actions) ((s.obtained actions).getLast?.or last) := by
  induction actions generalizing s last with
  | nil => exact h
  | cons a rest ih =>
    have hstep := h.step a fun lr hobtains => hlr lr (by simp [ProxyStream.obtained, hobtains])
    have hrun := ih hstep fun lr hmem => hlr lr (List.mem_append_right _ hmem)
    have hlast : (s.obtains a).toList.getLast? = s.obtains a := by cases s.obtains a <;> rfl
    rwa [ProxyStream.obtained, List.getLast?_append, Option.or_assoc, hlast]

end InStep

/-! ## Sets published -/

/-- What `emit` is called with, response by response. -/
def ClientSet.published (c : ClientSet) : List PbWatchResponse → List (Map PbEntry)
  | [] => []
  | r :: rest => (if (c.recv r).ready then [(c.recv r).set] else []) ++ (c.recv r).published rest

theorem published_eq_nil {rs : List PbWatchResponse} {c : ClientSet} (hc : c.ready = false)
    (h : ∀ r ∈ rs, r.snapshotDone = false) : c.published rs = [] := by
  induction rs generalizing c with
  | nil => rfl
  | cons r rest ih =>
    have hready : (c.recv r).ready = false := by
      simp [ClientSet.recv, hc, h r List.mem_cons_self]
    rw [ClientSet.published, hready, ih hready fun r hr => h r (List.mem_cons_of_mem _ hr)]
    rfl

/-- The set has the keys of the read and no others, and the endpoints of the read under them. -/
structure Shows (set : Map PbEntry) (entries : List ServiceEntry) : Prop where
  keys : ∀ k : String, k ∈ set ↔ ∃ e ∈ entries, SeedClient.entryKey e = k
  endpoints : ∀ e ∈ entries, ∃ held, set[SeedClient.entryKey e]? = some held ∧ SameEndpoint held e

theorem shows_of_holds {set : Map PbEntry} {entries : List ServiceEntry} (h : WellKeyed entries)
    (hholds : Holds set (byKey entries)) : Shows set entries where
  keys k := by
    rw [Std.ExtTreeMap.mem_iff_isSome_getElem?]
    cases hcur : (byKey entries)[k]? with
    | none =>
      rw [hholds.none k hcur]
      simpa using (h.byKey_none k).mp hcur
    | some e =>
      obtain ⟨held, hheld, -⟩ := hholds.some k e hcur
      rw [hheld]
      exact ⟨fun _ => ⟨e, (h.byKey_iff k e).mp hcur⟩, fun _ => rfl⟩
  endpoints e he := hholds.some _ e ((h.byKey_iff _ e).mpr ⟨he, rfl⟩)

/-- Each time a round is over the client shows the read of that round. Before the end of the snapshot
nothing is published. -/
theorem watch_replays_reads (reader : Reader) (base : Nat) (q : Query) (actions : List ProxyAction)
    (hkeyed : ∀ lr ∈ (ProxyStream.new reader base q).obtained actions, WellKeyed lr.entries) :
    let s := (ProxyStream.new reader base q).run actions
    (∀ lr, ((ProxyStream.new reader base q).obtained actions).getLast? = some lr →
      s.phase.live = true → s.phase.unsent = [] → Shows (received s.sent).set lr.entries) ∧
    ∀ seen, seen <+: s.sent → (∀ r ∈ seen, r.snapshotDone = false) →
      ClientSet.published {} seen = [] := by
  intro s
  refine ⟨fun lr hlast hlive hunsent => ?_, fun seen _ hdone => published_eq_nil rfl hdone⟩
  have hstep := (InStep.new reader base q).run actions hkeyed
  obtain ⟨hlr, hread⟩ := hstep.last lr (by rw [hlast]; rfl)
  have hholds := hstep.holds hlive
  rw [hread] at hholds
  have hsent : s.sent ++ s.phase.unsent = s.sent := by rw [hunsent, List.append_nil]
  exact shows_of_holds hlr (hsent ▸ hholds)

def passing (s : String) (port : UInt16) : ServiceEntry :=
  { node := { id := "n" }, service := { id := s, name := "web", port := port }, health := .passing }

/-- A snapshot of two instances. Then one of them moves to another port and the other one is gone. -/
def twoRounds : List ProxyAction :=
  let read := ProxyAction.read (fun _ => 0) .asStored .asStored
  [.wait false, read, .send, .send, .send, .send, .seeds fun _ => .ok { entries := [passing "a" 81] },
    .watch (.notifyNames ["web"]), .wait false, read, .send, .send]

def twoInstances : Reader := { client := fun _ => .ok { entries := [passing "a" 80, passing "b" 80] } }

theorem watch_replays_second_read :
    Shows (received ((ProxyStream.new twoInstances 1 { name := "web" }).run twoRounds).sent).set
      [passing "a" 81] := by
  refine (watch_replays_reads twoInstances 1 { name := "web" } twoRounds ?_).1
    { entries := [passing "a" 81] }
    (by decide) (by decide) (by decide)
  intro lr hlr
  have hreads :
      lr ∈ [{ entries := [passing "a" 80, passing "b" 80] }, { entries := [passing "a" 81] }] := hlr
  rcases List.mem_pair.mp hreads with rfl | rfl
  · exact ⟨by decide, by decide⟩
  · exact ⟨by decide, by decide⟩

end YellowPages.Sdk
