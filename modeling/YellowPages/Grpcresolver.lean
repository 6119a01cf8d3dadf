import YellowPages.Sdk.Deliver
import YellowPages.Lib.Strings

/-!
# The gRPC resolver

`client/grpcresolver/resolver.go`: a resolver watches a service at the agent and passes every set it
receives on to gRPC, as a list of addresses.
-/

namespace YellowPages.Grpcresolver

open Lib Store Wire Watch Server Federation Sdk
open SeedClient hiding received

/-- `net.JoinHostPort`. -/
def joinHostPort (host port : String) : String :=
  if ':' ∈ host.toList then "[" ++ host ++ "]:" ++ port else host ++ ":" ++ port

structure Address where
  addr : String
  weight : UInt32
  deriving DecidableEq

def weightOf (e : PbEntry) : UInt32 :=
  let w := ((e.service.getD {}).weights.getD {}).passing
  if w > 0 then w else 1

/-- One turn of the loop of `toAddresses`. An entry without any address is left out. -/
def toAddress (e : PbEntry) : Option Address :=
  let svc := e.service.getD {}
  let host := if svc.address = "" then (e.node.getD {}).address else svc.address
  if host = "" then none
  else some { addr := joinHostPort host (formatUint svc.port.toNat), weight := weightOf e }

def toAddresses (entries : List PbEntry) : List Address := entries.filterMap toAddress

/-- The query of `Build`. -/
def watchQuery (service : String) : Query := { name := service, onlyHealthy := true }

/-- What `run` has passed to `UpdateState`. -/
def updates (d : Delivery) : List (List Address) := d.out.taken.map toAddresses

/-! ## What the agent sends -/

/-- The entry of the response is one of the agent's, put on the wire. -/
def Made (r : PbWatchResponse) : Prop :=
  ∀ ev e, r.event = some ev → ev.entry = some e → ∃ e', e = entryToProto e'

theorem made_sendEvent (t : ChangeType) (e : ServiceEntry) (idx : Nat) : Made (sendEvent t e idx) := by
  rintro ev e' hev he
  obtain rfl := Option.some.inj hev
  exact ⟨e, (Option.some.inj he).symm⟩

theorem made_responses (s : ProxyStream) (lr : LookupResult) (idx : Nat)
    (puts deletes : RangeOrder String) :
    ∀ r ∈ s.responses lr idx puts deletes, Made r := by
  intro r hr
  unfold ProxyStream.responses at hr
  split at hr
  · rcases List.mem_append.mp hr with hr | hr
    · obtain ⟨e, -, rfl⟩ := List.mem_map.mp hr
      exact made_sendEvent _ _ _
    · rw [List.mem_singleton.mp hr]
      intro ev e hev
      cases hev
  · rcases List.mem_append.mp hr with hr | hr <;> obtain ⟨k, -, hk⟩ := List.mem_filterMap.mp hr <;>
      obtain ⟨e, -, hsend⟩ := Option.bind_eq_some_iff.mp hk <;> split at hsend
    · obtain rfl := Option.some.inj hsend
      exact made_sendEvent _ _ _
    · cases hsend
    · cases hsend
    · obtain rfl := Option.some.inj hsend
      exact made_sendEvent _ _ _

/-- Responses of the agent only, and after the first read the end of the snapshot among them. -/
structure Relays (s : ProxyStream) : Prop where
  made : ∀ r ∈ s.sent ++ s.phase.unsent, Made r
  done : s.first = false → s.phase.live = true → ∃ r ∈ s.sent ++ s.phase.unsent,
    r.snapshotDone = true

namespace Relays

variable {s s' : ProxyStream}

theorem new (reader : Reader) (base : Nat) (q : Query) : Relays (ProxyStream.new reader base q) where
  made := by
    have hunsent : (ProxyStream.new reader base q).phase.unsent = [] := by
      dsimp only [ProxyStream.new]
      split <;> rfl
    rw [hunsent]
    exact fun r hr => by simp [ProxyStream.new] at hr
  done := nofun

/-- A step within a round: the same responses, on one side or the other, unless the handler returns. -/
theorem same (h : Relays s) (hfirst : s'.first = s.first)
    (hsent : s'.sent ++ s'.phase.unsent ⊆ s.sent ++ s.phase.unsent)
    (hphase : s'.phase.live = true → s.phase.live = true ∧
      s.sent ++ s.phase.unsent ⊆ s'.sent ++ s'.phase.unsent) :
    Relays s' where
  made r hr := h.made r (hsent hr)
  done hs hlive := by
    obtain ⟨hlive, hkept⟩ := hphase hlive
    obtain ⟨r, hr, hdone⟩ := h.done (hfirst ▸ hs) hlive
    exact ⟨r, hkept hr, hdone⟩

theorem moved (h : Relays s) (hfirst : s'.first = s.first) (hlive : s.phase.live = true)
    (hsent : s'.sent ++ s'.phase.unsent = s.sent ++ s.phase.unsent) : Relays s' :=
  h.same hfirst (by rw [hsent]; exact List.Subset.refl _) fun _ =>
    ⟨hlive, by rw [hsent]; exact List.Subset.refl _⟩

theorem woken (h : Relays s) (hphase : s.phase = .waiting) (idx : Nat) : Relays (s.woken idx) := by
  unfold ProxyStream.woken
  split
  · exact h
  · exact h.moved rfl (by rw [hphase]; rfl) (by rw [hphase]; rfl)

theorem read (h : Relays s) {clk : Nat → Time} {puts deletes : RangeOrder String} {idx : Nat}
    (hphase : s.phase = .reading idx) : Relays (s.read clk puts deletes idx) := by
  have hmade := h.made
  rw [hphase] at hmade
  dsimp only [ProxyStream.read]
  split
  · exact h.moved rfl (by rw [hphase]; rfl) (by rw [hphase]; rfl)
  · exact h.same rfl (by rw [hphase]; exact List.Subset.refl _) nofun
  · rename_i lr age hlr
    refine ⟨fun r hr => ?_, fun _ _ => ?_⟩
    · rcases List.mem_append.mp hr with hr | hr
      · exact hmade r (List.mem_append_left _ hr)
      · exact made_responses s lr idx puts deletes r hr
    · -- The first round ends the snapshot, and later rounds come after it.
      cases hfirst : s.first with
      | true =>
        refine ⟨{ snapshotDone := true, index := idx }, List.mem_append_right _ ?_, rfl⟩
        simp [ProxyPhase.unsent, ProxyStream.responses, hfirst]
      | false =>
        obtain ⟨r, hr, hdone⟩ := h.done hfirst (by rw [hphase]; rfl)
        rw [hphase] at hr
        exact ⟨r, List.mem_append_left _ (by simpa [ProxyPhase.unsent] using hr), hdone⟩

theorem step (h : Relays s) (a : ProxyAction) : Relays (s.step a) := by
  cases a with
  | wait timedOut =>
    dsimp only [ProxyStream.step]
    split
    · rename_i hphase
      split
      · exact h.woken hphase _
      · split
        · exact h.woken hphase _
        · exact h
    · exact h
  | read clk puts deletes =>
    dsimp only [ProxyStream.step]
    split
    · rename_i hphase
      exact h.read hphase
    · exact h
  | send =>
    dsimp only [ProxyStream.step]
    split
    · rename_i r rest hphase
      exact h.moved rfl (by rw [hphase]; rfl) (by rw [hphase]; simp [ProxyPhase.unsent])
    · rename_i hphase
      exact h.moved rfl (by rw [hphase]; rfl) (by rw [hphase]; rfl)
    · exact h
  | cancel =>
    exact h.same rfl (by simp [ProxyStream.step, ProxyPhase.unsent])
      (by simp [ProxyStream.step, ProxyPhase.live])
  | seeds client => exact h.same rfl (List.Subset.refl _) fun hlive => ⟨hlive, List.Subset.refl _⟩
  | cache c => exact h.same rfl (List.Subset.refl _) fun hlive => ⟨hlive, List.Subset.refl _⟩
  | watch c => exact h.same rfl (List.Subset.refl _) fun hlive => ⟨hlive, List.Subset.refl _⟩

theorem run (h : Relays s) (actions : List ProxyAction) : Relays (s.run actions) := by
  induction actions generalizing s with
  | nil => exact h
  | cons a rest ih => exact ih (h.step a)

end Relays

/-! ## The first read -/

theorem first_step (s : ProxyStream) (a : ProxyAction) (h : s.first = false ∨ s.obtains a ≠ none) :
    (s.step a).first = false := by
  cases a with
  | read clk puts deletes =>
    rw [ProxyStream.obtains] at h
    rw [ProxyStream.step]
    cases hphase : s.phase with
    | reading idx =>
      simp only [hphase, ProxyStream.read] at h ⊢
      cases hread : (s.reader.lookup clk s.query).2 with
      | ok lr age => rfl
      | failed e => simpa [hread] using h
      | crashed => simpa [hread] using h
    | waiting | sending _ | returned _ | crashed => simpa [hphase] using h
  | wait timedOut =>
    have hfirst : s.first = false := by simpa [ProxyStream.obtains] using h
    have hwoken : ∀ idx, (s.woken idx).first = false := by
      intro idx
      unfold ProxyStream.woken
      split <;> exact hfirst
    dsimp only [ProxyStream.step]
    split
    · split
      · exact hwoken _
      · split
        · exact hwoken _
        · exact hfirst
    · exact hfirst
  | send =>
    have hfirst : s.first = false := by simpa [ProxyStream.obtains] using h
    dsimp only [ProxyStream.step]
    split <;> exact hfirst
  | cancel | seeds _ | cache _ | watch _ =>
    have hfirst : s.first = false := by simpa [ProxyStream.obtains] using h
    exact hfirst

theorem first_run (actions : List ProxyAction) (s : ProxyStream)
    (h : s.first = false ∨ s.obtained actions ≠ []) :
    (s.run actions).first = false := by
  induction actions generalizing s with
  | nil =>
    have hfirst : s.first = false := by simpa [ProxyStream.obtained] using h
    exact hfirst
  | cons a rest ih =>
    refine ih (s.step a) ?_
    by_cases hrest : (s.step a).obtained rest = []
    · refine Or.inl (first_step s a (h.imp_right fun hne hnone => hne ?_))
      rw [ProxyStream.obtained, hnone, hrest]
      rfl
    · exact Or.inr hrest

/-! ## The set after the last response -/

theorem ready_of_done {rs : List PbWatchResponse} (h : ∃ r ∈ rs, r.snapshotDone = true) :
    (received rs).ready = true := by
  induction rs using List.reverseRecOn with
  | nil => simp at h
  | append_singleton rs r ih =>
    rw [received_snoc, ClientSet.recv, Bool.or_eq_true]
    obtain ⟨r', hr', hdone⟩ := h
    rcases List.mem_append.mp hr' with hr' | hr'
    · exact Or.inl (ih ⟨r', hr', hdone⟩)
    · rw [List.mem_singleton.mp hr'] at hdone
      exact Or.inr hdone

theorem published_getLast? {rs : List PbWatchResponse} (hne : rs ≠ [])
    (hready : (received rs).ready = true) :
    (ClientSet.published {} rs).getLast? = some (received rs).set := by
  obtain ⟨rs, r, rfl⟩ := (List.eq_nil_or_concat' rs).resolve_left hne
  rw [received_snoc] at hready ⊢
  rw [published_snoc, ← received, if_pos hready, List.getLast?_append]
  rfl

theorem entry_of_leaves {r : PbWatchResponse} {e : PbEntry} (h : leaves r = some (some e)) :
    ∃ ev, r.event = some ev ∧ ev.entry = some e := by
  unfold leaves at h
  split at h
  · rename_i hev
    obtain rfl := Option.some.inj (Option.some.inj h)
    exact ⟨_, hev, rfl⟩
  · cases Option.some.inj h
  · cases h

theorem made_received {rs : List PbWatchResponse} (h : ∀ r ∈ rs, Made r) {k : String} {e : PbEntry}
    (he : (received rs).set[k]? = some e) : ∃ e', e = entryToProto e' := by
  induction rs using List.reverseRecOn with
  | nil => simp [received] at he
  | append_singleton rs r ih =>
    rw [List.forall_mem_append, List.forall_mem_singleton] at h
    rw [received_snoc, recv_getElem?] at he
    cases hleaves : (if aboutKey r = some k then leaves r else none) with
    | none =>
      rw [hleaves] at he
      exact ih h.1 he
    | some left =>
      rw [hleaves, Option.getD_some] at he
      obtain ⟨-, hleft⟩ := Option.ite_none_right_eq_some.mp hleaves
      rw [he] at hleft
      obtain ⟨ev, hev, hentry⟩ := entry_of_leaves hleft
      exact h.2 ev e hev hentry

/-! ## Addresses -/

/-- `host:port` of an instance that has an address of its own. -/
def hostPort (e : ServiceEntry) : String :=
  joinHostPort e.service.address (formatUint e.service.port.toNat)

theorem toAddress_of_sameEndpoint {held : PbEntry} {e : ServiceEntry}
    (hmade : ∃ e', held = entryToProto e') (h : SameEndpoint held e)
    (haddress : e.service.address ≠ "") :
    (toAddress held).map Address.addr = some (hostPort e) := by
  obtain ⟨e', rfl⟩ := hmade
  have hwire : entryFromProto (entryToProto e') = overWire e' := rfl
  have haddr := h.address
  have hport := h.port
  rw [hwire, overWire_eq] at haddr hport
  simp only at haddr hport
  simp [toAddress, entryToProto, serviceToProto, haddr, hport, haddress, hostPort]

/-- The list of a set that shows a read has the addresses of the read, in some order. -/
theorem addresses_of_shows {set : Map PbEntry} {entries : List ServiceEntry} {l : List PbEntry}
    (hl : Lists l set) (hkeyed : WellKeyed entries) (hshows : Shows set entries)
    (hmade : ∀ (k : String) (e : PbEntry), set[k]? = some e → ∃ e', e = entryToProto e')
    (haddress : ∀ e ∈ entries, e.service.address ≠ "") :
    ((toAddresses l).map Address.addr).Perm (entries.map hostPort) := by
  obtain ⟨order, rfl⟩ := hl
  have hkeys : set.keys.Perm (entries.map SeedClient.entryKey) := by
    refine (List.perm_ext_iff_of_nodup Std.ExtTreeMap.nodup_keys ?_).mpr fun k => ?_
    · exact hkeyed.distinct.of_map.map_on fun e he e' he' heq => hkeyed.inj he he' heq
    · rw [Std.ExtTreeMap.mem_keys, hshows.keys, List.mem_map]
  have hread : (toAddresses (snapshot order set)).map Address.addr =
      (order.visit set.keys).filterMap fun k => (set[k]?.bind toAddress).map Address.addr := by
    simp only [toAddresses, snapshot, List.filterMap_filterMap, List.map_filterMap]
  have hentries :
      (entries.map SeedClient.entryKey).filterMap (fun k => (set[k]?.bind toAddress).map Address.addr) =
      entries.map hostPort := by
    rw [List.filterMap_map, ← List.filterMap_eq_map]
    refine List.filterMap_congr fun e he => ?_
    obtain ⟨held, hheld, hsame⟩ := hshows.endpoints e he
    simp only [Function.comp_apply, hheld, Option.bind_some]
    exact toAddress_of_sameEndpoint (hmade _ held hheld) hsame (haddress e he)
  rw [hread, ← hentries]
  exact ((order.perm set.keys).trans hkeys).filterMap _

/-- The agent's reads list each instance once, under ids without a NUL. When a round of its stream is
over and the channel is empty, the last addresses given to gRPC are those of the agent's last read, if
every instance there has an address of its own: the stream does not follow that of the node. -/
theorem resolver_follows_reads (reader : Reader) (base : Nat) (service : String)
    (actions : List ProxyAction)
    (hkeyed : ∀ lr ∈ (ProxyStream.new reader base (watchQuery service)).obtained actions,
      WellKeyed lr.entries) (delivery : List DeliveryAction) :
    let s := (ProxyStream.new reader base (watchQuery service)).run actions
    let d := Delivery.run {} delivery
    ∀ lr, ((ProxyStream.new reader base (watchQuery service)).obtained actions).getLast? = some lr →
      s.phase.live = true → s.phase.unsent = [] → d.responses = s.sent →
        d.out.sender.pending = none →
        d.out.buffer = none → (∀ e ∈ lr.entries, e.service.address ≠ "") →
          ∃ addrs, (updates d).getLast? = some addrs ∧ (addrs.map Address.addr).Perm
            (lr.entries.map hostPort) := by
  intro s d lr hlast hlive hunsent hresponses hpending hbuffer haddress
  have hrelays : Relays s := (Relays.new reader base (watchQuery service)).run actions
  have hsent : s.sent ++ s.phase.unsent = s.sent := by rw [hunsent, List.append_nil]
  -- The read is in the set, and the set has been published.
  have hstep := (InStep.new reader base (watchQuery service)).run actions hkeyed
  obtain ⟨hlr, hread⟩ := hstep.last lr (by rw [hlast]; rfl)
  have hholds := hstep.holds hlive
  rw [hread] at hholds
  have hshows : Shows (received s.sent).set lr.entries := shows_of_holds hlr (hsent ▸ hholds)
  have hfirst : s.first = false := first_run actions _ (Or.inr fun hnone => by simp [hnone] at hlast)
  obtain ⟨r, hr, hdone⟩ := hrelays.done hfirst hlive
  rw [hsent] at hr
  have hpublished := published_getLast? (List.ne_nil_of_mem hr) (ready_of_done ⟨r, hr, hdone⟩)
  -- The consumer has the last published set.
  have hdelivers : Delivers d := Delivers.new.run delivery
  have htaken := (hdelivers.keeps.related hdelivers.offered).2 hpending hbuffer
  rw [hresponses, hpublished] at htaken
  generalize hl : d.out.taken.getLast? = last at htaken
  cases htaken with
  | some hlists =>
    refine ⟨_, by rw [updates, List.getLast?_map, hl]; rfl, ?_⟩
    have hmade := hrelays.made
    rw [hsent] at hmade
    exact addresses_of_shows hlists hlr hshows (fun k e he => made_received hmade he) haddress

def webInstance (s : String) (port : UInt16) : ServiceEntry :=
  { node := { id := "n" },
    service := { id := s, name := "web", address := "10.0.0.1", port := port }, health := .passing }

def webReader : Reader :=
  { client := fun _ => .ok { entries := [webInstance "a" 80, webInstance "b" 81] } }

/-- One read of the agent, sent and received. -/
def webRound : List ProxyAction :=
  [.wait false, .read (fun _ => 0) .asStored .asStored, .send, .send, .send, .send]

theorem resolver_follows_reads_web :
    let s := (ProxyStream.new webReader 1 (watchQuery "web")).run webRound
    let d := Delivery.run {} (s.sent.map (.recv · .asStored) ++ [.select, .take])
    ∃ addrs, (updates d).getLast? = some addrs ∧
      (addrs.map Address.addr).Perm ["10.0.0.1:80", "10.0.0.1:81"] := by
  refine resolver_follows_reads webReader 1 "web" webRound ?_ _
    { entries := [webInstance "a" 80, webInstance "b" 81] }
    rfl rfl rfl rfl rfl rfl (by decide)
  intro lr hlr
  have hreads : lr ∈ [{ entries := [webInstance "a" 80, webInstance "b" 81] }] := hlr
  rw [List.mem_singleton.mp hreads]
  exact ⟨by decide, by decide⟩

end YellowPages.Grpcresolver
