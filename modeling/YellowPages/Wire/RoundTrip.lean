import YellowPages.Store.Definitions
import YellowPages.Wire

/-!
# Round trips

What `internal/protoconv` keeps. The wire carries whole seconds, 64-bit instants and named
enum values. A value of that kind comes back as it was sent, a message of that kind is written
as it was read, and whatever else is sent is settled after one trip. A TTL of less than a second
is settled to none at all, and a seed takes that for its default.
-/

namespace YellowPages.Wire

/-! ## What the wire can carry -/

/-- A whole number of seconds that fits a `uint32`. -/
def WholeSeconds (d : Duration) : Prop := ∃ n : Nat, n < 2 ^ 32 ∧ d = n * second

def IsInt64 (n : Int) : Prop := -2 ^ 63 ≤ n ∧ n < 2 ^ 63

/-- The zero time, or an instant whose `UnixNano` is exact and not 0. -/
def Instant (t : Time) : Prop := t = zeroTime ∨ t ≠ 0 ∧ IsInt64 t

structure Portable (e : ServiceEntry) : Prop where
  ttl : WholeSeconds e.service.ttl
  lastSeen : Instant e.service.lastSeen

/-- A service as a registration carries it, without the runtime fields. -/
structure Bare (s : ServiceInstance) : Prop where
  ttl : WholeSeconds s.ttl
  lastSeen : s.lastSeen = zeroTime
  generation : s.generation = 0

/-! ## Messages with everything in them -/

def PbHealth.Known (h : PbHealth) : Prop := ∀ n, h ≠ .unrecognized n

def PbChangeType.Known (t : PbChangeType) : Prop := ∀ n, t ≠ .unrecognized n

structure PbService.Whole (p : PbService) : Prop where
  port : p.port.toNat ≤ 65535
  weights : p.weights.isSome

structure PbRegistration.Whole (p : PbRegistration) : Prop where
  node : p.node.isSome
  services : ∀ s ∈ p.services, s.Whole

/-- The field is an `int64`, so this says nothing about a message that exists. -/
def PbEntry.InRange (p : PbEntry) : Prop := IsInt64 p.lastSeenUnixNano

structure PbEntry.Whole (p : PbEntry) : Prop where
  node : p.node.isSome
  service : ∃ s, p.service = some s ∧ s.Whole
  health : p.health.Known
  inRange : p.InRange

structure PbChangeEvent.Whole (p : PbChangeEvent) : Prop where
  type : p.type.Known
  entry : ∃ e, p.entry = some e ∧ e.Whole

/-! ## Numbers -/

theorem ttlToSeconds_mul (n : Nat) (h : n < 2 ^ 32) : ttlToSeconds (n * second) = UInt32.ofNat n := by
  have hsecs : (n * second : Int).tdiv second = n := Int.mul_tdiv_cancel _ (by decide)
  unfold ttlToSeconds
  dsimp only
  rw [hsecs, if_neg (by omega), if_neg (by omega)]
  rfl

theorem ttl_of_wholeSeconds {d : Duration} (h : WholeSeconds d) :
    (ttlToSeconds d).toNat * second = d := by
  obtain ⟨n, hn, rfl⟩ := h
  rw [ttlToSeconds_mul n hn, UInt32.toNat_ofNat_of_lt' (by simpa using hn)]

theorem wholeSeconds_toNat (n : UInt32) : WholeSeconds (n.toNat * second) :=
  ⟨n.toNat, n.toNat_lt, rfl⟩

theorem wholeSeconds_zero : WholeSeconds 0 := ⟨0, by decide, by simp⟩

theorem ttlToSeconds_toNat (n : UInt32) : ttlToSeconds (n.toNat * second) = n := by
  rw [ttlToSeconds_mul n.toNat n.toNat_lt, UInt32.ofNat_toNat]

theorem toUInt32_portFromProto (p : UInt32) (h : p.toNat ≤ 65535) :
    (portFromProto p).toUInt32 = p := by
  unfold portFromProto
  rw [if_neg (by omega)]
  apply UInt32.toNat_inj.mp
  rw [UInt16.toNat_toUInt32, UInt16.toNat_ofNat']
  omega

theorem zeroTime_not_int64 : ¬ IsInt64 zeroTime := by unfold IsInt64; decide

theorem bmod_of_int64 {n : Int} (h : IsInt64 n) : Int.bmod n (2 ^ 64) = n := by
  obtain ⟨hlo, hhi⟩ := h
  exact Int.bmod_eq_of_le (by omega) (by omega)

theorem toUnixNano_fromUnixNano {n : Int} (h : IsInt64 n) : toUnixNano (fromUnixNano n) = n := by
  unfold fromUnixNano toUnixNano
  split <;> rename_i hn
  · rw [if_pos rfl, hn]
  · have hne : n ≠ zeroTime := by
      intro heq
      exact zeroTime_not_int64 (heq ▸ h)
    rw [if_neg hne, bmod_of_int64 h]

theorem fromUnixNano_toUnixNano {t : Time} (h : Instant t) : fromUnixNano (toUnixNano t) = t := by
  rcases h with rfl | ⟨hne, hrange⟩
  · rfl
  · have hzero : t ≠ zeroTime := by
      intro heq
      exact zeroTime_not_int64 (heq ▸ hrange)
    unfold toUnixNano fromUnixNano
    rw [if_neg hzero, bmod_of_int64 hrange, if_neg hne]

theorem instant_fromUnixNano {n : Int} (h : IsInt64 n) : Instant (fromUnixNano n) := by
  unfold fromUnixNano
  split <;> rename_i hn
  · exact Or.inl rfl
  · exact Or.inr ⟨hn, h⟩

theorem isInt64_toUnixNano (t : Time) : IsInt64 (toUnixNano t) := by
  unfold toUnixNano IsInt64
  split
  · decide
  · have hlo : -((2 ^ 64 : Nat) / 2 : Int) ≤ Int.bmod t (2 ^ 64) := Int.le_bmod (by decide)
    have hhi : Int.bmod t (2 ^ 64) < ((2 ^ 64 : Nat) + 1) / 2 := Int.bmod_lt (by decide)
    omega

/-! ## What is read is portable -/

theorem serviceFromProto_bare (p : Option PbService) : Bare (serviceFromProto p) := by
  cases p with
  | none => exact ⟨wholeSeconds_zero, rfl, rfl⟩
  | some p => exact ⟨wholeSeconds_toNat p.ttlSeconds, rfl, rfl⟩

theorem entryFromProto_portable {p : PbEntry} (h : p.InRange) : Portable (entryFromProto p) :=
  ⟨(serviceFromProto_bare p.service).ttl, instant_fromUnixNano h⟩

theorem entryToProto_inRange (e : ServiceEntry) : (entryToProto e).InRange :=
  isInt64_toUnixNano e.service.lastSeen

/-! ## Reading what was written -/

theorem overWire_of_portable {e : ServiceEntry} (h : Portable e) : overWire e = e.unindexed := by
  rw [overWire_eq, ttl_of_wholeSeconds h.ttl, fromUnixNano_toUnixNano h.lastSeen]
  rfl

theorem service_reads_back {s : ServiceInstance} (h : Bare s) :
    serviceFromProto (some (serviceToProto s)) = s := by
  obtain ⟨httl, hseen, hgen⟩ := h
  simp only [serviceFromProto, serviceToProto, portFromProto_toUInt32, weightsFromProto_toProto,
    ttl_of_wholeSeconds httl]
  rw [← hseen, ← hgen]

theorem registration_reads_back {r : Registration} (h : ∀ s ∈ r.services, Bare s) :
    registrationFromProto (some (registrationToProto r)) = r := by
  have hservices : r.services.map (fun s => serviceFromProto (some (serviceToProto s))) = r.services :=
    (List.map_congr_left fun s hs => service_reads_back (h s hs)).trans (List.map_id _)
  simp [registrationFromProto, registrationToProto, Function.comp_def, hservices]

theorem lookupResult_reads_back {r : LookupResult} (h : ∀ e ∈ r.entries, Portable e) :
    lookupResultFromProto (lookupResultToProto r) = { r with entries := r.entries.map ServiceEntry.unindexed } := by
  rw [lookupResult_overWire, List.map_congr_left fun e he => overWire_of_portable (h e he)]

theorem changeEvent_reads_back {e : ChangeEvent} (h : Portable e.entry) :
    changeEventFromProto (changeEventToProto e) e.index = { e with entry := e.entry.unindexed } := by
  rw [changeEvent_overWire, overWire_of_portable h]

/-! ## Writing what was read -/

theorem node_writes_back {p : Option PbNode} (h : p.isSome) :
    some (nodeToProto (nodeFromProto p)) = p := by
  obtain ⟨p, rfl⟩ := Option.isSome_iff_exists.mp h
  rfl

theorem weights_write_back {p : Option PbWeights} (h : p.isSome) :
    some (weightsToProto (weightsFromProto p)) = p := by
  obtain ⟨p, rfl⟩ := Option.isSome_iff_exists.mp h
  rfl

theorem health_writes_back {h : PbHealth} (hk : h.Known) : healthToProto (healthFromProto h) = h := by
  cases h with
  | unrecognized n => exact absurd rfl (hk n)
  | _ => rfl

theorem changeType_writes_back {t : PbChangeType} (hk : t.Known) :
    changeTypeToProto (changeTypeFromProto t) = t := by
  cases t with
  | unrecognized n => exact absurd rfl (hk n)
  | _ => rfl

theorem service_writes_back {p : PbService} (h : p.Whole) :
    serviceToProto (serviceFromProto (some p)) = p := by
  simp only [serviceToProto, serviceFromProto, toUInt32_portFromProto p.port h.port,
    weights_write_back h.weights, ttlToSeconds_toNat]

theorem registration_writes_back {p : PbRegistration} (h : p.Whole) :
    registrationToProto (registrationFromProto (some p)) = p := by
  have hservices : p.services.map (fun s => serviceToProto (serviceFromProto (some s))) = p.services :=
    (List.map_congr_left fun s hs => service_writes_back (h.services s hs)).trans (List.map_id _)
  simp [registrationToProto, registrationFromProto, Function.comp_def, hservices,
    node_writes_back h.node]

theorem entry_writes_back {p : PbEntry} (h : p.Whole) : entryToProto (entryFromProto p) = p := by
  obtain ⟨s, hs, hwhole⟩ := h.service
  -- The runtime fields do not go into the service message.
  have hservice : ∀ generation lastSeen, serviceToProto
      { serviceFromProto p.service with generation := generation, lastSeen := lastSeen } =
        serviceToProto (serviceFromProto p.service) := fun _ _ => rfl
  simp only [entryToProto, entryFromProto, hservice, node_writes_back h.node,
    health_writes_back h.health,
    toUnixNano_fromUnixNano h.inRange]
  rw [hs, service_writes_back hwhole, ← hs]

theorem lookupResponse_writes_back {p : PbLookupResponse} (h : ∀ e ∈ p.entries, e.Whole) :
    lookupResultToProto (lookupResultFromProto p) = p := by
  have hentries : p.entries.map (fun e => entryToProto (entryFromProto e)) = p.entries :=
    (List.map_congr_left fun e he => entry_writes_back (h e he)).trans (List.map_id _)
  simp [lookupResultToProto, lookupResultFromProto, Function.comp_def, hentries]

theorem changeEvent_writes_back {p : PbChangeEvent} (h : p.Whole) (index : Nat) :
    changeEventToProto (changeEventFromProto p index) = p := by
  obtain ⟨e, he, hwhole⟩ := h.entry
  simp only [changeEventToProto, changeEventFromProto, changeType_writes_back h.type]
  rw [he, Option.getD_some, entry_writes_back hwhole, ← he]

/-! ## The second trip -/

theorem entry_settles {p : PbEntry} (h : p.InRange) :
    entryFromProto (entryToProto (entryFromProto p)) = entryFromProto p :=
  overWire_of_portable (entryFromProto_portable h)

theorem registration_settles (p : Option PbRegistration) :
    registrationFromProto
      (some (registrationToProto (registrationFromProto p))) = registrationFromProto p := by
  apply registration_reads_back
  intro s hs
  cases p with
  | none => cases hs
  | some p =>
    obtain ⟨m, -, rfl⟩ := List.mem_map.mp hs
    exact serviceFromProto_bare (some m)

theorem lookupResult_settles {p : PbLookupResponse} (h : ∀ e ∈ p.entries, e.InRange) :
    lookupResultFromProto
      (lookupResultToProto (lookupResultFromProto p)) = lookupResultFromProto p := by
  have hentries : p.entries.map (fun e => overWire (entryFromProto e)) = p.entries.map entryFromProto :=
    List.map_congr_left fun e he => entry_settles (h e he)
  rw [lookupResult_overWire]
  simp [lookupResultFromProto, Function.comp_def, hentries]

theorem changeEvent_settles {p : PbChangeEvent} (h : ∀ e ∈ p.entry, e.InRange) (index : Nat) :
    changeEventFromProto (changeEventToProto (changeEventFromProto p index)) index =
      changeEventFromProto p index := by
  have hrange : (p.entry.getD {}).InRange := by
    cases hp : p.entry with
    | none => exact ⟨by decide, by decide⟩
    | some e => exact h e hp
  rw [changeEvent_overWire]
  simp only [changeEventFromProto, overWire, entry_settles hrange]

/-! ## The contract -/

/-- A value that the wire can carry is read back, without the indexes. -/
structure ReadsBack : Prop where
  entry : ∀ e, Portable e → entryFromProto (entryToProto e) = e.unindexed
  registration : ∀ r : Registration, (∀ s ∈ r.services, Bare s) →
    registrationFromProto (some (registrationToProto r)) = r
  query : ∀ q, queryFromProto (some (queryToProto q)) = q
  lookupResult : ∀ r : LookupResult, (∀ e ∈ r.entries, Portable e) →
    lookupResultFromProto (lookupResultToProto r) = { r with entries := r.entries.map ServiceEntry.unindexed }
  changeEvent : ∀ e : ChangeEvent, Portable e.entry →
    changeEventFromProto (changeEventToProto e) e.index = { e with entry := e.entry.unindexed }

/-- A message with everything in it is written back. -/
structure WritesBack : Prop where
  node : ∀ p, nodeToProto (nodeFromProto (some p)) = p
  service : ∀ p : PbService, p.Whole → serviceToProto (serviceFromProto (some p)) = p
  entry : ∀ p : PbEntry, p.Whole → entryToProto (entryFromProto p) = p
  registration : ∀ p : PbRegistration, p.Whole →
    registrationToProto (registrationFromProto (some p)) = p
  query : ∀ p, queryToProto (queryFromProto (some p)) = p
  lookupResponse : ∀ p : PbLookupResponse, (∀ e ∈ p.entries, e.Whole) →
    lookupResultToProto (lookupResultFromProto p) = p
  changeEvent : ∀ (p : PbChangeEvent) (index : Nat), p.Whole →
    changeEventToProto (changeEventFromProto p index) = p

/-- Whatever is sent and whatever arrives, a second trip changes nothing. A number without a name
that a Go enum could hold is written as one of these messages as well. -/
structure Settles : Prop where
  entry : ∀ e, overWire (overWire e) = overWire e
  registration : ∀ r, registrationFromProto (some (registrationToProto
      (registrationFromProto (some (registrationToProto r))))) =
    registrationFromProto (some (registrationToProto r))
  query : ∀ q, queryFromProto (some (queryToProto (queryFromProto (some (queryToProto q))))) =
    queryFromProto (some (queryToProto q))
  lookupResult : ∀ r, lookupResultFromProto (lookupResultToProto
      (lookupResultFromProto (lookupResultToProto r))) = lookupResultFromProto (lookupResultToProto r)
  changeEvent : ∀ e index, changeEventFromProto (changeEventToProto
      (changeEventFromProto (changeEventToProto e) index)) index =
    changeEventFromProto (changeEventToProto e) index
  arrivedEntry : ∀ p : PbEntry, p.InRange →
    entryFromProto (entryToProto (entryFromProto p)) = entryFromProto p
  arrivedRegistration : ∀ p,
    registrationFromProto (some (registrationToProto (registrationFromProto p))) =
      registrationFromProto p
  arrivedQuery : ∀ p, queryFromProto (some (queryToProto (queryFromProto p))) = queryFromProto p
  arrivedLookup : ∀ p : PbLookupResponse, (∀ e ∈ p.entries, e.InRange) →
    lookupResultFromProto (lookupResultToProto (lookupResultFromProto p)) = lookupResultFromProto p
  arrivedEvent : ∀ (p : PbChangeEvent) (index : Nat), (∀ e ∈ p.entry, e.InRange) →
    changeEventFromProto (changeEventToProto (changeEventFromProto p index)) index =
      changeEventFromProto p index

theorem reads_back : ReadsBack where
  entry _ h := overWire_of_portable h
  registration _ h := registration_reads_back h
  query _ := rfl
  lookupResult _ h := lookupResult_reads_back h
  changeEvent _ h := changeEvent_reads_back h

theorem writes_back : WritesBack where
  node _ := rfl
  service _ h := service_writes_back h
  entry _ h := entry_writes_back h
  registration _ h := registration_writes_back h
  query _ := rfl
  lookupResponse _ h := lookupResponse_writes_back h
  changeEvent _ index h := changeEvent_writes_back h index

theorem settles : Settles where
  entry e := entry_settles (entryToProto_inRange e)
  registration r := registration_settles (some (registrationToProto r))
  query _ := rfl
  lookupResult r := by
    apply lookupResult_settles
    intro p hp
    obtain ⟨e, -, rfl⟩ := List.mem_map.mp hp
    exact entryToProto_inRange e
  changeEvent e index := by
    apply changeEvent_settles
    intro p hp
    obtain rfl := Option.some.inj hp
    exact entryToProto_inRange e.entry
  arrivedEntry _ h := entry_settles h
  arrivedRegistration p := registration_settles p
  arrivedQuery p := by cases p <;> rfl
  arrivedLookup _ h := lookupResult_settles h
  arrivedEvent _ index h := changeEvent_settles h index

theorem wire_round_trips : ReadsBack ∧ WritesBack ∧ Settles := ⟨reads_back, writes_back, settles⟩

theorem wire_round_trips_web :
    let e : ServiceEntry :=
      { node := { id := "n1" }
        service := { id := "web", name := "web", ttl := 30 * second, lastSeen := 5, generation := 2 }
        health := .passing
        createIndex := 3
        modifyIndex := 4 }
    Portable e ∧ entryFromProto (entryToProto e) = e.unindexed ∧
      (entryToProto e).Whole ∧ entryToProto (entryFromProto (entryToProto e)) = entryToProto e := by
  intro e
  have hportable : Portable e :=
    ⟨⟨30, by decide, by decide⟩, Or.inr ⟨by decide, by decide, by decide⟩⟩
  have hwhole : (entryToProto e).Whole :=
    { node := rfl
      service := ⟨_, rfl, by decide, rfl⟩
      health := by intro n; simp [entryToProto, healthToProto, e]
      inRange := entryToProto_inRange e }
  exact ⟨hportable, wire_round_trips.1.entry e hportable, hwhole,
    wire_round_trips.2.1.entry _ hwhole⟩

/-! ## What a seed grants to a TTL that came over the wire -/

section Granted

open Store

theorem toNat_ttlToSeconds (d : Duration) (h : 0 < d) :
    ((ttlToSeconds d).toNat : Int) = min (d.tdiv second) (2 ^ 32 - 1) := by
  have hnonneg : 0 ≤ d.tdiv second := Int.tdiv_nonneg h.le (by decide)
  unfold ttlToSeconds
  dsimp only
  rw [if_neg (not_lt.mpr hnonneg)]
  split <;> rename_i hmax
  · rw [min_eq_right (by omega)]
    rfl
  · rw [UInt32.toNat_ofNat_of_lt' (by simp only [UInt32.size]; omega)]
    omega

/-- The wire rounds down. -/
theorem wireTTL_le {d : Duration} (h : 0 < d) : (ttlToSeconds d).toNat * second ≤ d := by
  have hfloor : d.tdiv second * second ≤ d := by
    rw [Int.tdiv_eq_ediv_of_nonneg h.le]
    exact Int.ediv_mul_le d (by decide)
  rw [toNat_ttlToSeconds d h]
  exact (Int.mul_le_mul_of_nonneg_right (min_le_left _ _) (by decide)).trans hfloor

/-- Nothing is left of less than a second. -/
theorem wireTTL_pos_iff {d : Duration} (h : 0 < d) : 0 < (ttlToSeconds d).toNat * second ↔
    second ≤ d := by
  have hdiv : 1 ≤ d.tdiv second ↔ second ≤ d := by
    rw [Int.tdiv_eq_ediv_of_nonneg h.le, Int.le_ediv_iff_mul_le (by decide), one_mul]
  have hmin : 0 < min (d.tdiv second) (2 ^ 32 - 1) ↔ 1 ≤ d.tdiv second := by omega
  rw [toNat_ttlToSeconds d h, ← hdiv, ← hmin]
  exact mul_pos_iff_of_pos_right (by decide)

/-- Without a lower bound, the grant is what is asked for or the default, cut at the upper bound. -/
theorem clampTTL_le_iff {o : Options} (hmin : o.minTTL ≤ 0) (d bound : Duration) :
    o.clampTTL d ≤ bound ↔
      (if d ≤ 0 then o.defaultTTL else d) ≤ bound ∨ 0 < o.maxTTL ∧ o.maxTTL ≤ bound := by
  unfold Options.clampTTL
  dsimp only
  generalize (if d ≤ 0 then o.defaultTTL else d) = asked
  rw [if_neg (not_and_of_not_left _ (not_lt.mpr hmin))]
  split <;> rename_i hcut
  · constructor
    · exact fun h => Or.inr ⟨hcut.1, h⟩
    · rintro (h | ⟨-, h⟩)
      · exact hcut.2.le.trans h
      · exact h
  · refine ⟨Or.inl, ?_⟩
    rintro (h | ⟨hmax, h⟩)
    · exact h
    · exact (not_lt.mp (fun hlt => hcut ⟨hmax, hlt⟩)).trans h

/-- What a seed grants to a service after a trip over the wire, through an agent's registration or
in a peer's snapshot, is no longer than what was asked for exactly if that was a second at least, or
no less than the seed's default or its upper bound. -/
theorem forwarded_lease_iff (o : Options) (hmin : o.minTTL ≤ 0) (s : ServiceInstance)
    (hs : 0 < s.ttl) (now : Time) (generation : Nat) :
    let seed := (newMemory o).opts
    ((stamp seed now generation (serviceFromProto (some (serviceToProto s)))).ttl ≤ s.ttl ∧
        ∀ e : ServiceEntry, e.service = s → (clamped seed (overWire e).service).ttl ≤ s.ttl) ↔
      second ≤ s.ttl ∨ seed.defaultTTL ≤ s.ttl ∨ 0 < o.maxTTL ∧ o.maxTTL ≤ s.ttl := by
  intro seed
  have hseed : seed.minTTL ≤ 0 ∧ seed.maxTTL = o.maxTTL := by
    simp only [seed, newMemory]
    split
    · exact ⟨hmin, rfl⟩
    · exact ⟨hmin, rfl⟩
  have hboth :
      ((stamp seed now generation (serviceFromProto (some (serviceToProto s)))).ttl ≤ s.ttl ∧
      ∀ e : ServiceEntry, e.service = s → (clamped seed (overWire e).service).ttl ≤ s.ttl) ↔
        seed.clampTTL ((ttlToSeconds s.ttl).toNat * second) ≤ s.ttl := by
    refine ⟨And.left, fun h => ⟨h, ?_⟩⟩
    rintro e rfl
    exact h
  rw [hboth, clampTTL_le_iff hseed.1, hseed.2]
  split <;> rename_i hzero
  · have hshort : ¬ second ≤ s.ttl := fun h =>
      absurd ((wireTTL_pos_iff hs).mpr h) (not_lt.mpr hzero)
    simp [hshort]
  · have hlong : second ≤ s.ttl := (wireTTL_pos_iff hs).mp (not_le.mp hzero)
    simp [hlong, wireTTL_le hs]

theorem forwarded_lease_iff_second :
    let s : ServiceInstance := { id := "web", name := "web", ttl := 1500000000 }
    0 < s.ttl ∧ (stamp (newMemory {}).opts 0 1 (serviceFromProto (some (serviceToProto s)))).ttl ≤
      s.ttl := by
  intro s
  exact ⟨by decide,
    ((forwarded_lease_iff {} (by decide) s (by decide) 0 1).mpr (Or.inl (by decide))).1⟩

/-- Half a second is granted half a minute. -/
theorem short_lease_lengthened :
    ¬ ∀ (o : Options) (s : ServiceInstance) (now : Time) (generation : Nat), o.minTTL ≤ 0 →
      0 < s.ttl →
      (stamp (newMemory o).opts now generation (serviceFromProto (some (serviceToProto s)))).ttl ≤
        s.ttl ∧
        ∀ e : ServiceEntry, e.service = s →
          (clamped (newMemory o).opts (overWire e).service).ttl ≤ s.ttl := by
  intro h
  have hle := (h {} { id := "web", name := "web", ttl := 500000000 } 0 1 (by decide) (by decide)).1
  exact absurd hle (by decide)

end Granted

end YellowPages.Wire
