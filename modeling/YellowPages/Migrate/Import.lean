import YellowPages.Consul.Views
import YellowPages.Consul.Ownership
import YellowPages.Store.Refines
import YellowPages.Store.Settle
import YellowPages.Ratelimit
import YellowPages.Lib.Strings

/-!
# The import of a catalog

`internal/migrate/import.go`: every instance that a Consul-compatible source lists is registered at a
target, one request after the other. The first error ends the import, which is then run again.
-/

namespace YellowPages.Migrate

open Lib Store Consul

/-! ## What is read and written -/

structure ConsulNode where
  node : String := ""
  address : String := ""
  datacenter : String := ""
  metadata : Map String := ∅
  deriving DecidableEq

structure ConsulService where
  id : String := ""
  service : String := ""
  address : String := ""
  port : Int := 0
  tags : List String := []
  metadata : Map String := ∅
  deriving DecidableEq

structure HealthEntry where
  node : ConsulNode
  service : ConsulService
  deriving DecidableEq

structure ServiceBody where
  id : String
  name : String
  address : String
  port : Int
  tags : List String
  metadata : Map String

structure RegisterBody where
  node : String
  address : String
  datacenter : String
  nodeMeta : Map String
  service : ServiceBody

def bodyOf (e : HealthEntry) : RegisterBody :=
  { node := e.node.node, address := e.node.address, datacenter := e.node.datacenter,
    nodeMeta := e.node.metadata,
    service :=
      { id := e.service.id, name := e.service.service, address := e.service.address,
        port := e.service.port,
        tags := e.service.tags, metadata := e.service.metadata } }

/-- The body as `catalog/register` decodes it. The name is sent as `Service`. -/
def RegisterBody.decoded (b : RegisterBody) : CatalogRegisterInput :=
  { node := b.node, address := b.address, datacenter := b.datacenter, nodeMeta := b.nodeMeta
    service := some
      { id := b.service.id, service := b.service.name, address := b.service.address,
        port := b.service.port,
        tags := b.service.tags, metadata := b.service.metadata } }

/-- A health entry as `getJSON` decodes it. The checks and the weights are not read. -/
def readBack (v : HealthServiceEntry) : HealthEntry :=
  { node :=
      { node := v.node.node, address := v.node.address, datacenter := v.node.datacenter,
        metadata := v.node.metadata }
    service :=
      { id := v.service.id, service := v.service.service, address := v.service.address,
        port := v.service.port,
        tags := v.service.tags, metadata := v.service.metadata } }

/-! ## Requests -/

/-- What a GET request comes back with. -/
inductive Answer (α : Type) where
  /-- The request fails, or the body does not decode. -/
  | failed (err : String)
  | status (code : Nat)
  | decoded (v : α)

def getJSON {α : Type} (url : String) : Answer α → Except String α
  | .failed err => .error err
  | .status code => .error ("GET " ++ url ++ ": status " ++ formatUint code)
  | .decoded v => .ok v

/-- What the network does with a PUT request. -/
inductive Transfer where
  | unsent (err : String)
  /-- The target handles the request, and the answer is lost. -/
  | unanswered (err : String)
  | answered

/-- The characters that fit into `n` bytes. -/
def limitReader : Nat → List Char → List Char
  | _, [] => []
  | n, c :: rest => if c.utf8Size ≤ n then c :: limitReader (n - c.utf8Size) rest else []

variable {σ : Type}

def putJSON (url : String) (serve : σ → σ × Response) (s : σ) : Transfer → σ × Option String
  | .unsent err => (s, some err)
  | .unanswered err => ((serve s).1, some err)
  | .answered =>
    let (s, resp) := serve s
    if resp.code ≠ 200 then
      let msg := String.ofList (limitReader 512 resp.body.toList)
      (s, some ("PUT " ++ url ++ ": status " ++ formatUint resp.code ++ ": " ++ trimSpace msg))
    else (s, none)

def trimRight (s : String) (c : Char) : String := String.ofList (s.toList.rdropWhile (· = c))

/-! ## The import -/

/-- What one run of `Import` gets from outside, apart from the target. -/
structure Attempt where
  source : String := ""
  target : String := ""
  /-- `%q`, which can be any function here. -/
  quote : String → String := id
  services : Answer (Map (List String))
  /-- Every name is read once. -/
  health : String → Answer (List HealthEntry)
  order : RangeOrder String := .asStored
  /-- Of the PUT requests, which are numbered. -/
  transfer : Nat → Transfer := fun _ => .answered

namespace Attempt

variable (a : Attempt) (serve : Nat → RegisterBody → σ → σ × Response)

/-- The inner loop, which has written `written` instances so far. -/
def registerEntries : List HealthEntry → σ × Nat → (σ × Nat) × Option String
  | [], p => (p, none)
  | e :: rest, (s, written) =>
    match putJSON (trimRight a.target '/' ++ "/v1/catalog/register") (serve written (bodyOf e)) s
        (a.transfer written) with
    | (s, some err) =>
      ((s, written), some ("migrate: register " ++ e.node.node ++ "/" ++ e.service.id ++ ": " ++ err))
    | (s, none) => registerEntries rest (s, written + 1)

def importNames : List String → σ × Nat → (σ × Nat) × Option String
  | [], p => (p, none)
  | name :: rest, p =>
    match getJSON (trimRight a.source '/' ++ "/v1/health/service/" ++ name) (a.health name) with
    | .error err => (p, some ("migrate: read " ++ a.quote name ++ ": " ++ err))
    | .ok entries =>
      match a.registerEntries serve entries p with
      | (p, some err) => (p, some err)
      | (p, none) => importNames rest p

/-- `Import`: the target, the number of instances written, and the error. -/
def run (s : σ) : (σ × Nat) × Option String :=
  match getJSON (trimRight a.source '/' ++ "/v1/catalog/services") a.services with
  | .error err => ((s, 0), some ("migrate: read services: " ++ err))
  | .ok services => a.importNames serve (a.order.visit services.keys) (s, 0)

end Attempt

/-! ## The loops -/

/-- What the requests for the entries of `C` do at the target: each succeeds and keeps `I`, and
leaves its own entry done and the others as done as they were. -/
structure Accepts (serve : Nat → RegisterBody → σ → σ × Response) (C : List HealthEntry)
    (I : σ → Prop) (Done : HealthEntry → σ → Prop) : Prop where
  ok : ∀ k s, I s → ∀ e ∈ C, (serve k (bodyOf e) s).2.code = 200
  keeps : ∀ k s, I s → ∀ e ∈ C, I (serve k (bodyOf e) s).1
  done : ∀ k s, I s → ∀ e ∈ C, Done e (serve k (bodyOf e) s).1
  stays : ∀ k s, I s → ∀ e ∈ C, ∀ e' ∈ C, Done e' s → Done e' (serve k (bodyOf e) s).1

namespace Attempt

variable {a : Attempt} {serve : Nat → RegisterBody → σ → σ × Response} {C : List HealthEntry}
  {I : σ → Prop}
  {Done : HealthEntry → σ → Prop}

section Interrupted

variable (hkeeps : ∀ k s, I s → ∀ e ∈ C, I (serve k (bodyOf e) s).1)
include hkeeps

theorem putJSON_keeps (url : String) {k : Nat} {s : σ} (hI : I s) {e : HealthEntry} (he : e ∈ C)
    (t : Transfer) :
    I (putJSON url (serve k (bodyOf e)) s t).1 := by
  cases t with
  | unsent err => exact hI
  | unanswered err => exact hkeeps k s hI e he
  | answered =>
    dsimp only [putJSON]
    split <;> exact hkeeps k s hI e he

theorem registerEntries_keeps (entries : List HealthEntry) (hsub : ∀ e ∈ entries, e ∈ C)
    (p : σ × Nat) (hI : I p.1) :
    I (a.registerEntries serve entries p).1.1 := by
  induction entries generalizing p with
  | nil => exact hI
  | cons e rest ih =>
    obtain ⟨s, written⟩ := p
    have hput :=
      putJSON_keeps hkeeps (trimRight a.target '/' ++ "/v1/catalog/register") (k := written) hI
      (hsub e List.mem_cons_self) (a.transfer written)
    rw [registerEntries]
    split
    · rename_i heq
      rw [heq] at hput
      exact hput
    · rename_i heq
      rw [heq] at hput
      exact ih (fun e he => hsub e (List.mem_cons_of_mem _ he)) _ hput

theorem importNames_keeps
    (hsub : ∀ name entries, a.health name = .decoded entries → ∀ e ∈ entries, e ∈ C)
    (names : List String) (p : σ × Nat) (hI : I p.1) : I (a.importNames serve names p).1.1 := by
  induction names generalizing p with
  | nil => exact hI
  | cons name rest ih =>
    rw [importNames]
    cases hhealth : a.health name with
    | failed err => exact hI
    | status code => exact hI
    | decoded entries =>
      have hentries := registerEntries_keeps (a := a) hkeeps entries (hsub name entries hhealth) p hI
      dsimp only [getJSON]
      split
      · rename_i heq
        rw [heq] at hentries
        exact hentries
      · rename_i heq
        rw [heq] at hentries
        exact ih _ hentries

/-- However a run ends, the target has only seen requests for entries of the catalog. -/
theorem run_keeps (hsub : ∀ name entries, a.health name = .decoded entries → ∀ e ∈ entries, e ∈ C)
    (s : σ) (hI : I s) : I (a.run serve s).1.1 := by
  unfold run
  cases a.services with
  | failed err => exact hI
  | status code => exact hI
  | decoded services => exact importNames_keeps hkeeps hsub _ (s, 0) hI

end Interrupted

section Complete

variable (haccepts : Accepts serve C I Done) (hanswered : ∀ k, a.transfer k = .answered)
include haccepts hanswered

theorem registerEntries_complete (entries : List HealthEntry) (hsub : ∀ e ∈ entries, e ∈ C)
    (p : σ × Nat) (hI : I p.1) :
    ∃ s, a.registerEntries serve entries p = ((s, p.2 + entries.length), none) ∧ I s ∧
      (∀ e ∈ entries, Done e s) ∧ ∀ e ∈ C, Done e p.1 → Done e s := by
  induction entries generalizing p with
  | nil => exact ⟨p.1, rfl, hI, by simp, fun _ _ h => h⟩
  | cons e rest ih =>
    obtain ⟨s, written⟩ := p
    have he : e ∈ C := hsub e List.mem_cons_self
    have hput : ∀ url, putJSON url (serve written (bodyOf e)) s .answered =
        ((serve written (bodyOf e) s).1, none) := by
      intro url
      simp [putJSON, haccepts.ok written s hI e he]
    obtain ⟨s', hrun, hI', hdone, hstays⟩ := ih (fun e he => hsub e (List.mem_cons_of_mem _ he))
      ((serve written (bodyOf e) s).1, written + 1) (haccepts.keeps written s hI e he)
    refine ⟨s', ?_, hI', ?_,
      fun e' he' hd => hstays e' he' (haccepts.stays written s hI e he e' he' hd)⟩
    · rw [registerEntries, hanswered, hput]
      simp only [hrun, List.length_cons]
      rw [Nat.add_assoc, Nat.add_comm 1]
    · rw [List.forall_mem_cons]
      exact ⟨hstays e he (haccepts.done written s hI e he), hdone⟩

theorem importNames_complete (content : String → List HealthEntry) (names : List String)
    (hhealth : ∀ name ∈ names, a.health name = .decoded (content name))
    (hsub : ∀ name ∈ names, ∀ e ∈ content name, e ∈ C) (p : σ × Nat) (hI : I p.1) :
    ∃ s, a.importNames serve names p = ((s, p.2 + (names.flatMap content).length), none) ∧ I s ∧
      (∀ e ∈ names.flatMap content, Done e s) ∧ ∀ e ∈ C, Done e p.1 → Done e s := by
  induction names generalizing p with
  | nil => exact ⟨p.1, rfl, hI, by simp, fun _ _ h => h⟩
  | cons name rest ih =>
    have hname : name ∈ name :: rest := List.mem_cons_self
    obtain ⟨s, hentries, hIs, hdone, hstays⟩ :=
      registerEntries_complete haccepts hanswered (content name) (hsub name hname) p hI
    obtain ⟨s', hrest, hI', hdone', hstays'⟩ :=
      ih (fun n hn => hhealth n (List.mem_cons_of_mem _ hn))
      (fun n hn => hsub n (List.mem_cons_of_mem _ hn)) (s, p.2 + (content name).length) hIs
    refine ⟨s', ?_, hI', ?_, fun e he hd => hstays' e he (hstays e he hd)⟩
    · rw [importNames, hhealth name hname]
      simp only [getJSON, hentries, hrest, List.flatMap_cons, List.length_append, Nat.add_assoc]
    · intro e he
      rw [List.flatMap_cons, List.mem_append] at he
      rcases he with hfirst | hlater
      · exact hstays' e (hsub name hname e hfirst) (hdone e hfirst)
      · exact hdone' e hlater

end Complete

end Attempt

/-! ## A seed as the target -/

/-- The clock readings of an import's requests: of the limiter, and of the registry. -/
structure Clocks where
  arrival : Nat → Time
  registry : Nat → Nat → Time

/-- `PUT /v1/catalog/register` on a seed, behind the rate limit. The import sends no token. -/
def serveSeed (h : Handler) (remote : String) (clocks : Clocks) (k : Nat) (body : RegisterBody)
    (s : Ratelimit.Limiter × Memory) : (Ratelimit.Limiter × Memory) × Response :=
  let (allowed, limiter) := s.1.allow (clocks.arrival k) remote
  if !allowed then ((limiter, s.2), httpError "rate limit exceeded" 429)
  else
    let (m, resp) :=
      h.catalogRegister (StoreRegistry.registerExternal s.2 (clocks.registry k)) "" s.2
        (some body.decoded)
    ((limiter, m), resp)

/-- What is listed under each name at the source. -/
abbrev Catalog := Map (List HealthEntry)

namespace Catalog

def entries (cat : Catalog) : List HealthEntry := cat.toList.flatMap (·.2)

/-- A catalog as Consul has it: a node has one address, and the id of an instance is its own. -/
structure Sound (cat : Catalog) : Prop where
  named : ∀ p ∈ cat.toList, p.1 ≠ "" ∧ ∀ e ∈ p.2, e.service.service = p.1
  identified : ∀ e ∈ cat.entries, e.node.node ≠ "" ∧ e.service.id ≠ ""
  port : ∀ e ∈ cat.entries, 0 ≤ e.service.port ∧ e.service.port ≤ 65535
  once : ∀ p ∈ cat.toList, p.2.Nodup
  instances : ∀ e ∈ cat.entries, ∀ e' ∈ cat.entries, e.node.node = e'.node.node →
    e.service.id = e'.service.id → e = e'
  nodes : ∀ e ∈ cat.entries, ∀ e' ∈ cat.entries, e.node.node = e'.node.node → e.node = e'.node

theorem mem_entries {cat : Catalog} {name : String} {es : List HealthEntry}
    (hes : cat[name]? = some es) {e : HealthEntry} (he : e ∈ es) : e ∈ cat.entries :=
  List.mem_flatMap.mpr ⟨(name, es), Std.ExtTreeMap.mem_toList_iff_getElem?_eq_some.mpr hes, he⟩

end Catalog

def nodeOf (h : Handler) (e : HealthEntry) : Node :=
  { id := e.node.node, name := e.node.node, address := e.node.address,
    datacenter := if e.node.datacenter = "" then h.info.datacenter else e.node.datacenter,
    metadata := e.node.metadata }

def serviceOf (e : HealthEntry) : ServiceInstance :=
  { id := e.service.id, name := e.service.service, address := e.service.address,
    port := clampPort e.service.port,
    tags := e.service.tags, metadata := e.service.metadata }

def registrationOf (h : Handler) (e : HealthEntry) : Registration :=
  { node := nodeOf h e, services := [serviceOf e], generation := 1 }

/-- The row of an entry that was imported at `now`. -/
def slotOf (o : Options) (e : HealthEntry) (now : Time) : Slot :=
  { defn := stamp o now 1 (serviceOf e) }

/-- The entry as the target shows it: with its own datacenter for none, and the node's address for
none. -/
def shown (h : Handler) (e : HealthEntry) : HealthEntry :=
  { node := { e.node with datacenter := (nodeOf h e).datacenter }
    service := { e.service with
      address := if e.service.address ≠ "" then e.service.address else e.node.address } }

/-- The table has rows of imported entries only. -/
structure Holds (h : Handler) (cat : Catalog) (T : Table) : Prop where
  slots : ∀ n s v, T.slot? n s = some v →
    ∃ e ∈ cat.entries, e.node.node = n ∧ e.service.id = s ∧ ∃ now, v = slotOf T.opts e now
  attrs : ∀ (n : String) node, T.attrs[n]? = some node → ∃ e ∈ cat.entries, e.node.node = n ∧
    node = nodeOf h e

section Seed

variable {h : Handler} {cat : Catalog} {T : Table} {e : HealthEntry}

theorem externalRegistration_body (hsound : cat.Sound) (he : e ∈ cat.entries) :
    h.externalRegistration (bodyOf e).decoded = registrationOf h e := by
  obtain ⟨-, hid⟩ := hsound.identified e he
  obtain ⟨⟨name, es⟩, hp, hmem⟩ := List.mem_flatMap.mp he
  obtain ⟨hname, hnamed⟩ := hsound.named _ hp
  have hservice : e.service.service ≠ "" := hnamed e hmem ▸ hname
  unfold Handler.externalRegistration RegisterBody.decoded bodyOf
  simp only [hservice, if_false, orName, hid]
  rfl

/-- An entry that is not in the table leaves room for itself. -/
theorem size_lt_entries (hholds : Holds h cat T) (he : e ∈ cat.entries)
    (hnew : T.slot? e.node.node e.service.id = none) :
    T.slots.size < cat.entries.length := by
  have hnodup : T.slots.keys.Nodup :=
    List.nodup_iff_pairwise_ne.mpr (by simpa using T.slots.distinct_keys)
  have hkey : ∀ ref : SvcRef, ref ∈ T.slots.keys ↔ T.slot? ref.node ref.service ≠ none := by
    intro ref
    rw [Std.ExtTreeMap.mem_keys, Std.ExtTreeMap.mem_iff_isSome_getElem?, Option.isSome_iff_ne_none]
    rfl
  have hsub :
      T.slots.keys.toFinset ⊂
        (cat.entries.map fun e => (⟨e.node.node, e.service.id⟩ : SvcRef)).toFinset := by
    refine Finset.ssubset_iff_of_subset ?_ |>.mpr ⟨⟨e.node.node, e.service.id⟩, ?_, ?_⟩
    · intro ref href
      rw [List.mem_toFinset, hkey] at href
      obtain ⟨v, hv⟩ := Option.ne_none_iff_exists'.mp href
      obtain ⟨e', he', hn, hs, -⟩ := hholds.slots _ _ v hv
      exact List.mem_toFinset.mpr (List.mem_map.mpr ⟨e', he', by rw [hn, hs]⟩)
    · exact List.mem_toFinset.mpr (List.mem_map_of_mem he)
    · rw [List.mem_toFinset, hkey]
      exact not_not_intro hnew
  calc T.slots.size = T.slots.keys.toFinset.card := by
        rw [List.toFinset_card_of_nodup hnodup, Std.ExtTreeMap.length_keys]
    _ < _ := Finset.card_lt_card hsub
    _ ≤ cat.entries.length := (List.toFinset_card_le _).trans (List.length_map _).le

theorem settled_slotOf (o : Options) (e : HealthEntry) (before now : Time) :
    settled (some (slotOf o e before).defn) (stamp o now 1 (serviceOf e)) now =
      (slotOf o e now).defn := by
  have hsame : changed (slotOf o e before).defn (stamp o now 1 (serviceOf e)) = false :=
    changed_self (slotOf o e before).defn
  simp only [settled, hsame, Bool.false_eq_true, if_false]
  rfl

/-- The registration of an entry writes its row, new or again. -/
theorem register_entry (hsound : cat.Sound) (hholds : Holds h cat T)
    (hroom : T.opts.maxServices ≤ 0 ∨ (cat.entries.length : Int) ≤ T.opts.maxServices)
    (he : e ∈ cat.entries) (now : Time) :
    T.register now (registrationOf h e) =
      ((T.describe (nodeOf h e)).put e.node.node e.service.id (slotOf T.opts e now), .done none) := by
  obtain ⟨hnode, hid⟩ := hsound.identified e he
  obtain ⟨⟨name, es⟩, hp, hmem⟩ := List.mem_flatMap.mp he
  obtain ⟨hname, hnamed⟩ := hsound.named _ hp
  have hservice : e.service.service ≠ "" := hnamed e hmem ▸ hname
  have hstamp : (stamp T.opts now 1 (serviceOf e)).id = e.service.id := by simp [stamp, serviceOf, hid]
  have hoffer : (T.describe (nodeOf h e)).offer now (registrationOf h e) (serviceOf e) =
      some ((T.describe (nodeOf h e)).put e.node.node e.service.id (slotOf T.opts e now)) := by
    have hslot : (T.describe (nodeOf h e)).slot? e.node.node e.service.id =
        T.slot? e.node.node e.service.id := rfl
    unfold Table.offer
    simp only [registrationOf, nodeOf, Table.describe] at hslot ⊢
    simp only [hstamp, hslot]
    cases hold : T.slot? e.node.node e.service.id with
    | none =>
      have hlt := size_lt_entries hholds he hold
      have hfree : T.opts.atCapacity T.slots.size = false := by
        simp only [Options.atCapacity, decide_eq_false_iff_not]
        omega
      simp only [hfree, Bool.false_eq_true, if_false]
      rfl
    | some old =>
      obtain ⟨e', he', hn, hs, before, rfl⟩ := hholds.slots _ _ old hold
      obtain rfl := hsound.instances e' he' e he hn hs
      simp only [settled_slotOf]
      rfl
  have hvalid :
      ¬((registrationOf h e).node.id = "" ∨
        (registrationOf h e).services.any (·.name = "") = true) := by
    simp [registrationOf, nodeOf, serviceOf, hnode, hservice]
  have hservices : (registrationOf h e).services = [serviceOf e] := rfl
  have hdescribed : (registrationOf h e).node = nodeOf h e := rfl
  rw [Table.register, if_neg hvalid, hservices, hdescribed]
  simp only [Table.offerAll, hoffer]

end Seed

/-- What holds of the target during the imports of `cat`. -/
structure Importing (h : Handler) (cat : Catalog) (o : Options) (s : Ratelimit.Limiter × Memory) :
    Prop where
  unlimited : s.1.limit ≤ 0
  within : s.2.Within
  filed : Filed s.2
  table : ∃ T, Refines s.2 T ∧ Holds h cat T ∧ T.opts = o

/-- The entry is in the registry, with a lease from a time that is `Recent`. -/
def Imported (h : Handler) (o : Options) (Recent : Time → Prop) (e : HealthEntry)
    (s : Ratelimit.Limiter × Memory) :
    Prop :=
  s.2.node? e.node.node = some (nodeOf h e) ∧
    ∃ svc now, s.2.service? e.node.node e.service.id = some svc ∧ svc.slot = slotOf o e now ∧
      Recent now

section Serve

variable {h : Handler} {cat : Catalog} {o : Options} {e : HealthEntry} {s : Ratelimit.Limiter × Memory}
  (hopen : h.authorizeWrite "" = none) (hsound : cat.Sound)
  (hroom : o.maxServices ≤ 0 ∨ (cat.entries.length : Int) ≤ o.maxServices) (remote : String)
    (clocks : Clocks)

theorem attrs_describe (T : Table) (node : Node) (n : String) :
    (T.describe node).attrs[n]? = if node.id = n then some node else T.attrs[n]? := by
  rw [Table.describe, Std.ExtTreeMap.getElem?_insert]
  simp only [Std.compare_eq_iff_eq]

theorem Holds.put {T : Table} (hholds : Holds h cat T) (he : e ∈ cat.entries) (now : Time) :
    Holds h cat ((T.describe (nodeOf h e)).put e.node.node e.service.id (slotOf T.opts e now)) where
  slots := by
    intro n s v hv
    rw [Table.slot?_put] at hv
    split at hv
    · rename_i hkey
      obtain rfl := Option.some.inj hv
      exact ⟨e, he, hkey.1, hkey.2, now, rfl⟩
    · exact hholds.slots n s v hv
  attrs := by
    intro n node hnode
    rw [Table.put, attrs_describe] at hnode
    split at hnode
    · rename_i hid
      obtain rfl := Option.some.inj hnode
      exact ⟨e, he, hid, rfl⟩
    · exact hholds.attrs n node hnode

theorem imported_iff {T : Table} (hrefines : Refines s.2 T) {Recent : Time → Prop} :
    Imported h o Recent e s ↔ T.attrs[e.node.node]? = some (nodeOf h e) ∧
      ∃ now, T.slot? e.node.node e.service.id = some (slotOf o e now) ∧ Recent now := by
  rw [Imported, hrefines.attrs, hrefines.slots]
  refine and_congr_right fun _ => ⟨?_, ?_⟩
  · rintro ⟨svc, now, hsvc, hslot, hrecent⟩
    exact ⟨now, by rw [hsvc, Option.map_some, hslot], hrecent⟩
  · rintro ⟨now, hslot, hrecent⟩
    obtain ⟨svc, hsvc, heq⟩ := Option.map_eq_some_iff.mp hslot
    exact ⟨svc, now, hsvc, heq, hrecent⟩

include hopen hsound hroom

/-- A request for an entry succeeds, and writes the row of the entry. -/
theorem serveSeed_spec (k : Nat) (hI : Importing h cat o s) (he : e ∈ cat.entries) :
    let out := serveSeed h remote clocks k (bodyOf e) s
    out.2 = statusOK ∧ out.1.1.limit ≤ 0 ∧ out.1.2.Within ∧ Filed out.1.2 ∧
      ∃ T, Refines s.2 T ∧ Holds h cat T ∧ T.opts = o ∧
        Refines out.1.2
          ((T.describe (nodeOf h e)).put e.node.node e.service.id
            (slotOf o e (clocks.registry k 0))) := by
  intro out
  obtain ⟨hunlimited, hwithin, hfiled, T, hrefines, hholds, rfl⟩ := hI
  have hallow : s.1.allow (clocks.arrival k) remote = (true, s.1) := by
    rw [Ratelimit.Limiter.allow, if_pos hunlimited]
  have hnode : (bodyOf e).decoded.node ≠ "" := (hsound.identified e he).1
  obtain ⟨hnext, hret⟩ := hrefines.register hwithin (clocks.registry k) (registrationOf h e)
  rw [register_entry hsound hholds hroom he] at hnext hret
  have hdone : (s.2.register (clocks.registry k) (registrationOf h e)).ret = none := by simpa using hret
  have hout : out = ((s.1, (s.2.register (clocks.registry k) (registrationOf h e)).mem), statusOK) := by
    simp only [out, serveSeed, hallow, Bool.not_true, Bool.false_eq_true, if_false,
      Handler.catalogRegister,
      Handler.authorized, hopen, hnode, externalRegistration_body hsound he, finish,
        StoreRegistry.registerExternal,
      StoreRegistry.result, hdone, Option.map_none]
  rw [hout]
  exact ⟨rfl, hunlimited, hwithin.exec (.register (clocks.registry k) (registrationOf h e)),
    hfiled.exec (.register (clocks.registry k) (registrationOf h e)), T, hrefines, hholds, rfl, hnext⟩

theorem accepts_seed (Recent : Time → Prop) (hrecent : ∀ k, Recent (clocks.registry k 0)) :
    Accepts (serveSeed h remote clocks) cat.entries (Importing h cat o) (Imported h o Recent) where
  ok := by
    intro k s hI e he
    rw [(serveSeed_spec hopen hsound hroom remote clocks k hI he).1]
    rfl
  keeps := by
    intro k s hI e he
    obtain ⟨-, hlimit, hwithin, hfiled, T, -, hholds, rfl, hnext⟩ :=
      serveSeed_spec hopen hsound hroom remote clocks k hI he
    exact ⟨hlimit, hwithin, hfiled, _, hnext, hholds.put he _, rfl⟩
  done := by
    intro k s hI e he
    obtain ⟨-, -, -, -, T, -, -, rfl, hnext⟩ :=
      serveSeed_spec hopen hsound hroom remote clocks k hI he
    refine (imported_iff hnext).mpr ⟨?_, clocks.registry k 0, ?_, hrecent k⟩
    · rw [Table.put, attrs_describe]
      exact if_pos rfl
    · rw [Table.slot?_put, if_pos ⟨rfl, rfl⟩]
  stays := by
    intro k s hI e he e' he' hdone
    obtain ⟨-, -, -, -, T, hrefines, -, rfl, hnext⟩ :=
      serveSeed_spec hopen hsound hroom remote clocks k hI he
    obtain ⟨hattrs, now, hslot, hnow⟩ := (imported_iff hrefines).mp hdone
    refine (imported_iff hnext).mpr ⟨?_, ?_⟩
    · rw [Table.put, attrs_describe]
      split
      · rename_i hid
        rw [nodeOf, nodeOf, hsound.nodes e he e' he' hid]
      · exact hattrs
    · rw [Table.slot?_put]
      split
      · rename_i hkey
        obtain rfl := hsound.instances e he e' he' hkey.1 hkey.2
        exact ⟨clocks.registry k 0, rfl, hrecent k⟩
      · exact ⟨now, hslot, hnow⟩

end Serve

/-! ## Reading the catalog back -/

section ReadBack

variable {h : Handler} {cat : Catalog} {o : Options} {s : Ratelimit.Limiter × Memory}

theorem toInt_clampPort {p : Int} (hp : 0 ≤ p ∧ p ≤ 65535) : ((clampPort p).toNat : Int) = p := by
  rw [clampPort, if_neg (by omega), if_neg (by omega),
    UInt16.toNat_ofNat_of_lt' (by simp [UInt16.size]; omega)]
  omega

/-- An entry of a lookup whose row was imported. -/
theorem readBack_toHealth {e : HealthEntry} (hnode : e.node.node ≠ "")
    (hport : 0 ≤ e.service.port ∧ e.service.port ≤ 65535) {v : ServiceEntry}
    (hv : v.node = nodeOf h e) {now : Time} (hservice : v.service = (slotOf o e now).defn)
    (hid : e.service.id ≠ "") :
    readBack (toHealth v) = shown h e := by
  have hdisplay : (nodeOf h e).displayName = e.node.node := by simp [Node.displayName, nodeOf, hnode]
  have hdefn : (slotOf o e now).defn.id = e.service.id := by simp [slotOf, stamp, serviceOf, hid]
  have hreach : v.reachableAddress = (shown h e).service.address := by
    rw [ServiceEntry.reachableAddress, hv, hservice]
    rfl
  simp only [readBack, toHealth, toNode, hreach, hv, hservice, hdisplay, hdefn]
  simp only [slotOf, stamp, serviceOf, toInt_clampPort hport]
  rfl

theorem shown_inj {e e' : HealthEntry} (heq : shown h e = shown h e') :
    e.node.node = e'.node.node ∧ e.service.id = e'.service.id :=
  ⟨congrArg (·.node.node) heq, congrArg (·.service.id) heq⟩

theorem Catalog.Sound.listed_iff (hsound : cat.Sound) {name : String} {e : HealthEntry} :
    e ∈ cat[name]?.getD [] ↔ e ∈ cat.entries ∧ e.service.service = name := by
  constructor
  · intro he
    cases hes : cat[name]? with
    | none => simp [hes] at he
    | some es =>
      rw [hes, Option.getD_some] at he
      exact ⟨Catalog.mem_entries hes he,
        (hsound.named (name, es) (Std.ExtTreeMap.mem_toList_iff_getElem?_eq_some.mpr hes)).2 e he⟩
  · rintro ⟨he, hname⟩
    obtain ⟨⟨name', es⟩, hp, hmem⟩ := List.mem_flatMap.mp he
    obtain rfl : name' = name := ((hsound.named _ hp).2 e hmem).symm.trans hname
    rw [Std.ExtTreeMap.mem_toList_iff_getElem?_eq_some.mp hp]
    exact hmem

theorem Catalog.Sound.nodup_shown (hsound : cat.Sound) (name : String) :
    ((cat[name]?.getD []).map (shown h)).Nodup := by
  have hlisted : ∀ e ∈ cat[name]?.getD [], e ∈ cat.entries :=
    fun e he => (hsound.listed_iff.mp he).1
  refine List.Nodup.map_on (fun e he e' he' heq => ?_) ?_
  · exact hsound.instances e (hlisted e he) e' (hlisted e' he') (shown_inj heq).1 (shown_inj heq).2
  · cases hes : cat[name]? with
    | none => exact List.nodup_nil
    | some es => exact hsound.once (name, es) (Std.ExtTreeMap.mem_toList_iff_getElem?_eq_some.mpr hes)

variable (hI : Importing h cat o s) {now : Time}
  (hdone : ∀ e ∈ cat.entries, Imported h o (fun t => timeSub now t ≤ o.clampTTL 0) e s)
include hI hdone

/-- The entry of the registry for an imported instance: its lease runs. -/
theorem imported_passing {e : HealthEntry} (he : e ∈ cat.entries) :
    ∃ svc t, s.2.node? e.node.node = some (nodeOf h e) ∧
      s.2.service? e.node.node e.service.id = some svc ∧
      svc.slot = slotOf o e t ∧ s.2.opts.lease svc now = (.passing, false) := by
  obtain ⟨-, -, -, T, hrefines, -, rfl⟩ := hI
  obtain ⟨hnode, svc, t, hsvc, hslot, hrecent⟩ := hdone e he
  refine ⟨svc, t, hnode, hsvc, hslot, ?_⟩
  have hdefn : svc.defn = (slotOf T.opts e t).defn := congrArg Slot.defn hslot
  have hfailed : svc.failed = false := congrArg Slot.failed hslot
  have hage : timeSub now svc.defn.lastSeen ≤ svc.defn.ttl := by
    rw [hdefn]
    exact hrecent
  simp only [Options.lease, hfailed, Bool.false_eq_true, if_false, hage, if_true]

variable (hsound : cat.Sound)
include hsound

/-- The rows that a lookup shows are those of the entries, all of them live. -/
theorem mem_lookup_imported (q : Query) (v : ServiceEntry) :
    v ∈ (s.2.lookup now q).entries ↔ Selects q v ∧ ∃ e ∈ cat.entries, ∃ svc t,
      s.2.service? e.node.node e.service.id = some svc ∧ svc.slot = slotOf o e t ∧
        v = entry (nodeOf h e) svc .passing := by
  rw [mem_lookup_stored now q hI.filed]
  refine and_congr_right fun _ => ⟨?_, ?_⟩
  · rintro ⟨svc, hnode, hsvc, -, hentry⟩
    obtain ⟨T, hrefines, hholds, -⟩ := hI.table
    obtain ⟨e, he, hn, hs, -⟩ := hholds.slots _ _ _ (hrefines.slot?_of_service? hsvc)
    obtain ⟨svc', t, hnode', hsvc', hslot, hlease⟩ := imported_passing hI hdone he
    rw [hn] at hnode' hsvc'
    rw [hs] at hsvc'
    obtain rfl := Option.some.inj (hsvc.symm.trans hsvc')
    refine ⟨e, he, svc, t, by rw [hn, hs, hsvc], hslot, ?_⟩
    rw [hlease] at hentry
    rw [hentry, Option.some.inj (hnode.symm.trans hnode')]
  · rintro ⟨e, he, svc, t, hsvc, hslot, rfl⟩
    obtain ⟨svc', t', hnode', hsvc', -, hlease⟩ := imported_passing hI hdone he
    obtain rfl := Option.some.inj (hsvc.symm.trans hsvc')
    have hid : (entry (nodeOf h e) svc .passing).service.id = e.service.id := by
      have hdefn : svc.defn = (slotOf o e t).defn := congrArg Slot.defn hslot
      simp [entry, hdefn, slotOf, stamp, serviceOf, (hsound.identified e he).2]
    refine ⟨svc, hnode', by rw [hid]; exact hsvc, by rw [hlease], ?_⟩
    rw [hlease]
    rfl

/-- What `GET /v1/health/service/name` gives is the catalog under the name. -/
theorem readBack_perm (name : String) (hname : name ≠ "") :
    ((healthService false (ReadRequest.resolve { query := { name := name } } s.2 now)).map
      readBack).Perm
      ((cat[name]?.getD []).map (shown h)) := by
  have hread : ∀ v ∈ (s.2.lookup now { name := name }).entries, ∃ e ∈ cat.entries,
      e.service.service = v.service.name ∧ v.key = toLex (e.node.node, e.service.id) ∧
        readBack (toHealth v) = shown h e := by
    intro v hv
    obtain ⟨-, e, he, svc, t, hsvc, hslot, rfl⟩ := (mem_lookup_imported hI hdone hsound _ v).mp hv
    have hdefn : svc.defn = (slotOf o e t).defn := congrArg Slot.defn hslot
    obtain ⟨hnode, hid⟩ := hsound.identified e he
    refine ⟨e, he, ?_, ?_, readBack_toHealth hnode (hsound.port e he) rfl hdefn hid⟩
    · simp [entry, hdefn, slotOf, stamp, serviceOf]
    · simp [ServiceEntry.key, entry, nodeOf, hdefn, slotOf, stamp, serviceOf, hid]
  rw [healthService, List.map_map]
  refine (List.perm_ext_iff_of_nodup ?_ (hsound.nodup_shown name)).mpr fun x => ?_
  · have hsorted := lookup_strictlySorted now { name := name } hI.filed
    refine List.Nodup.map_on (fun v hv v' hv' heq => ?_) (hsorted.imp fun hlt => ?_)
    · obtain ⟨e, -, -, hkey, hshown⟩ := hread v hv
      obtain ⟨e', -, -, hkey', hshown'⟩ := hread v' hv'
      obtain ⟨hn, hs⟩ := shown_inj (hshown.symm.trans (heq.trans hshown'))
      exact hsorted.key_inj _ hv hv' (by rw [hkey, hkey', hn, hs])
    · rintro rfl
      exact lt_irrefl _ hlt
  · simp only [List.mem_map, hsound.listed_iff]
    constructor
    · rintro ⟨v, hv, rfl⟩
      obtain ⟨e, he, hservice, -, hshown⟩ := hread v hv
      obtain ⟨⟨hnamed, -⟩, -⟩ := (mem_lookup_imported hI hdone hsound _ v).mp hv
      exact ⟨e, ⟨he, hservice.trans (hnamed.resolve_left hname)⟩, hshown.symm⟩
    · rintro ⟨e, ⟨he, hservice⟩, rfl⟩
      obtain ⟨svc, t, hnode, hsvc, hslot, -⟩ := imported_passing hI hdone he
      have hdefn : svc.defn = (slotOf o e t).defn := congrArg Slot.defn hslot
      have hv : entry (nodeOf h e) svc .passing ∈ (s.2.lookup now { name := name }).entries := by
        refine (mem_lookup_imported hI hdone hsound _ _).mpr ⟨⟨Or.inr ?_, Or.inl rfl, by simp⟩, e,
          he, svc, t, hsvc, hslot, rfl⟩
        simp [entry, hdefn, slotOf, stamp, serviceOf, hservice]
      obtain ⟨hnode, hid⟩ := hsound.identified e he
      exact ⟨_, hv, readBack_toHealth hnode (hsound.port e he) rfl hdefn hid⟩

/-- Every imported instance passes, whatever it did at the source. -/
theorem healthService_passing (q : Query) :
    healthService true (ReadRequest.resolve { query := q } s.2 now) =
      healthService false (ReadRequest.resolve { query := q } s.2 now) := by
  have hvisible : ∀ v ∈ (s.2.lookup now q).entries, Health.visible v { onlyPassing := true } =
      true := by
    intro v hv
    obtain ⟨-, e, -, svc, t, -, hslot, rfl⟩ := (mem_lookup_imported hI hdone hsound q v).mp hv
    have hmaint : svc.maintenance = false := congrArg Slot.maintenance hslot
    simp [Health.visible, entry, hmaint]
  exact congrArg (List.map toHealth) (List.filter_eq_self.mpr hvisible)

end ReadBack

/-! ## Imports in a row -/

namespace Attempt

/-- What the run reads of a service is what the catalog has. It need not read all of it. -/
def Reads (a : Attempt) (cat : Catalog) : Prop :=
  ∀ name entries, a.health name = .decoded entries → cat[name]? = some entries

/-- The run reads the whole catalog, and all its requests are answered. -/
structure Complete (a : Attempt) (cat : Catalog) : Prop where
  services : ∃ services, a.services = .decoded services ∧ services.keys = cat.keys
  health : ∀ (name : String) entries, cat[name]? = some entries → a.health name = .decoded entries
  answered : ∀ k, a.transfer k = .answered

theorem flatMap_keys (cat : Catalog) :
    (cat.keys.flatMap fun name => cat[name]?.getD []) = cat.entries := by
  rw [← Std.ExtTreeMap.map_fst_toList_eq_keys, List.flatMap_map, Catalog.entries]
  refine List.flatMap_congr fun p hp => ?_
  rw [Std.ExtTreeMap.mem_toList_iff_getElem?_eq_some.mp hp]
  rfl

theorem run_complete {a : Attempt} {cat : Catalog} (hcomplete : a.Complete cat)
    {serve : Nat → RegisterBody → σ → σ × Response} {I : σ → Prop} {Done : HealthEntry → σ → Prop}
    (haccepts : Accepts serve cat.entries I Done) (s : σ) (hI : I s) :
    ∃ s', a.run serve s = ((s', cat.entries.length), none) ∧ I s' ∧ ∀ e ∈ cat.entries,
      Done e s' := by
  obtain ⟨services, hservices, hkeys⟩ := hcomplete.services
  have hperm : ((a.order.visit cat.keys).flatMap fun name => cat[name]?.getD []).Perm cat.entries := by
    rw [← flatMap_keys]
    exact (a.order.perm cat.keys).flatMap_right _
  have hget : ∀ name ∈ a.order.visit cat.keys, ∃ es, cat[name]? = some es := by
    intro name hname
    rw [RangeOrder.mem_visit, Std.ExtTreeMap.mem_keys, Std.ExtTreeMap.mem_iff_isSome_getElem?] at hname
    exact Option.isSome_iff_exists.mp hname
  obtain ⟨s', hrun, hI', hdone, -⟩ := importNames_complete haccepts hcomplete.answered
    (fun name => cat[name]?.getD []) (a.order.visit cat.keys)
    (fun name hname => by
      obtain ⟨es, hes⟩ := hget name hname
      rw [hes]
      exact hcomplete.health name es hes)
    (fun name hname e he => by
      obtain ⟨es, hes⟩ := hget name hname
      rw [hes] at he
      exact Catalog.mem_entries hes he) (s, 0) hI
  refine ⟨s', ?_, hI', fun e he => hdone e (hperm.mem_iff.mpr he)⟩
  unfold run
  rw [hservices]
  simp only [getJSON, hkeys, hrun, Nat.zero_add, hperm.length_eq]

end Attempt

/-- Imports one after the other into one seed. -/
def importAll (h : Handler) (remote : String) (attempts : List (Attempt × Clocks))
    (s : Ratelimit.Limiter × Memory) : Ratelimit.Limiter × Memory :=
  attempts.foldl (fun s a => (a.1.run (serveSeed h remote a.2) s).1.1) s

theorem Importing.start (h : Handler) (cat : Catalog) (opts : Options) {limiter : Ratelimit.Limiter}
    (hlimit : limiter.limit ≤ 0) : Importing h cat (newTable opts).opts (limiter, newMemory opts) :=
  ⟨hlimit, newMemory_within opts, Filed.run opts [], newTable opts, Refines.newTable opts,
    ⟨by simp [newTable, Table.slot?], by simp [newTable]⟩, rfl⟩

def imported (node address id : String) (port : Int) : HealthEntry :=
  { node := { node := node, address := address }, service := { id := id, service := id, port := port } }

def twoServices : Catalog :=
  ((∅ : Catalog).insert "db" [imported "n1" "10.0.0.1" "db" 5432]).insert "web"
    [imported "n1" "10.0.0.1" "web" 80, imported "n2" "10.0.0.2" "web" 81]

def readTwoServices (transfer : Nat → Transfer) : Attempt :=
  { services := .decoded (twoServices.map fun _ _ => [])
    health := fun name => (twoServices[name]?.map Answer.decoded).getD (.status 404)
    transfer := transfer }

theorem readTwoServices_reads (transfer : Nat → Transfer) :
    (readTwoServices transfer).Reads twoServices := by
  intro name es hes
  cases hget : twoServices[name]? with
  | none => simp [readTwoServices, hget] at hes
  | some es' => simpa [readTwoServices, hget] using hes

theorem readTwoServices_complete : (readTwoServices fun _ => .answered).Complete twoServices where
  services := ⟨_, rfl, by decide +kernel⟩
  health := by
    intro name es hes
    simp [readTwoServices, hes]
  answered := fun _ => rfl

def emptySeed : Handler :=
  { info := { id := "seed", datacenter := "dc1" }, parseDuration := fun _ => none }

/-- The answer to the second request is lost, after the target has handled it. -/
def interruptedImport : Attempt × Clocks :=
  (readTwoServices fun k => if k = 1 then .unanswered "EOF" else .answered,
    ⟨fun _ => 0, fun _ _ => 0⟩)

def secondImport : ((Ratelimit.Limiter × Memory) × Nat) × Option String :=
  (readTwoServices fun _ => .answered).run (serveSeed emptySeed "" ⟨fun _ => 0, fun _ _ => second⟩)
    (importAll emptySeed "" [interruptedImport] (Ratelimit.new 0, newMemory {}))

end YellowPages.Migrate
