import YellowPages.Store.Register

/-!
# A table of leases

What a registry is for, without the name index, the nesting of services in nodes, the registry
indexes and the order of the map loops: one flat table from (node, service) to a definition and
two flags, beside the attributes of the nodes.
-/

namespace YellowPages.Store

open Lib

/-! ## The table -/

/-- What the table keeps of a service. -/
structure Slot where
  defn : ServiceInstance
  maintenance : Bool := false
  failed : Bool := false
  deriving DecidableEq

namespace Slot

def renewed (v : Slot) (now : Time) : Slot :=
  { v with defn := { v.defn with lastSeen := now }, failed := false }

/-- A record with no history, for `lease` and `entry`, which do not read it. -/
def toRec (v : Slot) : ServiceRec :=
  { defn := v.defn, maintenance := v.maintenance, failed := v.failed, lastState := .passing,
    createIndex := 0, modifyIndex := 0 }

end Slot

def ServiceRec.slot (svc : ServiceRec) : Slot := ⟨svc.defn, svc.maintenance, svc.failed⟩

structure Table where
  opts : Options
  slots : Std.ExtTreeMap SvcRef Slot := ∅
  attrs : Map Node := ∅

/-- What a call returns. -/
inductive Reply where
  | done (err : Option StoreError)
  | count (k : Nat)
  deriving DecidableEq

namespace Table

def slot? (T : Table) (n s : String) : Option Slot := T.slots[(⟨n, s⟩ : SvcRef)]?

def put (T : Table) (n s : String) (v : Slot) : Table := { T with slots := T.slots.insert ⟨n, s⟩ v }

def describe (T : Table) (node : Node) : Table := { T with attrs := T.attrs.insert node.id node }

def knows (T : Table) (n : String) : Bool := T.attrs.contains n

def hosts (T : Table) (n : String) : Bool := T.slots.keys.any (·.node = n)

/-- Only the slots that `p` keeps. -/
def keep (T : Table) (p : SvcRef → Slot → Bool) : Table := { T with slots := T.slots.filter p }

/-- A node among those that `p` marks stays known as long as it hosts a service. -/
def prune (T : Table) (p : String → Bool) : Table :=
  { T with attrs := T.attrs.filter fun n _ => !p n || T.hosts n }

def offer (T : Table) (now : Time) (reg : Registration) (input : ServiceInstance) : Option Table :=
  let dfn := stamp T.opts now reg.generation input
  match T.slot? reg.node.id dfn.id with
  | none =>
    if T.opts.atCapacity T.slots.size then none else some (T.put reg.node.id dfn.id { defn := dfn })
  | some old => some (T.put reg.node.id dfn.id { old with defn := settled (some old.defn) dfn now })

def offerAll (now : Time) (reg : Registration) : List ServiceInstance → Table →
    Table × Option StoreError
  | [], T => (T, none)
  | input :: rest, T =>
    match T.offer now reg input with
    | none => (T, some .capacity)
    | some T => offerAll now reg rest T

def register (T : Table) (now : Time) (reg : Registration) : Table × Reply :=
  if reg.node.id = "" ∨ reg.services.any (·.name = "") then (T, .done (some .invalid))
  else
    let (T, err) := offerAll now reg reg.services (T.describe reg.node)
    (T, .done err)

def learn (p : Table × Nat) (e : ServiceEntry) : Table × Nat :=
  if e.node.id = "" ∨ e.service.id = "" then p
  else
    let T := p.1.describe e.node
    let dfn := clamped T.opts e.service
    match T.slot? e.node.id e.service.id with
    | none =>
      if T.opts.atCapacity T.slots.size then (T, p.2)
      else (T.put e.node.id e.service.id { defn := dfn }, p.2 + 1)
    | some old =>
      if old.defn.rank < e.service.rank then
        (T.put e.node.id e.service.id { old with defn := dfn }, p.2 + 1)
      else (T, p.2)

def merge (T : Table) (entries : List ServiceEntry) : Table × Reply :=
  let p := entries.foldl learn (T, 0)
  (p.1, .count p.2)

def renewEach (now : Time) (n : String) : List String → Table → Table × Option StoreError
  | [], T => (T, none)
  | id :: rest, T =>
    match T.slot? n id with
    | none => (T, some .notFound)
    | some v => renewEach now n rest (T.put n id (v.renewed now))

def renew (T : Table) (now : Time) (n : String) (ids : List String) : Table × Reply :=
  if !T.knows n then (T, .done (some .notFound))
  else if ids.isEmpty then
    ({ T with slots := T.slots.map fun ref v => if ref.node = n then v.renewed now else v }, .done none)
  else
    let (T, err) := renewEach now n ids T
    (T, .done err)

def update (T : Table) (n s : String) (f : Slot → Slot) : Table × Reply :=
  match T.slot? n s with
  | none => (T, .done (some .notFound))
  | some v => (T.put n s (f v), .done none)

def deregister (T : Table) (n : String) : Table × Reply :=
  if !T.knows n then (T, .done (some .notFound))
  else ({ T.keep (fun ref _ => ref.node ≠ n) with attrs := T.attrs.erase n }, .done none)

def deregisterService (T : Table) (n s : String) : Table × Reply :=
  match T.slot? n s with
  | none => (T, .done (some .notFound))
  | some _ => ((T.keep fun ref _ => ref ≠ ⟨n, s⟩).prune (· = n), .done none)

def gc (T : Table) (now : Time) : Table × Reply :=
  let live := T.keep fun _ v => !(T.opts.lease v.toRec now).2
  (live.prune fun _ => true, .count (T.slots.size - live.slots.size))

/-- A call on the table. It reads the clock once and knows no loop orders. -/
def exec (T : Table) : Call → Table × Reply
  | .register clk reg => T.register (clk 0) reg
  | .renew clk n ids => T.renew (clk 0) n ids
  | .fail _ n s => T.update n s fun v => { v with failed := true }
  | .setMaintenance _ n s enabled => T.update n s fun v => { v with maintenance := enabled }
  | .deregister _ n => T.deregister n
  | .deregisterService n s => T.deregisterService n s
  | .merge _ entries => T.merge entries
  | .gc clk _ => T.gc (clk 0)

def lookup (T : Table) (now : Time) (q : Query) : List ServiceEntry :=
  sortBy ServiceEntry.key (T.slots.toList.filterMap fun (ref, v) =>
    T.attrs[ref.node]?.bind fun node =>
      if q.name = "" ∨ v.defn.name = q.name then visit T.opts now q node v.toRec else none)

/-! ## Reading the table -/

theorem slot?_put (T : Table) (n s : String) (v : Slot) (n' s' : String) :
    (T.put n s v).slot? n' s' = if n = n' ∧ s = s' then some v else T.slot? n' s' := by
  simp only [Table.slot?, Table.put, Std.ExtTreeMap.getElem?_insert, Std.compare_eq_iff_eq,
    SvcRef.mk.injEq]

theorem slot?_keep (T : Table) (p : SvcRef → Slot → Bool) (n' s' : String) :
    (T.keep p).slot? n' s' = (T.slot? n' s').filter (p ⟨n', s'⟩) := by
  simp only [Table.slot?, Table.keep, Std.ExtTreeMap.getElem?_filter']

theorem hosts_iff (T : Table) (n : String) : T.hosts n = true ↔ ∃ s, T.slot? n s ≠ none := by
  simp only [Table.hosts, List.any_eq_true, decide_eq_true_eq, Std.ExtTreeMap.mem_keys,
    Std.ExtTreeMap.mem_iff_isSome_getElem?, Table.slot?, ne_eq, ← Option.isSome_iff_ne_none]
  constructor
  · rintro ⟨⟨n', s⟩, hs, rfl⟩
    exact ⟨s, hs⟩
  · rintro ⟨s, hs⟩
    exact ⟨⟨n, s⟩, hs, rfl⟩

theorem mem_lookup (T : Table) (now : Time) (q : Query) (e : ServiceEntry) :
    e ∈ T.lookup now q ↔ ∃ n s v node, T.slot? n s = some v ∧ T.attrs[n]? = some node ∧
      (q.name = "" ∨ v.defn.name = q.name) ∧ visit T.opts now q node v.toRec = some e := by
  simp only [Table.lookup, mem_sortBy, List.mem_filterMap, Prod.exists,
    Std.ExtTreeMap.mem_toList_iff_getElem?_eq_some,
    Option.bind_eq_some_iff, Option.ite_none_right_eq_some]
  constructor
  · rintro ⟨⟨n, s⟩, v, hslot, node, hnode, hname, hvisit⟩
    exact ⟨n, s, v, node, hslot, hnode, hname, hvisit⟩
  · rintro ⟨n, s, v, node, hslot, hnode, hname, hvisit⟩
    exact ⟨⟨n, s⟩, v, hslot, node, hnode, hname, hvisit⟩

end Table

def newTable (opts : Options) : Table := { opts := (newMemory opts).opts }

end YellowPages.Store
