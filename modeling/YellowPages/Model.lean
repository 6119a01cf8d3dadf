import Mathlib

/-!
# The domain model

The types of `internal/model`. Every other part of the program reads and writes these.
Go strings are `String`, a Go map is an extensional finite map, and a nil slice or map is
the empty one. No modelled function tells nil from empty.
-/

namespace YellowPages

abbrev Map (V : Type) := Std.ExtTreeMap String V

/-! ## Numbers and time -/

/-- `x++` on a `uint64`. -/
def u64Succ (x : Nat) : Nat := (x + 1) % 2 ^ 64

/-- An instant, in nanoseconds since the Unix epoch. -/
abbrev Time := Int

/-- A `time.Duration`, in nanoseconds. -/
abbrev Duration := Int

def second : Duration := 1000000000

/-- `time.Time{}`: the first instant of the year 1. -/
def zeroTime : Time := -62135596800 * second

/-- `t.Sub(u)`, which saturates at the ends of int64. -/
def timeSub (t u : Time) : Duration := max (-2 ^ 63) (min (2 ^ 63 - 1) (t - u))

/-- `a + b` on durations, which wraps like any int64. -/
def durAdd (a b : Duration) : Duration := Int.bmod (a + b) (2 ^ 64)

/-! ## Health -/

inductive HealthState where
  | unspecified | passing | warning | critical
  deriving DecidableEq, Repr

/-! ## Nodes and services -/

structure Node where
  id : String
  name : String := ""
  address : String := ""
  datacenter : String := ""
  metadata : Map String := ∅
  taggedAddresses : Map String := ∅
  deriving DecidableEq

/-- The name a node goes by: its id if it has none. -/
def Node.displayName (n : Node) : String := if n.name ≠ "" then n.name else n.id

structure Weights where
  passing : UInt32 := 0
  warning : UInt32 := 0
  deriving DecidableEq

namespace Weights

def defaultWeights : Weights := { passing := 1, warning := 1 }

def isZero (w : Weights) : Bool := w.passing = 0 ∧ w.warning = 0

def orDefault (w : Weights) : Weights := if w.isZero then defaultWeights else w

end Weights

/-- The identity inside a node is `id`. Address and port are data. -/
structure ServiceInstance where
  id : String
  name : String
  address : String := ""
  port : UInt16 := 0
  tags : List String := []
  metadata : Map String := ∅
  weights : Weights := {}
  ttl : Duration := 0
  lastSeen : Time := zeroTime
  generation : Nat := 0
  deriving DecidableEq

namespace ServiceInstance

/-- The one last-writer-wins order: the higher generation, then the later `lastSeen`. -/
def winsLWW (s other : ServiceInstance) : Bool :=
  if s.generation ≠ other.generation then s.generation > other.generation
  else s.lastSeen > other.lastSeen

def hasTag (s : ServiceInstance) (tag : String) : Bool := s.tags.any (· == tag)

def matchesTags (s : ServiceInstance) (wanted : List String) : Bool := wanted.all s.hasTag

end ServiceInstance

structure Registration where
  node : Node
  services : List ServiceInstance := []
  generation : Nat := 0
  deriving DecidableEq

structure ServiceEntry where
  node : Node
  service : ServiceInstance
  health : HealthState
  maintenance : Bool := false
  createIndex : Nat := 0
  modifyIndex : Nat := 0
  deriving DecidableEq

def ServiceEntry.key (e : ServiceEntry) : String ×ₗ String := toLex (e.node.id, e.service.id)

/-- The address of the service, or the one of its node. -/
def ServiceEntry.reachableAddress (e : ServiceEntry) : String :=
  if e.service.address ≠ "" then e.service.address else e.node.address

/-- The entry without the indexes of the registry it comes from. -/
def ServiceEntry.unindexed (e : ServiceEntry) : ServiceEntry :=
  { e with createIndex := 0, modifyIndex := 0 }

structure LookupResult where
  entries : List ServiceEntry := []
  index : Nat := 0
  deriving DecidableEq

/-! ## Queries and changes -/

structure Query where
  name : String := ""
  datacenter : String := ""
  tags : List String := []
  onlyHealthy : Bool := false
  deriving DecidableEq

inductive ChangeType where
  | unspecified | put | delete
  deriving DecidableEq, Repr

structure ChangeEvent where
  type : ChangeType
  entry : ServiceEntry
  index : Nat
  deriving DecidableEq

structure Principal where
  id : String := ""
  anonymous : Bool := false
  attributes : Map String := ∅
  deriving DecidableEq

theorem u64Succ_of_lt (x : Nat) (h : x + 1 < 2 ^ 64) : u64Succ x = x + 1 := Nat.mod_eq_of_lt h

/-! ## The last-writer-wins order -/

namespace ServiceInstance

def rank (s : ServiceInstance) : Nat ×ₗ Int := toLex (s.generation, s.lastSeen)

theorem winsLWW_iff (s other : ServiceInstance) : s.winsLWW other = true ↔ other.rank < s.rank := by
  simp only [winsLWW, rank, Prod.Lex.toLex_lt_toLex]
  split <;> rename_i h
  · simp only [gt_iff_lt, decide_eq_true_eq]
    constructor
    · exact Or.inl
    · rintro (h1 | ⟨h1, -⟩)
      · exact h1
      · exact absurd h1.symm h
  · rw [ne_eq, not_not] at h
    simp [h]

theorem hasTag_iff (s : ServiceInstance) (tag : String) : s.hasTag tag = true ↔ tag ∈ s.tags := by
  simp [hasTag]

theorem matchesTags_iff (s : ServiceInstance) (wanted : List String) :
    s.matchesTags wanted = true ↔ ∀ w ∈ wanted, w ∈ s.tags := by
  simp [matchesTags, hasTag_iff]

end ServiceInstance

end YellowPages
