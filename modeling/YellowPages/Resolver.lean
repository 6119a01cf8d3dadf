import YellowPages.Lib.Ordered
import YellowPages.Lib.Strings

/-!
# The seeds of an agent

`internal/resolver`: several providers name seeds, and `Merged` puts their lists together. A provider
that fails is skipped.
-/

namespace YellowPages.Resolver

open Lib

/-- A provider and what its `Seeds` returns this time. -/
structure SeedProvider where
  name : String
  seeds : Except String (List String)

def newStatic (seeds : List String) : SeedProvider := { name := "static", seeds := .ok seeds }

/-- `out` and `errs`. The set `seen` has what `out` has. -/
structure Merging where
  out : List String := []
  errs : List String := []

def addSeed (out : List String) (s : String) : List String :=
  let s := trimSpace s
  if s = "" then out else keepNew out s

def mergeProvider (g : Merging) (p : SeedProvider) : Merging :=
  match p.seeds with
  | .error err => { g with errs := g.errs ++ [p.name ++ ": " ++ err] }
  | .ok seeds => { g with out := seeds.foldl addSeed g.out }

/-- `Merged.Seeds`. -/
def seeds (providers : List SeedProvider) : Except String (List String) :=
  let g := providers.foldl mergeProvider {}
  if g.out.isEmpty then
    if g.errs.isEmpty then .error "resolver: no seeds resolved"
    else .error ("resolver: no seeds resolved: " ++ "\n".intercalate g.errs)
  else .ok g.out

/-! ## What is merged -/

/-- The addresses a provider names, without those that are blank. -/
def SeedProvider.offers (p : SeedProvider) : List String :=
  match p.seeds with
  | .error _ => []
  | .ok seeds => (seeds.map trimSpace).filter (· ≠ "")

def SeedProvider.works (p : SeedProvider) : Bool := p.seeds.isOk

def offered (providers : List SeedProvider) : List String := providers.flatMap SeedProvider.offers

theorem foldl_addSeed (seeds out : List String) :
    seeds.foldl addSeed out = ((seeds.map trimSpace).filter (· ≠ "")).foldl keepNew out := by
  induction seeds generalizing out with
  | nil => rfl
  | cons s rest ih =>
    rw [List.foldl_cons, ih, List.map_cons, addSeed]
    split <;> rename_i hblank
    · rw [List.filter_cons_of_neg (by simpa using hblank)]
    · rw [List.filter_cons_of_pos (by simpa using hblank), List.foldl_cons]

theorem out_mergeProvider (g : Merging) (p : SeedProvider) :
    (mergeProvider g p).out = p.offers.foldl keepNew g.out := by
  unfold mergeProvider SeedProvider.offers
  cases p.seeds with
  | error err => rfl
  | ok seeds => exact foldl_addSeed seeds g.out

theorem out_merged (providers : List SeedProvider) :
    (providers.foldl mergeProvider {}).out = firstSeen (offered providers) := by
  induction providers using List.reverseRecOn with
  | nil => rfl
  | append_singleton providers p ih =>
    have hoffered : offered (providers ++ [p]) = offered providers ++ p.offers := by
      rw [offered, List.flatMap_append, List.flatMap_singleton]
      rfl
    rw [List.foldl_append, List.foldl_cons, List.foldl_nil, out_mergeProvider, ih, hoffered,
      firstSeen, firstSeen,
      List.foldl_append]

/-- Each address once, in the order in which it is first offered. -/
theorem seeds_ok_iff (providers : List SeedProvider) (list : List String) :
    seeds providers = .ok list ↔ list = firstSeen (offered providers) ∧ list ≠ [] := by
  unfold seeds
  dsimp only
  rw [out_merged]
  split <;> rename_i hout
  · refine iff_of_false (by split <;> simp) fun h => h.2 ?_
    rw [h.1, List.isEmpty_iff.mp hout]
  · rw [List.isEmpty_iff] at hout
    constructor
    · intro h
      rw [← Except.ok.inj h]
      exact ⟨rfl, hout⟩
    · rintro ⟨rfl, -⟩
      rfl

theorem not_blank_of_offered {providers : List SeedProvider} {s : String}
    (h : s ∈ offered providers) :
    s ≠ "" ∧ trimSpace s = s := by
  obtain ⟨p, -, hs⟩ := List.mem_flatMap.mp h
  unfold SeedProvider.offers at hs
  cases hseeds : p.seeds with
  | error err => simp [hseeds] at hs
  | ok seeds =>
    rw [hseeds] at hs
    obtain ⟨hmem, hne⟩ := List.mem_filter.mp hs
    obtain ⟨raw, -, rfl⟩ := List.mem_map.mp hmem
    exact ⟨by simpa using hne, trimSpace_trimSpace raw⟩

theorem offered_works (providers : List SeedProvider) :
    offered (providers.filter SeedProvider.works) = offered providers := by
  induction providers with
  | nil => rfl
  | cons p rest ih =>
    cases hseeds : p.seeds with
    | error err =>
      have hfails : ¬ p.works = true := by
        simp [SeedProvider.works, hseeds, Except.isOk, Except.toBool]
      have hoffers : p.offers = [] := by simp [SeedProvider.offers, hseeds]
      rw [List.filter_cons_of_neg hfails, ih]
      simp [offered, hoffers]
    | ok seeds =>
      have hworks : p.works = true := by simp [SeedProvider.works, hseeds, Except.isOk, Except.toBool]
      rw [List.filter_cons_of_pos hworks, offered, List.flatMap_cons, ← offered, ih]
      rfl

end YellowPages.Resolver
