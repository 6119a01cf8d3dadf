import YellowPages.Consul.Handler
import YellowPages.Lib.Strings

/-!
# Names of the DNS interface

`internal/consuldns/parser.go`: a question's name, read against the zone it falls under.
-/

namespace YellowPages.Consuldns

open Lib Consul

/-! ## Letter case -/

/-- The tables of the `unicode` package, as far as the interface reads them: the lower case of a
character, and the character that stands for all its case variants in `strings.EqualFold`. -/
structure Unicode where
  lower : Char → Char
  fold : Char → Char
  lower_ascii : ∀ c : Char, c.toNat < 128 → lower c = c.toLower
  fold_ascii : ∀ c : Char, c.toNat < 128 → fold c = c.toLower

namespace Unicode

/-- The tables without any letter outside ASCII. -/
def ascii : Unicode := ⟨Char.toLower, Char.toLower, fun _ _ => rfl, fun _ _ => rfl⟩

variable (u : Unicode)

def toLower (s : String) : String := String.ofList (s.toList.map u.lower)

def equalFold (s t : String) : Bool := s.toList.map u.fold = t.toList.map u.fold

@[simp] theorem toLower_append (s t : String) : u.toLower (s ++ t) = u.toLower s ++ u.toLower t := by
  rw [toLower, String.toList_append, List.map_append, String.ofList_append, toLower, toLower]

@[simp] theorem toLower_empty : u.toLower "" = "" := rfl

theorem toLower_of_ascii {s : String} (h : ∀ c ∈ s.toList, c.toNat < 128 ∧ c.toLower = c) :
    u.toLower s = s := by
  have hmap : s.toList.map u.lower = s.toList := by
    refine (List.map_congr_left fun c hc => ?_).trans (List.map_id s.toList)
    rw [u.lower_ascii c (h c hc).1, (h c hc).2, id]
  rw [toLower, hmap, String.ofList_toList]

@[simp] theorem toLower_dot : u.toLower "." = "." := u.toLower_of_ascii (by simp)

end Unicode

/-! ## Parsing -/

inductive QueryKind where
  | unknown | service | node
  deriving DecidableEq, Repr

structure ParsedQuery where
  kind : QueryKind := .unknown
  service : String := ""
  tag : String := ""
  node : String := ""
  datacenter : String := ""
  deriving DecidableEq

def meshLabels : List String := ["connect", "virtual", "ingress", "ns", "ap", "peer", "query", "addr"]

/-- The datacenter of the labels after the keyword: `<dc>.dc`, or the older `<dc>`. -/
def dcFromRest (rest : List String) : String :=
  match rest with
  | [dc, last] => if last = "dc" then dc else ""
  | [dc] => dc
  | _ => ""

def parseServicePrefix (before : List String) (dc : String) : ParsedQuery :=
  match before with
  | [service] => { kind := .service, service := service, datacenter := dc }
  | [tag, service] => { kind := .service, tag := tag, service := service, datacenter := dc }
  | _ => {}

/-- The loop for the first keyword, with the labels it has passed. -/
def scanLabels (before : List String) : List String → ParsedQuery
  | [] => {}
  | l :: rest =>
    if l = "service" then parseServicePrefix before (dcFromRest rest)
    else if l = "node" then
      if before = [] then {}
      else { kind := .node, node := joinWith '.' before, datacenter := dcFromRest rest }
    else if l ∈ meshLabels then {}
    else scanLabels (before ++ [l]) rest

/-- `strings.HasPrefix(l, "_")`. -/
def underscored (l : String) : Bool := l.toList.head? = some '_'

def parseLabels (labels : List String) : ParsedQuery :=
  match labels with
  | l₀ :: l₁ :: rest =>
    if underscored l₀ && underscored l₁ then
      let rest := if rest.head? = some "service" then rest.tail else rest
      { kind := .service, service := trimPrefix l₀ "_", tag := trimPrefix l₁ "_",
        datacenter := dcFromRest rest }
    else scanLabels [] labels
  | _ => scanLabels [] labels

def parseName (u : Unicode) (name domain : String) : ParsedQuery :=
  let name := u.toLower (trimSuffix name ".")
  let domain := u.toLower (trimSuffix domain ".")
  if name ≠ domain ∧ !hasSuffix name ("." ++ domain) then {}
  else
    let start := trimSuffix (trimSuffix name domain) "."
    if start = "" then {} else parseLabels (splitOn start '.')

end YellowPages.Consuldns
