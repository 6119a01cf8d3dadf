import YellowPages.Model
import YellowPages.Lib.Lww

/-!
# The read path

`internal/health`: the visibility filter and the merge of the seeds' answers. Every surface reads
through these.
-/

namespace YellowPages.Health

open Lib

structure FilterOptions where
  onlyPassing : Bool := false

def visible (e : ServiceEntry) (opts : FilterOptions) : Bool :=
  if !opts.onlyPassing then true
  else if e.maintenance then false
  else
    match e.health with
    | .passing | .warning => true
    | _ => false

def filter (entries : List ServiceEntry) (opts : FilterOptions) : List ServiceEntry :=
  entries.filter (visible · opts)

/-- One winner per (node, service), sorted. -/
def mergeLWW (entries : List ServiceEntry) : List ServiceEntry :=
  mergeBy ServiceEntry.key (fun e cur => e.service.winsLWW cur.service) entries

def rank (e : ServiceEntry) : Nat ×ₗ Int := e.service.rank

theorem winsLWW_rank (a b : ServiceEntry) :
    (a.service.winsLWW b.service) = true ↔ rank b < rank a := ServiceInstance.winsLWW_iff _ _

/-- `w` is the version of its instance that the merge keeps. -/
def Freshest (entries : List ServiceEntry) (w : ServiceEntry) : Prop :=
  FirstMax rank (versions ServiceEntry.key entries w.key) w

theorem mem_mergeLWW (entries : List ServiceEntry) (e : ServiceEntry) :
    e ∈ mergeLWW entries ↔ Freshest entries e := mem_mergeBy winsLWW_rank entries e

theorem mergeLWW_strictlySorted (entries : List ServiceEntry) :
    StrictlySorted ServiceEntry.key (mergeLWW entries) := mergeBy_strictlySorted winsLWW_rank entries

theorem exists_unique_winner {entries : List ServiceEntry} {e : ServiceEntry} (he : e ∈ entries) :
    ∃! w, w ∈ mergeLWW entries ∧ w.key = e.key := by
  obtain ⟨w, hk, hw⟩ := exists_winner ServiceEntry.key rank entries e he
  refine ⟨w, ⟨(mem_mergeLWW entries w).mpr hw, hk⟩, ?_⟩
  rintro v ⟨hv, hvk⟩
  exact (mergeLWW_strictlySorted entries).key_inj _ hv ((mem_mergeLWW entries w).mpr hw)
    (hvk.trans hk.symm)

/-- One winner for each identity, and the merge of merged parts is the merge of the whole. -/
theorem mergeLWW_in_stages (entries a b : List ServiceEntry) :
    StrictlySorted ServiceEntry.key (mergeLWW entries) ∧
      (∀ e ∈ entries, ∃! w, w ∈ mergeLWW entries ∧ w.key = e.key) ∧
      (∀ w ∈ mergeLWW entries, w ∈ entries ∧ Freshest entries w) ∧
      mergeLWW (mergeLWW entries) = mergeLWW entries ∧
      mergeLWW (a ++ b) = mergeLWW (mergeLWW a ++ mergeLWW b) := by
  refine ⟨mergeLWW_strictlySorted entries, ?_, ?_, mergeBy_idem winsLWW_rank entries,
    mergeBy_append winsLWW_rank a b⟩
  · intro e he
    exact exists_unique_winner he
  · intro w hw
    exact ⟨mem_of_mem_mergeBy winsLWW_rank entries w hw, (mem_mergeLWW entries w).mp hw⟩

end YellowPages.Health
