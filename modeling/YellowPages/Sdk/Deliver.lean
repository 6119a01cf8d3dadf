import YellowPages.Sdk.Replay
import YellowPages.Lib.Latest

/-!
# From the stream to the consumer

The goroutine of `Client.Watch` in `client/sdk/sdk.go`: it folds each response into its set and hands
the set to the consumer over a channel with room for one. The consumer reads whenever it likes.
-/

namespace YellowPages.Sdk

open Lib Store Wire Watch Server Federation SeedClient

/-! ## The goroutine and its channel -/

def snapshot (order : RangeOrder String) (set : Map PbEntry) : List PbEntry :=
  (order.visit set.keys).filterMap (set[·]?)

structure Delivery where
  client : ClientSet := {}
  out : Latest (List PbEntry) := {}
  /-- What `Recv` has returned. -/
  responses : List PbWatchResponse := []

inductive DeliveryAction where
  | recv (r : PbWatchResponse) (order : RangeOrder String)
  /-- One select of `emit`. -/
  | select
  /-- The consumer receives. -/
  | take
  /-- `Recv` fails, and the channel is closed. -/
  | fail

namespace Delivery

/-- `Recv` is called when the last set has been handed over. -/
def step (d : Delivery) : DeliveryAction → Delivery
  | .recv r order =>
    match d.out.sender with
    | .idle =>
      let client := d.client.recv r
      { client := client
        out := if client.ready then d.out.offer (snapshot order client.set) else d.out
        responses := d.responses ++ [r] }
    | _ => d
  | .select => { d with out := d.out.select }
  | .take => { d with out := d.out.take }
  | .fail => { d with out := d.out.close }

def run (d : Delivery) (actions : List DeliveryAction) : Delivery := actions.foldl step d

end Delivery

/-! ## What is handed over -/

/-- The list has the entries of the set, in some order. -/
def Lists (l : List PbEntry) (set : Map PbEntry) : Prop := ∃ order, l = snapshot order set

theorem published_snoc (c : ClientSet) (rs : List PbWatchResponse) (r : PbWatchResponse) :
    c.published (rs ++ [r]) = c.published rs ++
      (if ((rs.foldl ClientSet.recv c).recv r).ready then
        [((rs.foldl ClientSet.recv c).recv r).set] else []) := by
  induction rs generalizing c with
  | nil => exact List.append_nil _
  | cons r' rest ih =>
    rw [List.cons_append, ClientSet.published, ih, ClientSet.published, List.append_assoc]
    rfl

theorem received_snoc (rs : List PbWatchResponse) (r : PbWatchResponse) :
    received (rs ++ [r]) = (received rs).recv r := List.foldl_append

structure Delivers (d : Delivery) : Prop where
  client : d.client = received d.responses
  keeps : d.out.Keeps
  offered : List.Forall₂ Lists d.out.offered (ClientSet.published {} d.responses)

namespace Delivers

variable {d : Delivery}

theorem new : Delivers {} := ⟨rfl, Latest.Keeps.new, List.Forall₂.nil⟩

theorem recv (h : Delivers d) (hidle : d.out.sender = .idle) (r : PbWatchResponse)
    (order : RangeOrder String) :
    Delivers (d.step (.recv r order)) := by
  have hclient : d.client.recv r = received (d.responses ++ [r]) := by rw [received_snoc, h.client]
  have hpublished := published_snoc {} d.responses r
  simp only [Delivery.step, hidle]
  rw [← received, ← received_snoc, ← hclient] at hpublished
  split at hpublished <;> rename_i hready
  · rw [if_pos hready]
    refine ⟨hclient, h.keeps.offer _, ?_⟩
    have hoffered : (d.out.offer (snapshot order (d.client.recv r).set)).offered =
        d.out.offered ++ [snapshot order (d.client.recv r).set] := by rw [Latest.offer, hidle]
    rw [hoffered, hpublished]
    exact List.rel_append h.offered (List.Forall₂.cons ⟨order, rfl⟩ List.Forall₂.nil)
  · rw [if_neg hready]
    refine ⟨hclient, h.keeps, ?_⟩
    rw [hpublished, List.append_nil]
    exact h.offered

theorem handOver (h : Delivers d) {out : Latest (List PbEntry)} (hkeeps : out.Keeps)
    (hoffered : out.offered = d.out.offered) : Delivers { d with out := out } :=
  ⟨h.client, hkeeps, by rw [hoffered]; exact h.offered⟩

theorem step (h : Delivers d) (a : DeliveryAction) : Delivers (d.step a) := by
  cases a with
  | recv r order =>
    cases hsender : d.out.sender with
    | idle => exact h.recv hsender r order
    | _ => simpa only [Delivery.step, hsender] using h
  | select => exact h.handOver h.keeps.select (Latest.offered_select d.out)
  | take => exact h.handOver h.keeps.take (Latest.offered_take d.out)
  | fail => exact h.handOver h.keeps.close (Latest.offered_close d.out)

theorem run (h : Delivers d) (actions : List DeliveryAction) : Delivers (d.run actions) := by
  induction actions generalizing d with
  | nil => exact h
  | cons a rest ih => exact ih (h.step a)

end Delivers

/-- The goroutine and the consumer go on without another response. -/
def DeliveryAction.isRecv : DeliveryAction → Bool
  | .recv .. => true
  | _ => false

def DeliveryAction.isSelect : DeliveryAction → Bool
  | .select => true
  | _ => false

theorem remaining_run {d : Delivery} {actions : List DeliveryAction}
    (h : ∀ a ∈ actions, a.isRecv = false) :
    (d.run actions).out.remaining ≤ d.out.remaining - actions.countP DeliveryAction.isSelect := by
  induction actions generalizing d with
  | nil => exact le_rfl
  | cons a rest ih =>
    rw [List.forall_mem_cons] at h
    have hrest := ih (d := d.step a) h.2
    have hstep : (d.step a).out.remaining ≤ d.out.remaining - if a.isSelect then 1 else 0 := by
      cases a with
      | recv r order => cases h.1
      | select => exact (Latest.remaining_select d.out).le
      | take => exact Latest.remaining_take d.out
      | fail => exact Latest.remaining_close d.out
    rw [List.countP_cons]
    refine hrest.trans ?_
    omega

/-- However the goroutine and the consumer alternate, the consumer gets published sets in order, each
in one list. When nothing is on its way it has the last one, and `emit` is done after three selects. -/
theorem watch_delivers_latest (actions : List DeliveryAction) :
    let d := Delivery.run {} actions
    (∃ sets, sets.Sublist (ClientSet.published {} d.responses) ∧
      List.Forall₂ Lists d.out.taken sets) ∧
      (d.out.sender.pending = none → d.out.buffer = none →
        Option.Rel Lists d.out.taken.getLast? (ClientSet.published {} d.responses).getLast?) ∧
      ∀ more, (∀ a ∈ more, a.isRecv = false) → 3 ≤ more.countP DeliveryAction.isSelect →
        (d.run more).out.sender.pending = none := by
  intro d
  have h : Delivers d := Delivers.new.run actions
  obtain ⟨htaken, hlast⟩ := h.keeps.related h.offered
  refine ⟨htaken, hlast, fun more hmore hselects => ?_⟩
  have hremaining := remaining_run (d := d) hmore
  have hle := d.out.remaining_le
  rw [Latest.pending_eq_none_iff]
  omega

end YellowPages.Sdk
