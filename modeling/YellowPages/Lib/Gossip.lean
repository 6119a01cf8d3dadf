import Mathlib

/-!
# Gossip

Parties that each hold an element of a join semilattice. A party sends what it holds and takes in
what it receives by a join. Messages can be late, lost, repeated and in any order.
-/

namespace Lib

/-- What each party holds, and every message that was ever sent. -/
structure Gossip (ι α : Type) where
  values : ι → α
  sent : List α := []

namespace Gossip

inductive Move (ι : Type) where
  | send (i : ι)
  | receive (i : ι) (arrived : List Nat)

def Move.isSend {ι : Type} : Move ι → Bool
  | .send _ => true
  | .receive .. => false

section Run

variable {ι α β : Type} [SemilatticeSup α] [OrderBot α] [SemilatticeSup β] [OrderBot β]

/-- A message nobody sent brings nothing. -/
def message (g : Gossip ι α) (x : Nat) : α := g.sent[x]?.getD ⊥

def map (f : α → β) (g : Gossip ι α) : Gossip ι β := ⟨f ∘ g.values, g.sent.map f⟩

theorem message_map (f : SupBotHom α β) (g : Gossip ι α) (x : Nat) :
    (g.map f).message x = f (g.message x) := by
  simp only [message, map, List.getElem?_map]
  cases g.sent[x]? <;> simp

variable [DecidableEq ι]

def step (g : Gossip ι α) : Move ι → Gossip ι α
  | .send i => { g with sent := g.sent ++ [g.values i] }
  | .receive i arrived =>
    { g with values := Function.update g.values i (g.values i ⊔ arrived.toFinset.sup g.message) }

def run (g : Gossip ι α) (moves : List (Move ι)) : Gossip ι α := moves.foldl step g

theorem run_append (g : Gossip ι α) (moves more : List (Move ι)) :
    g.run (moves ++ more) = (g.run moves).run more :=
  List.foldl_append

/-! ## What is held grows -/

theorem le_step (g : Gossip ι α) (m : Move ι) (i : ι) : g.values i ≤ (g.step m).values i := by
  cases m with
  | send j => exact le_rfl
  | receive j arrived =>
    simp only [step]
    rcases eq_or_ne i j with rfl | hne
    · rw [Function.update_self]
      exact le_sup_left
    · rw [Function.update_of_ne hne]

theorem le_run (g : Gossip ι α) (moves : List (Move ι)) (i : ι) :
    g.values i ≤ (g.run moves).values i := by
  induction moves generalizing g with
  | nil => exact le_rfl
  | cons m rest ih => exact (g.le_step m i).trans (ih (g.step m))

theorem message_step (g : Gossip ι α) (m : Move ι) {x : Nat} (hx : x < g.sent.length) :
    (g.step m).message x = g.message x ∧ x < (g.step m).sent.length := by
  cases m with
  | send i =>
    simp only [step, message, List.length_append, List.getElem?_append_left hx, true_and]
    omega
  | receive i arrived => exact ⟨rfl, hx⟩

theorem message_run (g : Gossip ι α) (moves : List (Move ι)) {x : Nat} (hx : x < g.sent.length) :
    (g.run moves).message x = g.message x := by
  induction moves generalizing g with
  | nil => rfl
  | cons m rest ih =>
    obtain ⟨hsame, hx'⟩ := g.message_step m hx
    exact (ih (g.step m) hx').trans hsame

/-! ## Homomorphisms -/

theorem step_map (f : SupBotHom α β) (g : Gossip ι α) (m : Move ι) :
    (g.map f).step m = (g.step m).map f := by
  cases m with
  | send i => simp [step, map]
  | receive i arrived =>
    have hmessage : (g.map f).message = f ∘ g.message := funext (message_map f g)
    have hjoin : (g.map f).values i ⊔ arrived.toFinset.sup (g.map f).message =
        f (g.values i ⊔ arrived.toFinset.sup g.message) := by
      rw [hmessage, map_sup, map_finset_sup]
      rfl
    rw [step, hjoin]
    exact congrArg (Gossip.mk · _) (Function.comp_update f g.values i _).symm

/-- A homomorphism can be applied before or after a run. -/
theorem run_map (f : SupBotHom α β) (g : Gossip ι α) (moves : List (Move ι)) :
    (g.map f).run moves = (g.run moves).map f := by
  induction moves generalizing g with
  | nil => rfl
  | cons m rest ih =>
    have hstep := step_map f g m
    exact (congrArg (·.run rest) hstep).trans (ih (g.step m))

end Run

/-! ## Who was heard -/

section Heard

variable {ι α : Type} [DecidableEq ι] [SemilatticeSup α] [OrderBot α]

/-- At the start each party has heard of itself, and each message on its way of itself. -/
def sources (ι : Type) (pending : Nat) : Gossip ι (Finset (ι ⊕ Nat)) :=
  ⟨fun i => {.inl i}, (List.range pending).map fun x => {.inr x}⟩

/-- The parties and the pending messages that a party has heard of, by itself or through others. -/
def heard (pending : Nat) (moves : List (Move ι)) (i : ι) : Finset (ι ⊕ Nat) :=
  ((sources ι pending).run moves).values i

/-- What a source held at the start. -/
def origin (g : Gossip ι α) : ι ⊕ Nat → α := Sum.elim g.values g.message

def joinOf (f : ι ⊕ Nat → α) : SupBotHom (Finset (ι ⊕ Nat)) α where
  toFun := fun s => s.sup f
  map_sup' := fun _ _ => Finset.sup_union
  map_bot' := Finset.sup_empty

theorem map_sources (g : Gossip ι α) : (sources ι g.sent.length).map (joinOf g.origin) = g := by
  have hvalues : (fun i => joinOf g.origin {.inl i}) = g.values := funext fun i => Finset.sup_singleton
  have hsent : (List.range g.sent.length).map (fun x => joinOf g.origin {.inr x}) = g.sent := by
    refine List.ext_getElem? fun x => ?_
    have horigin : joinOf g.origin {.inr x} = g.sent[x]?.getD ⊥ := Finset.sup_singleton
    rcases lt_or_ge x g.sent.length with hx | hx
    · rw [List.getElem?_map, List.getElem?_range hx, Option.map_some, horigin,
        List.getElem?_eq_getElem hx]
      rfl
    · rw [List.getElem?_eq_none (by simpa using hx), List.getElem?_eq_none hx]
  rw [map, sources, List.map_map]
  exact congrArg₂ Gossip.mk hvalues hsent

/-- After any run a party holds the join of what the sources it has heard of held at the start. -/
theorem values_run (g : Gossip ι α) (moves : List (Move ι)) (i : ι) :
    (g.run moves).values i = (heard g.sent.length moves i).sup g.origin := by
  have hrun := run_map (joinOf g.origin) (sources ι g.sent.length) moves
  rw [map_sources] at hrun
  rw [hrun]
  rfl

/-! ## Everyone heard from everyone -/

/-- Party `i` receives a message that `j` sent in the run. -/
def Receives (pending : Nat) (moves : List (Move ι)) (i j : ι) : Prop :=
  ∃ before between after arrived, moves = before ++ .send j :: between ++
    .receive i arrived :: after ∧
    pending + before.countP Move.isSend ∈ arrived

/-- No message from before the run arrives in it. -/
def Fresh (pending : Nat) (moves : List (Move ι)) : Prop :=
  ∀ i arrived, Move.receive i arrived ∈ moves → ∀ x ∈ arrived, pending ≤ x

theorem length_sent (g : Gossip ι α) (moves : List (Move ι)) :
    (g.run moves).sent.length = g.sent.length + moves.countP Move.isSend := by
  induction moves generalizing g with
  | nil => rfl
  | cons m rest ih =>
    have hrest := ih (g.step m)
    cases m with
    | send i =>
      have hlength : (g.step (.send i)).sent.length = g.sent.length + 1 := List.length_append
      rw [List.countP_cons_of_pos (by rfl), ← Nat.add_assoc, Nat.add_right_comm, ← hlength]
      exact hrest
    | receive i arrived =>
      rw [List.countP_cons_of_neg (by simp [Move.isSend])]
      exact hrest

theorem mem_heard_of_receives {pending : Nat} {moves : List (Move ι)} {i j : ι}
    (h : Receives pending moves i j) : .inl j ∈ heard pending moves i := by
  obtain ⟨before, between, after, arrived, rfl, hx⟩ := h
  let g := (sources ι pending).run before
  let g' := (g.step (.send j)).run between
  have hself : .inl j ∈ g.values j :=
    Finset.mem_of_subset ((sources ι pending).le_run before j) (Finset.mem_singleton_self _)
  have hlength : g.sent.length = pending + before.countP Move.isSend := by
    simp [g, length_sent, sources]
  have hmessage : g'.message (pending + before.countP Move.isSend) = g.values j := by
    rw [← hlength, message_run _ _ (by simp [step])]
    simp [message, step]
  have hreceived : .inl j ∈ (g'.step (.receive i arrived)).values i := by
    simp only [step, Function.update_self]
    have hle : g'.message _ ≤ arrived.toFinset.sup g'.message :=
      Finset.le_sup (List.mem_toFinset.mpr hx)
    rw [hmessage] at hle
    exact Finset.mem_union_right _ (Finset.mem_of_subset hle hself)
  have hrun : (sources ι pending).run (before ++ .send j :: between ++ .receive i arrived :: after) =
      (g'.step (.receive i arrived)).run after := by
    rw [run_append, run_append]
    rfl
  rw [heard, hrun]
  exact Finset.mem_of_subset (le_run _ after i) hreceived

/-- Only parties are heard of, at the parties and in the messages from `pending` on. -/
structure OnlyParties (pending : Nat) (g : Gossip ι (Finset (ι ⊕ Nat))) : Prop where
  values : ∀ i, ∀ x ∈ g.values i, x.isLeft
  message : ∀ y, pending ≤ y → ∀ x ∈ g.message y, x.isLeft

theorem OnlyParties.step {pending : Nat} {g : Gossip ι (Finset (ι ⊕ Nat))}
    (h : OnlyParties pending g) {m : Move ι}
    (hfresh : ∀ i arrived, m = .receive i arrived → ∀ y ∈ arrived, pending ≤ y) :
    OnlyParties pending (g.step m) := by
  cases m with
  | send i =>
    refine ⟨h.values, fun y hy x hx => ?_⟩
    simp only [Gossip.step, Gossip.message, List.getElem?_append] at hx
    split at hx
    · exact h.message y hy x hx
    · rcases eq_or_ne (y - g.sent.length) 0 with hlast | hlast
      · rw [hlast] at hx
        exact h.values i x hx
      · rw [List.getElem?_eq_none (by simpa [Nat.one_le_iff_ne_zero] using hlast)] at hx
        cases hx
  | receive i arrived =>
    refine ⟨fun j x hx => ?_, h.message⟩
    simp only [Gossip.step] at hx
    rcases eq_or_ne j i with rfl | hne
    · rw [Function.update_self] at hx
      rcases Finset.mem_union.mp hx with hx | hx
      · exact h.values j x hx
      · obtain ⟨y, hy, hx⟩ := Finset.mem_sup.mp hx
        exact h.message y (hfresh j arrived rfl y (List.mem_toFinset.mp hy)) x hx
    · rw [Function.update_of_ne hne] at hx
      exact h.values j x hx

theorem onlyParties_sources (pending : Nat) : OnlyParties pending (sources ι pending) where
  values := by
    intro i x hx
    rw [Finset.mem_singleton.mp hx]
    rfl
  message := by
    intro y hy x hx
    rw [Gossip.message, sources, List.getElem?_eq_none (by simpa using hy)] at hx
    cases hx

theorem isLeft_of_mem_heard {pending : Nat} {moves : List (Move ι)} (h : Fresh pending moves) {i : ι}
    {x : ι ⊕ Nat} (hx : x ∈ heard pending moves i) : x.isLeft := by
  have hrun : OnlyParties pending ((sources ι pending).run moves) := by
    refine List.foldlRecOn moves step (onlyParties_sources pending) fun g hg m hm => hg.step ?_
    rintro i arrived rfl
    exact h i arrived hm
  exact hrun.values i x hx

/-- If everyone receives a message from everyone else and nothing old arrives, everyone has heard of
the same. -/
theorem heard_eq_of_receives [Fintype ι] {pending : Nat} {moves : List (Move ι)}
    (hfresh : Fresh pending moves) (hall : ∀ i j, i ≠ j → Receives pending moves i j) (i : ι) :
    heard pending moves i = Finset.univ.image .inl := by
  ext x
  rw [Finset.mem_image]
  constructor
  · intro hx
    obtain ⟨j, rfl⟩ := Sum.isLeft_iff.mp (isLeft_of_mem_heard hfresh hx)
    exact ⟨j, Finset.mem_univ j, rfl⟩
  · rintro ⟨j, -, rfl⟩
    rcases eq_or_ne i j with rfl | hne
    · exact Finset.mem_of_subset ((sources ι pending).le_run moves i) (Finset.mem_singleton_self _)
    · exact mem_heard_of_receives (hall i j hne)

end Heard

end Gossip

end Lib
