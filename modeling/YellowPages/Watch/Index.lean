import YellowPages.Watch.Watcher

/-!
# The index a watcher reports

The counter counts changes. What a client sees is the counter, clamped to at least 1.
-/

namespace YellowPages.Watch

namespace Watcher

/-! ## What moves the counter -/

def SameIndex (w w' : Watcher) : Prop := w'.index = w.index ∧ w'.nameIndex = w.nameIndex

theorem SameIndex.refl (w : Watcher) : SameIndex w w := ⟨rfl, rfl⟩

theorem SameIndex.trans {w w' w'' : Watcher} (h1 : SameIndex w w') (h2 : SameIndex w' w'') :
    SameIndex w w'' := ⟨h2.1.trans h1.1, h2.2.trans h1.2⟩

theorem SameIndex.currentIndex {w w' : Watcher} (h : SameIndex w w') (q : Query) :
    w'.currentIndex q = w.currentIndex q := by
  simp only [Watcher.currentIndex, h.1, h.2]

theorem deliver_sameIndex (w : Watcher) (ds : List (Nat × ChangeEvent)) :
    SameIndex w (ds.foldl deliver w) := by
  induction ds generalizing w with
  | nil => exact SameIndex.refl w
  | cons d rest ih => exact SameIndex.trans ⟨rfl, rfl⟩ (ih _)

theorem notifyLoop_fst (w : Watcher) (events : List ChangeEvent) :
    (w.notifyLoop events).1 = (events.map (·.entry.service.name)).foldl advance w := by
  induction events generalizing w with
  | nil => rfl
  | cons ev rest ih => exact ih _

/-- A call counts the names it announces, one after the other. -/
theorem exec_sameIndex (w : Watcher) (c : WatchCall) :
    SameIndex (c.names.foldl advance w) (c.exec w) := by
  cases c with
  | notify events =>
    simp only [WatchCall.names, WatchCall.exec, notify]
    split
    · rename_i h
      rw [List.isEmpty_iff.mp h]
      exact SameIndex.refl w
    · rw [← notifyLoop_fst]
      exact SameIndex.trans ⟨rfl, rfl⟩ (deliver_sameIndex _ _)
  | notifyNames names =>
    simp only [WatchCall.names, WatchCall.exec, notifyNames]
    split
    · rename_i h
      rw [List.isEmpty_iff.mp h]
      exact SameIndex.refl w
    · exact ⟨rfl, rfl⟩
  | subscribe q => exact ⟨rfl, rfl⟩
  | cancel id => exact ⟨rfl, rfl⟩
  | receive id => exact ⟨rfl, rfl⟩

/-! ## Without a wrap the counter adds up -/

theorem index_foldl_advance (w : Watcher) (names : List String) (h : w.index + names.length < 2 ^ 64) :
    (names.foldl advance w).index = w.index + names.length := by
  induction names generalizing w with
  | nil => rfl
  | cons name rest ih =>
    rw [List.length_cons] at h ⊢
    have hsucc : (w.advance name).index = w.index + 1 := u64Succ_of_lt _ (by omega)
    rw [List.foldl_cons, ih _ (by omega), hsucc]
    omega

theorem nameIndex_of_not_mem (w : Watcher) (names : List String) (name : String) (hn : name ∉ names) :
    (names.foldl advance w).nameIndex[name]? = w.nameIndex[name]? := by
  induction names generalizing w with
  | nil => rfl
  | cons x rest ih =>
    rw [List.mem_cons, not_or] at hn
    rw [List.foldl_cons, ih _ hn.2]
    have hx : ¬ x = name := fun h => hn.1 h.symm
    simp [advance, Std.ExtTreeMap.getElem?_insert, hx]

/-- A name of a batch gets the index of its last mention, at place `j` counted from 1. -/
theorem nameIndex_of_mem (w : Watcher) (names : List String) (name : String) (hn : name ∈ names)
    (h : w.index + names.length < 2 ^ 64) :
    ∃ j, 1 ≤ j ∧ j ≤ names.length ∧ (1 < j ↔ name ∈ names.tail) ∧
      (names.foldl advance w).nameIndex[name]? = some (w.index + j) := by
  induction names generalizing w with
  | nil => simp at hn
  | cons x rest ih =>
    rw [List.length_cons] at h
    have hsucc : (w.advance x).index = w.index + 1 := u64Succ_of_lt _ (by omega)
    rw [List.foldl_cons, List.tail_cons, List.length_cons]
    by_cases hrest : name ∈ rest
    · obtain ⟨j, h1, h2, -, hj⟩ := ih (w.advance x) hrest (by omega)
      refine ⟨j + 1, by omega, by omega, ?_, ?_⟩
      · simp only [hrest, iff_true]; omega
      · rw [hj, hsucc, Nat.add_assoc, Nat.add_comm 1 j]
    · obtain rfl : name = x := (List.mem_cons.mp hn).resolve_right hrest
      refine ⟨1, le_refl 1, by omega, by simp [hrest], ?_⟩
      rw [nameIndex_of_not_mem _ _ _ hrest, ← hsucc]
      simp [advance]

/-! ## Reachable states -/

def changes (calls : List WatchCall) : Nat := (calls.map fun c => c.names.length).sum

/-- A watcher that started at `base` and counted `k` changes. Every per-name index is one of
the values the counter took. -/
structure Counted (base k : Nat) (w : Watcher) : Prop where
  index_eq : w.index = base + k
  name_bounds : ∀ (name : String) (i : Nat), w.nameIndex[name]? = some i → base < i ∧ i ≤ base + k

theorem counted_new (base : Nat) : Counted base 0 (newWatcher base) :=
  ⟨rfl, fun name i h => by simp [newWatcher] at h⟩

theorem SameIndex.counted {base k : Nat} {w w' : Watcher} (hsame : SameIndex w w')
    (h : Counted base k w) :
    Counted base k w' :=
  ⟨hsame.1.trans h.index_eq, by rw [hsame.2]; exact h.name_bounds⟩

theorem Counted.exec {base k : Nat} {w : Watcher} (h : Counted base k w) (c : WatchCall)
    (hwrap : base + k + c.names.length < 2 ^ 64) : Counted base (k + c.names.length) (c.exec w) := by
  have hsame := exec_sameIndex w c
  have hlt : w.index + c.names.length < 2 ^ 64 := by rw [h.index_eq]; exact hwrap
  refine ⟨?_, ?_⟩
  · rw [hsame.1, index_foldl_advance w c.names hlt, h.index_eq, Nat.add_assoc]
  · intro name i hi
    rw [hsame.2] at hi
    by_cases hn : name ∈ c.names
    · obtain ⟨j, h1, h2, -, hj⟩ := nameIndex_of_mem w c.names name hn hlt
      rw [hj, h.index_eq] at hi
      injection hi
      omega
    · rw [nameIndex_of_not_mem w c.names name hn] at hi
      have := h.name_bounds name i hi
      omega

theorem counted_run (base : Nat) (calls : List WatchCall) (hwrap : base + changes calls < 2 ^ 64) :
    Counted base (changes calls) ((newWatcher base).run calls) := by
  have hrun : ∀ (w : Watcher) (k : Nat), Counted base k w → base + k + changes calls < 2 ^ 64 →
      Counted base (k + changes calls) (w.run calls) := by
    clear hwrap
    induction calls with
    | nil => intro w k h _; exact h
    | cons c rest ih =>
      intro w k h hlt
      have hsum : changes (c :: rest) = c.names.length + changes rest := by simp [changes]
      rw [hsum] at hlt ⊢
      have := ih (c.exec w) (k + c.names.length) (h.exec c (by omega)) (by omega)
      rwa [Nat.add_assoc] at this
  have := hrun _ 0 (counted_new base) (by simpa using hwrap)
  rwa [Nat.zero_add] at this

/-- Feeding a watcher every batch of a log counts the whole log. -/
theorem index_notify_batches (base : Nat) (batches : List (List ChangeEvent))
    (hwrap : base + batches.flatten.length < 2 ^ 64) :
    (batches.foldl notify (newWatcher base)).index = base + batches.flatten.length := by
  have hchanges : changes (batches.map WatchCall.notify) = batches.flatten.length := by
    simp [changes, WatchCall.names, List.length_flatten, Function.comp_def]
  have hrun : (newWatcher base).run (batches.map WatchCall.notify) =
      batches.foldl notify (newWatcher base) := by
    simp only [Watcher.run, List.foldl_map]
    rfl
  have h := counted_run base (batches.map WatchCall.notify) (by rw [hchanges]; exact hwrap)
  rw [← hrun, h.index_eq, hchanges]

/-! ## A change moves the index -/

/-- A call announces a change that a query sees: of its name, or of any name for a list query. -/
def Concerns (c : WatchCall) (q : Query) : Prop :=
  if q.name = "" then c.names ≠ [] else q.name ∈ c.names

instance (c : WatchCall) (q : Query) : Decidable (Concerns c q) :=
  inferInstanceAs (Decidable (if q.name = "" then c.names ≠ [] else q.name ∈ c.names))

/-- A change that the query sees is not the first one of its batch. -/
def PastFirst (c : WatchCall) (q : Query) : Prop :=
  if q.name = "" then 2 ≤ c.names.length else q.name ∈ c.names.tail

theorem atLeastOne_lt_iff (i j : Nat) (hj : i < j) : atLeastOne i < atLeastOne j ↔
    1 ≤ i ∨ 2 ≤ j := by
  simp only [atLeastOne]
  split <;> split <;> omega

theorem currentIndex_list (w : Watcher) (q : Query) (h : q.name = "") :
    w.currentIndex q = atLeastOne w.index := by simp [currentIndex, h]

theorem currentIndex_seen (w : Watcher) (q : Query) (h : q.name ≠ "") (i : Nat)
    (hi : w.nameIndex[q.name]? = some i) : w.currentIndex q = atLeastOne i := by
  simp [currentIndex, h, hi]

theorem currentIndex_unseen (w : Watcher) (q : Query) (hi : w.nameIndex[q.name]? = none) :
    w.currentIndex q = atLeastOne w.index := by
  simp only [currentIndex, hi]
  split <;> rfl

/-- The clamp hides the first change of all, and no other. -/
theorem Counted.exec_moves_iff {base k : Nat} {w : Watcher} (h : Counted base k w) (c : WatchCall)
    (q : Query) (hq : Concerns c q) (hwrap : base + k + c.names.length < 2 ^ 64) :
    w.currentIndex q < (c.exec w).currentIndex q ↔ 1 ≤ base + k ∨ PastFirst c q := by
  have hsame := exec_sameIndex w c
  have hlt : w.index + c.names.length < 2 ^ 64 := by rw [h.index_eq]; exact hwrap
  unfold Concerns at hq
  unfold PastFirst
  by_cases hname : q.name = ""
  · -- A list query reads the counter itself.
    rw [if_pos hname] at hq ⊢
    have hpos : 0 < c.names.length := List.length_pos_of_ne_nil hq
    rw [currentIndex_list _ q hname, currentIndex_list _ q hname, hsame.1, index_foldl_advance _ _ hlt,
      h.index_eq, atLeastOne_lt_iff _ _ (by omega)]
    omega
  · rw [if_neg hname] at hq ⊢
    obtain ⟨j, hpos, -, hplace, hj⟩ := nameIndex_of_mem w c.names q.name hq hlt
    have hafter : (c.exec w).currentIndex q = atLeastOne (base + k + j) := by
      apply currentIndex_seen _ _ hname
      rw [hsame.2, hj, h.index_eq]
    rw [hafter, ← hplace]
    cases hseen : w.nameIndex[q.name]? with
    | some i =>
      -- A name seen before has an index the counter already passed.
      have hb := h.name_bounds q.name i hseen
      rw [currentIndex_seen w q hname i hseen, atLeastOne_lt_iff _ _ (by omega)]
      omega
    | none =>
      rw [currentIndex_unseen w q hseen, h.index_eq, atLeastOne_lt_iff _ _ (by omega)]
      omega

theorem atLeastOne_mono (i j : Nat) (h : i ≤ j) : atLeastOne i ≤ atLeastOne j := by
  simp only [atLeastOne]
  split <;> split <;> omega

/-- Without a wrap the index of a query never falls. -/
theorem Counted.exec_mono {base k : Nat} {w : Watcher} (h : Counted base k w) (c : WatchCall)
    (q : Query) (hwrap : base + k + c.names.length < 2 ^ 64) :
    w.currentIndex q ≤ (c.exec w).currentIndex q := by
  have hsame := exec_sameIndex w c
  have hlt : w.index + c.names.length < 2 ^ 64 := by rw [h.index_eq]; exact hwrap
  have hindex : w.index ≤ (c.exec w).index := by
    rw [hsame.1, index_foldl_advance w c.names hlt]; omega
  by_cases hname : q.name = ""
  · rw [currentIndex_list _ q hname, currentIndex_list _ q hname]
    exact atLeastOne_mono _ _ hindex
  · by_cases hn : q.name ∈ c.names
    · obtain ⟨j, hpos, -, -, hj⟩ := nameIndex_of_mem w c.names q.name hn hlt
      rw [← hsame.2] at hj
      rw [currentIndex_seen _ q hname _ hj]
      cases hseen : w.nameIndex[q.name]? with
      | some i =>
        have hb := h.name_bounds q.name i hseen
        rw [currentIndex_seen w q hname i hseen]
        exact atLeastOne_mono _ _ (by rw [h.index_eq]; omega)
      | none =>
        rw [currentIndex_unseen w q hseen]
        exact atLeastOne_mono _ _ (by omega)
    · have hkept : (c.exec w).nameIndex[q.name]? = w.nameIndex[q.name]? := by
        rw [hsame.2]; exact nameIndex_of_not_mem w c.names q.name hn
      cases hseen : w.nameIndex[q.name]? with
      | some i =>
        rw [currentIndex_seen w q hname i hseen, currentIndex_seen _ q hname i (hkept.trans hseen)]
      | none =>
        rw [currentIndex_unseen w q hseen, currentIndex_unseen _ q (hkept.trans hseen)]
        exact atLeastOne_mono _ _ hindex

/-! ## Waiting for the next change -/

theorem bump_deliver (w : Watcher) (ds : List (Nat × ChangeEvent)) :
    (ds.foldl deliver w).bump = w.bump := by
  induction ds generalizing w with
  | nil => rfl
  | cons d rest ih => exact ih _

theorem bump_foldl_advance (w : Watcher) (names : List String) :
    (names.foldl advance w).bump = w.bump := by
  induction names generalizing w with
  | nil => rfl
  | cons x rest ih => exact ih _

/-- A change closes the channel that the waiters parked on. -/
theorem bump_exec (w : Watcher) (c : WatchCall) (h : c.names ≠ []) :
    (c.exec w).bump = w.bump + 1 := by
  cases c with
  | notify events =>
    have hne : events ≠ [] := by
      intro he
      simp [WatchCall.names, he] at h
    simp only [WatchCall.exec, notify, List.isEmpty_iff, hne, if_false, bump_deliver, signalLocked,
      notifyLoop_fst, bump_foldl_advance]
  | notifyNames names =>
    have hne : names ≠ [] := h
    simp only [WatchCall.exec, notifyNames, List.isEmpty_iff, hne, if_false, signalLocked,
      bump_foldl_advance]
  | subscribe q => exact absurd rfl h
  | cancel id => exact absurd rfl h
  | receive id => exact absurd rfl h

theorem one_le_currentIndex (w : Watcher) (q : Query) : 1 ≤ w.currentIndex q := by
  have hone : ∀ x, 1 ≤ atLeastOne x := by intro x; unfold atLeastOne; split <;> omega
  unfold currentIndex
  split
  · split <;> exact hone _
  · exact hone _

theorem waitTurn_done_iff (w : Watcher) (q : Query) (i : Nat) (hi : 1 ≤ i) :
    (∃ j, w.waitTurn q i = .done j) ↔ w.currentIndex q ≠ i := by
  simp only [waitTurn]
  split <;> rename_i h
  · simp only [WaitTurn.done.injEq, exists_eq', true_iff]
    exact h.resolve_left (by omega)
  · rw [not_or, not_not] at h
    simp [h.2]

/-- A wait that ends, ends with the current index. -/
theorem index_of_done {w : Watcher} {q : Query} {i j : Nat} (h : w.waitTurn q i = .done j) :
    w.currentIndex q = j := by
  unfold waitTurn at h
  split at h
  · exact WaitTurn.done.inj h
  · cases h

theorem waitTurn_self (w : Watcher) (q : Query) : w.waitTurn q (w.currentIndex q) = .park w.bump := by
  have := one_le_currentIndex w q
  simp [waitTurn]
  omega

theorem Concerns.names_ne {c : WatchCall} {q : Query} (h : Concerns c q) : c.names ≠ [] := by
  unfold Concerns at h
  split at h
  · exact h
  · exact List.ne_nil_of_mem h

/-- A client that read the index of `q` and waits on it parks. The next change of `q` closes
the channel it parked on. The index moves, and the client returns, exactly if the change is not
the first one the watcher ever counted. -/
theorem change_moves_index_iff (base : Nat) (calls : List WatchCall) (c : WatchCall) (q : Query)
    (hq : Concerns c q) (hwrap : base + changes calls + c.names.length < 2 ^ 64) :
    let w := (newWatcher base).run calls
    let w' := c.exec w
    w.waitTurn q (w.currentIndex q) = .park w.bump ∧ w.bump < w'.bump ∧
      (w.currentIndex q < w'.currentIndex q ↔ 1 ≤ base + changes calls ∨ PastFirst c q) ∧
      ((∃ i, w'.waitTurn q (w.currentIndex q) = .done i) ↔
        1 ≤ base + changes calls ∨ PastFirst c q) := by
  intro w w'
  have hcount := counted_run base calls (by omega)
  have hmoves := hcount.exec_moves_iff c q hq hwrap
  have hmono := hcount.exec_mono c q hwrap
  refine ⟨waitTurn_self w q, ?_, hmoves, ?_⟩
  · rw [bump_exec w c hq.names_ne]; omega
  · rw [waitTurn_done_iff w' q _ (one_le_currentIndex w q), ← hmoves]
    constructor
    · intro hne; exact lt_of_le_of_ne hmono (Ne.symm hne)
    · intro hlt; exact ne_of_gt hlt

/-- From base 1 on, the announcement of a name wakes its waiters. -/
theorem change_moves_index_from_one :
    (newWatcher 1).currentIndex { name := "web" } <
      ((newWatcher 1).notifyNames ["web"]).currentIndex { name := "web" } := by
  have h := change_moves_index_iff 1 [] (.notifyNames ["web"]) { name := "web" }
    (by simp [Concerns, WatchCall.names]) (by simp [changes, WatchCall.names])
  exact h.2.2.1.mpr (Or.inl (by simp))

/-- A seed starts its watcher at 0. Its first change leaves the reported index at 1, and a client
that waits on 1 parks again. -/
theorem first_change_from_zero_hidden :
    let web : ServiceInstance := { id := "web", name := "web" }
    let ev : ChangeEvent := ⟨.put, { node := { id := "n" }, service := web, health := .passing }, 1⟩
    Concerns (.notify [ev]) { name := "web" } ∧
      (newWatcher 0).currentIndex { name := "web" } = 1 ∧
      ((newWatcher 0).notify [ev]).currentIndex { name := "web" } = 1 ∧
      ((newWatcher 0).notify [ev]).waitTurn { name := "web" } 1 = .park 1 := by
  refine ⟨by simp [Concerns, WatchCall.names], ?_, ?_, ?_⟩
  · decide
  · decide
  · decide

end Watcher

end YellowPages.Watch
