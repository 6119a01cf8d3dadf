import YellowPages.Store.Register

/-!
# Which leases Renew refreshes

With a list of ids Renew goes through the list and stops at the first id it does not know. The ids
before that are refreshed, the others are not.
-/

namespace YellowPages.Store

theorem ServiceRec.renewed_renewed (svc : ServiceRec) (t t' : Time) :
    (svc.renewed t).renewed t' = svc.renewed t' := rfl

/-- The ids up to the first one the registry does not have. -/
def Memory.knownIds (m : Memory) (n : String) (ids : List String) : List String :=
  ids.takeWhile fun id => (m.service? n id).isSome

/-- Renew of `n` with `ids` gets to service `s`. No ids stands for all. -/
def Renews (m : Memory) (n : String) (ids : List String) (s : String) : Prop :=
  ids = [] ∨ s ∈ m.knownIds n ids

instance (m : Memory) (n : String) (ids : List String) (s : String) : Decidable (Renews m n ids s) :=
  inferInstanceAs (Decidable (_ ∨ _))

section Renew

variable (m : Memory) (n : String)

theorem service?_renewed {m : Memory} {n id : String} {svc : ServiceRec}
    (h : m.service? n id = some svc) (now : Time) (n' s' : String) :
    (m.setService n id (svc.renewed now)).service? n' s' =
      if n = n' ∧ id = s' then (m.service? n' s').map (·.renewed now) else m.service? n' s' := by
  obtain ⟨r, hr, -⟩ := Memory.service?_eq_some.mp h
  rw [Memory.service?_setService hr]
  split <;> rename_i hk
  · rw [← hk.1, ← hk.2, h, Option.map_some]
  · rfl

theorem renewLoop_service? (now : Time) (ids : List String) (n' s' : String) :
    (renewLoop now n ids m).1.service? n' s' =
      if n = n' ∧ s' ∈ m.knownIds n ids then (m.service? n' s').map (·.renewed now)
      else m.service? n' s' := by
  induction ids generalizing m with
  | nil => simp [renewLoop, Memory.knownIds]
  | cons id rest ih =>
    simp only [renewLoop, Memory.knownIds, List.takeWhile_cons]
    cases hid : m.service? n id with
    | none => simp
    | some svc =>
      have hset := service?_renewed hid now
      -- A refresh does not change which ids are known.
      have hknown : (m.setService n id (svc.renewed now)).knownIds n rest = m.knownIds n rest := by
        unfold Memory.knownIds
        congr 1
        funext s
        rw [hset]
        split <;> simp
      dsimp only
      rw [ih, hknown, hset]
      by_cases hn : n = n'
      · by_cases hs : id = s'
        · subst hs
          simp [hn, Option.map_map, Function.comp_def, ServiceRec.renewed_renewed]
        · have hs' : ¬ s' = id := fun h => hs h.symm
          simp [hn, hs, hs', Memory.knownIds]
      · simp [hn]

theorem renew_events (clk : Nat → Time) (ids : List String) : (m.renew clk n ids).events = [] := by
  unfold Memory.renew
  split <;> [rfl; (split <;> rfl)]

theorem renew_service? (clk : Nat → Time) (ids : List String) (n' s' : String) :
    (m.renew clk n ids).mem.service? n' s' =
      if n = n' ∧ Renews m n ids s' then (m.service? n' s').map (·.renewed (clk 0))
      else m.service? n' s' := by
  unfold Memory.renew
  split
  · rename_i hnode
    split <;> rename_i hk
    · rw [← hk.1]
      simp [Memory.service?, hnode]
    · rfl
  · rename_i r hnode
    split <;> rename_i hids
    · rw [List.isEmpty_iff] at hids
      simp only [Memory.service?_refresh hnode, Renews, hids, true_or, and_true]
    · rw [List.isEmpty_iff] at hids
      simp only [renewLoop_service?, Renews, hids, false_or]

end Renew

/-! ## Services that are not reached -/

/-- An id the registry does not know stands before `s` in the list. -/
def Starved (m : Memory) (n : String) (ids : List String) (s : String) : Prop :=
  ∃ before unknown after, ids = before ++ unknown :: after ∧ m.service? n unknown = none ∧ s ∈ after

theorem renews_iff_not_starved {m : Memory} {n s : String} {ids : List String} (hnodup : ids.Nodup)
    (hs : s ∈ ids) (hheld : (m.service? n s).isSome) : Renews m n ids s ↔ ¬ Starved m n ids s := by
  have hne : ids ≠ [] := List.ne_nil_of_mem hs
  rw [Renews, or_iff_right hne, Memory.knownIds]
  constructor
  · rintro hknown ⟨before, unknown, after, rfl, hunknown, hafter⟩
    -- The known ids end before the unknown one, and `s` comes after it.
    rw [List.takeWhile_append] at hknown
    have hbefore : s ∈ before := by
      split at hknown
      · simpa [hunknown] using hknown
      · exact (List.takeWhile_sublist _).mem hknown
    have hdisjoint := (List.nodup_append.mp hnodup).2.2 s hbefore s (List.mem_cons_of_mem _ hafter)
    exact hdisjoint rfl
  · intro hstarved
    by_contra hunknown
    have hsplit := List.takeWhile_append_dropWhile (p := fun id => (m.service? n id).isSome) (l := ids)
    rw [← hsplit, List.mem_append] at hs
    have hdrop := hs.resolve_left hunknown
    cases hrest : ids.dropWhile (fun id => (m.service? n id).isSome) with
    | nil => simp [hrest] at hdrop
    | cons unknown after =>
      have hhead : (m.service? n unknown).isSome = false := by
        have hhead :=
          List.head_dropWhile_not (fun id => (m.service? n id).isSome) (l := ids) (by simp [hrest])
        simpa [hrest] using hhead
      rw [hrest, List.mem_cons] at hdrop
      rcases hdrop with rfl | hafter
      · rw [hhead] at hheld
        cases hheld
      · exact hstarved ⟨_, unknown, after, by rw [← hrest, hsplit], by simpa using hhead, hafter⟩

end YellowPages.Store
