import YellowPages.Model

/-!
# Who may write

`internal/cred`: a token or a client certificate names a principal, and a principal owns the node
of the same id.
-/

namespace YellowPages.Cred

inductive Mode where
  | disabled | allow | enforce
  deriving DecidableEq, Repr

structure Authorizer where
  mode : Mode

def Authorizer.enforcing (a : Authorizer) : Bool := a.mode = .enforce

/-- Why a write was denied. The reason goes to the log, not to the caller. -/
inductive Denial where
  | anonymousCaller
  | notOwner (principal nodeID : String)
  deriving DecidableEq, Repr

def Authorizer.authorize (a : Authorizer) (p : Principal) (nodeID : String) : Option Denial :=
  if a.mode ≠ .enforce then none
  else if p.anonymous ∨ p.id = "" then some .anonymousCaller
  else if p.id ≠ nodeID then some (.notOwner p.id nodeID)
  else none

structure Identity where
  tokens : Map String := ∅

def Identity.principalForToken (i : Identity) (token : String) : Principal :=
  if token ≠ "" then
    match i.tokens[token]? with
    | some id => { id := id, attributes := {("auth", "token")} }
    | none => { anonymous := true }
  else { anonymous := true }

/-- `commonName` is that of the verified client certificate, and comes before a token. -/
def Identity.principal (i : Identity) (commonName token : String) : Principal :=
  if commonName ≠ "" then { id := commonName, attributes := {("auth", "mtls")} }
  else i.principalForToken token

def Owns (p : Principal) (n : String) : Prop := p.anonymous = false ∧ p.id = n

instance (p : Principal) (n : String) : Decidable (Owns p n) :=
  inferInstanceAs (Decidable (p.anonymous = false ∧ p.id = n))

theorem authorize_eq_none_iff {a : Authorizer} (h : a.enforcing) (p : Principal) (n : String) :
    a.authorize p n = none ↔ Owns p n ∧ n ≠ "" := by
  have hmode : a.mode = .enforce := by simpa [Authorizer.enforcing] using h
  unfold Authorizer.authorize Owns
  rw [if_neg (by simp [hmode])]
  split <;> rename_i hanon
  · simp only [reduceCtorEq, false_iff]
    rintro ⟨⟨hp, rfl⟩, hn⟩
    rcases hanon with hanon | hanon
    · simp [hp] at hanon
    · exact hn hanon
  · rw [not_or, Bool.not_eq_true] at hanon
    split <;> rename_i hid
    · simp only [reduceCtorEq, false_iff]
      rintro ⟨⟨-, hp⟩, -⟩
      exact hid hp
    · rw [ne_eq, not_not] at hid
      subst hid
      simp [hanon]

end YellowPages.Cred
