import Confine.Permission.GrantSet

/-!
Confinements of loading units. A registry has at most one live confinement of a unit. Whoever
confines a unit gets a token, which is needed to release it; confined threads hold a capability,
through which permissions are checked and decisions are logged, and which denies all once the
confinement has been released.
-/

namespace Confine

/-- A loading unit, by its number. -/
structure UnitId where
  index : Nat
  deriving DecidableEq, Repr, Inhabited

/-- The name of a loading unit in messages. -/
def UnitId.name (u : UnitId) : String := "loader-" ++ toString u.index

/-- A registry, by its number. -/
structure RegistryId where
  index : Nat
  deriving DecidableEq, Repr, Inhabited

/-- How confinements are misused. -/
inductive ConfinementFault where
  | alreadyConfined (u : UnitId)
  | notConfined (u : UnitId)
  | staleToken (u : UnitId)
  | threadLimit (limit : Nat)
  deriving DecidableEq, Repr, Inhabited

/-- The fault in words. -/
def ConfinementFault.message : ConfinementFault → String
  | alreadyConfined u => "loading unit " ++ u.name ++ " is already confined"
  | notConfined u => "loading unit " ++ u.name ++ " is not confined"
  | staleToken u =>
    "token does not match the live confinement of loading unit " ++ u.name
  | threadLimit n =>
    "thread registration beyond the limit of " ++ toString n ++ " extra threads"

/-- The proof that a unit was confined. The nonce is the number of its confinement. -/
structure ConfinementToken where
  unit : UnitId
  nonce : Nat
  deriving DecidableEq, Repr, Inhabited

/-- What a confined thread holds: the number of its confinement. -/
structure Capability where
  nonce : Nat
  deriving DecidableEq, Repr, Inhabited

/-- One confinement of a unit. -/
structure Confinement where
  registry : RegistryId
  unit : UnitId
  grants : GrantSet
  /-- the decisions that have been logged, latest first -/
  log : List Decision
  /-- it has not been released -/
  live : Bool
  deriving DecidableEq, Repr, Inhabited

/-- All confinements there have been, in all registries. The number of a confinement is its place
in the history, so no number comes twice. -/
structure Confinements where
  history : List Confinement
  deriving DecidableEq, Repr, Inhabited

namespace Confinements

def empty : Confinements := ⟨[]⟩

/-- The live confinement of a unit in a registry, by its number. -/
def live? (s : Confinements) (r : RegistryId) (u : UnitId) : Option Nat :=
  s.history.findIdx? fun c => c.live && c.registry = r && c.unit = u

/-- Some unit is confined in the registry. -/
def isActive (s : Confinements) (r : RegistryId) : Bool :=
  s.history.any fun c => c.live && c.registry = r

/-- The unit is confined in the registry. -/
def isConfined (s : Confinements) (r : RegistryId) (u : UnitId) : Bool := (s.live? r u).isSome

/-- Changes the confinement of a number. -/
def modify (s : Confinements) (nonce : Nat) (f : Confinement → Confinement) : Confinements :=
  ⟨s.history.modify nonce f⟩

/-- Confines a unit with permissions. -/
def confine (s : Confinements) (r : RegistryId) (u : UnitId) (grants : GrantSet) :
    Except ConfinementFault (ConfinementToken × Confinements) :=
  if s.isConfined r u then .error (.alreadyConfined u)
  else .ok (⟨u, s.history.length⟩, ⟨s.history ++ [⟨r, u, grants, [], true⟩]⟩)

/-- The capability for threads that run under a token. -/
def capability (s : Confinements) (r : RegistryId) (t : ConfinementToken) :
    Except ConfinementFault Capability :=
  match s.live? r t.unit with
  | none => .error (.notConfined t.unit)
  | some nonce => if nonce = t.nonce then .ok ⟨nonce⟩ else .error (.staleToken t.unit)

/-- The decisions that a confinement has logged, in order. -/
def decisions (s : Confinements) (c : Capability) : List Decision :=
  match s.history[c.nonce]? with
  | some e => e.log.reverse
  | none => []

/-- Ends the confinement of a unit; gives its log. -/
def release (s : Confinements) (r : RegistryId) (t : ConfinementToken) (u : UnitId) :
    Except ConfinementFault (List Decision × Confinements) :=
  match s.live? r u with
  | none => .error (.notConfined u)
  | some nonce =>
    if t.unit = u ∧ nonce = t.nonce then
      .ok (s.decisions ⟨nonce⟩, s.modify nonce fun e => { e with log := [], live := false })
    else .error (.staleToken u)

/-- The confinement has been released. -/
def isRevoked (s : Confinements) (c : Capability) : Bool :=
  match s.history[c.nonce]? with
  | some e => !e.live
  | none => true

/-- The unit that a capability belongs to. -/
def owner? (s : Confinements) (c : Capability) : Option UnitId :=
  s.history[c.nonce]?.map (·.unit)

/-- Logs a decision. -/
def record (s : Confinements) (c : Capability) (p : Permission) (granted : Bool) : Confinements :=
  s.modify c.nonce fun e => { e with log := ⟨p, granted⟩ :: e.log }

/-- What the confinement says about a permission, without a log. -/
def allows (s : Confinements) (c : Capability) (p : Permission) : Bool :=
  match s.history[c.nonce]? with
  | some e => e.live && e.grants.implies p
  | none => false

/-- Decides about a permission, and logs the decision. -/
def check (s : Confinements) (c : Capability) (p : Permission) : Bool × Confinements :=
  let granted := s.allows c p
  (granted, s.record c p granted)

/-! ### What one operation does -/

theorem isRevoked_iff {s : Confinements} {c : Capability} :
    s.isRevoked c = true ↔ ∀ e, s.history[c.nonce]? = some e → e.live = false := by
  unfold isRevoked
  cases s.history[c.nonce]? <;> simp

/-- A released confinement allows nothing. -/
theorem allows_of_isRevoked {s : Confinements} {c : Capability} (h : s.isRevoked c)
    (p : Permission) : s.allows c p = false := by
  unfold isRevoked at h
  unfold allows
  split <;> simp_all

/-- A decision goes to the end of its confinement's log. -/
theorem decisions_record {s : Confinements} {c : Capability} (hc : c.nonce < s.history.length)
    (p : Permission) (granted : Bool) :
    (s.record c p granted).decisions c = s.decisions c ++ [⟨p, granted⟩] := by
  simp [record, modify, decisions, hc]

/-- A decision about one confinement leaves the others' logs alone. -/
theorem decisions_record_of_ne {s : Confinements} {c d : Capability} (h : c.nonce ≠ d.nonce)
    (p : Permission) (granted : Bool) :
    (s.record c p granted).decisions d = s.decisions d := by
  simp [record, modify, decisions, h]

/-- Logging changes nothing that a check asks for. -/
@[simp] theorem allows_record (s : Confinements) (c d : Capability) (p q : Permission)
    (granted : Bool) : (s.record c p granted).allows d q = s.allows d q := by
  by_cases h : c.nonce = d.nonce
  · cases hd : s.history[d.nonce]? <;>
      simp [record, modify, allows, h, hd]
  · simp [record, modify, allows, h]

end Confinements

end Confine
