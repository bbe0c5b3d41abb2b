import Confine.Permission.Basic

/-!
The permissions that a run has been granted. All others are denied.
-/

namespace Confine

open Json (Doc)

/-- A set of permissions, in the order in which they were granted; no two are the same. -/
structure GrantSet where
  grants : List Permission
  deriving DecidableEq, Repr, Inhabited

namespace GrantSet

def empty : GrantSet := ⟨[]⟩

/-- The permission itself is granted. -/
def has (s : GrantSet) (p : Permission) : Bool := s.grants.any (·.same p)

/-- One grant more. -/
def insert (s : GrantSet) (p : Permission) : GrantSet :=
  if s.has p then s else ⟨s.grants ++ [p]⟩

def ofList (l : List Permission) : GrantSet := l.foldl insert empty

/-- How many permissions are granted. -/
def size (s : GrantSet) : Nat := s.grants.length

/-! ### What one grant does -/

@[simp] theorem has_empty (p : Permission) : empty.has p = false := rfl

@[simp] theorem has_insert_self (s : GrantSet) (p : Permission) : (s.insert p).has p := by
  unfold insert
  split
  · assumption
  · simp [has]

/-- No two permissions of a set are the same. -/
theorem pairwise_insert {s : GrantSet} (h : s.grants.Pairwise fun p q => !p.same q)
    (p : Permission) : (s.insert p).grants.Pairwise fun p q => !p.same q := by
  unfold insert
  split
  · exact h
  · next hp =>
    refine List.pairwise_append.2 ⟨h, by simp, fun q hq r hr => ?_⟩
    simp only [List.mem_singleton] at hr
    subst hr
    simp only [has, List.any_eq_true, not_exists, not_and, Bool.not_eq_true] at hp
    simp [hp q hq]

theorem pairwise_ofList (l : List Permission) :
    (ofList l).grants.Pairwise fun p q => !p.same q := by
  suffices ∀ s : GrantSet, (s.grants.Pairwise fun p q => !p.same q) →
      ((l.foldl insert s).grants.Pairwise fun p q => !p.same q) from this empty .nil
  induction l with
  | nil => exact fun _ h => h
  | cons p rest ih => exact fun s h => ih _ (pairwise_insert h p)

/-! ### What is allowed -/

/-- The first grant that nobody may have. -/
def firstForbidden? (s : GrantSet) : Option Permission := s.grants.find? (·.isForbidden)

/-- A file may be written if it is beneath a file or directory of some grant, and its path does
not climb. -/
def allowsWrite (s : GrantSet) (path : Path) : Bool :=
  !path.climbs && s.grants.any fun
    | .writeFile dir => path.isBeneath dir
    | _ => false

/-- The set allows what is asked for. Reading files is never a matter of grants. -/
def implies (s : GrantSet) : Permission → Bool
  | .readFile _ => false
  | .writeFile path => s.allowsWrite path
  | .readEnv name => s.grants.any fun
    | .readEnv granted => granted == "*" || granted == name
    | _ => false
  | .readProperty name => s.grants.any fun
    | .readProperty granted => granted == "*" || granted == name
    | _ => false
  | .exit | .setStreams => false
  | p => s.has p

/-! ### What is never allowed -/

/-- Nobody is allowed to end the process or to replace its streams, whatever was granted. -/
@[simp] theorem implies_exit (s : GrantSet) : s.implies .exit = false := rfl

@[simp] theorem implies_setStreams (s : GrantSet) : s.implies .setStreams = false := rfl

@[simp] theorem implies_readFile (s : GrantSet) (path : Path) :
    s.implies (.readFile path) = false := rfl

/-- A path that climbs may not be written, whatever was granted. -/
theorem allowsWrite_of_climbs (s : GrantSet) {path : Path} (h : path.climbs) :
    s.allowsWrite path = false := by
  simp [allowsWrite, h]

@[simp] theorem implies_empty (p : Permission) : empty.implies p = false := by
  cases p <;> simp [implies, allowsWrite, empty, has]

/-! ### JSON -/

def toJson (s : GrantSet) : Json :=
  .obj [("permissions", .ofList Permission.toJson s.grants)]

def ofDoc? (d : Doc) : Option GrantSet := do
  match ← d.record? ["permissions"] with
  | [l] => (l.required (Doc.list? Permission.ofDoc?)).map ofList
  | _ => none

end GrantSet

end Confine
