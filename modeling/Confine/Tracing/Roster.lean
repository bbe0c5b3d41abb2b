import Confine.Text.Quoted

/-!
Rosters of tracers. A tracer may ask to come after others, if those are there. Whoever joins goes
to the end, so a roster refuses a newcomer that an earlier member has asked to come after. The
names of its members stay distinct (`nodup_addAll`).
-/

namespace Confine

/-- What can be a member of a roster: it has a name, and the names of those it comes after. -/
class Member (α : Type) where
  id : α → String
  runsAfter : α → List String

/-- Why a tracer cannot join, run or instrument. -/
inductive TracerFault where
  | duplicate (id : String)
  | ordering (id after : String)
  | refused (id reason : String)
  | notInstrumented (id className reason : String)
  deriving DecidableEq, Repr, Inhabited

/-- The fault in words. -/
def TracerFault.message : TracerFault → String
  | duplicate id => "plugin " ++ id ++ " registered twice"
  | ordering id after => "plugin " ++ id ++ " must run after " ++ after
  | refused id reason => "plugin " ++ id ++ " refused to run: " ++ reason
  | notInstrumented id c reason => "plugin " ++ id ++ " failed to rewrite " ++ c ++ ": " ++ reason

/-- Members in the order in which they joined. -/
structure Roster (α : Type) where
  members : List α
  deriving Repr

namespace Roster

variable {α : Type} [Member α]

def empty : Roster α := ⟨[]⟩

instance : Inhabited (Roster α) := ⟨empty⟩

/-- The names of the members. -/
def ids (r : Roster α) : List String := r.members.map Member.id

/-- The names in diagnostics. -/
def shown (r : Roster α) : String := "[" ++ ", ".intercalate (r.ids.map Text.quoted) ++ "]"

/-- Some member has the name. -/
def contains (r : Roster α) (id : String) : Bool := r.members.any (Member.id · == id)

/-- A newcomer goes to the end. -/
def add (r : Roster α) (a : α) : Except TracerFault (Roster α) :=
  if r.contains (Member.id a) then .error (.duplicate (Member.id a))
  else match r.members.find? fun m => (Member.runsAfter m).contains (Member.id a) with
    | some m => .error (.ordering (Member.id m) (Member.id a))
    | none => .ok ⟨r.members ++ [a]⟩

/-- Newcomers join one by one, until one is refused. -/
def addAll (r : Roster α) : List α → Except TracerFault (Roster α)
  | [] => .ok r
  | a :: rest =>
    match r.add a with
    | .error fault => .error fault
    | .ok r => r.addAll rest

/-! ### Names -/

theorem contains_eq_true_iff {r : Roster α} {id : String} : r.contains id = true ↔ id ∈ r.ids := by
  simp [contains, ids]

theorem ids_add {r t : Roster α} {a : α} (h : r.add a = .ok t) :
    t.ids = r.ids ++ [Member.id a] := by
  unfold add at h
  split at h
  · simp at h
  · split at h
    · simp at h
    · simp only [Except.ok.injEq] at h
      simp [← h, ids]

/-- No two members have the same name. -/
theorem nodup_add {r t : Roster α} {a : α} (hr : r.ids.Nodup) (h : r.add a = .ok t) :
    t.ids.Nodup := by
  have hids := ids_add h
  have hnew : Member.id a ∉ r.ids := by
    intro hm
    simp [add, contains_eq_true_iff.2 hm] at h
  rw [hids, List.nodup_append]
  refine ⟨hr, by simp, ?_⟩
  rintro x hx y hy rfl
  exact hnew (by simpa using (List.mem_singleton.1 hy) ▸ hx)

theorem nodup_addAll {r t : Roster α} {l : List α} (hr : r.ids.Nodup) (h : r.addAll l = .ok t) :
    t.ids.Nodup := by
  induction l generalizing r with
  | nil =>
    simp only [addAll, Except.ok.injEq] at h
    exact h ▸ hr
  | cons a rest ih =>
    simp only [addAll] at h
    split at h
    · simp at h
    · next h' => exact ih (nodup_add hr h') h

end Roster

end Confine
