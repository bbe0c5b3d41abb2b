import Confine.Host.FileTree
import Mathlib.Data.List.Basic

/-!
# Files are read as they were written

* `FileTree.entry?_put_self`, `FileTree.entry?_put_of_ne` — an entry stands at its place, and what stands elsewhere
  stays;
* `FileTree.read_write` — **a path that a text was written to leads to that text**.
-/

namespace Confine.FileTree

/-! ### What stands at a place -/

section Put

variable {t : FileTree} {place q : List String} {e : FileEntry}

theorem lookup_replace_self {entries : List (List String × FileEntry)}
    (h : entries.any (·.1 == place) = true) :
    (entries.map fun old => if old.1 == place then (place, e) else old).lookup place = some e := by
  induction entries with
  | nil => simp at h
  | cons old entries ih =>
    obtain ⟨p, f⟩ := old
    by_cases hp : p = place
    · simp [hp]
    · have hne : (place == p) = false := beq_false_of_ne (Ne.symm hp)
      have hrest : entries.any (·.1 == place) = true := by simpa [hp] using h
      simpa [hp, List.lookup_cons, hne] using ih hrest

theorem lookup_replace_of_ne (entries : List (List String × FileEntry)) (hq : q ≠ place) :
    (entries.map fun old => if old.1 == place then (place, e) else old).lookup q =
      entries.lookup q := by
  induction entries with
  | nil => rfl
  | cons old entries ih =>
    obtain ⟨p, f⟩ := old
    have hne : (q == place) = false := beq_false_of_ne hq
    by_cases hp : p = place
    · simpa [hp, List.lookup_cons, hne] using ih
    · simp only [List.map_cons, beq_iff_eq, hp, if_false, List.lookup_cons]
      split
      · rfl
      · simpa using ih

theorem entry?_put_self (hplace : place ≠ []) : entry? (t.put place e) place = some e := by
  have hempty : place.isEmpty = false := List.isEmpty_eq_false_iff.2 hplace
  by_cases hany : t.entries.any (·.1 == place) = true
  · rw [put, if_pos hany, entry?, hempty]
    exact lookup_replace_self hany
  · have hnone : t.entries.lookup place = none := by
      refine List.lookup_eq_none_iff.2 fun old hold => ?_
      have hne : old.1 ≠ place := fun heq => hany (List.any_eq_true.2 ⟨old, hold, by simpa using heq⟩)
      simpa using Ne.symm hne
    rw [put, if_neg hany, entry?, hempty]
    simp [List.lookup_append, hnone]

theorem entry?_put_of_ne (hq : q ≠ place) : entry? (t.put place e) q = t.entry? q := by
  unfold entry? put
  split
  · rfl
  · split
    · exact lookup_replace_of_ne _ hq
    · have hne : (q == place) = false := beq_false_of_ne hq
      simp [List.lookup_append, List.lookup_cons, hne]

end Put

/-! ### Ways through the tree -/

section Ways

variable {t : FileTree} {place : List String} {e : FileEntry}

/-- An entry that does not take the place of a directory bars no way. -/
theorem enter_put {start dir : List String} {name : String}
    (hplace : t.entry? place ≠ some .directory) (h : t.enter start name = .ok dir) :
    (t.put place e).enter start name = .ok dir := by
  have hentry : ∀ q, t.entry? q = some .directory → entry? (t.put place e) q = some .directory := by
    intro q hq
    have hne : q ≠ place := by
      rintro rfl
      exact hplace hq
    rw [entry?_put_of_ne hne, hq]
  unfold enter at h ⊢
  split_ifs at h ⊢ with hhere hup hlong
  · exact h
  · exact h
  · -- the place entered is a directory, and so not the one that has been put
    cases hfound : t.entry? (start ++ [name]) with
    | none => simp [hfound] at h
    | some f =>
      cases f with
      | file text => simp [hfound] at h
      | directory =>
        rw [hentry _ hfound]
        simpa [hfound] using h

theorem enterAll_put {start dir names : List String}
    (hplace : t.entry? place ≠ some .directory) (h : t.enterAll start names = .ok dir) :
    (t.put place e).enterAll start names = .ok dir := by
  induction names generalizing start with
  | nil => exact h
  | cons name names ih =>
    cases hfirst : t.enter start name with
    | error fault => simp [enterAll, hfirst] at h
    | ok next =>
      simp only [enterAll, hfirst] at h
      simp only [enterAll, enter_put hplace hfirst]
      exact ih h

end Ways

/-! ### Reading what was written -/

/-- **A path that a text was written to leads to that text.** -/
theorem read_write {t t' : FileTree} {workDir : List String} {path text : String}
    (h : t.write workDir path text = .ok t') : t'.read workDir path = .ok text := by
  unfold write at h
  cases hroute : route workDir path with
  | error fault => simp [hroute, bind, Except.bind] at h
  | ok r =>
    cases hdir : t.enterAll r.start r.through with
    | error fault => simp [hroute, hdir, bind, Except.bind] at h
    | ok dir =>
      simp only [hroute, hdir, bind, Except.bind] at h
      cases hlast : r.last with
      | none => simp [hlast] at h
      | some name =>
        simp only [hlast] at h
        split_ifs at h with hdots hlong
        have hdots : isDots name = false ∧ r.endsOpen = false := by simpa using hdots
        have hplace : t.entry? (dir ++ [name]) ≠ some .directory := by
          intro hdirectory
          simp [hdirectory] at h
        obtain rfl : t' = t.put (dir ++ [name]) (.file text) := by
          split at h
          · cases h
          · exact (Except.ok.inj h).symm
        have hentry : entry? (t.put (dir ++ [name]) (.file text)) (dir ++ [name]) =
            some (.file text) := entry?_put_self (by simp)
        simp [read, hroute, enterAll_put hplace hdir, hlast, hdots, hlong, hentry, bind,
          Except.bind]

end Confine.FileTree
