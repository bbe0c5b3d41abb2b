import Confine.Permission.GrantSet
import Mathlib.Data.List.Basic

/-!
# Where files lie that may be written

`Path.location p w` — the names that lead from the root to what the path `p` names in the working directory `w`: a name
goes down, two dots go up.

* `Path.components_within` — the components of a relative path come behind those of the working directory;
* `Path.location_prefix` — **what is beneath a path by its components lies beneath its location**, if the path does not
  climb and both are absolute or both relative;
* `GrantSet.writes_located` — so what a grant lets a task write lies beneath the location of the grant, unless the grant
  is the empty path: every path begins with that, the absolute ones too;
* `GrantSet.not_writes_located_empty` — with that grant files are written that lie elsewhere.
-/

namespace Confine

namespace Path

/-- The path starts at the root. -/
def isAbsolute (p : Path) : Bool := p.text.toList.head? = some '/'

/-- The path, with the working directory in front if it is relative. -/
def within (p workDir : Path) : Path :=
  if p.isAbsolute then p else ⟨workDir.text ++ "/" ++ p.text⟩

/-- Where a component leads from a place. There is nothing above the root. -/
def Component.lead (place : List (List Char)) : Component → List (List Char)
  | root => []
  | here => place
  | up => place.dropLast
  | name s => place ++ [s]

/-- Where components lead from a place, one after the other. -/
def leadAll (place : List (List Char)) (l : List Component) : List (List Char) :=
  l.foldl Component.lead place

/-- **Where a path leads in a working directory.** -/
def location (p workDir : Path) : List (List Char) := leadAll [] (p.within workDir).components

/-! ### Components -/

theorem piecesFrom_append (rev a b : List Char) :
    piecesFrom rev (a ++ '/' :: b) = piecesFrom rev a ++ piecesFrom [] b := by
  induction a generalizing rev with
  | nil => simp [piecesFrom]
  | cons c a ih =>
    rw [List.cons_append, piecesFrom, piecesFrom]
    split
    · rw [ih, List.cons_append]
    · exact ih _

theorem exists_piecesFrom_eq_cons (rev s : List Char) :
    ∃ more rest, piecesFrom rev s = (rev.reverse ++ more) :: rest := by
  induction s generalizing rev with
  | nil => exact ⟨[], [], by simp [piecesFrom]⟩
  | cons c s ih =>
    rw [piecesFrom]
    split
    · exact ⟨[], piecesFrom [] s, by simp⟩
    · obtain ⟨more, rest, h⟩ := ih (c :: rev)
      exact ⟨c :: more, rest, by simpa using h⟩

theorem Component.ofPiece?_ne_root (s : List Char) : Component.ofPiece? s ≠ some .root := by
  unfold Component.ofPiece?
  split <;> simp

theorem Component.exists_ofPiece?_cons (c : Char) (s : List Char) :
    ∃ x, Component.ofPiece? (c :: s) = some x := by
  unfold Component.ofPiece?
  split <;> simp_all

/-- The components that the pieces of a path stand for, with all dots. -/
def rawComponents (p : Path) : List Component :=
  (piecesFrom [] p.text.toList).filterMap Component.ofPiece?

theorem root_notMem_rawComponents (p : Path) : Component.root ∉ p.rawComponents := by
  intro h
  obtain ⟨s, -, hs⟩ := List.mem_filterMap.1 h
  exact Component.ofPiece?_ne_root s hs

theorem components_of_isAbsolute {p : Path} (h : p.isAbsolute = true) :
    p.components = .root :: p.rawComponents.filter (· ≠ .here) := by
  have hhead : p.text.toList.head? = some '/' := by simpa [isAbsolute] using h
  simp only [components, hhead, if_true]
  rfl

/-- The components of a relative path are those of its pieces; a dot stays only in front. -/
theorem components_of_relative {p : Path} (h : p.isAbsolute = false) :
    (p.rawComponents.head? ≠ some .here ∧ p.components = p.rawComponents.filter (· ≠ .here)) ∨
      ∃ rest, p.rawComponents = .here :: rest ∧
        p.components = .here :: rest.filter (· ≠ .here) := by
  have hhead : ¬ p.text.toList.head? = some '/' := by simpa [isAbsolute] using h
  simp only [components, hhead, if_false]
  split
  · next rest heq => exact .inr ⟨rest, heq, rfl⟩
  · next hne =>
    refine .inl ⟨fun hhere => ?_, rfl⟩
    obtain ⟨rest, hrest⟩ := List.head?_eq_some_iff.1 hhere
    exact hne rest hrest

theorem filter_components {p : Path} (h : p.isAbsolute = false) :
    p.components.filter (· ≠ .here) = p.rawComponents.filter (· ≠ .here) := by
  rcases components_of_relative h with ⟨-, hc⟩ | ⟨rest, hraw, hc⟩
  · simp [hc]
  · simp [hraw, hc]

theorem root_notMem_of_relative {p : Path} (h : p.isAbsolute = false) :
    Component.root ∉ p.components := by
  have hraw := root_notMem_rawComponents p
  intro hmem
  rcases components_of_relative h with ⟨-, hc⟩ | ⟨rest, hr, hc⟩
  · rw [hc] at hmem
    exact hraw (List.mem_of_mem_filter hmem)
  · rw [hr] at hraw
    rw [hc] at hmem
    simp_all

theorem head?_components_eq_root_iff (p : Path) :
    p.components.head? = some .root ↔ p.isAbsolute = true := by
  constructor
  · intro h
    by_contra hp
    exact root_notMem_of_relative (Bool.eq_false_iff.2 hp) (List.mem_of_head? h)
  · intro h
    rw [components_of_isAbsolute h]
    rfl

theorem root_notMem_tail (p : Path) : Component.root ∉ p.components.tail := by
  intro h
  cases hp : p.isAbsolute with
  | true =>
    rw [components_of_isAbsolute hp] at h
    exact root_notMem_rawComponents p (List.mem_of_mem_filter h)
  | false => exact root_notMem_of_relative hp (List.mem_of_mem_tail h)

/-- The empty path has no components, and no other path has none. -/
theorem components_eq_nil_iff (p : Path) : p.components = [] ↔ p.text = "" := by
  constructor
  · intro h
    by_contra hne
    have hp : p.isAbsolute = false := by
      by_contra hp
      rw [components_of_isAbsolute (Bool.not_eq_false _ ▸ hp)] at h
      cases h
    obtain ⟨c, s, hs⟩ := List.exists_cons_of_ne_nil fun hnil => hne (String.toList_eq_nil_iff.1 hnil)
    have hc : ¬ c = '/' := by simpa [isAbsolute, hs] using hp
    obtain ⟨more, rest, hpieces⟩ := exists_piecesFrom_eq_cons [c] s
    obtain ⟨x, hx⟩ := Component.exists_ofPiece?_cons c more
    have hraw : p.rawComponents = x :: rest.filterMap Component.ofPiece? := by
      rw [rawComponents, hs, piecesFrom, if_neg hc, hpieces]
      simp [hx]
    rcases components_of_relative hp with ⟨hhere, hcomp⟩ | ⟨_, _, hcomp⟩
    · have hxhere : x ≠ .here := fun hx => hhere (by rw [hraw, hx]; rfl)
      rw [h, hraw, List.filter_cons_of_pos (by simpa using hxhere)] at hcomp
      cases hcomp
    · rw [h] at hcomp
      cases hcomp
  · obtain ⟨text⟩ := p
    rintro rfl
    rfl

/-- **The components of a relative path come behind those of the working directory.** -/
theorem components_within {p w : Path} (hw : w.isAbsolute = true) (hp : p.isAbsolute = false) :
    (p.within w).components = w.components ++ p.components.filter (· ≠ .here) := by
  have hraw : (⟨w.text ++ "/" ++ p.text⟩ : Path).rawComponents =
      w.rawComponents ++ p.rawComponents := by
    have htext : (w.text ++ "/" ++ p.text).toList = w.text.toList ++ '/' :: p.text.toList := by
      simp
    simp only [rawComponents, htext, piecesFrom_append, List.filterMap_append]
  have habs : (⟨w.text ++ "/" ++ p.text⟩ : Path).isAbsolute = true := by
    have hhead : w.text.toList.head? = some '/' := by simpa [isAbsolute] using hw
    simp [isAbsolute, List.head?_append, hhead]
  rw [within, hp, if_neg Bool.false_ne_true, components_of_isAbsolute habs, hraw,
    components_of_isAbsolute hw, filter_components hp, List.filter_append, List.cons_append]

/-! ### Locations -/

theorem leadAll_append (place : List (List Char)) (l l' : List Component) :
    leadAll place (l ++ l') = leadAll (leadAll place l) l' := List.foldl_append ..

theorem leadAll_filter (place : List (List Char)) (l : List Component) :
    leadAll place (l.filter (· ≠ .here)) = leadAll place l := by
  induction l generalizing place with
  | nil => rfl
  | cons c l ih => cases c <;> simpa [leadAll, Component.lead] using ih _

/-- Components that do not go up lead further down. -/
theorem prefix_leadAll {l : List Component} (hroot : Component.root ∉ l) (hup : Component.up ∉ l)
    (place : List (List Char)) : place <+: leadAll place l := by
  induction l generalizing place with
  | nil => exact List.prefix_refl _
  | cons c l ih =>
    have ih := ih (fun h => hroot (List.mem_cons_of_mem _ h)) fun h => hup (List.mem_cons_of_mem _ h)
    cases c with
    | root => exact absurd List.mem_cons_self hroot
    | here => exact ih place
    | up => exact absurd List.mem_cons_self hup
    | name s => exact (List.prefix_append place [s]).trans (ih (place ++ [s]))

theorem location_of_isAbsolute {p : Path} (hp : p.isAbsolute = true) (w : Path) :
    p.location w = leadAll [] p.components := by
  simp [location, within, hp]

theorem location_of_relative {p w : Path} (hw : w.isAbsolute = true) (hp : p.isAbsolute = false) :
    p.location w = leadAll (leadAll [] w.components) p.components := by
  rw [location, components_within hw hp, leadAll_append, leadAll_filter]

/-- **What is beneath a path by its components lies beneath its location.** -/
theorem location_prefix {p dir w : Path} (hw : w.isAbsolute = true) (hup : p.climbs = false)
    (hkind : p.isAbsolute = dir.isAbsolute) (h : p.isBeneath dir) :
    dir.location w <+: p.location w := by
  obtain ⟨rest, hrest⟩ := isBeneath_iff.1 h
  have hup : Component.up ∉ rest := by
    intro hmem
    have hmem : Component.up ∈ p.components := hrest ▸ List.mem_append_right _ hmem
    simp [climbs, hmem] at hup
  cases hdir : dir.isAbsolute with
  | true =>
    have hroot : Component.root ∉ rest := by
      have htail := root_notMem_tail p
      rw [← hrest, components_of_isAbsolute hdir] at htail
      exact fun hmem => htail (List.mem_append_right _ hmem)
    rw [location_of_isAbsolute hdir, location_of_isAbsolute (hkind.trans hdir), ← hrest,
      leadAll_append]
    exact prefix_leadAll hroot hup _
  | false =>
    have hroot : Component.root ∉ rest := fun hmem =>
      root_notMem_of_relative (hkind.trans hdir) (hrest ▸ List.mem_append_right _ hmem)
    rw [location_of_relative hw hdir, location_of_relative hw (hkind.trans hdir), ← hrest,
      leadAll_append]
    exact prefix_leadAll hroot hup _

/-- A path beneath another that is not empty is absolute if that one is. -/
theorem isAbsolute_of_isBeneath {p dir : Path} (h : p.isBeneath dir) (hdir : dir.text ≠ "") :
    p.isAbsolute = dir.isAbsolute := by
  obtain ⟨rest, hrest⟩ := isBeneath_iff.1 h
  obtain ⟨c, l, hcl⟩ := List.exists_cons_of_ne_nil fun hnil => hdir ((components_eq_nil_iff dir).1 hnil)
  rw [Bool.eq_iff_iff, ← head?_components_eq_root_iff, ← head?_components_eq_root_iff, ← hrest, hcl]
  rfl

end Path

/-! ### What grants cover -/

namespace GrantSet

theorem implies_writeFile_iff {s : GrantSet} {path : Path} :
    s.implies (.writeFile path) = true ↔
      path.climbs = false ∧ ∃ dir, .writeFile dir ∈ s.grants ∧ path.isBeneath dir = true := by
  simp only [implies, allowsWrite, Bool.and_eq_true, Bool.not_eq_true', List.any_eq_true]
  refine and_congr_right fun _ => ⟨?_, ?_⟩
  · rintro ⟨p, hp, h⟩
    cases p with
    | writeFile dir => exact ⟨dir, hp, h⟩
    | _ => cases h
  · rintro ⟨dir, hdir, h⟩
    exact ⟨_, hdir, h⟩

/-- **What a grant lets a task write lies beneath it**: wherever an absolute working directory is that does not climb, the
location of the written path is the location of the grant or beneath it. The exception is the grant of the empty path,
which lets absolute paths be written as well. -/
theorem writes_located {s : GrantSet} {path : Path} (h : s.implies (.writeFile path) = true) :
    path.climbs = false ∧
      ∃ dir, .writeFile dir ∈ s.grants ∧ path.isBeneath dir = true ∧
        ((dir.text = "" ∧ path.isAbsolute = true) ∨
          ∀ workDir : Path, workDir.isAbsolute = true → workDir.climbs = false →
            dir.location workDir <+: path.location workDir) := by
  obtain ⟨hup, dir, hdir, hbeneath⟩ := implies_writeFile_iff.1 h
  refine ⟨hup, dir, hdir, hbeneath, ?_⟩
  by_cases hempty : dir.text = "" ∧ path.isAbsolute = true
  · exact .inl hempty
  · refine .inr fun workDir hwork _ => Path.location_prefix hwork hup ?_ hbeneath
    by_cases htext : dir.text = ""
    · -- the empty path is relative, and the written one is relative as well
      have hrel : path.isAbsolute = false := by simpa [htext] using hempty
      rw [hrel, Path.isAbsolute, htext]
      rfl
    · exact Path.isAbsolute_of_isBeneath hbeneath htext

/-- A file beneath a relative directory, in a working directory. -/
theorem writes_located_relative :
    let s : GrantSet := ⟨[.writeFile ⟨"./out//"⟩]⟩
    s.implies (.writeFile ⟨"./out/./a.txt"⟩) = true ∧
      (⟨"./out/./a.txt"⟩ : Path).climbs = false ∧
        ∃ dir, .writeFile dir ∈ s.grants ∧ (⟨"./out/./a.txt"⟩ : Path).isBeneath dir = true ∧
          ((dir.text = "" ∧ (⟨"./out/./a.txt"⟩ : Path).isAbsolute = true) ∨
            ∀ workDir : Path, workDir.isAbsolute = true → workDir.climbs = false →
              dir.location workDir <+: (⟨"./out/./a.txt"⟩ : Path).location workDir) :=
  have h : (⟨[.writeFile ⟨"./out//"⟩]⟩ : GrantSet).implies (.writeFile ⟨"./out/./a.txt"⟩) = true := by
    decide +kernel
  ⟨h, writes_located h⟩

/-- **The grant of the empty path lets all absolute paths be written**, and so files that do not lie beneath the working
directory, which is what the empty path names. -/
theorem not_writes_located_empty :
    ¬ ∀ (s : GrantSet) (path : Path), s.implies (.writeFile path) = true →
      path.climbs = false ∧ ∀ workDir : Path, workDir.isAbsolute = true → workDir.climbs = false →
        ∃ dir, .writeFile dir ∈ s.grants ∧ dir.location workDir <+: path.location workDir := by
  intro h
  obtain ⟨-, h⟩ := h ⟨[.writeFile ⟨""⟩]⟩ ⟨"/etc/passwd"⟩ (by decide +kernel)
  obtain ⟨dir, hdir, hprefix⟩ := h ⟨"/work"⟩ (by decide +kernel) (by decide +kernel)
  obtain rfl : dir = ⟨""⟩ := by simpa using hdir
  have hwork : (⟨""⟩ : Path).location ⟨"/work"⟩ = [['w', 'o', 'r', 'k']] := by decide +kernel
  have hetc : (⟨"/etc/passwd"⟩ : Path).location ⟨"/work"⟩ =
      [['e', 't', 'c'], ['p', 'a', 's', 's', 'w', 'd']] := by decide +kernel
  rw [hwork, hetc] at hprefix
  exact absurd hprefix (by decide)

end GrantSet

end Confine
