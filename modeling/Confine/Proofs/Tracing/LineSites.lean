import Confine.Proofs.Tracing.Alignment

/-!
# Where the hooks of traced labels stand

The hooks that the line trace puts into code stand at the sites of traced labels, and nowhere else.

* `siteOf code k` — the site of a label at the place `k`: the first frame behind it before the next real
  instruction, or the label itself;
* `hooksBehind code j` — the hooks behind the `j`-th instruction that is no hook, and `hooksAt` — the hooks from a
  place on, which are the same (`hooksAt_succ`);
* `LineTrace.Hooked.hooksBehind_eq` — **behind each instruction stand the hooks of the labels whose site it is**, in the
  order of the labels;
* `Method.linesAt` — the lines of those labels, and `LineTrace.hooksBehind_instrumentMethod`.
-/

namespace Confine

/-! ### Hooks in a row -/

def hooksAt (code : List Instruction) (k : Nat) : List Instruction :=
  (code.drop k).takeWhile Instruction.isHook

/-- The hooks behind an instruction that is no hook; `j` of those that are no hooks stand before it. -/
def hooksBehind : List Instruction → Nat → List Instruction
  | [], _ => []
  | i :: rest, j =>
    if i.isHook then hooksBehind rest j
    else match j with
      | 0 => rest.takeWhile Instruction.isHook
      | j + 1 => hooksBehind rest j

theorem hooksAt_cons_succ (i : Instruction) (rest : List Instruction) (k : Nat) :
    hooksAt (i :: rest) (k + 1) = hooksAt rest k := rfl

theorem hooksBehind_cons_of_hook {i : Instruction} (hi : i.isHook = true) (rest : List Instruction)
    (j : Nat) : hooksBehind (i :: rest) j = hooksBehind rest j := by
  simp [hooksBehind, hi]

theorem hooksBehind_cons_zero {i : Instruction} (hi : i.isHook = false) (rest : List Instruction) :
    hooksBehind (i :: rest) 0 = rest.takeWhile Instruction.isHook := by
  simp [hooksBehind, hi]

theorem hooksBehind_cons_succ {i : Instruction} (hi : i.isHook = false) (rest : List Instruction)
    (j : Nat) : hooksBehind (i :: rest) (j + 1) = hooksBehind rest j := by
  simp [hooksBehind, hi]

theorem hooksBehind_append_of_hooks {hooks : List Instruction} (h : ∀ i ∈ hooks, i.isHook = true)
    (rest : List Instruction) (j : Nat) : hooksBehind (hooks ++ rest) j = hooksBehind rest j := by
  induction hooks with
  | nil => rfl
  | cons i hooks ih =>
    obtain ⟨hi, hhooks⟩ := List.forall_mem_cons.1 h
    rw [List.cons_append, hooksBehind_cons_of_hook hi, ih hhooks]

/-- The hooks from the place behind an instruction on are those that stand behind it. -/
theorem hooksAt_succ {code : List Instruction} {k : Nat} (hk : k < code.length)
    (h : hookAt code k = false) : hooksAt code (k + 1) = hooksBehind code (keptBefore code k) := by
  induction code generalizing k with
  | nil => cases hk
  | cons i rest ih =>
    cases k with
    | zero =>
      have hi : i.isHook = false := h
      rw [keptBefore_zero, hooksBehind_cons_zero hi]
      rfl
    | succ k =>
      rw [hooksAt_cons_succ, ih (Nat.lt_of_succ_lt_succ hk) h, keptBefore]
      cases hi : i.isHook with
      | true => rw [hooksBehind_cons_of_hook hi]; rfl
      | false => rw [← hooksBehind_cons_succ hi]; rfl

theorem hooksBehind_of_not_isHook {code : List Instruction} (h : ∀ i ∈ code, i.isHook = false)
    (j : Nat) : hooksBehind code j = [] := by
  induction code generalizing j with
  | nil => rfl
  | cons i rest ih =>
    obtain ⟨hi, hrest⟩ := List.forall_mem_cons.1 h
    cases j with
    | zero =>
      rw [hooksBehind_cons_zero hi]
      cases rest with
      | nil => rfl
      | cons i' rest => exact List.takeWhile_cons_of_neg (by simp [hrest i'])
    | succ j => rw [hooksBehind_cons_succ hi, ih hrest]

/-! ### Sites -/

/-- How far the first frame is ahead, if it comes before the next real instruction. -/
def frameAhead? : List Instruction → Option Nat
  | .frame _ :: _ => some 0
  | .label _ :: rest | .lineNumber _ _ :: rest => (frameAhead? rest).map (· + 1)
  | _ => none

/-- **The site of a label**: the first frame behind it before the next real instruction, or the label itself if
there is none. -/
def siteOf (code : List Instruction) (k : Nat) : Nat :=
  match frameAhead? (code.drop (k + 1)) with
  | some d => k + 1 + d
  | none => k

theorem isSome_frameAhead (code : List Instruction) :
    (frameAhead? code).isSome = LineTrace.frameFollows code := by
  induction code with
  | nil => rfl
  | cons i rest ih =>
    cases i <;> simp [frameAhead?, LineTrace.frameFollows, ih]

/-- A frame stands where one is ahead. -/
theorem getElem?_of_frameAhead {code : List Instruction} {d : Nat} (h : frameAhead? code = some d) :
    ∃ n, code[d]? = some (.frame n) := by
  induction code generalizing d with
  | nil => cases h
  | cons i rest ih =>
    -- a mark in front of the frame
    have behind : (frameAhead? rest).map (· + 1) = some d → ∃ n, (i :: rest)[d]? = some (.frame n) := by
      intro h
      obtain ⟨d, hd, rfl⟩ := Option.map_eq_some_iff.1 h
      exact ih hd
    cases i with
    | frame n =>
      cases h
      exact ⟨n, rfl⟩
    | label l => exact behind h
    | lineNumber n l => exact behind h
    | _ => cases h

theorem siteOf_cons_succ (i : Instruction) (rest : List Instruction) (k : Nat) :
    siteOf (i :: rest) (k + 1) = siteOf rest k + 1 := by
  unfold siteOf
  rw [List.drop_succ_cons]
  cases frameAhead? (rest.drop (k + 1)) with
  | none => rfl
  | some d => exact Nat.add_right_comm (k + 1) 1 d

/-- The first label has its site behind the marks that come before a frame, if one does. -/
theorem siteOf_cons_zero (i : Instruction) (rest : List Instruction) :
    siteOf (i :: rest) 0 = ((frameAhead? rest).map (· + 1)).getD 0 := by
  unfold siteOf
  rw [List.drop_succ_cons, List.drop_zero]
  cases frameAhead? rest with
  | none => rfl
  | some d => exact Nat.add_comm _ d

def labelAt? (code : List Instruction) (k : Nat) : Option Label := code[k]?.bind Instruction.label?

/-- What `f` says about the labels whose site is at a place, in the order of the labels. -/
def sitedAt {α : Type} (f : Label → Option α) (code : List Instruction) (j : Nat) : List α :=
  (List.range code.length).filterMap fun k =>
    if siteOf code k = j then (labelAt? code k).bind f else none

section Sited

variable {α : Type} (f : Label → Option α)

theorem filterMap_sitedAt {β : Type} (g : α → Option β) (code : List Instruction) (j : Nat) :
    (sitedAt f code j).filterMap g = sitedAt (fun l => (f l).bind g) code j := by
  unfold sitedAt
  rw [List.filterMap_filterMap]
  refine List.filterMap_congr fun k _ => ?_
  split
  · rw [Option.bind_assoc]
  · rfl

theorem map_sitedAt {β : Type} (g : α → β) (code : List Instruction) (j : Nat) :
    (sitedAt f code j).map g = sitedAt (fun l => (f l).map g) code j := by
  rw [← List.filterMap_eq_map, filterMap_sitedAt]
  refine congrArg (sitedAt · code j) (funext fun l => ?_)
  cases f l <;> rfl

variable {f} in
theorem sitedAt_congr {g : Label → Option α} {code : List Instruction}
    (h : ∀ k l, labelAt? code k = some l → f l = g l) (j : Nat) : sitedAt f code j = sitedAt g code j := by
  unfold sitedAt
  refine List.filterMap_congr fun k _ => ?_
  split
  · cases hl : labelAt? code k with
    | none => rfl
    | some l => exact h k l hl
  · rfl

/-- What is said about the first instruction comes first. -/
theorem sitedAt_cons (i : Instruction) (rest : List Instruction) (j : Nat) :
    sitedAt f (i :: rest) j =
      (if siteOf (i :: rest) 0 = j then i.label?.bind f else none).toList ++
        (List.range rest.length).filterMap fun k =>
          if siteOf rest k + 1 = j then (labelAt? rest k).bind f else none := by
  have hcomp : ((fun k => if siteOf (i :: rest) k = j then (labelAt? (i :: rest) k).bind f else none) ∘
      Nat.succ) = fun k => if siteOf rest k + 1 = j then (labelAt? rest k).bind f else none := by
    funext k
    rw [Function.comp, Nat.succ_eq_add_one, siteOf_cons_succ]
    rfl
  unfold sitedAt
  rw [List.length_cons, List.range_succ_eq_map, List.filterMap_cons, List.filterMap_map, hcomp]
  have hfirst : labelAt? (i :: rest) 0 = i.label? := rfl
  rw [hfirst]
  cases (if siteOf (i :: rest) 0 = j then i.label?.bind f else none) <;> rfl

theorem sitedAt_cons_zero (i : Instruction) (rest : List Instruction) :
    sitedAt f (i :: rest) 0 =
      (if LineTrace.frameFollows rest then none else i.label?.bind f).toList := by
  have hrest : ((List.range rest.length).filterMap fun k =>
      if siteOf rest k + 1 = 0 then (labelAt? rest k).bind f else none) = [] := by simp
  rw [sitedAt_cons, hrest, List.append_nil, siteOf_cons_zero, ← isSome_frameAhead]
  cases frameAhead? rest <;> rfl

theorem sitedAt_cons_succ (i : Instruction) (rest : List Instruction) (j : Nat) :
    sitedAt f (i :: rest) (j + 1) =
      (if frameAhead? rest = some j then i.label?.bind f else none).toList ++ sitedAt f rest j := by
  have hrest : ((List.range rest.length).filterMap fun k =>
      if siteOf rest k + 1 = j + 1 then (labelAt? rest k).bind f else none) = sitedAt f rest j := by
    simp [sitedAt]
  rw [sitedAt_cons, hrest, siteOf_cons_zero]
  cases frameAhead? rest <;> simp

/-- Nothing is sited at a real instruction. -/
theorem sitedAt_of_not_isMark {code : List Instruction} {j : Nat}
    (h : ∀ i, code[j]? = some i → i.isMark = false) : sitedAt f code j = [] := by
  induction code generalizing j with
  | nil => rfl
  | cons i rest ih =>
    cases j with
    | zero =>
      have hi : i.isMark = false := h i rfl
      rw [sitedAt_cons_zero]
      cases i <;> simp_all [Instruction.isMark, Instruction.label?]
    | succ j =>
      have hj : frameAhead? rest ≠ some j := fun hj => by
        obtain ⟨n, hn⟩ := getElem?_of_frameAhead hj
        exact absurd (h _ hn) (by simp [Instruction.isMark])
      rw [sitedAt_cons_succ, ih fun i hi => h i hi, if_neg hj]
      rfl

end Sited

/-! ### Woven code -/

namespace LineTrace

variable {hook? : Label → Option Instruction}

theorem Hooked.takeWhile_eq_nil {deferred code out : List Instruction}
    (h : Hooked hook? deferred code out) (hcode : ∀ i ∈ code, i.isHook = false) :
    out.takeWhile Instruction.isHook = [] := by
  cases h with
  | nil => rfl
  | other _ _ _ => exact List.takeWhile_cons_of_neg (by simp [hcode])
  | _ => rfl

/-- **Behind each instruction stand the hooks of the labels whose site it is.** Those that have been deferred stand
behind the next frame. -/
theorem Hooked.hooksBehind_eq {deferred code out : List Instruction}
    (h : Hooked hook? deferred code out) (hcode : ∀ i ∈ code, i.isHook = false)
    (hh : ∀ l i, hook? l = some i → i.isHook = true) (hd : ∀ i ∈ deferred, i.isHook = true)
    (hframe : deferred ≠ [] → frameFollows code = true) (j : Nat) :
    hooksBehind out j =
      (if frameAhead? code = some j then deferred.reverse else []) ++ sitedAt hook? code j := by
  induction h generalizing j with
  | nil => rfl
  | @untraced l deferred rest out hl h ih =>
    obtain ⟨hi, hrest⟩ := List.forall_mem_cons.1 hcode
    have hsited : (Instruction.label l).label?.bind hook? = none := hl
    cases j with
    | zero =>
      rw [hooksBehind_cons_zero hi, h.takeWhile_eq_nil hrest, sitedAt_cons_zero, hsited]
      simp [frameAhead?]
    | succ j =>
      rw [hooksBehind_cons_succ hi, ih hrest hd hframe, sitedAt_cons_succ, hsited]
      simp [frameAhead?]
  | @later l k deferred rest out hl hf h ih =>
    obtain ⟨hi, hrest⟩ := List.forall_mem_cons.1 hcode
    -- a label whose hook waits for the frame
    have hsited : (Instruction.label l).label?.bind hook? = some k := hl
    cases j with
    | zero =>
      rw [hooksBehind_cons_zero hi, h.takeWhile_eq_nil hrest, sitedAt_cons_zero, hf]
      simp [frameAhead?]
    | succ j =>
      have hd' : ∀ i ∈ k :: deferred, i.isHook = true := List.forall_mem_cons.2 ⟨hh l k hl, hd⟩
      rw [hooksBehind_cons_succ hi, ih hrest hd' fun _ => hf, sitedAt_cons_succ, hsited]
      by_cases hj : frameAhead? rest = some j <;> simp [frameAhead?, hj]
  | @atOnce l k deferred rest out hl hf h ih =>
    obtain ⟨hi, hrest⟩ := List.forall_mem_cons.1 hcode
    -- a label with its hook at once
    have hsited : (Instruction.label l).label?.bind hook? = some k := hl
    have hnone : frameAhead? rest = none := by
      rw [← Option.not_isSome_iff_eq_none, isSome_frameAhead, hf]
      exact Bool.false_ne_true
    have hk : k.isHook = true := hh l k hl
    cases j with
    | zero =>
      rw [hooksBehind_cons_zero hi, List.takeWhile_cons_of_pos hk, h.takeWhile_eq_nil hrest,
        sitedAt_cons_zero, hf, hsited]
      simp [frameAhead?]
    | succ j =>
      rw [hooksBehind_cons_succ hi, hooksBehind_cons_of_hook hk, ih hrest hd hframe,
        sitedAt_cons_succ]
      simp [frameAhead?, hnone]
  | @frame n deferred rest out h ih =>
    obtain ⟨hi, hrest⟩ := List.forall_mem_cons.1 hcode
    have hrev : ∀ i ∈ deferred.reverse, i.isHook = true := fun i hi => hd i (List.mem_reverse.1 hi)
    cases j with
    -- the deferred hooks are those behind the frame
    | zero =>
      rw [hooksBehind_cons_zero hi, List.takeWhile_append_of_pos hrev, h.takeWhile_eq_nil hrest,
        sitedAt_cons_zero]
      simp [frameAhead?, Instruction.label?]
    | succ j =>
      rw [hooksBehind_cons_succ hi, hooksBehind_append_of_hooks hrev,
        ih hrest (List.forall_mem_nil _) (fun h => absurd rfl h), sitedAt_cons_succ]
      simp [frameAhead?, Instruction.label?]
  | @other i deferred rest out hl hf h ih =>
    obtain ⟨hi, hrest⟩ := List.forall_mem_cons.1 hcode
    cases i with
    | label l => cases hl
    | frame n => exact absurd rfl (hf n)
    | lineNumber n l =>
      cases j with
      | zero =>
        rw [hooksBehind_cons_zero hi, h.takeWhile_eq_nil hrest, sitedAt_cons_zero]
        simp [frameAhead?, Instruction.label?]
      | succ j =>
        rw [hooksBehind_cons_succ hi, ih hrest hd hframe, sitedAt_cons_succ]
        simp [frameAhead?, Instruction.label?]
    | _ =>
      -- nothing is deferred behind a real instruction
      obtain rfl : deferred = [] := by
        by_contra hne
        cases hframe hne
      cases j with
      | zero =>
        rw [hooksBehind_cons_zero hi, h.takeWhile_eq_nil hrest, sitedAt_cons_zero]
        simp [frameAhead?, Instruction.label?]
      | succ j =>
        rw [hooksBehind_cons_succ hi, ih hrest hd (fun h => absurd rfl h), sitedAt_cons_succ]
        simp [frameAhead?, Instruction.label?]

end LineTrace

/-! ### The lines of a method -/

namespace Method

/-- The line that starts at a label: the last line number that names the label counts. -/
def lineOf? (m : Method) (l : Label) : Option UInt32 :=
  m.code.reverse.findSome? fun
    | .lineNumber n start => if start = l then some n else none
    | _ => none

/-- **The lines of the labels whose site is at a place**, in the order of the labels. -/
def linesAt (m : Method) (j : Nat) : List UInt32 := sitedAt m.lineOf? m.code j

end Method

namespace LineTrace

theorem lookup_lineStarts (m : Method) (l : Label) : (lineStarts m).lookup l = m.lineOf? l := by
  unfold lineStarts Method.lineOf?
  rw [← List.filterMap_reverse]
  induction m.code.reverse with
  | nil => rfl
  | cons i rest ih =>
    cases i with
    | lineNumber n start =>
      rw [List.filterMap_cons, List.findSome?_cons]
      dsimp only
      rw [List.lookup_cons, ih]
      by_cases h : start = l
      · simp [h]
      · have h' : (l == start) = false := beq_false_of_ne (Ne.symm h)
        simp [h, h']
    | _ => exact ih

theorem mem_labels_of_labelAt {m : Method} {k : Nat} {l : Label} (h : labelAt? m.code k = some l) :
    l ∈ m.labels := by
  obtain ⟨i, hi, hl⟩ := Option.bind_eq_some_iff.1 h
  exact List.mem_filterMap.2 ⟨i, List.mem_of_getElem? hi, hl⟩

theorem hookOf_of_labelAt {m : Method} {k : Nat} {l : Label} (h : labelAt? m.code k = some l)
    (source : String) (number : Nat) :
    ∃ place, hookOf? source number m l = (m.lineOf? l).map (lineHook source number place) := by
  have hs : (sequence? m.labels l).isSome := by
    simpa [sequence?, List.findIdx?_isSome] using mem_labels_of_labelAt h
  obtain ⟨place, hplace⟩ := Option.isSome_iff_exists.1 hs
  refine ⟨place, ?_⟩
  rw [hookOf?, traced?, lookup_lineStarts, hplace]
  cases m.lineOf? l <;> rfl

theorem hooksBehind_instrumentMethod {m : Method} (hcode : ∀ i ∈ m.code, i.isHook = false)
    (source : String) (number : Nat) (j : Nat) :
    hooksBehind (instrumentMethod source number m).code j =
      sitedAt (hookOf? source number m) m.code j := by
  rw [instrumentMethod_eq]
  exact ((hooked_insertHooks _ [] m.code).hooksBehind_eq hcode (fun _ _ => isHook_of_hookOf) (by simp)
    (fun h => absurd rfl h) j).trans (by simp)

end LineTrace

end Confine
