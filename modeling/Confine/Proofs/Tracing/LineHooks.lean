import Confine.Proofs.Tracing.LineSites

/-!
# The hooks of a class

What the line trace makes of a class that was accepted: each traced label has one hook, at its site, and nothing else
changes.

* `Method.lineHook?` — the hook of a label: the last line that names it, and how many labels come before it;
* `Method.withLineHooks` — each instruction, and behind it the hooks of the labels whose site it is;
* `LineTrace.instrumentMethod_eq_withLineHooks` — that is what comes out of putting hooks off until the next frame;
* `LineTrace.Instrumentation.instrument_lineHooks` — **the line trace puts in exactly the right hooks**.
-/

namespace Confine

/-! ### Hooks behind instructions -/

/-- Code is made of its first hooks, and of its other instructions with the hooks behind each. -/
theorem eq_takeWhile_append_flatMap (code : List Instruction) :
    code = code.takeWhile Instruction.isHook ++
      (withoutHooks code).zipIdx.flatMap fun p => p.1 :: hooksBehind code p.2 := by
  induction code with
  | nil => rfl
  | cons i rest ih =>
    cases hi : i.isHook with
    | true =>
      have hkept : withoutHooks (i :: rest) = withoutHooks rest := List.filter_cons_of_neg (by simp [hi])
      have hbehind : hooksBehind (i :: rest) = hooksBehind rest := funext (hooksBehind_cons_of_hook hi rest)
      rw [List.takeWhile_cons_of_pos hi, hkept, hbehind, List.cons_append, ← ih]
    | false =>
      have hkept : withoutHooks (i :: rest) = i :: withoutHooks rest := List.filter_cons_of_pos (by simp [hi])
      have hbehind : ((withoutHooks rest).zipIdx.map (Prod.map id (· + 1))).flatMap
          (fun p => p.1 :: hooksBehind (i :: rest) p.2) =
          (withoutHooks rest).zipIdx.flatMap fun p => p.1 :: hooksBehind rest p.2 := by
        rw [List.flatMap_map]
        exact List.flatMap_congr fun p _ => congrArg (p.1 :: ·) (hooksBehind_cons_succ hi rest p.2)
      rw [List.takeWhile_cons_of_neg (by simp [hi]), hkept, List.zipIdx_cons', List.flatMap_cons, hbehind,
        hooksBehind_cons_zero hi, List.nil_append, List.cons_append, ← ih]

namespace Method

/-- The hook of a label, if some line number names it: it carries the source file, the number of the method, how many
labels come before the label, and the line of the last line number that names it. -/
def lineHook? (m : Method) (source : String) (number : Nat) (l : Label) : Option Instruction :=
  (m.lineOf? l).map fun line => .hook "line-trace" "line"
    [.constant (.text source), .constant (.int (Int64.ofNat number)),
      .constant (.int (Int64.ofNat (m.labels.idxOf l))), .constant (.int (Int64.ofNat line.toNat))]

/-- The method with the hooks of its labels: behind each instruction stand those of the labels whose site it is, in the
order of the labels. -/
def withLineHooks (m : Method) (source : String) (number : Nat) : Method :=
  { m with code := m.code.zipIdx.flatMap fun p => p.1 :: sitedAt (m.lineHook? source number) m.code p.2 }

end Method

namespace LineTrace

theorem sequence_eq_idxOf {labels : List Label} {l : Label} (hl : l ∈ labels) :
    sequence? labels l = some (labels.idxOf l) :=
  List.findIdx?_eq_some_of_exists ⟨l, hl, beq_self_eq_true l⟩

section Method

variable {m : Method} {source : String} {number : Nat}

theorem hookOf_eq_lineHook {l : Label} (hl : l ∈ m.labels) :
    hookOf? source number m l = m.lineHook? source number l := by
  rw [hookOf?, traced?, lookup_lineStarts, sequence_eq_idxOf hl, Method.lineHook?]
  cases m.lineOf? l <;> rfl

/-- **Putting hooks off until the next frame brings each to its site.** -/
theorem instrumentMethod_eq_withLineHooks (hcode : ∀ i ∈ m.code, i.isHook = false) :
    instrumentMethod source number m = m.withLineHooks source number := by
  have hw := weaves_instrumentMethod source number m
  have hkept : withoutHooks (instrumentMethod source number m).code = m.code := by
    rw [hw.code]
    exact List.filter_eq_self.2 fun i hi => by simp [hcode i hi]
  have hfirst : (instrumentMethod source number m).code.takeWhile Instruction.isHook = [] :=
    (hooked_insertHooks _ [] m.code).takeWhile_eq_nil hcode
  have hbehind : ∀ j, hooksBehind (instrumentMethod source number m).code j =
      sitedAt (m.lineHook? source number) m.code j := fun j =>
    (hooksBehind_instrumentMethod hcode source number j).trans
      (sitedAt_congr (fun _ _ hl => hookOf_eq_lineHook (mem_labels_of_labelAt hl)) j)
  have hmade := eq_takeWhile_append_flatMap (instrumentMethod source number m).code
  rw [hfirst, hkept, List.nil_append] at hmade
  simp only [hbehind] at hmade
  rw [hw.same, hmade]
  rfl

/-- Hooks that are put off come in the order of their labels: until a frame comes all labels put theirs off. -/
theorem Hooked.filter_isHook {hook? : Label → Option Instruction} {deferred code out : List Instruction}
    (h : Hooked hook? deferred code out) (hcode : ∀ i ∈ code, i.isHook = false)
    (hh : ∀ l i, hook? l = some i → i.isHook = true) (hd : ∀ i ∈ deferred, i.isHook = true)
    (hframe : deferred ≠ [] → frameFollows code = true) :
    out.filter Instruction.isHook = deferred.reverse ++ (code.filterMap Instruction.label?).filterMap hook? := by
  induction h with
  | nil deferred =>
    -- a hook is deferred only where a frame follows, and here none does
    obtain rfl : deferred = [] := by
      by_contra hne
      cases hframe hne
    rfl
  | @untraced l deferred rest out hl _ ih =>
    obtain ⟨hi, hrest⟩ := List.forall_mem_cons.1 hcode
    rw [List.filter_cons_of_neg (by simp [hi]), ih hrest hd hframe,
      List.filterMap_cons_some (f := Instruction.label?) rfl, List.filterMap_cons_none hl]
  | @later l k deferred rest out hl hf _ ih =>
    obtain ⟨hi, hrest⟩ := List.forall_mem_cons.1 hcode
    have hd' : ∀ i ∈ k :: deferred, i.isHook = true := List.forall_mem_cons.2 ⟨hh l k hl, hd⟩
    rw [List.filter_cons_of_neg (by simp [hi]), ih hrest hd' fun _ => hf,
      List.filterMap_cons_some (f := Instruction.label?) rfl, List.filterMap_cons_some hl,
      List.reverse_cons, List.append_assoc, List.singleton_append]
  | @atOnce l k deferred rest out hl hf _ ih =>
    obtain ⟨hi, hrest⟩ := List.forall_mem_cons.1 hcode
    obtain rfl : deferred = [] := by
      by_contra hne
      exact Bool.false_ne_true (hf.symm.trans (hframe hne))
    rw [List.filter_cons_of_neg (by simp [hi]), List.filter_cons_of_pos (hh l k hl),
      ih hrest hd fun h => absurd rfl h, List.filterMap_cons_some (f := Instruction.label?) rfl,
      List.filterMap_cons_some hl]
    rfl
  | @frame n deferred rest out _ ih =>
    obtain ⟨hi, hrest⟩ := List.forall_mem_cons.1 hcode
    -- what was deferred stands behind the frame now
    have hrev : deferred.reverse.filter Instruction.isHook = deferred.reverse :=
      List.filter_eq_self.2 fun i hi => hd i (List.mem_reverse.1 hi)
    rw [List.filter_cons_of_neg (by simp [hi]), List.filter_append, hrev,
      ih hrest (List.forall_mem_nil _) (fun h => absurd rfl h), List.filterMap_cons_none rfl]
    rfl
  | @other i deferred rest out hl hf _ ih =>
    obtain ⟨hi, hrest⟩ := List.forall_mem_cons.1 hcode
    have hnext : deferred ≠ [] → frameFollows rest = true := fun hne => by
      have hfollows := hframe hne
      cases i with
      | lineNumber n l => exact hfollows
      | label l => cases hl
      | frame n => exact absurd rfl (hf n)
      | _ => cases hfollows
    rw [List.filter_cons_of_neg (by simp [hi]), ih hrest hd hnext, List.filterMap_cons_none hl]

/-- **Each traced label has one hook**, and these are all hooks. -/
theorem filter_isHook_withLineHooks (hcode : ∀ i ∈ m.code, i.isHook = false) :
    (m.withLineHooks source number).code.filter Instruction.isHook = m.labels.filterMap (m.lineHook? source number) := by
  have hhooks := (hooked_insertHooks (hookOf? source number m) [] m.code).filter_isHook hcode
    (fun _ _ => isHook_of_hookOf) (List.forall_mem_nil _) (fun h => absurd rfl h)
  rw [← instrumentMethod_eq_withLineHooks hcode]
  exact hhooks.trans (List.filterMap_congr fun l hl => hookOf_eq_lineHook hl)

theorem withoutHooks_withLineHooks (hcode : ∀ i ∈ m.code, i.isHook = false) :
    withoutHooks (m.withLineHooks source number).code = m.code := by
  rw [← instrumentMethod_eq_withLineHooks hcode, (weaves_instrumentMethod source number m).code]
  exact List.filter_eq_self.2 fun i hi => by simp [hcode i hi]

end Method

/-! ### The numbers of methods -/

theorem hasTraced_iff {m : Method} : hasTraced m = true ↔ ∃ l ∈ m.labels, (m.lineOf? l).isSome := by
  simp only [hasTraced, List.any_eq_true, ← lookup_lineStarts, isSome_lookup_lineStarts, List.contains_eq_mem,
    decide_eq_true_eq]
  constructor
  · rintro ⟨p, hp, hl⟩
    exact ⟨p.1, hl, p.2, mem_lineStarts.1 hp⟩
  · rintro ⟨l, hl, n, hn⟩
    exact ⟨(l, n), mem_lineStarts.2 hn, hl⟩

namespace Instrumentation

/-- More methods have got numbers, those of the names `names`; the numbers that there were stay. -/
structure Numbered (i i' : Instrumentation) (names : List String) : Prop where
  arguments : i'.arguments = i.arguments
  stay : i.methods <+: i'.methods
  unique : i.methods.Nodup → i'.methods.Nodup
  mem : ∀ name, name ∈ i'.methods ↔ name ∈ i.methods ∨ name ∈ names

theorem Numbered.refl (i : Instrumentation) : i.Numbered i [] := ⟨rfl, List.prefix_rfl, fun h => h, by simp⟩

theorem Numbered.trans {i j k : Instrumentation} {names more : List String} (h : i.Numbered j names)
    (h' : j.Numbered k more) : i.Numbered k (names ++ more) where
  arguments := h'.arguments.trans h.arguments
  stay := h.stay.trans h'.stay
  unique := h'.unique ∘ h.unique
  mem name := by rw [h'.mem, h.mem, List.mem_append, or_assoc]

theorem Numbered.idxOf_eq {i i' : Instrumentation} {names : List String} (h : i.Numbered i' names) {name : String}
    (hname : name ∈ i.methods) : i'.methods.idxOf name = i.methods.idxOf name := by
  obtain ⟨rest, hrest⟩ := h.stay
  rw [← hrest, List.idxOf_append_of_mem hname]

/-- A name has the number of its place. -/
theorem numbered_number (i : Instrumentation) (name : String) :
    i.Numbered (i.number name).2 [name] ∧ (i.number name).1 = (i.number name).2.methods.idxOf name := by
  unfold number
  cases hfind : i.methods.findIdx? (· == name) with
  | some n =>
    obtain ⟨hlt, hn⟩ := List.findIdx?_eq_some_iff_findIdx_eq.1 hfind
    have hn : i.methods.idxOf name = n := hn
    have hmem : name ∈ i.methods := List.idxOf_lt_length_iff.1 (hn ▸ hlt)
    exact ⟨⟨rfl, List.prefix_rfl, fun h => h, by simpa using hmem⟩, hn.symm⟩
  | none =>
    have hnew : name ∉ i.methods := fun hmem => by
      simpa using List.findIdx?_eq_none_iff.1 hfind name hmem
    refine ⟨⟨rfl, List.prefix_append _ _, fun h => ?_, by simp⟩, ?_⟩
    · exact List.Nodup.append h (List.nodup_singleton _) (by simpa using hnew)
    · simp [List.idxOf_append_of_notMem hnew]

/-- **Each method gets its hooks, with its own number.** -/
theorem instrumentMethods_eq (i : Instrumentation) (className source : String) {ms : List Method}
    (hms : ∀ m ∈ ms, ∀ i ∈ m.code, i.isHook = false) :
    i.Numbered (i.instrumentMethods className source ms).2
        ((ms.filter hasTraced).map fun m => className ++ "." ++ m.name) ∧
      (i.instrumentMethods className source ms).1 = ms.map fun m => m.withLineHooks source
        ((i.instrumentMethods className source ms).2.methods.idxOf (className ++ "." ++ m.name)) := by
  induction ms generalizing i with
  | nil => exact ⟨.refl i, rfl⟩
  | cons m ms ih =>
    obtain ⟨hm, hms⟩ := List.forall_mem_cons.1 hms
    unfold instrumentMethods
    cases htraced : hasTraced m with
    | true =>
      obtain ⟨hnum, hn⟩ := numbered_number i (className ++ "." ++ m.name)
      obtain ⟨hrest, hmap⟩ := ih (i.number (className ++ "." ++ m.name)).2 hms
      have hstays := hrest.idxOf_eq ((hnum.mem _).2 (.inr (List.mem_singleton_self _)))
      simp only [if_true, List.filter_cons_of_pos htraced, List.map_cons]
      exact ⟨hnum.trans hrest, by rw [← hmap, hstays, ← hn, instrumentMethod_eq_withLineHooks hm]⟩
    | false =>
      obtain ⟨hrest, hmap⟩ := ih i hms
      simp only [Bool.false_eq_true, if_false, List.filter_cons_of_neg (by simpa using htraced), List.map_cons]
      exact ⟨hrest, by rw [← hmap, ← instrumentMethod_eq_withLineHooks hm, instrumentMethod_of_not_hasTraced htraced]⟩

/-- **The line trace puts in exactly the right hooks.** A class that was accepted stays as it is if it is trusted or has no
source file. Otherwise each method has one hook for each of its traced labels, and no others: behind the first frame
that follows the label before the next real instruction, or behind the label itself if there is none, behind the hooks
of labels before it. The hook carries the source file, the number of the method in the table of all methods with traced
labels, how many labels come before this one, and the last line that names it. Nothing else changes. -/
theorem instrument_lineHooks {c : ClassFile} (hc : Verifier.check .submitted c = .ok ()) (i : Instrumentation) :
    i.instrument .trusted c = (c, i) ∧ (c.sourceFile = none → i.instrument .untrusted c = (c, i)) ∧
    ∀ source, c.sourceFile = some source → ∃ i' : Instrumentation,
      i.instrument .untrusted c =
        ({ c with methods := c.methods.map fun m =>
            m.withLineHooks source (i'.methods.idxOf (c.name ++ "." ++ m.name)) }, i') ∧
      i.Numbered i' ((c.methods.filter fun m => m.labels.any fun l => (m.lineOf? l).isSome).map fun m =>
        c.name ++ "." ++ m.name) ∧
      ∀ m ∈ c.methods, ∀ number,
        (m.withLineHooks source number).code.filter Instruction.isHook =
          m.labels.filterMap (m.lineHook? source number) ∧
        withoutHooks (m.withLineHooks source number).code = m.code := by
  have hcode : ∀ m ∈ c.methods, ∀ i ∈ m.code, i.isHook = false := fun m hm _ hi =>
    ((Verifier.check_eq_ok_iff.1 hc).2 m hm).not_isHook hi
  have hnone : c.sourceFile = none → i.instrument .untrusted c = (c, i) := by
    rcases c with ⟨name, _ | source, methods⟩
    · exact fun _ => rfl
    · nofun
  have hsome : ∀ source, c.sourceFile = some source → i.instrument .untrusted c =
      ({ c with methods := (i.instrumentMethods c.name source c.methods).1 },
        (i.instrumentMethods c.name source c.methods).2) := by
    rcases c with ⟨name, _ | source, methods⟩
    · nofun
    · rintro _ ⟨⟩
      rfl
  refine ⟨rfl, hnone, fun source hsource => ?_⟩
  obtain ⟨hnumbered, hmethods⟩ := instrumentMethods_eq i c.name source hcode
  have htraced : hasTraced = fun m => m.labels.any fun l => (m.lineOf? l).isSome :=
    funext fun m => Bool.eq_iff_iff.2 (by rw [hasTraced_iff, List.any_eq_true])
  refine ⟨(i.instrumentMethods c.name source c.methods).2, ?_, htraced ▸ hnumbered, fun m hm number =>
    ⟨filter_isHook_withLineHooks (hcode m hm), withoutHooks_withLineHooks (hcode m hm)⟩⟩
  rw [hsome source hsource, hmethods]

/-- A class of two methods. Two labels of the first one share a frame, the lines of one of them are told twice, a label
between them has no line, and a last label has no frame; the second method has no lines. -/
def framed : ClassFile :=
  ⟨"Main", some "Main.java",
    [⟨"main", true, [], 0,
      [.label ⟨0⟩, .lineNumber 1 ⟨0⟩, .label ⟨1⟩, .label ⟨2⟩, .lineNumber 7 ⟨2⟩, .frame 0, .push .null, .pop,
        .lineNumber 2 ⟨2⟩, .label ⟨3⟩, .lineNumber 3 ⟨3⟩, .ret], []⟩,
    ⟨"other", true, [], 0, [.label ⟨0⟩, .ret], []⟩]⟩

theorem instrument_lineHooks_framed :
    Verifier.check .submitted framed = .ok () ∧ framed.sourceFile = some "Main.java" ∧
    ∃ i' : Instrumentation, (start .default).instrument .untrusted framed =
        ({ framed with methods := framed.methods.map fun m =>
            m.withLineHooks "Main.java" (i'.methods.idxOf (framed.name ++ "." ++ m.name)) }, i') ∧
      i'.methods = ["Main.main"] ∧
      (framed.methods.map fun m => (m.withLineHooks "Main.java" 0).code) =
        [[.label ⟨0⟩, .lineNumber 1 ⟨0⟩, .label ⟨1⟩, .label ⟨2⟩, .lineNumber 7 ⟨2⟩, .frame 0,
            .hook "line-trace" "line"
              [.constant (.text "Main.java"), .constant (.int 0), .constant (.int 0), .constant (.int 1)],
            .hook "line-trace" "line"
              [.constant (.text "Main.java"), .constant (.int 0), .constant (.int 2), .constant (.int 2)],
            .push .null, .pop, .lineNumber 2 ⟨2⟩, .label ⟨3⟩,
            .hook "line-trace" "line"
              [.constant (.text "Main.java"), .constant (.int 0), .constant (.int 3), .constant (.int 3)],
            .lineNumber 3 ⟨3⟩, .ret],
          [.label ⟨0⟩, .ret]] := by
  have hc : Verifier.check .submitted framed = .ok () := by decide
  obtain ⟨i', heq, -⟩ := (instrument_lineHooks hc (start .default)).2.2 "Main.java" rfl
  exact ⟨hc, rfl, i', heq, (congrArg (fun p => p.2.methods) heq).symm, by decide⟩

end Instrumentation

end LineTrace

end Confine
