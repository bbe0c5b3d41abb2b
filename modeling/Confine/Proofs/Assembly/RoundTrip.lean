import Confine.Proofs.Assembly.Composition
import Confine.Proofs.Assembly.Legible
import Confine.Proofs.Program.Relabelled

/-!
# Disassembled classes, assembled again

`Assembly.assemble_disassemble` — the texts of legible classes assemble to the same classes, with the labels of
each method numbered in the order in which they are first mentioned.

The assembler is followed line by line. While it is in a method, what it has read of the method's handlers and
code is the invariant `OpenMethod.Holds`.
-/

namespace Confine

open Text (IsWord)

/-! ### Label names -/

theorem Label.name_injective : Function.Injective Label.name := by
  intro a b h
  have htext : toString a.index.toNat = toString b.index.toNat := by
    have hlist := congrArg String.toList h
    rw [name, name, String.toList_append, String.toList_append] at hlist
    exact String.toList_inj.1 (List.append_cancel_left hlist)
  have hread := Text.uint32?_toString a.index
  rw [htext, Text.uint32?_toString] at hread
  exact ext_toNat (congrArg UInt32.toNat (Option.some.inj hread).symm)

namespace Assembly

namespace OpenMethod

/-- The method after it has mentioned the labels `seen`. -/
def withSeen (om : OpenMethod) (seen : List Label) : OpenMethod :=
  { om with labels := seen.eraseDups.map Label.name }

theorem withSeen_eq_self {om : OpenMethod} {seen : List Label}
    (h : om.labels = seen.eraseDups.map Label.name) : om.withSeen seen = om := by
  rw [withSeen, ← h]

/-- **A label that is named gets the number of its first mention.** -/
theorem label_withSeen (om : OpenMethod) {ms seen rest : List Label} {l : Label}
    (hms : ms = seen ++ l :: rest) :
    (om.withSeen seen).label l.name = (l.number ms, om.withSeen (seen ++ [l])) := by
  have hnumber : l.number ms = l.number (seen ++ [l]) := by
    rw [hms, List.append_cons]
    exact Label.number_append (by simp) rest
  have hfind : (om.withSeen seen).labels.findIdx? (· == l.name) =
      seen.eraseDups.findIdx? (· == l) := by
    rw [withSeen, List.findIdx?_map]
    refine congrArg (List.findIdx? · _) (funext fun a => ?_)
    exact Bool.eq_iff_iff.2 (by simp [Label.name_injective.eq_iff])
  by_cases hl : l ∈ seen
  · have hfound : seen.eraseDups.findIdx? (· == l) = some (seen.eraseDups.idxOf l) :=
      List.findIdx?_eq_some_of_exists ⟨l, List.mem_eraseDups.2 hl, beq_self_eq_true l⟩
    have hseen : (seen ++ [l]).eraseDups = seen.eraseDups := by rw [eraseDups_concat, if_pos hl]
    rw [hnumber, label, hfind, hfound, Label.number, withSeen, withSeen, hseen]
  · have hmem : l ∉ seen.eraseDups := fun h => hl (List.mem_eraseDups.1 h)
    have hmissing : seen.eraseDups.findIdx? (· == l) = none :=
      List.findIdx?_eq_none_iff.2 fun a ha => beq_eq_false_iff_ne.2 fun h => hmem (h ▸ ha)
    have hseen : (seen ++ [l]).eraseDups = seen.eraseDups ++ [l] := by
      rw [eraseDups_concat, if_neg hl]
    have hidx : (seen.eraseDups ++ [l]).idxOf l = (om.withSeen seen).labels.length := by
      simp [List.idxOf_append, hmem, withSeen]
    rw [hnumber, label, hfind, hmissing, Label.number, hseen, hidx, withSeen, withSeen, hseen,
      List.map_append]
    rfl

/-- What an open method holds once the handlers `hs` and the code `is` of `m` have been read. -/
structure Holds (om : OpenMethod) (m : Method) (hs : List Handler) (is : List Instruction) : Prop where
  name : om.name = m.name
  isStatic : om.isStatic = m.isStatic
  params : om.params = m.params
  maxLocals : om.maxLocals = m.maxLocals
  handlers : om.handlers = (hs.map (·.relabel (Label.number m.mentions))).reverse
  code : om.code = (is.map (·.relabel (Label.number m.mentions))).reverse
  labels : om.labels =
    (hs.flatMap Handler.mentions ++ is.filterMap Instruction.mention?).eraseDups.map Label.name

variable {om : OpenMethod} {m : Method} {hs : List Handler} {is : List Instruction}

theorem Holds.toMethod (h : om.Holds m m.handlers m.code) : om.toMethod = m.renumbered := by
  obtain ⟨hname, hstatic, hparams, hlocals, hhandlers, hcode, -⟩ := h
  simp [OpenMethod.toMethod, Method.renumbered, Method.relabel, hname, hstatic, hparams, hlocals,
    hhandlers, hcode]

/-- The next handler is read. -/
theorem Holds.addHandler (h : om.Holds m hs []) {hd : Handler} {rest : List Handler}
    (hm : m.handlers = hs ++ hd :: rest) :
    (om.addHandler hd.start.name hd.stop.name hd.target.name hd.kind).Holds m (hs ++ [hd]) [] := by
  have hlabels := h.labels
  rw [List.filterMap_nil, List.append_nil] at hlabels
  generalize hseen : hs.flatMap Handler.mentions = seen at hlabels
  have hmentions : m.mentions = seen ++ hd.start :: hd.stop :: hd.target ::
      (rest.flatMap Handler.mentions ++ m.code.filterMap Instruction.mention?) := by
    simp [Method.mentions, hm, Handler.mentions, hseen]
  -- the three labels are named one after the other
  have hstart := label_withSeen om hmentions
  have hstop := label_withSeen om (hmentions.trans (List.append_cons ..))
  have htarget := label_withSeen om
    (hmentions.trans ((List.append_cons ..).trans (List.append_cons ..)))
  have hadd : om.addHandler hd.start.name hd.stop.name hd.target.name hd.kind =
      { om.withSeen (seen ++ [hd.start] ++ [hd.stop] ++ [hd.target]) with
        handlers := hd.relabel (Label.number m.mentions) :: om.handlers } := by
    conv_lhs => rw [← withSeen_eq_self hlabels, OpenMethod.addHandler, hstart]
    dsimp only
    rw [hstop]
    dsimp only
    rw [htarget]
    rfl
  rw [hadd]
  exact {
    name := h.name
    isStatic := h.isStatic
    params := h.params
    maxLocals := h.maxLocals
    handlers := by simp [h.handlers]
    code := h.code
    labels := by simp [withSeen, hseen, Handler.mentions] }

/-- The next instruction is read. -/
theorem Holds.take (h : om.Holds m m.handlers is) {i : Instruction} {rest : List Instruction}
    (hm : m.code = is ++ i :: rest) (d : List ClassFile) (c : OpenClass) :
    ∃ om' : OpenMethod, om'.Holds m m.handlers (is ++ [i]) ∧ ∀ line,
      State.take ⟨d, .inMethod c om, line⟩ (statement i) = .ok ⟨d, .inMethod c om', line⟩ := by
  have hlabels := h.labels
  generalize hseen : m.handlers.flatMap Handler.mentions ++ is.filterMap Instruction.mention? = seen
    at hlabels
  -- whichever label was defined last, the method behind the statement is the one held
  have holds (last : Option Label) : ({ om.withSeen (seen ++ i.mention?.toList) with
      code := i.relabel (Label.number m.mentions) :: om.code
      lastLabel := last } : OpenMethod).Holds m m.handlers (is ++ [i]) := {
    name := h.name
    isStatic := h.isStatic
    params := h.params
    maxLocals := h.maxLocals
    handlers := h.handlers
    code := by simp [h.code]
    labels := by
      rw [withSeen, ← hseen, List.append_assoc, List.filterMap_append]
      cases hi : i.mention? <;> simp [hi] }
  cases hi : i.mention? with
  | none =>
    have hplain : statement i = .line (.plain i) ∧ i.relabel (Label.number m.mentions) = i := by
      cases i <;> first | exact ⟨rfl, rfl⟩ | cases hi
    have hpush := holds om.lastLabel
    rw [hi, Option.toList_none, List.append_nil, withSeen_eq_self hlabels, hplain.2] at hpush
    refine ⟨om.push i, hpush, fun line => ?_⟩
    rw [hplain.1]
    rfl
  | some l =>
    have hmentions : m.mentions = seen ++ l :: rest.filterMap Instruction.mention? := by
      simp [← hseen, Method.mentions, hm, hi]
    have hlabel := label_withSeen om hmentions
    rw [withSeen_eq_self hlabels] at hlabel
    rw [hi] at holds
    -- a statement that names a label is pushed with the number of that label
    have naming (j : Label → Instruction) : om.pushNaming l.name j =
        { om.withSeen (seen ++ [l]) with code := j (l.number m.mentions) :: om.code } := by
      rw [pushNaming, hlabel]
      rfl
    have inMethod {om' om'' : OpenMethod} (line : Nat) (heq : om' = om'') :
        (.ok ⟨d, .inMethod c om', line⟩ : Except Cause State) = .ok ⟨d, .inMethod c om'', line⟩ := by
      rw [heq]
    cases i with
    | label l' =>
      cases hi
      refine ⟨_, holds (some (l.number m.mentions)), fun line => inMethod line ?_⟩
      rw [defineLabel, hlabel]
      rfl
    | lineNumber n l' =>
      cases hi
      exact ⟨_, holds om.lastLabel, fun line => inMethod line (naming (.lineNumber n))⟩
    | jump l' =>
      cases hi
      exact ⟨_, holds om.lastLabel, fun line => inMethod line (naming .jump)⟩
    | jumpIf l' =>
      cases hi
      exact ⟨_, holds om.lastLabel, fun line => inMethod line (naming .jumpIf)⟩
    | jumpIfNot l' =>
      cases hi
      exact ⟨_, holds om.lastLabel, fun line => inMethod line (naming .jumpIfNot)⟩
    | _ => cases hi

end OpenMethod

/-! ### Lines read one after the other -/

/-- The lines are writable, and reading them takes the assembler from the classes and the place `a` to the
classes and the place `b`. -/
structure Leads (ls : List TokenLine) (a b : List ClassFile × Place) : Prop where
  writable : ∀ l ∈ ls, ∀ t ∈ l.tokens, t.Writable
  takes : ∀ line n, ∃ line', State.takeLines ⟨a.1, a.2, line⟩ n (ls.map TokenLine.chars) =
    .ok ⟨b.1, b.2, line'⟩

variable {ls ks : List TokenLine} {a b e : List ClassFile × Place}

theorem leads_nil (a : List ClassFile × Place) : Leads [] a a :=
  ⟨by simp, fun line _ => ⟨line, rfl⟩⟩

theorem Leads.append (h : Leads ls a b) (h' : Leads ks b e) : Leads (ls ++ ks) a e := by
  refine ⟨fun l hl => (List.mem_append.1 hl).elim (h.writable l) (h'.writable l), ?_⟩
  intro line n
  obtain ⟨line₁, h₁⟩ := h.takes line n
  obtain ⟨line₂, h₂⟩ := h'.takes line₁ (n + (ls.map TokenLine.chars).length)
  exact ⟨line₂, by rw [List.map_append, State.takeLines_append h₁, h₂]⟩

theorem leads_statement {l : TokenLine} {s : Statement} (hl : ∀ t ∈ l.tokens, t.Writable)
    (hs : Statement.ofTokens? l.tokens = .ok (some s))
    (htake : ∀ line, State.take ⟨a.1, a.2, line⟩ s = .ok ⟨b.1, b.2, line⟩) : Leads [l] a b := by
  refine ⟨by simpa using hl, fun line n => ⟨n, ?_⟩⟩
  have hline : Statement.ofLine? l.chars = .ok (some s) := by
    rw [Statement.ofLine?, Token.ofLine_chars hl]
    exact hs
  simp only [List.map_cons, List.map_nil, State.takeLines, State.takeLine, hline, htake]

theorem leads_blank (a : List ClassFile × Place) : Leads [⟨false, []⟩] a a :=
  ⟨by simp, fun line _ => ⟨line, rfl⟩⟩

/-! ### Methods -/

variable {d : List ClassFile} {c : OpenClass} {m : Method}

theorem leads_handlers {om : OpenMethod} {hs rest : List Handler} (hm : m.Legible)
    (h : om.Holds m hs []) (hrest : m.handlers = hs ++ rest) : ∃ om' : OpenMethod,
      om'.Holds m m.handlers [] ∧
      Leads (rest.map handlerLine) (d, .inMethod c om) (d, .inMethod c om') := by
  induction rest generalizing om hs with
  | nil =>
    rw [List.append_nil] at hrest
    exact ⟨om, hrest ▸ h, leads_nil _⟩
  | cons hd rest ih =>
    obtain ⟨om', hom', hleads⟩ := ih (h.addHandler hrest) (hrest.trans (List.append_cons ..))
    have hkind := hm.handlers hd (hrest ▸ by simp)
    exact ⟨om', hom', (leads_statement (writable_handlerLine hkind) (ofTokens?_handlerLine hd)
      fun line => rfl).append hleads⟩

theorem leads_code {om : OpenMethod} {is rest : List Instruction} (hm : m.Legible)
    (h : om.Holds m m.handlers is) (hrest : m.code = is ++ rest) : ∃ om' : OpenMethod,
      om'.Holds m m.handlers m.code ∧
      Leads (rest.map instructionLine) (d, .inMethod c om) (d, .inMethod c om') := by
  induction rest generalizing om is with
  | nil =>
    rw [List.append_nil] at hrest
    exact ⟨om, hrest ▸ h, leads_nil _⟩
  | cons i rest ih =>
    obtain ⟨om₁, hom₁, htake⟩ := h.take hrest d c
    obtain ⟨om', hom', hleads⟩ := ih hom₁ (hrest.trans (List.append_cons ..))
    have hi := hm.code i (hrest ▸ by simp)
    exact ⟨om', hom', (leads_statement (writable_instructionTokens hi)
      (ofTokens?_instructionTokens hi) htake).append hleads⟩

/-- **A method is read from its lines**, up to the numbers of its labels. -/
theorem leads_methodLines (hm : m.Legible) : Leads (methodLines m) (d, .inClass c)
    (d, .inClass { c with methods := m.renumbered :: c.methods }) := by
  let opened := OpenMethod.start m.name m.isStatic m.params
  let operands := (if m.isStatic then [.word "static"] else []) ++ .word m.name :: m.params.map Token.word
  have hstart : Leads [⟨false, .word ".method" :: operands⟩] (d, .inClass c)
      (d, .inMethod c opened) := by
    -- the directive is written as it is read back
    have hwritable : ∀ t ∈ Token.word ".method" :: operands, t.Writable := by
      have hstatic : IsWord "static" := by decide
      have hdirective : IsWord ".method" := by decide
      have hname := hm.name
      have hparams := hm.params
      by_cases hs : m.isStatic <;> simpa [operands, hs, hstatic, hdirective, hname] using hparams
    have hoperands : OpenMethod.ofOperands operands = .ok opened := by
      have hnot := hm.not_static
      cases hs : m.isStatic <;>
        simp_all [operands, opened, OpenMethod.ofOperands, Function.comp_def, Token.text]
    refine leads_statement hwritable (s := .startMethod operands) rfl fun line => ?_
    show (OpenMethod.ofOperands operands).map _ = _
    rw [hoperands]
    rfl
  have hlocals : Leads [⟨false, [.word ".locals", natToken m.maxLocals.toNat]⟩]
      (d, .inMethod c opened) (d, .inMethod c { opened with maxLocals := m.maxLocals }) := by
    have hnumber := number_natToken (Text.uint16?_toString m.maxLocals) []
    refine leads_statement (by simp +decide) (s := .locals m.maxLocals) ?_ fun line => rfl
    show ((number Text.uint16? [natToken m.maxLocals.toNat] 0).map Statement.locals).map some = _
    rw [hnumber]
    rfl
  have hholds : ({ opened with maxLocals := m.maxLocals } : OpenMethod).Holds m [] [] :=
    ⟨rfl, rfl, rfl, rfl, rfl, rfl, rfl⟩
  obtain ⟨om, hom, hhandlers⟩ := leads_handlers (d := d) (c := c) hm hholds rfl
  obtain ⟨om', hom', hcode⟩ := leads_code (d := d) (c := c) hm hom rfl
  have hend : Leads [⟨false, [.word ".end"]⟩] (d, .inMethod c om')
      (d, .inClass { c with methods := m.renumbered :: c.methods }) :=
    leads_statement (by simp +decide) rfl fun line => by rw [← hom'.toMethod]; rfl
  exact (leads_blank _).append (hstart.append (hlocals.append ((hhandlers.append hcode).append hend)))

theorem leads_methods {ms : List Method} (hms : ∀ m ∈ ms, m.Legible) :
    Leads (ms.flatMap methodLines) (d, .inClass c)
      (d, .inClass { c with methods := (ms.map Method.renumbered).reverse ++ c.methods }) := by
  induction ms generalizing c with
  | nil => exact leads_nil _
  | cons m ms ih =>
    have hrest := ih (c := { c with methods := m.renumbered :: c.methods })
      fun m hm => hms m (.tail _ hm)
    have hall := (leads_methodLines (hms m (by simp))).append hrest
    simpa using hall

/-! ### Classes -/

/-- Between classes: the classes read so far, latest first, whether or not the last one is still open. -/
def Between (a : List ClassFile × Place) (done : List ClassFile) : Prop :=
  (∀ c m, a.2 ≠ .inMethod c m) ∧ State.allClasses ⟨a.1, a.2, 0⟩ = done

/-- **A class is read from its lines**, up to the numbers of the labels of its methods. -/
theorem leads_classLines {cf : ClassFile} (hcf : cf.Legible) {done : List ClassFile}
    (ha : Between a done) : ∃ b, Between b (cf.renumbered :: done) ∧ Leads (classLines cf) a b := by
  have hclass : Leads [⟨false, [.word ".class", .word cf.name]⟩] a
      (done, .inClass ⟨cf.name, none, []⟩) := by
    have hname := hcf.name
    refine leads_statement (by simp +decide [hname]) (s := .startClass [.word cf.name]) rfl ?_
    obtain ⟨d, p⟩ := a
    obtain ⟨hplace, rfl⟩ := ha
    intro line
    cases p with
    | inMethod c m => exact absurd rfl (hplace c m)
    | _ => rfl
  have hsource : Leads (cf.sourceFile.map fun s =>
      (⟨false, [.word ".source", .word s]⟩ : TokenLine)).toList
      (done, .inClass ⟨cf.name, none, []⟩) (done, .inClass ⟨cf.name, cf.sourceFile, []⟩) := by
    have hword := hcf.sourceFile
    cases hs : cf.sourceFile with
    | none => exact leads_nil _
    | some s =>
      rw [hs] at hword
      have hword : IsWord s := hword s rfl
      exact leads_statement (by simp +decide [hword]) (s := .source s) rfl fun line => rfl
  have hmethods := leads_methods (d := done) (c := ⟨cf.name, cf.sourceFile, []⟩) hcf.methods
  refine ⟨_, ⟨?_, ?_⟩, hclass.append (hsource.append hmethods)⟩
  · rintro c m ⟨⟩
  · simp [State.allClasses, OpenClass.toClassFile, ClassFile.renumbered]

theorem leads_classes {cs : List ClassFile} (hcs : ∀ c ∈ cs, c.Legible) {done : List ClassFile}
    (ha : Between a done) : ∃ b, Between b ((cs.map ClassFile.renumbered).reverse ++ done) ∧
      Leads (cs.flatMap classLines) a b := by
  induction cs generalizing a done with
  | nil => exact ⟨a, ha, leads_nil a⟩
  | cons cf cs ih =>
    obtain ⟨b, hb, hclass⟩ := leads_classLines (hcs cf (by simp)) ha
    obtain ⟨e, he, hrest⟩ := ih (fun c hc => hcs c (.tail _ hc)) hb
    exact ⟨e, by simpa using he, hclass.append hrest⟩

theorem toList_disassemblies (cs : List ClassFile) :
    (String.join (cs.map disassemble)).toList = (linesText (cs.flatMap classLines)).toList := by
  rw [toList_linesText, String.toList_join]
  simp [disassemble, toList_linesText, List.flatMap_assoc, List.flatMap_map]

/-- **The texts of legible classes assemble to these classes**, with the labels of each method numbered in the
order in which they are first mentioned. -/
theorem assemble_disassemblies {cs : List ClassFile} (hcs : ∀ c ∈ cs, c.Legible) :
    assemble (String.join (cs.map disassemble)) = .ok (cs.map ClassFile.renumbered) := by
  have hstart : Between ([], .outside) [] := ⟨by rintro c m ⟨⟩, rfl⟩
  obtain ⟨⟨done, place⟩, ⟨hplace, hdone⟩, hleads⟩ := leads_classes hcs hstart
  obtain ⟨line, htakes⟩ := hleads.takes 0 1
  have hlines : State.initial.takeLines 1
      (Text.lines (String.join (cs.map disassemble)).toList) = .ok ⟨done, place, line⟩ := by
    rw [toList_disassemblies, lines_linesText hleads.writable]
    exact htakes
  rw [assemble, hlines]
  show State.finish _ = _
  cases place with
  | inMethod c m => exact absurd rfl (hplace c m)
  | _ =>
    rw [List.append_nil] at hdone
    exact (congrArg (fun l => Except.ok l.reverse) hdone).trans (by rw [List.reverse_reverse])

end Assembly

/-! ### Assembling what was disassembled -/

theorem Method.Legible.relabel {m : Method} (h : m.Legible) (ρ : Label → Label) : (m.relabel ρ).Legible where
  name := h.name
  not_static := h.not_static
  params := h.params
  code := by
    intro i hi
    obtain ⟨i, hmem, rfl⟩ := List.mem_map.1 hi
    have hlegible := h.code i hmem
    cases i <;> exact hlegible
  handlers := by
    intro hd hhd
    obtain ⟨hd, hmem, rfl⟩ := List.mem_map.1 hhd
    exact h.handlers hd hmem

theorem ClassFile.Legible.renumbered {c : ClassFile} (h : c.Legible) : c.renumbered.Legible where
  name := h.name
  sourceFile := h.sourceFile
  methods := by
    intro m hm
    obtain ⟨m, hmem, rfl⟩ := List.mem_map.1 hm
    exact (h.methods m hmem).relabel _

namespace Assembly

/-- **The assembler inverts disassembly**: the texts of legible classes assemble to the same classes in the same
order, up to an injective renaming of the labels of each method. The classes are the very same iff the labels of
every method are 0, 1, 2, … as they are first mentioned, the handlers before the code; so nothing changes when it
is done again. -/
theorem assemble_disassemble {cs : List ClassFile} (hcs : ∀ c ∈ cs, c.Legible) :
    ∃ cs', assemble (String.join (cs.map disassemble)) = .ok cs' ∧
      List.Forall₂ ClassFile.Relabels cs cs' ∧
      (cs' = cs ↔ ∀ c ∈ cs, ∀ m ∈ c.methods, m.Numbered) ∧
      assemble (String.join (cs'.map disassemble)) = .ok cs' := by
  have hagain : ∀ c ∈ cs.map ClassFile.renumbered, c.Legible := by
    intro c hc
    obtain ⟨c, hmem, rfl⟩ := List.mem_map.1 hc
    exact (hcs c hmem).renumbered
  refine ⟨cs.map ClassFile.renumbered, assemble_disassemblies hcs, ?_, ?_, ?_⟩
  · -- the same up to the names of labels
    exact List.forall₂_map_right_iff.2 (List.forall₂_same.2 fun c _ => c.relabels_renumbered)
  · -- exactly the same where the labels were numbered
    have hself : cs.map ClassFile.renumbered = cs ↔
        cs.map ClassFile.renumbered = cs.map id := by rw [List.map_id]
    rw [hself, List.map_inj_left]
    exact forall₂_congr fun c _ => ClassFile.renumbered_eq_self_iff
  · -- a second pass changes nothing
    rw [assemble_disassemblies hagain, List.map_map]
    exact congrArg Except.ok (List.map_congr_left fun c _ => c.renumbered_renumbered)

/-- A class whose labels are not numbered as they come, and whose text needs quotes. -/
def strayLabels : ClassFile :=
  ⟨"Main", some "Main.java", [⟨"main", true, [], 0,
    [.label ⟨9⟩, .push (.text "say \"hi\"; \n bye"), .host .println, .label ⟨4⟩, .ret],
    [⟨⟨9⟩, ⟨4⟩, ⟨4⟩, some "IOException"⟩]⟩]⟩

/-- Of stray labels only the numbers are lost. -/
theorem assemble_disassemble_strayLabels : (∀ c ∈ [strayLabels], c.Legible) ∧
    ∃ cs', assemble (String.join ([strayLabels].map disassemble)) = .ok cs' ∧
      List.Forall₂ ClassFile.Relabels [strayLabels] cs' ∧ cs' ≠ [strayLabels] := by
  have hlegible : ∀ c ∈ [strayLabels], c.Legible := by
    simp only [List.mem_singleton, forall_eq]
    refine ⟨by decide, by simp +decide, ?_⟩
    simp only [strayLabels, List.mem_singleton, forall_eq]
    exact ⟨by decide, nofun, by simp, by simp [Instruction.Legible], by simp +decide⟩
  obtain ⟨cs', hok, hrelabels, hsame, -⟩ := assemble_disassemble hlegible
  refine ⟨hlegible, cs', hok, hrelabels, fun h => ?_⟩
  have hnumbered := hsame.1 h strayLabels (by simp)
  exact absurd hnumbered (by decide)

end Assembly

end Confine
