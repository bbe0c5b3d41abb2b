import Confine.Command.Run
import Confine.Host.World
import Confine.Proofs.Host.FileTree
import Confine.Proofs.Loading.Built
import Confine.Proofs.Program.Codec

/-!
# Lists of class files that commands write and read

* `Command.classesOf_classListText` — the text of a list of class files is read as the same list;
* `Command.readInput_assemble` — a list that was written to a file of a host is found in that file;
* `Command.classFiles_roundTrip` — **class files survive being written**: as bytes, as what a unit hands out of its
  classes, and as a list in a file.
-/

namespace Confine

theorem LoadingUnit.Built.decodeBytes?_file {u : LoadingUnit} (h : u.Built) {l : Layer}
    (hl : l ∈ u.layers) {name file : String} (hfile : l.file? name = some file) :
    ∃ c, ClassFile.decodeBytes? file.toUTF8 = some c ∧ l.class? name = some (.ofClassFile c) := by
  obtain ⟨d, hd, rfl⟩ := Option.map_eq_some_iff.1 hfile
  obtain ⟨_, _, _, _, _, c, -, rfl⟩ := h.made l hl _ (getNamed?_mem hd)
  refine ⟨c, ClassFile.decodeBytes?_encode c, ?_⟩
  rw [Layer.class?, hd, Option.map_some]
  rfl

namespace Command

open LoadingUnit (build)

theorem classesOf_classListText {path : String} (hpath : isClassList path = true)
    (classes : List ClassFile) :
    classesOf path (classListText classes) = .ok classes ∧
      classesOf path (classListText classes ++ "\n") = .ok classes := by
  obtain ⟨hplain, hended⟩ := classList?_classListText classes
  simp [classesOf, hpath, hplain, hended]

theorem Finish.failed_ne_ok (f : Failure) (s : String) : Finish.failed f ≠ .ok s := by
  intro h
  have htext : f.text = "" := congrArg Finish.stderr h
  simp [Failure.text] at htext

/-- The classes that a command reads from a file of a world. -/
def classesOfFile (w : World) (path : String) : Except Failure (List ClassFile) :=
  ((readInput World.host path).run w).1 >>= classesOf path

theorem run_readInput (w : World) (path : String) :
    (readInput World.host path).run w =
      ((w.files.read w.workDir path).mapError fun fault =>
        .because ("failed to read " ++ path) fault.message, w) := by
  have hanswer : (World.host.readFile path).run w =
      ((w.files.read w.workDir path).mapError FileFault.message, w) := rfl
  rw [readInput, StateT.run_bind, hanswer]
  cases w.files.read w.workDir path <;> rfl

theorem run_writeFile (w : World) (path text : String) :
    (World.host.writeFile path text).run w =
      match w.files.write w.workDir path text with
      | .ok files => (.ok (), { w with files := files })
      | .error fault => (.error fault.message, w) := by
  show w.answer (.writeFile path text) = _
  cases h : w.files.write w.workDir path text <;> simp only [World.answer, h] <;> rfl

/-- What the command does is decided by the classes of its input, and by the file it is to write. -/
theorem run_assemble (w : World) (input output : String) :
    (assemble World.host input (some output)).run w =
      match classesOfFile w input with
      | .error f => (.failed f, w)
      | .ok classes =>
        match w.files.write w.workDir output (classListText classes) with
        | .ok files => (.ok "", { w with files := files })
        | .error fault =>
          (.failed (.because ("failed to write " ++ output) fault.message), w) := by
  have hread := run_readInput w input
  rw [assemble, StateT.run_bind, classesOfFile, hread]
  show StateT.run _ w = _
  cases (w.files.read w.workDir input).mapError (fun fault =>
      Failure.because ("failed to read " ++ input) fault.message) >>= classesOf input with
  | error f => rfl
  | ok classes =>
    dsimp only
    rw [StateT.run_bind, run_writeFile]
    cases w.files.write w.workDir output (classListText classes) <;> rfl

/-- **A list that was written to a file is found in that file.** -/
theorem readInput_assemble {w w' : World} {input output : String}
    (h : (assemble World.host input (some output)).run w = (.ok "", w')) :
    ∃ classes, classesOfFile w input = .ok classes ∧
      ((readInput World.host output).run w').1 = .ok (classListText classes) := by
  rw [run_assemble] at h
  obtain ⟨hfinish, hworld⟩ := And.intro (congrArg Prod.fst h) (congrArg Prod.snd h)
  cases hc : classesOfFile w input with
  | error f =>
    rw [hc] at hfinish
    exact absurd hfinish (Finish.failed_ne_ok f "")
  | ok classes =>
    rw [hc] at hfinish hworld
    dsimp only at hfinish hworld
    cases hw : w.files.write w.workDir output (classListText classes) with
    | error fault =>
      rw [hw] at hfinish
      exact absurd hfinish (Finish.failed_ne_ok _ "")
    | ok files =>
      rw [hw] at hworld
      subst hworld
      refine ⟨classes, rfl, ?_⟩
      rw [run_readInput, FileTree.read_write hw]
      rfl

/-- **Class files survive being written.** A class file is read from its bytes, so no two have the same
bytes, and what a unit hands out of a class says how the class runs. A list of class files is read from
its text, and from the file that a command has written it to. -/
theorem classFiles_roundTrip :
    (∀ c : ClassFile, ClassFile.decodeBytes? c.encode.toUTF8 = some c) ∧
      (Function.Injective fun c : ClassFile => c.encode.toUTF8) ∧
      (∀ u : LoadingUnit, u.Built → ∀ l ∈ u.layers, ∀ name file, l.file? name = some file →
        ∃ c, ClassFile.decodeBytes? file.toUTF8 = some c ∧
          l.class? name = some (.ofClassFile c)) ∧
      (∀ path, isClassList path = true → ∀ classes,
        classesOf path (classListText classes) = .ok classes ∧
          classesOf path (classListText classes ++ "\n") = .ok classes) ∧
      ∀ w w' input output, isClassList output = true →
        (assemble World.host input (some output)).run w = (.ok "", w') →
          ∃ classes, classesOfFile w input = .ok classes ∧
            classesOfFile w' output = .ok classes := by
  refine ⟨ClassFile.decodeBytes?_encode, fun c d h => ?_, fun u hu l hl name file hfile => ?_,
    fun path hpath classes => classesOf_classListText hpath classes,
    fun w w' input output houtput h => ?_⟩
  · -- no two classes are written alike
    have hd := ClassFile.decodeBytes?_encode d
    rw [← show c.encode.toUTF8 = d.encode.toUTF8 from h, ClassFile.decodeBytes?_encode] at hd
    exact Option.some.inj hd
  · -- a built unit hands out what it has decoded
    exact hu.decodeBytes?_file hl hfile
  · -- the list written is the list read back
    obtain ⟨classes, hclasses, hread⟩ := readInput_assemble h
    refine ⟨classes, hclasses, ?_⟩
    rw [classesOfFile, hread]
    exact (classesOf_classListText houtput classes).1

/-- A world with the text of a program, whose class holds a text with quotes, a backslash, a control
character and a letter beyond ASCII, and a handler. -/
def programWorld : World :=
  World.fresh.withFile "main.asm"
    (".class Main\n.method static main\n.catch L0 L1 L1 Oops\nL0:\npush \"\\\"\\\\\\t\u00e9\"\n" ++
      "println\nL1:\nframe 1\npop\nreturn\n.end\n")

/-- The class of that program is found in the file that the command writes. -/
theorem classFiles_roundTrip_sample :
    Sample.unit.Built ∧ isClassList "main.json" = true ∧
      ((assemble World.host "main.asm" (some "main.json")).run programWorld).1 = .ok "" ∧
      (∃ c, ClassFile.decodeBytes? Sample.main.encode.toUTF8 = some c ∧
        Sample.unit.own.class? "Main" = some (.ofClassFile c)) ∧
      ∃ classes, classesOfFile programWorld "main.asm" = .ok classes ∧
        classesOfFile ((assemble World.host "main.asm" (some "main.json")).run programWorld).2
          "main.json" = .ok classes := by
  obtain ⟨-, -, hunit, -, hfile⟩ := classFiles_roundTrip
  have hfinish : ((assemble World.host "main.asm" (some "main.json")).run programWorld).1 = .ok "" := by
    decide +kernel
  have hlist : isClassList "main.json" = true := by decide +kernel
  refine ⟨Sample.built_unit, hlist, hfinish, ?_, ?_⟩
  · exact hunit Sample.unit Sample.built_unit Sample.unit.own (by simp [LoadingUnit.layers]) "Main" _ rfl
  · refine hfile programWorld _ _ _ hlist ?_
    rw [← hfinish]
    exact (Prod.eta _).symm

end Command

end Confine
