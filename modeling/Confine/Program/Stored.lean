import Confine.Program.Compiled
import Confine.Uuid

/-!
Compiled programs as they are stored: a JSON record with an identifier, the bytes of the classes
as numbers, and the digest of the source.
-/

namespace Confine

open Json (Doc)

/-- A compiled program with an identifier of its own. -/
structure StoredProgram where
  id : Uuid
  program : Compiled
  deriving Inhabited

namespace StoredProgram

def toJson (p : StoredProgram) : Json :=
  .obj [("id", .str p.id.text),
    ("classes", .obj (p.program.classes.map fun c =>
      (c.1, .ofList (fun b : UInt8 => .nat b.toNat) c.2.toList))),
    ("source_digest", .str p.program.digest)]

/-- The bytes of a class: a list of numbers below 256. -/
def bytes? (d : Doc) : Option ByteArray :=
  (Doc.list? Doc.uint8? d).map fun l => ⟨l.toArray⟩

/-- The classes by name. Of two classes with one name the later one stays. -/
def classes? (d : Doc) : Option (List (String × ByteArray)) := do
  match d with
  | .obj fields => do
    let entries ← fields.mapM fun f => do some (← f.1, ← bytes? f.2)
    some (entries.foldl (fun l c => putNamed c.1 c.2 l) [])
  | _ => none

def ofDoc? (d : Doc) : Option StoredProgram := do
  match ← d.record? ["id", "classes", "source_digest"] with
  | [id, classes, digest] =>
    some ⟨← id.required fun d => d.str?.bind Uuid.ofText?,
      ⟨← classes.required classes?, ← digest.required Doc.str?⟩⟩
  | _ => none

end StoredProgram

end Confine
