import Confine.Digest.Sha256
import Confine.Program.Codec

/-!
Compiled programs: the bytes of every class, by name, and a digest of the source they come from.
-/

namespace Confine

/-- A list of named things with the entry for a name put in place; names are in increasing
order. -/
def putNamed {α : Type} (name : String) (a : α) : List (String × α) → List (String × α)
  | [] => [(name, a)]
  | e :: rest =>
    if name < e.1 then (name, a) :: e :: rest
    else if name == e.1 then (name, a) :: rest
    else e :: putNamed name a rest

/-- The thing of a name. -/
def getNamed? {α : Type} (name : String) (l : List (String × α)) : Option α :=
  (l.find? (·.1 == name)).map (·.2)

/-- A compiled program. -/
structure Compiled where
  /-- the bytes of the classes, in the order of their names -/
  classes : List (String × ByteArray)
  /-- the digest of the source text, in hexadecimal -/
  digest : String
  deriving Inhabited

namespace Compiled

/-- A program of class bytes. -/
def ofBytes (classes : List (String × ByteArray)) (source : String) : Compiled :=
  ⟨classes.foldl (fun l c => putNamed c.1 c.2 l) [], Digest.Sha256.hashText source⟩

/-- A program of class files. Of two classes with one name the later one stays. -/
def ofClasses (classes : List ClassFile) (source : String) : Compiled :=
  ofBytes (classes.map fun c => (c.name, c.encode.toUTF8)) source

/-- The bytes of a class. -/
def bytes? (p : Compiled) (name : String) : Option ByteArray := getNamed? name p.classes

end Compiled

end Confine
