import Confine.Json.Reader
import Confine.Path

/-!
Permissions: what confined code can ask for. The content of a permission is the file or the name
that it is about.
-/

namespace Confine

open Json (Doc)
open Json.Doc (Slot)

/-- An operation that confined code can ask for. -/
inductive Permission where
  | readFile (path : Path)
  /-- a directory covers all that lies beneath it -/
  | writeFile (path : Path)
  /-- an environment variable; a star stands for all -/
  | readEnv (name : String)
  /-- a property of the runtime; a star stands for all -/
  | readProperty (name : String)
  | createThread
  | loadClass (name : String)
  /-- ends the process of the host -/
  | exit
  /-- replaces the standard streams of the host -/
  | setStreams
  deriving DecidableEq, Repr, Inhabited

namespace Permission

/-- Two permissions are the same if they are of one kind and about the same file or name. -/
def same : Permission → Permission → Bool
  | readFile p, readFile q => p.same q
  | writeFile p, writeFile q => p.same q
  | a, b => a = b

@[simp] theorem same_refl (p : Permission) : p.same p := by
  cases p <;> simp [same]

theorem same_comm (p q : Permission) : p.same q = q.same p := by
  cases p <;> cases q <;> simp [same, Path.same_comm, eq_comm]

/-- Nobody may be granted the permission. -/
def isForbidden : Permission → Bool
  | exit | setStreams => true
  | _ => false

/-- The permission in words. -/
def text : Permission → String
  | readFile p => "read file " ++ p.text
  | writeFile p => "write file " ++ p.text
  | readEnv n => "read environment variable " ++ n
  | readProperty n => "read property " ++ n
  | createThread => "create thread"
  | loadClass n => "load class " ++ n
  | exit => "exit"
  | setStreams => "set io"

/-! ### JSON -/

/-- A permission is an object with its kind and, where there is one, its target. -/
def toJson (p : Permission) : Json :=
  let tagged (kind target : String) : Json := .obj [("kind", .str kind), ("target", .str target)]
  match p with
  | readFile p => tagged "read_file" p.text
  | writeFile p => tagged "write_file" p.text
  | readEnv n => tagged "env_var" n
  | readProperty n => tagged "read_property" n
  | createThread => .obj [("kind", .str "create_thread")]
  | loadClass n => tagged "load_class" n
  | exit => .obj [("kind", .str "exit")]
  | setStreams => .obj [("kind", .str "set_io")]

/-- The permission of a kind and a target. A kind without target may have the target `null`. -/
def ofKind? (kind : String) (target : Option Doc) : Option Permission :=
  let named (f : String → Permission) : Option Permission := (Doc.content Doc.str? target).map f
  match kind with
  | "read_file" => named fun s => readFile ⟨s⟩
  | "write_file" => named fun s => writeFile ⟨s⟩
  | "env_var" => named readEnv
  | "read_property" => named readProperty
  | "create_thread" => Doc.noContent createThread target
  | "load_class" => named loadClass
  | "exit" => Doc.noContent exit target
  | "set_io" => Doc.noContent setStreams target
  | _ => none

/-- The value of a slot, if something is given. -/
def given? : Slot → Option Doc
  | .given d => some d
  | _ => none

/-- Reads a permission, from an object or from an array of kind and target. -/
def ofDoc? (d : Doc) : Option Permission := do
  match ← d.record? ["kind", "target"] with
  | [kind, target] =>
    match target with
    | .exhausted => none
    | _ => do
      let name ← kind.required Doc.name?
      ofKind? name (given? target)
  | _ => none

end Permission

/-- What has been decided about a permission that somebody asked for. -/
structure Decision where
  permission : Permission
  granted : Bool
  deriving DecidableEq, Repr, Inhabited

namespace Decision

def toJson (d : Decision) : Json :=
  .obj [("permission", d.permission.toJson), ("granted", .bool d.granted)]

def ofDoc? (d : Doc) : Option Decision := do
  match ← d.record? ["permission", "granted"] with
  | [p, g] => some ⟨← p.required Permission.ofDoc?, ← g.required Doc.bool?⟩
  | _ => none

end Decision

end Confine
