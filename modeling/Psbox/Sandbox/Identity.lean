import Psbox.Foundations.Texts
import Psbox.Portal.Policy

/-!
# Identities

Which supervisor: an instance of a sandbox, a task, or an unnamed sandbox (`Identity`, `plan.rs`), and
the key that sockets, units and logs name it by. Sandbox names never hold a dot, and the name that the
keys of unnamed sandboxes begin with is reserved (`validate_sandbox_name`, `spec.rs`).
-/

namespace Psbox.Sandbox

open Psbox.Foundations
open Psbox.Portal (debugString)

/-- Which supervisor. -/
inductive Identity where
  /-- An instance of a sandbox: the default one, or one with a name. -/
  | instance_ (sandbox : String) (name : Option String)
  | task (sandbox name : String)
  /-- `id` is 16 hexadecimal digits. -/
  | unnamed (id : String)
  deriving DecidableEq, Repr

/-- `UNNAMED`, the sandbox name that unnamed sandboxes use for their key. -/
def unnamed : String := "sandbox"

def isAsciiHexdigit (c : Char) : Bool :=
  c.isDigit || ('a' ≤ c && c ≤ 'f') || ('A' ≤ c && c ≤ 'F')

/-- A letter, a digit, `_` or `-`. -/
def isWordChar (c : Char) : Bool :=
  c.isAlphanum || c == '_' || c == '-'

def validWord (s : String) : Bool :=
  !s.isEmpty && s.toList.all isWordChar

def validateSandboxName (name : String) : Except String Unit :=
  -- The name is the key of the default instance, so it must not look like another.
  if !validWord name || name.toList.head? == some '-' then
    .error ("invalid sandbox name " ++ debugString name ++ ": use letters, digits, '_', '-'")
  -- Reserved for unnamed sandboxes.
  else if name = unnamed then
    .error (debugString name ++ " is reserved for unnamed sandboxes")
  else .ok ()

namespace Identity

def sandbox : Identity → String
  | instance_ sandbox _ | task sandbox _ => sandbox
  | .unnamed _ => Sandbox.unnamed

def key : Identity → String
  | instance_ sandbox none => sandbox
  | instance_ sandbox (some i) => sandbox ++ ".instance-" ++ i
  | task sandbox name => sandbox ++ ".task-" ++ name
  | .unnamed id => Sandbox.unnamed ++ "." ++ id

/-- The name of an instance or of a task. -/
def validateExtra (kind v : String) : Except String Unit :=
  if !validWord v then .error ("invalid " ++ kind ++ " name " ++ debugString v ++ ": use letters, digits, '_', '-'")
  else .ok ()

/-- Validates the sandbox, instance and task names. -/
def validate : Identity → Except String Unit
  | instance_ sandbox none => validateSandboxName sandbox
  | instance_ sandbox (some i) => do
      validateSandboxName sandbox
      validateExtra "instance" i
  | task sandbox name => do
      validateSandboxName sandbox
      validateExtra "task" name
  | .unnamed id =>
      if id.utf8ByteSize ≠ 16 ∨ !id.toList.all (fun c => isAsciiHexdigit c && !c.isUpper) then
        .error ("invalid unnamed sandbox id " ++ debugString id)
      else .ok ()

/-- The identity that a key looks like. -/
def parseKey (key : String) : Except String Identity :=
  match breakAt '.' key.toList with
  | none => .ok (instance_ key none)
  | some (sandbox, rest) =>
      match rest.dropPrefix? "instance-".toList, rest.dropPrefix? "task-".toList with
      -- The prefix decides, whatever the name is.
      | some i, _ => .ok (instance_ (String.ofList sandbox) (some (String.ofList i)))
      | none, some t => .ok (task (String.ofList sandbox) (String.ofList t))
      | none, none =>
          -- Without either prefix it is an unnamed one.
          if String.ofList sandbox = Sandbox.unnamed then .ok (.unnamed (String.ofList rest))
          else .error ("invalid supervisor key " ++ debugString key)

/-- Parses a key made by `key`. -/
def fromKey (key : String) : Except String Identity := do
  let id ← parseKey key
  id.validate
  return id

end Identity

end Psbox.Sandbox
