import Mathlib.Algebra.Ring.Nat
import Mathlib.Data.List.AList

/-!
# Wayland Messages

The messages of the decoration proxy's two connections (`decorations/wire.rs`), and
the message tables of the Wayland interfaces. The tables are generated from the
protocols, which are not part of the repository, so they are a parameter here.
-/

namespace Psbox.Decorations

/-! ## Section 1: Objects and Arguments -/

/-- An object on the bridge's connection; 0 is no object. -/
abbrev Id := Nat

/-- An object on the compositor's connection. -/
abbrev ObjectId := Nat

/-- Ids from here up are created by the server side. -/
def serverIdStart : Id := 0xff000000

/-- An argument, with the objects of one connection. A descriptor is a number of its
own. -/
inductive Arg (ρ : Type) where
  | int (v : Int)
  | uint (v : Nat)
  | fixed (v : Int)
  | str (s : Option String)
  | object (id : ρ)
  | newId (id : ρ)
  | array (bytes : List UInt8)
  | fd (n : Nat)
  deriving DecidableEq, Repr

/-- Arguments on the bridge's connection. -/
abbrev BridgeArg := Arg Id

/-- Arguments on the compositor's connection; `none` is the null object. -/
abbrev UpstreamArg := Arg (Option ObjectId)

/-- The source's `int`: an integer argument, 0 when there is none. -/
def int (args : List BridgeArg) (i : Nat) : Int :=
  match args[i]? with
  | some (.int v) => v
  | _ => 0

/-- The source's `uint`. -/
def uint (args : List BridgeArg) (i : Nat) : Nat :=
  match args[i]? with
  | some (.uint v) | some (.object v) | some (.newId v) => v
  | _ => 0

/-! ## Section 2: Tables -/

inductive ArgType where
  | int
  | uint
  | fixed
  | str (nullable : Bool)
  | object (nullable : Bool)
  | newId
  | array
  | fd
  deriving DecidableEq, Repr

/-- A request or an event of an interface. -/
structure MessageDesc where
  name : String
  since : Nat := 1
  isDestructor : Bool := false
  signature : List ArgType := []
  /-- The interface of the object it creates, when that is fixed. -/
  childInterface : Option String := none
  /-- The interfaces of its object arguments. -/
  argInterfaces : List String := []
  deriving DecidableEq, Repr

structure Interface where
  name : String
  version : Nat := 1
  requests : List MessageDesc := []
  events : List MessageDesc := []
  deriving DecidableEq, Repr

/-- Whether `wire::parse` reads an argument of this type so. -/
def Arg.hasType : BridgeArg → ArgType → Bool
  | .int _, .int | .uint _, .uint | .fixed _, .fixed | .array _, .array | .fd _, .fd => true
  | .object _, .object _ | .newId _, .newId => true
  | .str s, .str nullable => s.isSome || nullable
  | _, _ => false

/-- Whether `wire::parse` reads the arguments of such a message so. -/
def wellTyped : List BridgeArg → List ArgType → Bool
  | [], [] => true
  | a :: as, t :: ts => a.hasType t && wellTyped as ts
  | _, _ => false

/-- A request of the bridge. -/
structure Request where
  sender : Id
  opcode : Nat
  args : List BridgeArg
  deriving DecidableEq, Repr

/-! ## Section 3: Numbers -/

/-- An `i32` for a number that may be out of range, as near as it gets. -/
def saturate (v : Int) : Int :=
  max (-2147483648) (min v 2147483647)

end Psbox.Decorations
