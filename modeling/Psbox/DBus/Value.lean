import Mathlib.Algebra.Ring.Nat
import Mathlib.Tactic.Common
import Psbox.Foundations.FirstMatch
import Psbox.Foundations.Fallible

/-!
# D-Bus Values

Decoded D-Bus values (`dbus/value.rs`), the helpers the portal policy uses to
change option dictionaries, and the splitting of signatures into complete types.

Signatures are lists of characters. Every character a signature may hold is
ASCII, so lengths in characters and in bytes agree wherever the source slices.
-/

namespace Psbox.DBus

open Psbox.Foundations

/-- A type signature, one character a type code. -/
abbrev Signature := List Char

/-- A decoded D-Bus value. Arrays and dictionaries keep their element
signatures. A double is kept by its bits. -/
inductive Value where
  | byte (b : UInt8)
  | bool (b : Bool)
  | i16 (n : Int16)
  | u16 (n : UInt16)
  | i32 (n : Int32)
  | u32 (n : UInt32)
  | i64 (n : Int64)
  | u64 (n : UInt64)
  | double (bits : UInt64)
  | str (s : String)
  | path (s : String)
  | sig (s : String)
  /-- Index into the message's descriptor list. -/
  | fd (n : UInt32)
  | array (elem : Signature) (items : List Value)
  | dict (k v : Signature) (entries : List (Value × Value))
  | struct (fields : List Value)
  | variant (inner : Value)
  deriving Repr

/-! ## Section 1: Failures -/

/-- What the decoder reports, one constructor for each text of the source. -/
inductive DecodeError where
  | signatureTooDeep
  | unterminatedStruct
  | emptyStruct
  | badDictEntry
  | badSignatureCharacter (c : Char)
  | truncatedSignature
  | truncatedPadding
  | truncatedValue
  | stringNotNulTerminated
  | invalidUtf8
  | valueTooDeep
  | badBoolean (v : UInt32)
  | variantHoldsNotOneType
  | arrayOverrunsBuffer
  | elementOverrunsArray
  | cannotReadType (c : Char)
  | trailingBytes
  | unknownByteOrder
  | messageTooLarge
  | shortHeader
  | lengthMismatch
  | unsupportedProtocolVersion
  | headerFieldsLengthMismatch
  deriving Repr, DecidableEq

/-- How decoding can end without a value: with an error of the source, by a
slice or index out of range, or by a loop that never ends. -/
inductive Failure where
  | reported (e : DecodeError)
  | panicked
  | diverged
  deriving Repr, DecidableEq

/-- The source's `err`. -/
def err {α : Type} (e : DecodeError) : Except Failure α :=
  .error (.reported e)

/-- `&s[n..]`, which panics past the end of `s`. -/
def sliceFrom (s : Signature) (n : Nat) : Except Failure Signature :=
  if n ≤ s.length then .ok (s.drop n) else .error .panicked

/-- `MAX_DEPTH`: how deep values and signatures may nest. -/
def maxDepth : Nat := 64

/-! ## Section 2: Values -/

namespace Value

mutual

/-- The value's single complete type signature. -/
def signature : Value → Signature
  | byte _ => ['y']
  | bool _ => ['b']
  | i16 _ => ['n']
  | u16 _ => ['q']
  | i32 _ => ['i']
  | u32 _ => ['u']
  | i64 _ => ['x']
  | u64 _ => ['t']
  | double _ => ['d']
  | str _ => ['s']
  | path _ => ['o']
  | sig _ => ['g']
  | fd _ => ['h']
  | array elem _ => 'a' :: elem
  | dict k v _ => ['a', '{'] ++ k ++ v ++ ['}']
  | struct fields => ['('] ++ signatures fields ++ [')']
  | variant _ => ['v']

/-- The signatures of several values, one after the other. -/
def signatures : List Value → Signature
  | [] => []
  | v :: vs => signature v ++ signatures vs

end

def asStr : Value → Option String
  -- A path and a signature are texts too.
  | str s | path s | sig s => some s
  | _ => none

def asU32 : Value → Option UInt32
  | u32 n => some n
  | _ => none

/-- The value inside a variant, any other value itself. -/
def unwrapVariant : Value → Value
  | variant inner => inner
  | v => v

/-- Whether a dictionary entry has the key `key`. -/
def hasKey (key : String) (e : Value × Value) : Bool :=
  e.1.asStr == some key

/-- Looks up `key` in an `a{sv}` dictionary, unwrapping the variant. -/
def dictGet (key : String) : Value → Option Value
  -- The first entry of the key, as `iter().find` has it.
  | dict _ _ entries => (entries.find? (hasKey key)).map fun e => unwrapVariant e.2
  | _ => none

/-- The entries after `dict_set`: the first one with the key changed, or a new
one at the end when there is none. -/
def setEntry (key : String) (v : Value) (entries : List (Value × Value)) :
    List (Value × Value) :=
  setFirst (hasKey key) (fun e => (e.1, v)) (str key, v) entries

/-- Sets `key` in an `a{sv}` dictionary to a variant holding `value`. -/
def dictSet (v : Value) (key : String) (value : Value) : Value :=
  match v with
  | dict k v entries => dict k v (setEntry key (variant value) entries)
  | other => other

/-- Removes `key` from an `a{sv}` dictionary. -/
def dictRemove (key : String) : Value → Value
  | dict k v entries => dict k v (entries.filter fun e => !hasKey key e)
  | other => other

mutual

/-- Applies `f` to every object path in the value; a path `f` gives no
replacement for stays as it is. -/
def mapPaths (f : String → Option String) : Value → Value
  | path p => path ((f p).getD p)
  | array elem items => array elem (mapPathsList f items)
  | struct fields => struct (mapPathsList f fields)
  -- Keys are mapped like values.
  | dict k v entries => dict k v (mapPathsEntries f entries)
  | variant inner => variant (mapPaths f inner)
  | other => other

def mapPathsList (f : String → Option String) : List Value → List Value
  | [] => []
  | v :: vs => mapPaths f v :: mapPathsList f vs

def mapPathsEntries (f : String → Option String) : List (Value × Value) → List (Value × Value)
  | [] => []
  | (k, v) :: es => (mapPaths f k, mapPaths f v) :: mapPathsEntries f es

end

mutual

/-- Whether `map_paths` calls its closure on a path that satisfies `p`. -/
def anyPath (p : String → Bool) : Value → Bool
  | path s => p s
  | array _ items => anyPathList p items
  | struct fields => anyPathList p fields
  | dict _ _ entries => anyPathEntries p entries
  | variant inner => anyPath p inner
  | _ => false

def anyPathList (p : String → Bool) : List Value → Bool
  | [] => false
  | v :: vs => anyPath p v || anyPathList p vs

def anyPathEntries (p : String → Bool) : List (Value × Value) → Bool
  | [] => false
  | (k, v) :: es => anyPath p k || anyPath p v || anyPathEntries p es

end

end Value

/-! ## Section 3: Signatures -/

/-- The type codes of one character: `y b n q i u x t d s o g h v`. -/
def isBasicCode (c : Char) : Bool :=
  ['y', 'b', 'n', 'q', 'i', 'u', 'x', 't', 'd', 's', 'o', 'g', 'h', 'v'].contains c

/-- The loop of `complete_type_len` over the fields of a struct, from the text
after the opening parenthesis: the length of the fields before the closing one.
`next` is the length of the type a text starts with. -/
def structFieldsLen (next : Signature → Except Failure Nat) : Nat → Signature → Except Failure Nat
  | _, [] => err .unterminatedStruct
  | _, ')' :: _ => .ok 0
  | 0, _ => .error .diverged
  | fuel + 1, rest => do
      let n ← next rest
      let rest' ← sliceFrom rest n
      let m ← structFieldsLen next fuel rest'
      .ok (n + m)

/-- The length of the complete type `sig` starts with. `left` counts the nesting
levels still allowed: `MAX_DEPTH + 1` less the source's `depth`. -/
def completeTypeLen : Nat → Signature → Except Failure Nat
  | 0, _ => err .signatureTooDeep
  | _ + 1, [] => err .truncatedSignature
  | left + 1, c :: rest =>
      -- One character, whatever the type is.
      if isBasicCode c then .ok 1
      else if c = 'a' then do
        let n ← completeTypeLen left rest
        .ok (1 + n)
      else if c = '(' then do
        let n ← structFieldsLen (completeTypeLen left) rest.length rest
        -- `()` is no type.
        if n = 0 then err .emptyStruct else .ok (n + 2)
      else if c = '{' then do
        let k ← completeTypeLen left rest
        let afterKey ← sliceFrom rest k
        let v ← completeTypeLen left afterKey
        -- An entry is a key, a value and the closing brace, and nothing more.
        if afterKey[v]? = some '}' then .ok (k + v + 2) else err .badDictEntry
      else err (.badSignatureCharacter c)

/-- The loop of `split_signature`. -/
def splitLoop : Nat → Signature → Except Failure (List Signature)
  | _, [] => .ok []
  | 0, _ => .error .diverged
  | fuel + 1, rest => do
      let len ← completeTypeLen (maxDepth + 1) rest
      let rest' ← sliceFrom rest len
      let types ← splitLoop fuel rest'
      .ok (rest.take len :: types)

/-- Splits a signature into its complete types. -/
def splitSignature (sig : Signature) : Except Failure (List Signature) :=
  splitLoop sig.length sig

/-- The alignment of a type, from its first code. The source indexes that code,
and no caller passes an empty signature. -/
def alignment : Signature → Nat
  | [] => 1
  | c :: _ =>
      if c = 'y' ∨ c = 'g' ∨ c = 'v' then 1
      else if c = 'n' ∨ c = 'q' then 2
      else if c = 'x' ∨ c = 't' ∨ c = 'd' ∨ c = '(' ∨ c = '{' then 8
      else 4

end Psbox.DBus
