import Psbox.DBus.Layout
import Psbox.Decorations.Wire

/-!
# The Wayland Wire Encoding

`parse`, `take_array` and `write` of `decorations/wire.rs`. Numbers are in the byte
order of the machine, which `big` names. A descriptor is whatever `δ` is: it is moved
and never looked at.

A fault of `parse` ends the connection, and what is left of its descriptors with it.
-/

namespace Psbox.Decorations

open Psbox.DBus (leBytes ofBytes)

/-! ## Section 1: Messages -/

/-- A message's header: the sender's id, then its size and opcode. -/
def header : Nat := 8

/-- The source's `CString`: text without a NUL byte. -/
structure CString where
  bytes : List UInt8
  noNul : 0 ∉ bytes
  deriving DecidableEq, Repr

/-- `CString::new`. -/
def CString.ofBytes (bytes : List UInt8) : Option CString :=
  if h : 0 ∉ bytes then some ⟨bytes, h⟩ else none

/-- An argument as it is on the wire. -/
inductive WireArg (δ : Type) where
  | int (v : Int32)
  | uint (v : UInt32)
  | fixed (v : Int32)
  | str (s : Option CString)
  | object (id : UInt32)
  | newId (id : UInt32)
  | array (bytes : List UInt8)
  | fd (d : δ)
  deriving DecidableEq, Repr

structure WireMessage (δ : Type) where
  sender : UInt32
  opcode : UInt16
  args : List (WireArg δ)
  deriving DecidableEq, Repr

/-- Why a message is not read or written. -/
inductive WireFault where
  | bail (text : String)
  /-- The code panics. -/
  | panicked
  deriving DecidableEq, Repr

/-- The argument types a message is read by: those of a sender's request, or `none` for
an unknown object or opcode. -/
abbrev Signatures := UInt32 → UInt16 → Option (List ArgType)

variable {δ : Type}

/-! ## Section 2: Reading -/

/-- The bytes of a number. -/
def neBytes (big : Bool) (v : UInt32) : List UInt8 :=
  if big then (leBytes 4 v.toNat).reverse else leBytes 4 v.toNat

/-- The number of four bytes; `from_ne_bytes` in the source. -/
def neNumber (big : Bool) (bytes : List UInt8) : UInt32 :=
  UInt32.ofNat (ofBytes big bytes)

/-- `usize::next_multiple_of(4)`. -/
def nextMultipleOf4 (n : Nat) : Nat :=
  (n + 3) / 4 * 4

def takeU32 (big : Bool) (body : List UInt8) : Except WireFault (UInt32 × List UInt8) :=
  if body.length < 4 then .error (.bail "message ends early")
  else .ok (neNumber big (body.take 4), body.drop 4)

/-- A length-prefixed run of bytes, padded to four. -/
def takeArray (big : Bool) (body : List UInt8) : Except WireFault (List UInt8 × List UInt8) := do
  let (len, body) ← takeU32 big body
  let padded := nextMultipleOf4 len.toNat
  if 2 ^ 64 ≤ padded then .error (.bail "array too long")
  else if body.length < padded then .error (.bail "message ends early")
  else .ok (body.take len.toNat, body.drop padded)

/-- The text of a string argument; no bytes at all are the null string. -/
def readStr (sender : UInt32) (opcode : UInt16) (nullable : Bool) (bytes : List UInt8) :
    Except WireFault (Option CString) :=
  let malformed := WireFault.bail s!"malformed string in request {opcode} on object {sender}"
  match bytes.getLast? with
  | none => if nullable then .ok none else .error malformed
  | some last =>
      if last = 0 then
        match CString.ofBytes bytes.dropLast with
        | some text => .ok (some text)
        | none => .error (.bail "string with a NUL byte inside")
      else .error malformed

/-- One argument, from the rest of the body and of the descriptors. -/
def readArg (big : Bool) (sender : UInt32) (opcode : UInt16) :
    ArgType → List UInt8 → List δ → Except WireFault (WireArg δ × List UInt8 × List δ)
  | .int, body, fds => do
      let (v, body) ← takeU32 big body
      .ok (.int v.toInt32, body, fds)
  | .uint, body, fds => do
      let (v, body) ← takeU32 big body
      .ok (.uint v, body, fds)
  | .fixed, body, fds => do
      let (v, body) ← takeU32 big body
      .ok (.fixed v.toInt32, body, fds)
  | .object _, body, fds => do
      let (v, body) ← takeU32 big body
      .ok (.object v, body, fds)
  | .newId, body, fds => do
      let (v, body) ← takeU32 big body
      .ok (.newId v, body, fds)
  | .str nullable, body, fds => do
      let (bytes, body) ← takeArray big body
      let s ← readStr sender opcode nullable bytes
      .ok (.str s, body, fds)
  | .array, body, fds => do
      let (bytes, body) ← takeArray big body
      .ok (.array bytes, body, fds)
  | .fd, body, d :: fds => .ok (.fd d, body, fds)
  -- `fds.pop_front().expect("counted above")`
  | .fd, _, [] => .error .panicked

/-- The arguments of a signature in turn. -/
def readArgs (big : Bool) (sender : UInt32) (opcode : UInt16) :
    List ArgType → List UInt8 → List δ → Except WireFault (List (WireArg δ) × List UInt8 × List δ)
  | [], body, fds => .ok ([], body, fds)
  | ty :: sig, body, fds => do
      let (arg, body, fds) ← readArg big sender opcode ty body fds
      let (args, body, fds) ← readArgs big sender opcode sig body fds
      .ok (arg :: args, body, fds)

/-- A request of `size` bytes with this body, and the descriptors after its own. -/
def readMessage (big : Bool) (sender : UInt32) (opcode : UInt16) (size : Nat)
    (sig : List ArgType) (body : List UInt8) (fds : List δ) :
    Except WireFault (Option (WireMessage δ × Nat) × List δ) :=
  if fds.length < sig.countP (· = .fd) then
    .error (.bail s!"request {opcode} on object {sender} is missing descriptors")
  else do
    let (args, body, fds) ← readArgs big sender opcode sig body fds
    if body ≠ [] then
      .error (.bail s!"request {opcode} on object {sender} has {body.length} bytes left over")
    else .ok (some ({ sender, opcode, args }, size), fds)

/-- The request at the start of `buf` once all of it has arrived, with its size in bytes,
and the descriptors after its own. -/
def parse (big : Bool) (buf : List UInt8) (fds : List δ) (signature : Signatures) :
    Except WireFault (Option (WireMessage δ × Nat) × List δ) :=
  if buf.length < header then .ok (none, fds)
  else
    let sender := neNumber big (buf.take 4)
    let word := neNumber big ((buf.drop 4).take 4)
    let size := (word >>> 16).toNat
    let opcode := (word &&& 0xffff).toUInt16
    if size < header ∨ size % 4 ≠ 0 then
      .error (.bail s!"malformed message header (size {size})")
    else if buf.length < size then .ok (none, fds)
    else
      match signature sender opcode with
      | none => .error (.bail s!"unknown request {opcode} on object {sender}")
      | some sig => readMessage big sender opcode size sig ((buf.take size).drop header) fds

/-! ## Section 3: Writing -/

/-- A length and the bytes, with padding up to a multiple of four in `out`. -/
def putArray (big : Bool) (out bytes : List UInt8) : List UInt8 :=
  let out := out ++ neBytes big (UInt32.ofNat bytes.length) ++ bytes
  out ++ List.replicate (nextMultipleOf4 out.length - out.length) 0

/-- The arguments in turn, appended to `out`, with their descriptors in `fds`. -/
def putArgs (big : Bool) :
    List (WireArg δ) → List UInt8 → List δ → List UInt8 × List δ
  | [], out, fds => (out, fds)
  | arg :: args, out, fds =>
      match arg with
      | .int v | .fixed v => putArgs big args (out ++ neBytes big v.toUInt32) fds
      | .uint v | .object v | .newId v => putArgs big args (out ++ neBytes big v) fds
      | .str none => putArgs big args (out ++ neBytes big 0) fds
      | .str (some s) => putArgs big args (putArray big out (s.bytes ++ [0])) fds
      | .array bytes => putArgs big args (putArray big out bytes) fds
      | .fd d => putArgs big args out (fds ++ [d])

/-- The header of a message of `size` bytes. -/
def headerBytes (big : Bool) (sender : UInt32) (opcode : UInt16) (size : Nat) : List UInt8 :=
  neBytes big sender ++ neBytes big (UInt32.ofNat size <<< 16 ||| opcode.toUInt32)

/-- Appends `msg` to `out`, moving its descriptors to `fds`. -/
def write (big : Bool) (msg : WireMessage δ) (out : List UInt8) (fds : List δ) :
    Except WireFault Unit × List UInt8 × List δ :=
  let start := out.length
  let (out, fds) := putArgs big msg.args (out ++ List.replicate header 0) fds
  let size := out.length - start
  if 65535 < size then
    (.error (.bail
      s!"event {msg.opcode} on object {msg.sender} is too large ({size} bytes)"),
      out.take start, fds)
  else
    (.ok (), out.take start ++ headerBytes big msg.sender msg.opcode size ++
      out.drop (start + header), fds)

end Psbox.Decorations
