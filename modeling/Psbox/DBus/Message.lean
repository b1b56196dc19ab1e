import Psbox.DBus.Codec

/-!
# D-Bus Messages

Message headers (`dbus/message.rs`). Bodies stay as raw bytes until a caller
decodes them. Messages are written little-endian; a big-endian message is
converted as it is parsed.
-/

namespace Psbox.DBus

/-! ## Section 1: Constants -/

namespace Kind

def methodCall : UInt8 := 1
def methodReturn : UInt8 := 2
def error : UInt8 := 3
def signal : UInt8 := 4

end Kind

def flagNoReplyExpected : UInt8 := 0x1

def fieldPath : UInt8 := 1
def fieldInterface : UInt8 := 2
def fieldMember : UInt8 := 3
def fieldErrorName : UInt8 := 4
def fieldReplySerial : UInt8 := 5
def fieldDestination : UInt8 := 6
def fieldSender : UInt8 := 7
def fieldSignature : UInt8 := 8
def fieldUnixFds : UInt8 := 9

/-- The largest message accepted (the D-Bus specification limit). -/
def maxMessage : Nat := 128 * 1024 * 1024

/-! ## Section 2: Messages -/

structure Message where
  kind : UInt8 := 0
  flags : UInt8 := 0
  serial : UInt32 := 0
  path : Option String := none
  interface : Option String := none
  member : Option String := none
  errorName : Option String := none
  replySerial : Option UInt32 := none
  destination : Option String := none
  sender : Option String := none
  signature : Signature := []
  unixFds : UInt32 := 0
  body : List UInt8 := []
  deriving Repr, DecidableEq

namespace Message

def setBody (m : Message) (args : List Value) : Message :=
  { m with signature := (encodeBody args).1, body := (encodeBody args).2 }

/-- The source's `Message::method_call`. -/
def call (dest path iface member : String) (args : List Value) : Message :=
  setBody { kind := Kind.methodCall, destination := some dest, path := some path,
            interface := some iface, member := some member } args

/-- An empty reply to `req`; `method_return` in the source. -/
def returnTo (req : Message) : Message :=
  { kind := Kind.methodReturn, flags := flagNoReplyExpected, replySerial := some req.serial,
    destination := req.sender }

/-- An error in reply to `req`; `Message::error` in the source. -/
def errorTo (req : Message) (name text : String) : Message :=
  setBody { kind := Kind.error, flags := flagNoReplyExpected, replySerial := some req.serial,
            destination := req.sender, errorName := some name } [.str text]

def expectsReply (m : Message) : Bool :=
  m.kind == Kind.methodCall && m.flags &&& flagNoReplyExpected == 0

def args (m : Message) : Except Failure (List Value) :=
  decodeBody m.signature m.body false

/-- The source's `Message::is`. -/
def isMember (m : Message) (iface member : String) : Bool :=
  m.interface == some iface && m.member == some member

@[simp] theorem setBody_kind (m : Message) (args : List Value) :
    (m.setBody args).kind = m.kind := rfl

@[simp] theorem setBody_replySerial (m : Message) (args : List Value) :
    (m.setBody args).replySerial = m.replySerial := rfl

@[simp] theorem setBody_sender (m : Message) (args : List Value) :
    (m.setBody args).sender = m.sender := rfl

@[simp] theorem setBody_destination (m : Message) (args : List Value) :
    (m.setBody args).destination = m.destination := rfl

@[simp] theorem setBody_flags (m : Message) (args : List Value) :
    (m.setBody args).flags = m.flags := rfl

@[simp] theorem setBody_serial (m : Message) (args : List Value) :
    (m.setBody args).serial = m.serial := rfl

end Message

/-! ## Section 3: Parsing -/

def pad8 (n : Nat) : Nat := (n + 7) / 8 * 8

/-- Whether a message is big-endian, from its first byte. -/
def bigEndian (first : UInt8) : Except Failure Bool :=
  -- The first byte is `l` or `B`, for the whole message.
  if first = 'l'.toUInt8 then .ok false
  else if first = 'B'.toUInt8 then .ok true
  else err .unknownByteOrder

/-- A `u32` of the fixed prefix at `pos`, in the message's byte order. -/
def prefixU32 (bytes : List UInt8) (pos : Nat) (big : Bool) : UInt32 :=
  UInt32.ofNat (ofBytes big ((bytes.drop pos).take 4))

/-- The total message length, once the fixed 16-byte prefix is available. -/
def frameLen (bytes : List UInt8) : Except Failure Nat := do
  let big ← bigEndian (bytes.headD 0)
  let body := (prefixU32 bytes 4 big).toNat
  let fields := (prefixU32 bytes 12 big).toNat
  -- The fields are padded to eight bytes, the body is not.
  let total := pad8 (16 + fields) + body
  if total > maxMessage then err .messageTooLarge else .ok total

namespace Message

/-- Takes one field of the header, leaving the message as it is when the field
is of another type than its code's. -/
def takeField (m : Message) : Value → Message
  -- Of another shape than code and value it is no field.
  | .struct [.byte code, .variant v] =>
      match v with
      | .path s => if code = fieldPath then { m with path := some s } else m
      | .str s =>
          -- By its code, one of the five texts of a header.
          if code = fieldInterface then { m with interface := some s }
          else if code = fieldMember then { m with member := some s }
          else if code = fieldErrorName then { m with errorName := some s }
          else if code = fieldDestination then { m with destination := some s }
          else if code = fieldSender then { m with sender := some s }
          else m
      | .u32 n =>
          if code = fieldReplySerial then { m with replySerial := some n }
          else if code = fieldUnixFds then { m with unixFds := n }
          else m
      | .sig s => if code = fieldSignature then { m with signature := s.toList } else m
      | _ => m
  | _ => m

/-- Parses the header of one complete message, leaving the body in its own byte
order. Returns whether that order is big-endian. -/
def parseHeader (buf : List UInt8) : Except Failure (Message × Bool) := do
  if buf.length < 16 then err .shortHeader
  else do
    let total ← frameLen (buf.take 16)
    if buf.length ≠ total then err .lengthMismatch
    else if buf.getD 3 0 ≠ 1 then err .unsupportedProtocolVersion
    else do
      let big ← bigEndian (buf.getD 0 0)
      let (v, r) ← Reader.read ['a', '(', 'y', 'v', ')'] { buf := buf, pos := 12, big := big }
      match v with
      | .array _ fields =>
          let m : Message := fields.foldl takeField
            { kind := buf.getD 1 0, flags := buf.getD 2 0, serial := prefixU32 buf 8 big }
          let fieldsEnd := 16 + (prefixU32 buf 12 big).toNat
          if r.pos ≠ fieldsEnd then err .headerFieldsLengthMismatch
          else .ok ({ m with body := buf.drop (pad8 fieldsEnd) }, big)
      | _ => .error .panicked

/-- Parses one complete message, checking that its body decodes and converting
a big-endian body to little-endian. -/
def parse (buf : List UInt8) : Except Failure Message := do
  let (m, big) ← parseHeader buf
  let args ← decodeBody m.signature m.body big
  .ok (if big then { m with body := (encodeBody args).2 } else m)

/-! ## Section 4: Encoding -/

/-- A field of the header, when it has a value. -/
def headerField (code : UInt8) (v : Option Value) : List Value :=
  match v with
  | some v => [.struct [.byte code, .variant v]]
  | none => []

/-- The header fields `encode` writes. The sender is never one of them; the bus
sets it. -/
def headerFields (m : Message) : List Value :=
  headerField fieldPath (m.path.map .path) ++
  headerField fieldInterface (m.interface.map .str) ++
  headerField fieldMember (m.member.map .str) ++
  headerField fieldErrorName (m.errorName.map .str) ++
  headerField fieldReplySerial (m.replySerial.map .u32) ++
  headerField fieldDestination (m.destination.map .str) ++
  headerField fieldSignature
    (if m.signature = [] then none else some (.sig (String.ofList m.signature))) ++
  headerField fieldUnixFds (if m.unixFds > 0 then some (.u32 m.unixFds) else none)

/-- Encodes the message with `serial`. -/
def encode (m : Message) (serial : UInt32) : List UInt8 :=
  let w : Writer := { buf := ['l'.toUInt8, m.kind, m.flags, 1] }
  let w := (w.u32 (UInt32.ofNat m.body.length)).u32 serial
  let w := (Writer.write (.array ['(', 'y', 'v', ')'] m.headerFields) w).align 8
  (w.push m.body).buf

end Message

end Psbox.DBus
