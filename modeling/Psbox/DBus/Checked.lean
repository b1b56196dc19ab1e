import Psbox.DBus.Relay
import Psbox.Foundations.Fallible

/-!
# The Decoder with Every Check

The functions of `dbus/value.rs` and `dbus/message.rs` again, with each step that can
panic written out: sums and differences of `usize`s, slices and indices of bytes, slices
of texts at character boundaries, `expect`s on lengths, and vectors that grow.

A text is a list of characters, and its offsets count bytes. The source's tests of a
byte against an ASCII code are tests of the character there: no byte of another
character is one.
-/

namespace Psbox.DBus.Checked

/-! ## Section 1: Machine Operations -/

/-- A sum of `usize`s. -/
def add (a b : Nat) : Except Failure Nat :=
  if a + b < 2 ^ 64 then .ok (a + b) else .error .panicked

def sub (a b : Nat) : Except Failure Nat :=
  if b ≤ a then .ok (a - b) else .error .panicked

def mul (a b : Nat) : Except Failure Nat :=
  if a * b < 2 ^ 64 then .ok (a * b) else .error .panicked

/-- `bytes[i]`. -/
def index (bytes : List UInt8) (i : Nat) : Except Failure UInt8 :=
  match bytes[i]? with
  | some b => .ok b
  | none => .error .panicked

/-- `&bytes[start..stop]`. -/
def slice (bytes : List UInt8) (start stop : Nat) : Except Failure (List UInt8) :=
  if start ≤ stop ∧ stop ≤ bytes.length then .ok ((bytes.drop start).take (stop - start))
  else .error .panicked

/-- `try_into().expect(..)` into an array of `n` bytes. -/
def toArray (n : Nat) (bytes : List UInt8) : Except Failure (List UInt8) :=
  if bytes.length = n then .ok bytes else .error .panicked

/-- The length of a text in bytes. -/
def len (s : Signature) : Nat :=
  (s.map Char.utf8Size).sum

/-- The two parts of a text at a byte offset, which is in range and at a character
boundary. -/
def splitAt : Nat → Signature → Except Failure (Signature × Signature)
  | 0, s => .ok ([], s)
  | _ + 1, [] => .error .panicked
  | n + 1, c :: s =>
      if c.utf8Size ≤ n + 1 then do
        let (before, after) ← splitAt (n + 1 - c.utf8Size) s
        .ok (c :: before, after)
      else .error .panicked

/-- `&s[..n]`. -/
def sliceTo (s : Signature) (n : Nat) : Except Failure Signature := do
  let (before, _) ← splitAt n s
  .ok before

/-- `&s[n..]`. -/
def sliceFrom (s : Signature) (n : Nat) : Except Failure Signature := do
  let (_, after) ← splitAt n s
  .ok after

/-- `&s[start..stop]`. -/
def sliceRange (s : Signature) (start stop : Nat) : Except Failure Signature :=
  if stop < start then .error .panicked
  else do
    let before ← sliceTo s stop
    sliceFrom before start

/-- `bytes.get(i) == Some(&c)` for the bytes of a text and an ASCII character. -/
def byteIs : Signature → Nat → Char → Bool
  | [], _, _ => false
  | d :: s, i, c =>
      if i = 0 then d == c
      else if i < d.utf8Size then false
      else byteIs s (i - d.utf8Size) c

/-! ## Section 2: Signatures -/

/-- The loop of `complete_type_len` over the fields of the struct `sig`, from the offset
`i`: where its closing parenthesis is. -/
def structFieldsEnd (next : Signature → Except Failure Nat) (sig : Signature) :
    Nat → Nat → Except Failure Nat
  | fuel, i =>
      if byteIs sig i ')' then .ok i
      else if len sig ≤ i then err .unterminatedStruct
      else
        match fuel with
        | 0 => .error .diverged
        | fuel + 1 => do
            let rest ← sliceFrom sig i
            let n ← next rest
            let i ← add i n
            structFieldsEnd next sig fuel i

def completeTypeLen : Nat → Signature → Except Failure Nat
  | 0, _ => err .signatureTooDeep
  | _ + 1, [] => err .truncatedSignature
  | left + 1, c :: rest =>
      if isBasicCode c then .ok 1
      else if c = 'a' then do
        let elem ← sliceFrom (c :: rest) 1
        let n ← completeTypeLen left elem
        add 1 n
      else if c = '(' then do
        let i ← structFieldsEnd (completeTypeLen left) (c :: rest) rest.length 1
        if i = 1 then err .emptyStruct else add i 1
      else if c = '{' then do
        let fromKey ← sliceFrom (c :: rest) 1
        let k ← completeTypeLen left fromKey
        let valueAt ← add 1 k
        let fromValue ← sliceFrom (c :: rest) valueAt
        let v ← completeTypeLen left fromValue
        let closeAt ← add valueAt v
        if byteIs (c :: rest) closeAt '}' then do
          let n ← add k v
          add n 2
        else err .badDictEntry
      else err (.badSignatureCharacter c)

/-- The loop of `split_signature`. -/
def splitLoop : Nat → Signature → Except Failure (List Signature)
  | _, [] => .ok []
  | 0, _ => .error .diverged
  | fuel + 1, rest => do
      let n ← completeTypeLen (maxDepth + 1) rest
      let t ← sliceTo rest n
      let rest' ← sliceFrom rest n
      let types ← splitLoop fuel rest'
      .ok (t :: types)

def splitSignature (sig : Signature) : Except Failure (List Signature) :=
  splitLoop sig.length sig

/-- `alignment`, which indexes the first byte. -/
def alignment (sig : Signature) : Except Failure Nat :=
  match sig with
  | [] => .error .panicked
  | c :: rest => .ok (DBus.alignment (c :: rest))

/-! ## Section 3: The Reader -/

namespace Reader

def align (r : Reader) (n : Nat) : Except Failure Reader := do
  let gap ← sub n (r.pos % n)
  let stop ← add r.pos (gap % n)
  if stop > r.buf.length then err .truncatedPadding else .ok { r with pos := stop }

def take (r : Reader) (n : Nat) : Except Failure (List UInt8 × Reader) := do
  let stop ← add r.pos n
  if stop > r.buf.length then err .truncatedValue
  else do
    let bytes ← slice r.buf r.pos stop
    .ok (bytes, { r with pos := stop })

/-- `self.take(1)?[0]`. -/
def byte (r : Reader) : Except Failure (UInt8 × Reader) := do
  let (bytes, r) ← take r 1
  let b ← index bytes 0
  .ok (b, r)

def u16 (r : Reader) : Except Failure (UInt16 × Reader) := do
  let (bytes, r) ← take r 2
  let bytes ← toArray 2 bytes
  .ok (UInt16.ofNat (ofBytes r.big bytes), r)

def u32 (r : Reader) : Except Failure (UInt32 × Reader) := do
  let r ← align r 4
  let (bytes, r) ← take r 4
  let bytes ← toArray 4 bytes
  .ok (UInt32.ofNat (ofBytes r.big bytes), r)

def u64 (r : Reader) : Except Failure (UInt64 × Reader) := do
  let (bytes, r) ← take r 8
  let bytes ← toArray 8 bytes
  .ok (UInt64.ofNat (ofBytes r.big bytes), r)

def string (r : Reader) (n : Nat) : Except Failure (String × Reader) := do
  let (bytes, r) ← take r n
  let (nul, r) ← take r 1
  if nul ≠ [0] then err .stringNotNulTerminated
  else
    match String.fromUTF8? (ByteArray.mk bytes.toArray) with
    | some s => .ok (s, r)
    | none => err .invalidUtf8

def readEntry (readKey readVal : Reader → Except Failure (Value × Reader)) (r : Reader) :
    Except Failure ((Value × Value) × Reader) := do
  let r ← align r 8
  let (key, r) ← readKey r
  let (val, r) ← readVal r
  .ok ((key, val), r)

def arrayStart (elem : Signature) (r : Reader) : Except Failure (Nat × Nat × Reader) := do
  let (n, r) ← u32 r
  let a ← alignment elem
  let r ← align r a
  let stop ← add r.pos n.toNat
  if stop > r.buf.length then err .arrayOverrunsBuffer else .ok (n.toNat, stop, r)

/-- `&s[1..s.len() - 1]`. -/
def inside (sig : Signature) : Except Failure Signature := do
  let stop ← sub (len sig) 1
  sliceRange sig 1 stop

def variantType (inner : Signature) : Except Failure Signature := do
  let types ← splitSignature inner
  if types.length ≠ 1 then err .variantHoldsNotOneType else .ok inner

def readDepth : Nat → Signature → Reader → Except Failure (Value × Reader)
  | 0, _, _ => err .valueTooDeep
  | _ + 1, [], _ => .error .panicked
  | left + 1, c :: rest, r => do
      let a ← alignment (c :: rest)
      let r ← align r a
      match c with
      | 'y' => do let (b, r) ← byte r; .ok (.byte b, r)
      | 'b' => do
          let (v, r) ← u32 r
          if v = 0 then .ok (.bool false, r)
          else if v = 1 then .ok (.bool true, r)
          else err (.badBoolean v)
      | 'n' => do let (n, r) ← u16 r; .ok (.i16 n.toInt16, r)
      | 'q' => do let (n, r) ← u16 r; .ok (.u16 n, r)
      | 'i' => do let (n, r) ← u32 r; .ok (.i32 n.toInt32, r)
      | 'u' => do let (n, r) ← u32 r; .ok (.u32 n, r)
      | 'h' => do let (n, r) ← u32 r; .ok (.fd n, r)
      | 'x' => do let (n, r) ← u64 r; .ok (.i64 n.toInt64, r)
      | 't' => do let (n, r) ← u64 r; .ok (.u64 n, r)
      | 'd' => do let (n, r) ← u64 r; .ok (.double n, r)
      | 's' => do let (n, r) ← u32 r; let (s, r) ← string r n.toNat; .ok (.str s, r)
      | 'o' => do let (n, r) ← u32 r; let (s, r) ← string r n.toNat; .ok (.path s, r)
      | 'g' => do let (n, r) ← byte r; let (s, r) ← string r n.toNat; .ok (.sig s, r)
      | 'v' => do
          let (n, r) ← byte r
          let (inner, r) ← string r n.toNat
          let t ← variantType inner.toList
          let (v, r) ← readDepth left t r
          .ok (.variant v, r)
      | '(' => do
          let fieldSig ← inside (c :: rest)
          let types ← splitSignature fieldSig
          let (vs, r) ← Reader.readFields (readDepth left) types r
          .ok (.struct vs, r)
      | 'a' => do
          let elem ← sliceFrom (c :: rest) 1
          let (n, stop, r) ← arrayStart elem r
          if elem.head? = some '{' then do
            let inner ← inside elem
            let keyLen ← completeTypeLen (left + 1) inner
            let k ← sliceTo inner keyLen
            let v ← sliceFrom inner (len k)
            let (entries, r) ←
              Reader.readArray (readEntry (readDepth left k) (readDepth left v)) n stop r
            .ok (.dict k v entries, r)
          else do
            let (items, r) ← Reader.readArray (readDepth left elem) n stop r
            .ok (.array elem items, r)
      | c => err (.cannotReadType c)

end Reader

def decodeBody (sig : Signature) (body : List UInt8) (big : Bool) :
    Except Failure (List Value) := do
  let types ← splitSignature sig
  let (vs, r) ← Reader.readFields (Reader.readDepth (maxDepth + 1)) types
    { buf := body, pos := 0, big := big }
  if r.pos ≠ body.length then err .trailingBytes else .ok vs

/-! ## Section 4: The Writer -/

namespace Writer

/-- A vector that grows, to `isize::MAX` bytes at most. -/
def push (w : Writer) (bytes : List UInt8) : Except Failure Writer :=
  if w.buf.length + bytes.length < 2 ^ 63 then .ok (w.push bytes) else .error .panicked

def align (w : Writer) (n : Nat) : Except Failure Writer :=
  push w (List.replicate ((n - w.buf.length % n) % n) 0)

def u32 (w : Writer) (v : UInt32) : Except Failure Writer := do
  let w ← align w 4
  push w (leBytes 4 v.toNat)

def string (w : Writer) (s : String) : Except Failure Writer := do
  let w ← u32 w (UInt32.ofNat (utf8 s).length)
  let w ← push w (utf8 s)
  push w [0]

def sig (w : Writer) (s : Signature) : Except Failure Writer := do
  let bytes := utf8 (String.ofList s)
  let w ← push w [UInt8.ofNat bytes.length]
  let w ← push w bytes
  push w [0]

/-- `buf[at..at + 4].copy_from_slice(..)`. -/
def patch (w : Writer) (pos : Nat) (v : UInt32) : Except Failure Writer := do
  let stop ← add pos 4
  let _ ← slice w.buf pos stop
  .ok (w.patch pos v)

def array (w : Writer) (n : Except Failure Nat) (items : Writer → Except Failure Writer) :
    Except Failure Writer := do
  let w ← u32 w 0
  let lenAt ← sub w.buf.length 4
  let n ← n
  let w ← align w n
  let start := w.buf.length
  let w ← items w
  let n ← sub w.buf.length start
  patch w lenAt (UInt32.ofNat n)

/-- The padding before a value. -/
def alignFor (w : Writer) (v : Value) : Except Failure Writer := do
  let a ← alignment v.signature
  align w a

mutual

def write : Value → Writer → Except Failure Writer
  | v@(.byte b), w => do push (← alignFor w v) [b]
  | v@(.bool b), w => do u32 (← alignFor w v) (if b then 1 else 0)
  | v@(.i16 n), w => do push (← alignFor w v) (leBytes 2 n.toUInt16.toNat)
  | v@(.u16 n), w => do push (← alignFor w v) (leBytes 2 n.toNat)
  | v@(.i32 n), w => do u32 (← alignFor w v) n.toUInt32
  | v@(.u32 n), w => do u32 (← alignFor w v) n
  | v@(.i64 n), w => do push (← alignFor w v) (leBytes 8 n.toUInt64.toNat)
  | v@(.u64 n), w => do push (← alignFor w v) (leBytes 8 n.toNat)
  | v@(.double n), w => do push (← alignFor w v) (leBytes 8 n.toNat)
  | v@(.str s), w => do string (← alignFor w v) s
  | v@(.path s), w => do string (← alignFor w v) s
  | v@(.sig s), w => do sig (← alignFor w v) s.toList
  | v@(.fd n), w => do u32 (← alignFor w v) n
  | v@(.variant inner), w => do
      let w ← sig (← alignFor w v) inner.signature
      write inner w
  | v@(.struct fields), w => do writeAll fields (← alignFor w v)
  | v@(.array elem items), w => do array (← alignFor w v) (alignment elem) (writeAll items)
  | v@(.dict _ _ entries), w => do array (← alignFor w v) (.ok 8) (writeEntries entries)

def writeAll : List Value → Writer → Except Failure Writer
  | [], w => .ok w
  | v :: vs, w => do writeAll vs (← write v w)

def writeEntries : List (Value × Value) → Writer → Except Failure Writer
  | [], w => .ok w
  | (k, v) :: es, w => do
      let w ← align w 8
      let w ← write k w
      let w ← write v w
      writeEntries es w

end

end Writer

def encodeBody (values : List Value) : Except Failure (Signature × List UInt8) := do
  let w ← Writer.writeAll values { buf := [] }
  .ok (Value.signatures values, w.buf)

/-! ## Section 5: Messages -/

/-- `n.div_ceil(8) * 8`. -/
def pad8 (n : Nat) : Except Failure Nat :=
  mul ((n + 7) / 8) 8

def prefixU32 (bytes : List UInt8) (pos : Nat) (big : Bool) : Except Failure UInt32 := do
  let stop ← add pos 4
  let bytes ← slice bytes pos stop
  let bytes ← toArray 4 bytes
  .ok (UInt32.ofNat (ofBytes big bytes))

def frameLen (bytes : List UInt8) : Except Failure Nat := do
  let first ← index bytes 0
  let big ← bigEndian first
  let body ← prefixU32 bytes 4 big
  let fields ← prefixU32 bytes 12 big
  let fieldsEnd ← add 16 fields.toNat
  let bodyAt ← pad8 fieldsEnd
  let total ← add bodyAt body.toNat
  if total > maxMessage then err .messageTooLarge else .ok total

namespace Message

def parseHeader (buf : List UInt8) : Except Failure (Message × Bool) := do
  -- `buf.get(..16)`
  if buf.length < 16 then err .shortHeader
  else do
    let total ← frameLen (buf.take 16)
    if buf.length ≠ total then err .lengthMismatch
    else do
      let version ← index buf 3
      if version ≠ 1 then err .unsupportedProtocolVersion
      else do
        let first ← index buf 0
        let big ← bigEndian first
        let kind ← index buf 1
        let flags ← index buf 2
        let serial ← prefixU32 buf 8 big
        let (v, r) ← Reader.readDepth (maxDepth + 1) ['a', '(', 'y', 'v', ')']
          { buf := buf, pos := 12, big := big }
        match v with
        | .array _ fields => do
            let m : Message := fields.foldl Message.takeField { kind, flags, serial }
            let fieldsLen ← prefixU32 buf 12 big
            let fieldsEnd ← add 16 fieldsLen.toNat
            if r.pos ≠ fieldsEnd then err .headerFieldsLengthMismatch
            else do
              let bodyAt ← pad8 fieldsEnd
              let body ← slice buf bodyAt buf.length
              .ok ({ m with body := body }, big)
        -- `unreachable!()`
        | _ => .error .panicked

def parse (buf : List UInt8) : Except Failure Message := do
  let (m, big) ← parseHeader buf
  let args ← decodeBody m.signature m.body big
  if big then do
    let (_, body) ← encodeBody args
    .ok { m with body := body }
  else .ok m

def args (m : Message) : Except Failure (List Value) :=
  decodeBody m.signature m.body false

def encode (m : Message) (serial : UInt32) : Except Failure (List UInt8) := do
  let w ← Writer.push { buf := [] } ['l'.toUInt8, m.kind, m.flags, 1]
  let w ← Writer.u32 w (UInt32.ofNat m.body.length)
  let w ← Writer.u32 w serial
  let w ← Writer.write (.array ['(', 'y', 'v', ')'] m.headerFields) w
  let w ← Writer.align w 8
  let w ← Writer.push w m.body
  .ok w.buf

end Message

end Psbox.DBus.Checked
