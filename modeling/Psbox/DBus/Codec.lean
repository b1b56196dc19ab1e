import Psbox.DBus.Value

/-!
# The D-Bus Wire Encoding

`Reader`, `Writer`, `decode_body` and `encode_body` of `dbus/value.rs`. Values
are written little-endian; either byte order is read.

Each loop of the source runs on a count of the bytes left to read, since every
type takes at least one byte. Running out of that count is `Failure.diverged`.
-/

namespace Psbox.DBus

/-! ## Section 1: Numbers as Bytes -/

/-- A number from its bytes, least significant first. -/
def leNat : List UInt8 → Nat
  | [] => 0
  | b :: bs => b.toNat + 256 * leNat bs

/-- A number from its bytes in the order `big` names. -/
def ofBytes (big : Bool) (bytes : List UInt8) : Nat :=
  leNat (if big then bytes.reverse else bytes)

/-- The `n` bytes of a number, least significant first. -/
def leBytes : Nat → Nat → List UInt8
  | 0, _ => []
  | n + 1, v => UInt8.ofNat (v % 256) :: leBytes n (v / 256)

/-- The UTF-8 bytes of a string. -/
def utf8 (s : String) : List UInt8 :=
  s.toUTF8.data.toList

/-! ## Section 2: The Reader -/

/-- Reads values from a buffer whose offset 0 is 8-byte aligned. -/
structure Reader where
  buf : List UInt8
  pos : Nat
  big : Bool

namespace Reader

def align (r : Reader) (n : Nat) : Except Failure Reader :=
  -- The padding is counted from the start of the buffer, which is aligned.
  let pad := (n - r.pos % n) % n
  if r.pos + pad > r.buf.length then err .truncatedPadding
  else .ok { r with pos := r.pos + pad }

def take (r : Reader) (n : Nat) : Except Failure (List UInt8 × Reader) :=
  if r.pos + n > r.buf.length then err .truncatedValue
  else .ok ((r.buf.drop r.pos).take n, { r with pos := r.pos + n })

def byte (r : Reader) : Except Failure (UInt8 × Reader) := do
  let (bytes, r) ← r.take 1
  match bytes with
  | [b] => .ok (b, r)
  | _ => .error .panicked

def u16 (r : Reader) : Except Failure (UInt16 × Reader) := do
  let (bytes, r) ← r.take 2
  .ok (UInt16.ofNat (ofBytes r.big bytes), r)

def u32 (r : Reader) : Except Failure (UInt32 × Reader) := do
  let r ← r.align 4
  let (bytes, r) ← r.take 4
  .ok (UInt32.ofNat (ofBytes r.big bytes), r)

def u64 (r : Reader) : Except Failure (UInt64 × Reader) := do
  let (bytes, r) ← r.take 8
  .ok (UInt64.ofNat (ofBytes r.big bytes), r)

def string (r : Reader) (len : Nat) : Except Failure (String × Reader) := do
  -- The length does not count the zero byte after the text.
  let (bytes, r) ← r.take len
  let (nul, r) ← r.take 1
  if nul ≠ [0] then err .stringNotNulTerminated
  else
    match String.fromUTF8? (ByteArray.mk bytes.toArray) with
    | some s => .ok (s, r)
    | none => err .invalidUtf8

/-- Reads one value of each type in turn. -/
def readFields (read : Signature → Reader → Except Failure (Value × Reader)) :
    List Signature → Reader → Except Failure (List Value × Reader)
  | [], r => .ok ([], r)
  | t :: ts, r => do
      let (v, r) ← read t r
      let (vs, r) ← readFields read ts r
      .ok (v :: vs, r)

/-- `while self.pos < end`: items until `stop` is reached or passed. -/
def readItems (read : Reader → Except Failure (α × Reader)) (stop : Nat) :
    Nat → Reader → Except Failure (List α × Reader)
  | fuel, r =>
      -- The end is only looked at between two items, so the last one may go past it.
      if r.pos < stop then
        match fuel with
        | 0 => .error .diverged
        | fuel + 1 => do
            let (v, r) ← read r
            let (vs, r) ← readItems read stop fuel r
            .ok (v :: vs, r)
      else .ok ([], r)

/-- One dictionary entry, which starts at a multiple of 8. -/
def readEntry (readKey readVal : Reader → Except Failure (Value × Reader)) (r : Reader) :
    Except Failure ((Value × Value) × Reader) := do
  let r ← r.align 8
  let (key, r) ← readKey r
  let (val, r) ← readVal r
  .ok ((key, val), r)

/-- The start of an array: the length of its items in bytes, and where they end. -/
def arrayStart (elem : Signature) (r : Reader) : Except Failure (Nat × Nat × Reader) := do
  let (len, r) ← r.u32
  match elem with
  | [] => .error .panicked
  | c :: cs => do
      -- An empty array has the padding of its first item all the same.
      let r ← r.align (alignment (c :: cs))
      let stop := r.pos + len.toNat
      if stop > r.buf.length then err .arrayOverrunsBuffer else .ok (len.toNat, stop, r)

/-- The items of an array, which must end where the array does. -/
def readArray (read : Reader → Except Failure (α × Reader)) (len stop : Nat) (r : Reader) :
    Except Failure (List α × Reader) := do
  let (items, r) ← readItems read stop len r
  -- Where the last item went past the end it is too late to take it back.
  if r.pos ≠ stop then err .elementOverrunsArray else .ok (items, r)

/-- `s[1..s.len() - 1]`: a signature between its brackets. -/
def inside (sig : Signature) : Except Failure Signature :=
  if 2 ≤ sig.length then .ok (sig.drop 1).dropLast else .error .panicked

/-- The inner types of the signature of a variant, a single complete one. -/
def variantType (inner : Signature) : Except Failure Signature := do
  let types ← splitSignature inner
  if types.length ≠ 1 then err .variantHoldsNotOneType else .ok inner

/-- Reads one value of the single complete type `sig`. `left` counts the
nesting levels still allowed: `MAX_DEPTH + 1` less the source's `depth`. -/
def readDepth : Nat → Signature → Reader → Except Failure (Value × Reader)
  | 0, _, _ => err .valueTooDeep
  | _ + 1, [], _ => .error .panicked
  | left + 1, c :: rest, r => do
      let r ← r.align (alignment (c :: rest))
      match c with
      | 'y' => do let (b, r) ← r.byte; .ok (.byte b, r)
      | 'b' => do
          let (v, r) ← r.u32
          -- Any other number is refused, which makes a boolean read exactly as it is written.
          if v = 0 then .ok (.bool false, r)
          else if v = 1 then .ok (.bool true, r)
          else err (.badBoolean v)
      -- Signed numbers are their bits.
      | 'n' => do let (n, r) ← r.u16; .ok (.i16 n.toInt16, r)
      | 'q' => do let (n, r) ← r.u16; .ok (.u16 n, r)
      | 'i' => do let (n, r) ← r.u32; .ok (.i32 n.toInt32, r)
      | 'u' => do let (n, r) ← r.u32; .ok (.u32 n, r)
      | 'h' => do let (n, r) ← r.u32; .ok (.fd n, r)
      | 'x' => do let (n, r) ← r.u64; .ok (.i64 n.toInt64, r)
      | 't' => do let (n, r) ← r.u64; .ok (.u64 n, r)
      | 'd' => do let (n, r) ← r.u64; .ok (.double n, r)
      | 's' => do let (n, r) ← r.u32; let (s, r) ← r.string n.toNat; .ok (.str s, r)
      | 'o' => do let (n, r) ← r.u32; let (s, r) ← r.string n.toNat; .ok (.path s, r)
      | 'g' => do let (n, r) ← r.byte; let (s, r) ← r.string n.toNat; .ok (.sig s, r)
      | 'v' => do
          let (n, r) ← r.byte
          let (inner, r) ← r.string n.toNat
          -- A variant nests one level deeper than what is around it.
          let t ← variantType inner.toList
          let (v, r) ← readDepth left t r
          .ok (.variant v, r)
      | '(' => do
          let fieldSig ← inside (c :: rest)
          -- The signature between the parentheses is split anew for each struct.
          let types ← splitSignature fieldSig
          let (vs, r) ← readFields (readDepth left) types r
          .ok (.struct vs, r)
      | 'a' => do
          let (len, stop, r) ← r.arrayStart rest
          if rest.head? = some '{' then do
            let inner ← inside rest
            -- Where the key's type ends; the rest is taken for the value's.
            let n ← completeTypeLen (left + 1) inner
            let (entries, r) ←
              readArray (readEntry (readDepth left (inner.take n)) (readDepth left (inner.drop n)))
                len stop r
            .ok (.dict (inner.take n) (inner.drop n) entries, r)
          else do
            let (items, r) ← readArray (readDepth left rest) len stop r
            .ok (.array rest items, r)
      | c => err (.cannotReadType c)

/-- Reads one value of the single complete type `sig`. -/
def read (sig : Signature) (r : Reader) : Except Failure (Value × Reader) :=
  readDepth (maxDepth + 1) sig r

end Reader

/-! ## Section 3: The Writer -/

/-- Writes values into a buffer whose offset 0 is 8-byte aligned. -/
structure Writer where
  buf : List UInt8

namespace Writer

def push (w : Writer) (bytes : List UInt8) : Writer :=
  { buf := w.buf ++ bytes }

def align (w : Writer) (n : Nat) : Writer :=
  w.push (List.replicate ((n - w.buf.length % n) % n) 0)

def u32 (w : Writer) (v : UInt32) : Writer :=
  (w.align 4).push (leBytes 4 v.toNat)

def string (w : Writer) (s : String) : Writer :=
  ((w.u32 (UInt32.ofNat (utf8 s).length)).push (utf8 s)).push [0]

def sig (w : Writer) (s : Signature) : Writer :=
  let bytes := utf8 (String.ofList s)
  w.push (UInt8.ofNat bytes.length :: bytes ++ [0])

/-- Writes `v` over the four bytes at `at`. -/
def patch (w : Writer) (pos : Nat) (v : UInt32) : Writer :=
  { buf := w.buf.take pos ++ leBytes 4 v.toNat ++ w.buf.drop (pos + 4) }

/-- The length of an array, its padding, and its items, with the length written
once the items are. -/
def array (w : Writer) (n : Nat) (items : Writer → Writer) : Writer :=
  let w₁ := w.u32 0
  let start := w₁.align n
  let w₂ := items start
  w₂.patch (w₁.buf.length - 4) (UInt32.ofNat (w₂.buf.length - start.buf.length))

mutual

def write : Value → Writer → Writer
  | v@(.byte b), w => (w.align (alignment v.signature)).push [b]
  | v@(.bool b), w => (w.align (alignment v.signature)).u32 (if b then 1 else 0)
  | v@(.i16 n), w => (w.align (alignment v.signature)).push (leBytes 2 n.toUInt16.toNat)
  | v@(.u16 n), w => (w.align (alignment v.signature)).push (leBytes 2 n.toNat)
  | v@(.i32 n), w => (w.align (alignment v.signature)).u32 n.toUInt32
  | v@(.u32 n), w => (w.align (alignment v.signature)).u32 n
  | v@(.i64 n), w => (w.align (alignment v.signature)).push (leBytes 8 n.toUInt64.toNat)
  | v@(.u64 n), w => (w.align (alignment v.signature)).push (leBytes 8 n.toNat)
  | v@(.double n), w => (w.align (alignment v.signature)).push (leBytes 8 n.toNat)
  | v@(.str s), w => (w.align (alignment v.signature)).string s
  | v@(.path s), w => (w.align (alignment v.signature)).string s
  | v@(.sig s), w => (w.align (alignment v.signature)).sig s.toList
  | v@(.fd n), w => (w.align (alignment v.signature)).u32 n
  | v@(.variant inner), w =>
      write inner ((w.align (alignment v.signature)).sig inner.signature)
  | v@(.struct fields), w => writeAll fields (w.align (alignment v.signature))
  | v@(.array elem items), w =>
      (w.align (alignment v.signature)).array (alignment elem) (writeAll items)
  | v@(.dict _ _ entries), w =>
      (w.align (alignment v.signature)).array 8 (writeEntries entries)

def writeAll : List Value → Writer → Writer
  | [], w => w
  | v :: vs, w => writeAll vs (write v w)

def writeEntries : List (Value × Value) → Writer → Writer
  | [], w => w
  | (k, v) :: es, w => writeEntries es (write v (write k (w.align 8)))

end

end Writer

/-! ## Section 4: Bodies -/

/-- Decodes a message body with signature `sig`; `big` for a big-endian body. -/
def decodeBody (sig : Signature) (body : List UInt8) (big : Bool) :
    Except Failure (List Value) := do
  let types ← splitSignature sig
  let (vs, r) ← Reader.readFields Reader.read types { buf := body, pos := 0, big := big }
  if r.pos ≠ body.length then err .trailingBytes else .ok vs

/-- Encodes values as a message body: the signature and the bytes. -/
def encodeBody (values : List Value) : Signature × List UInt8 :=
  (Value.signatures values, (Writer.writeAll values { buf := [] }).buf)

end Psbox.DBus
