import Psbox.DBus.Codec
import Psbox.DBus.Grammar

/-!
# How Values Lie on the Wire

`layout v pos` is the image of a value at an offset of a message: which bytes are
padding, which are numbers in the message's byte order, and which are the same in
either order. It is written from the D-Bus rules, apart from both directions of the
codec:

* the writer writes `layout v`, with zeros for padding (`write_eq`);
* what the reader reads at an offset fits `layout v` there, and it reads `v` from
  whatever fits (`Reads`, in `DBus/Reading.lean`).
-/

namespace Psbox.DBus

/-! ## Section 1: Images -/

/-- A piece of an encoding. -/
inductive Segment where
  /-- Padding, which says nothing. -/
  | pad (n : Nat)
  /-- A number, in the byte order of the message. -/
  | num (width : Nat) (v : Nat)
  | raw (bytes : List UInt8)

namespace Segment

def size : Segment → Nat
  | pad n => n
  | num w _ => w
  | raw bytes => bytes.length

/-- The bytes of a segment, little-endian and with zeros for padding. -/
def fill : Segment → List UInt8
  | pad n => List.replicate n 0
  | num w v => leBytes w v
  | raw bytes => bytes

end Segment

abbrev Image := List Segment

namespace Image

def size (img : Image) : Nat :=
  (img.map Segment.size).sum

def fill (img : Image) : List UInt8 :=
  img.flatMap Segment.fill

/-- The numbers are in the range of their width. -/
def Fine (img : Image) : Prop :=
  ∀ w v, .num w v ∈ img → v < 256 ^ w

/-- The buffer has the image at `pos`; its numbers are in the order `big` names. -/
def Fits (big : Bool) (b : List UInt8) : Nat → Image → Prop
  | pos, [] => pos ≤ b.length
  | pos, .pad n :: img => Fits big b (pos + n) img
  | pos, .num w v :: img =>
      ofBytes big ((b.drop pos).take w) = v ∧ Fits big b (pos + w) img
  | pos, .raw bytes :: img =>
      (b.drop pos).take bytes.length = bytes ∧ Fits big b (pos + bytes.length) img

@[simp] theorem size_nil : size [] = 0 := rfl
@[simp] theorem size_cons (s : Segment) (img : Image) : size (s :: img) = s.size + size img := by
  simp [size]
@[simp] theorem size_append (x y : Image) : size (x ++ y) = size x + size y := by
  simp [size]

@[simp] theorem fill_nil : fill [] = [] := rfl
@[simp] theorem fill_cons (s : Segment) (img : Image) : fill (s :: img) = s.fill ++ fill img := by
  simp [fill]
@[simp] theorem fill_append (x y : Image) : fill (x ++ y) = fill x ++ fill y := by
  simp [fill]

theorem fine_nil : Fine [] := by simp [Fine]

@[simp] theorem fine_append (x y : Image) : Fine (x ++ y) ↔ Fine x ∧ Fine y := by
  simp only [Fine, List.mem_append]
  constructor
  · intro h
    exact ⟨fun w v hm => h w v (Or.inl hm), fun w v hm => h w v (Or.inr hm)⟩
  · rintro ⟨hx, hy⟩ w v (hm | hm)
    · exact hx w v hm
    · exact hy w v hm

@[simp] theorem fine_pad (n : Nat) (img : Image) : Fine (.pad n :: img) ↔ Fine img := by
  simp [Fine]

@[simp] theorem fine_num (w v : Nat) (img : Image) :
    Fine (.num w v :: img) ↔ v < 256 ^ w ∧ Fine img := by
  simp only [Fine, List.mem_cons]
  constructor
  · intro h
    exact ⟨h w v (Or.inl rfl), fun w' v' hm => h w' v' (Or.inr hm)⟩
  · rintro ⟨hv, h⟩ w' v' (heq | hm)
    · cases heq
      exact hv
    · exact h w' v' hm

@[simp] theorem fine_raw (bytes : List UInt8) (img : Image) :
    Fine (.raw bytes :: img) ↔ Fine img := by
  simp [Fine]

/-! ## Section 2: What Fits -/

variable {big : Bool} {b : List UInt8} {pos : Nat}

/-- An image that fits is not longer than what there is. -/
theorem Fits.le_length {img : Image} (h : Fits big b pos img) : pos + size img ≤ b.length := by
  induction img generalizing pos with
  | nil => simpa [Fits] using h
  | cons s img ih =>
      rw [size_cons, ← Nat.add_assoc]
      cases s with
      | pad n => exact ih h
      | num w v => exact ih h.2
      | raw bytes => exact ih h.2

/-- Two images fit one after the other. -/
theorem fits_append (x y : Image) :
    Fits big b pos (x ++ y) ↔ Fits big b pos x ∧ Fits big b (pos + x.size) y := by
  induction x generalizing pos with
  | nil =>
      simp only [List.nil_append, Fits, size_nil, Nat.add_zero]
      refine ⟨fun h => ⟨?_, h⟩, And.right⟩
      have hle := h.le_length
      omega
  | cons s x ih =>
      rw [size_cons, ← Nat.add_assoc]
      cases s with
      | pad n => exact ih
      | num w v => simp only [List.cons_append, Fits, ih, Segment.size, and_assoc]
      | raw bytes => simp only [List.cons_append, Fits, ih, Segment.size, and_assoc]

end Image

/-- As many bytes as the number is wide. -/
theorem length_leBytes (w v : Nat) : (leBytes w v).length = w := by
  induction w generalizing v with
  | zero => rfl
  | succ w ih => simp [leBytes, ih]

/-- The bytes of a number are read as the number, of which as much is left as they hold. -/
theorem leNat_leBytes (w v : Nat) : leNat (leBytes w v) = v % 256 ^ w := by
  induction w generalizing v with
  | zero => simp [leBytes, leNat, Nat.mod_one]
  | succ w ih =>
      have hbyte : (UInt8.ofNat (v % 256)).toNat = v % 256 := by simp
      rw [leBytes, leNat, ih, hbyte, Nat.pow_succ, Nat.mul_comm _ 256, Nat.mod_mul]

theorem leNat_lt (bytes : List UInt8) : leNat bytes < 256 ^ bytes.length := by
  induction bytes with
  | nil => simp [leNat]
  | cons b bs ih =>
      have hb := b.toNat_lt
      rw [leNat, List.length_cons, Nat.pow_succ]
      omega

/-- Bytes are those of the number that they are read as. -/
theorem leBytes_leNat (bytes : List UInt8) : leBytes bytes.length (leNat bytes) = bytes := by
  induction bytes with
  | nil => rfl
  | cons b bs ih =>
      have hb := b.toNat_lt
      have hmod : (b.toNat + 256 * leNat bs) % 256 = b.toNat := by omega
      have hdiv : (b.toNat + 256 * leNat bs) / 256 = leNat bs := by omega
      simp only [List.length_cons, leNat, leBytes, hmod, hdiv, ih, UInt8.ofNat_toNat]

theorem leBytes_mod (w v : Nat) : leBytes w (v % 256 ^ w) = leBytes w v := by
  have h := leBytes_leNat (leBytes w v)
  rwa [length_leBytes, leNat_leBytes] at h

theorem ofBytes_lt (big : Bool) (bytes : List UInt8) : ofBytes big bytes < 256 ^ bytes.length := by
  cases big with
  | false => exact leNat_lt bytes
  | true =>
      have h := leNat_lt bytes.reverse
      rwa [List.length_reverse] at h

namespace Segment

@[simp] theorem length_fill (s : Segment) : s.fill.length = s.size := by
  cases s with
  | pad n => simp [fill, size]
  | num w v => exact length_leBytes w v
  | raw bytes => rfl

end Segment

namespace Image

@[simp] theorem length_fill (img : Image) : img.fill.length = img.size := by
  induction img with
  | nil => rfl
  | cons s img ih => simp [ih]

/-- An image fits where its bytes are. -/
theorem fits_fill {img : Image} (h : img.Fine) (before after : List UInt8) :
    Fits false (before ++ img.fill ++ after) before.length img := by
  induction img generalizing before with
  | nil => simp [Fits]
  | cons s img ih =>
      have hshape : before ++ fill (s :: img) ++ after = (before ++ s.fill) ++ fill img ++ after := by
        simp
      have hslice : ((before ++ fill (s :: img) ++ after).drop before.length).take s.size = s.fill := by
        rw [fill_cons, List.append_assoc, List.drop_left, List.append_assoc, ← s.length_fill,
          List.take_left]
      have hrest : Fine img → Fits false (before ++ fill (s :: img) ++ after)
          (before.length + s.size) img := by
        intro himg
        have := ih himg (before ++ s.fill)
        rwa [List.length_append, s.length_fill, ← hshape] at this
      cases s with
      | pad n => exact hrest ((fine_pad n img).mp h)
      | num w v =>
          obtain ⟨hv, himg⟩ := (fine_num w v img).mp h
          refine ⟨?_, hrest himg⟩
          have hw : ((before ++ fill (.num w v :: img) ++ after).drop before.length).take w =
              leBytes w v := hslice
          rw [hw]
          exact (leNat_leBytes w v).trans (Nat.mod_eq_of_lt hv)
      | raw bytes => exact ⟨hslice, hrest ((fine_raw bytes img).mp h)⟩

end Image

/-! ## Section 3: Layouts of Values -/

/-- The image at each offset. -/
abbrev Layout := Nat → Image

namespace Layout

/-- The bytes from `pos` to the next multiple of `n`. -/
def padLen (n pos : Nat) : Nat :=
  (n - pos % n) % n

def exactly (img : Image) : Layout :=
  fun _ => img

def andThen (f g : Layout) : Layout :=
  fun pos => f pos ++ g (pos + Image.size (f pos))

def aligned (n : Nat) (f : Layout) : Layout :=
  fun pos => .pad (padLen n pos) :: f (pos + padLen n pos)

def u32 (v : Nat) : Layout :=
  aligned 4 (exactly [.num 4 v])

/-- A string after its length. -/
def text (bytes : List UInt8) : Layout :=
  (u32 bytes.length).andThen (exactly [.raw (bytes ++ [0])])

/-- A signature after its length. -/
def sig (bytes : List UInt8) : Layout :=
  exactly [.num 1 bytes.length, .raw (bytes ++ [0])]

/-- Items after their length in bytes, which does not count the padding before the
first. -/
def array (n : Nat) (items : Layout) : Layout :=
  fun pos =>
    let start := pos + padLen 4 pos + 4
    .pad (padLen 4 pos) :: .num 4 (Image.size (items (start + padLen n start))) ::
      aligned n items start

end Layout

open Layout in
mutual

/-- A value from where it is aligned. -/
def content : Value → Layout
  | .byte b => exactly [.raw [b]]
  | .bool b => u32 (if b then 1 else 0)
  | .i16 n => exactly [.num 2 n.toUInt16.toNat]
  | .u16 n => exactly [.num 2 n.toNat]
  | .i32 n => u32 n.toUInt32.toNat
  | .u32 n => u32 n.toNat
  | .i64 n => exactly [.num 8 n.toUInt64.toNat]
  | .u64 n => exactly [.num 8 n.toNat]
  | .double n => exactly [.num 8 n.toNat]
  | .str s => text (utf8 s)
  | .path s => text (utf8 s)
  | .sig s => sig (utf8 s)
  | .fd n => u32 n.toNat
  | .array elem items => array (alignment elem) (layoutAll items)
  | .dict _ _ entries => array 8 (layoutEntries entries)
  | .struct fields => layoutAll fields
  | .variant inner =>
      (sig (utf8 (String.ofList inner.signature))).andThen
        (aligned (alignment inner.signature) (content inner))

def layoutAll : List Value → Layout
  | [] => exactly []
  | v :: vs => (aligned (alignment v.signature) (content v)).andThen (layoutAll vs)

def layoutEntries : List (Value × Value) → Layout
  | [] => exactly []
  | (k, v) :: es =>
      (aligned 8 ((aligned (alignment k.signature) (content k)).andThen
        (aligned (alignment v.signature) (content v)))).andThen (layoutEntries es)

end

def layout (v : Value) : Layout :=
  Layout.aligned (alignment v.signature) (content v)

def layoutEntry (e : Value × Value) : Layout :=
  Layout.aligned 8 ((layout e.1).andThen (layout e.2))

@[simp] theorem layoutAll_cons (v : Value) (vs : List Value) :
    layoutAll (v :: vs) = (layout v).andThen (layoutAll vs) := by
  rw [layoutAll, layout]

@[simp] theorem layoutEntries_cons (e : Value × Value) (es : List (Value × Value)) :
    layoutEntries (e :: es) = (layoutEntry e).andThen (layoutEntries es) := by
  rw [layoutEntries, layoutEntry, layout, layout]

/-! ## Section 4: The Writer -/

/-- A part of the writer writes a layout. -/
def Writes (f : Writer → Writer) (lay : Layout) : Prop :=
  ∀ w, f w = w.push (Image.fill (lay w.buf.length))

section Writer

variable {f g : Writer → Writer} {x y : Layout}

/-- Bytes are written as they are. -/
theorem writes_push {bytes : List UInt8} {img : Image} (h : img.fill = bytes) :
    Writes (fun w => w.push bytes) (Layout.exactly img) := by
  intro w
  rw [Layout.exactly, h]

/-- What is written after another thing comes after it in the image. -/
theorem Writes.andThen (hf : Writes f x) (hg : Writes g y) :
    Writes (fun w => g (f w)) (x.andThen y) := by
  intro w
  show g (f w) = _
  rw [hf w, hg]
  simp [Layout.andThen, Writer.push]

/-- What is written after an alignment has the padding before it. -/
theorem Writes.aligned (n : Nat) (hf : Writes f x) :
    Writes (fun w => f (w.align n)) (Layout.aligned n x) := by
  intro w
  show f (w.align n) = _
  rw [hf]
  simp [Writer.align, Layout.aligned, Layout.padLen, Writer.push, Segment.fill]

/-- A number is written at a multiple of four. -/
theorem writes_u32 (v : UInt32) : Writes (fun w => w.u32 v) (Layout.u32 v.toNat) :=
  (writes_push (by simp [Segment.fill])).aligned 4

theorem leBytes_ofNat (n : Nat) : leBytes 4 (UInt32.ofNat n).toNat = leBytes 4 n := by
  rw [UInt32.toNat_ofNat']
  exact leBytes_mod 4 n

/-- A text is written with its length before it and a zero after it. -/
theorem writes_text (s : String) : Writes (fun w => w.string s) (Layout.text (utf8 s)) := by
  intro w
  -- The conversion to `u32` changes no byte that is written.
  have hlen : leBytes 4 ((utf8 s).length % 4294967296) = leBytes 4 (utf8 s).length :=
    leBytes_mod 4 _
  simp [Writer.string, Writer.u32, Writer.align, Writer.push, Layout.text, Layout.u32,
    Layout.andThen, Layout.aligned, Layout.exactly, Layout.padLen, Segment.fill, hlen]

/-- A signature is written so too, with its length in one byte. -/
theorem writes_sig (s : Signature) :
    Writes (fun w => w.sig s) (Layout.sig (utf8 (String.ofList s))) := by
  intro w
  -- The conversion to a byte changes nothing that is written.
  have hbyte : UInt8.ofNat ((utf8 (String.ofList s)).length % 256) =
      UInt8.ofNat (utf8 (String.ofList s)).length := by
    apply UInt8.toNat_inj.mp
    simp
  simp [Writer.sig, Writer.push, Layout.sig, Layout.exactly, Segment.fill, leBytes, hbyte]

/-- Only the four bytes at the place are written over. -/
theorem patch_append (before : List UInt8) {four : List UInt8} (after : List UInt8) (v : UInt32)
    (hfour : four.length = 4) :
    Writer.patch { buf := before ++ four ++ after } before.length v =
      { buf := before ++ leBytes 4 v.toNat ++ after } := by
  -- Before the place, and behind it.
  have htake : (before ++ four ++ after).take before.length = before := by
    rw [List.append_assoc, List.take_left]
  have hdrop : (before ++ four ++ after).drop (before.length + 4) = after := by
    rw [← hfour, ← List.length_append, List.drop_left]
  rw [Writer.patch, htake, hdrop]

/-- The length of an array is known, and written, after its items. -/
theorem Writes.array (n : Nat) (hf : Writes f x) :
    Writes (fun w => w.array n f) (Layout.array n x) := by
  intro w
  let before := w.buf ++ List.replicate (Layout.padLen 4 w.buf.length) 0
  -- The place of the length is behind its own padding.
  have hbefore : before.length = w.buf.length + Layout.padLen 4 w.buf.length := by simp [before]
  have hlen : w.u32 0 = { buf := before ++ leBytes 4 0 } := rfl
  have hwidth : (before ++ leBytes 4 0).length = before.length + 4 := by
    rw [List.length_append, length_leBytes]
  let gap := List.replicate (Layout.padLen n (before.length + 4)) (0 : UInt8)
  -- The padding of the items comes before they are written.
  have hstart : (w.u32 0).align n = { buf := before ++ leBytes 4 0 ++ gap } := by
    rw [hlen, Writer.align, hwidth]
    rfl
  let items := Image.fill (x (before.length + 4 + Layout.padLen n (before.length + 4)))
  -- The items are written where the length is not known yet.
  have hitems : f ((w.u32 0).align n) = { buf := before ++ leBytes 4 0 ++ (gap ++ items) } := by
    rw [hf, hstart]
    simp only [Writer.push, List.length_append, length_leBytes, List.append_assoc, gap, items,
      List.length_replicate, Nat.add_assoc]
  show Writer.patch (f ((w.u32 0).align n)) ((w.u32 0).buf.length - 4)
    (UInt32.ofNat ((f ((w.u32 0).align n)).buf.length - ((w.u32 0).align n).buf.length)) = _
  -- What is between the start of the items and the end is their length.
  have hcount : (before ++ leBytes 4 0 ++ (gap ++ items)).length -
      (before ++ leBytes 4 0 ++ gap).length = items.length := by
    simp only [List.length_append]
    omega
  rw [hitems, hstart, hlen]
  simp only [hcount, hwidth, Nat.add_sub_cancel]
  rw [patch_append before (gap ++ items) _ (length_leBytes 4 0), leBytes_ofNat]
  simp only [Writer.push, Layout.array, Layout.aligned, Image.fill_cons, Segment.fill,
    Image.length_fill, items, gap, before, hbefore, List.append_assoc]

mutual

/-- The writer writes the layout of a value. -/
theorem writes_value : ∀ v : Value, Writes (Writer.write v) (layout v)
  | .byte b => (writes_push (by simp [Segment.fill])).aligned 1
  | .bool b => by
      have h := (writes_u32 (if b then 1 else 0)).aligned 4
      -- A boolean is written as a number.
      cases b <;> exact h
  | .i16 n => (writes_push (by simp [Segment.fill])).aligned 2
  | .u16 n => (writes_push (by simp [Segment.fill])).aligned 2
  | .i32 n => (writes_u32 n.toUInt32).aligned 4
  | .u32 n => (writes_u32 n).aligned 4
  | .i64 n => (writes_push (by simp [Segment.fill])).aligned 8
  | .u64 n => (writes_push (by simp [Segment.fill])).aligned 8
  | .double n => (writes_push (by simp [Segment.fill])).aligned 8
  | .str s => (writes_text s).aligned 4
  | .path s => (writes_text s).aligned 4
  | .sig s => by
      have h := (writes_sig s.toList).aligned 1
      rw [String.ofList_toList] at h
      exact h
  | .fd n => (writes_u32 n).aligned 4
  | .variant inner => ((writes_sig inner.signature).andThen (writes_value inner)).aligned 1
  | .struct fields => (writes_all fields).aligned 8
  | .array elem items => ((writes_all items).array (alignment elem)).aligned 4
  | .dict _ _ entries => ((writes_entries entries).array 8).aligned 4

/-- Values are written one after another. -/
theorem writes_all : ∀ vs : List Value, Writes (Writer.writeAll vs) (layoutAll vs)
  | [] => by
      intro w
      simp [Writer.writeAll, layoutAll, Layout.exactly, Writer.push]
  | v :: vs => by
      rw [layoutAll_cons]
      exact (writes_value v).andThen (writes_all vs)

/-- So are the entries of a dictionary. -/
theorem writes_entries : ∀ es : List (Value × Value),
    Writes (Writer.writeEntries es) (layoutEntries es)
  | [] => by
      intro w
      simp [Writer.writeEntries, layoutEntries, Layout.exactly, Writer.push]
  | (k, v) :: es => by
      rw [layoutEntries_cons]
      exact (((writes_value k).andThen (writes_value v)).aligned 8).andThen (writes_entries es)

end

end Writer

/-- The body of a message is the image of its values, from offset 0. -/
theorem encodeBody_eq (vs : List Value) :
    encodeBody vs = (Value.signatures vs, Image.fill (layoutAll vs 0)) := by
  rw [encodeBody, writes_all vs]
  rfl

end Psbox.DBus
