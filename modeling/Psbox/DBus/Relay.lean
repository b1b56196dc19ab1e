import Psbox.DBus.Message
import Psbox.DBus.RoundTrip

/-!
# Relaying Messages

A message that was parsed is encoded so that it parses to the same.

`parseHeader_eq_ok` says what a header is in terms of the image of its fields, and
`encode_eq` writes an encoding in the same terms. In between lies that the fields
that are written are among those that were read (`weight_headerFields_foldl`): they
are as well formed as those were, and they take no more room.
-/

namespace Psbox.DBus

open Image
open Psbox.Foundations (bind_eq_ok)

/-! ## Section 1: Layouts and Alignment -/

/-- The layout is the same wherever the alignment is. -/
def Periodic (x : Layout) : Prop :=
  ∀ pos, x (pos + 8) = x pos

section Periodic

variable {x y : Layout}

theorem padLen_add (n pos : Nat) (hn : n ∣ 8) : Layout.padLen n (pos + 8) = Layout.padLen n pos := by
  obtain ⟨k, hk⟩ := hn
  rw [Layout.padLen, Layout.padLen, hk, Nat.add_mul_mod_self_left]

/-- Every alignment divides eight. -/
theorem alignment_dvd (t : Signature) : alignment t ∣ 8 := by
  cases t with
  | nil => exact ⟨8, rfl⟩
  | cons c cs =>
      show (if _ then 1 else if _ then 2 else if _ then 8 else 4) ∣ 8
      split_ifs <;> decide

theorem periodic_exactly (img : Image) : Periodic (Layout.exactly img) :=
  fun _ => rfl

/-- Two layouts that look the same every eight bytes do so together. -/
theorem Periodic.andThen (hx : Periodic x) (hy : Periodic y) : Periodic (x.andThen y) := by
  intro pos
  rw [Layout.andThen, Layout.andThen, hx, Nat.add_right_comm, hy]

/-- And behind an alignment. -/
theorem Periodic.aligned (hx : Periodic x) {n : Nat} (hn : n ∣ 8) : Periodic (Layout.aligned n x) := by
  intro pos
  rw [Layout.aligned, Layout.aligned, padLen_add n pos hn, Nat.add_right_comm, hx]

theorem periodic_u32 (v : Nat) : Periodic (Layout.u32 v) :=
  (periodic_exactly _).aligned ⟨2, rfl⟩

theorem periodic_text (bytes : List UInt8) : Periodic (Layout.text bytes) :=
  (periodic_u32 _).andThen (periodic_exactly _)

/-- And so does an array of them. -/
theorem Periodic.array (hx : Periodic x) {n : Nat} (hn : n ∣ 8) : Periodic (Layout.array n x) := by
  intro pos
  -- Eight bytes later the padding is the same.
  have hstart : pos + 8 + Layout.padLen 4 pos + 4 = pos + Layout.padLen 4 pos + 4 + 8 := by omega
  simp only [Layout.array, padLen_add 4 pos ⟨2, rfl⟩, hstart, padLen_add n _ hn]
  rw [Nat.add_right_comm _ 8, hx, hx.aligned hn]

mutual

/-- Every value looks the same at places eight bytes apart. -/
theorem periodic_content : ∀ v : Value, Periodic (content v)
  | .byte _ | .i16 _ | .u16 _ | .i64 _ | .u64 _ | .double _ | .sig _ => periodic_exactly _
  | .bool _ | .i32 _ | .u32 _ | .fd _ => periodic_u32 _
  | .str _ | .path _ => periodic_text _
  | .array elem items => (periodic_all items).array (alignment_dvd elem)
  | .dict _ _ entries => (periodic_entries entries).array ⟨1, rfl⟩
  | .struct fields => periodic_all fields
  | .variant inner =>
      (periodic_exactly _).andThen ((periodic_content inner).aligned (alignment_dvd _))

/-- So do values one after another. -/
theorem periodic_all : ∀ vs : List Value, Periodic (layoutAll vs)
  | [] => periodic_exactly _
  | v :: vs => ((periodic_content v).aligned (alignment_dvd _)).andThen (periodic_all vs)

/-- And the entries of a dictionary. -/
theorem periodic_entries : ∀ es : List (Value × Value), Periodic (layoutEntries es)
  | [] => periodic_exactly _
  | (k, v) :: es =>
      ((((periodic_content k).aligned (alignment_dvd _)).andThen
        ((periodic_content v).aligned (alignment_dvd _))).aligned ⟨1, rfl⟩).andThen
        (periodic_entries es)

end

theorem Periodic.at_zero (hx : Periodic x) {pos : Nat} (hpos : pos % 8 = 0) : x pos = x 0 := by
  obtain ⟨k, rfl⟩ := Nat.dvd_of_mod_eq_zero hpos
  clear hpos
  -- By induction over the number of eights.
  induction k with
  | zero => rfl
  | succ k ih => rw [Nat.mul_succ, hx, ih]

end Periodic

/-! ## Section 2: Lists of Header Fields -/

/-- A header field of any code and value. -/
def IsField (f : Value) : Prop :=
  ∃ code v, f = .struct [.byte code, .variant v]

/-- The room a field takes, up to where the next one starts. -/
def span (f : Value) : Nat :=
  pad8 (size (content f 0))

/-- A header field is laid out behind its padding as at the start. -/
theorem IsField.layout {f : Value} (h : IsField f) (pos : Nat) :
    layout f pos = .pad (Layout.padLen 8 pos) :: content f 0 := by
  obtain ⟨code, v, rfl⟩ := h
  -- A field starts at a multiple of eight.
  have hpos : (pos + Layout.padLen 8 pos) % 8 = 0 := by
    rw [Layout.padLen]
    omega
  show .pad (Layout.padLen 8 pos) :: content _ (pos + Layout.padLen 8 pos) = _
  rw [(periodic_content _).at_zero hpos]

theorem signature_byte {v : Value} (h : v.signature = ['y']) : ∃ b, v = .byte b := by
  cases v <;> simp [Value.signature] at h
  exact ⟨_, rfl⟩

theorem signature_variant {v : Value} (h : v.signature = ['v']) : ∃ w, v = .variant w := by
  cases v <;> simp [Value.signature] at h
  exact ⟨_, rfl⟩

/-- What has the type of a header field is one. -/
theorem IsOf.isField {n : Nat} {f : Value} (h : IsOf n ['(', 'y', 'v', ')'] f) : IsField f := by
  obtain ⟨hsig, htyped⟩ := h
  cases htyped with
  | @struct _ fields hne htypes hfields =>
      -- The signature of the fields is that of the two types.
      have hinner : Value.signatures fields = ['y'] ++ ['v'] := by
        rw [Value.signature] at hsig
        exact List.append_inj_left' (List.cons_injective hsig) rfl
      obtain ⟨a, as, rfl⟩ := List.exists_cons_of_ne_nil hne
      have hbyte : IsType 1 ['y'] := .basic rfl
      obtain ⟨ha, has⟩ := (htypes a List.mem_cons_self).append_inj hbyte hinner
      cases as with
      | nil => cases has
      | cons b bs =>
          have hvariant : IsType 1 ['v'] := .basic rfl
          -- A byte, so that the variant is what is left.
          have hrest : Value.signatures (b :: bs) = ['v'] ++ [] := has
          obtain ⟨hb, hbs⟩ := (htypes b (by simp)).append_inj hvariant hrest
          cases bs with
          | nil =>
              obtain ⟨code, rfl⟩ := signature_byte ha
              obtain ⟨v, rfl⟩ := signature_variant hb
              exact ⟨code, v, rfl⟩
          | cons c cs =>
              -- A third value would have a type of no characters.
              have hc := (htypes c (by simp)).ne_nil
              exact absurd (List.append_eq_nil_iff.mp hbs).1 hc
  | _ => simp [Value.signature] at hsig

/-- The fields of a header take their own room each, wherever they start. -/
theorem pad8_size_layoutAll {fs : List Value} (hfs : ∀ f ∈ fs, IsField f) (pos : Nat) :
    pad8 (pos + size (layoutAll fs pos)) = pad8 pos + (fs.map span).sum := by
  -- Induction over the fields, each of which ends somewhere.
  induction fs generalizing pos with
  | nil => simp [layoutAll, Layout.exactly]
  | cons f fs ih =>
      -- The rest is as long from where the next one starts.
      have hrest := ih (fun g hg => hfs g (List.mem_cons_of_mem f hg))
        (pos + (Layout.padLen 8 pos + size (content f 0)))
      rw [layoutAll_cons, Layout.andThen, (hfs f List.mem_cons_self).layout, size_append, size_cons,
        Segment.size, ← Nat.add_assoc, hrest, List.map_cons, List.sum_cons]
      simp only [span, pad8, Layout.padLen]
      omega

/-- Header fields can be written together if each can. -/
theorem fine_layoutAll {fs : List Value} (hfs : ∀ f ∈ fs, IsField f) (pos : Nat) :
    Fine (layoutAll fs pos) ↔ ∀ f ∈ fs, Fine (content f 0) := by
  -- Induction over the fields; where each starts is no matter.
  induction fs generalizing pos with
  | nil => simp [layoutAll, Layout.exactly, fine_nil]
  | cons f fs ih =>
      rw [layoutAll_cons, Layout.andThen, (hfs f List.mem_cons_self).layout, fine_append, fine_pad,
        ih fun g hg => hfs g (List.mem_cons_of_mem f hg)]
      simp

/-! ## Section 3: The Fields That Are Written -/

/-- What the fields of a header weigh together. -/
def weight (w : Value → Nat) (fs : List Value) : Nat :=
  (fs.map w).sum

/-- The weight of header fields is the sum of theirs. -/
theorem weight_append (w : Value → Nat) (xs ys : List Value) :
    weight w (xs ++ ys) = weight w xs + weight w ys := by
  simp [weight]

namespace Message

@[simp] theorem weight_some (w : Value → Nat) (code : UInt8) (v : Value) :
    weight w (headerField code (some v)) = w (.struct [.byte code, .variant v]) := by
  simp [weight, headerField]

/-- The weight of a message's fields, field by field. -/
theorem weight_headerFields (w : Value → Nat) (m : Message) : weight w m.headerFields =
    weight w (headerField fieldPath (m.path.map .path)) +
    weight w (headerField fieldInterface (m.interface.map .str)) +
    weight w (headerField fieldMember (m.member.map .str)) +
    weight w (headerField fieldErrorName (m.errorName.map .str)) +
    weight w (headerField fieldReplySerial (m.replySerial.map .u32)) +
    weight w (headerField fieldDestination (m.destination.map .str)) +
    weight w (headerField fieldSignature
      (if m.signature = [] then none else some (.sig (String.ofList m.signature)))) +
    weight w (headerField fieldUnixFds (if m.unixFds > 0 then some (.u32 m.unixFds) else none)) := by
  simp only [headerFields, weight_append]

theorem weight_ite_le (w : Value → Nat) (code : UInt8) (c : Prop) [Decidable c] (v : Value) :
    weight w (headerField code (if c then some v else none)) ≤ w (.struct [.byte code, .variant v]) := by
  split
  · exact Nat.le_of_eq (weight_some w code v)
  · exact Nat.zero_le _

/-- A field that is taken is written again at most once, in place of another one. -/
theorem weight_headerFields_takeField (w : Value → Nat) (m : Message) (f : Value) :
    weight w (takeField m f).headerFields ≤ weight w m.headerFields + w f := by
  fun_cases takeField m f
  case case12 s =>
    -- An empty signature is not written.
    simp only [weight_headerFields, String.ofList_toList]
    have hsig := weight_ite_le w fieldSignature (¬ s.toList = []) (.sig s)
    rw [ite_not] at hsig
    omega
  case case10 n _ =>
    -- Nor is a count of no descriptors.
    simp only [weight_headerFields]
    have hfds := weight_ite_le w fieldUnixFds (n > 0) (.u32 n)
    omega
  case case1 | case3 | case4 | case5 | case6 | case9 =>
    simp only [weight_headerFields, Option.map_some, weight_some]
    omega
  all_goals exact Nat.le_add_right _ _

/-- What is taken of header fields is no heavier than they are. -/
theorem weight_headerFields_foldl (w : Value → Nat) (m : Message) (fs : List Value) :
    weight w (fs.foldl takeField m).headerFields ≤ weight w m.headerFields + weight w fs := by
  -- Each field is taken in turn, and adds its own weight at most.
  induction fs generalizing m with
  | nil => simp [weight]
  | cons f fs ih =>
      have hstep := weight_headerFields_takeField w m f
      have hrest := ih (takeField m f)
      have hsum : weight w (f :: fs) = w f + weight w fs := by simp [weight]
      rw [List.foldl_cons, hsum]
      omega

/-- A header without fields, as `parse_header` starts from. -/
def start (kind flags : UInt8) (serial : UInt32) : Message :=
  { kind := kind, flags := flags, serial := serial }

theorem headerFields_start (kind flags : UInt8) (serial : UInt32) :
    (start kind flags serial).headerFields = [] := rfl

/-- What holds of the fields that were read holds of those that are written. -/
theorem forall_headerFields {p : Value → Prop} {fs : List Value} (h : ∀ f ∈ fs, p f)
    (kind flags : UInt8) (serial : UInt32) :
    ∀ f ∈ (fs.foldl takeField (start kind flags serial)).headerFields, p f := by
  classical
  -- Each field that does not satisfy it weighs one.
  have hle := weight_headerFields_foldl (fun f => if p f then 0 else 1) (start kind flags serial) fs
  have hnone : weight (fun f => if p f then 0 else 1) fs = 0 := by
    apply List.sum_eq_zero_iff_forall_eq_nat.mpr
    intro n hn
    obtain ⟨f, hf, rfl⟩ := List.mem_map.mp hn
    exact if_pos (h f hf)
  rw [headerFields_start, hnone] at hle
  -- None that was read weighs anything, so none that is written does.
  have hwritten := List.sum_eq_zero_iff_forall_eq_nat.mp (Nat.le_zero.mp hle)
  intro f hf
  by_contra hp
  have hone := hwritten _ (List.mem_map_of_mem hf)
  rw [if_neg hp] at hone
  exact absurd hone Nat.one_ne_zero

/-- The fields that are written take no more room than those that were read. -/
theorem span_headerFields_le (fs : List Value) (kind flags : UInt8) (serial : UInt32) :
    ((fs.foldl takeField (start kind flags serial)).headerFields.map span).sum ≤
      (fs.map span).sum := by
  -- Here a field weighs the room it takes.
  have hle := weight_headerFields_foldl span (start kind flags serial) fs
  rw [headerFields_start] at hle
  simpa [weight] using hle

section Foldl

variable (m : Message)

/-- The path that is written is taken. -/
theorem foldl_path (o : Option String) : (headerField fieldPath (o.map .path)).foldl takeField m =
    { m with path := o.or m.path } := by
  cases o <;> rfl

/-- So is the interface. -/
theorem foldl_interface (o : Option String) :
    (headerField fieldInterface (o.map .str)).foldl takeField m =
      { m with interface := o.or m.interface } := by
  cases o <;> rfl

/-- So is the member. -/
theorem foldl_member (o : Option String) :
    (headerField fieldMember (o.map .str)).foldl takeField m =
      { m with member := o.or m.member } := by
  cases o <;> rfl

/-- So is the error's name. -/
theorem foldl_errorName (o : Option String) :
    (headerField fieldErrorName (o.map .str)).foldl takeField m =
      { m with errorName := o.or m.errorName } := by
  cases o <;> rfl

/-- So is the serial that is replied to. -/
theorem foldl_replySerial (o : Option UInt32) :
    (headerField fieldReplySerial (o.map .u32)).foldl takeField m =
      { m with replySerial := o.or m.replySerial } := by
  cases o <;> rfl

/-- So is the destination. -/
theorem foldl_destination (o : Option String) :
    (headerField fieldDestination (o.map .str)).foldl takeField m =
      { m with destination := o.or m.destination } := by
  cases o <;> rfl

/-- The signature is taken, which a message without one leaves out. -/
theorem foldl_signature (sig : Signature) (hm : m.signature = []) :
    (headerField fieldSignature
      (if sig = [] then none else some (.sig (String.ofList sig)))).foldl takeField m =
      { m with signature := sig } := by
  split
  · rename_i hnil
    rw [hnil, ← hm]
    rfl
  · show { m with signature := (String.ofList sig).toList } = _
    rw [String.toList_ofList]

/-- The number of descriptors is taken, which a message without any leaves out. -/
theorem foldl_unixFds (n : UInt32) (hm : m.unixFds = 0) :
    (headerField fieldUnixFds (if n > 0 then some (.u32 n) else none)).foldl takeField m =
      { m with unixFds := n } := by
  split
  · rfl
  · rename_i hzero
    have hn : n = 0 := UInt32.le_zero_iff.mp (UInt32.not_lt.mp hzero)
    rw [hn, ← hm]
    rfl

end Foldl

/-- The fields that are written say all of the message but its sender and its body. -/
theorem foldl_headerFields (m : Message) (serial : UInt32) :
    m.headerFields.foldl takeField (start m.kind m.flags serial) =
      { m with serial := serial, sender := none, body := [] } := by
  simp only [headerFields, List.foldl_append]
  rw [foldl_path, foldl_interface, foldl_member, foldl_errorName, foldl_replySerial,
    foldl_destination, foldl_signature _ _ rfl, foldl_unixFds _ _ rfl]
  simp [start]

end Message

/-! ## Section 4: Headers on the Wire -/

/-- The array of a header's fields. -/
def fieldArray (fs : List Value) : Value :=
  .array ['(', 'y', 'v', ')'] fs

/-- The array of fields has its length before it, and their padding. -/
theorem layout_fieldArray (fs : List Value) : layout (fieldArray fs) 12 =
    [.pad 0, .pad 0, .num 4 (size (layoutAll fs 16)), .pad 0] ++ layoutAll fs 16 := by
  rw [layout, fieldArray, content, Value.signature]
  rfl

theorem size_fieldArray (fs : List Value) :
    12 + size (layout (fieldArray fs) 12) = 16 + size (layoutAll fs 16) := by
  rw [layout_fieldArray, size_append]
  simp only [size_cons, size_nil, Segment.size]
  omega

theorem isType_fieldArray : IsType 4 ['a', '(', 'y', 'v', ')'] := by
  apply IsType.array
  exact IsType.struct [['y'], ['v']] (by decide) (by simp; exact ⟨.basic rfl, .basic rfl⟩)

/-- What has the type of the array of fields is one. -/
theorem isOf_fieldArray {v : Value} :
    IsOf (maxDepth + 1) ['a', '(', 'y', 'v', ')'] v ↔
      ∃ fs, v = fieldArray fs ∧ ∀ f ∈ fs, IsOf maxDepth ['(', 'y', 'v', ')'] f := by
  constructor
  · rintro ⟨hsig, htyped⟩
    -- An array of this element type is an array of fields.
    cases htyped with
    | @array _ elem items _ htype hitems =>
        have helem : elem = ['(', 'y', 'v', ')'] := List.cons_injective hsig
        subst helem
        exact ⟨items, rfl, fun f hf => ⟨htype f hf, hitems f hf⟩⟩
    | _ => simp [Value.signature] at hsig
  · rintro ⟨fs, rfl, hfs⟩
    exact ⟨rfl, .array (by decide) (fun f hf => (hfs f hf).1) fun f hf => (hfs f hf).2⟩

/-- What `parse_header` accepts: one whole frame, whose fields are where the prefix
says. -/
theorem parseHeader_eq_ok {buf : List UInt8} {m : Message} {big : Bool} :
    Message.parseHeader buf = .ok (m, big) ↔
      16 ≤ buf.length ∧ frameLen (buf.take 16) = .ok buf.length ∧ buf.getD 3 0 = 1 ∧
      bigEndian (buf.getD 0 0) = .ok big ∧
      ∃ fs, (∀ f ∈ fs, IsOf maxDepth ['(', 'y', 'v', ')'] f) ∧ Fine (layout (fieldArray fs) 12) ∧
        Fits big buf 12 (layout (fieldArray fs) 12) ∧
        size (layoutAll fs 16) = (prefixU32 buf 12 big).toNat ∧
        m = { fs.foldl Message.takeField
                (Message.start (buf.getD 1 0) (buf.getD 2 0) (prefixU32 buf 8 big)) with
              body := buf.drop (pad8 (16 + size (layoutAll fs 16))) } := by
  -- The array of fields is read from the byte order on.
  have hread := fun big => readDepth_reads isType_fieldArray (maxDepth + 1) big buf 12
  constructor
  · intro h
    unfold Message.parseHeader at h
    split at h
    · cases h
    rename_i hlen
    obtain ⟨total, htotal, h⟩ := bind_eq_ok h
    split at h
    · cases h
    rename_i hall
    split at h
    · cases h
    rename_i hversion
    obtain ⟨big', hbig, h⟩ := bind_eq_ok h
    obtain ⟨⟨v, r⟩, hv, h⟩ := bind_eq_ok h
    unfold Reader.read at hv
    obtain ⟨hof, hfine, hfits, rfl⟩ := (hread big' (by omega) v r).mp hv
    obtain ⟨fs, rfl, hfs⟩ := isOf_fieldArray.mp hof
    change (if 12 + size (layout (fieldArray fs) 12) ≠ 16 + (prefixU32 buf 12 big').toNat then
      err .headerFieldsLengthMismatch else Except.ok (_, _)) = _ at h
    -- The fields may end before or behind what the prefix says.
    by_cases hend : 12 + size (layout (fieldArray fs) 12) = 16 + (prefixU32 buf 12 big').toNat
    · rw [if_neg (not_not.mpr hend)] at h
      obtain ⟨rfl, rfl⟩ := Prod.mk.inj (Except.ok.inj h)
      have hfields := Nat.add_left_cancel ((size_fieldArray fs).symm.trans hend)
      rw [← not_not.mp hall] at htotal
      refine ⟨Nat.not_lt.mp hlen, htotal, not_not.mp hversion, hbig, fs, hfs, hfine, hfits, hfields, ?_⟩
      rw [hfields]
      rfl
    · rw [if_pos hend] at h
      cases h
  · rintro ⟨hlen, htotal, hversion, hbig, fs, hfs, hfine, hfits, hfields, rfl⟩
    -- The other way the checks hold one after the other.
    have hv := (hread big (by omega) _ _).mpr ⟨isOf_fieldArray.mpr ⟨fs, rfl, hfs⟩, hfine, hfits, rfl⟩
    unfold Message.parseHeader Reader.read
    rw [if_neg (Nat.not_lt.mpr hlen), htotal, ok_bind, if_neg (not_not.mpr rfl),
      if_neg (not_not.mpr hversion), hbig, ok_bind, hv, ok_bind]
    change (if 12 + size (layout (fieldArray fs) 12) ≠ 16 + (prefixU32 buf 12 big).toNat then
      err .headerFieldsLengthMismatch else Except.ok (_, _)) = _
    rw [if_neg, hfields]
    · rfl
    · rw [← hfields]
      exact not_not.mpr (size_fieldArray fs)

/-- The fixed prefix of an encoding. -/
def encodedPrefix (m : Message) (serial : UInt32) : List UInt8 :=
  ['l'.toUInt8, m.kind, m.flags, 1] ++ leBytes 4 m.body.length ++ leBytes 4 serial.toNat

/-- An encoding is its prefix, the image of the fields, padding, and the body. -/
theorem encode_eq (m : Message) (serial : UInt32) :
    m.encode serial = encodedPrefix m serial ++ fill (layout (fieldArray m.headerFields) 12) ++
      (List.replicate (Layout.padLen 8 (16 + size (layoutAll m.headerFields 16))) 0 ++ m.body) := by
  -- The array is written behind the first twelve bytes.
  have hwrite := writes_value (fieldArray m.headerFields) { buf := encodedPrefix m serial }
  have hlen : (encodedPrefix m serial).length = 12 := by simp [encodedPrefix, length_leBytes]
  have hnumbers : (({ buf := ['l'.toUInt8, m.kind, m.flags, 1] } : Writer).u32
      (UInt32.ofNat m.body.length)).u32 serial = { buf := encodedPrefix m serial } := by
    simp only [Writer.u32, Writer.align, Writer.push, leBytes_ofNat, encodedPrefix]
    simp [length_leBytes]
  -- It ends where the fields do, since its own length takes four bytes.
  have hsize : 12 + size (layout (fieldArray m.headerFields) 12) =
      16 + size (layoutAll m.headerFields 16) := size_fieldArray _
  rw [hlen] at hwrite
  unfold Message.encode
  simp only []
  rw [hnumbers]
  change ((Writer.write (fieldArray m.headerFields) _).align 8 |>.push m.body).buf = _
  rw [hwrite, Writer.align]
  simp only [Writer.push, List.length_append, hlen, length_fill, hsize]
  rw [← Layout.padLen, List.append_assoc]

/-- A number in the first bytes is read where it was written. -/
theorem prefixU32_append {before mid : List UInt8} (after : List UInt8) {pos n : Nat}
    (hpos : before.length = pos) (hmid : mid = leBytes 4 n) :
    prefixU32 (before ++ mid ++ after) pos false = UInt32.ofNat n := by
  -- The slice is what was put there.
  have hslice : ((before ++ mid ++ after).drop pos).take 4 = mid := by
    rw [← hpos, List.append_assoc, List.drop_left, ← length_leBytes 4 n, ← hmid, List.take_left]
  rw [prefixU32, hslice, hmid]
  show UInt32.ofNat (leNat (leBytes 4 n)) = _
  rw [leNat_leBytes]
  apply UInt32.toNat_inj.mp
  simp

section Prefix

variable (m : Message) (serial : UInt32) (count : Nat) (after : List UInt8)

/-- All 16 bytes of it. -/
def wholePrefix : List UInt8 :=
  encodedPrefix m serial ++ leBytes 4 count

/-- There are 16 bytes before the fields. -/
theorem length_wholePrefix : (wholePrefix m serial count).length = 16 := by
  simp [wholePrefix, encodedPrefix, length_leBytes]

/-- The length of the body is read as it was written. -/
theorem prefixU32_bodyLength : prefixU32 (wholePrefix m serial count ++ after) 4 false =
    UInt32.ofNat m.body.length := by
  have hshape : wholePrefix m serial count ++ after = ['l'.toUInt8, m.kind, m.flags, 1] ++
      leBytes 4 m.body.length ++ (leBytes 4 serial.toNat ++ leBytes 4 count ++ after) := by
    simp [wholePrefix, encodedPrefix]
  rw [hshape]
  exact prefixU32_append _ rfl rfl

/-- So is the serial. -/
theorem prefixU32_serial : prefixU32 (wholePrefix m serial count ++ after) 8 false = serial := by
  have hshape : wholePrefix m serial count ++ after = (['l'.toUInt8, m.kind, m.flags, 1] ++
      leBytes 4 m.body.length) ++ leBytes 4 serial.toNat ++ (leBytes 4 count ++ after) := by
    simp [wholePrefix, encodedPrefix]
  rw [hshape, prefixU32_append (n := serial.toNat) _ (by simp [length_leBytes]) rfl, UInt32.ofNat_toNat]

/-- And the length of the fields. -/
theorem prefixU32_fieldsLength : prefixU32 (wholePrefix m serial count ++ after) 12 false =
    UInt32.ofNat count :=
  prefixU32_append _ (by simp [encodedPrefix, length_leBytes]) rfl

/-- The length of a frame is told of its first 16 bytes. -/
theorem frameLen_encoded (hbody : m.body.length < 2 ^ 32) (hcount : count < 2 ^ 32)
    (hmax : pad8 (16 + count) + m.body.length ≤ maxMessage) :
    frameLen (wholePrefix m serial count) = .ok (pad8 (16 + count) + m.body.length) := by
  -- Both lengths are read as they were written.
  have hb := prefixU32_bodyLength m serial count []
  have hc := prefixU32_fieldsLength m serial count []
  rw [List.append_nil] at hb hc
  have hbig : bigEndian ((wholePrefix m serial count).headD 0) = .ok false := rfl
  unfold frameLen
  simp only [hbig, ok_bind, hb, hc, UInt32.toNat_ofNat', Nat.mod_eq_of_lt hbody,
    Nat.mod_eq_of_lt hcount]
  rw [if_neg (Nat.not_lt.mpr hmax)]

end Prefix

/-- A header with well-formed fields is parsed as it was encoded. -/
theorem parseHeader_encode {m : Message}
    (hfs : ∀ f ∈ m.headerFields, IsOf maxDepth ['(', 'y', 'v', ')'] f)
    (hfine : ∀ f ∈ m.headerFields, Fine (content f 0))
    (hmax : pad8 (16 + size (layoutAll m.headerFields 16)) + m.body.length ≤ maxMessage)
    (serial : UInt32) :
    frameLen ((m.encode serial).take 16) = .ok (m.encode serial).length ∧
      Message.parseHeader (m.encode serial) =
        .ok ({ m with serial := serial, sender := none }, false) := by
  -- The number of bytes of the fields is one, as the message is short enough.
  have hcount : size (layoutAll m.headerFields 16) < 2 ^ 32 := by
    simp only [pad8, maxMessage] at hmax
    omega
  have hbody : m.body.length < 2 ^ 32 := by
    simp only [maxMessage] at hmax
    omega
  -- The message is its 16 bytes, the fields, their padding and the body.
  have hencode := encode_eq m serial
  have hfineAll : Fine (layout (fieldArray m.headerFields) 12) := by
    rw [layout_fieldArray, fine_append]
    refine ⟨?_, (fine_layoutAll (fun f hf => (hfs f hf).isField) 16).mpr hfine⟩
    simp only [fine_pad, fine_num, fine_nil, and_true]
    exact hcount
  have hfits := fits_fill hfineAll (encodedPrefix m serial)
    (List.replicate (Layout.padLen 8 (16 + size (layoutAll m.headerFields 16))) 0 ++ m.body)
  rw [← hencode] at hfits
  let count := size (layoutAll m.headerFields 16)
  let before := wholePrefix m serial count ++ fill (layoutAll m.headerFields 16) ++
    List.replicate (Layout.padLen 8 (16 + count)) 0
  have hbefore : before.length = pad8 (16 + count) := by
    simp only [before, List.length_append, length_wholePrefix, length_fill, List.length_replicate]
    rw [pad8, Layout.padLen]
    omega
  have hsplit : m.encode serial = before ++ m.body := by
    rw [hencode, layout_fieldArray]
    simp [Segment.fill, before, count, wholePrefix]
  have hshape : m.encode serial = wholePrefix m serial count ++ (fill (layoutAll m.headerFields 16) ++
      (List.replicate (Layout.padLen 8 (16 + count)) 0 ++ m.body)) := by
    rw [hsplit]
    simp only [before, List.append_assoc]
  have hlen : (m.encode serial).length = pad8 (16 + count) + m.body.length := by
    rw [hsplit, List.length_append, hbefore]
  have htake : (m.encode serial).take 16 = wholePrefix m serial count := by
    rw [hshape, ← length_wholePrefix m serial count, List.take_left]
  -- So its length is read from its own first bytes.
  have hframe : frameLen ((m.encode serial).take 16) = .ok (m.encode serial).length := by
    rw [htake, hlen, frameLen_encoded m serial count hbody hcount hmax]
  refine ⟨hframe, parseHeader_eq_ok.mpr ⟨?_, hframe, ?_, ?_, m.headerFields, hfs, ?_, ?_, ?_, ?_⟩⟩
  · rw [hlen]
    simp only [pad8]
    omega
  · rw [hshape]
    rfl
  · rw [hshape]
    rfl
  · exact hfineAll
  · exact hfits
  · rw [hshape, prefixU32_fieldsLength, UInt32.toNat_ofNat', Nat.mod_eq_of_lt hcount]
  -- The body is behind the padding.
  · have hbodyAt : (m.encode serial).drop (pad8 (16 + count)) = m.body := by
      rw [hsplit, ← hbefore, List.drop_left]
    rw [hbodyAt]
    have hserial : prefixU32 (m.encode serial) 8 false = serial := by
      rw [hshape, prefixU32_serial]
    have hkind : (m.encode serial).getD 1 0 = m.kind := by
      rw [hshape]
      rfl
    have hflags : (m.encode serial).getD 2 0 = m.flags := by
      rw [hshape]
      rfl
    rw [hserial, hkind, hflags, Message.foldl_headerFields]

/-- What is read of the first bytes needs no more of them. -/
theorem prefixU32_take (buf : List UInt8) {pos : Nat} (hpos : pos + 4 ≤ 16) (big : Bool) :
    prefixU32 (buf.take 16) pos big = prefixU32 buf pos big := by
  -- The number is within the first 16 bytes.
  have hmin : min 4 (16 - pos) = 4 := by omega
  rw [prefixU32, prefixU32, List.drop_take, List.take_take, hmin]

/-- What is parsed is a header with well-formed fields, and its body. -/
theorem wellFormed_of_parseHeader {buf : List UInt8} {m : Message} {big : Bool}
    (h : Message.parseHeader buf = .ok (m, big)) :
    (∀ f ∈ m.headerFields, IsOf maxDepth ['(', 'y', 'v', ')'] f) ∧
      (∀ f ∈ m.headerFields, Fine (content f 0)) ∧
      pad8 (16 + size (layoutAll m.headerFields 16)) + m.body.length ≤ maxMessage := by
  obtain ⟨_, htotal, _, hbig, fs, hfs, hfine, _, hfields, rfl⟩ := parseHeader_eq_ok.mp h
  -- What is written of the fields is what was read of them.
  have hof := Message.forall_headerFields hfs (buf.getD 1 0) (buf.getD 2 0) (prefixU32 buf 8 big)
  rw [layout_fieldArray, fine_append, fine_layoutAll fun f hf => (hfs f hf).isField] at hfine
  refine ⟨hof, Message.forall_headerFields hfine.2 _ _ _, ?_⟩
  have hroom : pad8 (16 + size (layoutAll (fs.foldl Message.takeField (Message.start (buf.getD 1 0)
      (buf.getD 2 0) (prefixU32 buf 8 big))).headerFields 16)) ≤ pad8 (16 + size (layoutAll fs 16)) := by
    rw [pad8_size_layoutAll fun f hf => (hof f hf).isField,
      pad8_size_layoutAll fun f hf => (hfs f hf).isField]
    exact Nat.add_le_add_left (Message.span_headerFields_le fs _ _ _) _
  -- The first byte is among those taken.
  have hfirst : (buf.take 16).headD 0 = buf.getD 0 0 := by cases buf <;> rfl
  unfold frameLen at htotal
  simp only [hfirst, hbig, ok_bind, prefixU32_take buf (show 12 + 4 ≤ 16 by decide), ← hfields] at htotal
  split at htotal
  · cases htotal
  · rename_i hmax
    have hlen := Except.ok.inj htotal
    refine Nat.le_trans (Nat.add_le_add_right hroom _) ?_
    rw [List.length_drop]
    omega

/-- What a parsed message says is what was read: its body decodes as the buffer's does,
and encoded again, with any serial, it parses to the same but for the serial and the
sender. -/
theorem parse_encode_agree (buf : List UInt8) (m : Message) (h : Message.parse buf = .ok m) :
    (∃ header big args, Message.parseHeader buf = .ok (header, big) ∧
      bigEndian (buf.getD 0 0) = .ok big ∧
      decodeBody header.signature header.body big = .ok args ∧ m.args = .ok args) ∧
    ∀ serial, frameLen ((m.encode serial).take 16) = .ok (m.encode serial).length ∧
      Message.parse (m.encode serial) = .ok { m with serial := serial, sender := none } := by
  unfold Message.parse at h
  obtain ⟨⟨header, big⟩, hheader, h⟩ := bind_eq_ok h
  obtain ⟨args, hargs, h⟩ := bind_eq_ok h
  have hwhole : m.signature = header.signature ∧ m.headerFields = header.headerFields ∧
      m.body.length = header.body.length ∧ decodeBody header.signature m.body false = .ok args := by
    rw [← Except.ok.inj h]
    cases big with
    | false => exact ⟨rfl, rfl, rfl, hargs⟩
    | true =>
        -- A big-endian body is written again.
        obtain ⟨_, _, _, _, _, hsize⟩ := decodeBody_eq_ok.mp hargs
        refine ⟨rfl, rfl, ?_, ?_⟩
        · show (encodeBody args).2.length = header.body.length
          rw [encodeBody_eq, length_fill, hsize]
        · show decodeBody header.signature (encodeBody args).2 false = .ok args
          rw [encodeBody_eq]
          exact decodeBody_fill hargs
  obtain ⟨hsig, hfields, hlength, hdecode⟩ := hwhole
  -- The byte order that was read is that of the first byte.
  have hbig : bigEndian (buf.getD 0 0) = .ok big := (parseHeader_eq_ok.mp hheader).2.2.2.1
  refine ⟨⟨header, big, args, hheader, hbig, hargs, ?_⟩, fun serial => ?_⟩
  · rw [Message.args, hsig, hdecode]
  · obtain ⟨hof, hfine, hmax⟩ := wellFormed_of_parseHeader hheader
    rw [← hfields] at hof hfine hmax
    rw [← hlength] at hmax
    obtain ⟨hframe, hparse⟩ := parseHeader_encode hof hfine hmax serial
    refine ⟨hframe, ?_⟩
    rw [Message.parse, hparse, ok_bind]
    show (decodeBody m.signature m.body false >>= fun _ => _) = _
    rw [hsig, hdecode]
    rfl

/-- A big-endian reply, with a field of no known code. -/
theorem parse_encode_agree_example : ∃ m, Message.parse
    [66, 2, 1, 1, 0, 0, 0, 4, 0, 0, 0, 9, 0, 0, 0, 23, 5, 1, 117, 0, 0, 0, 0, 3, 200, 1, 121, 0, 7, 0,
      0, 0, 8, 1, 103, 0, 1, 117, 0, 0, 0, 0, 0, 1] = .ok m ∧
    ∀ serial, frameLen ((m.encode serial).take 16) = .ok (m.encode serial).length ∧
      Message.parse (m.encode serial) = .ok { m with serial := serial, sender := none } := by
  have hok : (Message.parse
      [66, 2, 1, 1, 0, 0, 0, 4, 0, 0, 0, 9, 0, 0, 0, 23, 5, 1, 117, 0, 0, 0, 0, 3, 200, 1, 121, 0, 7, 0,
        0, 0, 8, 1, 103, 0, 1, 117, 0, 0, 0, 0, 0, 1]).isOk = true := by
    decide +kernel
  cases hread : Message.parse
      [66, 2, 1, 1, 0, 0, 0, 4, 0, 0, 0, 9, 0, 0, 0, 23, 5, 1, 117, 0, 0, 0, 0, 3, 200, 1, 121, 0, 7, 0,
        0, 0, 8, 1, 103, 0, 1, 117, 0, 0, 0, 0, 0, 1] with
  | error e => rw [hread] at hok; exact absurd hok Bool.false_ne_true
  | ok m => exact ⟨m, rfl, (parse_encode_agree _ m hread).2⟩

end Psbox.DBus
