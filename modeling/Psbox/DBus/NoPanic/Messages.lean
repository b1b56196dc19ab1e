import Psbox.DBus.NoPanic.Reader
import Psbox.DBus.NoPanic.Writer

/-!
# Messages Are Parsed and Encoded without Panics

Headers and whole messages. The largest message accepted bounds every sum, so nothing is
asked of the length of what is parsed; and what is encoded again is no longer than what was
parsed.
-/

namespace Psbox.DBus

open Psbox.Foundations (bind_eq_ok Safe Agrees safe_ok agrees_ok agrees_error)
open Image

namespace Checked

/-! ## Section 1: The Fixed Prefix -/

/-- A byte within the bounds is there. -/
theorem index_ok {bytes : List UInt8} {i : Nat} (h : i < bytes.length) :
    index bytes i = .ok (bytes.getD i 0) := by
  unfold index
  rw [List.getD_eq_getElem?_getD, List.getElem?_eq_getElem h]
  rfl

/-- The numbers in the first 16 bytes are there. -/
theorem prefixU32_ok {bytes : List UInt8} {pos : Nat} (h : pos + 4 ≤ bytes.length)
    (hpos : pos ≤ 12) (big : Bool) :
    Checked.prefixU32 bytes pos big = .ok (DBus.prefixU32 bytes pos big) := by
  unfold Checked.prefixU32
  have hslice : slice bytes pos (pos + 4) = _ := slice_ok (Nat.le_add_right pos 4) h
  rw [Nat.add_sub_cancel_left] at hslice
  rw [add_ok (by omega), ok_bind, hslice, ok_bind, toArray_ok (length_slice h)]
  rfl

theorem pad8_ok {n : Nat} (h : n < 2 ^ 63) : Checked.pad8 n = .ok (DBus.pad8 n) := by
  apply if_pos
  omega

theorem bigEndian_fair (first : UInt8) : Fair (bigEndian first) (bigEndian first) := by
  unfold bigEndian
  apply Agrees.ite
  · intro _
    exact agrees_ok _
  intro _
  apply Agrees.ite
  · intro _
    exact agrees_ok _
  · intro _
    exact fair_err _

/-- The length of a frame is told of its first 16 bytes without an overflow. -/
theorem frameLen_fair {bytes : List UInt8} (h : 16 ≤ bytes.length) :
    Fair (Checked.frameLen bytes) (DBus.frameLen bytes) := by
  have hfirst : index bytes 0 = .ok (bytes.headD 0) := by
    rw [index_ok (by omega)]
    cases bytes <;> rfl
  unfold Checked.frameLen DBus.frameLen
  apply Agrees.of_ok_bind hfirst
  apply (bigEndian_fair _).bind
  intro big _
  have hbody := (DBus.prefixU32 bytes 4 big).toNat_lt
  have hfields := (DBus.prefixU32 bytes 12 big).toNat_lt
  apply Agrees.of_ok_bind (prefixU32_ok (by omega) (by omega) big)
  apply Agrees.of_ok_bind (prefixU32_ok (by omega) (by omega) big)
  apply Agrees.of_ok_bind (add_ok (by omega))
  apply Agrees.of_ok_bind (pad8_ok (by omega))
  -- The two lengths are of 32 bits each.
  have htotal : DBus.pad8 (16 + (DBus.prefixU32 bytes 12 big).toNat) +
      (DBus.prefixU32 bytes 4 big).toNat < 2 ^ 64 := by
    unfold DBus.pad8
    omega
  apply Agrees.of_ok_bind (add_ok htotal)
  apply Agrees.ite
  · intro _
    exact fair_err _
  · intro _
    exact agrees_ok _

/-- A frame is as long as its prefix says, and no longer than the largest message. -/
theorem frameLen_take {buf : List UInt8} {big : Bool} {total : Nat}
    (hbig : bigEndian (buf.getD 0 0) = .ok big) (h : DBus.frameLen (buf.take 16) = .ok total) :
    total ≤ maxMessage ∧ DBus.pad8 (16 + (DBus.prefixU32 buf 12 big).toNat) ≤ total := by
  have hfirst : (buf.take 16).headD 0 = buf.getD 0 0 := by cases buf <;> rfl
  unfold DBus.frameLen at h
  simp only [hfirst, hbig, ok_bind, prefixU32_take buf (show 12 + 4 ≤ 16 by decide)] at h
  split at h
  · cases h
  · rename_i hmax
    have hlen := Except.ok.inj h
    omega

/-! ## Section 2: Parsing -/

/-- A header is parsed, or refused, of any bytes. -/
theorem parseHeader_fair (buf : List UInt8) :
    Fair (Message.parseHeader buf) (DBus.Message.parseHeader buf) := by
  unfold Message.parseHeader DBus.Message.parseHeader
  apply Agrees.ite
  · intro _
    exact fair_err _
  intro hshort
  -- `buf.get(..16)` is there.
  have hsixteen : 16 ≤ (buf.take 16).length := by
    rw [List.length_take]
    omega
  apply (frameLen_fair hsixteen).bind
  intro total htotal
  apply Agrees.ite
  · intro _
    exact fair_err _
  intro hall
  -- The buffer is the whole frame.
  have hlen : buf.length = total := not_not.mp hall
  apply Agrees.of_ok_bind (index_ok (by omega))
  apply Agrees.ite
  · intro _
    exact fair_err _
  intro _
  apply Agrees.of_ok_bind (index_ok (by omega))
  apply (bigEndian_fair _).bind
  intro big hbig
  obtain ⟨hmax, hfields⟩ := frameLen_take hbig htotal
  have hbuf : buf.length < maxLen := by
    rw [hlen]
    exact Nat.lt_of_le_of_lt hmax (by decide)
  apply Agrees.of_ok_bind (index_ok (by omega))
  apply Agrees.of_ok_bind (index_ok (by omega))
  apply Agrees.of_ok_bind (prefixU32_ok (by omega) (by omega) big)
  -- The fields are read as an array of this type.
  have hsteps := allStep (maxDepth + 1) isType_fieldArray (by decide)
  apply (hsteps ⟨buf, 12, big⟩ ⟨by show 12 ≤ buf.length; omega, hbuf⟩).1.bind
  intro ⟨v, r⟩ hv
  -- A value of this type is the array of the fields, nothing else.
  obtain ⟨hof, _⟩ := (readDepth_reads isType_fieldArray (maxDepth + 1) big buf 12 (by omega) v r).mp hv
  obtain ⟨fs, rfl, _⟩ := isOf_fieldArray.mp hof
  have hcount := (DBus.prefixU32 buf 12 big).toNat_lt
  apply Agrees.of_ok_bind (prefixU32_ok (by omega) (by omega) big)
  apply Agrees.of_ok_bind (add_ok (by omega))
  apply Agrees.ite
  · intro _
    exact fair_err _
  intro _
  apply Agrees.of_ok_bind (pad8_ok (by omega))
  apply Agrees.of_ok_bind (slice_ok (by omega) (Nat.le_refl _))
  -- The body is within the frame.
  have hrest : (buf.drop (DBus.pad8 (16 + (DBus.prefixU32 buf 12 big).toNat))).take
      (buf.length - DBus.pad8 (16 + (DBus.prefixU32 buf 12 big).toNat)) =
      buf.drop (DBus.pad8 (16 + (DBus.prefixU32 buf 12 big).toNat)) := by
    rw [← List.length_drop, List.take_length]
  rw [hrest]
  exact agrees_ok _

/-- The signature of a body is short, as the header has it in a field. -/
theorem signature_short {m : DBus.Message}
    (h : ∀ f ∈ m.headerFields, IsOf maxDepth ['(', 'y', 'v', ')'] f) : len m.signature < maxLen := by
  by_cases hsig : m.signature = []
  · rw [hsig]
    decide
  -- A signature that is not empty is a field of the header.
  have hmem : Value.struct [.byte fieldSignature, .variant (.sig (String.ofList m.signature))] ∈
      m.headerFields := by
    simp [DBus.Message.headerFields, DBus.Message.headerField, hsig]
  obtain ⟨_, htyped⟩ := h _ hmem
  cases htyped with
  | struct _ _ hfields =>
      cases hfields _ (List.mem_cons_of_mem _ List.mem_cons_self) with
      | variant _ _ hinner =>
          cases hinner with
          | sig hlen =>
              rw [← utf8_toList, String.toList_ofList] at hlen
              exact Nat.lt_trans hlen (by decide)

/-- A message is parsed, or refused, of any bytes. -/
theorem parse_fair (buf : List UInt8) : Fair (Message.parse buf) (DBus.Message.parse buf) := by
  unfold Message.parse DBus.Message.parse
  apply (parseHeader_fair buf).bind
  intro ⟨m, big⟩ hm
  obtain ⟨hof, _, hmax⟩ := wellFormed_of_parseHeader hm
  -- The body is no longer than the message.
  have hbody : m.body.length < maxLen := by
    unfold maxMessage at hmax
    unfold maxLen
    omega
  apply (decodeBody_fair (signature_short hof) hbody big).bind
  intro args hargs
  cases big with
  | false => exact agrees_ok _
  | true =>
      obtain ⟨_, htypes, htyped, _, _, hsize⟩ := decodeBody_eq_ok.mp hargs
      -- What is written again is no longer than what was read.
      have hlen : (DBus.encodeBody args).2.length < maxLen := by
        rw [encodeBody_eq, length_fill, hsize]
        exact hbody
      apply Agrees.of_ok_bind (encodeBody_ok htypes htyped hlen)
      exact agrees_ok _

/-- What is parsed has well-formed fields, and is no longer than the largest message. -/
theorem wellFormed_of_parse {buf : List UInt8} {m : DBus.Message}
    (h : DBus.Message.parse buf = .ok m) :
    (∀ f ∈ m.headerFields, IsOf maxDepth ['(', 'y', 'v', ')'] f) ∧
      DBus.pad8 (16 + size (layoutAll m.headerFields 16)) + m.body.length ≤ maxMessage := by
  obtain ⟨⟨header, big⟩, hheader, h⟩ := bind_eq_ok h
  obtain ⟨args, hargs, h⟩ := bind_eq_ok h
  obtain ⟨hof, _, hmax⟩ := wellFormed_of_parseHeader hheader
  rw [← Except.ok.inj h]
  cases big with
  | false => exact ⟨hof, hmax⟩
  | true =>
      obtain ⟨_, _, _, _, _, hsize⟩ := decodeBody_eq_ok.mp hargs
      have hlen : (DBus.encodeBody args).2.length = header.body.length := by
        rw [encodeBody_eq, length_fill, hsize]
      refine ⟨hof, ?_⟩
      show DBus.pad8 (16 + size (layoutAll header.headerFields 16)) +
        (DBus.encodeBody args).2.length ≤ maxMessage
      rw [hlen]
      exact hmax

/-- The arguments of a message are decoded, or refused. -/
theorem args_fair {m : DBus.Message}
    (hof : ∀ f ∈ m.headerFields, IsOf maxDepth ['(', 'y', 'v', ')'] f)
    (hmax : DBus.pad8 (16 + size (layoutAll m.headerFields 16)) + m.body.length ≤ maxMessage) :
    Fair (Message.args m) m.args := by
  refine decodeBody_fair (signature_short hof) ?_ false
  unfold maxMessage at hmax
  unfold maxLen
  omega

/-! ## Section 3: Encoding -/

/-- The length of an encoded message is that of its header and its body. -/
theorem length_encode (m : DBus.Message) (serial : UInt32) : (m.encode serial).length =
    DBus.pad8 (16 + size (layoutAll m.headerFields 16)) + m.body.length := by
  have hfields := size_fieldArray m.headerFields
  rw [encode_eq]
  simp only [List.length_append, length_fill, List.length_replicate, encodedPrefix, length_leBytes]
  unfold DBus.pad8 Layout.padLen
  simp only [List.length_cons, List.length_nil]
  omega

/-- A message that is not longer than the bus allows is encoded. -/
theorem encode_ok {m : DBus.Message}
    (hof : ∀ f ∈ m.headerFields, IsOf maxDepth ['(', 'y', 'v', ')'] f)
    (hmax : DBus.pad8 (16 + size (layoutAll m.headerFields 16)) + m.body.length ≤ maxMessage)
    (serial : UInt32) : Message.encode m serial = .ok (m.encode serial) := by
  have htyped : IsOf (maxDepth + 1) ['a', '(', 'y', 'v', ')'] (fieldArray m.headerFields) :=
    isOf_fieldArray.mpr ⟨_, rfl, hof⟩
  -- The header is written like any value.
  have hfields := follows_value htyped.2 (m := 4) (htyped.1 ▸ isType_fieldArray)
  have hall := (((((follows_push ['l'.toUInt8, m.kind, m.flags, 1]).andThen
    (follows_u32 (UInt32.ofNat m.body.length))).andThen (follows_u32 serial)).andThen hfields).andThen
      (follows_align 8)).andThen (follows_push m.body)
  -- All of it is short enough.
  have hlen : (m.encode serial).length < maxLen := by
    rw [length_encode]
    exact Nat.lt_of_le_of_lt hmax (by decide)
  have hok := congrArg (fun written => written >>= fun w => Except.ok w.buf)
    ((hall { buf := [] }).2 hlen)
  simp only [bind_assoc] at hok
  exact hok

end Checked

end Psbox.DBus
