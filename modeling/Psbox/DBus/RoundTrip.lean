import Psbox.DBus.Reading

/-!
# Encoding Undoes Decoding

What `decode_body` accepts, `encode_body` writes again: under the same signature, in as
many bytes, and little-endian with zeros for padding.

A byte is padding when the body decodes to the same whatever it is. Nothing else is
skipped by the reader, since what it reads at an offset fits the image of the values.
-/

namespace Psbox.DBus

open Image

/-! ## Section 1: Padding Bytes -/

/-- The byte at `i` of a little-endian body says nothing. -/
def IsPadding (sig : Signature) (body : List UInt8) (i : Nat) : Prop :=
  i < body.length ∧ ∀ x, decodeBody sig (body.set i x) false = decodeBody sig body false

def ZeroPadded (sig : Signature) (body : List UInt8) : Prop :=
  ∀ i, IsPadding sig body i → body[i]? = some 0

section Set

variable {big : Bool} {b : List UInt8} {x : UInt8} {i pos n : Nat}

/-- A byte before the place changes nothing behind it. -/
theorem drop_set_of_lt (h : i < pos) : (b.set i x).drop pos = b.drop pos := by
  apply List.ext_getElem?
  intro j
  rw [List.getElem?_drop, List.getElem?_drop, List.getElem?_set_ne (by omega)]

/-- A byte behind a slice changes nothing in it. -/
theorem slice_set_of_le (h : pos + n ≤ i) :
    ((b.set i x).drop pos).take n = (b.drop pos).take n := by
  apply List.ext_getElem?
  intro j
  -- Place by place: within the slice nothing changed.
  by_cases hj : j < n
  · rw [List.getElem?_take_of_lt hj, List.getElem?_take_of_lt hj, List.getElem?_drop,
      List.getElem?_drop, List.getElem?_set_ne (by omega)]
  · rw [List.getElem?_take_eq_none (by omega), List.getElem?_take_eq_none (by omega)]

/-- A byte before the image does not matter to it. -/
theorem fits_set_of_lt (h : i < pos) {img : Image} (hfits : Fits big b pos img) :
    Fits big (b.set i x) pos img := by
  induction img generalizing pos with
  | nil => simpa [Fits] using hfits
  -- Segment by segment.
  | cons s img ih =>
      cases s with
      | pad n => exact ih (by omega) hfits
      | num w v => exact ⟨by rw [drop_set_of_lt h]; exact hfits.1, ih (by omega) hfits.2⟩
      | raw bytes => exact ⟨by rw [drop_set_of_lt h]; exact hfits.1, ih (by omega) hfits.2⟩

/-- A byte behind the first segment matters only to the others. -/
theorem fits_cons_set {s : Segment} {img : Image} (hfits : Fits big b pos (s :: img))
    (hbehind : pos + s.size ≤ i) (hrest : Fits big (b.set i x) (pos + s.size) img) :
    Fits big (b.set i x) pos (s :: img) := by
  cases s with
  | pad n => exact hrest
  | num w v =>
      have hslice : pos + w ≤ i := hbehind
      exact ⟨by rw [slice_set_of_le hslice]; exact hfits.1, hrest⟩
  | raw bytes =>
      have hslice : pos + bytes.length ≤ i := hbehind
      exact ⟨by rw [slice_set_of_le hslice]; exact hfits.1, hrest⟩

end Set

/-- Where an image fits, little-endian, the buffer has its bytes, if the bytes that do
not matter to it are zeros. -/
theorem fill_eq_of_fits {b : List UInt8} {pos : Nat} {img : Image} (hfits : Fits false b pos img)
    (hzero : ∀ i, pos ≤ i → i < b.length → (∀ x, Fits false (b.set i x) pos img) →
      b[i]? = some 0) : (b.drop pos).take (size img) = fill img := by
  induction img generalizing pos with
  | nil => rfl
  -- The first segment's bytes, and then those of the rest.
  | cons s img ih =>
      have hle := hfits.le_length
      rw [size_cons] at hle
      have hrest : Fits false b (pos + s.size) img := by
        cases s with
        | pad n => exact hfits
        | num w v => exact hfits.2
        | raw bytes => exact hfits.2
      have htail := ih hrest fun i hi hlt hfree =>
        hzero i (by omega) hlt fun x => fits_cons_set hfits hi (hfree x)
      have hhead : (b.drop pos).take s.size = s.fill := by
        cases s with
        | pad n =>
            apply List.ext_getElem?
            intro j
            -- Padding says nothing, so its bytes are zero by hypothesis.
            by_cases hj : j < n
            · have hpad := hzero (pos + j) (by omega) (by simp [Segment.size] at hle; omega)
                fun x => fits_set_of_lt (show pos + j < pos + n by omega) hfits
              simp only [Segment.size, Segment.fill]
              rw [List.getElem?_take_of_lt hj, List.getElem?_drop, hpad]
              simp [hj]
            · simp only [Segment.size, Segment.fill]
              rw [List.getElem?_take_eq_none (by omega)]
              simp [hj]
        | num w v =>
            have hlen : ((b.drop pos).take w).length = w := length_slice (by
              simp only [Segment.size] at hle
              omega)
            -- The bytes of a number are those of its value.
            have hbytes := leBytes_leNat ((b.drop pos).take w)
            rw [hlen] at hbytes
            have hv : leNat ((b.drop pos).take w) = v := hfits.1
            rw [hv] at hbytes
            exact hbytes.symm
        | raw bytes => exact hfits.1
      rw [size_cons, List.take_add, List.drop_drop, hhead, htail, fill_cons]

/-! ## Section 2: The Round Trip -/

/-- The image of a body that was decoded, little-endian and with zeros for padding, is
decoded to the same values. -/
theorem decodeBody_fill {sig : Signature} {body : List UInt8} {big : Bool} {vs : List Value}
    (h : decodeBody sig body big = .ok vs) :
    decodeBody sig (fill (layoutAll vs 0)) false = .ok vs := by
  obtain ⟨hsig, htypes, htyped, hfine, _, _⟩ := decodeBody_eq_ok.mp h
  -- The image was filled in, so it fits.
  have hfits := fits_fill hfine [] []
  rw [List.nil_append, List.append_nil, List.length_nil] at hfits
  exact decodeBody_eq_ok.mpr ⟨hsig, htypes, htyped, hfine, hfits, (length_fill _).symm⟩

/-- The image of a little-endian body with zeros for padding is the body. -/
theorem fill_eq_of_zeroPadded {sig : Signature} {body : List UInt8} {vs : List Value}
    (h : decodeBody sig body false = .ok vs) (hpadded : ZeroPadded sig body) :
    fill (layoutAll vs 0) = body := by
  obtain ⟨hsig, htypes, htyped, hfine, hfits, hsize⟩ := decodeBody_eq_ok.mp h
  have hbytes := fill_eq_of_fits hfits fun i _ hi hfree => ?_
  · rw [List.drop_zero, hsize, List.take_length] at hbytes
    exact hbytes.symm
  -- Every byte that says nothing is zero.
  · refine hpadded i ⟨hi, fun x => ?_⟩
    rw [h]
    refine decodeBody_eq_ok.mpr ⟨hsig, htypes, htyped, hfine, hfree x, ?_⟩
    rw [hsize, List.length_set]

/-- What was decoded is encoded as it was: under the same signature, in as many bytes,
and so that it decodes to the same; to the same bytes, when those were little-endian
with zeros for padding. -/
theorem encode_undoes_decode (sig : Signature) (body : List UInt8) (big : Bool) (vs : List Value)
    (h : decodeBody sig body big = .ok vs) :
    ∃ body', encodeBody vs = (sig, body') ∧ body'.length = body.length ∧
      decodeBody sig body' false = .ok vs ∧
      (big = false → ZeroPadded sig body → body' = body) := by
  obtain ⟨hsig, _, _, _, _, hsize⟩ := decodeBody_eq_ok.mp h
  refine ⟨fill (layoutAll vs 0), ?_, ?_, decodeBody_fill h, ?_⟩
  · rw [encodeBody_eq, hsig]
  · rw [length_fill, hsize]
  · rintro rfl hpadded
    exact fill_eq_of_zeroPadded h hpadded

/-- A big-endian array of numbers in a variant. -/
theorem encode_undoes_decode_example : ∃ vs body',
    decodeBody ['y', 'v'] [7, 2, 97, 117, 0, 0, 0, 0, 0, 0, 0, 4, 0, 0, 0, 1] true = .ok vs ∧
      encodeBody vs = (['y', 'v'], body') ∧ body'.length = 16 ∧
      decodeBody ['y', 'v'] body' false = .ok vs := by
  have hok : (decodeBody ['y', 'v']
      [7, 2, 97, 117, 0, 0, 0, 0, 0, 0, 0, 4, 0, 0, 0, 1] true).isOk = true := by
    decide +kernel
  -- The body is decoded by evaluation.
  cases hread : decodeBody ['y', 'v']
      [7, 2, 97, 117, 0, 0, 0, 0, 0, 0, 0, 4, 0, 0, 0, 1] true with
  | error e => rw [hread] at hok; exact absurd hok Bool.false_ne_true
  | ok vs =>
      obtain ⟨body', hbytes, hlen, hback, _⟩ := encode_undoes_decode _ _ _ _ hread
      exact ⟨vs, body', rfl, hbytes, hlen, hback⟩

end Psbox.DBus
