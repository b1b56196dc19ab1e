import Mathlib.Data.List.Forall2
import Psbox.DBus.Layout

/-!
# What the Reader Reads

`Reads f lay P` says of a part of the reader what it reads, once for both
directions: it succeeds with a value `a`, moving on past the image of `a`, exactly
when `a` is one of the values `P` it is for and the image is there. The rules
compose it along the reader's own structure, so `readDepth_reads` follows the cases
of `read_depth`.

`Typed n v` is the judgment that `v` is of the type its signature says, nesting less
than `n` deep.
-/

namespace Psbox.DBus

open Image
open Psbox.Foundations (bind_eq_ok bind_eq_ok_iff)

/-! ## Section 1: Parts of the Reader -/

def Reads {α : Type} (f : Reader → Except Failure (α × Reader)) (lay : α → Layout)
    (P : α → Prop) : Prop :=
  ∀ (big : Bool) (b : List UInt8) (pos : Nat), pos ≤ b.length → ∀ a r',
    f ⟨b, pos, big⟩ = .ok (a, r') ↔
      P a ∧ Fine (lay a pos) ∧ Fits big b pos (lay a pos) ∧ r' = ⟨b, pos + size (lay a pos), big⟩

section Rules

variable {α β : Type} {f : Reader → Except Failure (α × Reader)} {x : α → Layout} {P : α → Prop}

theorem ok_bind {γ δ : Type} (c : γ) (f : γ → Except Failure δ) : (Except.ok c >>= f) = f c := rfl

/-- An alignment skips the padding, whatever its bytes are. -/
theorem align_eq_ok {b : List UInt8} {pos n : Nat} {big : Bool} {r : Reader} :
    (Reader.mk b pos big).align n = .ok r ↔
      pos + Layout.padLen n pos ≤ b.length ∧ r = ⟨b, pos + Layout.padLen n pos, big⟩ := by
  -- The reader and the layout count their padding in two ways.
  have hpad : (Reader.mk b pos big).align n =
      if pos + Layout.padLen n pos > b.length then err .truncatedPadding
      else .ok ⟨b, pos + Layout.padLen n pos, big⟩ := rfl
  rw [hpad]
  split
  · rename_i hgt
    exact ⟨(fun herr => by cases herr), fun h => absurd h.1 (Nat.not_le.mpr hgt)⟩
  · rename_i hle
    rw [Except.ok.injEq, eq_comm]
    exact ⟨fun h => ⟨Nat.le_of_not_gt hle, h⟩, And.right⟩

/-- Skipping the padding before a value. -/
theorem Reads.aligned (h : Reads f x P) (n : Nat) :
    Reads (fun r => r.align n >>= f) (fun a => Layout.aligned n (x a)) P := by
  intro big b pos hpos a r'
  simp only [bind_eq_ok_iff, align_eq_ok, Layout.aligned, fine_pad, Fits, size_cons, Segment.size,
    ← Nat.add_assoc]
  constructor
  · rintro ⟨r, ⟨hle, rfl⟩, hread⟩
    exact (h big b _ hle a r').mp hread
  · rintro ⟨ha, hfine, hfits, hr'⟩
    have hle : pos + Layout.padLen n pos ≤ b.length :=
      Nat.le_trans (Nat.le_add_right _ _) hfits.le_length
    exact ⟨_, ⟨hle, rfl⟩, (h big b _ hle a r').mpr ⟨ha, hfine, hfits, hr'⟩⟩

/-- One part after the other. -/
theorem Reads.bind (h : Reads f x P) {g : α → Reader → Except Failure (β × Reader)}
    {y : α → β → Layout} {Q : α → β → Prop} (hg : ∀ a, P a → Reads (g a) (y a) (Q a))
    {z : β → Layout} {R : β → Prop} (hR : ∀ c, R c ↔ ∃ a, P a ∧ Q a c)
    (hz : ∀ a c, P a → Q a c → z c = (x a).andThen (y a c)) :
    Reads (fun r => f r >>= fun p => g p.1 p.2) z R := by
  intro big b pos hpos c r'
  simp only [bind_eq_ok_iff, Prod.exists]
  constructor
  -- The second part is read where the first one ended.
  · rintro ⟨a, r, hf, hc⟩
    obtain ⟨ha, hfine, hfits, rfl⟩ := (h big b pos hpos a r).mp hf
    obtain ⟨hq, hfine', hfits', rfl⟩ := (hg a ha big b _ hfits.le_length c r').mp hc
    refine ⟨(hR c).mpr ⟨a, ha, hq⟩, ?_⟩
    rw [hz a c ha hq, Layout.andThen, fine_append, fits_append, size_append, ← Nat.add_assoc]
    exact ⟨⟨hfine, hfine'⟩, ⟨hfits, hfits'⟩, rfl⟩
  · rintro ⟨hc, hfine, hfits, rfl⟩
    obtain ⟨a, ha, hq⟩ := (hR c).mp hc
    rw [hz a c ha hq, Layout.andThen] at hfine hfits ⊢
    rw [fine_append] at hfine
    rw [fits_append] at hfits
    rw [size_append, ← Nat.add_assoc]
    exact ⟨a, _, (h big b pos hpos a _).mpr ⟨ha, hfine.1, hfits.1, rfl⟩,
      (hg a ha big b _ hfits.1.le_length c _).mpr ⟨hq, hfine.2, hfits.2, rfl⟩⟩

/-- What is read is wrapped. -/
theorem Reads.map (h : Reads f x P) (k : α → β) {z : β → Layout} {R : β → Prop}
    (hR : ∀ c, R c ↔ ∃ a, P a ∧ c = k a) (hz : ∀ a, P a → z (k a) = x a) :
    Reads (fun r => f r >>= fun p => .ok (k p.1, p.2)) z R := by
  intro big b pos hpos c r'
  simp only [bind_eq_ok_iff, Prod.exists, Except.ok.injEq, Prod.mk.injEq]
  constructor
  · rintro ⟨a, r, hf, rfl, rfl⟩
    obtain ⟨ha, hrest⟩ := (h big b pos hpos a r).mp hf
    rw [hz a ha]
    exact ⟨(hR _).mpr ⟨a, ha, rfl⟩, hrest⟩
  · rintro ⟨hc, hrest⟩
    obtain ⟨a, ha, rfl⟩ := (hR c).mp hc
    rw [hz a ha] at hrest
    exact ⟨a, r', (h big b pos hpos a r').mpr ⟨ha, hrest⟩, rfl, rfl⟩

/-- What reads a layout reads one that is the same where it matters. -/
theorem Reads.congr (h : Reads f x P) {z : α → Layout} {R : α → Prop} (hR : ∀ a, R a ↔ P a)
    (hz : ∀ a, P a → z a = x a) : Reads f z R := by
  intro big b pos hpos a r'
  rw [h big b pos hpos a r', hR]
  refine and_congr_right fun ha => ?_
  rw [hz a ha]

end Rules

/-! ## Section 2: Numbers and Strings -/

/-- Bytes are taken that are there. -/
theorem take_eq_ok {b bytes : List UInt8} {pos n : Nat} {big : Bool} {r' : Reader} :
    (Reader.mk b pos big).take n = .ok (bytes, r') ↔
      pos + n ≤ b.length ∧ bytes = (b.drop pos).take n ∧ r' = ⟨b, pos + n, big⟩ := by
  unfold Reader.take
  split
  · rename_i hgt
    refine ⟨(fun h => by cases h), fun h => ?_⟩
    have hle := h.1
    exact absurd hgt (Nat.not_lt.mpr hle)
  · rename_i hle
    rw [Except.ok.injEq, Prod.mk.injEq, eq_comm, eq_comm (a := (_ : Reader))]
    exact ⟨fun h => ⟨Nat.le_of_not_gt hle, h⟩, And.right⟩

theorem length_slice {b : List UInt8} {pos n : Nat} (h : pos + n ≤ b.length) :
    ((b.drop pos).take n).length = n := by
  rw [List.length_take, List.length_drop]
  omega

/-- A number of `w` bytes, in the byte order of the message. -/
theorem reads_number {β : Type} (w : Nat) (ofNat : Nat → β) (toNat : β → Nat)
    (hlt : ∀ n, toNat n < 256 ^ w) (hto : ∀ v, v < 256 ^ w → toNat (ofNat v) = v)
    (hof : ∀ n, ofNat (toNat n) = n) :
    Reads (fun r => r.take w >>= fun p => .ok (ofNat (ofBytes p.2.big p.1), p.2))
      (fun n => Layout.exactly [.num w (toNat n)]) fun _ => True := by
  intro big b pos hpos n r'
  simp only [bind_eq_ok_iff, Prod.exists, take_eq_ok, Except.ok.injEq, Prod.mk.injEq,
    Layout.exactly, fine_num, Fits, size_cons, size_nil, Segment.size, Nat.add_zero]
  constructor
  · rintro ⟨bytes, r, ⟨hle, rfl, rfl⟩, rfl, rfl⟩
    -- What is read is below the bound, so the conversion loses nothing.
    have hbytes := ofBytes_lt big ((b.drop pos).take w)
    rw [length_slice hle] at hbytes
    exact ⟨trivial, ⟨hlt _, fine_nil⟩, ⟨(hto _ hbytes).symm, hle⟩, rfl⟩
  · rintro ⟨_, _, ⟨hv, hle⟩, rfl⟩
    exact ⟨_, _, ⟨hle, rfl, rfl⟩, by rw [hv, hof], rfl⟩

/-- Two bytes at a multiple of two are read as a number. -/
theorem reads_u16 : Reads Reader.u16 (fun n => Layout.exactly [.num 2 n.toNat]) fun _ => True :=
  reads_number 2 UInt16.ofNat UInt16.toNat (fun n => n.toNat_lt)
    (fun _ hv => UInt16.toNat_ofNat_of_lt' hv) fun _ => UInt16.ofNat_toNat

/-- Eight bytes at a multiple of eight are read as a number. -/
theorem reads_u64 : Reads Reader.u64 (fun n => Layout.exactly [.num 8 n.toNat]) fun _ => True :=
  reads_number 8 UInt64.ofNat UInt64.toNat (fun n => n.toNat_lt)
    (fun _ hv => UInt64.toNat_ofNat_of_lt' hv) fun _ => UInt64.ofNat_toNat

/-- Four bytes at a multiple of four are read as a number. -/
theorem reads_u32 : Reads Reader.u32 (fun n => Layout.u32 n.toNat) fun _ => True :=
  (reads_number 4 UInt32.ofNat UInt32.toNat (fun n => n.toNat_lt)
    (fun _ hv => UInt32.toNat_ofNat_of_lt' hv) fun _ => UInt32.ofNat_toNat).aligned 4

theorem byte_eq_ok {b : List UInt8} {pos : Nat} {big : Bool} {n : UInt8} {r' : Reader} :
    (Reader.mk b pos big).byte = .ok (n, r') ↔
      pos + 1 ≤ b.length ∧ (b.drop pos).take 1 = [n] ∧ r' = ⟨b, pos + 1, big⟩ := by
  unfold Reader.byte
  simp only [bind_eq_ok_iff, Prod.exists, take_eq_ok]
  constructor
  · rintro ⟨bytes, r, ⟨hle, rfl, rfl⟩, h⟩
    split at h
    · rename_i c hc
      cases h
      exact ⟨hle, hc, rfl⟩
    · cases h
  · rintro ⟨hle, hbyte, rfl⟩
    exact ⟨[n], _, ⟨hle, hbyte.symm, rfl⟩, rfl⟩

/-- A byte that stands for itself. -/
theorem reads_byte : Reads Reader.byte (fun n => Layout.exactly [.raw [n]]) fun _ => True := by
  intro big b pos hpos n r'
  rw [byte_eq_ok]
  simp only [Layout.exactly, fine_raw, fine_nil, Fits, List.length_singleton, size_cons, size_nil,
    Segment.size, Nat.add_zero, true_and]
  constructor
  · rintro ⟨hle, hbyte, hr⟩
    exact ⟨⟨hbyte, hle⟩, hr⟩
  · rintro ⟨⟨hbyte, hle⟩, hr⟩
    exact ⟨hle, hbyte, hr⟩

/-- A byte that is a length. -/
theorem reads_lengthByte :
    Reads Reader.byte (fun n => Layout.exactly [.num 1 n.toNat]) fun _ => True := by
  intro big b pos hpos n r'
  rw [byte_eq_ok]
  -- One byte is the same number in both orders.
  have hvalue : pos + 1 ≤ b.length →
      ((b.drop pos).take 1 = [n] ↔ ofBytes big ((b.drop pos).take 1) = n.toNat) := by
    intro hle
    obtain ⟨c, hc⟩ := List.length_eq_one_iff.mp (length_slice hle)
    have hone : ofBytes big [c] = c.toNat := by cases big <;> simp [ofBytes, leNat]
    rw [hc, hone, List.cons.injEq, UInt8.toNat_inj]
    simp
  simp only [Layout.exactly, fine_num, fine_nil, Fits, size_cons, size_nil, Segment.size,
    Nat.add_zero, true_and, and_true]
  constructor
  · rintro ⟨hle, hbyte, hr⟩
    exact ⟨n.toNat_lt, ⟨(hvalue hle).mp hbyte, hle⟩, hr⟩
  · rintro ⟨_, ⟨hnum, hle⟩, hr⟩
    exact ⟨hle, (hvalue hle).mpr hnum, hr⟩

/-- A text is that of its own bytes, and of no others. -/
theorem fromUTF8_eq_some {bytes : List UInt8} {s : String} :
    String.fromUTF8? (ByteArray.mk bytes.toArray) = some s ↔ utf8 s = bytes := by
  unfold String.fromUTF8?
  constructor
  · intro h
    split at h
    · cases h
      rfl
    · cases h
  · rintro rfl
    -- The bytes of a text are valid, so it is read back from them.
    have hvalid : (ByteArray.mk (utf8 s).toArray).IsValidUTF8 := s.isValidUTF8
    rw [dif_pos hvalid]
    rfl

/-- A string of a known length, and the zero byte after it. -/
theorem reads_string (n : Nat) :
    Reads (fun r => r.string n) (fun s => Layout.exactly [.raw (utf8 s ++ [0])])
      fun s => (utf8 s).length = n := by
  intro big b pos hpos s r'
  simp only [Reader.string, bind_eq_ok_iff, Prod.exists, take_eq_ok, Layout.exactly, fine_raw,
    fine_nil, Fits, size_cons, size_nil, Segment.size, Nat.add_zero, true_and, List.length_append,
    List.length_singleton]
  constructor
  · rintro ⟨bytes, r, ⟨hle, rfl, rfl⟩, nul, r, hnul, h⟩
    obtain ⟨hle', rfl, rfl⟩ := take_eq_ok.mp hnul
    split at h
    · cases h
    · rename_i hzero
      split at h
      · rename_i s' hs
        -- The bytes are there, so they are those of the text that was read.
        cases h
        rw [fromUTF8_eq_some] at hs
        -- As many bytes as were asked for, and the zero byte behind them.
        have hlen : (utf8 s).length = n := by rw [hs, length_slice hle]
        have hlast : (b.drop (pos + n)).take 1 = [0] := by simpa using hzero
        refine ⟨hlen, ⟨?_, by omega⟩, by rw [hlen]; rfl⟩
        rw [hlen, List.take_add, List.drop_drop, hlast, hs]
      · cases h
  · rintro ⟨rfl, ⟨hslice, hle⟩, rfl⟩
    rw [List.take_add, List.drop_drop] at hslice
    obtain ⟨hs, hnul⟩ := List.append_inj hslice (length_slice (by omega))
    refine ⟨_, _, ⟨by omega, rfl, rfl⟩, _, _, take_eq_ok.mpr ⟨by omega, rfl, rfl⟩, ?_⟩
    rw [hnul, if_neg (by simp), hs, fromUTF8_eq_some.mpr rfl]
    rfl

/-! ## Section 3: Several Values -/

/-- Several values, one after the other. -/
def layoutList {α : Type} (lay : α → Layout) : List α → Layout
  | [] => Layout.exactly []
  | a :: as => (lay a).andThen (layoutList lay as)

theorem layoutAll_eq (vs : List Value) : layoutAll vs = layoutList layout vs := by
  induction vs with
  | nil => rfl
  | cons v vs ih => rw [layoutAll_cons, layoutList, ih]

theorem layoutEntries_eq (es : List (Value × Value)) :
    layoutEntries es = layoutList layoutEntry es := by
  induction es with
  | nil => rfl
  | cons e es ih => rw [layoutEntries_cons, layoutList, ih]

section Lists

variable {α : Type} {read : Reader → Except Failure (α × Reader)} {lay : α → Layout} {P : α → Prop}

/-- Values of several types in turn. -/
theorem reads_fields {read : Signature → Reader → Except Failure (Value × Reader)}
    {P : Signature → Value → Prop} {ts : List Signature}
    (h : ∀ t ∈ ts, Reads (read t) layout (P t)) :
    Reads (Reader.readFields read ts) layoutAll (List.Forall₂ P ts) := by
  induction ts with
  -- No types, no values.
  | nil =>
      intro big b pos hpos vs r'
      rw [Reader.readFields, List.forall₂_nil_left_iff, Except.ok.injEq, Prod.mk.injEq]
      constructor
      · rintro ⟨rfl, rfl⟩
        exact ⟨rfl, fine_nil, hpos, rfl⟩
      · rintro ⟨rfl, _, _, rfl⟩
        exact ⟨rfl, rfl⟩
  | cons t ts ih =>
      have hrest := ih fun t' ht' => h t' (List.mem_cons_of_mem _ ht')
      -- The first value decides where the others start.
      have hcons : ∀ v, P t v → Reads
          (fun r => Reader.readFields read ts r >>= fun p => .ok (v :: p.1, p.2))
          (fun vs => layoutAll vs.tail) (fun vs => ∃ vs', List.Forall₂ P ts vs' ∧ vs = v :: vs') :=
        fun v _ => hrest.map (v :: ·) (fun vs => Iff.rfl) fun _ _ => rfl
      refine (h t List.mem_cons_self).bind hcons (fun vs => ?_) fun v vs _ hvs => ?_
      · rw [List.forall₂_cons_left_iff]
        constructor
        · rintro ⟨v, vs', hv, hvs, rfl⟩
          exact ⟨v, hv, vs', hvs, rfl⟩
        · rintro ⟨v, hv, vs', hvs, rfl⟩
          exact ⟨v, vs', hv, hvs, rfl⟩
      · obtain ⟨vs', _, rfl⟩ := hvs
        exact layoutAll_cons v vs'

/-- Items up to the offset `stop`, when none goes past it. -/
theorem readItems_eq_ok (h : Reads read lay P) (hpos : ∀ a, P a → ∀ pos, 0 < size (lay a pos))
    {big : Bool} {b : List UInt8} {stop : Nat} (hstop : stop ≤ b.length) (fuel pos : Nat)
    (hle : pos ≤ stop) (as : List α) (r' : Reader) :
    (Reader.readItems read stop fuel ⟨b, pos, big⟩ = .ok (as, r') ∧ r'.pos = stop) ↔
      as.length ≤ fuel ∧ (∀ a ∈ as, P a) ∧ Fine (layoutList lay as pos) ∧
        Fits big b pos (layoutList lay as pos) ∧ pos + size (layoutList lay as pos) = stop ∧
        r' = ⟨b, stop, big⟩ := by
  constructor
  -- Induction over the fuel, with the place the reader has got to general.
  · induction fuel generalizing pos as with
    | zero =>
        rintro ⟨hread, hr⟩
        rw [Reader.readItems] at hread
        split at hread
        · cases hread
        · cases hread
          exact ⟨Nat.zero_le _, by simp, fine_nil, Nat.le_trans hle hstop, hr, by rw [← hr]⟩
    | succ fuel ih =>
        rintro ⟨hread, hr⟩
        rw [Reader.readItems] at hread
        split at hread
        · obtain ⟨⟨a, r⟩, ha, hread⟩ := bind_eq_ok hread
          obtain ⟨⟨as', r''⟩, has, hread⟩ := bind_eq_ok hread
          cases hread
          obtain ⟨hP, hfine, hfits, rfl⟩ := (h big b pos (Nat.le_trans hle hstop) a r).mp ha
          -- An item that goes past `stop` is the last one, and the reader is not there.
          have hnext : pos + size (lay a pos) ≤ stop := by
            by_contra hover
            unfold Reader.readItems at has
            rw [if_neg (by simp only; omega)] at has
            cases has
            exact hover (Nat.le_of_eq hr)
          obtain ⟨hlen, hall, hfine', hfits', hsum, hr'⟩ := ih _ hnext as' ⟨has, hr⟩
          refine ⟨by simpa using hlen, ?_, ?_, ?_, ?_, hr'⟩
          · intro a' ha'
            rcases List.mem_cons.mp ha' with rfl | ha'
            · exact hP
            · exact hall a' ha'
          · rw [layoutList, Layout.andThen, fine_append]
            exact ⟨hfine, hfine'⟩
          · rw [layoutList, Layout.andThen, fits_append]
            exact ⟨hfits, hfits'⟩
          · rw [layoutList, Layout.andThen, size_append, ← Nat.add_assoc]
            exact hsum
        · cases hread
          exact ⟨Nat.zero_le _, by simp, fine_nil, Nat.le_trans hle hstop, hr, by rw [← hr]⟩
  -- The other way by induction over the items.
  · induction as generalizing pos fuel with
    | nil =>
        rintro ⟨_, _, _, _, rfl, rfl⟩
        refine ⟨?_, rfl⟩
        unfold Reader.readItems
        rw [if_neg (by simp [layoutList, Layout.exactly])]
        rfl
    | cons a as ih =>
        rintro ⟨hlen, hall, hfine, hfits, hsum, rfl⟩
        rw [layoutList, Layout.andThen] at hfine hfits hsum
        rw [fine_append] at hfine
        rw [fits_append] at hfits
        rw [size_append, ← Nat.add_assoc] at hsum
        obtain ⟨fuel, rfl⟩ : ∃ k, fuel = k + 1 := ⟨fuel - 1, by simp at hlen; omega⟩
        have hP := hall a List.mem_cons_self
        -- An item that took nothing would leave the loop where it was.
        have hsize := hpos a hP pos
        have hfirst := (h big b pos (Nat.le_trans hle hstop) a _).mpr ⟨hP, hfine.1, hfits.1, rfl⟩
        obtain ⟨hrest, _⟩ := ih fuel (pos + size (lay a pos)) (by omega)
          ⟨by simpa using hlen, fun a' ha' => hall a' (List.mem_cons_of_mem _ ha'), hfine.2, hfits.2,
            hsum, rfl⟩
        refine ⟨?_, rfl⟩
        rw [Reader.readItems, if_pos (by simp only; omega)]
        simp only [hfirst, hrest, bind, Except.bind]

/-- Each item takes a byte at least. -/
theorem length_le_size (hpos : ∀ a, P a → ∀ pos, 0 < size (lay a pos)) {as : List α}
    (has : ∀ a ∈ as, P a) (pos : Nat) : as.length ≤ size (layoutList lay as pos) := by
  -- By induction over the items, since each is behind the one before.
  induction as generalizing pos with
  | nil => exact Nat.zero_le _
  | cons a as ih =>
      have hrest := ih (fun a' ha' => has a' (List.mem_cons_of_mem _ ha')) (pos + size (lay a pos))
      have hfirst := hpos a (has a List.mem_cons_self) pos
      rw [layoutList, Layout.andThen, size_append, List.length_cons]
      omega

theorem size_u32 (v pos : Nat) : size (Layout.u32 v pos) = Layout.padLen 4 pos + 4 := by
  simp [Layout.u32, Layout.aligned, Layout.exactly, Segment.size]

theorem fine_u32 (n : UInt32) (pos : Nat) : Fine (Layout.u32 n.toNat pos) := by
  simp only [Layout.u32, Layout.aligned, Layout.exactly, fine_pad, fine_num]
  exact ⟨n.toNat_lt, fine_nil⟩

/-- Where the length of an array ends, and where its first item would be. -/
def Layout.afterLength (pos : Nat) : Nat :=
  pos + padLen 4 pos + 4

def Layout.firstItem (n pos : Nat) : Nat :=
  afterLength pos + padLen n (afterLength pos)

/-- An array starts with its length, and the padding of its items. -/
theorem arrayStart_eq_ok {elem : Signature} (helem : elem ≠ []) {b : List UInt8} {pos : Nat}
    {big : Bool} (hle : pos ≤ b.length) {len stop : Nat} {r : Reader} :
    (Reader.mk b pos big).arrayStart elem = .ok (len, stop, r) ↔
      len < 2 ^ 32 ∧ Fits big b pos (Layout.u32 len pos) ∧
        stop = Layout.firstItem (alignment elem) pos + len ∧ stop ≤ b.length ∧
        r = ⟨b, Layout.firstItem (alignment elem) pos, big⟩ := by
  obtain ⟨c, cs, rfl⟩ := List.exists_cons_of_ne_nil helem
  simp only [Reader.arrayStart, bind_eq_ok_iff, Prod.exists]
  constructor
  · rintro ⟨n, r₁, hn, r₂, hr₂, hcheck⟩
    obtain ⟨_, _, hfits, rfl⟩ := (reads_u32 big b pos hle n r₁).mp hn
    rw [size_u32, ← Nat.add_assoc] at hr₂
    obtain ⟨_, rfl⟩ := align_eq_ok.mp hr₂
    split at hcheck
    · cases hcheck
    · rename_i hinside
      cases hcheck
      exact ⟨n.toNat_lt, hfits, rfl, Nat.le_of_not_gt hinside, rfl⟩
  · rintro ⟨hlen, hfits, rfl, hstop, rfl⟩
    -- The length was read as a `u32`.
    have hn : (UInt32.ofNat len).toNat = len := UInt32.toNat_ofNat_of_lt' hlen
    refine ⟨UInt32.ofNat len, ⟨b, Layout.afterLength pos, big⟩, ?_,
      ⟨b, Layout.firstItem (alignment (c :: cs)) pos, big⟩, ?_, ?_⟩
    -- The padding is that of the item type, whether or not there is an item.
    · rw [← hn] at hfits
      refine (reads_u32 big b pos hle _ _).mpr ⟨trivial, fine_u32 _ _, hfits, ?_⟩
      rw [size_u32, ← Nat.add_assoc]
      rfl
    · exact align_eq_ok.mpr ⟨Nat.le_trans (Nat.le_add_right _ len) hstop, rfl⟩
    · rw [hn, if_neg (Nat.not_lt.mpr hstop)]

/-- The items of an array end where its length says. -/
theorem readArray_eq_ok {len stop : Nat} {r r' : Reader} {as : List α} :
    Reader.readArray read len stop r = .ok (as, r') ↔
      Reader.readItems read stop len r = .ok (as, r') ∧ r'.pos = stop := by
  simp only [Reader.readArray, bind_eq_ok_iff, Prod.exists]
  constructor
  · rintro ⟨as', r'', hitems, hcheck⟩
    split at hcheck
    · cases hcheck
    · rename_i hstop
      cases hcheck
      exact ⟨hitems, not_not.mp hstop⟩
  · rintro ⟨hitems, hstop⟩
    exact ⟨as, r', hitems, if_neg (not_not.mpr hstop)⟩

/-- An array: the length of its items, and as many as have that length. -/
theorem reads_array (h : Reads read lay P) (hpos : ∀ a, P a → ∀ pos, 0 < size (lay a pos))
    {elem : Signature} (helem : elem ≠ []) :
    Reads (fun r => r.arrayStart elem >>= fun p => Reader.readArray read p.1 p.2.1 p.2.2)
      (fun as => Layout.array (alignment elem) (layoutList lay as)) (fun as => ∀ a ∈ as, P a) := by
  intro big b pos hle as r'
  let first := Layout.firstItem (alignment elem) pos
  -- The image of an array is its length, the padding and the items.
  have himage : Layout.array (alignment elem) (layoutList lay as) pos =
      Layout.u32 (size (layoutList lay as first)) pos ++
        .pad (Layout.padLen (alignment elem) (Layout.afterLength pos)) ::
          layoutList lay as first := rfl
  have hend : pos + size (Layout.array (alignment elem) (layoutList lay as) pos) =
      first + size (layoutList lay as first) := by
    rw [himage, size_append, size_u32, size_cons]
    simp only [Segment.size, first, Layout.firstItem, Layout.afterLength]
    omega
  -- The items start behind the padding.
  have hfirst : pos + size (Layout.u32 (size (layoutList lay as first)) pos) +
      Layout.padLen (alignment elem) (Layout.afterLength pos) = first := by
    rw [size_u32, ← Nat.add_assoc]
    rfl
  simp only [bind_eq_ok_iff, Prod.exists, arrayStart_eq_ok helem hle, readArray_eq_ok, hend]
  rw [himage, fine_append, fine_pad, fits_append]
  simp only [Fits, hfirst]
  constructor
  · rintro ⟨len, stop, r, ⟨hlen, hfits, rfl, hstop, rfl⟩, hitems⟩
    obtain ⟨_, hall, hfine, hfits', hsum, rfl⟩ :=
      (readItems_eq_ok h hpos hstop len first (Nat.le_add_right _ _) as r').mp hitems
    -- What is laid out takes the length that was read.
    have hsize : size (layoutList lay as first) = len := Nat.add_left_cancel hsum
    rw [hsize]
    refine ⟨hall, ⟨?_, hfine⟩, ⟨hfits, hfits'⟩, rfl⟩
    simp only [Layout.u32, Layout.aligned, Layout.exactly, fine_pad, fine_num]
    exact ⟨hlen, fine_nil⟩
  · rintro ⟨hall, ⟨hfineLen, hfine⟩, ⟨hfits, hfits'⟩, rfl⟩
    have hstop := hfits'.le_length
    -- The length fits its four bytes.
    have hlen : size (layoutList lay as first) < 2 ^ 32 := by
      simp only [Layout.u32, Layout.aligned, Layout.exactly, fine_pad, fine_num] at hfineLen
      exact hfineLen.1
    refine ⟨_, _, _, ⟨hlen, hfits, rfl, hstop, rfl⟩, ?_⟩
    exact (readItems_eq_ok h hpos hstop _ first (Nat.le_add_right _ _) as _).mpr
      ⟨length_le_size hpos hall first, hall, hfine, hfits', rfl, rfl⟩

end Lists

/-! ## Section 4: Well-Typed Values -/

/-- A value that the reader can return with `n` nesting levels left, for the type its
signature says. The lengths are those a string, a signature and the signature of a
variant can be written with. -/
inductive Typed : Nat → Value → Prop where
  | byte {n : Nat} (b : UInt8) : Typed (n + 1) (.byte b)
  | bool {n : Nat} (b : Bool) : Typed (n + 1) (.bool b)
  | i16 {n : Nat} (v : Int16) : Typed (n + 1) (.i16 v)
  | u16 {n : Nat} (v : UInt16) : Typed (n + 1) (.u16 v)
  | i32 {n : Nat} (v : Int32) : Typed (n + 1) (.i32 v)
  | u32 {n : Nat} (v : UInt32) : Typed (n + 1) (.u32 v)
  | i64 {n : Nat} (v : Int64) : Typed (n + 1) (.i64 v)
  | u64 {n : Nat} (v : UInt64) : Typed (n + 1) (.u64 v)
  | double {n : Nat} (bits : UInt64) : Typed (n + 1) (.double bits)
  | fd {n : Nat} (v : UInt32) : Typed (n + 1) (.fd v)
  | str {n : Nat} {s : String} (hlen : (utf8 s).length < 2 ^ 32) : Typed (n + 1) (.str s)
  | path {n : Nat} {s : String} (hlen : (utf8 s).length < 2 ^ 32) : Typed (n + 1) (.path s)
  | sig {n : Nat} {s : String} (hlen : (utf8 s).length < 256) : Typed (n + 1) (.sig s)
  | array {n : Nat} {elem : Signature} {items : List Value} (helem : elem.head? ≠ some '{')
      (htype : ∀ v ∈ items, v.signature = elem) (hitems : ∀ v ∈ items, Typed n v) :
      Typed (n + 1) (.array elem items)
  | dict {n : Nat} {k v : Signature} {entries : List (Value × Value)} (hk : IsType (n + 1) k)
      (hktype : ∀ e ∈ entries, e.1.signature = k) (hvtype : ∀ e ∈ entries, e.2.signature = v)
      (hkeys : ∀ e ∈ entries, Typed n e.1) (hvals : ∀ e ∈ entries, Typed n e.2) :
      Typed (n + 1) (.dict k v entries)
  | struct {n : Nat} {fields : List Value} (hne : fields ≠ [])
      (htypes : ∀ v ∈ fields, IsType (maxDepth + 1) v.signature)
      (hfields : ∀ v ∈ fields, Typed n v) : Typed (n + 1) (.struct fields)
  | variant {n : Nat} {inner : Value} (htype : IsType (maxDepth + 1) inner.signature)
      (hlen : (utf8 (String.ofList inner.signature)).length < 256) (hinner : Typed n inner) :
      Typed (n + 1) (.variant inner)

/-- A value of the type `t`. -/
def IsOf (n : Nat) (t : Signature) (v : Value) : Prop :=
  v.signature = t ∧ Typed n v

theorem size_aligned (n : Nat) (x : Layout) (pos : Nat) :
    size (Layout.aligned n x pos) = Layout.padLen n pos + size (x (pos + Layout.padLen n pos)) := by
  simp [Layout.aligned, Segment.size]

theorem size_exactly (img : Image) (pos : Nat) : size (Layout.exactly img pos) = size img := rfl

/-- The content of a value takes bytes. -/
theorem Typed.content_pos {n : Nat} {v : Value} (h : Typed n v) (pos : Nat) :
    0 < size (content v pos) := by
  -- Induction over the type; a struct is not empty, and its first field takes bytes.
  induction h generalizing pos with
  | struct hne _ _ ih =>
      obtain ⟨v, vs, rfl⟩ := List.exists_cons_of_ne_nil hne
      rw [content, layoutAll_cons, Layout.andThen, size_append, layout, size_aligned]
      have hv := ih v List.mem_cons_self (pos + Layout.padLen (alignment v.signature) pos)
      omega
  | str _ | path _ =>
      rw [content, Layout.text, Layout.andThen, size_append, size_u32]
      omega
  | variant _ _ _ _ =>
      rw [content, Layout.andThen, size_append, Layout.sig, size_exactly]
      simp only [size_cons, Segment.size]
      omega
  | sig _ =>
      rw [content, Layout.sig, size_exactly]
      simp only [size_cons, Segment.size]
      omega
  | array _ _ _ _ | dict _ _ _ _ _ _ _ =>
      simp only [content, Layout.array, size_cons, Segment.size]
      omega
  | _ => simp [content, size_exactly, size_u32, Segment.size]

/-- A value takes bytes. -/
theorem Typed.size_pos {n : Nat} {v : Value} (h : Typed n v) (pos : Nat) :
    0 < size (layout v pos) := by
  rw [layout, size_aligned]
  exact Nat.add_pos_right _ (h.content_pos _)

/-- An entry takes a byte at least, as its key does. -/
theorem Typed.entry_pos {n : Nat} {e : Value × Value} (h : Typed n e.1) (pos : Nat) :
    0 < size (layoutEntry e pos) := by
  rw [layoutEntry, size_aligned, Layout.andThen, size_append]
  -- The key comes first in an entry.
  have hkey := h.size_pos (pos + Layout.padLen 8 pos)
  omega

/-! ## Section 5: The Reader Reads Well-Typed Values -/

/-- A type of one code, whose values are wrapped. -/
theorem reads_leaf {α : Type} {body : Reader → Except Failure (α × Reader)} {k : α → Value}
    {P : α → Prop} {n : Nat} {t : Signature} (h : Reads body (fun a => content (k a)) P)
    (hof : ∀ v, IsOf (n + 1) t v ↔ ∃ a, P a ∧ v = k a) :
    Reads (fun r => r.align (alignment t) >>= fun r => body r >>= fun p => .ok (k p.1, p.2)) layout
      (IsOf (n + 1) t) := by
  -- The value is what its body reads, wrapped.
  have hwrapped : Reads (fun r => body r >>= fun p => .ok (k p.1, p.2)) content
      (IsOf (n + 1) t) := h.map k hof fun _ _ => rfl
  refine (hwrapped.aligned (alignment t)).congr (fun _ => Iff.rfl) fun v hv => ?_
  rw [layout, hv.1]

section Leaves

variable (n : Nat)

attribute [local simp] Value.signature

theorem reads_y : Reads (Reader.readDepth (n + 1) ['y']) layout (IsOf (n + 1) ['y']) := by
  refine reads_leaf (k := Value.byte) reads_byte fun v => ?_
  constructor
  · rintro ⟨hs, _⟩
    cases v <;> simp at hs ⊢
  · rintro ⟨b, _, rfl⟩
    exact ⟨rfl, .byte b⟩

theorem reads_n : Reads (Reader.readDepth (n + 1) ['n']) layout (IsOf (n + 1) ['n']) := by
  refine reads_leaf (k := fun v : UInt16 => Value.i16 v.toInt16)
    (reads_u16.congr (fun _ => Iff.rfl) fun v _ => ?_) fun v => ?_
  -- A signed number is written as the unsigned one of the same bits.
  · rw [content, Int16.toUInt16, UInt16.toInt16]
  · constructor
    · rintro ⟨hs, _⟩
      cases v with
      | i16 v => exact ⟨v.toUInt16, trivial, by rw [Int16.toUInt16, UInt16.toInt16]⟩
      | _ => simp at hs
    · rintro ⟨v, _, rfl⟩
      exact ⟨rfl, .i16 _⟩

theorem reads_q : Reads (Reader.readDepth (n + 1) ['q']) layout (IsOf (n + 1) ['q']) := by
  refine reads_leaf (k := Value.u16) reads_u16 fun v => ?_
  constructor
  · rintro ⟨hs, _⟩
    cases v <;> simp at hs ⊢
  · rintro ⟨v, _, rfl⟩
    exact ⟨rfl, .u16 v⟩

theorem reads_i : Reads (Reader.readDepth (n + 1) ['i']) layout (IsOf (n + 1) ['i']) := by
  refine reads_leaf (k := fun v : UInt32 => Value.i32 v.toInt32)
    (reads_u32.congr (fun _ => Iff.rfl) fun v _ => ?_) fun v => ?_
  -- A signed number is written as the unsigned one of the same bits.
  · rw [content, Int32.toUInt32, UInt32.toInt32]
  · constructor
    · rintro ⟨hs, _⟩
      cases v with
      | i32 v => exact ⟨v.toUInt32, trivial, by rw [Int32.toUInt32, UInt32.toInt32]⟩
      | _ => simp at hs
    · rintro ⟨v, _, rfl⟩
      exact ⟨rfl, .i32 _⟩

theorem reads_u : Reads (Reader.readDepth (n + 1) ['u']) layout (IsOf (n + 1) ['u']) := by
  refine reads_leaf (k := Value.u32) reads_u32 fun v => ?_
  constructor
  · rintro ⟨hs, _⟩
    cases v <;> simp at hs ⊢
  · rintro ⟨v, _, rfl⟩
    exact ⟨rfl, .u32 v⟩

theorem reads_h : Reads (Reader.readDepth (n + 1) ['h']) layout (IsOf (n + 1) ['h']) := by
  refine reads_leaf (k := Value.fd) reads_u32 fun v => ?_
  constructor
  · rintro ⟨hs, _⟩
    cases v <;> simp at hs ⊢
  · rintro ⟨v, _, rfl⟩
    exact ⟨rfl, .fd v⟩

theorem reads_x : Reads (Reader.readDepth (n + 1) ['x']) layout (IsOf (n + 1) ['x']) := by
  refine reads_leaf (k := fun v : UInt64 => Value.i64 v.toInt64)
    (reads_u64.congr (fun _ => Iff.rfl) fun v _ => ?_) fun v => ?_
  -- A signed number is written as the unsigned one of the same bits.
  · rw [content, Int64.toUInt64, UInt64.toInt64]
  · constructor
    · rintro ⟨hs, _⟩
      cases v with
      | i64 v => exact ⟨v.toUInt64, trivial, by rw [Int64.toUInt64, UInt64.toInt64]⟩
      | _ => simp at hs
    · rintro ⟨v, _, rfl⟩
      exact ⟨rfl, .i64 _⟩

theorem reads_t : Reads (Reader.readDepth (n + 1) ['t']) layout (IsOf (n + 1) ['t']) := by
  refine reads_leaf (k := Value.u64) reads_u64 fun v => ?_
  constructor
  · rintro ⟨hs, _⟩
    cases v <;> simp at hs ⊢
  · rintro ⟨v, _, rfl⟩
    exact ⟨rfl, .u64 v⟩

theorem reads_d : Reads (Reader.readDepth (n + 1) ['d']) layout (IsOf (n + 1) ['d']) := by
  refine reads_leaf (k := Value.double) reads_u64 fun v => ?_
  constructor
  · rintro ⟨hs, _⟩
    cases v <;> simp at hs ⊢
  · rintro ⟨v, _, rfl⟩
    exact ⟨rfl, .double v⟩

theorem reads_b : Reads (Reader.readDepth (n + 1) ['b']) layout (IsOf (n + 1) ['b']) := by
  -- 0 and 1 are the booleans, all other numbers are refused.
  have hpick : ∀ v : UInt32, True → Reads
      (fun r => if v = 0 then .ok (Value.bool false, r) else if v = 1 then .ok (.bool true, r)
        else err (.badBoolean v))
      (fun _ => Layout.exactly [])
      (fun c => ∃ b, c = .bool b ∧ v.toNat = if b then 1 else 0) := by
    intro v _ big b pos hpos c r'
    have hzero : v = 0 ↔ v.toNat = 0 := by rw [← UInt32.toNat_inj]; rfl
    have hone : v = 1 ↔ v.toNat = 1 := by rw [← UInt32.toNat_inj]; rfl
    simp only [Layout.exactly, fine_nil, Fits, size_nil, Nat.add_zero, true_and]
    split
    · rename_i hv
      rw [Except.ok.injEq, Prod.mk.injEq]
      constructor
      · rintro ⟨rfl, rfl⟩
        exact ⟨⟨false, rfl, hzero.mp hv⟩, hpos, rfl⟩
      · rintro ⟨⟨b, rfl, hb⟩, _, rfl⟩
        cases b with
        | false => exact ⟨rfl, rfl⟩
        | true => rw [hzero.mp hv] at hb; cases hb
    · rename_i hnot
      split
      · rename_i hv
        rw [Except.ok.injEq, Prod.mk.injEq]
        constructor
        · rintro ⟨rfl, rfl⟩
          exact ⟨⟨true, rfl, hone.mp hv⟩, hpos, rfl⟩
        · rintro ⟨⟨b, rfl, hb⟩, _, rfl⟩
          cases b with
          | true => exact ⟨rfl, rfl⟩
          | false => exact absurd (hzero.mpr hb) hnot
      · rename_i hnot'
        refine ⟨(fun h => by cases h), ?_⟩
        rintro ⟨⟨b, _, hb⟩, _⟩
        cases b with
        | true => exact absurd (hone.mpr hb) hnot'
        | false => exact absurd (hzero.mpr hb) hnot
  -- The number is read first, and then looked at.
  have hbody : Reads (fun r => r.u32 >>= fun p =>
      if p.1 = 0 then .ok (Value.bool false, p.2) else if p.1 = 1 then .ok (.bool true, p.2)
        else err (.badBoolean p.1)) content (IsOf (n + 1) ['b']) := by
    refine reads_u32.bind hpick (fun c => ?_) fun v c _ hc => ?_
    · constructor
      · rintro ⟨hs, _⟩
        cases c with
        | bool b => exact ⟨if b then 1 else 0, trivial, b, rfl, by cases b <;> rfl⟩
        | _ => simp at hs
      · rintro ⟨v, _, b, rfl, _⟩
        exact ⟨rfl, .bool b⟩
    · obtain ⟨b, rfl, hb⟩ := hc
      funext pos
      rw [content, Layout.andThen, hb, Layout.exactly, List.append_nil]
  refine (hbody.aligned 4).congr (fun _ => Iff.rfl) fun v hv => ?_
  rw [layout, hv.1]
  rfl

/-- A text after its length. -/
theorem reads_text :
    Reads (fun r => r.u32 >>= fun p => p.2.string p.1.toNat) (fun s => Layout.text (utf8 s))
      fun s => (utf8 s).length < 2 ^ 32 := by
  refine reads_u32.bind (g := fun v r => r.string v.toNat) (fun v _ => reads_string v.toNat)
    (fun s => ?_) fun v s _ hs => ?_
  · constructor
    · intro hlen
      exact ⟨UInt32.ofNat (utf8 s).length, trivial, (UInt32.toNat_ofNat_of_lt' hlen).symm⟩
    · rintro ⟨v, _, hlen⟩
      exact hlen ▸ v.toNat_lt
  · rw [Layout.text, hs]

/-- A signature after its length. -/
theorem reads_sigText :
    Reads (fun r => r.byte >>= fun p => p.2.string p.1.toNat) (fun s => Layout.sig (utf8 s))
      fun s => (utf8 s).length < 256 := by
  refine reads_lengthByte.bind (g := fun v r => r.string v.toNat) (fun v _ => reads_string v.toNat)
    (fun s => ?_) fun v s _ hs => ?_
  · constructor
    · intro hlen
      exact ⟨UInt8.ofNat (utf8 s).length, trivial, (UInt8.toNat_ofNat_of_lt' hlen).symm⟩
    · rintro ⟨v, _, hlen⟩
      exact hlen ▸ v.toNat_lt
  · funext pos
    rw [Layout.sig, hs]
    rfl

theorem Reads.of_eq {α : Type} {f g : Reader → Except Failure (α × Reader)} {x : α → Layout}
    {P : α → Prop} (h : Reads f x P) (heq : ∀ r, g r = f r) : Reads g x P := by
  intro big b pos hpos a r'
  rw [heq]
  exact h big b pos hpos a r'

theorem reads_s : Reads (Reader.readDepth (n + 1) ['s']) layout (IsOf (n + 1) ['s']) := by
  refine (reads_leaf (n := n) (t := ['s']) (k := Value.str) reads_text fun v => ?_).of_eq fun r => ?_
  · constructor
    · rintro ⟨hs, ht⟩
      cases ht with
      | str hlen => exact ⟨_, hlen, rfl⟩
      | _ => simp at hs
    · rintro ⟨s, hlen, rfl⟩
      exact ⟨rfl, .str hlen⟩
  · simp only [bind_assoc]
    rfl

theorem reads_o : Reads (Reader.readDepth (n + 1) ['o']) layout (IsOf (n + 1) ['o']) := by
  refine (reads_leaf (n := n) (t := ['o']) (k := Value.path) reads_text fun v => ?_).of_eq fun r => ?_
  · constructor
    · rintro ⟨hs, ht⟩
      cases ht with
      | path hlen => exact ⟨_, hlen, rfl⟩
      | _ => simp at hs
    · rintro ⟨s, hlen, rfl⟩
      exact ⟨rfl, .path hlen⟩
  · simp only [bind_assoc]
    rfl

theorem reads_g : Reads (Reader.readDepth (n + 1) ['g']) layout (IsOf (n + 1) ['g']) := by
  refine (reads_leaf (n := n) (t := ['g']) (k := Value.sig) reads_sigText fun v => ?_).of_eq
    fun r => ?_
  · constructor
    · rintro ⟨hs, ht⟩
      cases ht with
      | sig hlen => exact ⟨_, hlen, rfl⟩
      | _ => simp at hs
    · rintro ⟨s, hlen, rfl⟩
      exact ⟨rfl, .sig hlen⟩
  · simp only [bind_assoc]
    rfl

end Leaves

/-! ### Containers -/

theorem signatures_eq (vs : List Value) : Value.signatures vs = (vs.map Value.signature).flatten := by
  induction vs with
  | nil => rfl
  | cons v vs ih => rw [Value.signatures, ih, List.map_cons, List.flatten_cons]

/-- A variant has one complete type. -/
theorem variantType_eq_ok {s t : Signature} :
    Reader.variantType s = .ok t ↔ t = s ∧ IsType (maxDepth + 1) s := by
  simp only [Reader.variantType, bind_eq_ok_iff, splitSignature_eq_ok]
  constructor
  · rintro ⟨ts, ⟨rfl, hts⟩, h⟩
    split at h
    · cases h
    · rename_i hone
      obtain ⟨t', rfl⟩ := List.length_eq_one_iff.mp (not_not.mp hone)
      cases h
      exact ⟨rfl, by simpa using hts⟩
  · rintro ⟨rfl, ht⟩
    exact ⟨[t], ⟨by simp, by simpa using ht⟩, if_neg (by simp)⟩

/-- What reads nothing reads every layout that nothing has. -/
theorem reads_nothing {α : Type} {f : Reader → Except Failure (α × Reader)} {x : α → Layout}
    {P : α → Prop} (hf : ∀ r a r', f r ≠ .ok (a, r')) (hP : ∀ a, ¬ P a) : Reads f x P :=
  fun _ _ _ _ a r' => ⟨fun h => absurd h (hf _ a r'), fun h => absurd h.1 (hP a)⟩

/-- A variant: the type of its value, and the value. -/
theorem reads_v {n : Nat}
    (ih : ∀ t, IsType (maxDepth + 1) t → Reads (Reader.readDepth n t) layout (IsOf n t)) :
    Reads (Reader.readDepth (n + 1) ['v']) layout (IsOf (n + 1) ['v']) := by
  have hinner : ∀ s : String, (utf8 s).length < 256 → Reads
      (fun r => Reader.variantType s.toList >>= fun t => Reader.readDepth n t r >>= fun q =>
        .ok (Value.variant q.1, q.2))
      (fun v => layout v.unwrapVariant)
      (fun v => IsType (maxDepth + 1) s.toList ∧ ∃ w, IsOf n s.toList w ∧ v = .variant w) := by
    intro s _
    by_cases hs : IsType (maxDepth + 1) s.toList
    · have htype := variantType_eq_ok.mpr ⟨rfl, hs⟩
      have hread := (ih s.toList hs).map Value.variant
        (z := fun v => layout v.unwrapVariant)
        (R := fun v => IsType (maxDepth + 1) s.toList ∧ ∃ w, IsOf n s.toList w ∧ v = .variant w)
        (fun v => by simp [hs]) fun _ _ => rfl
      refine hread.of_eq fun r => ?_
      rw [htype]
      rfl
    · refine reads_nothing (fun r a r' h => ?_) fun a h => hs h.1
      obtain ⟨t, ht, _⟩ := bind_eq_ok h
      exact hs (variantType_eq_ok.mp ht).2
  have hbody : Reads (fun r => (r.byte >>= fun p => p.2.string p.1.toNat) >>= fun p =>
      Reader.variantType p.1.toList >>= fun t => Reader.readDepth n t p.2 >>= fun q =>
        .ok (Value.variant q.1, q.2)) content (IsOf (n + 1) ['v']) := by
    refine reads_sigText.bind
      (g := fun s r => Reader.variantType s.toList >>= fun t => Reader.readDepth n t r >>= fun q =>
        .ok (Value.variant q.1, q.2)) hinner (fun v => ?_) fun s v _ hv => ?_
    · constructor
      · rintro ⟨hs, ht⟩
        cases ht with
        | @variant _ w htype hlen hw =>
            refine ⟨String.ofList w.signature, hlen, ?_⟩
            rw [String.toList_ofList]
            exact ⟨htype, w, ⟨rfl, hw⟩, rfl⟩
        | _ => simp [Value.signature] at hs
      · rintro ⟨s, hlen, htype, w, ⟨hw, ht⟩, rfl⟩
        refine ⟨rfl, .variant (hw ▸ htype) ?_ ht⟩
        rw [hw, String.ofList_toList]
        exact hlen
    · obtain ⟨_, w, ⟨hw, _⟩, rfl⟩ := hv
      show content (.variant w) = (Layout.sig (utf8 s)).andThen (layout w)
      rw [content, layout, hw, String.ofList_toList]
  have hread := (hbody.aligned 1).congr (z := layout) (fun _ => Iff.rfl) fun v hv => by
    rw [layout, hv.1]
    rfl
  refine hread.of_eq fun r => ?_
  simp only [bind_assoc]
  rfl

/-- What stands between the brackets. -/
theorem inside_bracketed (open_ close : Char) (s : Signature) :
    Reader.inside (open_ :: (s ++ [close])) = .ok s := by
  simp [Reader.inside]

/-- Values are of the types that they have. -/
theorem forall₂_isOf {n : Nat} {ts : List Signature} {vs : List Value} :
    List.Forall₂ (IsOf n) ts vs ↔ vs.map Value.signature = ts ∧ ∀ v ∈ vs, Typed n v := by
  induction vs generalizing ts with
  | nil =>
      rw [List.forall₂_nil_right_iff]
      simp [eq_comm]
  | cons v vs ih =>
      rw [List.forall₂_cons_right_iff]
      simp only [ih, IsOf, List.map_cons, List.forall_mem_cons]
      constructor
      · rintro ⟨t, ts', ⟨rfl, hv⟩, ⟨rfl, hvs⟩, rfl⟩
        exact ⟨rfl, hv, hvs⟩
      · rintro ⟨rfl, hv, hvs⟩
        exact ⟨_, _, ⟨rfl, hv⟩, ⟨rfl, hvs⟩, rfl⟩

/-- A struct: its fields, whose types its signature splits into. -/
theorem reads_struct {n : Nat}
    (ih : ∀ t, IsType (maxDepth + 1) t → Reads (Reader.readDepth n t) layout (IsOf n t))
    {inner : Signature} (hne : inner ≠ []) :
    Reads (Reader.readDepth (n + 1) ('(' :: (inner ++ [')']))) layout
      (IsOf (n + 1) ('(' :: (inner ++ [')']))) := by
  -- The fields of a struct of this type have the types its signature splits into.
  have hof : ∀ v, IsOf (n + 1) ('(' :: (inner ++ [')'])) v ↔
      ∃ ts, splitSignature inner = .ok ts ∧ ∃ vs, List.Forall₂ (IsOf n) ts vs ∧ v = .struct vs := by
    intro v
    simp only [splitSignature_eq_ok, forall₂_isOf]
    constructor
    · rintro ⟨hs, ht⟩
      cases ht with
      | @struct _ vs hne htypes hfields =>
          have hinner : Value.signatures vs = inner := by
            simpa [Value.signature] using hs
          rw [signatures_eq] at hinner
          exact ⟨_, ⟨hinner.symm, by simpa using htypes⟩, vs, ⟨rfl, hfields⟩, rfl⟩
      | _ => simp [Value.signature] at hs
    · rintro ⟨ts, ⟨rfl, hts⟩, vs, ⟨rfl, hfields⟩, rfl⟩
      refine ⟨by simp [Value.signature, signatures_eq], .struct ?_ (by simpa using hts) hfields⟩
      rintro rfl
      exact hne rfl
  have hread : Reads (fun r => splitSignature inner >>= fun ts =>
      Reader.readFields (Reader.readDepth n) ts r >>= fun q => .ok (Value.struct q.1, q.2)) content
      (IsOf (n + 1) ('(' :: (inner ++ [')']))) := by
    cases hsplit : splitSignature inner with
    | error e =>
        refine reads_nothing (fun r a r' h => by cases h) fun v hv => ?_
        obtain ⟨ts, hts, _⟩ := (hof v).mp hv
        rw [hsplit] at hts
        cases hts
    | ok ts =>
        have htypes := (splitSignature_eq_ok.mp hsplit).2
        refine (reads_fields fun t ht => ih t (htypes t ht)).map Value.struct (fun v => ?_)
          fun vs _ => by rw [content]
        rw [hof v, hsplit]
        simp
  have haligned := (hread.aligned 8).congr (z := layout) (fun _ => Iff.rfl) fun v hv => by
    rw [layout, hv.1]
    rfl
  refine haligned.of_eq fun r => ?_
  have hinside := inside_bracketed '(' ')' inner
  show (r.align 8 >>= fun r => Reader.inside ('(' :: (inner ++ [')'])) >>= fun s =>
    splitSignature s >>= fun ts => Reader.readFields (Reader.readDepth n) ts r >>= fun q =>
      .ok (Value.struct q.1, q.2)) = _
  rw [hinside]
  rfl

/-- An entry of a dictionary is read as its key and its value, at a multiple of eight. -/
theorem reads_entry {n : Nat} {k v : Signature}
    (hk : Reads (Reader.readDepth n k) layout (IsOf n k))
    (hv : Reads (Reader.readDepth n v) layout (IsOf n v)) :
    Reads (Reader.readEntry (Reader.readDepth n k) (Reader.readDepth n v)) layoutEntry
      (fun e => IsOf n k e.1 ∧ IsOf n v e.2) := by
  have hval : ∀ key, IsOf n k key → Reads
      (fun r => Reader.readDepth n v r >>= fun p => .ok ((key, p.1), p.2))
      (fun e => layout e.2) (fun e => ∃ val, IsOf n v val ∧ e = (key, val)) :=
    fun key _ => hv.map (fun val => (key, val)) (fun _ => Iff.rfl) fun _ _ => rfl
  have hpair : Reads (fun r => Reader.readDepth n k r >>= fun p =>
      Reader.readDepth n v p.2 >>= fun q => .ok ((p.1, q.1), q.2))
      (fun e => (layout e.1).andThen (layout e.2)) (fun e => IsOf n k e.1 ∧ IsOf n v e.2) := by
    refine hk.bind (g := fun key r => Reader.readDepth n v r >>= fun p => .ok ((key, p.1), p.2))
      hval (fun e => ?_) fun key e _ he => ?_
    · constructor
      · rintro ⟨hkey, hval⟩
        exact ⟨e.1, hkey, e.2, hval, rfl⟩
      · rintro ⟨key, hkey, val, hval, rfl⟩
        exact ⟨hkey, hval⟩
    · obtain ⟨val, _, rfl⟩ := he
      rfl
  exact (hpair.aligned 8).of_eq fun r => rfl

/-- An array of items that are no dictionary entries. -/
theorem reads_items {n : Nat} {elem : Signature} (hread : Reads (Reader.readDepth n elem) layout
    (IsOf n elem)) (hne : elem ≠ []) (helem : elem.head? ≠ some '{') :
    Reads (Reader.readDepth (n + 1) ('a' :: elem)) layout (IsOf (n + 1) ('a' :: elem)) := by
  have harray := reads_array hread (fun v hv pos => hv.2.size_pos pos) hne
  have hwrapped := harray.map (Value.array elem) (z := content) (R := IsOf (n + 1) ('a' :: elem))
    (fun v => by
      constructor
      · rintro ⟨hs, ht⟩
        cases ht with
        | @array _ elem' items hnot htype hitems =>
            obtain rfl : elem' = elem := by simpa [Value.signature] using hs
            exact ⟨items, fun v hv => ⟨htype v hv, hitems v hv⟩, rfl⟩
        | @dict _ k v _ _ _ _ _ _ =>
            simp only [Value.signature, List.cons_append, List.nil_append, List.cons.injEq,
              true_and] at hs
            rw [← hs] at helem
            exact absurd rfl helem
        | _ => simp [Value.signature] at hs
      · rintro ⟨items, hitems, rfl⟩
        exact ⟨rfl, .array helem (fun v hv => (hitems v hv).1) fun v hv => (hitems v hv).2⟩)
    fun items _ => by
      funext pos
      rw [content, Layout.array, Layout.array, layoutAll_eq]
  have haligned := (hwrapped.aligned 4).congr (z := layout) (fun _ => Iff.rfl) fun v hv => by
    rw [layout, hv.1]
    rfl
  refine haligned.of_eq fun r => ?_
  show (r.align 4 >>= fun r => r.arrayStart elem >>= fun p =>
    if elem.head? = some '{' then _ else
      Reader.readArray (Reader.readDepth n elem) p.1 p.2.1 p.2.2 >>= fun q =>
        .ok (Value.array elem q.1, q.2)) = _
  simp only [if_neg helem, bind_assoc]

/-- A dictionary: an array of entries. -/
theorem reads_dict {n m : Nat} {k v : Signature} (hk : IsType m k)
    (hreadK : Reads (Reader.readDepth n k) layout (IsOf n k))
    (hreadV : Reads (Reader.readDepth n v) layout (IsOf n v)) :
    Reads (Reader.readDepth (n + 1) ('a' :: '{' :: (k ++ v ++ ['}']))) layout
      (IsOf (n + 1) ('a' :: '{' :: (k ++ v ++ ['}']))) := by
  have hof : ∀ d, IsOf (n + 1) ('a' :: '{' :: (k ++ v ++ ['}'])) d ↔
      IsType (n + 1) k ∧ ∃ entries : List (Value × Value),
        (∀ e ∈ entries, IsOf n k e.1 ∧ IsOf n v e.2) ∧ d = .dict k v entries := by
    intro d
    constructor
    · rintro ⟨hs, ht⟩
      cases ht with
      | @dict _ k' v' entries hk' hktype hvtype hkeys hvals =>
          have hinner : k' ++ v' = k ++ v := by
            simpa [Value.signature, ← List.append_assoc] using hs
          obtain ⟨rfl, rfl⟩ := hk'.append_inj hk hinner
          exact ⟨hk', entries, fun e he => ⟨⟨hktype e he, hkeys e he⟩, hvtype e he, hvals e he⟩, rfl⟩
      | @array _ elem _ helem _ _ =>
          have helem' : elem = '{' :: (k ++ v ++ ['}']) := by simpa [Value.signature] using hs
          rw [helem'] at helem
          exact absurd rfl helem
      | _ => simp [Value.signature] at hs
    · rintro ⟨hk', entries, hentries, rfl⟩
      exact ⟨by simp [Value.signature], .dict hk' (fun e he => (hentries e he).1.1)
        (fun e he => (hentries e he).2.1) (fun e he => (hentries e he).1.2)
        fun e he => (hentries e he).2.2⟩
  have hinside : Reader.inside ('{' :: (k ++ v ++ ['}'])) = .ok (k ++ v) := inside_bracketed _ _ _
  have hshape : ∀ r : Reader, Reader.readDepth (n + 1) ('a' :: '{' :: (k ++ v ++ ['}'])) r =
      (r.align 4 >>= fun r => r.arrayStart ('{' :: (k ++ v ++ ['}'])) >>= fun p =>
        completeTypeLen (n + 1) (k ++ v) >>= fun i =>
          Reader.readArray (Reader.readEntry (Reader.readDepth n ((k ++ v).take i))
            (Reader.readDepth n ((k ++ v).drop i))) p.1 p.2.1 p.2.2 >>= fun q =>
              .ok (Value.dict ((k ++ v).take i) ((k ++ v).drop i) q.1, q.2)) := by
    intro r
    show (r.align 4 >>= fun r => r.arrayStart ('{' :: (k ++ v ++ ['}'])) >>= fun p =>
      if some '{' = some '{' then (Reader.inside ('{' :: (k ++ v ++ ['}'])) >>= fun inner =>
        completeTypeLen (n + 1) inner >>= fun i => _) else _) = _
    rw [hinside]
    rfl
  by_cases hdeep : IsType (n + 1) k
  · have hlen : completeTypeLen (n + 1) (k ++ v) = .ok k.length := hdeep.completeTypeLen v
    have hne : ('{' :: (k ++ v ++ ['}']) : Signature) ≠ [] := List.cons_ne_nil _ _
    have hpos : ∀ e, (IsOf n k e.1 ∧ IsOf n v e.2) → ∀ pos, 0 < size (layoutEntry e pos) :=
      fun e he pos => he.1.2.entry_pos pos
    have harray := reads_array (reads_entry hreadK hreadV) hpos hne
    have hwrapped := harray.map (Value.dict k v) (z := content)
      (R := IsOf (n + 1) ('a' :: '{' :: (k ++ v ++ ['}'])))
      (fun d => by rw [hof d]; simp [hdeep]) fun entries _ => by
        funext pos
        rw [content, layoutEntries_eq]
        rfl
    have haligned := (hwrapped.aligned 4).congr (z := layout) (fun _ => Iff.rfl) fun v hv => by
      rw [layout, hv.1]
      rfl
    refine haligned.of_eq fun r => ?_
    rw [hshape, hlen]
    simp only [ok_bind, List.take_left, List.drop_left, bind_assoc]
  · refine reads_nothing (fun r a r' h => ?_) fun d hd => hdeep ((hof d).mp hd).1
    rw [hshape] at h
    obtain ⟨r₁, _, h⟩ := bind_eq_ok h
    obtain ⟨p, _, h⟩ := bind_eq_ok h
    obtain ⟨i, hi, _⟩ := bind_eq_ok h
    obtain ⟨t, rest, hsplit, ht, _⟩ := completeTypeLen_eq_ok.mp hi
    obtain ⟨rfl, _⟩ := hk.append_inj ht hsplit
    exact hdeep ht

/-- The reader reads the values of a type, with `n` nesting levels left, from their
images and from nothing else. -/
theorem readDepth_reads {m : Nat} {t : Signature} (ht : IsType m t) (n : Nat) :
    Reads (Reader.readDepth n t) layout (IsOf n t) := by
  induction n generalizing m t with
  | zero => exact reads_nothing (fun r a r' h => by cases h) fun v hv => by cases hv.2
  | succ n ih =>
      have ih' : ∀ t, IsType (maxDepth + 1) t → Reads (Reader.readDepth n t) layout (IsOf n t) :=
        fun t ht => ih ht
      cases ht with
      | @basic _ c hc =>
          simp only [isBasicCode, List.contains_cons, List.contains_nil, Bool.or_false,
            Bool.or_eq_true, beq_iff_eq] at hc
          rcases hc with rfl | rfl | rfl | rfl | rfl | rfl | rfl | rfl | rfl | rfl | rfl | rfl | rfl |
            rfl
          · exact reads_y n
          · exact reads_b n
          · exact reads_n n
          · exact reads_q n
          · exact reads_i n
          · exact reads_u n
          · exact reads_x n
          · exact reads_t n
          · exact reads_d n
          · exact reads_s n
          · exact reads_o n
          · exact reads_g n
          · exact reads_h n
          · exact reads_v ih'
      | @array _ elem helem =>
          cases helem with
          | entry hk hv => exact reads_dict hk (ih hk) (ih hv)
          | basic hc =>
              refine reads_items (ih (IsType.basic (n := 0) hc)) (by simp) ?_
              rintro heq
              cases heq
              revert hc
              decide
          | array helem => exact reads_items (ih (.array helem)) (by simp) (by simp)
          | struct ts hne hts => exact reads_items (ih (.struct ts hne hts)) (by simp) (by simp)
      | struct ts hne hts =>
          refine reads_struct ih' ?_
          obtain ⟨t, ts, rfl⟩ := List.exists_cons_of_ne_nil hne
          have ht := (hts t List.mem_cons_self).ne_nil
          simp [ht]
      | @entry _ k v hk hv =>
          refine reads_nothing (fun r a r' h => ?_) fun w hw => ?_
          · obtain ⟨r₁, _, h⟩ := bind_eq_ok h
            cases h
          · obtain ⟨hs, hw⟩ := hw
            cases hw <;> simp [Value.signature] at hs

/-- Reading a body: its values, and nothing after them. -/
theorem decodeBody_eq_ok {sig : Signature} {body : List UInt8} {big : Bool} {vs : List Value} :
    decodeBody sig body big = .ok vs ↔
      Value.signatures vs = sig ∧ (∀ v ∈ vs, IsType (maxDepth + 1) v.signature) ∧
        (∀ v ∈ vs, Typed (maxDepth + 1) v) ∧ Fine (layoutAll vs 0) ∧
        Fits big body 0 (layoutAll vs 0) ∧ size (layoutAll vs 0) = body.length := by
  simp only [decodeBody, bind_eq_ok_iff, splitSignature_eq_ok, Prod.exists]
  constructor
  · rintro ⟨ts, ⟨rfl, hts⟩, vs', r, hread, hcheck⟩
    obtain ⟨hof, hfine, hfits, rfl⟩ := (reads_fields (P := IsOf (maxDepth + 1))
      (fun t ht => readDepth_reads (hts t ht) (maxDepth + 1)) big body 0 (Nat.zero_le _) vs' r).mp hread
    split at hcheck
    · cases hcheck
    · rename_i hend
      cases hcheck
      obtain ⟨rfl, htyped⟩ := forall₂_isOf.mp hof
      rw [Nat.zero_add] at hend
      exact ⟨signatures_eq vs, by simpa using hts, htyped, hfine, hfits, not_not.mp hend⟩
  · rintro ⟨rfl, htypes, htyped, hfine, hfits, hsize⟩
    have hts : ∀ t ∈ vs.map Value.signature, IsType (maxDepth + 1) t := by simpa using htypes
    refine ⟨vs.map Value.signature, ⟨signatures_eq vs, hts⟩, vs, _,
      (reads_fields (P := IsOf (maxDepth + 1))
        (fun t ht => readDepth_reads (hts t ht) (maxDepth + 1)) big body 0 (Nat.zero_le _) vs _).mpr
        ⟨forall₂_isOf.mpr ⟨rfl, htyped⟩, hfine, hfits, rfl⟩, ?_⟩
    rw [if_neg]
    rw [Nat.zero_add]
    exact not_not.mpr hsize

end Psbox.DBus
