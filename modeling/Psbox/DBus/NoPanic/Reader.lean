import Psbox.DBus.NoPanic.Signatures

/-!
# Values Are Read without Panics

The reader of `DBus/Checked.lean` agrees with the one that checks nothing, and neither gets
stuck: it stays inside its buffer, every item of an array takes a byte at least, and the
nesting levels left go down with every call.
-/

namespace Psbox.DBus

open Psbox.Foundations (bind_eq_ok Safe Agrees safe_ok agrees_ok agrees_error)
open Image

namespace Checked

/-! ## Section 1: Reading Inside the Buffer -/

/-- The reader is inside its buffer. -/
structure Inside (r : Reader) : Prop where
  pos : r.pos ≤ r.buf.length
  buf : r.buf.length < maxLen

/-- The reader moved forward, inside its buffer. -/
structure Moved (r r' : Reader) : Prop where
  buf : r'.buf = r.buf
  pos : r.pos ≤ r'.pos
  stop : r'.pos ≤ r'.buf.length

/-- A reader that moves stays within its bytes. -/
theorem Moved.inside {r r' : Reader} (h : Moved r r') (hr : Inside r) : Inside r' :=
  ⟨h.stop, by rw [h.buf]; exact hr.buf⟩

/-- A reader that moves twice moves. -/
theorem Moved.trans {r r' r'' : Reader} (h : Moved r r') (h' : Moved r' r'') : Moved r r'' :=
  ⟨h'.buf.trans h.buf, Nat.le_trans h.pos h'.pos, h'.stop⟩

/-- Reading with `f` is reading with `g`, inside the buffer and forward. -/
def Steps {α : Type} (f g : Reader → Except Failure (α × Reader)) : Prop :=
  ∀ r, Inside r → Fair (f r) (g r) ∧ ∀ a r', g r = .ok (a, r') → Moved r r'

/-- What is read by `g` satisfies `P`. -/
def Returns {α : Type} (g : Reader → Except Failure (α × Reader)) (P : α → Prop) : Prop :=
  ∀ r, Inside r → ∀ a r', g r = .ok (a, r') → P a

/-- One reader after another, where the second relies on what the first returns. -/
theorem Steps.bind_of {α β : Type} {f g : Reader → Except Failure (α × Reader)} {P : α → Prop}
    (h : Steps f g) (hP : Returns g P) {f' g' : α → Reader → Except Failure (β × Reader)}
    (h' : ∀ a, P a → Steps (f' a) (g' a)) :
    Steps (fun r => f r >>= fun p => f' p.1 p.2) (fun r => g r >>= fun p => g' p.1 p.2) := by
  intro r hr
  obtain ⟨hfair, hmoved⟩ := h r hr
  constructor
  · apply hfair.bind
    intro ⟨a, r'⟩ ha
    exact (h' a (hP r hr a r' ha) r' ((hmoved a r' ha).inside hr)).1
  · intro b r'' hb
    obtain ⟨⟨a, r'⟩, ha, hb⟩ := bind_eq_ok hb
    -- The second reader starts where the first one stopped.
    have hfirst := hmoved a r' ha
    exact hfirst.trans ((h' a (hP r hr a r' ha) r' (hfirst.inside hr)).2 b r'' hb)

/-- One reader after another. -/
theorem Steps.bind {α β : Type} {f g : Reader → Except Failure (α × Reader)} (h : Steps f g)
    {f' g' : α → Reader → Except Failure (β × Reader)} (h' : ∀ a, Steps (f' a) (g' a)) :
    Steps (fun r => f r >>= fun p => f' p.1 p.2) (fun r => g r >>= fun p => g' p.1 p.2) :=
  h.bind_of (P := fun _ => True) (fun _ _ _ _ _ => trivial) fun a _ => h' a

theorem steps_ok {α : Type} (a : α) : Steps (fun r => .ok (a, r)) (fun r => .ok (a, r)) := by
  intro r hr
  refine ⟨agrees_ok _, ?_⟩
  intro a' r' h
  cases h
  exact ⟨rfl, Nat.le_refl _, hr.pos⟩

theorem steps_err {α : Type} (e : DecodeError) :
    Steps (fun _ => (err e : Except Failure (α × Reader))) (fun _ => err e) := by
  intro r hr
  refine ⟨fair_err e, ?_⟩
  intro a r' h
  cases h

/-- Aligning moves a reader. -/
theorem align_moved {r r' : Reader} {n : Nat} (h : r.align n = .ok r') : Moved r r' := by
  unfold DBus.Reader.align at h
  dsimp only at h
  split at h
  · cases h
  · rename_i hle
    cases h
    exact ⟨rfl, Nat.le_add_right .., Nat.not_lt.mp hle⟩

/-- Aligning within the bytes does not overflow. -/
theorem align_fair {r : Reader} (hr : Inside r) {n : Nat} (hpos : 0 < n) (hn : n ≤ 8) :
    Fair (Reader.align r n) (r.align n) := by
  -- The two remainders are less than the alignment.
  have hmod := Nat.mod_lt r.pos hpos
  have hgap := Nat.mod_lt (n - r.pos % n) hpos
  have hbound : r.pos + (n - r.pos % n) % n < 2 ^ 64 := by
    have hlen := hr.buf
    have hin := hr.pos
    unfold maxLen at hlen
    omega
  apply Agrees.of_ok_bind (sub_ok (Nat.le_of_lt hmod))
  apply Agrees.of_ok_bind (add_ok hbound)
  apply Agrees.ite
  · intro _
    exact fair_err _
  · intro _
    exact agrees_ok _

/-- A reader after an alignment. -/
theorem Steps.aligned {α : Type} {f g : Reader → Except Failure (α × Reader)} (h : Steps f g)
    {n : Nat} (hpos : 0 < n) (hn : n ≤ 8) :
    Steps (fun r => Reader.align r n >>= f) (fun r => r.align n >>= g) := by
  intro r hr
  constructor
  · apply (align_fair hr hpos hn).bind
    intro r' hr'
    exact (h r' ((align_moved hr').inside hr)).1
  · intro a r'' ha
    obtain ⟨r', hr', ha⟩ := bind_eq_ok ha
    have hmoved := align_moved hr'
    exact hmoved.trans ((h r' (hmoved.inside hr)).2 a r'' ha)

/-- No value is aligned to more than eight bytes. -/
theorem alignment_le (t : Signature) : 0 < DBus.alignment t ∧ DBus.alignment t ≤ 8 := by
  have hdvd := alignment_dvd t
  exact ⟨Nat.pos_of_dvd_of_pos hdvd (by decide), Nat.le_of_dvd (by decide) hdvd⟩

/-- Taking `n` bytes returns as many. -/
theorem take_eq {r r' : Reader} {n : Nat} {bytes : List UInt8} (h : r.take n = .ok (bytes, r')) :
    Moved r r' ∧ bytes.length = n ∧ r'.pos = r.pos + n := by
  unfold DBus.Reader.take at h
  split at h
  · cases h
  · rename_i hle
    cases h
    refine ⟨⟨rfl, Nat.le_add_right .., Nat.not_lt.mp hle⟩, ?_, rfl⟩
    rw [List.length_take, List.length_drop]
    omega

/-- Taking bytes within the bytes does not overflow. -/
theorem take_fair {r : Reader} (hr : Inside r) {n : Nat} (hn : n < 2 ^ 63) :
    Fair (Reader.take r n) (r.take n) := by
  -- Neither the place nor the count is near 2^64.
  have hbound : r.pos + n < 2 ^ 64 := by
    have hlen := hr.buf
    have hin := hr.pos
    unfold maxLen at hlen
    omega
  apply Agrees.of_ok_bind (add_ok hbound)
  apply Agrees.ite
  · intro _
    exact fair_err _
  · intro hle
    apply Agrees.of_ok_bind (slice_ok (Nat.le_add_right ..) (Nat.not_lt.mp hle))
    rw [Nat.add_sub_cancel_left]
    exact agrees_ok _

theorem steps_take {n : Nat} (hn : n < 2 ^ 63) :
    Steps (fun r => Reader.take r n) (fun r => r.take n) := by
  intro r hr
  exact ⟨take_fair hr hn, fun _ _ h => (take_eq h).1⟩

/-- A number of a known width. -/
theorem steps_number {α : Type} {w : Nat} (hw : w < 2 ^ 63) (k : List UInt8 → Bool → α) :
    Steps (fun r => Reader.take r w >>= fun p => toArray w p.1 >>= fun bytes =>
        .ok (k bytes p.2.big, p.2))
      (fun r => r.take w >>= fun p => .ok (k p.1 p.2.big, p.2)) := by
  intro r hr
  constructor
  · apply (take_fair hr hw).bind
    intro ⟨bytes, r'⟩ hbytes
    apply Agrees.of_ok_bind (toArray_ok (take_eq hbytes).2.1)
    exact agrees_ok _
  · intro a r' h
    obtain ⟨⟨bytes, r''⟩, hbytes, h⟩ := bind_eq_ok h
    cases h
    exact (take_eq hbytes).1

theorem steps_u16 : Steps Reader.u16 DBus.Reader.u16 :=
  steps_number (by decide) fun bytes big => UInt16.ofNat (ofBytes big bytes)

theorem steps_u32 : Steps Reader.u32 DBus.Reader.u32 :=
  (steps_number (by decide) fun bytes big => UInt32.ofNat (ofBytes big bytes)).aligned
    (by decide) (by decide)

theorem steps_u64 : Steps Reader.u64 DBus.Reader.u64 :=
  steps_number (by decide) fun bytes big => UInt64.ofNat (ofBytes big bytes)

theorem steps_byte : Steps Reader.byte DBus.Reader.byte := by
  intro r hr
  constructor
  · apply (take_fair hr (by decide)).bind
    intro ⟨bytes, r'⟩ hbytes
    obtain ⟨b, rfl⟩ := List.length_eq_one_iff.mp (take_eq hbytes).2.1
    exact agrees_ok _
  · intro a r' h
    obtain ⟨⟨bytes, r''⟩, hbytes, h⟩ := bind_eq_ok h
    obtain ⟨b, rfl⟩ := List.length_eq_one_iff.mp (take_eq hbytes).2.1
    cases h
    exact (take_eq hbytes).1

/-- The string that bytes and the byte after them are. -/
def stringOf (bytes nul : List UInt8) (r : Reader) : Except Failure (String × Reader) :=
  if nul ≠ [0] then err .stringNotNulTerminated
  else match String.fromUTF8? (ByteArray.mk bytes.toArray) with
    | some s => .ok (s, r)
    | none => err .invalidUtf8

/-- A text of a known length is read, or refused. -/
theorem steps_string {n : Nat} (hn : n < 2 ^ 63) :
    Steps (fun r => Reader.string r n) (fun r => r.string n) := by
  -- It ends in one of three ways, none of which moves the reader.
  have hend : ∀ bytes nul : List UInt8, Steps (stringOf bytes nul) (stringOf bytes nul) := by
    intro bytes nul
    unfold stringOf
    by_cases hnul : nul = [0]
    · simp only [hnul, ne_eq, not_true_eq_false, if_false]
      cases String.fromUTF8? (ByteArray.mk bytes.toArray) with
      | some s => exact steps_ok s
      | none => exact steps_err _
    · simp only [ne_eq, hnul, not_false_eq_true, if_true]
      exact steps_err _
  exact (steps_take hn).bind fun bytes => (steps_take (n := 1) (by decide)).bind (hend bytes)

/-! ## Section 2: Loops -/

/-- The fields of a struct are read one after another. -/
theorem steps_fields {f g : Signature → Reader → Except Failure (Value × Reader)}
    {ts : List Signature} (h : ∀ t ∈ ts, Steps (f t) (g t)) :
    Steps (DBus.Reader.readFields f ts) (DBus.Reader.readFields g ts) := by
  induction ts with
  | nil => exact steps_ok []
  | cons t ts ih =>
      -- The fields behind it are read from where the first one ended.
      have hrest := ih fun t ht => h t (List.mem_cons_of_mem _ ht)
      exact (h t List.mem_cons_self).bind fun v => hrest.bind fun vs => steps_ok (v :: vs)

/-- Reading takes a byte at least. -/
def Consumes {α : Type} (g : Reader → Except Failure (α × Reader)) : Prop :=
  ∀ r, Inside r → ∀ a r', g r = .ok (a, r') → r.pos < r'.pos

/-- A loop over items that each take a byte ends before the bytes are counted down. -/
theorem readItems_steps {α : Type} {f g : Reader → Except Failure (α × Reader)} (h : Steps f g)
    (hpos : Consumes g) (stop : Nat) :
    ∀ {fuel : Nat} {r : Reader}, Inside r → stop - r.pos ≤ fuel →
      Fair (DBus.Reader.readItems f stop fuel r) (DBus.Reader.readItems g stop fuel r) ∧
        ∀ as r', DBus.Reader.readItems g stop fuel r = .ok (as, r') → Moved r r' := by
  intro fuel
  -- Induction over the fuel, which is no less than the bytes left.
  induction fuel with
  | zero =>
      intro r hr hfuel
      unfold DBus.Reader.readItems
      rw [if_neg (by omega)]
      exact steps_ok [] r hr
  | succ fuel ih =>
      intro r hr hfuel
      unfold DBus.Reader.readItems
      by_cases hmore : r.pos < stop
      · simp only [if_pos hmore]
        obtain ⟨hfair, hmoved⟩ := h r hr
        constructor
        · apply hfair.bind
          rintro ⟨a, r'⟩ ha
          -- An item takes a byte, so there is fuel for those behind it.
          have hadvance := hpos r hr a r' ha
          apply (ih ((hmoved a r' ha).inside hr) (by omega)).1.bind
          intro as _
          exact agrees_ok _
        · intro as r'' has
          obtain ⟨⟨a, r'⟩, ha, has⟩ := bind_eq_ok has
          obtain ⟨⟨as', r₃⟩, has', has⟩ := bind_eq_ok has
          cases has
          have hadvance := hpos r hr a r' ha
          have hfirst := hmoved a r' ha
          exact hfirst.trans ((ih (hfirst.inside hr) (by omega)).2 as' _ has')
      · simp only [if_neg hmore]
        exact steps_ok [] r hr

/-- The start of an array is read, and where the array ends. -/
theorem arrayStart_fair {r : Reader} (hr : Inside r) {elem : Signature} (helem : elem ≠ []) :
    Fair (Reader.arrayStart elem r) (r.arrayStart elem) ∧
      ∀ n stop r', r.arrayStart elem = .ok (n, stop, r') → Moved r r' ∧ stop = r'.pos + n := by
  obtain ⟨c, cs, rfl⟩ := List.exists_cons_of_ne_nil helem
  obtain ⟨hapos, ha⟩ := alignment_le (c :: cs)
  obtain ⟨hfair, hmoved⟩ := steps_u32 r hr
  constructor
  · apply hfair.bind
    intro ⟨n, r'⟩ hn
    have hin := (hmoved n r' hn).inside hr
    apply Agrees.of_ok_bind (x := alignment (c :: cs)) rfl
    apply (align_fair hin hapos ha).bind
    intro r'' hr''
    have hin' := (align_moved hr'').inside hin
    -- Where the array ends is a sum of two lengths.
    have hbound : r''.pos + n.toNat < 2 ^ 64 := by
      have hlen := hin'.buf
      have hpos := hin'.pos
      have hlt := n.toNat_lt
      unfold maxLen at hlen
      omega
    apply Agrees.of_ok_bind (add_ok hbound)
    apply Agrees.ite
    · intro _
      exact fair_err _
    · intro _
      exact agrees_ok _
  · intro n stop r'' h
    obtain ⟨⟨v, r'⟩, hv, h⟩ := bind_eq_ok h
    obtain ⟨r₃, hr₃, h⟩ := bind_eq_ok h
    dsimp only at h
    split at h
    · cases h
    · cases h
      exact ⟨(hmoved v r' hv).trans (align_moved hr₃), rfl⟩

/-- The items of an array, from where it starts. -/
theorem steps_array {α : Type} {f g : Reader → Except Failure (α × Reader)} (h : Steps f g)
    (hpos : Consumes g) {elem : Signature} (helem : elem ≠ []) :
    Steps (fun r => Reader.arrayStart elem r >>= fun p => DBus.Reader.readArray f p.1 p.2.1 p.2.2)
      (fun r => r.arrayStart elem >>= fun p => DBus.Reader.readArray g p.1 p.2.1 p.2.2) := by
  intro r hr
  obtain ⟨hstart, hmoved⟩ := arrayStart_fair hr helem
  constructor
  · apply hstart.bind
    intro ⟨n, stop, r'⟩ hn
    obtain ⟨hfirst, rfl⟩ := hmoved n stop r' hn
    -- There are as many bytes as the length says, and no more turns than bytes.
    have hcount : r'.pos + n - r'.pos ≤ n := Nat.le_of_eq (Nat.add_sub_cancel_left ..)
    apply (readItems_steps h hpos _ (hfirst.inside hr) hcount).1.bind
    intro ⟨as, r''⟩ _
    apply Agrees.ite
    · intro _
      exact fair_err _
    · intro _
      exact agrees_ok _
  · intro as r'' has
    obtain ⟨⟨n, stop, r'⟩, hn, has⟩ := bind_eq_ok has
    obtain ⟨hfirst, rfl⟩ := hmoved n stop r' hn
    obtain ⟨hitems, _⟩ := readArray_eq_ok.mp has
    have hcount : r'.pos + n - r'.pos ≤ n := Nat.le_of_eq (Nat.add_sub_cancel_left ..)
    exact hfirst.trans ((readItems_steps h hpos _ (hfirst.inside hr) hcount).2 as r'' hitems)

/-! ## Section 3: Values -/

theorem Steps.map {α β : Type} {f g : Reader → Except Failure (α × Reader)} (h : Steps f g)
    (k : α → β) :
    Steps (fun r => f r >>= fun p => .ok (k p.1, p.2)) (fun r => g r >>= fun p => .ok (k p.1, p.2)) :=
  h.bind fun a => steps_ok (k a)

/-- A reader chosen by a condition. -/
theorem Steps.ite {α : Type} {f g f' g' : Reader → Except Failure (α × Reader)} {c : Prop}
    [Decidable c] (h : Steps f g) (h' : Steps f' g') :
    Steps (fun r => if c then f r else f' r) (fun r => if c then g r else g' r) := by
  by_cases hc : c
  · simp only [if_pos hc]
    exact h
  · simp only [if_neg hc]
    exact h'

/-- A value behind the padding of its type. -/
theorem Steps.placed {f g : Reader → Except Failure (Value × Reader)} (h : Steps f g) (c : Char)
    (rest : Signature) :
    Steps (fun r => alignment (c :: rest) >>= fun a => Reader.align r a >>= f)
      (fun r => r.align (DBus.alignment (c :: rest)) >>= g) := by
  obtain ⟨hpos, hle⟩ := alignment_le (c :: rest)
  exact h.aligned hpos hle

/-- A text with its length before it is read, or refused. -/
theorem steps_text : Steps (fun r => Reader.u32 r >>= fun p => Reader.string p.2 p.1.toNat)
    (fun r => r.u32 >>= fun p => p.2.string p.1.toNat) := by
  refine steps_u32.bind fun n => steps_string ?_
  have hlt := n.toNat_lt
  omega

/-- A signature with its length before it is read, or refused. -/
theorem steps_sigText : Steps (fun r => Reader.byte r >>= fun p => Reader.string p.2 p.1.toNat)
    (fun r => r.byte >>= fun p => p.2.string p.1.toNat) := by
  refine steps_byte.bind fun n => steps_string ?_
  have hlt := n.toNat_lt
  omega

/-- What lies between two brackets. -/
theorem inside_ok {opening closing : Char} (ho : opening.utf8Size = 1) (hc : closing.utf8Size = 1)
    {s : Signature} (hs : Narrow s) : Reader.inside (opening :: (s ++ [closing])) = .ok s := by
  have hfront : Narrow (opening :: s) := by
    intro d hd
    -- All but the closing bracket are single bytes.
    rcases List.mem_cons.mp hd with rfl | hd
    · exact ho
    · exact hs d hd
  have hlen : len (opening :: (s ++ [closing])) = (opening :: s).length + 1 := by
    rw [len_cons, len_append, hs.len_eq, ho, len_cons, hc, List.length_cons]
    simp [len]
    omega
  have hcut : sliceTo (opening :: (s ++ [closing])) (opening :: s).length = .ok (opening :: s) :=
    hfront.sliceTo [closing]
  unfold Reader.inside
  rw [hlen, sub_ok (Nat.le_add_left ..), Nat.add_sub_cancel]
  show sliceRange (opening :: (s ++ [closing])) 1 (opening :: s).length = _
  unfold sliceRange
  rw [if_neg (by rw [List.length_cons]; omega), hcut]
  exact sliceFrom_one ho s

/-- Where reading types of the grammar steps, with the nesting levels left that a value has. -/
def AllStep (n : Nat) : Prop :=
  ∀ {m : Nat} {t : Signature}, IsType m t → t.length < maxLen →
    Steps (Reader.readDepth n t) (DBus.Reader.readDepth n t)

/-- What reads a layout of some length moves on. -/
theorem consumes_of_reads {α : Type} {g : Reader → Except Failure (α × Reader)} {lay : α → Layout}
    {P : α → Prop} (h : Reads g lay P) (hpos : ∀ a, P a → ∀ pos, 0 < size (lay a pos)) :
    Consumes g := by
  intro r hr a r' hread
  obtain ⟨ha, _, _, rfl⟩ := (h r.big r.buf r.pos hr.pos a r').mp hread
  exact Nat.lt_add_of_pos_right (hpos a ha r.pos)

/-- A value of a complete type takes a byte at least. -/
theorem consumes_readDepth {m : Nat} {t : Signature} (ht : IsType m t) (n : Nat) :
    Consumes (DBus.Reader.readDepth n t) :=
  consumes_of_reads (readDepth_reads ht n) fun _ hv => hv.2.size_pos

/-- An entry of a dictionary takes bytes. -/
theorem consumes_entry {m l : Nat} {k v : Signature} (hk : IsType m k) (hv : IsType l v) (n : Nat) :
    Consumes (DBus.Reader.readEntry (DBus.Reader.readDepth n k) (DBus.Reader.readDepth n v)) :=
  consumes_of_reads (reads_entry (readDepth_reads hk n) (readDepth_reads hv n))
    fun _ he => he.1.2.entry_pos

/-- A text has as many bytes as its characters have. -/
theorem utf8_toList (s : String) : len s.toList = (utf8 s).length := by
  -- The bytes of a text are those of its characters.
  have hbytes : utf8 s = s.toList.flatMap String.utf8EncodeChar := by
    unfold utf8
    rw [String.toUTF8_eq_toByteArray, ← String.utf8Encode_toList, List.utf8Encode,
      List.data_toByteArray]
  rw [hbytes, List.length_flatMap]
  simp [len]

/-- The type of a variant is one complete type, or refused. -/
theorem variantType_fair {s : Signature} (h : len s < maxLen) :
    Fair (Reader.variantType s) (DBus.Reader.variantType s) := by
  apply (splitSignature_fair h).bind
  intro ts _
  apply Agrees.ite
  · intro _
    exact fair_err _
  · intro _
    exact agrees_ok _

/-- The signature that a variant carries is of 255 bytes at most. -/
theorem returns_sigText :
    Returns (fun r => r.byte >>= fun p => p.2.string p.1.toNat) fun s => len s.toList < maxLen := by
  intro r hr s r' h
  have hlen := ((reads_sigText r.big r.buf r.pos hr.pos s r').mp h).1
  rw [utf8_toList]
  exact Nat.lt_trans hlen (by decide)

/-- A variant is read, or refused. -/
theorem steps_variant {n : Nat} (ih : AllStep n) :
    Steps (Reader.readDepth (n + 1) ['v']) (DBus.Reader.readDepth (n + 1) ['v']) := by
  -- The value of a variant has the one type that is named there.
  have hinner : ∀ s : String, len s.toList < maxLen → Steps
      (fun r => Reader.variantType s.toList >>= fun t => Reader.readDepth n t r >>= fun q =>
        .ok (Value.variant q.1, q.2))
      (fun r => DBus.Reader.variantType s.toList >>= fun t => DBus.Reader.readDepth n t r >>= fun q =>
        .ok (Value.variant q.1, q.2)) := by
    intro s hs r hr
    have hstep : ∀ t, DBus.Reader.variantType s.toList = .ok t →
        Steps (Reader.readDepth n t) (DBus.Reader.readDepth n t) := by
      intro t ht
      obtain ⟨rfl, htype⟩ := variantType_eq_ok.mp ht
      exact ih htype (Nat.lt_of_le_of_lt (length_le_len _) hs)
    constructor
    · apply (variantType_fair hs).bind
      intro t ht
      exact (((hstep t ht).map Value.variant) r hr).1
    · intro v r' h
      obtain ⟨t, ht, h⟩ := bind_eq_ok h
      exact (((hstep t ht).map Value.variant) r hr).2 v r' h
  have hbody := (steps_sigText.bind_of returns_sigText hinner).placed 'v' []
  simp only [bind_assoc] at hbody
  exact hbody

/-- A struct is read, or refused. -/
theorem steps_struct {n : Nat} (ih : AllStep n) {inner : Signature} (hnarrow : Narrow inner)
    (hlen : inner.length < maxLen) :
    Steps (Reader.readDepth (n + 1) ('(' :: (inner ++ [')'])))
      (DBus.Reader.readDepth (n + 1) ('(' :: (inner ++ [')']))) := by
  have hinside : Reader.inside ('(' :: (inner ++ [')'])) = .ok inner :=
    inside_ok (by decide) (by decide) hnarrow
  have hinside' := inside_bracketed '(' ')' inner
  -- The fields are read only where their signature can be split.
  have hbody : Steps
      (fun r => Reader.inside ('(' :: (inner ++ [')'])) >>= fun s => splitSignature s >>= fun ts =>
        DBus.Reader.readFields (Reader.readDepth n) ts r >>= fun q => .ok (Value.struct q.1, q.2))
      (fun r => DBus.Reader.inside ('(' :: (inner ++ [')'])) >>= fun s =>
        DBus.splitSignature s >>= fun ts =>
          DBus.Reader.readFields (DBus.Reader.readDepth n) ts r >>= fun q =>
            .ok (Value.struct q.1, q.2)) := by
    intro r hr
    have hfields : ∀ ts, DBus.splitSignature inner = .ok ts →
        Steps (DBus.Reader.readFields (Reader.readDepth n) ts)
          (DBus.Reader.readFields (DBus.Reader.readDepth n) ts) := by
      intro ts hts
      obtain ⟨rfl, htypes⟩ := splitSignature_eq_ok.mp hts
      apply steps_fields
      intro t ht
      have hle := List.Sublist.length_le (List.sublist_flatten_of_mem ht)
      exact ih (htypes t ht) (Nat.lt_of_le_of_lt hle hlen)
    simp only [hinside, hinside', ok_bind]
    constructor
    · apply (splitSignature_fair (hnarrow.len_eq ▸ hlen)).bind
      intro ts hts
      exact ((hfields ts hts).map Value.struct r hr).1
    · intro v r' h
      obtain ⟨ts, hts, h⟩ := bind_eq_ok h
      exact ((hfields ts hts).map Value.struct r hr).2 v r' h
  exact hbody.placed '(' (inner ++ [')'])

/-- An array of items that are no dictionary entries. -/
theorem steps_items {n m : Nat} {elem : Signature} (ht : IsType m elem)
    (h : Steps (Reader.readDepth n elem) (DBus.Reader.readDepth n elem))
    (helem : elem.head? ≠ some '{') :
    Steps (Reader.readDepth (n + 1) ('a' :: elem)) (DBus.Reader.readDepth (n + 1) ('a' :: elem)) := by
  -- The type of the items is the rest of the signature.
  have hslice : sliceFrom ('a' :: elem) 1 = .ok elem := sliceFrom_one (by decide) elem
  have hbody := ((steps_array h (consumes_readDepth ht n) ht.ne_nil).map (Value.array elem)).placed
    'a' elem
  simp only [bind_assoc] at hbody
  intro r hr
  have hchecked : Reader.readDepth (n + 1) ('a' :: elem) r =
      (alignment ('a' :: elem) >>= fun a => Reader.align r a >>= fun r =>
        Reader.arrayStart elem r >>= fun p =>
          DBus.Reader.readArray (Reader.readDepth n elem) p.1 p.2.1 p.2.2 >>= fun q =>
            .ok (Value.array elem q.1, q.2)) := by
    show (alignment ('a' :: elem) >>= fun a => Reader.align r a >>= fun r =>
      sliceFrom ('a' :: elem) 1 >>= fun elem => Reader.arrayStart elem r >>= fun p =>
        if elem.head? = some '{' then _ else
          DBus.Reader.readArray (Reader.readDepth n elem) p.1 p.2.1 p.2.2 >>= fun q =>
            .ok (Value.array elem q.1, q.2)) = _
    rw [hslice]
    simp only [ok_bind, if_neg helem]
  have hplain : DBus.Reader.readDepth (n + 1) ('a' :: elem) r =
      (r.align (DBus.alignment ('a' :: elem)) >>= fun r => r.arrayStart elem >>= fun p =>
        DBus.Reader.readArray (DBus.Reader.readDepth n elem) p.1 p.2.1 p.2.2 >>= fun q =>
          .ok (Value.array elem q.1, q.2)) := by
    show (r.align _ >>= fun r => r.arrayStart elem >>= fun p =>
      if elem.head? = some '{' then _ else
        DBus.Reader.readArray (DBus.Reader.readDepth n elem) p.1 p.2.1 p.2.2 >>= fun q =>
          .ok (Value.array elem q.1, q.2)) = _
    simp only [if_neg helem]
  rw [hchecked, hplain]
  exact hbody r hr

/-- An entry of a dictionary is read, or refused. -/
theorem steps_entry {fk gk fv gv : Reader → Except Failure (Value × Reader)} (hk : Steps fk gk)
    (hv : Steps fv gv) :
    Steps (Reader.readEntry fk fv) (DBus.Reader.readEntry gk gv) :=
  (hk.bind fun key => hv.map fun val => (key, val)).aligned (by decide) (by decide)

/-- A dictionary: an array of entries. -/
theorem steps_dict {n m : Nat} {k v : Signature} (hk : IsType m k) (hv : IsType m v)
    (hlen : (k ++ v).length < maxLen) (hreadK : Steps (Reader.readDepth n k) (DBus.Reader.readDepth n k))
    (hreadV : Steps (Reader.readDepth n v) (DBus.Reader.readDepth n v)) :
    Steps (Reader.readDepth (n + 1) ('a' :: '{' :: (k ++ v ++ ['}'])))
      (DBus.Reader.readDepth (n + 1) ('a' :: '{' :: (k ++ v ++ ['}']))) := by
  -- The types of key and value are single bytes throughout.
  have hnarrow : Narrow (k ++ v) := (narrow_of_isType hk).append (narrow_of_isType hv)
  have hslice : sliceFrom ('a' :: '{' :: (k ++ v ++ ['}'])) 1 = .ok ('{' :: (k ++ v ++ ['}'])) :=
    sliceFrom_one (by decide) _
  have hinside : Reader.inside ('{' :: (k ++ v ++ ['}'])) = .ok (k ++ v) :=
    inside_ok (by decide) (by decide) hnarrow
  have hinside' : DBus.Reader.inside ('{' :: (k ++ v ++ ['}'])) = .ok (k ++ v) :=
    inside_bracketed _ _ _
  have hchecked : ∀ r, Reader.readDepth (n + 1) ('a' :: '{' :: (k ++ v ++ ['}'])) r =
      (alignment ('a' :: '{' :: (k ++ v ++ ['}'])) >>= fun a => Reader.align r a >>= fun r =>
        Reader.arrayStart ('{' :: (k ++ v ++ ['}'])) r >>= fun p =>
          completeTypeLen (n + 1) (k ++ v) >>= fun i => sliceTo (k ++ v) i >>= fun key =>
            sliceFrom (k ++ v) (len key) >>= fun val =>
              DBus.Reader.readArray (Reader.readEntry (Reader.readDepth n key)
                (Reader.readDepth n val)) p.1 p.2.1 p.2.2 >>= fun q =>
                  .ok (Value.dict key val q.1, q.2)) := by
    intro r
    show (alignment ('a' :: '{' :: (k ++ v ++ ['}'])) >>= fun a => Reader.align r a >>= fun r =>
      sliceFrom ('a' :: '{' :: (k ++ v ++ ['}'])) 1 >>= fun elem => Reader.arrayStart elem r >>= fun p =>
        if elem.head? = some '{' then (Reader.inside elem >>= fun inner =>
          completeTypeLen (n + 1) inner >>= fun i => sliceTo inner i >>= fun key =>
            sliceFrom inner (len key) >>= fun val => _) else _) = _
    rw [hslice]
    simp only [ok_bind, List.head?_cons, if_true, hinside]
  have hplain : ∀ r, DBus.Reader.readDepth (n + 1) ('a' :: '{' :: (k ++ v ++ ['}'])) r =
      (r.align (DBus.alignment ('a' :: '{' :: (k ++ v ++ ['}']))) >>= fun r =>
        r.arrayStart ('{' :: (k ++ v ++ ['}'])) >>= fun p =>
          DBus.completeTypeLen (n + 1) (k ++ v) >>= fun i =>
            DBus.Reader.readArray (DBus.Reader.readEntry (DBus.Reader.readDepth n ((k ++ v).take i))
              (DBus.Reader.readDepth n ((k ++ v).drop i))) p.1 p.2.1 p.2.2 >>= fun q =>
                .ok (Value.dict ((k ++ v).take i) ((k ++ v).drop i) q.1, q.2)) := by
    intro r
    show (r.align _ >>= fun r => r.arrayStart ('{' :: (k ++ v ++ ['}'])) >>= fun p =>
      if some '{' = some '{' then (DBus.Reader.inside ('{' :: (k ++ v ++ ['}'])) >>= fun inner =>
        DBus.completeTypeLen (n + 1) inner >>= fun i => _) else _) = _
    rw [hinside']
    rfl
  have hne : ('{' :: (k ++ v ++ ['}']) : Signature) ≠ [] := List.cons_ne_nil _ _
  -- The end of the key's type is looked for with one level more than the key is read with.
  have hfair := completeTypeLen_fair (n + 1) (k ++ v) (hnarrow.len_eq ▸ hlen)
  -- Where the key is too deep, that is reported behind the length of the array.
  have hbody : Steps
      (fun r => Reader.arrayStart ('{' :: (k ++ v ++ ['}'])) r >>= fun p =>
        completeTypeLen (n + 1) (k ++ v) >>= fun i => sliceTo (k ++ v) i >>= fun key =>
          sliceFrom (k ++ v) (len key) >>= fun val =>
            DBus.Reader.readArray (Reader.readEntry (Reader.readDepth n key)
              (Reader.readDepth n val)) p.1 p.2.1 p.2.2 >>= fun q =>
                .ok (Value.dict key val q.1, q.2))
      (fun r => r.arrayStart ('{' :: (k ++ v ++ ['}'])) >>= fun p =>
        DBus.completeTypeLen (n + 1) (k ++ v) >>= fun i =>
          DBus.Reader.readArray (DBus.Reader.readEntry (DBus.Reader.readDepth n ((k ++ v).take i))
            (DBus.Reader.readDepth n ((k ++ v).drop i))) p.1 p.2.1 p.2.2 >>= fun q =>
              .ok (Value.dict ((k ++ v).take i) ((k ++ v).drop i) q.1, q.2)) := by
    rw [hfair.eq]
    cases hcase : DBus.completeTypeLen (n + 1) (k ++ v) with
    | error e =>
        intro r hr
        constructor
        · apply (arrayStart_fair hr hne).1.bind
          intro _ _
          exact agrees_error (hfair.safe e hcase)
        · intro d r' h
          obtain ⟨_, _, h⟩ := bind_eq_ok h
          cases h
    | ok i =>
        obtain ⟨t, rest, hsplit, ht, rfl⟩ := completeTypeLen_eq_ok.mp hcase
        obtain ⟨rfl, rfl⟩ := hk.append_inj ht hsplit
        have hto := (narrow_of_isType hk).sliceTo v
        have hfrom := (narrow_of_isType hk).sliceFrom v
        have hentries := steps_array (steps_entry hreadK hreadV) (consumes_entry hk hv n) hne
        simp only [ok_bind, hto, (narrow_of_isType hk).len_eq, hfrom, List.take_left, List.drop_left]
        have hmapped := hentries.map (Value.dict k v)
        simp only [bind_assoc] at hmapped
        exact hmapped
  intro r hr
  rw [hchecked, hplain]
  exact hbody.placed 'a' ('{' :: (k ++ v ++ ['}'])) r hr

/-- With any number of nesting levels left, reading a complete type takes the same steps with
every check. -/
theorem allStep (n : Nat) : AllStep n := by
  -- Induction over the levels left.
  induction n with
  | zero =>
      intro m t _ _
      exact steps_err _
  | succ n ih =>
      intro m t ht hlen
      -- By the shape of the type.
      cases ht with
      | @basic _ c hc =>
          simp only [isBasicCode, List.contains_cons, List.contains_nil, Bool.or_false,
            Bool.or_eq_true, beq_iff_eq] at hc
          rcases hc with rfl | rfl | rfl | rfl | rfl | rfl | rfl | rfl | rfl | rfl | rfl | rfl | rfl |
            rfl
          · exact (steps_byte.map Value.byte).placed 'y' []
          · have hbool : ∀ v : UInt32, Steps
                (fun r => if v = 0 then .ok (Value.bool false, r)
                  else if v = 1 then .ok (.bool true, r) else err (.badBoolean v))
                (fun r => if v = 0 then .ok (Value.bool false, r)
                  else if v = 1 then .ok (.bool true, r) else err (.badBoolean v)) :=
              fun v => (steps_ok _).ite ((steps_ok _).ite (steps_err _))
            exact (steps_u32.bind hbool).placed 'b' []
          · exact (steps_u16.map fun v => Value.i16 v.toInt16).placed 'n' []
          · exact (steps_u16.map Value.u16).placed 'q' []
          · exact (steps_u32.map fun v => Value.i32 v.toInt32).placed 'i' []
          · exact (steps_u32.map Value.u32).placed 'u' []
          · exact (steps_u64.map fun v => Value.i64 v.toInt64).placed 'x' []
          · exact (steps_u64.map Value.u64).placed 't' []
          · exact (steps_u64.map Value.double).placed 'd' []
          · have htext := (steps_text.map Value.str).placed 's' []
            simp only [bind_assoc] at htext
            exact htext
          · have htext := (steps_text.map Value.path).placed 'o' []
            simp only [bind_assoc] at htext
            exact htext
          · have htext := (steps_sigText.map Value.sig).placed 'g' []
            simp only [bind_assoc] at htext
            exact htext
          · exact (steps_u32.map Value.fd).placed 'h' []
          · exact steps_variant ih
      | @array _ elem helem =>
          -- A part of a signature is shorter than it.
          have hshort : elem.length < maxLen := by
            rw [List.length_cons] at hlen
            omega
          cases helem with
          | @entry _ k v hk hv =>
              rw [List.length_cons, List.length_append, List.length_singleton] at hshort
              have hkLen : k.length < maxLen := by
                rw [List.length_append] at hshort
                omega
              have hvLen : v.length < maxLen := by
                rw [List.length_append] at hshort
                omega
              exact steps_dict hk hv (by omega) (ih hk hkLen) (ih hv hvLen)
          | @basic _ c hc =>
              have ht : IsType 1 [c] := .basic hc
              refine steps_items ht (ih ht hshort) ?_
              rintro heq
              cases heq
              revert hc
              decide
          | array helem =>
              have ht := IsType.array helem
              exact steps_items ht (ih ht hshort) (by simp)
          | struct ts hne hts =>
              have ht := IsType.struct ts hne hts
              exact steps_items ht (ih ht hshort) (by simp)
      | struct ts hne hts =>
          -- So are the types of the fields one after another.
          have hnarrow : Narrow ts.flatten := by
            intro c hc
            obtain ⟨t, ht, hc⟩ := List.mem_flatten.mp hc
            exact narrow_of_isType (hts t ht) c hc
          refine steps_struct ih hnarrow ?_
          rw [List.length_cons, List.length_append] at hlen
          omega
      | entry hk hv => exact (steps_err _).placed '{' _

/-- A body is decoded, or refused, whatever its bytes are. -/
theorem decodeBody_fair {sig : Signature} {body : List UInt8} (hsig : len sig < maxLen)
    (hbody : body.length < maxLen) (big : Bool) :
    Fair (decodeBody sig body big) (DBus.decodeBody sig body big) := by
  apply (splitSignature_fair hsig).bind
  intro ts hts
  obtain ⟨rfl, htypes⟩ := splitSignature_eq_ok.mp hts
  -- The types were split from the signature, so they are complete.
  have hfields : Steps (DBus.Reader.readFields (Reader.readDepth (maxDepth + 1)) ts)
      (DBus.Reader.readFields DBus.Reader.read ts) := by
    apply steps_fields
    intro t ht
    have hle := List.Sublist.length_le (List.sublist_flatten_of_mem ht)
    have hlen := length_le_len ts.flatten
    exact allStep (maxDepth + 1) (htypes t ht) (by omega)
  apply (hfields ⟨body, 0, big⟩ ⟨Nat.zero_le _, hbody⟩).1.bind
  intro ⟨vs, r⟩ _
  apply Agrees.ite
  · intro _
    exact fair_err _
  · intro _
    exact agrees_ok _

end Checked

/-! ## Section 4: Depth -/

mutual

/-- How deep a value nests, the values inside variants included. -/
def Value.depth : Value → Nat
  | .array _ items => depthAll items + 1
  | .dict _ _ entries => depthEntries entries + 1
  | .struct fields => depthAll fields + 1
  | .variant inner => inner.depth + 1
  | _ => 1

def Value.depthAll : List Value → Nat
  | [] => 0
  | v :: vs => max v.depth (depthAll vs)

def Value.depthEntries : List (Value × Value) → Nat
  | [] => 0
  | (k, v) :: es => max (max k.depth v.depth) (depthEntries es)

end

/-- Values are no deeper than each of them. -/
theorem depthAll_le {n : Nat} {vs : List Value} (h : ∀ v ∈ vs, v.depth ≤ n) :
    Value.depthAll vs ≤ n := by
  -- By induction over the values.
  induction vs with
  | nil => exact Nat.zero_le n
  | cons v vs ih =>
      rw [Value.depthAll]
      exact Nat.max_le.mpr ⟨h v List.mem_cons_self, ih fun w hw => h w (List.mem_cons_of_mem v hw)⟩

/-- Entries are no deeper than each of them. -/
theorem depthEntries_le {n : Nat} {es : List (Value × Value)}
    (h : ∀ e ∈ es, e.1.depth ≤ n ∧ e.2.depth ≤ n) : Value.depthEntries es ≤ n := by
  induction es with
  | nil => exact Nat.zero_le n
  | cons e es ih =>
      obtain ⟨hk, hv⟩ := h e List.mem_cons_self
      rw [Value.depthEntries]
      exact Nat.max_le.mpr ⟨Nat.max_le.mpr ⟨hk, hv⟩,
        ih fun e' he' => h e' (List.mem_cons_of_mem e he')⟩

/-- A value nests no deeper than the levels it was read with. -/
theorem Typed.depth_le {n : Nat} {v : Value} (h : Typed n v) : v.depth ≤ n := by
  -- By induction over the type.
  induction h with
  | array _ _ _ ih =>
      rw [Value.depth]
      exact Nat.succ_le_succ (depthAll_le ih)
  | dict _ _ _ _ _ ihk ihv =>
      rw [Value.depth]
      exact Nat.succ_le_succ (depthEntries_le fun e he => ⟨ihk e he, ihv e he⟩)
  | struct _ _ _ ih =>
      rw [Value.depth]
      exact Nat.succ_le_succ (depthAll_le ih)
  | variant _ _ _ ih =>
      rw [Value.depth]
      exact Nat.succ_le_succ ih
  | _ => exact Nat.succ_le_succ (Nat.zero_le _)

end Psbox.DBus
