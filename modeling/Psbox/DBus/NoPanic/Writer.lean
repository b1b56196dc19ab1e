import Psbox.DBus.NoPanic.Signatures

/-!
# Values Are Written without Panics

The writer of `DBus/Checked.lean` writes what the one that checks nothing does, where that is
no longer than a vector can be.
-/

namespace Psbox.DBus

open Image

namespace Checked

/-! ## Section 1: Steps of the Writer -/

/-- Writing with `f` is writing with `g`, which adds to the buffer, where the result is no
longer than a vector can be. -/
def Follows (f : Writer → Except Failure Writer) (g : Writer → Writer) : Prop :=
  ∀ w, w.buf.length ≤ (g w).buf.length ∧ ((g w).buf.length < maxLen → f w = .ok (g w))

section Follows

variable {f f' : Writer → Except Failure Writer} {g g' : Writer → Writer}

theorem follows_ok : Follows .ok id :=
  fun _ => ⟨Nat.le_refl _, fun _ => rfl⟩

/-- One writer after another. -/
theorem Follows.andThen (h : Follows f g) (h' : Follows f' g') :
    Follows (fun w => f w >>= f') (fun w => g' (g w)) := by
  intro w
  obtain ⟨hgrow, hfirst⟩ := h w
  obtain ⟨hgrow', hsecond⟩ := h' (g w)
  refine ⟨Nat.le_trans hgrow hgrow', ?_⟩
  intro hroom
  show f w >>= f' = _
  rw [hfirst (Nat.lt_of_le_of_lt hgrow' hroom)]
  exact hsecond hroom

/-- Bytes are written. -/
theorem follows_push (bytes : List UInt8) :
    Follows (fun w => Writer.push w bytes) fun w => w.push bytes := by
  intro w
  have hlen : (w.push bytes).buf.length = w.buf.length + bytes.length := List.length_append
  refine ⟨hlen ▸ Nat.le_add_right .., ?_⟩
  intro hroom
  exact if_pos (hlen ▸ hroom)

/-- Padding is written. -/
theorem follows_align (n : Nat) : Follows (fun w => Writer.align w n) fun w => w.align n :=
  fun w => follows_push _ w

theorem follows_u32 (v : UInt32) : Follows (fun w => Writer.u32 w v) fun w => w.u32 v :=
  (follows_align 4).andThen (follows_push _)

/-- A text is written. -/
theorem follows_string (s : String) : Follows (fun w => Writer.string w s) fun w => w.string s := by
  have h := ((follows_u32 (UInt32.ofNat (utf8 s).length)).andThen (follows_push (utf8 s))).andThen
    (follows_push [0])
  simp only [bind_assoc] at h
  exact h

/-- A signature is written. -/
theorem follows_sig (s : Signature) : Follows (fun w => Writer.sig w s) fun w => w.sig s := by
  have h := ((follows_push [UInt8.ofNat (utf8 (String.ofList s)).length]).andThen
    (follows_push (utf8 (String.ofList s)))).andThen (follows_push [0])
  simpa [Follows, Writer.sig, DBus.Writer.sig, DBus.Writer.push] using h

/-- The length of an array is written where its room is. -/
theorem Follows.array (h : Follows f g) (n : Nat) :
    Follows (fun w => Writer.array w (.ok n) f) fun w => w.array n g := by
  intro w
  let w₁ := w.u32 0
  let start := w₁.align n
  let w₂ := g start
  -- There is room for the length, which is written at last.
  have hfour : w.buf.length + 4 ≤ w₁.buf.length := by
    simp only [w₁, DBus.Writer.u32, DBus.Writer.align, DBus.Writer.push, List.length_append,
      length_leBytes]
    omega
  have hstart : w₁.buf.length ≤ start.buf.length := (follows_align n w₁).1
  have hend : start.buf.length ≤ w₂.buf.length := (h start).1
  have hlen : (w.array n g).buf.length = w₂.buf.length := by
    show (w₂.patch (w₁.buf.length - 4) _).buf.length = _
    simp only [DBus.Writer.patch, List.length_append, List.length_take, List.length_drop,
      length_leBytes]
    omega
  show w.buf.length ≤ (w.array n g).buf.length ∧ ((w.array n g).buf.length < maxLen → _)
  rw [hlen]
  refine ⟨by omega, ?_⟩
  intro hroom
  -- Nothing overflows, as the end does not.
  have hu32 : Writer.u32 w 0 = .ok w₁ := by
    apply (follows_u32 0 w).2
    show w₁.buf.length < maxLen
    omega
  have halign : Writer.align w₁ n = .ok start := by
    apply (follows_align n w₁).2
    show start.buf.length < maxLen
    omega
  have hitems : f start = .ok w₂ := (h start).2 hroom
  have hlenAt : add (w₁.buf.length - 4) 4 = .ok w₁.buf.length := by
    unfold maxLen at hroom
    rw [add_ok (by omega)]
    exact congrArg Except.ok (by omega)
  show (Writer.u32 w 0 >>= fun w => sub w.buf.length 4 >>= fun lenAt => Except.ok n >>= fun n =>
    Writer.align w n >>= fun w' => f w' >>= fun w'' => sub w''.buf.length w'.buf.length >>= fun n =>
      Writer.patch w'' lenAt (UInt32.ofNat n)) = _
  rw [hu32, ok_bind, sub_ok (show 4 ≤ w₁.buf.length by omega), ok_bind, ok_bind, halign, ok_bind,
    hitems, ok_bind, sub_ok hend, ok_bind]
  unfold Writer.patch
  rw [hlenAt, ok_bind, slice_ok (by omega) (by omega)]
  rfl

end Follows

/-! ## Section 2: Values -/

/-- The padding before a value is written. -/
theorem follows_alignFor (v : Value) :
    Follows (fun w => Writer.alignFor w v) fun w => w.align (DBus.alignment v.signature) := by
  cases v <;> exact follows_align _

/-- Values are written one after another. -/
theorem follows_all {vs : List Value}
    (h : ∀ v ∈ vs, Follows (Writer.write v) (DBus.Writer.write v)) :
    Follows (Writer.writeAll vs) (DBus.Writer.writeAll vs) := by
  -- By induction over the values.
  induction vs with
  | nil => exact follows_ok
  | cons v vs ih =>
      exact (h v List.mem_cons_self).andThen (ih fun v' hv' => h v' (List.mem_cons_of_mem v hv'))

/-- Entries are written one after another. -/
theorem follows_entries {es : List (Value × Value)}
    (h : ∀ e ∈ es, Follows (Writer.write e.1) (DBus.Writer.write e.1) ∧
      Follows (Writer.write e.2) (DBus.Writer.write e.2)) :
    Follows (Writer.writeEntries es) (DBus.Writer.writeEntries es) := by
  induction es with
  | nil => exact follows_ok
  | cons e es ih =>
      obtain ⟨hk, hv⟩ := h e List.mem_cons_self
      have hentry := ((follows_align 8).andThen hk).andThen hv
      have hall := hentry.andThen (ih fun e' he' => h e' (List.mem_cons_of_mem e he'))
      simp only [bind_assoc] at hall
      exact hall

/-- Where the element type of an array is not empty, which is what its alignment indexes. -/
theorem elem_of_isType {m : Nat} {elem : Signature} (h : IsType m ('a' :: elem)) :
    ∃ k, IsType k elem := by
  cases h with
  | basic hc => exact absurd hc (by decide)
  | array ht => exact ⟨_, ht⟩

/-- The second type of a dictionary's entry is complete. -/
theorem value_of_isType {n m : Nat} {k v : Signature} (hk : IsType n k)
    (h : IsType m ('{' :: (k ++ v ++ ['}']))) : ∃ l, IsType l v := by
  generalize hs : '{' :: (k ++ v ++ ['}']) = s at h
  -- The entry's brackets enclose the two types in one way only.
  cases h with
  | basic hc =>
      obtain ⟨rfl, _⟩ := List.cons.inj hs
      exact absurd hc (by decide)
  | array _ => exact absurd (List.cons.inj hs).1 (by decide)
  | struct _ _ _ => exact absurd (List.cons.inj hs).1 (by decide)
  | @entry l k' v' hk' hv' =>
      have hinner : k ++ v = k' ++ v' := List.append_cancel_right (List.cons.inj hs).2
      obtain ⟨_, rfl⟩ := hk.append_inj hk' hinner
      exact ⟨l, hv'⟩

/-- A value of a complete type is written where there is room for it. -/
theorem follows_value {n : Nat} {v : Value} (h : Typed n v) :
    ∀ {m : Nat}, IsType m v.signature → Follows (Writer.write v) (DBus.Writer.write v) := by
  -- By induction over the value; an array has an element type, which the code indexes.
  induction h with
  | byte b => exact fun _ => (follows_alignFor _).andThen (follows_push _)
  | bool b => exact fun _ => (follows_alignFor _).andThen (follows_u32 _)
  | i16 v => exact fun _ => (follows_alignFor _).andThen (follows_push _)
  | u16 v => exact fun _ => (follows_alignFor _).andThen (follows_push _)
  | i32 v => exact fun _ => (follows_alignFor _).andThen (follows_u32 _)
  | u32 v => exact fun _ => (follows_alignFor _).andThen (follows_u32 _)
  | i64 v => exact fun _ => (follows_alignFor _).andThen (follows_push _)
  | u64 v => exact fun _ => (follows_alignFor _).andThen (follows_push _)
  | double v => exact fun _ => (follows_alignFor _).andThen (follows_push _)
  | fd v => exact fun _ => (follows_alignFor _).andThen (follows_u32 _)
  | str _ => exact fun _ => (follows_alignFor _).andThen (follows_string _)
  | path _ => exact fun _ => (follows_alignFor _).andThen (follows_string _)
  | sig _ => exact fun _ => (follows_alignFor _).andThen (follows_sig _)
  | @array n elem items helem htype hitems ih =>
      intro m ht
      obtain ⟨k, hk⟩ := elem_of_isType ht
      obtain ⟨c, cs, hcs⟩ := List.exists_cons_of_ne_nil hk.ne_nil
      -- Each item has the type of the array.
      have hall : Follows (Writer.writeAll items) (DBus.Writer.writeAll items) := by
        apply follows_all
        intro v hv
        exact ih v hv (htype v hv ▸ hk)
      subst hcs
      exact (follows_alignFor (.array (c :: cs) items)).andThen
        (hall.array (DBus.alignment (c :: cs)))
  | @dict n k v entries hk hktype hvtype hkeys hvals ihk ihv =>
      intro m ht
      have hshape : Value.signature (.dict k v entries) = 'a' :: '{' :: (k ++ v ++ ['}']) := by
        simp [Value.signature]
      rw [hshape] at ht
      obtain ⟨l, hl⟩ := elem_of_isType ht
      obtain ⟨l', hkv⟩ := value_of_isType hk hl
      have hall : Follows (Writer.writeEntries entries) (DBus.Writer.writeEntries entries) := by
        apply follows_entries
        intro e he
        exact ⟨ihk e he (hktype e he ▸ hk), ihv e he (hvtype e he ▸ hkv)⟩
      exact (follows_alignFor (.dict k v entries)).andThen (hall.array 8)
  | @struct n fields hne htypes hfields ih =>
      intro _ _
      exact (follows_alignFor (.struct fields)).andThen
        (follows_all fun v hv => ih v hv (htypes v hv))
  | @variant n inner htype hlen hinner ih =>
      intro _ _
      have h := ((follows_alignFor (.variant inner)).andThen (follows_sig inner.signature)).andThen
        (ih htype)
      simp only [bind_assoc] at h
      exact h

/-- A body that is short enough is written. -/
theorem encodeBody_ok {vs : List Value} (htypes : ∀ v ∈ vs, IsType (maxDepth + 1) v.signature)
    (htyped : ∀ v ∈ vs, Typed (maxDepth + 1) v) (hlen : (DBus.encodeBody vs).2.length < maxLen) :
    encodeBody vs = .ok (DBus.encodeBody vs) := by
  have hall := follows_all fun v hv => follows_value (htyped v hv) (htypes v hv)
  unfold encodeBody
  rw [(hall { buf := [] }).2 hlen]
  rfl

end Checked

end Psbox.DBus
