import Psbox.DBus.Checked

/-!
# Signatures Are Split without Panics

The functions on signatures of `DBus/Checked.lean` agree with those of the same names that
check nothing, and neither gets stuck: the texts that are sliced start with complete types,
whose characters are single bytes.

Texts are shorter than `isize::MAX` bytes, as all of the language's are.
-/

namespace Psbox.DBus

open Psbox.Foundations (bind_eq_ok Safe Agrees safe_ok agrees_ok agrees_error)
open Image

/-! ## Section 1: Answers -/

/-- A failure that the code reports. -/
def Reported (e : Failure) : Prop :=
  ∃ why, e = .reported why

/-- The checked computation `x` is `y`, and neither panics nor loops. -/
abbrev Fair {α : Type} (x y : Except Failure α) : Prop :=
  Agrees Reported x y

theorem fair_err {α : Type} (e : DecodeError) : Fair (err e : Except Failure α) (err e) :=
  agrees_error ⟨e, rfl⟩

/-- The bound on the length of every slice and text. -/
def maxLen : Nat := 2 ^ 63

namespace Checked

/-- A sum within 64 bits does not overflow. -/
theorem add_ok {a b : Nat} (h : a + b < 2 ^ 64) : add a b = .ok (a + b) :=
  if_pos h

/-- A difference that is not negative does not overflow. -/
theorem sub_ok {a b : Nat} (h : b ≤ a) : sub a b = .ok (a - b) :=
  if_pos h

/-- A slice within the bounds is there. -/
theorem slice_ok {bytes : List UInt8} {start stop : Nat} (h : start ≤ stop)
    (h' : stop ≤ bytes.length) :
    slice bytes start stop = .ok ((bytes.drop start).take (stop - start)) :=
  if_pos ⟨h, h'⟩

theorem toArray_ok {n : Nat} {bytes : List UInt8} (h : bytes.length = n) :
    toArray n bytes = .ok bytes :=
  if_pos h

/-! ## Section 2: Texts -/

/-- All characters of a text are single bytes. -/
def Narrow (s : Signature) : Prop :=
  ∀ c ∈ s, c.utf8Size = 1

theorem len_cons (c : Char) (s : Signature) : len (c :: s) = c.utf8Size + len s := by
  simp [len]

theorem len_append (s t : Signature) : len (s ++ t) = len s + len t := by
  simp [len]

/-- A text has no more characters than bytes. -/
theorem length_le_len (s : Signature) : s.length ≤ len s := by
  -- A character has a byte at least.
  induction s with
  | nil => exact Nat.zero_le _
  | cons c s ih =>
      have hpos := c.utf8Size_pos
      rw [len_cons, List.length_cons]
      omega

/-- Two texts of one-byte characters are one. -/
theorem Narrow.append {s t : Signature} (hs : Narrow s) (ht : Narrow t) : Narrow (s ++ t) := by
  intro c hc
  rcases List.mem_append.mp hc with hc | hc
  · exact hs c hc
  · exact ht c hc

/-- A text of one-byte characters has as many as bytes. -/
theorem Narrow.len_eq {s : Signature} (h : Narrow s) : len s = s.length := by
  induction s with
  | nil => rfl
  | cons c s ih =>
      rw [len_cons, h c List.mem_cons_self, List.length_cons,
        ih fun d hd => h d (List.mem_cons_of_mem c hd)]
      omega

/-- Behind single bytes a text splits anywhere. -/
theorem Narrow.splitAt {s : Signature} (h : Narrow s) (t : Signature) :
    Checked.splitAt s.length (s ++ t) = .ok (s, t) := by
  -- By induction over the single bytes in front.
  induction s with
  | nil => cases t <;> rfl
  | cons c s ih =>
      have hc := h c List.mem_cons_self
      have hrest := ih fun d hd => h d (List.mem_cons_of_mem c hd)
      simp only [List.length_cons, List.cons_append, Checked.splitAt, hc]
      rw [if_pos (by omega), Nat.add_sub_cancel, hrest]
      rfl

/-- Behind one-byte characters a slice starts at a boundary. -/
theorem Narrow.sliceFrom {s : Signature} (h : Narrow s) (t : Signature) :
    Checked.sliceFrom (s ++ t) s.length = .ok t := by
  unfold Checked.sliceFrom
  rw [h.splitAt]
  rfl

/-- Behind one-byte characters a slice ends at a boundary. -/
theorem Narrow.sliceTo {s : Signature} (h : Narrow s) (t : Signature) :
    Checked.sliceTo (s ++ t) s.length = .ok s := by
  unfold Checked.sliceTo
  rw [h.splitAt]
  rfl

/-- A byte behind one-byte characters is that of the rest. -/
theorem Narrow.byteIs {s : Signature} (h : Narrow s) (t : Signature) (i : Nat) (c : Char) :
    Checked.byteIs (s ++ t) (s.length + i) c = Checked.byteIs t i c := by
  induction s with
  | nil => rw [List.nil_append, List.length_nil, Nat.zero_add]
  | cons d s ih =>
      have hd := h d List.mem_cons_self
      have hrest := ih fun d hd => h d (List.mem_cons_of_mem _ hd)
      have hidx : (d :: s).length + i - d.utf8Size = s.length + i := by
        rw [List.length_cons, hd]
        omega
      rw [List.cons_append, Checked.byteIs, if_neg (by rw [List.length_cons]; omega),
        if_neg (by rw [List.length_cons, hd]; omega), hidx, hrest]

theorem byteIs_zero (s : Signature) (c : Char) : byteIs s 0 c = (s.head? == some c) := by
  cases s with
  | nil => rfl
  | cons d s =>
      rw [byteIs, if_pos rfl]
      simp

/-- `&s[1..]` behind a single byte. -/
theorem sliceFrom_one {c : Char} (hc : c.utf8Size = 1) (s : Signature) :
    sliceFrom (c :: s) 1 = .ok s := by
  have hnarrow : Narrow [c] := by
    intro d hd
    rw [List.mem_singleton.mp hd, hc]
  exact hnarrow.sliceFrom s

/-- The characters of a complete type are single bytes. -/
theorem narrow_of_isType {n : Nat} {t : Signature} (h : IsType n t) : Narrow t := by
  -- By induction over the type.
  induction h with
  | @basic _ c hc =>
      simp only [isBasicCode, List.contains_cons, List.contains_nil, Bool.or_false, Bool.or_eq_true,
        beq_iff_eq] at hc
      intro d hd
      obtain rfl := List.mem_singleton.mp hd
      rcases hc with rfl | rfl | rfl | rfl | rfl | rfl | rfl | rfl | rfl | rfl | rfl | rfl | rfl |
        rfl <;> decide
  | array ht ih =>
      intro d hd
      rcases List.mem_cons.mp hd with rfl | hd
      · decide
      · exact ih d hd
  | struct ts hne hts ih =>
      intro d hd
      rcases List.mem_cons.mp hd with rfl | hd
      · decide
      rcases List.mem_append.mp hd with hd | hd
      · obtain ⟨t, ht, hd⟩ := List.mem_flatten.mp hd
        exact ih t ht d hd
      · rw [List.mem_singleton.mp hd]
        decide
  | entry hk hv ihk ihv =>
      intro d hd
      rcases List.mem_cons.mp hd with rfl | hd
      · decide
      rcases List.mem_append.mp hd with hd | hd
      · exact ihk.append ihv d hd
      · rw [List.mem_singleton.mp hd]
        decide

/-! ## Section 3: Signatures -/

/-- What a function that finds types has to say for the loops over it: where it finds one,
that is single bytes, one at least. -/
def FindsTypes (next : Signature → Except Failure Nat) : Prop :=
  ∀ s k, next s = .ok k → ∃ t rest, s = t ++ rest ∧ Narrow t ∧ t ≠ [] ∧ t.length = k

/-- What is found at the front of a signature are one-byte characters. -/
theorem findsTypes_completeTypeLen (n : Nat) : FindsTypes (DBus.completeTypeLen n) := by
  intro s k h
  obtain ⟨t, rest, rfl, ht, hlen⟩ := isType_of_completeTypeLen h
  exact ⟨t, rest, rfl, narrow_of_isType ht, ht.ne_nil, hlen⟩

/-- The end of a struct's fields is found, or refused. -/
theorem structFieldsEnd_fair {next nextC : Signature → Except Failure Nat}
    (hnext : ∀ s, len s < maxLen → Fair (nextC s) (next s)) (hfinds : FindsTypes next) :
    ∀ (fuel : Nat) (before rest : Signature), rest.length ≤ fuel → Narrow before →
      len (before ++ rest) < maxLen →
      Fair (structFieldsEnd nextC (before ++ rest) fuel before.length)
        (do let m ← structFieldsLen next fuel rest; .ok (before.length + m)) := by
  intro fuel
  -- Induction over the fuel; what lies before is general, since the source counts from the start.
  induction fuel with
  | zero =>
      intro before rest hfuel hnarrow hlen
      obtain rfl := List.length_eq_zero_iff.mp (Nat.le_zero.mp hfuel)
      unfold structFieldsEnd structFieldsLen
      rw [List.append_nil, hnarrow.len_eq, if_pos (Nat.le_refl _), if_neg]
      · exact fair_err _
      · have hbyte := hnarrow.byteIs [] 0 ')'
        rw [List.append_nil, Nat.add_zero] at hbyte
        simp [hbyte, byteIs_zero]
  | succ fuel ih =>
      intro before rest hfuel hnarrow hlen
      have hbyte := hnarrow.byteIs rest 0 ')'
      rw [Nat.add_zero, byteIs_zero] at hbyte
      unfold structFieldsEnd
      rw [hbyte]
      cases rest with
      | nil =>
          rw [List.append_nil, hnarrow.len_eq, if_neg (by simp), if_pos (Nat.le_refl _)]
          exact fair_err _
      | cons c cs =>
          by_cases hc : c = ')'
          · subst hc
            rw [if_pos (by simp)]
            exact agrees_ok _
          -- The loop is not at the end yet.
          have hroom : ¬len (before ++ c :: cs) ≤ before.length := by
            have hpos := length_le_len (c :: cs)
            rw [len_append, hnarrow.len_eq]
            simp only [List.length_cons] at hpos
            omega
          rw [if_neg (by simpa using hc), if_neg hroom, structFieldsLen_cons next fuel cs hc]
          dsimp only
          apply Agrees.of_ok_bind (hnarrow.sliceFrom _)
          have hshort : len (c :: cs) < maxLen := by
            rw [len_append] at hlen
            omega
          simp only [bind_assoc]
          apply (hnext _ hshort).bind
          intro n hn
          obtain ⟨t, rest', hsplit, ht, hne, rfl⟩ := hfinds _ _ hn
          have hpos := List.length_pos_iff.mpr hne
          rw [hsplit] at hlen hfuel ⊢
          -- The offset stays within the text.
          have hbound : before.length + t.length < 2 ^ 64 := by
            rw [len_append, len_append, hnarrow.len_eq, ht.len_eq] at hlen
            unfold maxLen at hlen
            omega
          rw [sliceFrom_append]
          apply Agrees.of_ok_bind (add_ok hbound)
          -- The loop goes on behind the type.
          have hrest := ih (before ++ t) rest'
            (by rw [List.length_append] at hfuel; omega) (hnarrow.append ht)
            (by rwa [List.append_assoc])
          rw [List.append_assoc, List.length_append] at hrest
          have hsum : (fun x => (Except.ok (t.length + x) : Except Failure Nat) >>= fun m =>
              Except.ok (before.length + m)) = fun m => .ok (before.length + t.length + m) := by
            funext m
            exact congrArg Except.ok (Nat.add_assoc ..).symm
          show Fair _ (structFieldsLen next fuel rest' >>= _)
          rw [hsum]
          exact hrest

/-- A complete type at the front is measured, or refused. -/
theorem completeTypeLen_fair (n : Nat) :
    ∀ s, len s < maxLen → Fair (completeTypeLen n s) (DBus.completeTypeLen n s) := by
  -- Induction over the nesting that is left.
  induction n with
  | zero =>
      intro s _
      exact fair_err _
  | succ n ih =>
      intro s hlen
      cases s with
      | nil => exact fair_err _
      | cons c rest =>
          have hrest : len rest < maxLen := by
            rw [len_cons] at hlen
            omega
          unfold completeTypeLen DBus.completeTypeLen
          apply Agrees.ite
          · intro _
            exact agrees_ok 1
          intro _
          apply Agrees.ite
          · rintro rfl
            apply Agrees.of_ok_bind (sliceFrom_one (by decide) rest)
            apply (ih rest hrest).bind
            intro k hk
            obtain ⟨t, after, rfl, ht, _, rfl⟩ := findsTypes_completeTypeLen n _ _ hk
            have hbound : 1 + t.length < 2 ^ 64 := by
              rw [len_append, ht.len_eq] at hrest
              unfold maxLen at hrest
              omega
            rw [add_ok hbound]
            exact agrees_ok _
          intro _
          apply Agrees.ite
          · rintro rfl
            have hparen : Narrow ['('] := by
              intro d hd
              rw [List.mem_singleton.mp hd]
              decide
            have hloop := structFieldsEnd_fair ih (findsTypes_completeTypeLen n)
              rest.length ['('] rest (Nat.le_refl _) hparen hlen
            -- The fields end where the source counts from the parenthesis on.
            have hcount : (fun m => (Except.ok (['('].length + m) : Except Failure Nat) >>= fun i =>
                if i = 1 then err .emptyStruct else .ok (i + 1)) =
                fun m => if m = 0 then err .emptyStruct else .ok (m + 2) := by
              funext m
              by_cases hm : m = 0
              · rw [if_pos hm, hm]
                rfl
              · rw [if_neg hm]
                show (if 1 + m = 1 then _ else _) = _
                rw [if_neg (by omega)]
                exact congrArg Except.ok (by rw [List.length_singleton]; omega)
            show Fair _ (structFieldsLen (DBus.completeTypeLen n) rest.length rest >>= _)
            rw [← hcount, ← bind_assoc]
            apply hloop.bind
            intro i hi
            obtain ⟨m, hm, hi⟩ := bind_eq_ok hi
            obtain rfl : 1 + m = i := Except.ok.inj hi
            obtain ⟨ts, after, hrest', _, rfl⟩ :=
              structFieldsLen_eq_ok (fun _ _ => isType_of_completeTypeLen) hm
            apply Agrees.ite
            · intro _
              exact fair_err _
            · intro _
              have hbound : 1 + ts.flatten.length + 1 < 2 ^ 64 := by
                have hle := length_le_len rest
                rw [hrest', List.length_append] at hle
                unfold maxLen at hlen
                rw [len_cons, hrest'] at hlen
                omega
              rw [add_ok hbound]
              exact agrees_ok _
          intro _
          apply Agrees.ite
          · rintro rfl
            have hbrace : Narrow ['{'] := by
              intro d hd
              rw [List.mem_singleton.mp hd]
              decide
            apply Agrees.of_ok_bind (sliceFrom_one (by decide) rest)
            apply (ih rest hrest).bind
            intro k hk
            obtain ⟨t, after, rfl, ht, _, rfl⟩ := findsTypes_completeTypeLen n _ _ hk
            have hlenAfter : len after < maxLen := by
              rw [len_append] at hrest
              omega
            have hbound : 1 + t.length + len after < 2 ^ 63 := by
              rw [len_cons, len_append, ht.len_eq] at hlen
              have hone : Char.utf8Size '{' = 1 := by decide
              unfold maxLen at hlen
              omega
            have hvalue : sliceFrom ('{' :: (t ++ after)) (1 + t.length) = .ok after := by
              have hnarrow := (hbrace.append ht).sliceFrom after
              rwa [List.length_append, List.append_assoc] at hnarrow
            apply Agrees.of_ok_bind (add_ok (by omega))
            apply Agrees.of_ok_bind hvalue
            rw [sliceFrom_append]
            apply (ih after hlenAfter).bind
            intro v hv
            obtain ⟨u, last, rfl, hu, _, rfl⟩ := findsTypes_completeTypeLen n _ _ hv
            have hboundV : 1 + t.length + u.length < 2 ^ 63 := by
              rw [len_append, hu.len_eq] at hbound
              omega
            apply Agrees.of_ok_bind (add_ok (by omega))
            -- The closing brace is looked for behind the value.
            have hclose : byteIs ('{' :: (t ++ (u ++ last))) (1 + t.length + u.length) '}' =
                ((u ++ last)[u.length]? == some '}') := by
              have hnarrow := ((hbrace.append ht).append hu).byteIs last 0 '}'
              rw [byteIs_zero, List.length_append, List.length_append] at hnarrow
              rw [List.getElem?_append_right (Nat.le_refl _), Nat.sub_self, ← List.head?_eq_getElem?,
                ← hnarrow]
              simp
            rw [hclose]
            simp only [beq_iff_eq]
            apply Agrees.ite
            · intro _
              apply Agrees.of_ok_bind (add_ok (by omega))
              rw [add_ok (by omega)]
              exact agrees_ok _
            · intro _
              exact fair_err _
          intro _
          exact fair_err _

/-- The rest of a signature is split, or refused. -/
theorem splitLoop_fair {fuel : Nat} :
    ∀ {s : Signature}, s.length ≤ fuel → len s < maxLen →
      Fair (splitLoop fuel s) (DBus.splitLoop fuel s) := by
  -- Induction over the fuel; each turn takes a type of some length.
  induction fuel with
  | zero =>
      intro s hfuel _
      obtain rfl := List.length_eq_zero_iff.mp (Nat.le_zero.mp hfuel)
      exact agrees_ok []
  | succ fuel ih =>
      intro s hfuel hlen
      cases s with
      | nil => exact agrees_ok []
      | cons c cs =>
          unfold splitLoop DBus.splitLoop
          apply (completeTypeLen_fair _ _ hlen).bind
          intro k hk
          obtain ⟨t, rest, hsplit, ht, hne, rfl⟩ := findsTypes_completeTypeLen _ _ _ hk
          have hpos := List.length_pos_iff.mpr hne
          rw [hsplit] at hlen hfuel ⊢
          rw [len_append] at hlen
          rw [List.length_append] at hfuel
          apply Agrees.of_ok_bind (ht.sliceTo rest)
          apply Agrees.of_ok_bind (ht.sliceFrom rest)
          rw [sliceFrom_append, List.take_left]
          apply (ih (s := rest) (by omega) (by omega)).bind
          intro ts _
          exact agrees_ok _

/-- A signature is split, or refused, whatever its characters are. -/
theorem splitSignature_fair {s : Signature} (h : len s < maxLen) :
    Fair (splitSignature s) (DBus.splitSignature s) :=
  splitLoop_fair (Nat.le_refl _) h

end Checked

end Psbox.DBus
