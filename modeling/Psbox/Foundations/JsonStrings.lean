import Mathlib.Tactic.Common

/-!
# JSON Strings

The strings of JSON, as they are written: every character as itself or escaped. What is written says
which characters are meant. `readString` reads it, and `writeString` is one way to write any text.
-/

namespace Psbox.Foundations.Json

/-! ## Section 1: What Is Written -/

/-- The escapes of one character, with what they stand for. -/
def shortEscapes : List (Char × Char) :=
  [('"', '"'), ('\\', '\\'), ('/', '/'), ('b', '\x08'), ('f', '\x0c'), ('n', '\n'), ('r', '\r'), ('t', '\t')]

def hexValue (c : Char) : Option Nat :=
  if '0' ≤ c ∧ c ≤ '9' then some (c.toNat - '0'.toNat)
  else if 'a' ≤ c ∧ c ≤ 'f' then some (c.toNat - 'a'.toNat + 10)
  else if 'A' ≤ c ∧ c ≤ 'F' then some (c.toNat - 'A'.toNat + 10)
  else none

/-- The number that four hexadecimal digits spell. -/
def hexFour (a b c d : Char) : Option Nat := do
  let a ← hexValue a
  let b ← hexValue b
  let c ← hexValue c
  let d ← hexValue d
  return ((a * 16 + b) * 16 + c) * 16 + d

/-- Four hexadecimal digits, with the number they spell. -/
structure HexFour where
  a : Char
  b : Char
  c : Char
  d : Char
  value : Nat
  reads : hexFour a b c d = some value

def HexFour.spelled (h : HexFour) : List Char :=
  [h.a, h.b, h.c, h.d]

/-- The character of two surrogates. -/
def surrogates (hi lo : Nat) : Nat :=
  0x10000 + (hi - 0xD800) * 0x400 + (lo - 0xDC00)

/-- A character of a JSON string, as it is written. -/
inductive Item where
  | plain (c : Char) (h : c ≠ '"' ∧ c ≠ '\\' ∧ 0x20 ≤ c.toNat)
  | short (escape meant : Char) (h : (escape, meant) ∈ shortEscapes)
  | unicode (digits : HexFour) (h : digits.value < 0xD800 ∨ 0xDFFF < digits.value)
  | pair (hi lo : HexFour) (hhi : 0xD800 ≤ hi.value ∧ hi.value ≤ 0xDBFF)
      (hlo : 0xDC00 ≤ lo.value ∧ lo.value ≤ 0xDFFF)

namespace Item

def spelled : Item → List Char
  | plain c _ => [c]
  | short escape _ _ => ['\\', escape]
  | unicode digits _ => '\\' :: 'u' :: digits.spelled
  | pair hi lo _ _ => '\\' :: 'u' :: hi.spelled ++ '\\' :: 'u' :: lo.spelled

def meant : Item → Char
  | plain c _ => c
  | short _ meant _ => meant
  | unicode digits _ => Char.ofNat digits.value
  | pair hi lo _ _ => Char.ofNat (surrogates hi.value lo.value)

end Item

/-- A JSON string, with its quotes. -/
def spelledString (items : List Item) : List Char :=
  '"' :: (items.flatMap Item.spelled ++ ['"'])

/-! ## Section 2: Reading -/

/-- The number after `\u`. -/
def readFour : List Char → Option (Nat × List Char)
  | a :: b :: c :: d :: rest => (hexFour a b c d).map (·, rest)
  | _ => none

/-- The second of two surrogates. -/
def readLow (hi : Nat) : List Char → Option (Char × List Char)
  | '\\' :: 'u' :: rest =>
      match readFour rest with
      | none => none
      | some (lo, rest) =>
          if 0xDC00 ≤ lo ∧ lo ≤ 0xDFFF then some (Char.ofNat (surrogates hi lo), rest) else none
  | _ => none

/-- What comes after `\u`: one number, or two surrogates. -/
def readUnicode (text : List Char) : Option (Char × List Char) :=
  match readFour text with
  | none => none
  | some (n, rest) =>
      -- A number that is no surrogate stands for itself.
      if n < 0xD800 ∨ 0xDFFF < n then some (Char.ofNat n, rest)
      -- A low surrogate alone has no reading.
      else if 0xDBFF < n then none
      else readLow n rest

/-- What comes after a backslash. -/
def readEscape : List Char → Option (Char × List Char)
  | 'u' :: rest => readUnicode rest
  | e :: rest => (shortEscapes.lookup e).map (·, rest)
  | [] => none

/-- A character of a string. -/
def readItem : List Char → Option (Char × List Char)
  | '\\' :: rest => readEscape rest
  -- A quote ends the string, and control characters have to be escaped.
  | c :: rest => if c = '"' ∨ c.toNat < 0x20 then none else some (c, rest)
  | [] => none

/-- The characters up to the closing quote, of which there are at most as many as letters. -/
def readItems : Nat → List Char → Option (List Char × List Char)
  | n + 1, c :: rest =>
      if c = '"' then some ([], rest)
      -- The items may be as many as the letters.
      else
        match readItem (c :: rest) with
        | none => none
        | some (c, rest) => (readItems n rest).map fun out => (c :: out.1, out.2)
  | _, _ => none

/-- Reads a text that is a JSON string and nothing else. -/
def readString : List Char → Option (List Char)
  | '"' :: rest =>
      match readItems rest.length rest with
      | some (chars, []) => some chars
      | _ => none
  | _ => none

/-- A function reads JSON strings as they are meant. -/
def ReadsStrings {ε : Type} (read : List Char → Except ε (List Char)) : Prop :=
  ∀ items, read (spelledString items) = .ok (items.map Item.meant)

theorem hexFour_eq_some {a b c d : Char} {n : Nat} (h : hexFour a b c d = some n) :
    (hexValue a).isSome ∧ (hexValue b).isSome ∧ (hexValue c).isSome ∧ (hexValue d).isSome := by
  unfold hexFour at h
  cases ha : hexValue a with
  | none => simp [ha] at h
  | some _ =>
  cases hb : hexValue b with
  | none => simp [ha, hb] at h
  | some _ =>
  cases hc : hexValue c with
  | none => simp [ha, hb, hc] at h
  | some _ =>
  cases hd : hexValue d with
  | none => simp [ha, hb, hc, hd] at h
  | some _ => exact ⟨rfl, rfl, rfl, rfl⟩

theorem readFour_spelled (digits : HexFour) (rest : List Char) :
    readFour (digits.spelled ++ rest) = some (digits.value, rest) := by
  show (hexFour digits.a digits.b digits.c digits.d).map (·, rest) = _
  rw [digits.reads]
  rfl

theorem lookup_shortEscapes {escape meant : Char} (h : (escape, meant) ∈ shortEscapes) :
    escape ≠ 'u' ∧ shortEscapes.lookup escape = some meant := by
  -- Ten escapes, each looked up.
  have hall : ∀ e ∈ shortEscapes, e.1 ≠ 'u' ∧ shortEscapes.lookup e.1 = some e.2 := by decide
  exact hall _ h

/-- An item is read as it is meant. -/
theorem readItem_spelled (item : Item) (rest : List Char) :
    readItem (item.spelled ++ rest) = some (item.meant, rest) := by
  cases item with
  | plain c h =>
      obtain ⟨hquote, hbackslash, hcontrol⟩ := h
      show readItem (c :: rest) = some (c, rest)
      unfold readItem
      split
      · rename_i hsame
        exact absurd (List.cons.inj hsame).1 hbackslash
      · rename_i hsame
        obtain ⟨rfl, rfl⟩ := List.cons.inj hsame
        rw [if_neg]
        rintro (hsame | hlt)
        · exact hquote hsame
        · omega
      · rename_i hnil
        cases hnil
  | short escape meant h =>
      obtain ⟨hu, hlookup⟩ := lookup_shortEscapes h
      show readEscape (escape :: rest) = some (meant, rest)
      unfold readEscape
      split
      · rename_i hsame
        exact absurd (List.cons.inj hsame).1 hu
      · rename_i hsame
        obtain ⟨rfl, rfl⟩ := List.cons.inj hsame
        rw [hlookup]
        rfl
      · rename_i hnil
        cases hnil
  | unicode digits h =>
      show readUnicode (digits.spelled ++ rest) = some (Char.ofNat digits.value, rest)
      unfold readUnicode
      rw [readFour_spelled]
      dsimp only
      rw [if_pos h]
  | pair hi lo hhi hlo =>
      -- Both numbers are read one after the other.
      have htext : (Item.pair hi lo hhi hlo).spelled ++ rest =
          '\\' :: 'u' :: (hi.spelled ++ '\\' :: 'u' :: (lo.spelled ++ rest)) := by
        simp [Item.spelled]
      rw [htext]
      show readUnicode (hi.spelled ++ '\\' :: 'u' :: (lo.spelled ++ rest)) = _
      unfold readUnicode
      rw [readFour_spelled]
      dsimp only
      rw [if_neg (by omega), if_neg (by omega), readLow, readFour_spelled]
      dsimp only
      rw [if_pos hlo]
      rfl

/-- No item begins with the closing quote. -/
theorem spelled_eq_cons (item : Item) : ∃ c cs, item.spelled = c :: cs ∧ c ≠ '"' := by
  cases item with
  | plain c h => exact ⟨c, [], rfl, h.1⟩
  | short escape meant h => exact ⟨'\\', [escape], rfl, by decide⟩
  | unicode digits h => exact ⟨'\\', _, rfl, by decide⟩
  | pair hi lo hhi hlo => exact ⟨'\\', _, rfl, by decide⟩

theorem readItems_spelled (items : List Item) {n : Nat} (hn : items.length < n) (rest : List Char) :
    readItems n (items.flatMap Item.spelled ++ '"' :: rest) = some (items.map Item.meant, rest) := by
  -- Induction over the items; each of them takes one step.
  induction items generalizing n with
  | nil =>
      obtain ⟨n, rfl⟩ := Nat.exists_eq_succ_of_ne_zero (Nat.ne_of_gt hn)
      rfl
  | cons item items ih =>
      obtain ⟨n, rfl⟩ := Nat.exists_eq_succ_of_ne_zero (Nat.ne_of_gt (Nat.zero_lt_of_lt hn))
      obtain ⟨c, cs, hspelled, hquote⟩ := spelled_eq_cons item
      have hread := readItem_spelled item (items.flatMap Item.spelled ++ '"' :: rest)
      rw [List.flatMap_cons, List.append_assoc]
      rw [hspelled] at hread ⊢
      rw [List.cons_append, readItems, if_neg hquote, ← List.cons_append, hread]
      dsimp only
      rw [ih (Nat.lt_of_succ_lt_succ hn)]
      rfl

/-- A JSON string is read as it is meant. -/
theorem readString_spelled (items : List Item) :
    readString (spelledString items) = some (items.map Item.meant) := by
  have hlength : items.length < (items.flatMap Item.spelled ++ ['"']).length := by
    -- An item has a letter at least.
    have hle : items.length ≤ (items.flatMap Item.spelled).length := by
      rw [List.length_flatMap]
      induction items with
      | nil => exact Nat.le_refl 0
      | cons item items ih =>
          obtain ⟨c, cs, hspelled, _⟩ := spelled_eq_cons item
          rw [List.map_cons, List.sum_cons, hspelled, List.length_cons, List.length_cons]
          omega
    rw [List.length_append, List.length_singleton]
    omega
  show (match readItems (items.flatMap Item.spelled ++ ['"']).length (items.flatMap Item.spelled ++ ['"']) with
    | some (chars, []) => some chars
    | _ => none) = _
  rw [readItems_spelled items hlength]

/-! ## Section 3: Writing -/

/-- The characters that are written with an escape of their own, with its letter. -/
def writtenEscapes : List (Char × Char) :=
  [('"', '"'), ('\\', '\\'), ('\x08', 'b'), ('\x0c', 'f'), ('\n', 'n'), ('\r', 'r'), ('\t', 't')]

def writeChar (c : Char) : List Char :=
  match writtenEscapes.lookup c with
  | some letter => ['\\', letter]
  | none =>
      -- Control characters without a letter of their own are written by their number.
      if c.toNat < 0x20 then ['\\', 'u', '0', '0', (c.toNat / 16).digitChar, (c.toNat % 16).digitChar] else [c]

/-- Writes a text as a JSON string. -/
def writeString (s : List Char) : List Char :=
  '"' :: (s.flatMap writeChar ++ ['"'])

theorem mem_of_writtenEscapes {c letter : Char} (h : writtenEscapes.lookup c = some letter) :
    (letter, c) ∈ shortEscapes := by
  have hmem : (c, letter) ∈ writtenEscapes := by
    obtain ⟨before, after, hsplit, _⟩ := List.lookup_eq_some_iff.mp h
    rw [hsplit]
    exact List.mem_append_right before List.mem_cons_self
  have hall : ∀ e ∈ writtenEscapes, (e.2, e.1) ∈ shortEscapes := by decide
  exact hall _ hmem

theorem control_reads : ∀ n : Fin 32,
    hexFour '0' '0' (n.val / 16).digitChar (n.val % 16).digitChar = some n.val := by
  decide

/-- A character is written as one that means it. -/
theorem exists_item (c : Char) : ∃ item : Item, item.spelled = writeChar c ∧ item.meant = c := by
  unfold writeChar
  split
  · rename_i letter hletter
    exact ⟨.short letter c (mem_of_writtenEscapes hletter), rfl, rfl⟩
  · rename_i hnone
    split
    · rename_i hcontrol
      refine ⟨.unicode ⟨'0', '0', _, _, c.toNat, control_reads ⟨c.toNat, hcontrol⟩⟩ (.inl ?_), rfl, ?_⟩
      · show c.toNat < 0xD800
        omega
      · exact Char.ofNat_toNat c
    · rename_i hcontrol
      refine ⟨.plain c ⟨?_, ?_, by omega⟩, rfl, rfl⟩
      · rintro rfl
        cases hnone
      · rintro rfl
        cases hnone

/-- A text is written as a JSON string that means it. -/
theorem exists_items (s : List Char) : ∃ items, spelledString items = writeString s ∧ items.map Item.meant = s := by
  suffices h : ∃ items : List Item, items.flatMap Item.spelled = s.flatMap writeChar ∧ items.map Item.meant = s by
    obtain ⟨items, hspelled, hmeant⟩ := h
    exact ⟨items, by rw [spelledString, writeString, hspelled], hmeant⟩
  induction s with
  | nil => exact ⟨[], rfl, rfl⟩
  | cons c s ih =>
      obtain ⟨items, hspelled, hmeant⟩ := ih
      obtain ⟨item, hitem, hchar⟩ := exists_item c
      refine ⟨item :: items, ?_, ?_⟩
      · rw [List.flatMap_cons, List.flatMap_cons, hitem, hspelled]
      · rw [List.map_cons, hchar, hmeant]

end Psbox.Foundations.Json
