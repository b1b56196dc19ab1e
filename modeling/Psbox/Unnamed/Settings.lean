import Psbox.Foundations.JsonStrings
import Psbox.Portal.Policy

/-!
# Command-Line Settings

What `-c KEY=VALUE` says (`split_setting`, `unnamed.rs`): the segments of a dotted key, and a value. A
segment that is written as a JSON string may hold any text, the dots and equals signs that end the
others included. Every key can be written so: what is split is what was joined.
-/

namespace Psbox.Unnamed

open Psbox.Foundations.Json
open Psbox.Portal (debugString)

/-- A text, as its characters. -/
abbrev Text := List Char

/-- Why a setting is not accepted; `cause` is what reading a JSON string answered. -/
structure SettingError (E : Type) where
  message : String
  cause : Option E := none

/-! ## Section 1: Splitting -/

variable {E : Type}

/-- How many characters come before the quote that closes a string. -/
def closing (escaped : Bool) : Text → Option Nat
  | [] => none
  | ch :: rest =>
      match escaped, ch with
      | true, _ => (closing false rest).map (· + 1)
      | false, '\\' => (closing true rest).map (· + 1)
      | false, '"' => some 0
      | false, _ => (closing false rest).map (· + 1)

/-- `-c {setting:?}`, how every error about a setting begins. -/
def shown (setting : Text) : String :=
  "-c " ++ debugString (String.ofList setting)

/-- The first segment of a key, and what comes after it. -/
def readSegment (read : Text → Except E Text) (setting rest : Text) : Except (SettingError E) (Text × Text) :=
  if rest.head? = some '"' then
    match closing false rest.tail with
    | none => .error { message := shown setting ++ ": unterminated quote" }
    | some inside =>
        -- the string with both its quotes is what serde_json reads
        match read (rest.take (inside + 2)) with
        | .error e => .error { message := shown setting, cause := some e }
        | .ok segment => .ok (segment, rest.drop (inside + 2))
  else
    let stop := rest.findIdx fun ch => ch = '.' || ch = '='
    .ok (rest.take stop, rest.drop stop)

theorem readSegment_length {read : Text → Except E Text} {setting rest segment rest' : Text}
    (h : readSegment read setting rest = .ok (segment, rest')) : rest'.length ≤ rest.length := by
  unfold readSegment at h
  split at h
  · split at h
    · cases h
    · split at h
      · cases h
      · cases h
        simp
  · cases h
    simp

/-- The segments of a key that is read up to `rest`, with those before. -/
def splitFrom (read : Text → Except E Text) (setting : Text) (key : List Text) (rest : Text) :
    Except (SettingError E) (List Text × Text) :=
  match _hread : readSegment read setting rest with
  | .error e => .error e
  | .ok (segment, after) =>
      if segment.isEmpty then .error { message := shown setting ++ ": expected KEY=VALUE with a dotted KEY" }
      else
        match after with
        | '.' :: rest' => splitFrom read setting (key ++ [segment]) rest'
        | '=' :: value => .ok (key ++ [segment], value)
        | _ => .error { message := shown setting ++ ": expected KEY=VALUE" }
termination_by rest.length
decreasing_by
  have hle := readSegment_length _hread
  rw [List.length_cons] at hle
  omega

/-- Splits `KEY=VALUE` and the key into its segments; `read` is how serde_json reads a string. -/
def splitSetting (read : Text → Except E Text) (setting : Text) : Except (SettingError E) (List Text × Text) :=
  splitFrom read setting [] setting

/-! ## Section 2: Writing a Key -/

/-- A segment of a key, as it is written: plainly or as a JSON string. -/
inductive Segment where
  | plain (text : Text) (hne : text ≠ []) (hstop : ∀ ch ∈ text, ch ≠ '.' ∧ ch ≠ '=') (hquote : text.head? ≠ some '"')
  | quoted (items : List Item) (hne : items ≠ [])

namespace Segment

def spelled : Segment → Text
  | plain text _ _ _ => text
  | quoted items _ => spelledString items

def meant : Segment → Text
  | plain text _ _ _ => text
  | quoted items _ => items.map Item.meant

theorem meant_ne_nil (segment : Segment) : segment.meant ≠ [] := by
  cases segment with
  | plain text hne _ _ => exact hne
  | quoted items hne => simpa [meant] using hne

/-- Any text that is not empty is the text of some segment. -/
theorem exists_meant {text : Text} (h : text ≠ []) : ∃ segment : Segment, segment.meant = text := by
  obtain ⟨items, _, hmeant⟩ := exists_items text
  refine ⟨.quoted items ?_, hmeant⟩
  rintro rfl
  exact h hmeant.symm

end Segment

/-- A key as it is written, with the value after it. -/
def spelledSetting (parts : List Segment) (value : Text) : Text :=
  List.intercalate ['.'] (parts.map Segment.spelled) ++ '=' :: value

/-! ## Section 3: What Is Joined Is Split -/

/-- Characters that are neither quotes nor backslashes do not end a string. -/
theorem closing_passes {text : Text} (h : ∀ ch ∈ text, ch ≠ '"' ∧ ch ≠ '\\') (rest : Text) :
    closing false (text ++ rest) = (closing false rest).map (· + text.length) := by
  induction text with
  | nil => simp
  | cons ch text ih =>
      obtain ⟨hquote, hbackslash⟩ := h ch List.mem_cons_self
      have htail := ih fun c hc => h c (List.mem_cons_of_mem ch hc)
      rw [List.cons_append, closing]
      · rw [htail, Option.map_map, List.length_cons]
        congr 1
      · exact hbackslash
      · exact hquote

theorem closing_escaped (ch : Char) (rest : Text) :
    closing false ('\\' :: ch :: rest) = (closing false rest).map (· + 2) := by
  rw [closing, closing, Option.map_map]
  congr 1

theorem hexFour_passes (digits : HexFour) : ∀ ch ∈ digits.spelled, ch ≠ '"' ∧ ch ≠ '\\' := by
  -- A quote or a backslash is no digit.
  have hdigit : ∀ ch, (hexValue ch).isSome → ch ≠ '"' ∧ ch ≠ '\\' := by
    intro ch hsome
    constructor
    · rintro rfl
      cases hsome
    · rintro rfl
      cases hsome
  obtain ⟨ha, hb, hc, hd⟩ := hexFour_eq_some digits.reads
  intro ch hch
  simp only [HexFour.spelled, List.mem_cons, List.not_mem_nil, or_false] at hch
  obtain rfl | rfl | rfl | rfl := hch
  · exact hdigit _ ha
  · exact hdigit _ hb
  · exact hdigit _ hc
  · exact hdigit _ hd

/-- The quote that closes a string is not found within a character of it. -/
theorem closing_spelled (item : Item) (rest : Text) :
    closing false (item.spelled ++ rest) = (closing false rest).map (· + item.spelled.length) := by
  -- A backslash takes the next letter along, and digits are passed.
  have hunicode : ∀ (digits : HexFour) (more : Text),
      closing false ('\\' :: 'u' :: (digits.spelled ++ more)) = (closing false more).map (· + 6) := by
    intro digits more
    rw [closing_escaped, closing_passes (hexFour_passes digits), Option.map_map]
    congr 1
  -- By the kind of item.
  cases item with
  | plain ch h =>
      apply closing_passes
      intro c hc
      obtain rfl := List.mem_singleton.mp hc
      exact ⟨h.1, h.2.1⟩
  | short escape meant h => exact closing_escaped escape rest
  | unicode digits h => exact hunicode digits rest
  | pair hi lo hhi hlo =>
      have htext : (Item.pair hi lo hhi hlo).spelled ++ rest =
          '\\' :: 'u' :: (hi.spelled ++ '\\' :: 'u' :: (lo.spelled ++ rest)) := by
        simp [Item.spelled]
      rw [htext, hunicode, hunicode, Option.map_map]
      congr 1

/-- The quote that closes a string is the one after its last character. -/
theorem closing_items (items : List Item) (rest : Text) :
    closing false (items.flatMap Item.spelled ++ '"' :: rest) = some (items.flatMap Item.spelled).length := by
  induction items with
  | nil => rfl
  | cons item items ih =>
      rw [List.flatMap_cons, List.append_assoc, closing_spelled, ih, List.length_append, Option.map_some,
        Nat.add_comm]

/-- A segment is read as it is meant, up to the character after it. -/
theorem readSegment_spelled {read : Text → Except E Text} (hread : ReadsStrings read) (setting : Text)
    (segment : Segment) {ch : Char} (hch : ch = '.' ∨ ch = '=') (more : Text) :
    readSegment read setting (segment.spelled ++ ch :: more) = .ok (segment.meant, ch :: more) := by
  -- A segment without quotes ends at its stop, one with quotes at the second of them.
  cases segment with
  | plain text hne hstop hquote =>
      show readSegment read setting (text ++ ch :: more) = .ok (text, ch :: more)
      have hhead : (text ++ ch :: more).head? ≠ some '"' := by
        rwa [List.head?_append_of_ne_nil text hne]
      have hstart : text.findIdx (fun c => c = '.' || c = '=') = text.length := by
        apply List.findIdx_eq_length.mpr
        intro c hc
        simpa using hstop c hc
      have hfind : (text ++ ch :: more).findIdx (fun c => c = '.' || c = '=') = text.length := by
        have hstops : (decide (ch = '.') || decide (ch = '=')) = true := by
          simpa using hch
        rw [List.findIdx_append, if_neg (by omega), List.findIdx_cons, hstops]
        exact Nat.zero_add _
      rw [readSegment, if_neg hhead]
      dsimp only
      rw [hfind, List.take_left, List.drop_left]
  | quoted items hne =>
      have htext : spelledString items ++ ch :: more = '"' :: (items.flatMap Item.spelled ++ '"' :: ch :: more) := by
        simp [spelledString]
      have hlength : (spelledString items).length = (items.flatMap Item.spelled).length + 2 := by
        simp [spelledString]
      show readSegment read setting (spelledString items ++ ch :: more) = .ok (items.map Item.meant, ch :: more)
      rw [readSegment, if_pos (by rw [htext]; rfl)]
      have hclosing : closing false (spelledString items ++ ch :: more).tail =
          some (items.flatMap Item.spelled).length := by
        rw [htext]
        exact closing_items items (ch :: more)
      rw [hclosing]
      dsimp only
      rw [← hlength, List.take_left, List.drop_left, hread items]

/-- After a segment and a dot, the rest of the key is split. -/
theorem splitFrom_dot {read : Text → Except E Text} {setting rest segment rest' : Text} (key : List Text)
    (h : readSegment read setting rest = .ok (segment, '.' :: rest')) (hne : segment ≠ []) :
    splitFrom read setting key rest = splitFrom read setting (key ++ [segment]) rest' := by
  rw [splitFrom]
  split
  · rename_i hread
    cases h.symm.trans hread
  · rename_i hread
    cases h.symm.trans hread
    rw [if_neg (by simpa using hne)]
    rfl

/-- After a segment and an equals sign, the rest is the value. -/
theorem splitFrom_equals {read : Text → Except E Text} {setting rest segment value : Text} (key : List Text)
    (h : readSegment read setting rest = .ok (segment, '=' :: value)) (hne : segment ≠ []) :
    splitFrom read setting key rest = .ok (key ++ [segment], value) := by
  rw [splitFrom]
  split
  · rename_i hread
    cases h.symm.trans hread
  · rename_i hread
    cases h.symm.trans hread
    rw [if_neg (by simpa using hne)]
    rfl

/-- A key of which segments are read already is split into these and those that are written. -/
theorem splitFrom_spelled {read : Text → Except E Text} (hread : ReadsStrings read) (setting : Text)
    (segment : Segment) (parts : List Segment) (key : List Text) (value : Text) :
    splitFrom read setting key (spelledSetting (segment :: parts) value) =
      .ok (key ++ (segment :: parts).map Segment.meant, value) := by
  -- By induction over the segments; each takes its own stop along.
  induction parts generalizing segment key with
  | nil =>
      have htext : spelledSetting [segment] value = segment.spelled ++ '=' :: value := by
        simp [spelledSetting, List.intercalate]
      have hsegment := readSegment_spelled hread setting segment (.inr rfl) value
      rw [htext, splitFrom_equals key hsegment segment.meant_ne_nil]
      simp
  | cons next parts ih =>
      have htext : spelledSetting (segment :: next :: parts) value =
          segment.spelled ++ '.' :: spelledSetting (next :: parts) value := by
        simp [spelledSetting, List.intercalate]
      have hsegment := readSegment_spelled hread setting segment (.inl rfl) (spelledSetting (next :: parts) value)
      rw [htext, splitFrom_dot key hsegment segment.meant_ne_nil, ih]
      simp

/-- A setting addresses any key: for whatever segments, each written plainly or as a JSON string, and
whatever value, a setting is split into exactly these. -/
theorem splitSetting_spelledSetting {read : Text → Except E Text} (hread : ReadsStrings read)
    {parts : List Segment} (hne : parts ≠ []) (value : Text) :
    splitSetting read (spelledSetting parts value) = .ok (parts.map Segment.meant, value) := by
  cases parts with
  | nil => exact absurd rfl hne
  | cons segment parts => exact splitFrom_spelled hread _ segment parts [] value

/-- JSON strings read one by one, with no words for what is wrong with others. -/
def readExactly (text : Text) : Except Unit Text :=
  match readString text with
  | some chars => .ok chars
  | none => .error ()

theorem readExactly_reads : ReadsStrings readExactly := by
  intro items
  rw [readExactly, readString_spelled]

/-- `mount."a.b\\".source=/x=y`, whose second segment holds a dot and a backslash. -/
def mountSource : List Segment :=
  [.plain ['m', 'o', 'u', 'n', 't'] (by simp) (by simp) (by simp),
   .quoted [.plain 'a' (by decide), .plain '.' (by decide), .plain 'b' (by decide), .short '\\' '\\' (by decide)]
     (by simp),
   .plain ['s', 'o', 'u', 'r', 'c', 'e'] (by simp) (by simp) (by simp)]

theorem splitSetting_mountSource :
    spelledSetting mountSource "/x=y".toList = "mount.\"a.b\\\\\".source=/x=y".toList ∧
      splitSetting readExactly (spelledSetting mountSource "/x=y".toList) =
        .ok (["mount".toList, "a.b\\".toList, "source".toList], "/x=y".toList) :=
  ⟨by decide, splitSetting_spelledSetting readExactly_reads (by simp [mountSource]) "/x=y".toList⟩

end Psbox.Unnamed
