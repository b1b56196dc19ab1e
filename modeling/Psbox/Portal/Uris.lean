import Psbox.Portal.Paths

/-!
# File URIs

A path is written as a `file://` URI and read back (`path_to_uri`, `uri_to_path`). What is written is
read back as it was, whatever its bytes. Of the URIs that anyone else writes, those that are well
formed are read as they are meant. The reading is lenient in two places: where an escape is cut off by
the end of the URI, and where its first digit is a plus sign, which `from_str_radix` skips.
-/

namespace Psbox.Portal

open Psbox.DBus

/-! ## Section 1: Well-Formed URIs -/

/-- A hexadecimal digit, with what it stands for. -/
structure HexDigit where
  byte : UInt8
  value : UInt8
  reads : hexDigit byte = some value

/-- A byte of a path in a URI: itself, or escaped. -/
inductive Piece where
  | plain (byte : UInt8) (h : byte ≠ '%'.toUInt8)
  | escaped (hi lo : HexDigit)

namespace Piece

def spelled : Piece → List UInt8
  | plain byte _ => [byte]
  | escaped hi lo => ['%'.toUInt8, hi.byte, lo.byte]

def meant : Piece → UInt8
  | plain byte _ => byte
  | escaped hi lo => hi.value * 16 + lo.value

end Piece

/-- What comes after the host of a `file://` URI, which is no host or `localhost`: an absolute path. -/
def UriPath (uri : String) (path : List Char) : Prop :=
  path.head? = some '/' ∧
    (uri.toList = "file://".toList ++ path ∨ uri.toList = "file://".toList ++ ("localhost".toList ++ path))

/-- A `file://` URI is well formed, and names the path. -/
def Names (uri : String) (p : HostPath) : Prop :=
  ∃ path, UriPath uri path ∧
    ∃ pieces : List Piece, utf8 (String.ofList path) = pieces.flatMap Piece.spelled ∧
      p = pieces.map Piece.meant

/-- The bytes after a percent sign are two hexadecimal digits. -/
def escapes : List UInt8 → Bool
  | hi :: lo :: _ => (hexDigit hi).isSome && (hexDigit lo).isSome
  | _ => false

/-- The bytes after a percent sign are nothing that is taken for an escape. -/
def garbles : List UInt8 → Bool
  | hi :: lo :: _ => !(((hexDigit hi).isSome || hi == '+'.toUInt8) && (hexDigit lo).isSome)
  | _ => false

/-! ## Section 2: Reading -/

theorem percentDecode_cons {b : UInt8} (h : b ≠ '%'.toUInt8) (rest : List UInt8) :
    percentDecode (b :: rest) = (percentDecode rest).map (b :: ·) := by
  match rest with
  | [] => rfl
  | [_] => rfl
  | _ :: _ :: _ => rw [percentDecode, if_neg h]

theorem percentDecode_escape (hi lo : UInt8) (rest : List UInt8) :
    percentDecode ('%'.toUInt8 :: hi :: lo :: rest) =
      (hexByte hi lo).bind fun c => (percentDecode rest).map (c :: ·) := by
  rw [percentDecode, if_pos rfl]
  cases hexByte hi lo with
  | none => rfl
  | some c => cases percentDecode rest <;> rfl

theorem hexDigit_percent : hexDigit '%'.toUInt8 = none := by
  decide

theorem hexDigit_plus : hexDigit '+'.toUInt8 = none := by
  decide

theorem HexDigit.ne_plus (d : HexDigit) : d.byte ≠ '+'.toUInt8 := by
  intro h
  have hreads := d.reads
  rw [h, hexDigit_plus] at hreads
  cases hreads

theorem hexByte_digits (hi lo : HexDigit) : hexByte hi.byte lo.byte = some (hi.value * 16 + lo.value) := by
  unfold hexByte
  rw [if_neg hi.ne_plus, hi.reads, lo.reads]
  rfl

/-- What is taken for an escape. -/
theorem isSome_hexByte (hi lo : UInt8) :
    (hexByte hi lo).isSome = (((hexDigit hi).isSome || hi == '+'.toUInt8) && (hexDigit lo).isSome) := by
  unfold hexByte
  split
  · rename_i hplus
    simp [hplus]
  · rename_i hplus
    cases hhi : hexDigit hi with
    | none => simp [hplus]
    | some h => cases hlo : hexDigit lo <;> simp

/-- A well-formed path is read as it is meant. -/
theorem percentDecode_spelled (pieces : List Piece) :
    percentDecode (pieces.flatMap Piece.spelled) = some (pieces.map Piece.meant) := by
  -- By induction over the pieces, each read back as one byte.
  induction pieces with
  | nil => rfl
  | cons piece pieces ih =>
      cases piece with
      | plain byte h =>
          show percentDecode (byte :: pieces.flatMap Piece.spelled) = _
          rw [percentDecode_cons h, ih]
          rfl
      | escaped hi lo =>
          show percentDecode ('%'.toUInt8 :: hi.byte :: lo.byte :: pieces.flatMap Piece.spelled) = _
          rw [percentDecode_escape, hexByte_digits, ih]
          rfl

/-- Bytes are read one by one, or three at an escape. -/
theorem percent_induction {P : List UInt8 → Prop} (nil : P [])
    (plain : ∀ byte rest, byte ≠ '%'.toUInt8 → P rest → P (byte :: rest))
    (cut : ∀ rest : List UInt8, rest.length < 2 → P ('%'.toUInt8 :: rest))
    (escape : ∀ hi lo rest, P rest → P ('%'.toUInt8 :: hi :: lo :: rest)) : ∀ b, P b
  | [] => nil
  | byte :: rest => by
      by_cases h : byte = '%'.toUInt8
      · subst h
        match rest with
        | [] => exact cut [] (by simp)
        | [hi] => exact cut [hi] (by simp)
        | hi :: lo :: rest => exact escape hi lo rest (percent_induction nil plain cut escape rest)
      · exact plain byte rest h (percent_induction nil plain cut escape rest)

/-- Where every percent sign begins an escape, the path is well formed. -/
theorem exists_pieces {b : List UInt8} (h : ∀ rest, '%'.toUInt8 :: rest <:+ b → escapes rest = true) :
    ∃ pieces : List Piece, b = pieces.flatMap Piece.spelled := by
  -- Byte by byte: a plain one, or a percent sign with what follows it.
  induction b using percent_induction with
  | nil => exact ⟨[], rfl⟩
  | plain byte rest hbyte ih =>
      obtain ⟨pieces, hpieces⟩ := ih fun tail htail => h tail (htail.trans (List.suffix_cons _ _))
      refine ⟨.plain byte hbyte :: pieces, ?_⟩
      rw [List.flatMap_cons, ← hpieces]
      rfl
  | cut rest hshort =>
      have hescapes := h rest (List.suffix_refl _)
      match rest, hshort with
      | [], _ => cases hescapes
      | [_], _ => cases hescapes
  | escape hi lo rest ih =>
      obtain ⟨hhi, hlo⟩ := Bool.and_eq_true_iff.mp (h (hi :: lo :: rest) (List.suffix_refl _))
      obtain ⟨x, hx⟩ := Option.isSome_iff_exists.mp hhi
      obtain ⟨y, hy⟩ := Option.isSome_iff_exists.mp hlo
      have hrest : rest <:+ '%'.toUInt8 :: hi :: lo :: rest := ⟨['%'.toUInt8, hi, lo], rfl⟩
      obtain ⟨pieces, hpieces⟩ := ih fun tail htail => h tail (htail.trans hrest)
      refine ⟨.escaped ⟨hi, x, hx⟩ ⟨lo, y, hy⟩ :: pieces, ?_⟩
      rw [List.flatMap_cons, ← hpieces]
      rfl

theorem HexDigit.ne_percent (d : HexDigit) : d.byte ≠ '%'.toUInt8 := by
  intro h
  have hreads := d.reads
  rw [h, hexDigit_percent] at hreads
  cases hreads

/-- In a well-formed path every percent sign begins an escape. -/
theorem escapes_of_suffix (pieces : List Piece) {rest : List UInt8}
    (h : '%'.toUInt8 :: rest <:+ pieces.flatMap Piece.spelled) : escapes rest = true := by
  -- A percent sign is the beginning of a piece, or it lies further on.
  induction pieces with
  | nil => cases List.suffix_nil.mp h
  | cons piece pieces ih =>
      cases piece with
      | plain byte hbyte =>
          rcases List.suffix_cons_iff.mp h with hhere | hlater
          · exact absurd (List.cons.inj hhere).1.symm hbyte
          · exact ih hlater
      | escaped hi lo =>
          rcases List.suffix_cons_iff.mp h with hhere | hlater
          · obtain ⟨_, rfl⟩ := List.cons.inj hhere
            simp [escapes, hi.reads, lo.reads]
          rcases List.suffix_cons_iff.mp hlater with hhere | hlater
          · exact absurd (List.cons.inj hhere).1.symm hi.ne_percent
          rcases List.suffix_cons_iff.mp hlater with hhere | hlater
          · exact absurd (List.cons.inj hhere).1.symm lo.ne_percent
          · exact ih hlater

/-- What is garbled anywhere is not read at all. -/
theorem percentDecode_garbled {b rest : List UInt8} (h : '%'.toUInt8 :: rest <:+ b)
    (hgarbles : garbles rest = true) : percentDecode b = none := by
  induction b using percent_induction with
  | nil => cases List.suffix_nil.mp h
  | plain byte tail hbyte ih =>
      rw [percentDecode_cons hbyte]
      rcases List.suffix_cons_iff.mp h with hhere | hlater
      · exact absurd (List.cons.inj hhere).1.symm hbyte
      · rw [ih hlater]
        rfl
  | cut tail hshort =>
      -- Too little is left to garble.
      have hlength := h.length_le
      match rest, hgarbles with
      | _ :: _ :: _, _ =>
          simp only [List.length_cons] at hlength
          omega
  | escape hi lo tail ih =>
      rw [percentDecode_escape]
      cases hbyte : hexByte hi lo with
      | none => rfl
      | some c =>
          have hsome := isSome_hexByte hi lo
          rw [hbyte, Option.isSome_some] at hsome
          obtain ⟨hhi, hlo⟩ := Bool.and_eq_true_iff.mp hsome.symm
          rcases List.suffix_cons_iff.mp h with hhere | hlater
          · obtain ⟨_, rfl⟩ := List.cons.inj hhere
            rw [garbles, hhi, hlo] at hgarbles
            cases hgarbles
          rcases List.suffix_cons_iff.mp hlater with hhere | hlater
          · rw [← (List.cons.inj hhere).1, hexDigit_percent] at hhi
            cases hhi
          rcases List.suffix_cons_iff.mp hlater with hhere | hlater
          · rw [← (List.cons.inj hhere).1, hexDigit_percent] at hlo
            cases hlo
          · rw [Option.bind_some, ih hlater]
            rfl

/-- What is garbled nowhere is read. -/
theorem isSome_percentDecode {b : List UInt8} (h : ∀ rest, '%'.toUInt8 :: rest <:+ b → garbles rest = false) :
    (percentDecode b).isSome := by
  -- Nothing but two odd letters after a percent sign stops the reading.
  induction b using percent_induction with
  | nil => rfl
  | plain byte rest hbyte ih =>
      rw [percentDecode_cons hbyte, Option.isSome_map]
      exact ih fun tail htail => h tail (htail.trans (List.suffix_cons _ _))
  | cut rest hshort =>
      match rest, hshort with
      | [], _ => rfl
      | [_], _ => rfl
  | escape hi lo rest ih =>
      have hrest : rest <:+ '%'.toUInt8 :: hi :: lo :: rest := ⟨['%'.toUInt8, hi, lo], rfl⟩
      have hread := ih fun tail htail => h tail (htail.trans hrest)
      have htaken : (hexByte hi lo).isSome := by
        have hnot := h (hi :: lo :: rest) (List.suffix_refl _)
        rw [garbles, Bool.not_eq_false'] at hnot
        rw [isSome_hexByte, hnot]
      obtain ⟨c, hc⟩ := Option.isSome_iff_exists.mp htaken
      rw [percentDecode_escape, hc, Option.bind_some, Option.isSome_map]
      exact hread

theorem uriPath_unique {uri : String} {path path' : List Char} (h : UriPath uri path) (h' : UriPath uri path') :
    path = path' := by
  obtain ⟨hslash, hpath⟩ := h
  obtain ⟨hslash', hpath'⟩ := h'
  -- With a host in front the path does not begin with its slash.
  have hother : ∀ {q q' : List Char}, q.head? = some '/' → uri.toList = "file://".toList ++ q →
      uri.toList = "file://".toList ++ ("localhost".toList ++ q') → False := by
    intro q q' hq hplain hlocal
    rw [hplain, List.append_cancel_left_eq] at hlocal
    rw [hlocal] at hq
    cases hq
  rcases hpath with hpath | hpath <;> rcases hpath' with hpath' | hpath'
  · exact List.append_cancel_left (hpath.symm.trans hpath')
  · exact (hother hslash hpath hpath').elim
  · exact (hother hslash' hpath' hpath).elim
  · exact List.append_cancel_left (List.append_cancel_left (hpath.symm.trans hpath'))

/-- The path of a URI is decoded. -/
theorem uriToPath_eq {uri : String} {path : List Char} (h : UriPath uri path) :
    uriToPath uri = percentDecode (utf8 (String.ofList path)) := by
  obtain ⟨hslash, hpath⟩ := h
  unfold uriToPath
  -- The text has the host `localhost`, or none.
  rcases hpath with hpath | hpath
  · have hnone : stripPrefix "localhost".toList path = none := by
      cases hlocal : stripPrefix "localhost".toList path with
      | none => rfl
      | some rest =>
          rw [stripPrefix_eq_some.mp hlocal] at hslash
          cases hslash
    rw [stripPrefix_eq_some.mpr hpath]
    dsimp only
    rw [hnone, Option.getD_none, if_pos hslash]
  · rw [stripPrefix_eq_some.mpr hpath]
    dsimp only
    rw [stripPrefix_eq_some.mpr rfl, Option.getD_some, if_pos hslash]

/-- No other text is read. -/
theorem uriToPath_eq_some {uri : String} {p : HostPath} (h : uriToPath uri = some p) :
    ∃ path, UriPath uri path := by
  unfold uriToPath at h
  split at h
  · cases h
  · rename_i rest hrest
    dsimp only at h
    split at h
    · rename_i hslash
      refine ⟨_, hslash, ?_⟩
      have huri := stripPrefix_eq_some.mp hrest
      cases hlocal : stripPrefix "localhost".toList rest with
      | none => exact .inl huri
      | some path =>
          rw [stripPrefix_eq_some.mp hlocal] at huri
          exact .inr huri
    · cases h

/-! ## Section 3: Writing -/

/-- Whether a byte is written as itself or as an escape of it. -/
def writesBack (b : UInt8) : Bool :=
  match (percentEncode b).flatMap String.utf8EncodeChar with
  | [c] => c == b && b != '%'.toUInt8
  | [percent, hi, lo] => percent == '%'.toUInt8 && hexByte hi lo == some b
  | _ => false

theorem writesBack_all : ∀ n : Fin 256, writesBack (UInt8.ofFin n) = true := by
  decide +kernel

/-- A byte is read as it was written. -/
theorem percentDecode_percentEncode (b : UInt8) (rest : List UInt8) :
    percentDecode ((percentEncode b).flatMap String.utf8EncodeChar ++ rest) =
      (percentDecode rest).map (b :: ·) := by
  -- What is written for a byte is checked for each of the 256.
  have hback : writesBack b = true := writesBack_all b.toFin
  unfold writesBack at hback
  -- The byte is written as itself, or as an escape.
  split at hback
  · rename_i c hwritten
    obtain ⟨hsame, hplain⟩ := Bool.and_eq_true_iff.mp hback
    rw [hwritten, eq_of_beq hsame]
    exact percentDecode_cons (by simpa using hplain) rest
  · rename_i percent hi lo hwritten
    obtain ⟨hpercent, hbyte⟩ := Bool.and_eq_true_iff.mp hback
    rw [hwritten, eq_of_beq hpercent]
    show percentDecode ('%'.toUInt8 :: hi :: lo :: rest) = _
    rw [percentDecode_escape, eq_of_beq hbyte, Option.bind_some]
  · cases hback

theorem percentDecode_written (p : HostPath) :
    percentDecode (utf8 (String.ofList (p.flatMap percentEncode))) = some p := by
  rw [utf8_eq, String.toList_ofList, List.flatMap_assoc]
  induction p with
  | nil => rfl
  | cons b p ih => rw [List.flatMap_cons, percentDecode_percentEncode, ih, Option.map_some]

/-- The URI of an absolute path is one, and its path is read back. -/
theorem uriToPath_pathToUri {p : HostPath} (h : p.head? = some '/'.toUInt8) :
    uriToPath (pathToUri p) = some p := by
  have hpath : UriPath (pathToUri p) (p.flatMap percentEncode) := by
    refine ⟨?_, .inl String.toList_ofList⟩
    cases p with
    | nil => cases h
    | cons b p =>
        cases h
        rfl
  rw [uriToPath_eq hpath, percentDecode_written]

/-! ## Section 4: There and Back -/

/-- The percent signs of a URI's path are all escapes, or one of them is garbled. -/
def CleanOrGarbled (uri : String) : Prop :=
  ∀ path, UriPath uri path →
    (∀ rest, '%'.toUInt8 :: rest <:+ utf8 (String.ofList path) → escapes rest = true) ∨
      ∃ rest, '%'.toUInt8 :: rest <:+ utf8 (String.ofList path) ∧ garbles rest = true

/-- A URI is read as it is meant, and not at all where it is not well formed. -/
theorem reads_iff_names {uri : String} (h : CleanOrGarbled uri) (p : HostPath) :
    uriToPath uri = some p ↔ Names uri p := by
  constructor
  · intro hread
    obtain ⟨path, hpath⟩ := uriToPath_eq_some hread
    rw [uriToPath_eq hpath] at hread
    -- A clean text is made of pieces; a garbled one is not read.
    rcases h path hpath with hclean | ⟨rest, hsuffix, hgarbles⟩
    · obtain ⟨pieces, hpieces⟩ := exists_pieces hclean
      refine ⟨path, hpath, pieces, hpieces, ?_⟩
      rw [hpieces, percentDecode_spelled] at hread
      exact (Option.some.inj hread).symm
    · rw [percentDecode_garbled hsuffix hgarbles] at hread
      cases hread
  · rintro ⟨path, hpath, pieces, hpieces, rfl⟩
    rw [uriToPath_eq hpath, hpieces, percentDecode_spelled]

/-- What is written is read back, and of any text exactly the well-formed URIs are read, unless its
only faults are percent signs that are cut off by its end or followed by a plus sign and a digit. -/
theorem file_uris_read_iff (uri : String) :
    (∀ p : HostPath, p.head? = some '/'.toUInt8 → uriToPath (pathToUri p) = some p) ∧
      ((∀ p, uriToPath uri = some p ↔ Names uri p) ↔ CleanOrGarbled uri) := by
  refine ⟨fun p => uriToPath_pathToUri, ⟨fun hright path hpath => ?_, reads_iff_names⟩⟩
  by_cases hgarbled : ∃ rest, '%'.toUInt8 :: rest <:+ utf8 (String.ofList path) ∧ garbles rest = true
  · exact .inr hgarbled
  -- It is read, so it is well formed.
  have hread : (percentDecode (utf8 (String.ofList path))).isSome := by
    apply isSome_percentDecode
    intro rest hsuffix
    cases hgarbles : garbles rest with
    | false => rfl
    | true => exact absurd ⟨rest, hsuffix, hgarbles⟩ hgarbled
  obtain ⟨p, hp⟩ := Option.isSome_iff_exists.mp hread
  obtain ⟨path', hpath', pieces, hpieces, _⟩ := (hright p).mp ((uriToPath_eq hpath).trans hp)
  cases uriPath_unique hpath hpath'
  refine .inl fun rest hsuffix => ?_
  rw [hpieces] at hsuffix
  exact escapes_of_suffix pieces hsuffix

/-- A plus sign passes for a digit, and a percent sign at the end for itself. -/
theorem not_well_formed :
    uriToPath "file:///a%+f" = some [47, 97, 15] ∧ ¬Names "file:///a%+f" [47, 97, 15] ∧
      uriToPath "file:///100%" = some [47, 49, 48, 48, 37] ∧ ¬Names "file:///100%" [47, 49, 48, 48, 37] := by
  -- Both have a path, which is not made of pieces.
  have hplus : UriPath "file:///a%+f" "/a%+f".toList := ⟨by decide, .inl (by decide)⟩
  have hcut : UriPath "file:///100%" "/100%".toList := ⟨by decide, .inl (by decide)⟩
  refine ⟨by decide +kernel, ?_, by decide +kernel, ?_⟩
  · rintro ⟨path, hpath, pieces, hpieces, _⟩
    cases uriPath_unique hplus hpath
    have hsuffix : '%'.toUInt8 :: [43, 102] <:+ pieces.flatMap Piece.spelled :=
      hpieces ▸ ⟨[47, 97], by decide +kernel⟩
    exact absurd (escapes_of_suffix pieces hsuffix) (by decide)
  · rintro ⟨path, hpath, pieces, hpieces, _⟩
    cases uriPath_unique hcut hpath
    have hsuffix : '%'.toUInt8 :: [] <:+ pieces.flatMap Piece.spelled :=
      hpieces ▸ ⟨[47, 49, 48, 48], by decide +kernel⟩
    exact absurd (escapes_of_suffix pieces hsuffix) (by decide)

end Psbox.Portal
