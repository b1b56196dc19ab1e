import Mathlib.Data.List.DropRight
import Psbox.Desktop.Exec
import Psbox.Foundations.FirstMatch

/-!
# Desktop Entry Files

Reading, changing and writing the entries of `desktop.rs`. An entry keeps its comments and the
order of its lines. A section may occur more than once, and a key more than once in a section:
what changes a section changes the first of its name.
-/

namespace Psbox.Desktop

open Psbox.Foundations (mapFirst)

/-! ## Section 1: Text -/

/-- `char::is_whitespace`. -/
def isWhitespace (c : Char) : Bool :=
  let n := c.toNat
  (9 ≤ n && n ≤ 13) || n == 0x20 || n == 0x85 || n == 0xA0 || n == 0x1680 ||
    (0x2000 ≤ n && n ≤ 0x200A) || n == 0x2028 || n == 0x2029 || n == 0x202F || n == 0x205F ||
    n == 0x3000

/-- `char::is_control`. -/
def isControl (c : Char) : Bool :=
  let n := c.toNat
  n < 0x20 || (0x7F ≤ n && n < 0xA0)

/-- `str::trim_start`. -/
def trimStart (t : Text) : Text :=
  t.dropWhile isWhitespace

/-- `str::trim`. -/
def trim (t : Text) : Text :=
  (trimStart t).rdropWhile isWhitespace

/-- `str::lines`: a carriage return before a newline belongs to it. -/
def lines : Text → List Text
  | [] => []
  | c :: rest =>
      if c = '\n' then [] :: lines rest
      else if c = '\r' ∧ rest.head? = some '\n' then lines rest
      else
        match lines rest with
        | [] => [[c]]
        | l :: ls => (c :: l) :: ls

/-- `str::split_once`. -/
def splitOnce (c : Char) (t : Text) : Option (Text × Text) :=
  if c ∈ t then some (t.takeWhile (· ≠ c), (t.dropWhile (· ≠ c)).tail) else none

/-! ## Section 2: Entries -/

/-- The first line of every file psbox writes. -/
def generatorMarker : Text := "# @generator psbox".toList

/-- What the second line starts with, before the name of the sandbox. -/
def sandboxTag : Text := "# @sandbox ".toList

inductive Line where
  /-- Comments and blank lines, kept verbatim. -/
  | other (text : Text)
  | key (k v : Text)
  deriving DecidableEq

structure Section where
  name : Text
  lines : List Line
  deriving DecidableEq

/-- A parsed desktop entry that keeps comments and ordering. -/
structure Entry where
  preamble : List Text
  sections : List Section
  deriving DecidableEq

/-- `MAIN`. -/
def mainSection : Text := "Desktop Entry".toList

/-- The section name of an action is this followed by its name. -/
def actionPrefix : Text := "Desktop Action ".toList

/-- An empty entry: just the `[Desktop Entry]` section. -/
def Entry.new : Entry :=
  { preamble := [], sections := [{ name := mainSection, lines := [] }] }

inductive ParseError where
  | outsideSection (line : Text)
  | invalidLine (name line : Text)
  | noMain
  deriving DecidableEq

/-- The name in a section's header. -/
def header : Text → Option Text
  -- What stands between the first bracket and the last is the name, brackets and all.
  | '[' :: rest => if rest.getLast? = some ']' then some rest.dropLast else none
  | _ => none

def isComment (line : Text) : Bool :=
  line.isEmpty || line.head? == some '#'

/-- Adds a line to the last section. -/
def Entry.push (e : Entry) (l : Line) : Entry :=
  match e.sections.getLast? with
  | none => e
  | some s => { e with sections := e.sections.dropLast ++ [{ s with lines := s.lines ++ [l] }] }

/-- One line of `Entry::parse`. -/
def Entry.parseLine (e : Entry) (raw : Text) : Except ParseError Entry :=
  let line := trim raw
  match header line with
  | some name => .ok { e with sections := e.sections ++ [{ name := name, lines := [] }] }
  | none =>
      match e.sections.getLast? with
      -- Before the first section there are comments only.
      | none =>
          if !isComment line then .error (.outsideSection line)
          else if line ≠ generatorMarker ∧ ¬sandboxTag <+: line then
            .ok { e with preamble := e.preamble ++ [line] }
          else .ok e
      | some s =>
          if isComment line then .ok (e.push (.other line))
          else
            match splitOnce '=' line with
            -- The key is trimmed on both sides, the value only in front, since the line was trimmed.
            | some (k, v) => .ok (e.push (.key (trim k) (trimStart v)))
            | none => .error (.invalidLine s.name line)

def Entry.parse (text : Text) : Except ParseError Entry := do
  let entry ← (lines text).foldlM Entry.parseLine { preamble := [], sections := [] }
  if entry.sections.any (·.name == mainSection) then .ok entry else .error .noMain

def Line.render : Line → Text
  | .other t => t
  | .key k v => k ++ '=' :: v

def Section.render (s : Section) : List Text :=
  ('[' :: (s.name ++ [']'])) :: s.lines.map Line.render

/-- The lines of the file psbox writes for `sandbox`: the marker lines, then the entry. -/
def Entry.renderLines (e : Entry) (sandbox : Text) : List Text :=
  generatorMarker :: (sandboxTag ++ sandbox) :: (e.preamble ++ e.sections.flatMap Section.render)

/-- The file psbox writes for `sandbox`. -/
def Entry.render (e : Entry) (sandbox : Text) : Text :=
  (e.renderLines sandbox).flatMap (· ++ ['\n'])

/-! ## Section 3: Changes -/

/-- The value of a line with the key. -/
def Line.value? (key : Text) : Line → Option Text
  | .other _ => none
  | .key k v => if k = key then some v else none

def Line.isKey : Line → Bool
  | .other _ => false
  | .key _ _ => true

/-- The first value of `key`. -/
def Section.get (s : Section) (key : Text) : Option Text :=
  s.lines.findSome? (Line.value? key)

def Entry.get (e : Entry) (section_ key : Text) : Option Text :=
  -- A repeated section is never looked at.
  (e.sections.find? (·.name = section_)).bind (·.get key)

/-- Gives the first line with `key` the value, and leaves out the others. -/
def setKey (key value : Text) : Bool → List Line → List Line
  | _, [] => []
  -- The first line with the key gets the value, and the others go.
  | done, l :: rest =>
      if (l.value? key).isSome then
        if done then setKey key value done rest
        else .key key value :: setKey key value true rest
      else l :: setKey key value done rest

/-- Sets `key`, replacing every value. -/
def Section.set (s : Section) (key value : Text) : Section :=
  if s.lines.any fun l => (l.value? key).isSome then
    { s with lines := setKey key value false s.lines }
  else
    -- Insert after the last key so trailing blank lines stay last.
    { s with
      lines := s.lines.rdropWhile (!·.isKey) ++ .key key value :: s.lines.rtakeWhile (!·.isKey) }

def Section.remove (s : Section) (key : Text) : Section :=
  { s with lines := s.lines.filter fun l => (l.value? key).isNone }

/-- `key` or a translation of it (`key[de]`). -/
def Line.translates (key : Text) : Line → Bool
  | .other _ => false
  -- `Name[de]` translates `Name`, `Names` does not.
  | .key k _ => k = key || (key.isPrefixOf k && (k.drop key.length).head? == some '[')

def Section.removeAll (s : Section) (key : Text) : Section :=
  { s with lines := s.lines.filter fun l => !l.translates key }

/-- Changes the first section of the name. -/
def Entry.change (e : Entry) (name : Text) (f : Section → Section) : Entry :=
  { e with sections := mapFirst (·.name = name) f e.sections }

def Entry.set (e : Entry) (section_ key value : Text) : Entry :=
  e.change section_ (·.set key value)

def Entry.remove (e : Entry) (section_ key : Text) : Entry :=
  e.change section_ (·.remove key)

/-- Removes `key` and every translation of it. -/
def Entry.removeAll (e : Entry) (section_ key : Text) : Entry :=
  e.change section_ (·.removeAll key)

def Entry.hasSection (e : Entry) (name : Text) : Bool :=
  e.sections.any (·.name == name)

/-- Adds an empty section at the end, unless there is one. -/
def Entry.addSection (e : Entry) (name : Text) : Entry :=
  if e.hasSection name then e
  else { e with sections := e.sections ++ [{ name := name, lines := [] }] }

def Entry.removeSection (e : Entry) (name : Text) : Entry :=
  { e with sections := e.sections.filter (·.name ≠ name) }

/-- The names of the `[Desktop Action <name>]` sections, in order. -/
def Entry.actions (e : Entry) : List Text :=
  e.sections.filterMap fun s =>
    if actionPrefix.isPrefixOf s.name then some (s.name.drop actionPrefix.length) else none

/-- The main section or that of an action. -/
def isExecSection (name : Text) : Bool :=
  name = mainSection || actionPrefix.isPrefixOf name

/-- Names of the main section and every `[Desktop Action ...]` section. -/
def Entry.execSections (e : Entry) : List Text :=
  (e.sections.filter (isExecSection ·.name)).map (·.name)

/-! ## Section 4: The Values of a Section -/

/-- The values that a section has for the key, in order. -/
def Section.values (s : Section) (key : Text) : List Text :=
  s.lines.filterMap (Line.value? key)

theorem Section.get_eq (s : Section) (key : Text) : s.get key = (s.values key).head? := by
  rw [Section.get, Section.values, List.head?_filterMap]

theorem value?_eq_none_of_ne {key other : Text} {l : Line} (hne : other ≠ key)
    (h : (l.value? key).isSome) : l.value? other = none := by
  cases l with
  | other t => rfl
  | key k v =>
      -- Another key has no value of this one.
      have hk : k = key := by
        by_contra hk
        simp [Line.value?, hk] at h
      exact if_neg fun heq => hne (heq.symm.trans hk)

section SetKey

variable {key value other : Text}

theorem filterMap_setKey_done (ls : List Line) :
    (setKey key value true ls).filterMap (Line.value? key) = [] := by
  induction ls with
  | nil => rfl
  | cons l ls ih =>
      rw [setKey]
      split
      · exact ih
      · rename_i hl
        rw [List.filterMap_cons, Option.not_isSome_iff_eq_none.mp hl]
        exact ih

theorem filterMap_setKey (ls : List Line) (h : ls.any fun l => (l.value? key).isSome) :
    (setKey key value false ls).filterMap (Line.value? key) = [value] := by
  induction ls with
  | nil => cases h
  | cons l ls ih =>
      rw [setKey]
      split
      · rw [if_neg (by decide), List.filterMap_cons, filterMap_setKey_done]
        simp [Line.value?]
      · rename_i hl
        rw [List.filterMap_cons, Option.not_isSome_iff_eq_none.mp hl]
        refine ih ?_
        simpa [hl] using h

theorem filterMap_setKey_of_ne (hne : other ≠ key) (done : Bool) (ls : List Line) :
    (setKey key value done ls).filterMap (Line.value? other) =
      ls.filterMap (Line.value? other) := by
  induction ls generalizing done with
  | nil => rfl
  | cons l ls ih =>
      rw [setKey]
      split
      · rename_i hl
        -- What is written is of the key itself.
        have hkey : (Line.key key value).value? other = none := if_neg (Ne.symm hne)
        split <;> simp [ih, value?_eq_none_of_ne hne hl, hkey]
      · simp [List.filterMap_cons, ih]

end SetKey

@[simp]
theorem Section.name_set (s : Section) (key value : Text) : (s.set key value).name = s.name := by
  rw [Section.set]
  split <;> rfl

@[simp]
theorem Section.name_remove (s : Section) (key : Text) : (s.remove key).name = s.name := rfl

theorem Section.values_set (s : Section) (key value : Text) :
    (s.set key value).values key = [value] := by
  rw [Section.set, Section.values]
  split
  · rename_i h
    exact filterMap_setKey _ h
  · rename_i h
    have hnone : ∀ l ∈ s.lines, l.value? key = none := by
      intro l hl
      by_contra hsome
      exact h (List.any_eq_true.mpr ⟨l, hl, Option.isSome_iff_ne_none.mpr hsome⟩)
    -- The key is nowhere yet, so the new line is its only value.
    have hfront : (s.lines.rdropWhile (!·.isKey)).filterMap (Line.value? key) = [] :=
      List.filterMap_eq_nil_iff.mpr fun l hl =>
        hnone l ((List.rdropWhile_prefix _ _).subset hl)
    have hback : (s.lines.rtakeWhile (!·.isKey)).filterMap (Line.value? key) = [] :=
      List.filterMap_eq_nil_iff.mpr fun l hl =>
        hnone l ((List.rtakeWhile_suffix _ _).subset hl)
    simp [hfront, hback, Line.value?]

theorem Section.values_set_of_ne (s : Section) {key other : Text} (value : Text)
    (hne : other ≠ key) : (s.set key value).values other = s.values other := by
  rw [Section.set, Section.values, Section.values]
  split
  · exact filterMap_setKey_of_ne hne false s.lines
  · have hkey : (Line.key key value).value? other = none := if_neg (Ne.symm hne)
    -- The blank lines at the end hold no key.
    have hsplit := congrArg (List.filterMap (Line.value? other))
      (List.rdropWhile_append_rtakeWhile (p := fun l : Line => !l.isKey) (l := s.lines))
    rw [List.filterMap_append] at hsplit
    simp [hkey, ← hsplit]

theorem Section.values_remove (s : Section) (key : Text) : (s.remove key).values key = [] := by
  refine List.filterMap_eq_nil_iff.mpr fun l hl => ?_
  simpa using (List.mem_filter.mp hl).2

theorem Section.values_remove_of_ne (s : Section) {key other : Text} (hne : other ≠ key) :
    (s.remove key).values other = s.values other := by
  rw [Section.values, Section.values, Section.remove, List.filterMap_filter]
  refine List.filterMap_congr fun l _ => ?_
  by_cases hl : (l.value? key).isSome
  · simp [value?_eq_none_of_ne hne hl]
  · simp [Option.not_isSome_iff_eq_none.mp hl]

end Psbox.Desktop
