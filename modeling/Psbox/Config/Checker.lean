import Mathlib.Data.String.Basic
import Psbox.DBus.Conn
import Psbox.Desktop.Entry
import Psbox.Devices.Udev
import Psbox.Foundations.Dict
import Psbox.Foundations.Jsonnet
import Psbox.Foundations.Report

/-!
# Checking a Config

The checks that the keys of a config go through (`Checker` and the `validate_` functions of `spec.rs`). An
evaluated config is JSON; every problem is reported by the path of the key it is at, and where a value cannot
be used its default is, so that there is always a result.

For each check there is what it accepts.
-/

namespace Psbox.Config

open Psbox.Foundations
open Psbox.Desktop (Text splitOnce)
open Psbox.Devices (parseHex)
open Psbox.Portal (debugString gatewayNames)
open Psbox.Sandbox (DeviceClass isWordChar validWord)

/-- Evaluated JSON. Of a number there is what it is as a `u64`, if it is one. -/
abbrev Value := Jsonnet.Json String (Option UInt64)

/-- An object, its keys in order. -/
abbrev Map := List (String × Value)

/-- The path of the key that a problem is at, and what is wrong there. -/
abbrev Problem := String × String

/-- A check: its problems, and a result whatever they are. -/
abbrev Checker := Report Problem

/-! ## Section 1: Names -/

/-- App, mount, and task names. -/
def validateName (kind name : String) : Except String Unit :=
  -- The last condition is on every character, the fourth on the first one only: no option is taken for
  -- a name.
  if name ≠ "" ∧ name ≠ "." ∧ name ≠ ".." ∧ name.toList.head? ≠ some '-' ∧
      name.toList.all (fun c => c.isAlphanum || c == '.' || c == '_' || c == '-') then .ok ()
  else .error ("invalid " ++ kind ++ " name " ++ debugString name ++ ": use letters, digits, '.', '_', '-'")

/-- The elements of a dotted name: letters, digits, `_` and `-`, not starting with a digit. -/
def validElements (s : String) : Bool :=
  -- A name that starts or ends with a dot, or has two in a row, has an empty element.
  (s.toList.splitOn '.').all fun e => e ≠ [] && !e.head?.any Char.isDigit && e.all isWordChar

/-- Desktop file ids. -/
def validateAppId (id : String) : Except String Unit :=
  if id.utf8ByteSize ≤ 255 ∧ validElements id then .ok ()
  else .error ("invalid desktop file id " ++ debugString id)

/-- A well-known host bus name for `dbus.talk`. The bus itself and the names the gateway already serves are
refused. -/
def validateTalkName (name : String) : Except String Unit :=
  if ¬(name.utf8ByteSize ≤ 255 ∧ 2 ≤ (name.toList.splitOn '.').length ∧ validElements name) then
    .error ("invalid bus name " ++ debugString name)
  else if name = DBus.busName ∨ name ∈ gatewayNames then
    .error (name ++ " is always handled by psbox and cannot be listed")
  else .ok ()

/-- Names of environment variables: letters, digits and `_`, not starting with a digit. -/
def validateEnvKey (key : String) : Except String Unit :=
  if key.toList.head?.any (fun c => c.isAlpha || c == '_') ∧ key.toList.tail.all (fun c => c.isAlphanum || c == '_') then
    .ok ()
  else .error ("invalid environment variable name " ++ debugString key)

/-- One of the four digits of a USB id. -/
def usbHex (x : Text) : Except String Nat :=
  if (String.ofList x).utf8ByteSize ≠ 4 then .error ("USB ids are four hex digits, got " ++ debugString (String.ofList x))
  else
    match parseHex x with
    | some n => .ok n
    | none => .error ("invalid USB id " ++ debugString (String.ofList x))

/-- A `devices.usb` entry, `<vendor>:<product>` in four hex digits each. -/
def usbDevice (s : String) : Except String DeviceClass :=
  match splitOnce ':' s.toList with
  | none => .error ("expected <vendor>:<product>, got " ++ debugString s)
  | some (v, p) => do
      let vendor ← usbHex v
      let product ← usbHex p
      .ok (.usb vendor product)

/-! ## Section 2: Paths -/

/-- The names of an absolute path (`Path::components`). -/
def components (s : String) : List Text :=
  -- A `.` between two slashes is no component, a `..` is one.
  (s.toList.splitOn '/').filter fun p => p ≠ [] ∧ p ≠ ['.']

/-- The path of some names. -/
def pathOf (names : List Text) : String :=
  String.ofList ('/' :: ['/'].intercalate names)

/-- An absolute, `..`-free path, normalized (no repeated or trailing `/`). -/
def absolute (s : String) : Except String String :=
  if s.toList.head? ≠ some '/' then .error (debugString s ++ " must be an absolute path (psbox.path builds one)")
  else if ['.', '.'] ∈ components s then .error (debugString s ++ " must not contain '..'")
  else .ok (pathOf (components s))

/-- What `absolute` makes stays as it is. -/
def Normal (s : String) : Prop :=
  absolute s = .ok s

private theorem not_mem_of_mem_splitOn {c : Char} {s p : Text} (h : p ∈ s.splitOn c) : c ∉ p := by
  induction s generalizing p with
  | nil =>
      rw [List.splitOn_nil, List.mem_singleton] at h
      rw [h]
      exact List.not_mem_nil
  | cons x s ih =>
      rw [List.splitOn_cons_eq_if_modifyHead] at h
      split at h
      -- Induction over the text; the rest of the split has one part more in front only where the text
      -- has the separator.
      · rcases List.mem_cons.mp h with rfl | h
        · exact List.not_mem_nil
        · exact ih h
      · rename_i hne
        cases hs : s.splitOn c with
        | nil => exact absurd hs (List.splitOn_ne_nil c s)
        | cons q qs =>
            rw [hs] at h ih
            rcases List.mem_cons.mp h with rfl | h
            · rw [List.mem_cons, not_or]
              exact ⟨fun heq => hne (by simp [heq]), ih List.mem_cons_self⟩
            · exact ih (List.mem_cons_of_mem q h)

/-- The names of a path are those it was made of, if each is a name. -/
private theorem components_pathOf {names : List Text} (h : ∀ p ∈ names, p ≠ [] ∧ p ≠ ['.'] ∧ '/' ∉ p) :
    components (pathOf names) = names := by
  -- None of the names is one that `components` drops.
  have hkept : names.filter (fun p => p ≠ [] ∧ p ≠ ['.']) = names :=
    List.filter_eq_self.mpr fun p hp => by simpa using ⟨(h p hp).1, (h p hp).2.1⟩
  -- No names are written as the root alone, whose split has one empty part.
  have hsplit : (['/'].intercalate names).splitOn '/' = if names = [] then [[]] else names := by
    split
    · rename_i hnil
      rw [hnil]
      rfl
    · rename_i hne
      exact List.splitOn_intercalate '/' (fun p hp => (h p hp).2.2) hne
  have hroot : ('/' :: ['/'].intercalate names).splitOn '/' = [] :: (['/'].intercalate names).splitOn '/' := by
    simp [List.splitOn_cons_eq_if_modifyHead]
  unfold components pathOf
  rw [String.toList_ofList, hroot, hsplit]
  split
  · rename_i hnil
    rw [hnil]
    rfl
  · exact hkept

private theorem component {s : String} {p : Text} (h : p ∈ components s) : p ≠ [] ∧ p ≠ ['.'] ∧ '/' ∉ p := by
  obtain ⟨hsplit, hkept⟩ := List.mem_filter.mp h
  have hkept : p ≠ [] ∧ p ≠ ['.'] := by simpa using hkept
  exact ⟨hkept.1, hkept.2, not_mem_of_mem_splitOn hsplit⟩

/-- A path is accepted if it starts at the root and has no `..`, and it is normalized then. -/
private theorem absolute_eq_ok {s p : String} :
    absolute s = .ok p ↔ s.toList.head? = some '/' ∧ ['.', '.'] ∉ components s ∧ pathOf (components s) = p := by
  unfold absolute
  split
  · rename_i hrelative
    simp [hrelative]
  · rename_i habsolute
    split
    · rename_i hup
      simp [hup]
    · rename_i hup
      simp [not_not.mp habsolute, hup]

/-- Normalizing a path again changes nothing. -/
theorem normal_of_absolute {s p : String} (h : absolute s = .ok p) : Normal p := by
  obtain ⟨_, hup, rfl⟩ := absolute_eq_ok.mp h
  -- The names of the path are names, so they are read back as they are.
  have hcomponents : components (pathOf (components s)) = components s := components_pathOf fun p hp => component hp
  refine absolute_eq_ok.mpr ⟨?_, ?_, ?_⟩
  · simp [pathOf]
  · rwa [hcomponents]
  · rw [hcomponents]

/-! ## Section 3: Checks -/

/-- `at`: `parent.key`, quoting a key that contains a `.`. -/
def at_ (parent key : String) : String :=
  let key := if key.toList.contains '.' then debugString key else key
  if parent = "" then key else parent ++ "." ++ key

/-- What a value is called in a problem. -/
def typeName : Value → String
  | .null => "null"
  | .bool _ => "a boolean"
  | .num _ => "a number"
  | .str _ => "a string"
  | .arr _ => "a list"
  | .obj _ => "an object"

namespace Checker

/-- Reports a problem. -/
def err (path message : String) : Checker Unit :=
  Report.report (path, message)

/-- The result of a validation, and its error where it fails. -/
def checked {α : Type} (path : String) : Except String α → Checker (Option α)
  | .ok a => pure (some a)
  | .error e => do
      err path e
      pure none

/-- A value that has to be an object. -/
def object (path : String) : Value → Checker (Option Map)
  | .obj m => pure (some m)
  | other => do
      err path ("expected an object, got " ++ typeName other)
      pure none

/-- Reports keys of `m` not in `allowed`. -/
def known (path : String) (m : Map) (allowed : List String) : Checker Unit :=
  -- One problem for each key, in the order in which they are written.
  forM (m.filter fun e => e.1 ∉ allowed) fun e => err (at_ path e.1) "unknown key"

/-- A boolean, or its default. -/
def bool (path : String) (m : Map) (key : String) (default : Bool) : Checker Bool :=
  match m.lookup key with
  | none => pure default
  | some (.bool b) => pure b
  | some other => do
      -- A value of another type is a problem, and the default stands in for it.
      err (at_ path key) ("expected a boolean, got " ++ typeName other)
      pure default

/-- A string, if the key is there. -/
def string (path : String) (m : Map) (key : String) : Checker (Option String) :=
  match m.lookup key with
  | none => pure none
  | some (.str s) => pure (some s)
  | some other => do
      err (at_ path key) ("expected a string, got " ++ typeName other)
      pure none

/-- One of the texts that a key can have, by what it stands for, or the default. -/
def choice {α : Type} (path : String) (m : Map) (key : String) (choices : List (String × α)) (default : α) :
    Checker α := do
  match ← string path m key with
  | none => pure default
  | some s =>
      match choices.lookup s with
      | some a => pure a
      -- Every text that there is for the key is named.
      | none => do
          let names := " or ".intercalate (choices.map fun c => debugString c.1)
          err (at_ path key) ("expected " ++ names ++ ", got " ++ debugString s)
          pure default

/-- A string in a list, with the number it has there. -/
def item (path : String) : Value × Nat → Checker (Option String)
  | (.str s, _) => pure (some s)
  | (other, i) => do
      err (path ++ "[" ++ toString i ++ "]") ("expected a string, got " ++ typeName other)
      pure none

/-- A list of strings. Items that are none are reported and left out. -/
def strings (path : String) (m : Map) (key : String) : Checker (List String) :=
  match m.lookup key with
  | none => pure []
  -- The items are numbered from 0, those that are none too.
  | some (.arr items) => Report.each (item (at_ path key)) items.zipIdx
  | some other => do
      err (at_ path key) ("expected a list, got " ++ typeName other)
      pure []

/-- An absolute path, if the key is there. -/
def path (path_ : String) (m : Map) (key : String) : Checker (Option String) := do
  match ← string path_ m key with
  | none => pure none
  | some s => checked (at_ path_ key) (absolute s)

/-- Fails on keys present in `m` that the chosen mode does not use. -/
def unused (path : String) (m : Map) (keys : List String) (why : String) : Checker Unit :=
  forM (keys.filter fun k => (m.lookup k).isSome) fun k => err (at_ path k) ("not used " ++ why)

/-- A variable of an environment. -/
def variable_ (path : String) (e : String × Value) : Checker (Option (String × String)) := do
  -- A name that is no variable is reported, and its value is looked at all the same.
  let _ ← checked (at_ path e.1) (validateEnvKey e.1)
  match e.2 with
  | .null => pure none
  | .str s => pure (some (e.1, s))
  | other => do
      err (at_ path e.1) ("expected a string or null, got " ++ typeName other)
      pure none

/-- An environment; a null takes away a variable that a layer below sets. -/
def environment (path : String) : Option Value → Checker (Dict String String)
  | none => pure ∅
  | some v => do
      match ← object path v with
      | none => pure ∅
      | some m => do
          let out ← Report.each (variable_ path) m
          pure (Dict.ofList out)

/-! ## Section 4: What They Accept -/

variable {α : Type}

/-- What reports a problem accepts nothing. -/
@[simp]
theorem not_accepts_err (path message : String) (u : Unit) : ¬(err path message).Accepts u :=
  Report.not_accepts_report _ u

@[simp]
theorem accepts_checked {path : String} {r : Except String α} {o : Option α} :
    (checked path r).Accepts o ↔ ∃ a, r = .ok a ∧ some a = o := by
  cases r <;> simp [checked]

@[simp]
theorem accepts_object {path : String} {v : Value} {o : Option Map} :
    (object path v).Accepts o ↔ ∃ m, v = .obj m ∧ some m = o := by
  cases v <;> simp [object]

@[simp]
theorem accepts_known {path : String} {m : Map} {allowed : List String} {u : Unit} :
    (known path m allowed).Accepts u ↔ ∀ e ∈ m, e.1 ∈ allowed := by
  simp [known]

/-- What is accepted is the boolean that is written, or the default where the key is left out. -/
theorem accepts_bool {path : String} {m : Map} {key : String} {default b : Bool} :
    (bool path m key default).Accepts b ↔
      m.lookup key = some (.bool b) ∨ m.lookup key = none ∧ default = b := by
  unfold bool
  cases m.lookup key with
  | none => simp
  | some v => cases v <;> simp

/-- What is accepted is the string that is written, or nothing where the key is left out. -/
theorem accepts_string {path : String} {m : Map} {key : String} {o : Option String} :
    (string path m key).Accepts o ↔
      (∃ s, m.lookup key = some (.str s) ∧ some s = o) ∨ m.lookup key = none ∧ none = o := by
  unfold string
  cases m.lookup key with
  | none => simp
  | some v => cases v <;> simp

/-- What is accepted is what the text stands for, or the default where the key is left out. -/
theorem accepts_choice {path : String} {m : Map} {key : String} {choices : List (String × α)} {default a : α} :
    (choice path m key choices default).Accepts a ↔
      (∃ s, m.lookup key = some (.str s) ∧ choices.lookup s = some a) ∨ m.lookup key = none ∧ default = a := by
  unfold choice
  rw [Report.accepts_bind]
  -- What the choice accepts is what the string accepts, and of that what stands for something.
  constructor
  · rintro ⟨o, ho, ha⟩
    rcases accepts_string.mp ho with ⟨s, hs, rfl⟩ | ⟨hnone, rfl⟩
    · refine Or.inl ⟨s, hs, ?_⟩
      dsimp only at ha
      split at ha
      · rename_i hchoice
        rw [hchoice, Report.accepts_pure.mp ha]
      · simp at ha
    · exact Or.inr ⟨hnone, Report.accepts_pure.mp ha⟩
  · rintro (⟨s, hs, hchoice⟩ | ⟨hnone, rfl⟩)
    · refine ⟨some s, accepts_string.mpr (Or.inl ⟨s, hs, rfl⟩), ?_⟩
      dsimp only
      rw [hchoice]
      exact Report.accepts_pure.mpr rfl
    · exact ⟨none, accepts_string.mpr (Or.inr ⟨hnone, rfl⟩), Report.accepts_pure.mpr rfl⟩

private theorem accepts_item {path : String} {v : Value} {i : Nat} {o : Option String} :
    (item path (v, i)).Accepts o ↔ ∃ s, v = .str s ∧ some s = o := by
  cases v <;> simp [item]

/-- A list of strings is accepted if all of its items are strings. -/
theorem accepts_items {path : String} {items : List Value} {i : Nat} {ss : List String} :
    (Report.each (item path) (items.zipIdx i)).Accepts ss ↔ items = ss.map .str := by
  induction items generalizing i ss with
  | nil =>
      rw [List.zipIdx_nil, Report.accepts_each_nil]
      cases ss <;> simp
  | cons v items ih =>
      rw [List.zipIdx_cons, Report.accepts_each_cons]
      constructor
      · rintro ⟨o, cs, ho, hcs, rfl⟩
        obtain ⟨s, rfl, rfl⟩ := accepts_item.mp ho
        rw [ih.mp hcs]
        rfl
      · intro h
        cases ss with
        | nil => cases h
        | cons s ss =>
            obtain ⟨rfl, hrest⟩ := List.cons.inj h
            exact ⟨some s, ss, accepts_item.mpr ⟨s, rfl, rfl⟩, ih.mpr hrest, rfl⟩

/-- What is accepted is the list that is written, or the empty one where the key is left out. -/
theorem accepts_strings {path : String} {m : Map} {key : String} {ss : List String} :
    (strings path m key).Accepts ss ↔
      m.lookup key = some (.arr (ss.map .str)) ∨ m.lookup key = none ∧ [] = ss := by
  unfold strings
  split
  · rename_i h
    simp [h]
  · rename_i h
    rw [accepts_items, h]
    simp
  · rename_i other hother h
    simp only [Report.accepts_bind, not_accepts_err, false_and, exists_false, false_iff, not_or, h]
    refine ⟨fun heq => hother _ (Option.some.inj heq), ?_⟩
    rintro ⟨hnone, _⟩
    cases hnone

/-- What is accepted is the path that is written, normalized. -/
theorem accepts_path {path_ : String} {m : Map} {key : String} {o : Option String} :
    (path path_ m key).Accepts o ↔
      (∃ s p, m.lookup key = some (.str s) ∧ absolute s = .ok p ∧ some p = o) ∨ m.lookup key = none ∧ none = o := by
  unfold path
  rw [Report.accepts_bind]
  constructor
  · rintro ⟨o', ho, h⟩
    rcases accepts_string.mp ho with ⟨s, hs, rfl⟩ | ⟨hnone, rfl⟩
    · obtain ⟨p, hp, rfl⟩ := accepts_checked.mp h
      exact Or.inl ⟨s, p, hs, hp, rfl⟩
    · exact Or.inr ⟨hnone, Report.accepts_pure.mp h⟩
  · rintro (⟨s, p, hs, hp, rfl⟩ | ⟨hnone, rfl⟩)
    · exact ⟨some s, accepts_string.mpr (Or.inl ⟨s, hs, rfl⟩), accepts_checked.mpr ⟨p, hp, rfl⟩⟩
    · exact ⟨none, accepts_string.mpr (Or.inr ⟨hnone, rfl⟩), Report.accepts_pure.mpr rfl⟩

/-- None of the keys may be there. -/
@[simp]
theorem accepts_unused {path : String} {m : Map} {keys : List String} {why : String} {u : Unit} :
    (unused path m keys why).Accepts u ↔ ∀ k ∈ keys, m.lookup k = none := by
  unfold unused
  rw [Report.accepts_forM]
  constructor
  · intro h k hk
    by_contra hsome
    have hmem : k ∈ keys.filter fun k => (m.lookup k).isSome :=
      List.mem_filter.mpr ⟨hk, Option.isSome_iff_ne_none.mpr hsome⟩
    exact not_accepts_err _ _ _ (h k hmem)
  · intro h k hk
    obtain ⟨hmem, hsome⟩ := List.mem_filter.mp hk
    rw [h k hmem] at hsome
    cases hsome

/-- A variable is accepted under a name that is valid, and nothing for a null. -/
theorem accepts_variable {path : String} {e : String × Value} {o : Option (String × String)} :
    (variable_ path e).Accepts o ↔
      validateEnvKey e.1 = .ok () ∧ (e.2 = .null ∧ none = o ∨ ∃ s, e.2 = .str s ∧ some (e.1, s) = o) := by
  have hunit : (∃ u, validateEnvKey e.1 = .ok u) ↔ validateEnvKey e.1 = .ok () := ⟨fun ⟨_, h⟩ => h, fun h => ⟨_, h⟩⟩
  rcases e with ⟨k, v⟩
  unfold variable_
  cases v <;> simp [hunit]

/-- An environment is accepted if each of its variables is. -/
theorem accepts_environment {path : String} {v : Option Value} {d : Dict String String} :
    (environment path v).Accepts d ↔
      v = none ∧ ∅ = d ∨ ∃ m es, v = some (.obj m) ∧ (Report.each (variable_ path) m).Accepts es ∧ Dict.ofList es = d := by
  cases v with
  | none => simp [environment]
  | some v =>
      unfold environment
      rw [Report.accepts_bind]
      constructor
      · rintro ⟨o, ho, h⟩
        obtain ⟨m, rfl, rfl⟩ := accepts_object.mp ho
        obtain ⟨es, hes, h⟩ := Report.accepts_bind.mp h
        exact Or.inr ⟨m, es, rfl, hes, Report.accepts_pure.mp h⟩
      · rintro (⟨hnone, _⟩ | ⟨m, es, hv, hes, rfl⟩)
        · cases hnone
        · obtain rfl := Option.some.inj hv
          exact ⟨some m, accepts_object.mpr ⟨m, rfl, rfl⟩, Report.accepts_bind.mpr ⟨es, hes, Report.accepts_pure.mpr rfl⟩⟩

end Checker

end Psbox.Config
