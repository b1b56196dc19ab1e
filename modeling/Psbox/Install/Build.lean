import Psbox.Desktop.Rewrite
import Psbox.Desktop.RoundTrip

/-!
# Building an Entry

`build` of `install.rs`: an application's or autostart entry of a configuration is a desktop
entry, from scratch or from a host's, with the keys and actions of the configuration.

The configuration is one that its parser accepts: `Keys` and `Actions` carry what it checks. The
text of the host's entry is a parameter, or that there is none.
-/

namespace Psbox.Install

open Psbox.Foundations Psbox.Desktop

/-! ## Section 1: What Is Configured -/

/-- The value of a desktop entry's key in a configuration. -/
inductive KeyValue where
  /-- Remove the key from a copied entry. -/
  | remove
  | bool (b : Bool)
  | str (s : Text)
  | list (items : List Text)
  | localized (default : Text) (locales : List (Text × Text))
  deriving DecidableEq

def isAsciiAlphanumeric (c : Char) : Bool :=
  ('a' ≤ c && c ≤ 'z') || ('A' ≤ c && c ≤ 'Z') || ('0' ≤ c && c ≤ '9')

/-- Letters, digits and dashes. -/
def isWordChar (c : Char) : Bool :=
  isAsciiAlphanumeric c || c == '-'

/-- Desktop keys psbox writes itself, or that would break the entry. -/
def reservedKeys : List Text :=
  ["Exec".toList, "TryExec".toList, "DBusActivatable".toList, "Hidden".toList, "Type".toList,
    "Actions".toList, "NoDisplay".toList]

/-- A name of a key that `parse_keys` lets through. -/
def validKey (key : Text) : Bool :=
  !key.isEmpty && key.all isWordChar && !reservedKeys.contains key

/-- A locale tag as translations use it: `lang[_COUNTRY][.ENCODING][@MODIFIER]`. -/
def validLocale (s : Text) : Bool :=
  let (rest, modifier) := (splitOnce '@' s).getD (s, [])
  let (rest, encoding) := (splitOnce '.' rest).getD (rest, [])
  let (lang, country) := (splitOnce '_' rest).getD (rest, [])
  !lang.isEmpty && lang.all (fun c => 'a' ≤ c && c ≤ 'z') && country.all isWordChar &&
    encoding.all isWordChar && modifier.all isWordChar

/-- An action's name that `parse_actions` lets through. -/
def validAction (name : Text) : Bool :=
  !name.isEmpty && name.all isWordChar

/-- A name of an application or a sandbox. -/
def validName (name : Text) : Bool :=
  !name.isEmpty && name != ['.'] && name != ['.', '.'] && name.head? != some '-' &&
    name.all fun c => isAsciiAlphanumeric c || c == '.' || c == '_' || c == '-'

def KeyValue.valid : KeyValue → Bool
  | .localized _ locales => locales.all (validLocale ·.1)
  | _ => true

/-- The keys of an entry, in the order of their map. -/
structure Keys where
  entries : List (Text × KeyValue)
  distinct : (entries.map Prod.fst).Nodup
  valid : ∀ e ∈ entries, validKey e.1 ∧ e.2.valid
  locales : ∀ e ∈ entries, ∀ d ls, e.2 = .localized d ls → (ls.map Prod.fst).Nodup

structure Action where
  arguments : List Text
  keys : Keys

/-- Actions by name; `none` removes a copied action. -/
structure Actions where
  entries : List (Text × Option Action)
  distinct : (entries.map Prod.fst).Nodup
  valid : ∀ e ∈ entries, validAction e.1

/-- What an entry is built from. -/
structure Source where
  /-- Whether a host entry is copied, and the text found for it. -/
  copy : Option (Option Text)
  name : Text
  keys : Keys
  actions : Actions
  removeArguments : List Text
  noDisplay : Option Bool
  validName : validName name

inductive BuildError where
  | noHostEntry
  | parse (e : ParseError)
  | exec (e : ExecError)
  /-- A value with a character that cannot be written, and where it is from. -/
  | control (context : Option Text) (value : Text)
  deriving DecidableEq

/-! ## Section 2: Escaping -/

/-- What a character of a string value is written as. -/
def escapeChar (first : Bool) (c : Char) : Option Text :=
  if c = '\\' then some ['\\', '\\']
  else if c = '\n' then some ['\\', 'n']
  else if c = '\t' then some ['\\', 't']
  else if c = '\r' then some ['\\', 'r']
  else if c = ' ' ∧ first then some ['\\', 's']
  else if isControl c then none
  else some [c]

def escapeFrom : Bool → Text → Option Text
  | _, [] => some []
  | first, c :: rest => do
      let out ← escapeChar first c
      let more ← escapeFrom false rest
      some (out ++ more)

/-- A string value escaped as the Desktop Entry specification asks, or the value that cannot be. -/
def escape (value : Text) : Except Text Text :=
  match escapeFrom true value with
  | some out => .ok out
  | none => .error value

/-- `;` in an item of a list. -/
def escapeSeparator (c : Char) : Text :=
  if c = ';' then ['\\', ';'] else [c]

/-- A list value: each item escaped and followed by `;`. -/
def escapeList : List Text → Except Text Text
  | [] => .ok []
  | item :: items => do
      let out ← escape item
      let more ← escapeList items
      .ok (out.flatMap escapeSeparator ++ ';' :: more)

/-! ## Section 3: Building -/

def keysContext (key : Text) : Text :=
  "keys.".toList ++ key

/-- The key of a translation. -/
def localizedKey (key locale : Text) : Text :=
  key ++ '[' :: (locale ++ [']'])

def applyLocales (e : Entry) (section_ key : Text) :
    List (Text × Text) → Except BuildError Entry
  | [] => .ok e
  | (locale, text) :: rest => do
      let out ← (escape text).mapError (.control (some (keysContext key ++ '.' :: locale)))
      applyLocales (e.set section_ (localizedKey key locale) out) section_ key rest

/-- One key of a configuration. -/
def applyKey (e : Entry) (section_ key : Text) : KeyValue → Except BuildError Entry
  | .remove => .ok (e.removeAll section_ key)
  | .bool b => .ok (e.set section_ key (if b then "true".toList else "false".toList))
  | .str s => do
      let out ← (escape s).mapError (.control (some (keysContext key)))
      .ok ((e.removeAll section_ key).set section_ key out)
  | .list items => do
      let out ← (escapeList items).mapError (.control (some (keysContext key)))
      .ok (e.set section_ key out)
  | .localized default locales => do
      let out ← (escape default).mapError (.control (some (keysContext key)))
      applyLocales ((e.removeAll section_ key).set section_ key out) section_ key locales

/-- Applies the keys of a configuration to a section. -/
def applyKeys (e : Entry) (section_ : Text) : List (Text × KeyValue) → Except BuildError Entry
  | [] => .ok e
  | (key, value) :: rest => do
      let e ← applyKey e section_ key value
      applyKeys e section_ rest

def actionSection (name : Text) : Text :=
  actionPrefix ++ name

/-- One action of a configuration. -/
def applyAction (t : Target) (e : Entry) (name : Text) : Option Action → Except BuildError Entry
  | none => .ok (e.removeSection (actionSection name))
  | some a => do
      let s := actionSection name
      let e := e.addSection s
      let e ←
        if !(a.keys.entries.map Prod.fst).contains "Name".toList ∧ (e.get s "Name".toList).isNone then do
          let out ← (escape name).mapError (.control none)
          .ok (e.set s "Name".toList out)
        else .ok e
      let e ← applyKeys e s a.keys.entries
      .ok (e.set s execKey (t.exec a.arguments))

def applyActions (t : Target) (e : Entry) : List (Text × Option Action) → Except BuildError Entry
  | [] => .ok e
  | (name, action) :: rest => do
      let e ← applyAction t e name action
      applyActions t e rest

/-- The entry that is changed: the host's, or an empty one with a name. -/
def start (source : Source) (t : Target) : Except BuildError Entry :=
  match source.copy with
  | some none => .error .noHostEntry
  | some (some text) =>
      match Entry.parse text with
      | .error e => .error (.parse e)
      | .ok e =>
          match rewrite e t source.removeArguments with
          | .error e => .error (.exec e)
          | .ok e => .ok e
  | none => do
      let out ← (escape source.name).mapError (.control none)
      .ok (Entry.new.set mainSection "Name".toList out)

def applyNoDisplay (e : Entry) : Option Bool → Entry
  | some true => e.set mainSection "NoDisplay".toList "true".toList
  | some false => e.remove mainSection "NoDisplay".toList
  | none => e

def build (source : Source) (t : Target) : Except BuildError Entry := do
  let e ← start source t
  let e ← applyKeys e mainSection source.keys.entries
  let e ← applyActions t e source.actions.entries
  .ok (finish (applyNoDisplay e source.noDisplay) t)

end Psbox.Install
