import Psbox.Portal.Policy

/-!
# Forced and Stripped Options

Which options of a forwarded call obey the portal policy. The body of a call is
untrusted and its options dictionary may hold a key more than once:
`dict_remove` takes every entry of a key away, while `dict_set` and `dict_get`
look at the first one only.

`check_obeys_iff` says exactly when the arguments `check` forwards obey the rule
of their method: when the entries that repeat a forced or inspected key already do.
-/

namespace Psbox.Portal

open Psbox.DBus Psbox.Foundations

/-! ## Section 1: Rules -/

/-- A plain name: not empty, `.` or `..`, and without `/` and NUL. -/
def IsPlainName (name : List UInt8) : Prop :=
  name ≠ [] ∧ name ≠ ['.'.toUInt8] ∧ name ≠ ['.'.toUInt8, '.'.toUInt8] ∧
    '/'.toUInt8 ∉ name ∧ (0 : UInt8) ∉ name

/-- A plain name, with or without the NUL that GLib sends after it. -/
def IsFileName (bytes : List UInt8) : Prop :=
  IsPlainName bytes ∨ ∃ name, bytes = name ++ [0] ∧ IsPlainName name

/-- A list of plain file names, as an option holds it. -/
def IsFileNames (v : Value) : Prop :=
  ∃ names, v = .array ['a', 'y'] names ∧
    ∀ name ∈ names, ∃ elem bytes, name = .array elem (bytes.map .byte) ∧ IsFileName bytes

/-- What the policy asks of the options of a method. -/
inductive OptionRule where
  /-- The key is there, and each entry with it is true. -/
  | forced (key : String)
  /-- No entry has any of the keys. -/
  | removed (keys : List String)
  /-- No entry has any of the keys, and each entry with the key `files` is a list
  of plain file names. -/
  | fileNames (keys : List String) (files : String)

abbrev Entries := List (Value × Value)

/-- Every entry obeys the rule for its key. -/
def OptionRule.Obeyed : OptionRule → Entries → Prop
  | forced key, entries =>
      (∃ e ∈ entries, Value.hasKey key e) ∧
        ∀ e ∈ entries, Value.hasKey key e → e.2 = .variant (.bool true)
  | removed keys, entries => ∀ e ∈ entries, ∀ key ∈ keys, Value.hasKey key e = false
  | fileNames keys files, entries =>
      (∀ e ∈ entries, ∀ key ∈ keys, Value.hasKey key e = false) ∧
        ∀ e ∈ entries, Value.hasKey files e → IsFileNames (Value.unwrapVariant e.2)

/-- The entries that repeat a key obey the rule already. -/
def OptionRule.RepeatsObey : OptionRule → Entries → Prop
  | forced key, entries => ∀ e ∈ repeats (Value.hasKey key) entries, e.2 = .variant (.bool true)
  | removed _, _ => True
  | fileNames _ files, entries =>
      ∀ e ∈ repeats (Value.hasKey files) entries, IsFileNames (Value.unwrapVariant e.2)

/-- A method whose options the policy changes: its declared signature, which
argument holds the options, and their rule. -/
structure SanitizedMethod where
  iface : String
  member : String
  signature : Signature
  index : Nat
  rule : OptionRule

def fileChooserMethod (member : String) : SanitizedMethod :=
  { iface := "org.freedesktop.portal.FileChooser", member := member,
    signature := "ssa{sv}".toList, index := 2,
    rule := .fileNames ["current_folder", "current_file"] "files" }

def sanitizedMethods : List SanitizedMethod :=
  [{ iface := "org.freedesktop.portal.Screenshot", member := "Screenshot",
     signature := "sa{sv}".toList, index := 1, rule := .forced "interactive" },
   { iface := "org.freedesktop.portal.OpenURI", member := "OpenFile",
     signature := "sha{sv}".toList, index := 2, rule := .forced "ask" },
   { iface := "org.freedesktop.portal.ScreenCast", member := "SelectSources",
     signature := "oa{sv}".toList, index := 1,
     rule := .removed ["persist_mode", "restore_token"] },
   fileChooserMethod "OpenFile",
   fileChooserMethod "SaveFile",
   fileChooserMethod "SaveFiles",
   { iface := "org.freedesktop.Notifications", member := "Notify",
     signature := "susssasa{sv}i".toList, index := 6,
     rule := .removed ["image-path", "image_path", "sound-file"] }]

namespace SanitizedMethod

/-- A call of the method, with its declared signature. -/
structure IsCall (m : SanitizedMethod) (msg : Message) : Prop where
  iface : msg.interface = some m.iface
  member : msg.member = some m.member
  signature : msg.signature = m.signature

/-- The options in `args` obey the method's rule. -/
def Obeyed (m : SanitizedMethod) (args : List Value) : Prop :=
  ∃ entries, args[m.index]? = some (.dict ['s'] ['v'] entries) ∧ m.rule.Obeyed entries

/-- Among the options in `args`, the entries that repeat a key obey the rule. -/
def RepeatsObey (m : SanitizedMethod) (args : List Value) : Prop :=
  ∀ entries, args[m.index]? = some (.dict ['s'] ['v'] entries) → m.rule.RepeatsObey entries

end SanitizedMethod

/-! ## Section 2: What Is Decoded -/

/-- An `a{sv}` is read as a dictionary. -/
theorem readDepth_options {left : Nat} {r r' : Reader} {v : Value}
    (h : Reader.readDepth left "a{sv}".toList r = .ok (v, r')) :
    ∃ entries, v = .dict ['s'] ['v'] entries := by
  -- Without any depth left nothing is read.
  cases left with
  | zero => cases h
  | succ left =>
      obtain ⟨r₁, _, h⟩ := bind_eq_ok h
      obtain ⟨⟨len, stop, r₂⟩, _, h⟩ := bind_eq_ok h
      obtain ⟨inner, hinner, h⟩ := bind_eq_ok h
      obtain ⟨n, hn, h⟩ := bind_eq_ok h
      obtain ⟨⟨entries, r₃⟩, _, h⟩ := bind_eq_ok h
      cases hinner
      cases hn
      cases h
      exact ⟨entries, rfl⟩

/-- Each value of a body is read with the type at its place. -/
theorem readFields_getElem {read : Signature → Reader → Except Failure (Value × Reader)}
    {types : List Signature} {r r' : Reader} {vs : List Value}
    (h : Reader.readFields read types r = .ok (vs, r')) :
    ∀ (i : Nat) (t : Signature), types[i]? = some t →
      ∃ v r₁ r₂, vs[i]? = some v ∧ read t r₁ = .ok (v, r₂) := by
  -- By induction over the types, which are read one after the other.
  induction types generalizing r vs with
  | nil =>
      intro i t ht
      simp at ht
  | cons t ts ih =>
      obtain ⟨⟨v, r₁⟩, hv, h⟩ := bind_eq_ok h
      obtain ⟨⟨vs', r₂⟩, hvs, h⟩ := bind_eq_ok h
      cases h
      intro i t' ht
      cases i with
      | zero =>
          cases ht
          exact ⟨v, r, r₁, rfl, hv⟩
      | succ i => exact ih hvs i t' ht

/-- The argument of type `a{sv}` is a dictionary. -/
theorem decodeBody_options {sig : Signature} {types : List Signature} {body : List UInt8}
    {big : Bool} {args : List Value} {i : Nat} (hsplit : splitSignature sig = .ok types)
    (hi : types[i]? = some "a{sv}".toList) (h : decodeBody sig body big = .ok args) :
    ∃ entries, args[i]? = some (.dict ['s'] ['v'] entries) := by
  -- The signature splits in one way only.
  obtain ⟨types', htypes, h⟩ := bind_eq_ok h
  cases hsplit.symm.trans htypes
  obtain ⟨⟨vs, r⟩, hvs, hend⟩ := bind_eq_ok h
  simp only at hend
  split at hend
  · cases hend
  · cases hend
    obtain ⟨v, r₁, r₂, hv, hread⟩ := readFields_getElem hvs i _ hi
    obtain ⟨entries, rfl⟩ := readDepth_options hread
    exact ⟨entries, hv⟩

/-! ## Section 3: Plain File Names -/

private theorem byteItems_eq_some {items : List Value} {bytes : List UInt8} :
    byteItems items = some bytes ↔ items = bytes.map .byte := by
  induction items generalizing bytes with
  | nil => cases bytes <;> simp [byteItems]
  | cons v vs ih =>
      cases v with
      | byte b =>
          cases bytes with
          | nil => simp [byteItems]
          | cons b' bs =>
              simp only [byteItems, Option.map_eq_some_iff, ih, List.map_cons, List.cons.injEq,
                Value.byte.injEq]
              constructor
              · rintro ⟨bs', rfl, rfl, rfl⟩
                exact ⟨rfl, rfl⟩
              · rintro ⟨rfl, rfl⟩
                exact ⟨bs, rfl, rfl, rfl⟩
      | _ => cases bytes <;> simp [byteItems]

/-- The NUL at the end is the only one a file name may hold. -/
private theorem isPlainName_stripNul (bytes : List UInt8) :
    IsPlainName (stripNul bytes) ↔ IsFileName bytes := by
  -- The name is written with a zero at its end, or without.
  unfold stripNul
  split
  · rename_i hlast
    have hsplit : bytes = bytes.dropLast ++ [0] := by
      have hne : bytes ≠ [] := by
        rintro rfl
        simp at hlast
      have hget : bytes.getLast hne = 0 := by
        rw [List.getLast?_eq_some_getLast hne] at hlast
        exact Option.some.inj hlast
      rw [← hget, List.dropLast_append_getLast]
    constructor
    · intro hplain
      exact Or.inr ⟨bytes.dropLast, hsplit, hplain⟩
    · rintro (hplain | ⟨name, hname, hplain⟩)
      · exact absurd (List.mem_of_getLast? hlast) hplain.2.2.2.2
      · rw [hname, List.dropLast_concat]
        exact hplain
  · rename_i hlast
    constructor
    · exact Or.inl
    · rintro (hplain | ⟨name, hname, _⟩)
      · exact hplain
      · rw [hname] at hlast
        simp at hlast

private theorem plainFileName_iff (v : Value) :
    plainFileName v ↔ ∃ elem bytes, v = .array elem (bytes.map .byte) ∧ IsFileName bytes := by
  cases v with
  | array elem items =>
      cases hitems : byteItems items with
      | none =>
          simp only [plainFileName, hitems, Bool.false_eq_true, false_iff]
          rintro ⟨elem', bytes, heq, _⟩
          cases heq
          rw [byteItems_eq_some.mpr rfl] at hitems
          cases hitems
      | some bytes =>
          have hplain : plainFileName (.array elem items) ↔ IsPlainName (stripNul bytes) := by
            simp [plainFileName, hitems, IsPlainName, and_assoc]
          rw [hplain, isPlainName_stripNul, byteItems_eq_some.mp hitems]
          constructor
          · intro h
            exact ⟨elem, bytes, rfl, h⟩
          · rintro ⟨elem', bytes', heq, h⟩
            have hmap := (Value.array.inj heq).2
            have hinj : Function.Injective Value.byte := fun _ _ hb => Value.byte.inj hb
            rwa [List.map_injective_iff.mpr hinj hmap]
  | _ => simp [plainFileName]

theorem plainFileNames_iff (v : Value) : plainFileNames v ↔ IsFileNames v := by
  cases v with
  | array elem items =>
      simp only [plainFileNames, IsFileNames, Bool.and_eq_true, beq_iff_eq, List.all_eq_true,
        Value.array.injEq]
      constructor
      · rintro ⟨rfl, hall⟩
        exact ⟨items, ⟨rfl, rfl⟩, fun name hname => (plainFileName_iff name).mp (hall name hname)⟩
      · rintro ⟨names, ⟨rfl, rfl⟩, hall⟩
        exact ⟨rfl, fun name hname => (plainFileName_iff name).mpr (hall name hname)⟩
  | _ => simp [plainFileNames, IsFileNames]

/-! ## Section 4: Options Rewritten -/

/-- Setting a forced option obeys its rule exactly when its repeats already do. -/
theorem forced_setEntry_iff (key : String) (entries : Entries) :
    (OptionRule.forced key).Obeyed (Value.setEntry key (.variant (.bool true)) entries) ↔
      (OptionRule.forced key).RepeatsObey entries := by
  have hset := forall_mem_setFirst_iff (Value.hasKey key)
    (fun e => (e.1, .variant (.bool true))) (.str key, .variant (.bool true))
    (fun e => e.2 = .variant (.bool true)) (fun _ h => h) (fun _ _ => rfl) rfl entries
  constructor
  · intro h
    exact hset.mp h.2
  · intro h
    refine ⟨?_, hset.mpr h⟩
    exact exists_mem_setFirst (Value.hasKey key) (fun e => (e.1, .variant (.bool true)))
      (.str key, .variant (.bool true)) (fun _ h => h) (by simp [Value.hasKey, Value.asStr]) entries

/-- Entries after a list of keys is removed from them. -/
def removeKeys (keys : List String) (entries : Entries) : Entries :=
  entries.filter fun e => keys.all fun key => !Value.hasKey key e

theorem mem_removeKeys {keys : List String} {entries : Entries} {e : Value × Value}
    (he : e ∈ removeKeys keys entries) : ∀ key ∈ keys, Value.hasKey key e = false := by
  intro key hkey
  have hall := (List.mem_filter.mp he).2
  simpa using List.all_eq_true.mp hall key hkey

theorem removed_removeKeys (keys : List String) (entries : Entries) :
    (OptionRule.removed keys).Obeyed (removeKeys keys entries) :=
  fun _ he => mem_removeKeys he

/-- Stripped options whose first `files` entry was checked obey the rule exactly
when the repeats of `files` do. -/
theorem fileNames_removeKeys_iff {keys : List String} {files : String} {entries : Entries}
    (hkeys : files ∉ keys)
    (hfirst : ∀ e ∈ (removeKeys keys entries).find? (Value.hasKey files),
      IsFileNames (Value.unwrapVariant e.2)) :
    (OptionRule.fileNames keys files).Obeyed (removeKeys keys entries) ↔
      (OptionRule.fileNames keys files).RepeatsObey entries := by
  -- The key of the files is not one that is removed.
  have hkept : ∀ e, Value.hasKey files e →
      (keys.all fun key => !Value.hasKey key e) = true := by
    intro e he
    rw [List.all_eq_true]
    intro key hkey
    simp only [Value.hasKey, beq_iff_eq] at he
    have hne : files ≠ key := fun h => hkeys (h ▸ hkey)
    simp [Value.hasKey, he, hne]
  -- So the entries with that key repeat as before.
  have hsame : repeats (Value.hasKey files) (removeKeys keys entries) =
      repeats (Value.hasKey files) entries := repeats_filter hkept entries
  simp only [OptionRule.Obeyed, OptionRule.RepeatsObey, forall_match_iff, hsame]
  constructor
  · intro h
    exact h.2.2
  · intro h
    exact ⟨fun e he => mem_removeKeys he, hfirst, h⟩

/-! ## Section 5: What Is Forwarded -/

private theorem dictRemove_two (k v : Signature) (entries : Entries) (a b : String) :
    ((Value.dict k v entries).dictRemove a).dictRemove b =
      .dict k v (removeKeys [a, b] entries) := by
  simp [Value.dictRemove, removeKeys, List.filter_filter, Bool.and_comm]

private theorem dictRemove_three (k v : Signature) (entries : Entries) (a b c : String) :
    (((Value.dict k v entries).dictRemove a).dictRemove b).dictRemove c =
      .dict k v (removeKeys [a, b, c] entries) := by
  simp [Value.dictRemove, removeKeys, List.filter_filter, Bool.and_comm, Bool.and_assoc]

/-- A changed argument is there with its change. -/
private theorem getElem?_changeArg {args : List Value} {i : Nat} {v : Value} (f : Value → Value)
    (h : args[i]? = some v) : (changeArg i f args)[i]? = some (f v) := by
  simp [changeArg, h]

/-- A portal call that is forwarded was let through by its method's own arm. -/
theorem checkArgs_of_check {policy : Policy} {identified : Bool} {msg : Message}
    {iface member : String} {args : List Value} {a : Option (List Value)}
    {file : Option FileRequest}
    (hiface : msg.interface = some iface) (hmember : msg.member = some member)
    (hportal : iface ∉ ["org.freedesktop.DBus.Introspectable", "org.freedesktop.DBus.Peer",
      "org.freedesktop.DBus.Properties", "org.freedesktop.portal.Request",
      "org.freedesktop.portal.Session", "org.freedesktop.Notifications"])
    (hargs : msg.args = .ok args) (h : check policy identified msg = .forward a file) :
    checkArgs policy msg iface member args = .forward a file := by
  -- None of the interfaces that are answered without a look at the arguments.
  simp only [List.mem_cons, List.not_mem_nil, or_false, not_or] at hportal
  obtain ⟨hintro, hpeer, hprops, hreq, hsess, hnotify⟩ := hportal
  simp only [check, checkPortal, introspection, hiface, hmember, Option.getD_some, hintro, hpeer,
    hprops, hreq, hsess, hnotify, hargs, beq_iff_eq, false_and, if_false, Bool.or_eq_true,
    or_self, Bool.not_eq_true'] at h
  -- Of all that remains only the arguments' branch lets the call through.
  split at h
  · split at h
    · split at h <;> cases h
    · split at h
      · cases h
      · exact h
  all_goals repeat (first | cases h | split at h)

/-- A notification that is forwarded had its hints stripped. -/
theorem stripNotifyPaths_of_check {policy : Policy} {identified : Bool} {msg : Message}
    {a : Option (List Value)} {file : Option FileRequest}
    (hiface : msg.interface = some "org.freedesktop.Notifications")
    (hmember : msg.member = some "Notify") (h : check policy identified msg = .forward a file) :
    stripNotifyPaths msg = .forward a file := by
  -- Notifications are no portal, so they have no methods of it.
  have hportal : portalMethods policy identified "org.freedesktop.Notifications" = none := by
    cases identified <;> simp [portalMethods, methods, unidentified]
  simp only [check, checkPortal, introspection, hiface, hmember, Option.getD_some, hportal] at h
  split at h
  · cases identified <;> simp at h
  · split at h
    · simp at h
    · split at h
      · simp at h
      · split at h
        · simpa using h
        · cases h

namespace SanitizedMethod

/-- Rewritten options obey a method's rule as their entries do. -/
private theorem obeyed_iff {m : SanitizedMethod} {args args' : List Value}
    {entries entries' : Entries}
    (hargs : args[m.index]? = some (.dict ['s'] ['v'] entries))
    (hargs' : args'[m.index]? = some (.dict ['s'] ['v'] entries'))
    (h : m.rule.Obeyed entries' ↔ m.rule.RepeatsObey entries) :
    m.Obeyed args' ↔ m.RepeatsObey args := by
  constructor
  · rintro ⟨es', hes', hobey⟩ es hes
    cases hargs.symm.trans hes
    cases hargs'.symm.trans hes'
    exact h.mp hobey
  · intro hrep
    exact ⟨entries', hargs', h.mpr (hrep entries hargs)⟩

end SanitizedMethod

/-- A forced option, in a call with its declared signature. -/
private theorem forceOption_obeyed_iff {m : SanitizedMethod} {key : String}
    {file file' : Option FileRequest} {msg : Message} {args : List Value}
    {a : Option (List Value)} {entries : Entries} (hrule : m.rule = .forced key)
    (hargs : args[m.index]? = some (.dict ['s'] ['v'] entries))
    (h : forceOption m.signature m.index key file msg args = .forward a file') :
    m.Obeyed (a.getD args) ↔ m.RepeatsObey args := by
  simp only [forceOption, hargs] at h
  split at h
  · cases h
    have hlt : m.index < args.length := (List.getElem?_eq_some_iff.mp hargs).1
    have hset : (args.set m.index ((Value.dict ['s'] ['v'] entries).dictSet key (.bool true)))[m.index]? =
        some (.dict ['s'] ['v'] (Value.setEntry key (.variant (.bool true)) entries)) :=
      List.getElem?_set_self hlt
    refine SanitizedMethod.obeyed_iff hargs hset ?_
    rw [hrule]
    exact forced_setEntry_iff key entries
  · cases h

/-- Options whose keys are removed from the argument at their index. -/
private theorem removed_obeyed_iff {m : SanitizedMethod} {keys : List String} {args : List Value}
    {entries : Entries} {f : Value → Value} (hrule : m.rule = .removed keys)
    (hargs : args[m.index]? = some (.dict ['s'] ['v'] entries))
    (hf : f (.dict ['s'] ['v'] entries) = .dict ['s'] ['v'] (removeKeys keys entries)) :
    m.Obeyed (changeArg m.index f args) ↔ m.RepeatsObey args := by
  refine SanitizedMethod.obeyed_iff hargs (hf ▸ getElem?_changeArg f hargs) ?_
  rw [hrule]
  exact ⟨fun _ => trivial, fun _ => removed_removeKeys keys entries⟩

/-- The options of a file chooser call. -/
private theorem checkFileChooser_obeyed_iff {member : String} {args : List Value}
    {a : Option (List Value)} {file : Option FileRequest} {entries : Entries}
    (hargs : args[2]? = some (.dict ['s'] ['v'] entries))
    (h : checkFileChooser member args = .forward a file) :
    (fileChooserMethod member).Obeyed (a.getD args) ↔
      (fileChooserMethod member).RepeatsObey args := by
  have hchanged := getElem?_changeArg
    (fun opts => (opts.dictRemove "current_folder").dictRemove "current_file") hargs
  simp only [dictRemove_two] at hchanged
  simp only [checkFileChooser, hchanged, Option.bind_some, Value.dictGet] at h
  -- The first `files` entry, when there is one, was checked.
  have hfirst : ∀ e ∈ (removeKeys ["current_folder", "current_file"] entries).find?
      (Value.hasKey "files"), IsFileNames (Value.unwrapVariant e.2) := by
    intro e he
    rw [Option.mem_def] at he
    simp only [he, Option.map_some] at h
    split at h
    · rename_i hplain
      exact (plainFileNames_iff _).mp hplain
    · cases h
  have ha : a.getD args = changeArg 2
      (fun opts => (opts.dictRemove "current_folder").dictRemove "current_file") args := by
    split at h
    · split at h
      · cases h
        rfl
      · cases h
    · cases h
      rfl
  rw [ha]
  refine SanitizedMethod.obeyed_iff hargs hchanged ?_
  exact fileNames_removeKeys_iff (by simp) hfirst

/-! ## Section 6: Exactly When the Rules Are Obeyed -/

/-- The arguments that `check` forwards obey the rule of their method exactly when
the entries that repeat a forced or inspected key obey it already. -/
theorem check_obeyed_iff (policy : Policy) (identified : Bool) (msg : Message)
    (m : SanitizedMethod) (args : List Value) (a : Option (List Value))
    (file : Option FileRequest) (hm : m ∈ sanitizedMethods) (hcall : m.IsCall msg)
    (hargs : msg.args = .ok args) (hforward : check policy identified msg = .forward a file) :
    m.Obeyed (a.getD args) ↔ m.RepeatsObey args := by
  obtain ⟨hiface, hmember, hsig⟩ := hcall
  have hbody : decodeBody m.signature msg.body false = .ok args := by
    rw [← hsig]
    exact hargs
  simp only [sanitizedMethods, List.mem_cons, List.not_mem_nil, or_false] at hm
  rcases hm with rfl | rfl | rfl | rfl | rfl | rfl | rfl
  · obtain ⟨entries, hentries⟩ := decodeBody_options (i := 1) rfl rfl hbody
    have harm := checkArgs_of_check hiface hmember (by decide) hargs hforward
    exact forceOption_obeyed_iff rfl hentries harm
  · obtain ⟨entries, hentries⟩ := decodeBody_options (i := 2) rfl rfl hbody
    have harm := checkArgs_of_check hiface hmember (by decide) hargs hforward
    exact forceOption_obeyed_iff rfl hentries harm
  · obtain ⟨entries, hentries⟩ := decodeBody_options (i := 1) rfl rfl hbody
    have harm := checkArgs_of_check hiface hmember (by decide) hargs hforward
    cases harm
    exact removed_obeyed_iff rfl hentries (dictRemove_two _ _ _ _ _)
  · obtain ⟨entries, hentries⟩ := decodeBody_options (i := 2) rfl rfl hbody
    have harm := checkArgs_of_check hiface hmember (by decide) hargs hforward
    exact checkFileChooser_obeyed_iff hentries harm
  · obtain ⟨entries, hentries⟩ := decodeBody_options (i := 2) rfl rfl hbody
    have harm := checkArgs_of_check hiface hmember (by decide) hargs hforward
    exact checkFileChooser_obeyed_iff hentries harm
  · obtain ⟨entries, hentries⟩ := decodeBody_options (i := 2) rfl rfl hbody
    have harm := checkArgs_of_check hiface hmember (by decide) hargs hforward
    exact checkFileChooser_obeyed_iff hentries harm
  · obtain ⟨entries, hentries⟩ := decodeBody_options (i := 6) rfl rfl hbody
    have hstrip := stripNotifyPaths_of_check hiface hmember hforward
    simp only [stripNotifyPaths, hargs] at hstrip
    cases hstrip
    exact removed_obeyed_iff rfl hentries (dictRemove_three _ _ _ _ _ _)

/-- A screenshot call with the given options. -/
def screenshotCall (entries : Entries) : Message :=
  Message.call portalName portalPath "org.freedesktop.portal.Screenshot" "Screenshot"
    [.str "", .dict ['s'] ['v'] entries]

def screenshotMethod : SanitizedMethod :=
  { iface := "org.freedesktop.portal.Screenshot", member := "Screenshot",
    signature := "sa{sv}".toList, index := 1, rule := .forced "interactive" }

/-- Whether every entry with the key `key`, in the dictionary at `i`, is true. -/
def allTrue (key : String) (i : Nat) (args : List Value) : Bool :=
  match args[i]? with
  | some (.dict _ _ entries) =>
      entries.all fun e => !Value.hasKey key e || (e.2 matches .variant (.bool true))
  | _ => false

/-- What the caller of `check` forwards for a call of an identified client. -/
def forwardedArgs (msg : Message) : Option (List Value × Option (List Value) × Option FileRequest) :=
  match msg.args, check {} true msg with
  | .ok args, .forward a file => some (args, a, file)
  | _, _ => none

private theorem forwardedArgs_eq_some {msg : Message} {args : List Value}
    {a : Option (List Value)} {file : Option FileRequest}
    (h : forwardedArgs msg = some (args, a, file)) :
    msg.args = .ok args ∧ check {} true msg = .forward a file := by
  unfold forwardedArgs at h
  split at h
  · rename_i args' a' file' hargs hcheck
    cases h
    exact ⟨hargs, hcheck⟩
  · cases h

private theorem allTrue_of_obeyed {args : List Value} (h : screenshotMethod.Obeyed args) :
    allTrue "interactive" 1 args = true := by
  obtain ⟨entries, hentries, _, hall⟩ := h
  simp only [screenshotMethod] at hentries
  simp only [allTrue, hentries, List.all_eq_true, Bool.or_eq_true, Bool.not_eq_true']
  intro e he
  by_cases hkey : Value.hasKey "interactive" e
  · exact Or.inr (by rw [hall e he hkey])
  · exact Or.inl (by simpa using hkey)

theorem check_obeyed_iff_screenshot :
    ∃ args a file, screenshotMethod ∈ sanitizedMethods ∧
      screenshotMethod.IsCall (screenshotCall [(.str "interactive", .variant (.bool false))]) ∧
      (screenshotMethod.Obeyed (a.getD args) ↔ screenshotMethod.RepeatsObey args) ∧
      check {} true (screenshotCall [(.str "interactive", .variant (.bool false))]) =
        .forward a file := by
  have hsome : (forwardedArgs
      (screenshotCall [(.str "interactive", .variant (.bool false))])).isSome := by
    decide +kernel
  obtain ⟨⟨args, a, file⟩, h⟩ := Option.isSome_iff_exists.mp hsome
  obtain ⟨hargs, hcheck⟩ := forwardedArgs_eq_some h
  have hcall : screenshotMethod.IsCall
      (screenshotCall [(.str "interactive", .variant (.bool false))]) := ⟨rfl, rfl, rfl⟩
  exact ⟨args, a, file, List.mem_cons_self, hcall,
    check_obeyed_iff {} true _ _ args a file List.mem_cons_self hcall hargs hcheck, hcheck⟩

/-- A second `interactive` entry stays false. -/
theorem check_not_obeyed :
    ¬ ∀ (policy : Policy) (identified : Bool) (msg : Message) (m : SanitizedMethod)
        (args : List Value) (a : Option (List Value)) (file : Option FileRequest),
        m ∈ sanitizedMethods → m.IsCall msg → msg.args = .ok args →
        check policy identified msg = .forward a file → m.Obeyed (a.getD args) := by
  intro h
  have hbreaks : ((forwardedArgs (screenshotCall
      [(.str "interactive", .variant (.bool true)),
       (.str "interactive", .variant (.bool false))])).map
        fun f => allTrue "interactive" 1 (f.2.1.getD f.1)) = some false := by
    decide +kernel
  obtain ⟨⟨args, a, file⟩, hsome, hfalse⟩ := Option.map_eq_some_iff.mp hbreaks
  obtain ⟨hargs, hcheck⟩ := forwardedArgs_eq_some hsome
  have hobeyed := h {} true _ screenshotMethod args a file List.mem_cons_self ⟨rfl, rfl, rfl⟩
    hargs hcheck
  rw [allTrue_of_obeyed hobeyed] at hfalse
  cases hfalse

end Psbox.Portal
