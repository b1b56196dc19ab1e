import Mathlib.Data.List.Infix
import Psbox.DBus.Layout
import Psbox.Desktop.Entry
import Psbox.Foundations.Texts
import Psbox.Sandbox.Plan

/-!
# Devices of the Host

What psbox reads of the host's devices (`devices.rs`): the udev database, one file for each device, the
classes that a device belongs to, and the changes that inotify reports for the database.

A device is published under its node's name and its udev links. These are names that udev's rules and
drivers choose; `valid_dev_name` keeps them inside `/dev` and out of psbox's own directory there, and
`link_target` finds the way back to that directory (`names_lead_to_node`).
-/

namespace Psbox.Devices

open Psbox.Foundations
open Psbox.Desktop (Text lines splitOnce)
open Psbox.DBus (leNat leBytes leNat_leBytes length_leBytes)
open Psbox.Sandbox (DeviceClass)

/-- The major and the minor number of a device. -/
abbrev Number := Nat × Nat

/-! ## Section 1: Names -/

/-- `str::parse` for a `u32`. -/
def parseU32 (s : Text) : Option Nat :=
  let digits := match s with
    | '+' :: rest => rest
    | _ => s
  if digits ≠ [] ∧ digits.all Char.isDigit ∧ Nat.ofDigitChars 10 digits 0 < 2 ^ 32 then
    some (Nat.ofDigitChars 10 digits 0)
  else none

def decimal (n : Nat) : Text := Nat.toDigits 10 n

/-- `parse_db_name` -/
def parseDbName (name : Text) : Option Number :=
  match name with
  | 'c' :: rest =>
      match splitOnce ':' rest with
      | some (maj, min) =>
          match parseU32 maj, parseU32 min with
          | some a, some b => some (a, b)
          | _, _ => none
      | none => none
  | _ => none

/-- The name of a device's file in the udev database. -/
def dbName (d : Number) : Text :=
  'c' :: (decimal d.1 ++ ':' :: decimal d.2)

/-- `hidden_name` -/
def hiddenName (d : Number) : Text :=
  'c' :: (decimal d.1 ++ '-' :: decimal d.2)

/-- The name of psbox's directory in `/dev`. -/
def hiddenDir : Text := ".psbox".toList

/-- `valid_dev_name` -/
def validDevName (name : Text) : Bool :=
  name ≠ [] && name.head? ≠ some '/' && !decide (hiddenDir <+: name) &&
    (name.splitOn '/').all fun p => p ≠ [] && p ≠ ['.'] && p ≠ ['.', '.']

/-- `link_target` -/
def linkTarget (name hidden : Text) : Text :=
  (List.replicate (name.count '/') ['.', '.', '/']).flatten ++ (hiddenDir ++ '/' :: hidden)

/-! ## Section 2: The Database -/

/-- What there is to read about a device. -/
structure Host where
  /-- Its file in the udev database. -/
  db : Number → Option Text
  /-- Where the `subsystem` link in sysfs leads, by its last name. -/
  subsystem : Number → Option Text
  uevent : Number → Option Text
  /-- The input event nodes of the HID device that a `hidraw` node belongs to. -/
  hidNodes : Number → List Number

structure Device where
  number : Number
  subsystem : Text
  /-- The name of the node, relative to `/dev`. -/
  devname : Text
  /-- The udev symlinks. -/
  links : List Text
  /-- The newest first. -/
  props : List (Text × Text)
  tags : List Text
  gamepadHid : Bool

/-- `str::strip_prefix` -/
def stripPrefix (p s : Text) : Option Text :=
  if p <+: s then some (s.drop p.length) else none

/-- What a file of the database says. -/
structure Entry where
  devname : Option Text := none
  links : List Text := []
  props : List (Text × Text) := []
  tags : List Text := []

def Entry.read (e : Entry) (line : Text) : Entry :=
  match stripPrefix ['N', ':'] line with
  | some v => { e with devname := some v }
  | none =>
      match stripPrefix ['S', ':'] line with
      | some v => { e with links := e.links ++ [v] }
      | none =>
          match stripPrefix ['G', ':'] line with
          | some v => { e with tags := e.tags ++ [v] }
          | none =>
              match (stripPrefix ['E', ':'] line).bind (splitOnce '=') with
              | some kv => { e with props := kv :: e.props }
              | none => e

def Device.prop (d : Device) (key : String) : Option Text :=
  d.props.lookup key.toList

/-- `u16::from_str_radix`, base 16 -/
def parseHex (s : Text) : Option Nat :=
  let digits := match s with
    | '+' :: rest => rest
    | _ => s
  let value (c : Char) : Option Nat :=
    if c.isDigit then some (c.toNat - '0'.toNat)
    else if 'a' ≤ c ∧ c ≤ 'f' then some (c.toNat - 'a'.toNat + 10)
    else if 'A' ≤ c ∧ c ≤ 'F' then some (c.toNat - 'A'.toNat + 10)
    else none
  if digits = [] then none
  else (digits.foldlM (fun n c => (value c).map fun v => n * 16 + v) 0).filter (· < 2 ^ 16)

/-- Whether a device belongs to a class. -/
def matchesClass (d : Device) : DeviceClass → Bool
  | .gpu => d.subsystem = "drm".toList && decide ("dri/renderD".toList <+: d.devname)
  | .camera => d.subsystem = "video4linux".toList &&
      (d.prop "ID_V4L_CAPABILITIES").any fun c => decide (":capture:".toList <:+: c)
  | .gamepad =>
      (d.subsystem = "input".toList && decide ("input/".toList <+: d.devname) &&
        d.prop "ID_INPUT_JOYSTICK" = some ['1'] && d.prop "ID_INPUT_KEYBOARD" ≠ some ['1'] &&
          !d.tags.contains "power-switch".toList) || d.gamepadHid
  | .alsa => d.subsystem = "sound".toList && decide ("snd/".toList <+: d.devname)
  | .securityKey => d.subsystem = "hidraw".toList && d.prop "ID_SECURITY_TOKEN" = some ['1']
  | .usb vendor product =>
      (d.prop "ID_VENDOR_ID").bind parseHex = some vendor && (d.prop "ID_MODEL_ID").bind parseHex = some product
  | .audio => false

/-- `classify` -/
def classify (d : Device) (classes : List DeviceClass) : List DeviceClass :=
  classes.filter (matchesClass d)

/-- `read_device`. How far `hid_has_gamepad` follows the nodes of HID devices is bounded by a count. -/
def readDevice (host : Host) (depth : Nat) (n : Number) : Option Device := do
  let db ← host.db n
  let subsystem ← host.subsystem n
  let e := (lines db).foldl Entry.read {}
  let named := e.devname.or ((host.uevent n).bind fun text => (lines text).findSome? (stripPrefix "DEVNAME=".toList))
  let devname ← named.filter validDevName
  some
    { number := n
      subsystem := subsystem
      devname := devname
      links := e.links.filter validDevName
      props := e.props
      tags := e.tags
      gamepadHid := subsystem = "hidraw".toList &&
        match depth with
        | 0 => false
        | depth + 1 => (host.hidNodes n).any fun m => (readDevice host depth m).any fun d => matchesClass d .gamepad }

/-! ## Section 3: Changes -/

/-- A change of the database. -/
inductive Change where
  /-- The device was added, or its data changed. -/
  | updated (d : Number)
  | removed (d : Number)
  /-- Events were lost. -/
  | rescan
  deriving DecidableEq, Repr

def inQOverflow : Nat := 0x4000
def inDelete : Nat := 0x200
def inMovedFrom : Nat := 0x40

/-- The loop over the bytes that a read of an inotify descriptor gives: of each event the watch, the mask and
the name, as far as the bytes go. `lossy` is `String::from_utf8_lossy`. -/
def parseWith {β : Type} (lossy : List UInt8 → Text) (f : Int32 → Nat → Text → Option β) (buf : List UInt8) : List β :=
  if 16 ≤ buf.length then
    let len := leNat ((buf.drop 12).take 4)
    let body := buf.drop 16
    let name := lossy ((body.take len).takeWhile (· ≠ 0))
    (f (UInt32.ofNat (leNat (buf.take 4))).toInt32 (leNat ((buf.drop 4).take 4)) name).toList ++ parseWith lossy f (body.drop len)
  else []
termination_by buf.length
decreasing_by
  simp only [List.length_drop]
  omega

/-- An event as `Inotify::read` gives it. -/
structure Event where
  wd : Int32
  mask : Nat
  name : Text
  deriving DecidableEq, Repr

/-- `parse` (`sys/inotify.rs`) -/
def parse (lossy : List UInt8 → Text) : List UInt8 → List Event :=
  parseWith lossy fun wd mask name => some ⟨wd, mask, name⟩

/-- What an event says about the database. -/
def changeOf (mask : Nat) (name : Text) : Option Change :=
  if mask &&& inQOverflow ≠ 0 then some .rescan
  else
    match parseDbName name with
    | none => none
    | some d => if mask &&& (inDelete ||| inMovedFrom) ≠ 0 then some (.removed d) else some (.updated d)

/-- `parse_events` -/
def parseEvents (lossy : List UInt8 → Text) : List UInt8 → List Change :=
  parseWith lossy fun _ mask name => changeOf mask name

/-! ## Section 4: Numbers as Names -/

theorem decimal_injective : Function.Injective decimal := by
  intro n m h
  calc n = Nat.ofDigitChars 10 (decimal n) 0 := Nat.ofDigitChars_ten_toDigits.symm
    _ = Nat.ofDigitChars 10 (decimal m) 0 := by rw [h]
    _ = m := Nat.ofDigitChars_ten_toDigits

theorem isDigit_decimal {n : Nat} {c : Char} (h : c ∈ decimal n) : c.isDigit = true :=
  Nat.isDigit_of_mem_toDigits (by decide) (by decide) h

theorem not_mem_decimal {n : Nat} {c : Char} (hc : c.isDigit = false) : c ∉ decimal n := by
  intro h
  rw [isDigit_decimal h] at hc
  cases hc

theorem decimal_ne_nil (n : Nat) : decimal n ≠ [] := by
  intro h
  have hlen : 0 < (Nat.toDigits 10 n).length := Nat.length_toDigits_pos
  rw [decimal] at h
  rw [h] at hlen
  exact absurd hlen (Nat.lt_irrefl 0)

theorem parseU32_decimal {n : Nat} (h : n < 2 ^ 32) : parseU32 (decimal n) = some n := by
  have hdigits : (match decimal n with
      | '+' :: rest => rest
      | _ => decimal n) = decimal n := by
    split
    · rename_i rest heq
      have hplus : '+' ∈ decimal n := by simp [heq]
      exact absurd hplus (not_mem_decimal (by decide))
    · rfl
  have hvalue : Nat.ofDigitChars 10 (decimal n) 0 = n := Nat.ofDigitChars_ten_toDigits
  have hall : (decimal n).all Char.isDigit = true := List.all_eq_true.mpr fun c hc => isDigit_decimal hc
  unfold parseU32
  simp only [hdigits]
  rw [hvalue, if_pos ⟨decimal_ne_nil n, hall, h⟩]

theorem splitOnce_append {c : Char} {before after : Text} (h : c ∉ before) :
    splitOnce c (before ++ c :: after) = some (before, after) :=
  breakAt_append h

/-- The name of a device's file gives its numbers back. -/
theorem parseDbName_dbName {d : Number} (h : d.1 < 2 ^ 32 ∧ d.2 < 2 ^ 32) : parseDbName (dbName d) = some d := by
  unfold parseDbName dbName
  simp only [splitOnce_append (not_mem_decimal (by decide) : ':' ∉ decimal d.1), parseU32_decimal h.1,
    parseU32_decimal h.2]

/-- Each device has an entry of its own in psbox's directory. -/
theorem hiddenName_injective : Function.Injective hiddenName := by
  intro d d' h
  have hdash : ∀ n, '-' ∉ decimal n := fun n => not_mem_decimal (by decide)
  have hparts := congrArg (splitOnce '-') (List.cons.inj h).2
  rw [splitOnce_append (hdash d.1), splitOnce_append (hdash d'.1)] at hparts
  obtain ⟨hmajor, hminor⟩ := Prod.mk.inj (Option.some.inj hparts)
  exact Prod.ext (decimal_injective hmajor) (decimal_injective hminor)

/-! ## Section 5: Where Links Lead -/

/-- A symlink's target is followed from the directory that the link is in, name by name. -/
def follow (dir : List Text) (target : Text) : List Text :=
  (target.splitOn '/').foldl (fun d p => if p = ['.', '.'] then d.dropLast else if p = [] ∨ p = ['.'] then d else d ++ [p]) dir

/-- The directory of `/dev` that a name is in. -/
def devDir (name : Text) : List Text :=
  "dev".toList :: (name.splitOn '/').dropLast

theorem length_splitOn (c : Char) (s : Text) : (s.splitOn c).length = s.count c + 1 := by
  induction s with
  | nil => rfl
  | cons x s ih =>
      rw [List.splitOn_cons_eq_if_modifyHead]
      by_cases h : x = c
      · simp [h, ih]
      · simp [h, ih]

theorem linkTarget_splitOn (name : Text) {hidden : Text} (h : '/' ∉ hidden) :
    (linkTarget name hidden).splitOn '/' = List.replicate (name.count '/') ['.', '.'] ++ [hiddenDir, hidden] := by
  unfold linkTarget
  induction name.count '/' with
  | zero =>
      have hdir : '/' ∉ hiddenDir := by decide
      rw [List.replicate_zero, List.flatten_nil, List.nil_append, List.replicate_zero, List.nil_append,
        List.splitOn_append_cons_self_of_not_mem hdir, List.splitOn_eq_singleton h]
  | succ n ih =>
      have hdots : '/' ∉ ['.', '.'] := by decide
      rw [List.replicate_succ, List.flatten_cons, List.append_assoc]
      change (['.', '.'] ++ '/' :: ((List.replicate n ['.', '.', '/']).flatten ++ (hiddenDir ++ '/' :: hidden))).splitOn '/' = _
      rw [List.splitOn_append_cons_self_of_not_mem hdots, ih]
      rfl

/-- From a directory, as many steps up as it has names lead out of all of them. -/
theorem foldl_up (dir names : List Text) :
    (List.replicate names.length ['.', '.']).foldl
      (fun d p => if p = ['.', '.'] then d.dropLast else if p = [] ∨ p = ['.'] then d else d ++ [p]) (dir ++ names) = dir := by
  induction names using List.reverseRecOn with
  | nil => simp
  | append_singleton names p ih =>
      rw [List.length_append, List.length_singleton, List.replicate_succ, List.foldl_cons, if_pos rfl,
        ← List.append_assoc, List.dropLast_concat]
      exact ih

theorem hiddenName_part (d : Number) : '/' ∉ hiddenName d ∧ hiddenName d ≠ [] ∧ hiddenName d ≠ ['.'] ∧ hiddenName d ≠ ['.', '.'] := by
  have hslash : ∀ n, '/' ∉ decimal n := fun n => not_mem_decimal (by decide)
  unfold hiddenName
  simp [hslash]

/-- A link in `/dev`, made for the node of a device. -/
theorem follow_linkTarget (name : Text) (d : Number) :
    follow (devDir name) (linkTarget name (hiddenName d)) = ["dev".toList, hiddenDir, hiddenName d] := by
  obtain ⟨hslash, hne, hdot, hdots⟩ := hiddenName_part d
  have hlength : name.count '/' = (name.splitOn '/').dropLast.length := by
    rw [List.length_dropLast, length_splitOn, Nat.add_sub_cancel]
  have hup := foldl_up ["dev".toList] (name.splitOn '/').dropLast
  rw [follow, linkTarget_splitOn name hslash, List.foldl_append, hlength, devDir]
  rw [List.singleton_append] at hup
  rw [hup]
  simp [hne, hdot, hdots, hiddenDir]

theorem validDevName_parts {name : Text} (h : validDevName name = true) :
    (∀ p ∈ name.splitOn '/', p ≠ [] ∧ p ≠ ['.'] ∧ p ≠ ['.', '.']) ∧ (name.splitOn '/').head? ≠ some hiddenDir := by
  unfold validDevName at h
  simp only [Bool.and_eq_true, List.all_eq_true, decide_eq_true_eq, Bool.not_eq_true', decide_eq_false_iff_not] at h
  obtain ⟨⟨_, hhidden⟩, hparts⟩ := h
  refine ⟨fun p hp => ⟨(hparts p hp).1.1, (hparts p hp).1.2, (hparts p hp).2⟩, fun hhead => hhidden ?_⟩
  -- A name in the directory starts with the directory's name.
  obtain ⟨rest, hsplit⟩ := List.head?_eq_some_iff.mp hhead
  have hname : name = ['/'].intercalate (hiddenDir :: rest) := by
    rw [← hsplit, List.intercalate_splitOn]
  rw [hname]
  cases rest with
  | nil => simp
  | cons p rest =>
      rw [List.intercalate_cons_cons]
      exact ⟨_, by rw [List.append_assoc]⟩

/-- What is read about a device: its numbers, and names that can be used. -/
theorem readDevice_valid {host : Host} {depth : Nat} {n : Number} {d : Device} (h : readDevice host depth n = some d) :
    d.number = n ∧ ∀ name ∈ d.devname :: d.links, validDevName name = true := by
  unfold readDevice at h
  obtain ⟨db, _, h⟩ := Option.bind_eq_some_iff.mp h
  obtain ⟨subsystem, _, h⟩ := Option.bind_eq_some_iff.mp h
  obtain ⟨devname, hdevname, h⟩ := Option.bind_eq_some_iff.mp h
  obtain rfl := Option.some.inj h
  refine ⟨rfl, List.forall_mem_cons.mpr ⟨(Option.filter_eq_some_iff.mp hdevname).2, fun name hlink => ?_⟩⟩
  exact (List.mem_filter.mp hlink).2

/-- Every name that a device is published under, whatever the database says: it goes down from `/dev` name by
name, and not into psbox's own directory, and the link there leads to the device's own entry in that
directory. -/
theorem names_lead_to_node (host : Host) (depth : Nat) (n : Number) :
    ∀ d ∈ readDevice host depth n, ∀ name ∈ d.devname :: d.links,
      (∀ p ∈ name.splitOn '/', p ≠ [] ∧ p ≠ ['.'] ∧ p ≠ ['.', '.']) ∧ (name.splitOn '/').head? ≠ some hiddenDir ∧
        follow (devDir name) (linkTarget name (hiddenName d.number)) = ["dev".toList, hiddenDir, hiddenName n] ∧
        ∀ n', hiddenName n' = hiddenName n → n' = n := by
  intro d hd name hname
  obtain ⟨rfl, hvalid⟩ := readDevice_valid hd
  obtain ⟨hparts, hhead⟩ := validDevName_parts (hvalid name hname)
  exact ⟨hparts, hhead, follow_linkTarget name d.number, fun n' hsame => hiddenName_injective hsame⟩

/-- A host with one camera, with a link. -/
def cameraHost : Host where
  db n := if n = (81, 0) then some "N:video0\nS:v4l/by-id/cam\nE:ID_V4L_CAPABILITIES=:capture:\n".toList else none
  subsystem _ := some "video4linux".toList
  uevent _ := none
  hidNodes _ := []

theorem names_lead_to_node_camera :
    ∃ d ∈ readDevice cameraHost 0 (81, 0), "v4l/by-id/cam".toList ∈ d.devname :: d.links ∧
      follow (devDir "v4l/by-id/cam".toList) (linkTarget "v4l/by-id/cam".toList (hiddenName d.number)) =
        ["dev".toList, hiddenDir, hiddenName (81, 0)] := by
  have hread : (readDevice cameraHost 0 (81, 0)).any (fun d => "v4l/by-id/cam".toList ∈ d.devname :: d.links) = true := by
    decide
  obtain ⟨d, hd, hname⟩ := (Option.any_eq_true _ _).mp hread
  have hname : "v4l/by-id/cam".toList ∈ d.devname :: d.links := of_decide_eq_true hname
  obtain ⟨_, _, hfollow, _⟩ := names_lead_to_node cameraHost 0 (81, 0) d hd _ hname
  exact ⟨d, hd, hname, hfollow⟩

/-! ## Section 6: What the Kernel Writes -/

/-- An event as the kernel writes it: the name is filled up with zero bytes. -/
structure Written where
  wd : Int32
  mask : Nat
  cookie : Nat
  name : List UInt8
  padding : Nat

def Written.bytes (e : Written) : List UInt8 :=
  leBytes 4 e.wd.toUInt32.toNat ++ leBytes 4 e.mask ++ leBytes 4 e.cookie ++ leBytes 4 (e.name.length + e.padding) ++
    (e.name ++ List.replicate e.padding 0)

/-- The numbers fit, and the name has no zero byte of its own. -/
def Written.Valid (e : Written) : Prop :=
  e.mask < 2 ^ 32 ∧ e.name.length + e.padding < 2 ^ 32 ∧ 0 ∉ e.name

theorem leNat_leBytes_four {v : Nat} (h : v < 2 ^ 32) : leNat (leBytes 4 v) = v := by
  rw [leNat_leBytes]
  exact Nat.mod_eq_of_lt h

theorem takeWhile_padded {name : List UInt8} (h : 0 ∉ name) (padding : Nat) :
    (name ++ List.replicate padding 0).takeWhile (· ≠ 0) = name := by
  have hname : ∀ b ∈ name, decide (b ≠ 0) = true := by
    intro b hb
    apply decide_eq_true
    intro hzero
    exact h (hzero ▸ hb)
  cases padding with
  | zero =>
      rw [List.replicate_zero, List.append_nil]
      exact List.takeWhile_eq_self_iff.mpr hname
  | succ padding => exact takeWhile_append_cons hname (by simp)

/-- What there is to read in the first bytes of an event: when its numbers are there, an event whose name goes
as far as the bytes do. -/
def Written.cut (e : Written) (n : Nat) : List Written :=
  if n < 16 then [] else [{ e with name := e.name.take (n - 16) }]

theorem takeWhile_cut {name : List UInt8} (h : 0 ∉ name) (padding n : Nat) :
    ((name ++ List.replicate padding 0).take n).takeWhile (· ≠ 0) = name.take n := by
  rw [List.take_append, List.take_replicate]
  exact takeWhile_padded (fun hmem => h (List.mem_of_mem_take hmem)) _

theorem parseWith_header {β : Type} (lossy : List UInt8 → Text) (f : Int32 → Nat → Text → Option β)
    {wd mask cookie len : List UInt8} (hwd : wd.length = 4) (hmask : mask.length = 4) (hcookie : cookie.length = 4)
    (hlen : len.length = 4) (body : List UInt8) :
    parseWith lossy f (wd ++ (mask ++ (cookie ++ (len ++ body)))) =
      (f (UInt32.ofNat (leNat wd)).toInt32 (leNat mask) (lossy ((body.take (leNat len)).takeWhile (· ≠ 0)))).toList ++
        parseWith lossy f (body.drop (leNat len)) := by
  match wd, mask, cookie, len, hwd, hmask, hcookie, hlen with
  | [_, _, _, _], [_, _, _, _], [_, _, _, _], [_, _, _, _], _, _, _, _ =>
      rw [parseWith, if_pos (by simp)]
      rfl

/-- An event with some bytes for its name is read, and the bytes after it. -/
theorem parseWith_numbers {β : Type} (lossy : List UInt8 → Text) (f : Int32 → Nat → Text → Option β) {e : Written}
    (h : e.Valid) (body : List UInt8) :
    parseWith lossy f (leBytes 4 e.wd.toUInt32.toNat ++ leBytes 4 e.mask ++ leBytes 4 e.cookie ++
        leBytes 4 (e.name.length + e.padding) ++ body) =
      (f e.wd e.mask (lossy ((body.take (e.name.length + e.padding)).takeWhile (· ≠ 0)))).toList ++
        parseWith lossy f (body.drop (e.name.length + e.padding)) := by
  obtain ⟨hmask, hlen, _⟩ := h
  have hwd : (UInt32.ofNat (leNat (leBytes 4 e.wd.toUInt32.toNat))).toInt32 = e.wd := by
    rw [leNat_leBytes_four e.wd.toUInt32.toNat_lt, UInt32.ofNat_toNat, Int32.toInt32_toUInt32]
  simp only [List.append_assoc]
  rw [parseWith_header lossy f (length_leBytes 4 _) (length_leBytes 4 _) (length_leBytes 4 _) (length_leBytes 4 _), hwd,
    leNat_leBytes_four hmask, leNat_leBytes_four hlen]

theorem parseWith_bytes {β : Type} (lossy : List UInt8 → Text) (f : Int32 → Nat → Text → Option β) {e : Written}
    (h : e.Valid) (rest : List UInt8) :
    parseWith lossy f (e.bytes ++ rest) = (f e.wd e.mask (lossy e.name)).toList ++ parseWith lossy f rest := by
  have hbody : (e.name ++ List.replicate e.padding 0).length = e.name.length + e.padding := by simp
  rw [Written.bytes, List.append_assoc, parseWith_numbers lossy f h, List.take_left' hbody, List.drop_left' hbody,
    takeWhile_padded h.2.2]

/-- The first bytes of an event. -/
theorem parseWith_prefix {β : Type} (lossy : List UInt8 → Text) (f : Int32 → Nat → Text → Option β) {e : Written}
    (h : e.Valid) {rest : List UInt8} (hrest : rest <+: e.bytes) :
    parseWith lossy f rest = (e.cut rest.length).filterMap fun e => f e.wd e.mask (lossy e.name) := by
  unfold Written.cut
  split
  · rename_i hshort
    rw [parseWith, if_neg (by omega), List.filterMap_nil]
  · rename_i hlong
    -- The numbers are there, and some of the name and what it is filled up with.
    obtain ⟨body, hbody, rfl⟩ : ∃ body, body <+: e.name ++ List.replicate e.padding 0 ∧
        rest = leBytes 4 e.wd.toUInt32.toNat ++ leBytes 4 e.mask ++ leBytes 4 e.cookie ++
          leBytes 4 (e.name.length + e.padding) ++ body := by
      refine ⟨(e.name ++ List.replicate e.padding 0).take (rest.length - 16), List.take_prefix _ _, ?_⟩
      have hnumbers : (leBytes 4 e.wd.toUInt32.toNat ++ leBytes 4 e.mask ++ leBytes 4 e.cookie ++
          leBytes 4 (e.name.length + e.padding)).length = 16 := by
        simp [length_leBytes]
      have htake := List.prefix_iff_eq_take.mp hrest
      rw [Written.bytes, List.take_append, hnumbers, List.take_of_length_le (by omega)] at htake
      exact htake
    have hlength : body.length ≤ e.name.length + e.padding := by
      simpa using hbody.length_le
    rw [parseWith_numbers lossy f h, List.take_of_length_le hlength, List.drop_eq_nil_of_le hlength,
      List.prefix_iff_eq_take.mp hbody, takeWhile_cut h.2.2, parseWith, if_neg (by simp), List.append_nil]
    have hcount : (leBytes 4 e.wd.toUInt32.toNat ++ leBytes 4 e.mask ++ leBytes 4 e.cookie ++
        leBytes 4 (e.name.length + e.padding) ++ (e.name ++ List.replicate e.padding 0).take body.length).length - 16 =
          body.length := by
      rw [← List.prefix_iff_eq_take.mp hbody]
      simp [length_leBytes]
      omega
    rw [hcount, List.filterMap_cons]
    cases f e.wd e.mask (lossy (e.name.take body.length)) <;> rfl

/-- Of events one after the other, and the first bytes of another one. -/
theorem parseWith_events {β : Type} (lossy : List UInt8 → Text) (f : Int32 → Nat → Text → Option β) {es : List Written}
    (h : ∀ e ∈ es, e.Valid) {last : Written} (hlast : last.Valid) {rest : List UInt8} (hrest : rest <+: last.bytes) :
    parseWith lossy f (es.flatMap Written.bytes ++ rest) =
      (es ++ last.cut rest.length).filterMap fun e => f e.wd e.mask (lossy e.name) := by
  induction es with
  | nil => exact parseWith_prefix lossy f hlast hrest
  | cons e es ih =>
      obtain ⟨he, hes⟩ := List.forall_mem_cons.mp h
      rw [List.flatMap_cons, List.append_assoc, parseWith_bytes lossy f he, ih hes, List.cons_append, List.filterMap_cons]
      cases f e.wd e.mask (lossy e.name) <;> rfl

/-- The changes of the database are read from the events that the kernel writes for them, in their order, and
so are the events of any other directory. Of an event that is cut off nothing is read when its numbers are not all
there, and otherwise an event with as much of the name as there is. A file that udev writes for a device names the
device. -/
theorem changes_read_back (lossy : List UInt8 → Text) :
    (∀ (es : List Written) (last : Written) (rest : List UInt8), (∀ e ∈ es, e.Valid) → last.Valid → rest <+: last.bytes →
      parseEvents lossy (es.flatMap Written.bytes ++ rest) =
          (es ++ last.cut rest.length).filterMap (fun e => changeOf e.mask (lossy e.name)) ∧
        parse lossy (es.flatMap Written.bytes ++ rest) =
          (es ++ last.cut rest.length).map fun e => ⟨e.wd, e.mask, lossy e.name⟩) ∧
      ∀ (mask : Nat) (d : Number), d.1 < 2 ^ 32 → d.2 < 2 ^ 32 → mask &&& inQOverflow = 0 →
        changeOf mask (dbName d) =
          some (if mask &&& (inDelete ||| inMovedFrom) ≠ 0 then .removed d else .updated d) := by
  constructor
  · intro es last rest hvalid hlast hrest
    refine ⟨parseWith_events lossy _ hvalid hlast hrest, ?_⟩
    rw [parse, parseWith_events lossy _ hvalid hlast hrest, List.filterMap_eq_map']
  · intro mask d hmajor hminor hmask
    unfold changeOf
    rw [if_neg (by simpa using hmask), parseDbName_dbName ⟨hmajor, hminor⟩]
    exact (apply_ite some _ _ _).symm

/-- A device is taken out, the queue overflows, and the event of another device is cut off within its name. -/
def cameraEvents : List Written :=
  [⟨1, inDelete, 0, [99, 56, 49, 58, 48], 3⟩, ⟨-1, inQOverflow, 0, [], 0⟩]

theorem changes_read_back_camera :
    let cut : Written := ⟨1, 2, 0, [99, 49, 51, 58, 54, 52], 2⟩
    parseEvents (fun name => name.map fun b => Char.ofNat b.toNat)
        (cameraEvents.flatMap Written.bytes ++ cut.bytes.take 21) = [.removed (81, 0), .rescan, .updated (13, 6)] ∧
      (parse (fun name => name.map fun b => Char.ofNat b.toNat)
        (cameraEvents.flatMap Written.bytes ++ cut.bytes.take 21)).map Event.wd = [1, -1, 1] := by
  intro cut
  obtain ⟨hchanges, hevents⟩ := (changes_read_back fun name => name.map fun b => Char.ofNat b.toNat).1 cameraEvents cut
    (cut.bytes.take 21) (by simp [cameraEvents, Written.Valid, inDelete, inQOverflow])
    (by simp [cut, Written.Valid]) (List.take_prefix _ _)
  rw [hchanges, hevents]
  decide

end Psbox.Devices
