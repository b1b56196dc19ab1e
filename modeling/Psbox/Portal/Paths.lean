import Psbox.Portal.Policy

/-!
# Object Paths, File URIs and File Chooser Results

How the gateway changes the messages it passes on: the sender segment of request
and session paths (`swap_sender`, `rewrite_paths`), and the host file URIs in the
results of a file chooser (`map_file_results`). Also which calls and signals are
the gateway's at all (`service_for`, `signal_forwarded`).
-/

namespace Psbox.Portal

open Psbox.DBus

/-! ## Section 1: Which Messages Are the Gateway's -/

/-- The gateway service a call is for. Calls to the gateway's own unique name are
attributed by object path. -/
def serviceFor (dest gatewayUnique path : String) : Option String :=
  if gatewayNames.contains dest then some dest
  else if dest ≠ gatewayUnique then none
  else if path = portalPath ∨ startsWith path requestPrefix ∨ startsWith path sessionPrefix then
    some portalName
  else if path = notificationsPath then some notificationsName
  else none

/-- Whether a signal arriving on a client's host connection is passed to the
client: only portal and notification signals, on their own objects. -/
def signalForwarded (path iface : String) : Bool :=
  let portalObject := path == portalPath || startsWith path (portalPath ++ "/")
  let notificationsObject := path == notificationsPath
  if iface = "org.freedesktop.DBus.Properties" then portalObject || notificationsObject
  else if iface = notificationsName then notificationsObject
  else portalObject && startsWith iface "org.freedesktop.portal."

/-! ## Section 2: Request and Session Paths -/

/-- The source's `str::strip_prefix`. -/
def stripPrefix (pre s : List Char) : Option (List Char) :=
  if pre.isPrefixOf s then some (s.drop pre.length) else none

theorem stripPrefix_eq_some {pre s rest : List Char} :
    stripPrefix pre s = some rest ↔ s = pre ++ rest := by
  unfold stripPrefix
  split
  · rename_i hpre
    obtain ⟨tail, rfl⟩ := List.isPrefixOf_iff_prefix.mp hpre
    rw [List.drop_left, Option.some.injEq, List.append_cancel_left_eq]
  · rename_i hpre
    refine ⟨(fun h => by cases h), ?_⟩
    rintro rfl
    exact absurd (List.isPrefixOf_iff_prefix.mpr (List.prefix_append _ _)) hpre

/-- The text before and after the first slash, or all of it and nothing. -/
def splitSegment (s : List Char) : List Char × List Char :=
  (s.takeWhile (· ≠ '/'), (s.dropWhile (· ≠ '/')).drop 1)

/-- Swaps the sender segment after one of the two prefixes. -/
def swapAfter (pre path src dst : List Char) : Option (List Char) :=
  match stripPrefix pre path with
  | none => none
  | some rest =>
      let (seg, tail) := splitSegment rest
      if seg ≠ src then none
      else if tail = [] then some (pre ++ dst)
      else some (pre ++ dst ++ ['/'] ++ tail)

/-- Swaps the sender segment of a portal request or session path. -/
def swapSender (path src dst : String) : Option String :=
  ((swapAfter requestPrefix.toList path.toList src.toList dst.toList).or
    (swapAfter sessionPrefix.toList path.toList src.toList dst.toList)).map String.ofList

/-- Rewrites request and session paths in the header and body of `msg`. -/
def rewritePaths (msg : Message) (src dst : String) : Message :=
  let msg := match msg.path.bind (swapSender · src dst) with
    | some p => { msg with path := some p }
    | none => msg
  if !(msg.signature.contains 'o' || msg.signature.contains 'v') then msg
  else
    match msg.args with
    | .error _ => msg
    | .ok args =>
        if Value.anyPathList (fun p => (swapSender p src dst).isSome) args then
          msg.setBody (Value.mapPathsList (swapSender · src dst) args)
        else msg

/-- Only the path and the body of a message are rewritten. -/
theorem rewritePaths_eq (m : Message) (src dst : String) :
    ∃ path signature body,
      rewritePaths m src dst = { m with path := path, signature := signature, body := body } := by
  unfold rewritePaths
  cases m.path.bind (swapSender · src dst) <;> simp only
  all_goals
    split
    · exact ⟨_, _, _, rfl⟩
    · split
      · exact ⟨_, _, _, rfl⟩
      · split <;> exact ⟨_, _, _, rfl⟩

/-! ## Section 3: File URIs -/

theorem utf8_eq (s : String) : utf8 s = s.toList.flatMap String.utf8EncodeChar := by
  show s.toByteArray.data.toList = _
  rw [← String.utf8Encode_toList]
  simp [List.utf8Encode]

/-- A host path, as bytes. -/
abbrev HostPath := List UInt8

/-- The value of a hexadecimal digit. -/
def hexDigit (b : UInt8) : Option UInt8 :=
  if '0'.toUInt8 ≤ b ∧ b ≤ '9'.toUInt8 then some (b - '0'.toUInt8)
  else if 'a'.toUInt8 ≤ b ∧ b ≤ 'f'.toUInt8 then some (b - 'a'.toUInt8 + 10)
  else if 'A'.toUInt8 ≤ b ∧ b ≤ 'F'.toUInt8 then some (b - 'A'.toUInt8 + 10)
  else none

/-- `u8::from_str_radix(_, 16)` of two bytes, which takes a leading plus sign. -/
def hexByte (hi lo : UInt8) : Option UInt8 :=
  if hi = '+'.toUInt8 then hexDigit lo
  else do
    let h ← hexDigit hi
    let l ← hexDigit lo
    some (h * 16 + l)

/-- Decodes the percent escapes of a URI's path. -/
def percentDecode : List UInt8 → Option HostPath
  | [] => some []
  | [b] => some [b]
  | [b, c] => some [b, c]
  | b :: hi :: lo :: rest =>
      if b = '%'.toUInt8 then do
        let c ← hexByte hi lo
        let out ← percentDecode rest
        some (c :: out)
      else (percentDecode (hi :: lo :: rest)).map (b :: ·)

/-- Decodes a `file://` URI into a path. -/
def uriToPath (uri : String) : Option HostPath :=
  match stripPrefix "file://".toList uri.toList with
  | none => none
  | some rest =>
      let path := (stripPrefix "localhost".toList rest).getD rest
      if path.head? = some '/' then percentDecode (utf8 (String.ofList path)) else none

/-- One byte of a path in a URI. -/
def percentEncode (b : UInt8) : List Char :=
  let c := Char.ofNat b.toNat
  if c.isAlphanum ∨ c ∈ ['/', '-', '_', '.', '~'] then [c]
  else ['%', Nat.digitChar (b.toNat / 16) |>.toUpper, Nat.digitChar (b.toNat % 16) |>.toUpper]

/-- Encodes a path as a `file://` URI. -/
def pathToUri (path : HostPath) : String :=
  String.ofList ("file://".toList ++ path.flatMap percentEncode)

/-! ## Section 4: File Chooser Results -/

/-- `Host::expose`: the path in the sandbox at which a host file is made visible,
writable or not, when it can be. -/
abbrev Expose := HostPath → Bool → Option HostPath

/-- The sandbox URI for a host URI, when the file can be exposed. -/
def exposeUri (expose : Expose) (kind : FileRequest) (uri : String) : Option String := do
  let path ← uriToPath uri
  let p ← expose path (kind == .saveFile)
  some (pathToUri p)

/-- The results of a screenshot: its `uri`, exposed or taken away. -/
def mapScreenshot (expose : Expose) (results : Value) : Value :=
  match ((results.dictGet "uri").bind Value.asStr).bind (exposeUri expose .screenshot) with
  | some uri => results.dictSet "uri" (.str uri)
  | none => results.dictRemove "uri"

/-- The results of a file chooser: the `uris` that can be exposed. -/
def mapUris (expose : Expose) (kind : FileRequest) (results : Value) : Value :=
  match results.dictGet "uris" with
  | some (.array _ uris) =>
      results.dictSet "uris"
        (.array ['s'] (((uris.filterMap Value.asStr).filterMap (exposeUri expose kind)).map .str))
  | _ => results

/-- Replaces host file URIs in a file chooser response with sandbox paths. -/
def mapFileResults (expose : Expose) (kind : FileRequest) (args : List Value) : List Value :=
  if args.head?.bind Value.asU32 ≠ some 0 then args
  else
    match kind with
    | .screenshot => changeArg 1 (mapScreenshot expose) args
    | _ => changeArg 1 (mapUris expose kind) args

end Psbox.Portal
