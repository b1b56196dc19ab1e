import Psbox.Config.Valid
import Psbox.Sandbox.Keys

/-!
# Reading a Printed Config

When the JSON that `psbox config` prints for a config is read as a config again (`printed_reads_back_iff`).
-/

namespace Psbox.Config

open Psbox.Foundations
open Psbox.Foundations.Report (accepts_pure accepts_bind accepts_each_map accepts_each_filterMap)
open Psbox.Sandbox (MountMode DeviceClass Cache Dbus DbusMode NetworkSetting Xwayland XwaylandMode XwaylandScale OpenIn
  Links validWord)
open Checker

/-! ## Section 1: Printed Objects -/

/-- A print has no key that is not known. -/
private theorem known_collect {path : String} {fields : List (String × Value)} {allowed : List String}
    (h : ∀ e ∈ fields, e.1 ∈ allowed) : (known path (collect fields) allowed).Accepts () :=
  accepts_known.mpr fun e he => h e (mem_collect he)

private theorem bool_written {path key : String} {m : Map} {default b : Bool} (h : m.lookup key = some (.bool b)) :
    (bool path m key default).Accepts b :=
  accepts_bool.mpr (Or.inl h)

private theorem string_written {path key s : String} {m : Map} (h : m.lookup key = some (.str s)) :
    (string path m key).Accepts (some s) :=
  accepts_string.mpr (Or.inl ⟨s, h, rfl⟩)

private theorem strings_written {path key : String} {m : Map} {ss : List String} (h : m.lookup key = some (strings ss)) :
    (Checker.strings path m key).Accepts ss :=
  accepts_strings.mpr (Or.inl h)

private theorem path_written {path key p : String} {m : Map} (h : m.lookup key = some (.str p)) (hp : Normal p) :
    (Checker.path path m key).Accepts (some p) :=
  accepts_path.mpr (Or.inl ⟨p, p, h, hp, rfl⟩)

private theorem choice_written {α : Type} {path key : String} {m : Map} {choices : List (String × α)} {default a : α}
    (s : String) (hm : m.lookup key = some (.str s)) (hs : choices.lookup s = some a) :
    (choice path m key choices default).Accepts a :=
  accepts_choice.mpr (Or.inl ⟨s, hm, hs⟩)

/-- Each cache is read as the one whose text is printed. -/
private theorem lookup_caches (c : Cache) : caches.lookup (Cache.text c) = some c := by
  cases c <;> rfl

private theorem lookup_openIns (o : OpenIn) : openIns.lookup (OpenIn.text o) = some o := by
  cases o <;> rfl

private theorem lookup_xwaylandScales (s : XwaylandScale) : xwaylandScales.lookup (XwaylandScale.text s) = some s := by
  cases s <;> rfl

private theorem lookup_mountModes (m : MountMode) : mountModes.lookup (MountMode.text m) = some m := by
  cases m <;> rfl

/-! ## Section 2: Sections -/

/-- The printed section `sandbox` is read as what was printed. -/
private theorem sandbox_printed (n : UInt64) (b : Bool) :
    (parseSandbox (some (object [("idle-timeout", .num (some n)), ("32-bit", .bool b)]))).Accepts (n, b) := by
  refine accepts_section.mpr (Or.inr ⟨_, rfl, ?_⟩)
  refine accepts_bind.mpr ⟨(), known_collect (by simp), ?_⟩
  refine accepts_bind.mpr ⟨b, bool_written (by simp [lookup_collect]), ?_⟩
  simp [lookup_collect, List.lookup_cons]

/-- The fields of a printed home with a path. -/
theorem home_fields (p : String) (c : Cache) (key : String) (v : Value)
    (h : (key, v) ∈ [("mode", (.str "path" : Value)), ("path", .str p), ("cache", .str (Cache.text c))]) :
    (collect [("mode", (.str "path" : Value)), ("path", .str p), ("cache", .str (Cache.text c))]).lookup key = some v := by
  simp only [List.mem_cons, List.not_mem_nil, or_false, Prod.mk.injEq] at h
  rcases h with ⟨rfl, rfl⟩ | ⟨rfl, rfl⟩ | ⟨rfl, rfl⟩ <;> simp [lookup_collect, List.lookup_cons]

/-- A printed home is read back, if its path is normalized. -/
private theorem home_printed {ctx : Context} {home : Option Home} (h : ∀ p c, home = some (.path p c) → Normal p) :
    (parseHome ctx (some (ofOption Home.toJson home))).Accepts home := by
  refine accepts_nullable.mpr ?_
  cases home with
  | none => exact Or.inl ⟨Or.inr rfl, rfl⟩
  | some home =>
      cases home with
      | temporary =>
          refine Or.inr ⟨collect [("mode", .str "temporary")], rfl, ?_⟩
          refine accepts_bind.mpr ⟨(), known_collect (by simp), ?_⟩
          refine accepts_bind.mpr ⟨some "temporary", string_written (by simp [lookup_collect]), ?_⟩
          refine accepts_bind.mpr ⟨(), accepts_unused.mpr (by simp [lookup_collect, List.lookup_cons]), ?_⟩
          exact accepts_pure.mpr rfl
      | path p c =>
          refine Or.inr ⟨_, rfl, accepts_bind.mpr ⟨(), known_collect (by simp), ?_⟩⟩
          refine accepts_bind.mpr ⟨some "path", string_written (home_fields p c _ _ (by simp)), ?_⟩
          refine accepts_bind.mpr ⟨some p, ?_, accepts_bind.mpr ⟨c, ?_, accepts_pure.mpr rfl⟩⟩
          · unfold homePath
            rw [home_fields p c "path" (.str p) (by simp)]
            exact path_written (home_fields p c _ _ (by simp)) (h p c rfl)
          · exact choice_written _ (home_fields p c _ _ (by simp)) (lookup_caches c)

/-- What is read of a printed home with a path. -/
theorem home_read {ctx : Context} {p : String} {c : Cache} {o : Option Home}
    (h : (parseHome ctx (some (Home.toJson (.path p c)))).Accepts o) :
    ∃ q c', absolute p = .ok q ∧ o = some (.path q c') := by
  have hpath := home_fields p c "path" (.str p) (by simp)
  rcases accepts_nullable.mp h with ⟨hnone, _⟩ | ⟨m, hm, h⟩
  · rcases hnone with hnone | hnone <;> cases hnone
  obtain rfl : _ = m := Jsonnet.Json.obj.inj (Option.some.inj hm)
  obtain ⟨_, _, h⟩ := accepts_bind.mp h
  obtain ⟨mode, hmode, h⟩ := accepts_bind.mp h
  -- The mode is read as it was printed, so the path is what is read.
  have hwritten : Report.Accepts (string "home" _ "mode") (some "path") :=
    string_written (home_fields p c "mode" (.str "path") (by simp))
  obtain rfl := hwritten.unique hmode
  obtain ⟨path, hread, h⟩ := accepts_bind.mp h
  obtain ⟨cache, _, h⟩ := accepts_bind.mp h
  unfold homePath at hread
  rw [hpath] at hread
  -- The path that is read is the printed one, and it passed the check.
  rcases accepts_path.mp hread with ⟨s, q, hs, hq, rfl⟩ | ⟨hnone, _⟩
  · rw [hpath] at hs
    obtain rfl := Jsonnet.Json.str.inj (Option.some.inj hs)
    exact ⟨q, cache, hq, (accepts_pure.mp h).symm⟩
  · rw [hpath] at hnone
    cases hnone

private theorem hexDigit_spec (n : Nat) : (hexDigit n).utf8Size = 1 ∧ hexDigit n ≠ ':' ∧ hexDigit n ≠ '+' := by
  -- Sixteen digits can be looked at one by one.
  have hall : ∀ d : Fin 16, (Nat.digitChar d).utf8Size = 1 ∧ Nat.digitChar d ≠ ':' ∧ Nat.digitChar d ≠ '+' := by decide
  exact hall ⟨n % 16, Nat.mod_lt n (by decide)⟩

/-- Four digits are read as the number that they are of. -/
private theorem parseHex_hex4 {n : Nat} (h : n < 2 ^ 16) : Devices.parseHex (hex4 n) = some n := by
  have hplus := (hexDigit_spec (n / 4096)).2.2
  unfold Devices.parseHex
  extract_lets digits value
  have hdigits : digits = hex4 n := by
    unfold digits hex4
    split
    · rename_i heq
      exact absurd (List.cons.inj heq).1 hplus
    · rfl
  -- Each printed digit has the value it stands for.
  have hvalue : ∀ m, value (hexDigit m) = some (m % 16) := by
    have hall : ∀ d : Fin 16, value (Nat.digitChar d) = some d.val := by decide
    exact fun m => hall ⟨m % 16, Nat.mod_lt m (by decide)⟩
  rw [hdigits, if_neg (show hex4 n ≠ [] from List.cons_ne_nil _ _)]
  simp only [hex4, List.foldlM_cons, List.foldlM_nil, hvalue, Option.map_some, Option.bind_eq_bind, Option.bind_some,
    Option.pure_def]
  -- The four digits are those of the number in base 16.
  have hsum : (((0 * 16 + n / 4096 % 16) * 16 + n / 256 % 16) * 16 + n / 16 % 16) * 16 + n % 16 = n := by omega
  rw [hsum, Option.filter_some, if_pos (by simpa using h)]

private theorem usbHex_hex4 {n : Nat} (h : n < 2 ^ 16) : usbHex (hex4 n) = .ok n := by
  have hsize : (String.ofList (hex4 n)).utf8ByteSize = 4 := by
    simp [hex4, hexDigit_spec]
  unfold usbHex
  rw [if_neg (by simp [hsize]), parseHex_hex4 h]

/-- A printed USB device is read back. -/
private theorem usbDevice_usbText {v p : Nat} (hv : v < 2 ^ 16) (hp : p < 2 ^ 16) :
    usbDevice (usbText v p) = .ok (.usb v p) := by
  have hcolon : ':' ∉ hex4 v := by
    simp only [hex4, List.mem_cons, List.not_mem_nil, or_false, not_or]
    exact ⟨(hexDigit_spec _).2.1.symm, (hexDigit_spec _).2.1.symm, (hexDigit_spec _).2.1.symm, (hexDigit_spec _).2.1.symm⟩
  unfold usbDevice usbText
  rw [String.toList_ofList, Devices.splitOnce_append hcolon]
  simp only [usbHex_hex4 hv, usbHex_hex4 hp]
  rfl

private theorem usbIds_append {classes : List DeviceClass} (h : ∀ c ∈ classes, c ∈ deviceKeys.map fun k => k.2.1)
    (ids : List (Nat × Nat)) :
    usbIds (classes ++ ids.map fun id => .usb id.1 id.2) = ids.map fun id => usbText id.1 id.2 := by
  have hclasses : usbIds classes = [] := by
    refine List.filterMap_eq_nil_iff.mpr fun c hc => ?_
    -- A class has no USB id, so it is printed by its key alone.
    have hmem := h c hc
    simp only [deviceKeys, List.map_cons, List.map_nil, List.mem_cons, List.not_mem_nil, or_false] at hmem
    rcases hmem with rfl | rfl | rfl | rfl | rfl | rfl <;> rfl
  have hids : usbIds (ids.map fun id => .usb id.1 id.2) = ids.map fun id => usbText id.1 id.2 := by
    clear h hclasses
    induction ids with
    | nil => rfl
    | cons id ids ih => exact congrArg (usbText id.1 id.2 :: ·) ih
  calc usbIds (classes ++ ids.map fun id => DeviceClass.usb id.1 id.2)
      = usbIds classes ++ usbIds (ids.map fun id => DeviceClass.usb id.1 id.2) := List.filterMap_append
    _ = ids.map fun id => usbText id.1 id.2 := by rw [hclasses, hids, List.nil_append]

/-- Printed devices are read back: their classes by key, the USB devices as texts. -/
private theorem devices_printed {devices : List DeviceClass} (h : DevicesValid devices) :
    (parseDevices (some (devicesToJson devices))).Accepts devices := by
  obtain ⟨ids, hids, horder⟩ := h.order
  -- Each class is read by its key: on where it is among the devices.
  have hkeys : ∀ k ∈ deviceKeys, (deviceClass (collect (deviceKeys.map (fun k => (k.1, (.bool (decide (k.2.1 ∈ devices)) : Value))) ++
      [("usb", strings (usbIds devices))])) k).Accepts (if k.2.1 ∈ devices then some k.2.1 else none) := by
    intro k hk
    refine accepts_bind.mpr ⟨decide (k.2.1 ∈ devices), bool_written ?_, accepts_pure.mpr (by simp)⟩
    simp only [deviceKeys, List.mem_cons, List.not_mem_nil, or_false] at hk
    rcases hk with rfl | rfl | rfl | rfl | rfl | rfl <;> simp [lookup_collect, List.lookup_cons, deviceKeys]
  have husb : usbIds devices = ids.map fun id => usbText id.1 id.2 :=
    (congrArg usbIds horder).trans (usbIds_append (fun c hc => (List.mem_filter.mp hc).1) ids)
  -- The classes that are on, in the order of their keys, are those that come first in the list.
  have hclasses : deviceKeys.filterMap (fun k => if k.2.1 ∈ devices then some k.2.1 else none) =
      (deviceKeys.map fun k => k.2.1).filter (· ∈ devices) := by
    rw [List.filter_map, ← List.filterMap_eq_filter, List.map_filterMap]
    refine List.filterMap_congr fun k _ => ?_
    by_cases hk : k.2.1 ∈ devices <;> simp [hk]
  refine accepts_section.mpr (Or.inr ⟨_, rfl, ?_⟩)
  refine accepts_bind.mpr ⟨(), known_collect (by simp [deviceKeys]), ?_⟩
  refine accepts_bind.mpr ⟨_, accepts_each_filterMap hkeys, ?_⟩
  refine accepts_bind.mpr ⟨usbIds devices, strings_written (by simp [lookup_collect]), ?_⟩
  refine accepts_addDistinct.mpr ⟨ids.map fun id => .usb id.1 id.2, ?_, ?_⟩
  · rw [husb, List.map_map, List.map_map]
    refine List.map_congr_left fun id hid => ?_
    rw [Function.comp_apply, Function.comp_apply, usbDevice_usbText (hids id hid).1 (hids id hid).2]
  · rw [hclasses, addAll_of_nodup (horder ▸ h.distinct)]
    exact horder.symm

/-- A printed bus is read back unless it is the host's: `talk` is not used with it. -/
theorem dbus_printed {o : Option Dbus} (h : ∀ d ∈ o, DbusValid d) (hmode : ∀ d ∈ o, d.mode ≠ .host) :
    (parseDbus (some (ofOption dbusToJson o))).Accepts o := by
  refine accepts_nullable.mpr ?_
  cases o with
  | none => exact Or.inl ⟨Or.inr rfl, rfl⟩
  | some d =>
      obtain ⟨mode, talk⟩ := d
      have hvalid := h _ rfl
      -- With the host's buses the printed names are a key that is not used.
      cases mode with
      | host => exact absurd rfl (hmode _ rfl)
      | portal =>
          refine Or.inr ⟨_, rfl, accepts_bind.mpr ⟨(), known_collect (by simp), ?_⟩⟩
          refine accepts_bind.mpr ⟨.portal, choice_written "portal" ?_ rfl, ?_⟩
          · simp [lookup_collect, List.lookup_cons, DbusMode.text]
          refine accepts_bind.mpr ⟨talk, ?_, accepts_pure.mpr rfl⟩
          refine accepts_bind.mpr ⟨talk, strings_written (by simp [lookup_collect]), ?_⟩
          refine accepts_addDistinct.mpr ⟨talk, List.map_congr_left fun name hname => ?_, ?_⟩
          · unfold talkName
            rw [hvalid.talk name hname]
            rfl
          · exact addAll_of_nodup hvalid.distinct

/-- A bus in the host's mode is not read: its empty list of names is printed, and not used there. -/
private theorem dbus_read {d : Dbus} {o : Option Dbus} (h : (parseDbus (some (dbusToJson d))).Accepts o) : d.mode ≠ .host := by
  intro hmode
  obtain ⟨mode, talk⟩ := d
  obtain rfl : mode = .host := hmode
  rcases accepts_nullable.mp h with ⟨hnone, _⟩ | ⟨m, hm, h⟩
  · rcases hnone with hnone | hnone <;> cases hnone
  obtain rfl : _ = m := Jsonnet.Json.obj.inj (Option.some.inj hm)
  obtain ⟨_, _, h⟩ := accepts_bind.mp h
  obtain ⟨mode, hmode, h⟩ := accepts_bind.mp h
  -- The mode is read as printed, and then a printed list of names is a problem.
  have hwritten : Report.Accepts (choice "dbus" (collect [("mode", .str "host"), ("talk", strings talk)]) "mode"
      dbusModes .portal) .host :=
    choice_written "host" (by simp [lookup_collect, List.lookup_cons]) rfl
  obtain rfl := hwritten.unique hmode
  obtain ⟨_, htalk, _⟩ := accepts_bind.mp h
  obtain ⟨_, hunused, _⟩ := accepts_bind.mp htalk
  have hnone := accepts_unused.mp hunused "talk" List.mem_cons_self
  simp [lookup_collect] at hnone

/-- A printed network is read back. -/
private theorem network_printed (n : NetworkSetting) : (parseNetwork (some (networkToJson n))).Accepts n := by
  have hobject : ∀ s n, networks.lookup s = some n →
      (parseNetwork (some (object [("mode", .str s)]))).Accepts n := by
    intro s n hs
    refine accepts_section.mpr (Or.inr ⟨_, rfl, accepts_bind.mpr ⟨(), known_collect (by simp), ?_⟩⟩)
    exact choice_written _ (by simp [lookup_collect]) hs
  cases n with
  | automatic => exact hobject "automatic" _ rfl
  | isolated => exact hobject "isolated" _ rfl
  | host => exact hobject "host" _ rfl
  | loopback => exact accepts_pure.mpr rfl

private theorem display_printed (b : Bool) :
    (parseDisplay (some (if b then .obj [] else .null))).Accepts b := by
  cases b with
  | false => exact accepts_pure.mpr rfl
  | true =>
      refine accepts_section.mpr (Or.inr ⟨[], rfl, accepts_bind.mpr ⟨(), accepts_known.mpr fun e he => absurd he List.not_mem_nil, ?_⟩⟩)
      exact accepts_pure.mpr rfl

/-- A printed Xwayland is read back, where there is a display and only psbox's own scales. -/
private theorem xwayland_printed {display : Bool} {o : Option Xwayland} (h : ∀ x ∈ o, display = true ∧ XwaylandValid x) :
    (parseXwayland display (some (ofOption xwaylandToJson o))).Accepts o := by
  refine accepts_nullable.mpr ?_
  cases o with
  | none =>
      left
      cases display <;> simp [ofOption]
  | some x =>
      obtain ⟨hdisplay, hvalid⟩ := h x rfl
      obtain ⟨mode, scale⟩ := x
      rw [hdisplay, if_pos rfl]
      -- Only psbox's own proxy has a scale to print.
      cases mode with
      | builtin =>
          refine Or.inr ⟨_, rfl, accepts_bind.mpr ⟨(), known_collect (by simp), ?_⟩⟩
          refine accepts_bind.mpr ⟨.builtin, choice_written "builtin" ?_ rfl, ?_⟩
          · simp [lookup_collect, List.lookup_cons, XwaylandMode.text]
          refine accepts_bind.mpr ⟨scale, choice_written _ ?_ (lookup_xwaylandScales scale), accepts_pure.mpr rfl⟩
          simp [lookup_collect]
      | satellite =>
          obtain rfl : scale = .native := hvalid rfl
          refine Or.inr ⟨_, rfl, accepts_bind.mpr ⟨(), known_collect (by simp), ?_⟩⟩
          refine accepts_bind.mpr ⟨.satellite, choice_written "xwayland-satellite" ?_ rfl, ?_⟩
          · simp [lookup_collect, XwaylandMode.text]
          refine accepts_bind.mpr ⟨.native, accepts_bind.mpr ⟨(), accepts_unused.mpr ?_, ?_⟩, accepts_pure.mpr rfl⟩
          · simp [lookup_collect, List.lookup_cons]
          · exact accepts_pure.mpr rfl

private theorem links_printed (l : Links) : (parseLinks (some (linksToJson l))).Accepts l := by
  obtain ⟨http, https, mailto⟩ := l
  refine accepts_section.mpr (Or.inr ⟨_, rfl, accepts_bind.mpr ⟨(), known_collect (by simp), ?_⟩⟩)
  refine accepts_bind.mpr ⟨http, choice_written _ ?_ (lookup_openIns http), ?_⟩
  · simp [lookup_collect, List.lookup_cons]
  refine accepts_bind.mpr ⟨https, choice_written _ ?_ (lookup_openIns https), ?_⟩
  · simp [lookup_collect, List.lookup_cons]
  refine accepts_bind.mpr ⟨mailto, choice_written _ ?_ (lookup_openIns mailto), accepts_pure.mpr rfl⟩
  simp [lookup_collect]

/-- A printed environment is read back. -/
private theorem environment_printed {path : String} {d : Dict String String} (h : EnvironmentValid d) :
    (environment path (some (environmentToJson d))).Accepts d := by
  refine accepts_environment.mpr (Or.inr ⟨_, d.entries.map fun e => e, rfl, accepts_each_map fun e he => ?_, ?_⟩)
  · exact accepts_variable.mpr ⟨h e he, Or.inr ⟨e.2, rfl, rfl⟩⟩
  · rw [List.map_id', Dict.ofList_entries]

/-! ## Section 3: Mounts -/

/-- A printed mount is read back. -/
private theorem mountSpec_printed {m : MountSpec} (h : m.Valid) (path : String) :
    (parseMountSpec path (collect m.fields)).Accepts (some m) := by
  have hkeys : (m.fields.map Prod.fst).Nodup := by
    cases hsource : m.source <;> simp [MountSpec.fields, hsource]
  -- No key is printed twice, so each is looked up as it was printed.
  have hfield : ∀ {key v}, (key, v) ∈ m.fields → (collect m.fields).lookup key = some v :=
    fun hmem => lookup_collect_of_mem hkeys hmem
  have hdestination : (collect m.fields).lookup "destination" = some (.str m.destination) :=
    hfield (by simp [MountSpec.fields])
  refine accepts_bind.mpr ⟨(), known_collect ?_, ?_⟩
  · cases hsource : m.source <;> simp [MountSpec.fields, hsource]
  refine accepts_bind.mpr ⟨m.mode, choice_written _ (hfield (by simp [MountSpec.fields])) (lookup_mountModes m.mode), ?_⟩
  refine accepts_bind.mpr ⟨m.optional, bool_written (hfield (by simp [MountSpec.fields])), ?_⟩
  refine accepts_bind.mpr ⟨m.create, bool_written (hfield (by simp [MountSpec.fields])), ?_⟩
  refine accepts_bind.mpr ⟨some m.destination, ?_, ?_⟩
  · unfold mountDestination
    rw [hdestination]
    exact path_written hdestination h.destination
  refine accepts_bind.mpr ⟨m.source, ?_, accepts_bind.mpr ⟨(), ?_, accepts_pure.mpr (by simp)⟩⟩
  -- An empty mount has neither source nor `create`; every other mode reads the source.
  · cases hsource : m.source with
    | none =>
        have hmode := h.empty.mpr hsource
        have hcreate : m.create = false := by
          by_contra hc
          have := (h.create (by simpa using hc)).1
          rw [hsource] at this
          cases this
        rw [hmode]
        refine accepts_bind.mpr ⟨(), accepts_unused.mpr ?_, ?_⟩
        · simp [MountSpec.fields, hsource, lookup_collect, List.lookup_cons]
        refine accepts_bind.mpr ⟨(), accepts_require.mpr (by simp [hcreate]), ?_⟩
        exact accepts_bind.mpr ⟨(), accepts_require.mpr (by simp [hdestination]), accepts_pure.mpr rfl⟩
    | some src =>
        have hsrc : (collect m.fields).lookup "source" = some (.str src) := hfield (by simp [MountSpec.fields, hsource])
        have hother : Report.Accepts (Checker.path path (collect m.fields) "source" >>= fun source => do
            require ((collect m.fields).lookup "source").isSome (at_ path "source") "required"
            pure source) (some src) := by
          refine accepts_bind.mpr ⟨some src, path_written hsrc (h.source src hsource), ?_⟩
          exact accepts_bind.mpr ⟨(), accepts_require.mpr (by simp [hsrc]), accepts_pure.mpr rfl⟩
        -- The three other modes are read alike.
        cases hmode : m.mode with
        | empty =>
            rw [h.empty.mp hmode] at hsource
            cases hsource
        | readWrite => exact hother
        | readOnly => exact hother
        | overlay => exact hother
  · rw [accepts_require]
    cases hcreate : m.create with
    | false => rfl
    | true => simp [(h.create hcreate).2]

/-- Mounts at places of their own are none in conflict. -/
private theorem conflicts_printed {es : List (String × MountSpec)} {s : List (String × MountSpec) × List String}
    (h : ((s.1 ++ es).map fun e => e.2.destination).Nodup) : (es.foldlM conflict s).Accepts (s.1 ++ es, s.2) := by
  induction es generalizing s with
  | nil => exact accepts_pure.mpr (by simp)
  | cons e es ih =>
      -- No mount before it has its destination.
      have hfree : s.1.find? (fun f => f.2.destination = e.2.destination) = none := by
        refine List.find?_eq_none.mpr fun f hf => ?_
        rw [List.map_append, List.nodup_append] at h
        simpa using h.2.2 _ (List.mem_map.mpr ⟨f, hf, rfl⟩) _ (List.mem_map.mpr ⟨e, List.mem_cons_self, rfl⟩)
      have happend : s.1 ++ e :: es = s.1 ++ [e] ++ es := by simp
      rw [List.foldlM_cons]
      refine accepts_bind.mpr ⟨(s.1 ++ [e], s.2), ?_, ?_⟩
      · unfold conflict
        rw [hfree]
        exact accepts_pure.mpr rfl
      · rw [happend] at h ⊢
        exact ih h

/-- Printed mounts are read back. -/
private theorem mounts_printed {d : Dict String MountSpec} (h : MountsValid d) :
    (parseMounts (some (.obj (d.entries.map fun e => (e.1, e.2.toJson))))).Accepts d := by
  refine accepts_section.mpr (Or.inr ⟨_, rfl, ?_⟩)
  refine accepts_bind.mpr ⟨d.entries.map fun e => e, accepts_each_map fun e he => ?_, ?_⟩
  · refine accepts_bind.mpr ⟨some (), accepts_checked.mpr ⟨(), h.names e he, rfl⟩, ?_⟩
    exact accepts_named.mpr (Or.inr ⟨_, some e.2, rfl, mountSpec_printed (h.mounts e he) _, rfl⟩)
  · rw [List.map_id', Dict.ofList_entries]
    refine accepts_bind.mpr ⟨([] ++ d.entries, []), conflicts_printed h.distinct, accepts_pure.mpr ?_⟩
    exact Dict.filter_eq_self fun e _ => by simp

/-! ## Section 4: Keys and Actions -/

/-- A printed value is read back, the default among its translations. -/
private theorem keyValue_printed {v : KeyValue} (h : v.Valid) (path : String) : (parseKeyValue path v.toJson).Accepts (some v) := by
  -- The five shapes of a value; only translations are taken apart and put together again.
  cases v with
  | remove => exact accepts_pure.mpr rfl
  | bool b => exact accepts_pure.mpr rfl
  | str s => exact accepts_pure.mpr rfl
  | list items =>
      exact accepts_bind.mpr ⟨items, accepts_items.mpr rfl, accepts_pure.mpr rfl⟩
  | localized default locales =>
      -- The texts are those of the locales and the default one.
      have htexts : insertEntry "default" (.str default : Value) (locales.entries.map fun e => (e.1, .str e.2)) =
          (locales.insert "default" default).entries.map fun e => (e.1, .str e.2) :=
        insertEntry_map (fun s => (.str s : Value)) "default" default locales.entries
      have hread : (Report.each (translation path) ((locales.insert "default" default).entries.map
          fun e => (e.1, (.str e.2 : Value)))).Accepts ((locales.insert "default" default).entries.map fun e => e) := by
        -- Each translation is in a locale, or the default one.
        refine accepts_each_map fun e he => ?_
        unfold translation
        dsimp only
        rw [if_pos ?_]
        · exact accepts_pure.mpr rfl
        · rcases Dict.mem_insert he with rfl | he
          · exact Or.inl rfl
          · exact Or.inr (h e he).2
      -- With `default` taken out again what is left are the locales.
      have hlocales : (locales.insert "default" default).filter (fun e => e.1 ≠ "default") = locales := by
        refine Dict.ext ((filter_insertEntry (by simp) fun e _ heq => by simp [heq]).trans ?_)
        exact List.filter_eq_self.mpr fun e he => by simpa using (h e he).1
      rw [List.map_id'] at hread
      rw [KeyValue.toJson, htexts]
      refine accepts_bind.mpr ⟨_, hread, ?_⟩
      rw [Dict.ofList_entries]
      dsimp only
      rw [Dict.lookup_insert, if_pos rfl]
      dsimp only
      rw [hlocales]
      exact accepts_pure.mpr rfl

private theorem key_printed {e : String × KeyValue} (hkey : ValidKey e.1) (hvalue : e.2.Valid) (path : String) :
    (parseKey path (e.1, e.2.toJson)).Accepts (some e) := by
  unfold parseKey
  dsimp only
  rw [if_neg (by simpa using ⟨hkey.1, by simpa using hkey.2.1⟩), if_neg (by simpa using hkey.2.2)]
  exact accepts_bind.mpr ⟨some e.2, keyValue_printed hvalue _, accepts_pure.mpr rfl⟩

/-- Printed keys are read back. -/
private theorem keys_printed {keys : Dict String KeyValue} (h : KeysValid keys) (path : String) :
    (parseKeys path (some (.obj (keysToJson keys)))).Accepts keys := by
  refine accepts_section.mpr (Or.inr ⟨_, rfl, ?_⟩)
  refine accepts_bind.mpr ⟨keys.entries.map fun e => e, accepts_each_map fun e he => ?_, ?_⟩
  · exact key_printed (h e he).1 (h e he).2 path
  · rw [List.map_id', Dict.ofList_entries]
    exact accepts_pure.mpr rfl

/-- A printed action is read back: its arguments are no key of the entry's. -/
private theorem action_printed {a : Action} (h : a.Valid) (path : String) :
    (parseAction path (insertEntry "arguments" (strings a.arguments) (keysToJson a.keys))).Accepts a := by
  -- The arguments are taken out before the keys are read.
  have hkeys : (insertEntry "arguments" (strings a.arguments) (keysToJson a.keys)).filter (fun e => e.1 ≠ "arguments") =
      keysToJson a.keys := by
    refine (filter_insertEntry (by simp) fun e _ heq => by simp [heq]).trans (List.filter_eq_self.mpr fun e he => ?_)
    obtain ⟨e', he', rfl⟩ := List.mem_map.mp he
    simpa using h.arguments e' he'
  unfold parseAction
  rw [hkeys]
  refine accepts_bind.mpr ⟨a.arguments, strings_written ?_, ?_⟩
  · rw [lookup_insertEntry, if_pos rfl]
  · exact accepts_bind.mpr ⟨a.keys, keys_printed h.keys path, accepts_pure.mpr rfl⟩

/-- Printed actions are read back, and those that remove a copied one. -/
private theorem actions_printed {actions : Dict String (Option Action)} (h : ActionsValid actions) (path : String) :
    (parseActions path (some (.obj (actions.entries.map fun e => (e.1, ofOption Action.toJson e.2))))).Accepts actions := by
  refine accepts_section.mpr (Or.inr ⟨_, rfl, ?_⟩)
  refine accepts_bind.mpr ⟨actions.entries.map fun e => e, accepts_each_map fun e he => ?_, ?_⟩
  -- An action that removes is printed as null.
  · obtain ⟨hword, haction⟩ := h e he
    obtain ⟨name, action⟩ := e
    unfold actionEntry
    dsimp only
    rw [if_neg (by simpa using ⟨hword.1, by simpa using hword.2⟩)]
    cases action with
    | none => exact accepts_pure.mpr rfl
    | some a =>
        refine accepts_named.mpr (Or.inr ⟨_, some (some a), rfl, ?_, rfl⟩)
        exact accepts_bind.mpr ⟨a, action_printed (haction a rfl) _, accepts_pure.mpr rfl⟩
  · rw [List.map_id', Dict.ofList_entries]
    exact accepts_pure.mpr rfl

/-! ## Section 5: Apps -/

/-- The host entry copied, when any. -/
def AppSpec.sourceId : AppSpec → Option String
  | .application a => a.sourceId
  | .autostart a => a.sourceId
  | .suppress _ _ => none

/-- As it is read when it is written. -/
def AppSpec.explicit : AppSpec → AppSpec
  | .application a => .application { a with implicit := false }
  | a => a

/-- The ids are such that they can be written. -/
structure AppSpec.IdsValid (a : AppSpec) : Prop where
  id : validateAppId a.id = .ok ()
  sourceId : ∀ s ∈ a.sourceId, validateAppId s = .ok ()

/-- What else there is can be written. -/
def AppSpec.Plain : AppSpec → Prop
  | .application a => a.run ≠ [] ∧ EnvironmentValid a.environment ∧ KeysValid a.keys ∧ ActionsValid a.actions
  | .autostart a => KeysValid a.keys
  | .suppress _ _ => True

@[simp]
theorem AppSpec.fields_explicit (a : AppSpec) : a.explicit.fields = a.fields := by
  cases a <;> rfl

@[simp]
theorem AppSpec.isApplication_explicit (a : AppSpec) : a.explicit.isApplication = a.isApplication := by
  cases a <;> rfl

@[simp]
theorem AppSpec.kind_explicit (a : AppSpec) : a.explicit.kind = a.kind := by
  cases a <;> rfl

@[simp]
theorem AppSpec.id_explicit (a : AppSpec) : a.explicit.id = a.id := by
  cases a <;> rfl

@[simp]
theorem AppSpec.hasFile_explicit (a : AppSpec) : a.explicit.hasFile = true := by
  cases a <;> rfl

private theorem sourceId_printed {path : String} {m : Map} {o : Option String}
    (h : m.lookup "source-id" = some (ofOption .str o)) : (parseSourceId path m).Accepts o := by
  unfold parseSourceId
  cases o with
  | none =>
      rw [h]
      exact accepts_pure.mpr rfl
  | some s =>
      rw [h]
      exact string_written h

private theorem checkSourceId_printed {path : String} {o : Option String} (h : ∀ s ∈ o, validateAppId s = .ok ()) :
    (checkSourceId path o).Accepts () := by
  cases o with
  | none => exact accepts_pure.mpr rfl
  | some s => exact accepts_bind.mpr ⟨some (), accepts_checked.mpr ⟨(), h s rfl, rfl⟩, accepts_pure.mpr rfl⟩

/-- What the two kinds have in common is read back. -/
private theorem entryParts_printed {path id : String} {m : Map} {sourceId : Option String} {removeArguments : List String}
    {keys : Dict String KeyValue} (hsource : m.lookup "source-id" = some (ofOption .str sourceId))
    (hvalid : ∀ s ∈ sourceId, validateAppId s = .ok ())
    (hremove : m.lookup "remove-arguments" = some (strings removeArguments))
    (hkeys : m.lookup "keys" = some (.obj (keysToJson keys))) (hkeysValid : KeysValid keys) :
    (parseEntryParts path id m).Accepts ⟨id, sourceId, removeArguments, keys⟩ := by
  refine accepts_bind.mpr ⟨sourceId, sourceId_printed hsource, ?_⟩
  refine accepts_bind.mpr ⟨(), checkSourceId_printed hvalid, ?_⟩
  refine accepts_bind.mpr ⟨removeArguments, strings_written hremove, ?_⟩
  rw [hkeys]
  exact accepts_bind.mpr ⟨keys, keys_printed hkeysValid _, accepts_pure.mpr rfl⟩

/-- No key of an application is printed twice. -/
private theorem application_keys (a : Application) : (a.fields.map Prod.fst).Nodup := by
  cases hdisplay : a.noDisplay <;> simp [Application.fields, hdisplay]

/-- A printed application is read back as one that is written. -/
private theorem application_printed {ctx : Context} {sandbox name path : String} {a : Application}
    (h : (AppSpec.application a).Plain) :
    (parseApplication ctx sandbox name path (collect a.fields) ⟨a.id, a.sourceId, a.removeArguments, a.keys⟩).Accepts
      { a with implicit := false } := by
  obtain ⟨hrun, henvironment, _, hactions⟩ := h
  -- No key is printed twice, so each is looked up as it was printed.
  have hfield : ∀ {key v}, (key, v) ∈ a.fields → (collect a.fields).lookup key = some v :=
    fun hmem => lookup_collect_of_mem (application_keys a) hmem
  have hrunField : (collect a.fields).lookup "run" = some (strings a.run) := hfield (by simp [Application.fields])
  have hsource : (collect a.fields).lookup "source-id" = some (ofOption .str a.sourceId) :=
    hfield (by simp [Application.fields])
  refine accepts_bind.mpr ⟨(), known_collect ?_, ?_⟩
  · cases hdisplay : a.noDisplay <;> simp [Application.fields, hdisplay]
  refine accepts_bind.mpr ⟨a.run, ?_, ?_⟩
  -- What is written is a command, since it is not empty.
  · refine accepts_bind.mpr ⟨a.run, strings_written hrunField, ?_⟩
    rw [hrunField, if_neg (by simp)]
    exact accepts_bind.mpr ⟨(), accepts_require.mpr (by simpa using hrun), accepts_pure.mpr rfl⟩
  rw [hfield (show ("environment", environmentToJson a.environment) ∈ a.fields by simp [Application.fields])]
  refine accepts_bind.mpr ⟨a.environment, environment_printed henvironment, ?_⟩
  rw [hfield (show ("actions", .obj (a.actions.entries.map fun e => (e.1, ofOption Action.toJson e.2))) ∈ a.fields by
    simp [Application.fields])]
  refine accepts_bind.mpr ⟨a.actions, actions_printed hactions _, ?_⟩
  refine accepts_bind.mpr ⟨a.noDisplay, ?_, accepts_pure.mpr (by simp [hsource])⟩
  unfold parseNoDisplay
  -- `no-display` is printed only where the config says something of it.
  cases hdisplay : a.noDisplay with
  | none =>
      have hnone : (collect a.fields).lookup "no-display" = none := by
        simp [Application.fields, hdisplay, lookup_collect, List.lookup_cons]
      rw [hnone]
      exact accepts_pure.mpr rfl
  | some b =>
      have hsome : (collect a.fields).lookup "no-display" = some (.bool b) :=
        hfield (by simp [Application.fields, hdisplay])
      rw [hsome]
      exact accepts_bind.mpr ⟨b, bool_written hsome, accepts_pure.mpr rfl⟩

/-- A printed autostart entry is read back. -/
private theorem autostart_printed {sandbox path : String} (a : Autostart) :
    (parseAutostart sandbox path (collect a.fields) ⟨a.id, a.sourceId, a.removeArguments, a.keys⟩).Accepts a := by
  refine accepts_bind.mpr ⟨(), known_collect (by simp [Autostart.fields]), ?_⟩
  refine accepts_bind.mpr ⟨some a.app, string_written ?_, accepts_pure.mpr rfl⟩
  simp [Autostart.fields, lookup_collect, List.lookup_cons]

private theorem fields_keys (a : AppSpec) : (a.fields.map Prod.fst).Nodup := by
  cases a with
  | application a => exact application_keys a
  | autostart a => simp [AppSpec.fields, Autostart.fields]
  | suppress kind id => simp [AppSpec.fields]

/-- What every entry has. -/
theorem common_fields (a : AppSpec) :
    (collect a.fields).lookup "kind" = some (.str a.kind.text) ∧ (collect a.fields).lookup "id" = some (.str a.id) ∧
      (collect a.fields).lookup "suppress" = (match a with
        | .suppress _ _ => some (.bool true)
        | _ => none) := by
  have hfield : ∀ {key v}, (key, v) ∈ a.fields → (collect a.fields).lookup key = some v :=
    fun hmem => lookup_collect_of_mem (fields_keys a) hmem
  cases a with
  | application a =>
      refine ⟨hfield (by simp [AppSpec.fields, Application.fields, AppSpec.kind, Kind.text]),
        hfield (by simp [AppSpec.fields, Application.fields, AppSpec.id]), ?_⟩
      cases hdisplay : a.noDisplay <;>
        simp [AppSpec.fields, Application.fields, hdisplay, lookup_collect, List.lookup_cons]
  | autostart a =>
      refine ⟨hfield (by simp [AppSpec.fields, Autostart.fields, AppSpec.kind, Kind.text]),
        hfield (by simp [AppSpec.fields, Autostart.fields, AppSpec.id]), ?_⟩
      simp [AppSpec.fields, Autostart.fields, lookup_collect, List.lookup_cons]
  | suppress kind id =>
      refine ⟨hfield (by simp [AppSpec.fields, AppSpec.kind]), hfield (by simp [AppSpec.fields, AppSpec.id]), ?_⟩
      exact hfield (by simp [AppSpec.fields])

/-- A printed app is read back, as one that is written. -/
private theorem appSpec_printed {ctx : Context} {sandbox name path : String} {a : AppSpec} (hids : a.IdsValid) (hplain : a.Plain) :
    (parseAppSpec ctx sandbox name path (collect a.fields)).Accepts (some a.explicit) := by
  obtain ⟨hkind, hid, hsuppress⟩ := common_fields a
  have hfield : ∀ {key v}, (key, v) ∈ a.fields → (collect a.fields).lookup key = some v :=
    fun hmem => lookup_collect_of_mem (fields_keys a) hmem
  have hlookup : kinds.lookup a.kind.text = some a.kind := by
    cases a.kind <;> rfl
  refine accepts_bind.mpr ⟨a.kind, choice_written _ hkind hlookup, ?_⟩
  refine accepts_bind.mpr ⟨some a.id, string_written hid, ?_⟩
  refine accepts_bind.mpr ⟨some (), accepts_checked.mpr ⟨(), hids.id, rfl⟩, ?_⟩
  -- An entry that hides prints no more than kind, id and `suppress`.
  cases a with
  | suppress kind id =>
      refine accepts_bind.mpr ⟨true, bool_written hsuppress, ?_⟩
      exact accepts_bind.mpr ⟨(), known_collect (by simp [AppSpec.fields]), accepts_pure.mpr rfl⟩
  | application a =>
      refine accepts_bind.mpr ⟨false, accepts_bool.mpr (Or.inr ⟨hsuppress, rfl⟩), ?_⟩
      refine accepts_bind.mpr ⟨⟨a.id, a.sourceId, a.removeArguments, a.keys⟩, entryParts_printed ?_ hids.sourceId ?_ ?_
        hplain.2.2.1, ?_⟩
      · exact hfield (by simp [AppSpec.fields, Application.fields])
      · exact hfield (by simp [AppSpec.fields, Application.fields])
      · exact hfield (by simp [AppSpec.fields, Application.fields])
      refine accepts_bind.mpr ⟨.application { a with implicit := false }, ?_, accepts_pure.mpr rfl⟩
      exact accepts_bind.mpr ⟨_, application_printed hplain, accepts_pure.mpr rfl⟩
  | autostart a =>
      refine accepts_bind.mpr ⟨false, accepts_bool.mpr (Or.inr ⟨hsuppress, rfl⟩), ?_⟩
      refine accepts_bind.mpr ⟨⟨a.id, a.sourceId, a.removeArguments, a.keys⟩, entryParts_printed ?_ hids.sourceId ?_ ?_
        hplain, ?_⟩
      · exact hfield (by simp [AppSpec.fields, Autostart.fields])
      · exact hfield (by simp [AppSpec.fields, Autostart.fields])
      · exact hfield (by simp [AppSpec.fields, Autostart.fields])
      refine accepts_bind.mpr ⟨.autostart a, ?_, accepts_pure.mpr rfl⟩
      exact accepts_bind.mpr ⟨_, autostart_printed a, accepts_pure.mpr rfl⟩

/-- The ids of an entry that is read are checked. -/
theorem appSpec_read {ctx : Context} {sandbox name path : String} {a : AppSpec} {o : Option AppSpec}
    (h : (parseAppSpec ctx sandbox name path (collect a.fields)).Accepts o) : a.IdsValid := by
  obtain ⟨hkind, hid, hsuppress⟩ := common_fields a
  obtain ⟨kind, hreadKind, h⟩ := accepts_bind.mp h
  obtain ⟨given, hgiven, h⟩ := accepts_bind.mp h
  -- The id is printed, so it is what is read, and it was checked.
  have hwritten : Report.Accepts (string path (collect a.fields) "id") (some a.id) := string_written hid
  obtain rfl := hwritten.unique hgiven
  obtain ⟨_, hchecked, h⟩ := accepts_bind.mp h
  obtain ⟨_, hvalid, _⟩ := accepts_checked.mp hchecked
  obtain ⟨suppress, hreadSuppress, h⟩ := accepts_bind.mp h
  refine ⟨hvalid, ?_⟩
  -- An entry that hides nothing has its source id read and checked as well.
  have hparts : (collect a.fields).lookup "suppress" = none →
      (collect a.fields).lookup "source-id" = some (ofOption .str a.sourceId) →
      ∀ s ∈ a.sourceId, validateAppId s = .ok () := by
    intro hnone hsource
    have hoff : Report.Accepts (bool path (collect a.fields) "suppress" false) false :=
      accepts_bool.mpr (Or.inr ⟨hnone, rfl⟩)
    obtain rfl := hoff.unique hreadSuppress
    obtain ⟨parts, hparts, _⟩ := accepts_bind.mp h
    obtain ⟨sourceId, hread, hparts⟩ := accepts_bind.mp hparts
    obtain ⟨_, hcheck, _⟩ := accepts_bind.mp hparts
    have hsame : Report.Accepts (parseSourceId path (collect a.fields)) a.sourceId := sourceId_printed hsource
    obtain rfl := hsame.unique hread
    exact checkSourceId_valid hcheck
  cases a with
  | suppress kind id => exact fun s hs => by cases hs
  | application a =>
      exact hparts hsuppress (lookup_collect_of_mem (fields_keys (.application a))
        (by simp [AppSpec.fields, Application.fields, AppSpec.sourceId]))
  | autostart a =>
      exact hparts hsuppress (lookup_collect_of_mem (fields_keys (.autostart a))
        (by simp [AppSpec.fields, Autostart.fields, AppSpec.sourceId]))

/-- What is asked of the apps of a config for them to be read back. -/
structure AppsReadBack (sandbox : String) (apps : Dict String AppSpec) : Prop where
  /-- The default app is there, and can be written. -/
  default : ∃ a, apps.lookup sandbox = some a ∧ a.IdsValid
  /-- No two entries have one id, also when there is no file for them. -/
  distinct : (apps.entries.map fun e => (e.2.kind, e.2.id)).Nodup

/-- The keys of valid apps pass the checks that reading them makes. -/
private theorem plain_of_valid {ctx : Context} {sandbox : String} {apps : Dict String AppSpec} (h : AppsValid ctx sandbox apps)
    {e : String × AppSpec} (he : e ∈ apps.entries) : e.2.Plain := by
  rcases h.entries e he with ⟨_, hvalid⟩ | rfl
  · obtain ⟨name, a⟩ := e
    cases a with
    | application a => exact ⟨hvalid.run, hvalid.environment, hvalid.keys, hvalid.actions⟩
    | autostart a => exact hvalid.keys
    | suppress kind id => trivial
  · exact ⟨List.cons_ne_nil _ _, fun e he => absurd he Dict.not_mem_empty, fun e he => absurd he Dict.not_mem_empty,
      fun e he => absurd he Dict.not_mem_empty⟩

/-- Apart from the default app, the ids are written. -/
theorem idsValid_of_valid {ctx : Context} {sandbox : String} {apps : Dict String AppSpec} (h : AppsValid ctx sandbox apps)
    {e : String × AppSpec} (he : e ∈ apps.entries) (hname : e.1 ≠ sandbox) : e.2.IdsValid := by
  rcases h.entries e he with ⟨_, hvalid⟩ | rfl
  · obtain ⟨name, a⟩ := e
    cases a with
    | application a =>
        refine ⟨hvalid.id, fun s hs => ?_⟩
        exact (hvalid.sourceId s hs).resolve_right fun hdefault => hname hdefault.1
    | autostart a => exact ⟨hvalid.id, hvalid.sourceId⟩
    | suppress kind id => exact ⟨hvalid, fun s hs => by cases hs⟩
  · exact absurd rfl hname

/-- Printed apps are read back, where the ids of all are distinct per kind. -/
private theorem apps_printed {ctx : Context} {sandbox : String} {apps : Dict String AppSpec}
    (hsandbox : validateName "app" sandbox = .ok ()) (h : AppsValid ctx sandbox apps) (hback : AppsReadBack sandbox apps) :
    (parseApps ctx sandbox (some (.obj (apps.entries.map fun e => (e.1, e.2.toJson))))).Accepts
      (apps.map AppSpec.explicit) := by
  obtain ⟨⟨a, hdefault, hids⟩, hdistinct⟩ := hback
  refine accepts_bind.mpr ⟨apps.entries.map fun e => (e.1, e.2.toJson), accepts_section.mpr (Or.inr ⟨_, rfl, ?_⟩), ?_⟩
  · exact accepts_pure.mpr rfl
  refine accepts_bind.mpr ⟨(apps.map AppSpec.explicit).entries, accepts_each_map fun e he => ?_, ?_⟩
  -- The default app is under the sandbox's name, which is valid.
  · have hname : validateName "app" e.1 = .ok () := by
      rcases h.entries e he with ⟨hname, _⟩ | rfl
      · exact hname
      · exact hsandbox
    have hvalid : e.2.IdsValid := by
      by_cases heq : e.1 = sandbox
      · have hsame := Dict.lookup_of_mem (v := e.2) (heq ▸ he : (sandbox, e.2) ∈ apps.entries)
        rw [hdefault] at hsame
        exact Option.some.inj hsame ▸ hids
      · exact idsValid_of_valid h he heq
    refine accepts_bind.mpr ⟨some (), accepts_checked.mpr ⟨(), hname, rfl⟩, ?_⟩
    exact accepts_named.mpr (Or.inr ⟨_, some e.2.explicit, rfl, appSpec_printed hvalid (plain_of_valid h he), rfl⟩)
  -- The default app is printed like the others, so it is read and not put in.
  have hfound : ((apps.entries.map fun e => (e.1, e.2.toJson)).lookup sandbox).isSome = true := by
    rw [lookup_map]
    change ((apps.lookup sandbox).map AppSpec.toJson).isSome = true
    rw [hdefault]
    rfl
  dsimp only
  rw [if_pos hfound, Dict.ofList_entries]
  have hnil : (([] : List ((Kind × String) × String)).map Prod.fst).Nodup := List.nodup_nil
  refine accepts_bind.mpr ⟨_, (accepts_checkApps hnil).mpr ⟨fun e he s hs => ?_, rfl, ?_⟩, accepts_pure.mpr rfl⟩
  -- What is read may be explicit where it was not; the kinds and ids are the same.
  · obtain ⟨e', he', rfl⟩ := List.mem_map.mp he
    have hstart : e'.2 = .autostart s := by
      cases ha : e'.2 <;> simp_all [AppSpec.explicit]
    rw [Dict.lookup_map]
    have hstarted := h.started e' he' s hstart
    cases happ : apps.lookup s.app with
    | none =>
        rw [happ] at hstarted
        cases hstarted
    | some b =>
        rw [happ] at hstarted
        simpa using hstarted
  -- What is read is written, and so there is a file for each.
  · have hall : (apps.map AppSpec.explicit).entries.filter (fun e => e.2.hasFile) = (apps.map AppSpec.explicit).entries := by
      refine List.filter_eq_self.mpr fun e he => ?_
      obtain ⟨e', _, rfl⟩ := List.mem_map.mp he
      exact e'.2.hasFile_explicit
    rw [hall, List.nil_append, List.map_map]
    have hsame : (apps.map AppSpec.explicit).entries.map
        (Prod.fst ∘ fun e : String × AppSpec => ((e.2.kind, e.2.id), e.1)) =
        apps.entries.map fun e => (e.2.kind, e.2.id) := by
      change (apps.entries.map fun e => (e.1, e.2.explicit)).map _ = _
      rw [List.map_map]
      refine List.map_congr_left fun e _ => ?_
      simp
    rw [hsame]
    exact hdistinct

/-- What is written of an entry says what it is. -/
theorem toJson_kind_id {a b : AppSpec} (h : a.toJson = b.toJson) : (a.kind, a.id) = (b.kind, b.id) := by
  have hfields : collect a.fields = collect b.fields := Jsonnet.Json.obj.inj h
  obtain ⟨hkind, hid, _⟩ := common_fields a
  obtain ⟨hkind', hid', _⟩ := common_fields b
  rw [hfields, hkind'] at hkind
  rw [hfields, hid'] at hid
  have htext : b.kind.text = a.kind.text := Jsonnet.Json.str.inj (Option.some.inj hkind)
  have hsame : a.kind = b.kind := by
    -- Kinds have different texts.
    cases ha : a.kind <;> cases hb : b.kind <;> simp_all [Kind.text]
  rw [hsame, Jsonnet.Json.str.inj (Option.some.inj hid)]

private theorem map_eq_of_map_eq {α β γ : Type} {f : α → β} {g : α → γ} (h : ∀ a b, f a = f b → g a = g b) {l l' : List α}
    (hl : l.map f = l'.map f) : l.map g = l'.map g := by
  -- Induction over the first list, with the second one general.
  induction l generalizing l' with
  | nil =>
      rw [List.map_eq_nil_iff.mp hl.symm, List.map_nil]
  | cons a l ih =>
      cases l' with
      | nil => cases hl
      | cons b l' =>
          obtain ⟨hhead, htail⟩ := List.cons.inj hl
          rw [List.map_cons, List.map_cons, h a b hhead, ih htail]

/-- Apps that are read as they were written. -/
theorem apps_read {ctx : Context} {sandbox : String} {apps again : Dict String AppSpec}
    (h : (parseApps ctx sandbox (some (.obj (apps.entries.map fun e => (e.1, e.2.toJson))))).Accepts again)
    (hsame : again.entries.map (fun e => (e.1, e.2.toJson)) = apps.entries.map fun e => (e.1, e.2.toJson)) :
    AppsReadBack sandbox apps := by
  obtain ⟨entries, hentries, h⟩ := accepts_bind.mp h
  rcases accepts_section.mp hentries with ⟨hnone, _⟩ | ⟨m, hm, hentries⟩
  · cases hnone
  obtain rfl := Jsonnet.Json.obj.inj (Option.some.inj hm)
  obtain rfl := accepts_pure.mp hentries
  obtain ⟨parsed, hparsed, h⟩ := accepts_bind.mp h
  obtain ⟨ids, hids, h⟩ := accepts_bind.mp h
  have hagain := accepts_pure.mp h
  rw [hagain] at hids
  have hfound : (apps.entries.map fun e => (e.1, e.2.toJson)).lookup sandbox = (apps.lookup sandbox).map AppSpec.toJson :=
    lookup_map AppSpec.toJson apps.entries sandbox
  have hfoundAgain : (again.lookup sandbox).map AppSpec.toJson = (apps.lookup sandbox).map AppSpec.toJson := by
    rw [← hfound, ← hsame]
    exact (lookup_map AppSpec.toJson again.entries sandbox).symm
  -- With the default app not there its name would be printed nowhere, and it would be put in again.
  cases hdefault : apps.lookup sandbox with
  | none =>
      -- The default app would be among those that are read.
      rw [hfound, hdefault, if_neg (by simp)] at hagain
      rw [hdefault, ← hagain, Dict.lookup_insert, if_pos rfl] at hfoundAgain
      cases hfoundAgain
  | some a =>
      rw [hfound, hdefault, if_pos (by simp)] at hagain
      refine ⟨⟨a, hdefault, ?_⟩, ?_⟩
      · have hmem : (sandbox, a.toJson) ∈ apps.entries.map fun e => (e.1, e.2.toJson) :=
          List.mem_map.mpr ⟨(sandbox, a), Dict.mem_of_lookup hdefault, rfl⟩
        obtain ⟨o, ho, _⟩ := hparsed.each_mem hmem
        obtain ⟨_, hname, ho⟩ := accepts_bind.mp ho
        obtain ⟨_, _, rfl⟩ := accepts_checked.mp hname
        rcases accepts_named.mp ho with ⟨hnull, _⟩ | ⟨m, spec, hobj, hspec, _⟩
        · cases hnull
        · obtain rfl : collect a.fields = m := Jsonnet.Json.obj.inj hobj
          exact appSpec_read hspec
      · have hnil : (([] : List ((Kind × String) × String)).map Prod.fst).Nodup := List.nodup_nil
        obtain ⟨_, hout, hnodup⟩ := (accepts_checkApps hnil).mp hids
        -- All that is read is written, and so there is a file for each.
        have hall : again.entries.filter (fun e => e.2.hasFile) = again.entries := by
          refine List.filter_eq_self.mpr fun e he => ?_
          rw [← hagain] at he
          obtain ⟨e', _, he'⟩ := hparsed.of_mem_each (Dict.mem_ofList he)
          obtain ⟨_, hvalid⟩ := app_valid he'
          obtain ⟨name, b⟩ := e
          cases b with
          | application b => simp [AppSpec.hasFile, Application.hasEntry, hvalid.implicit]
          | autostart b => rfl
          | suppress kind id => rfl
        rw [hall, List.nil_append] at hout
        rw [hout, List.map_map] at hnodup
        -- By kind and id the entries that are read are those that were printed.
        have hkinds : again.entries.map (fun e => (e.2.kind, e.2.id)) = apps.entries.map fun e => (e.2.kind, e.2.id) :=
          map_eq_of_map_eq (fun e e' heq => toJson_kind_id (Prod.mk.inj heq).2) hsame
        rw [← hkinds]
        exact hnodup

/-! ## Section 6: Configs -/

/-- What is asked of a config, or that of a task. -/
structure Body.ReadsBack (b : Body) : Prop where
  home : ∀ p c, b.home = some (.path p c) → Normal p
  /-- With the host's buses the printed config has a key that is not used. -/
  dbus : ∀ d ∈ b.dbus, d.mode ≠ .host

/-- What a config must be like for its print to be read as itself. -/
structure Spec.ReadsBack (ctx : Context) (s : Spec) : Prop where
  body : s.toBody.ReadsBack
  tasks : ∀ e ∈ s.task.entries, e.2.spec.ReadsBack
  apps : ∀ sandbox ∈ ctx.name, AppsReadBack sandbox s.app

/-- The default app of its own. -/
def Spec.explicit (s : Spec) : Spec :=
  { s with app := s.app.map AppSpec.explicit }

/-- No section is printed twice. -/
theorem Spec.keys (s : Spec) : (s.fields.map Prod.fst).Nodup := by
  change sections.Nodup
  decide

theorem Spec.lookup (s : Spec) {key : String} {v : Value} (h : (key, v) ∈ s.fields) :
    (collect s.fields).lookup key = some v :=
  lookup_collect_of_mem s.keys h

private theorem Spec.toJson_eq (s : Spec) : s.toJson = .obj (collect s.fields) :=
  rfl

/-- The printed sections are read back. -/
private theorem body_printed {ctx : Context} {s : Spec} (hvalid : s.toBody.Valid ctx) (hback : s.toBody.ReadsBack) :
    (parseBody ctx s.toJson).Accepts (collect s.fields, s.toBody) := by
  refine accepts_body.mpr ⟨s.toJson_eq, ?_⟩
  -- Each section is looked up where it was printed.
  constructor
  · exact fun e he => (show ∀ e ∈ s.fields, e.1 ∈ sections by simp [Spec.fields, sections]) e (mem_collect he)
  · rw [s.lookup (show ("sandbox", _) ∈ s.fields from List.mem_cons_self)]
    exact sandbox_printed s.idleTimeout s.allow32bit
  · rw [s.lookup (show ("home", ofOption Home.toJson s.home) ∈ s.fields by simp [Spec.fields])]
    exact home_printed hback.home
  · rw [s.lookup (show ("devices", devicesToJson s.devices) ∈ s.fields by simp [Spec.fields])]
    exact devices_printed hvalid.devices
  · rw [s.lookup (show ("dbus", ofOption dbusToJson s.dbus) ∈ s.fields by simp [Spec.fields])]
    exact dbus_printed hvalid.dbus hback.dbus
  · rw [s.lookup (show ("network", networkToJson s.network) ∈ s.fields by simp [Spec.fields])]
    exact network_printed s.network
  · rw [s.lookup (show ("display", if s.display then .obj [] else .null) ∈ s.fields by simp [Spec.fields])]
    exact display_printed s.display
  · rw [s.lookup (show ("xwayland", ofOption xwaylandToJson s.xwayland) ∈ s.fields by simp [Spec.fields])]
    exact xwayland_printed hvalid.xwayland
  · rw [s.lookup (show ("links", linksToJson s.links) ∈ s.fields by simp [Spec.fields])]
    exact links_printed s.links
  · rw [s.lookup (show ("environment", environmentToJson s.environment) ∈ s.fields by simp [Spec.fields])]
    exact environment_printed hvalid.environment
  · rw [s.lookup (show ("mount", .obj (s.mount.entries.map fun e => (e.1, e.2.toJson))) ∈ s.fields by simp [Spec.fields])]
    exact mounts_printed hvalid.mount

/-- What a printed config that is read says of the home and the bus. -/
theorem body_read {ctx : Context} {s : Spec} {top : Map} {b : Body} (h : (parseBody ctx s.toJson).Accepts (top, b))
    (hsame : b.home = s.home) : top = collect s.fields ∧ s.toBody.ReadsBack := by
  obtain ⟨htop, h⟩ := accepts_body.mp h
  have htop : collect s.fields = top := Jsonnet.Json.obj.inj htop
  have hhome := h.home
  have hdbus := h.dbus
  rw [← htop, s.lookup (show ("home", ofOption Home.toJson s.home) ∈ s.fields by simp [Spec.fields])] at hhome
  rw [← htop, s.lookup (show ("dbus", ofOption dbusToJson s.dbus) ∈ s.fields by simp [Spec.fields])] at hdbus
  refine ⟨htop.symm, fun p c hp => ?_, fun d hd => ?_⟩
  -- A home with a path is read only if the path is normalized.
  · rw [hp] at hhome hsame
    obtain ⟨q, c', hq, hread⟩ := home_read hhome
    rw [hread] at hsame
    cases hsame
    exact hq
  -- A bus is read only if it is not the host's.
  · rw [show s.dbus = some d from hd] at hdbus
    exact dbus_read hdbus

private theorem task_keys (t : TaskSpec) : (t.fields.map Prod.fst).Nodup := by
  cases happ : t.app <;> simp [TaskSpec.fields, happ]

/-- Each task's config is printed under its name. -/
private theorem tasksToJson_lookup {s : Spec} {e : String × TaskSpec} (he : e ∈ s.task.entries) :
    s.tasksToJson.lookup e.1 = some e.2.spec.toSpec.toJson := by
  have hfound : s.tasksToJson.lookup e.1 = (s.task.lookup e.1).map fun t => t.spec.toSpec.toJson :=
    lookup_map (fun t : TaskSpec => t.spec.toSpec.toJson) s.task.entries e.1
  rw [hfound, Dict.lookup_of_mem he]
  rfl

/-- A task has no idle timeout of its own, and so its config is read as it is. -/
theorem taskConfig_printed {ctx : Context} {b : Body} (hvalid : b.Valid ctx) (hback : b.ReadsBack)
    (hidle : b.idleTimeout = 0) (path : String) : (parseTaskConfig ctx path b.toSpec.toJson).Accepts b := by
  refine accepts_bind.mpr ⟨(collect b.toSpec.fields, b), Report.accepts_adopt.mpr ?_, accepts_pure.mpr ?_⟩
  · exact body_printed (s := b.toSpec) hvalid hback
  · cases b
    cases hidle
    rfl

/-- A printed task is read back with its config. -/
private theorem taskSpec_printed {ctx : Context} {tasks : Map} {apps : Dict String AppSpec} {name path : String} {t : TaskSpec}
    (hvalid : t.Valid ctx apps) (hback : t.spec.ReadsBack) (htasks : tasks.lookup name = some t.spec.toSpec.toJson) :
    (parseTaskSpec ctx tasks apps name path (collect t.fields)).Accepts (some t) := by
  have hfield : ∀ {key v}, (key, v) ∈ t.fields → (collect t.fields).lookup key = some v :=
    fun hmem => lookup_collect_of_mem (task_keys t) hmem
  have hrun : (collect t.fields).lookup "run" = some (strings t.command) := hfield (by simp [TaskSpec.fields])
  -- Neither of the two is ever printed.
  have hnone : ∀ key ∈ ["script", "overrides"], (collect t.fields).lookup key = none := by
    intro key hkey
    rw [lookup_collect]
    rcases List.mem_cons.mp hkey with rfl | hkey
    · cases happ : t.app <;> simp [TaskSpec.fields, happ, List.lookup_cons]
    · obtain rfl := List.mem_singleton.mp hkey
      cases happ : t.app <;> simp [TaskSpec.fields, happ, List.lookup_cons]
  have hscript := hnone "script" (by simp)
  have hoverrides := hnone "overrides" (by simp)
  have happ : Report.Accepts (string path (collect t.fields) "app") t.app := by
    cases happ : t.app with
    | none =>
        refine accepts_string.mpr (Or.inr ⟨?_, rfl⟩)
        rw [lookup_collect]
        simp [TaskSpec.fields, happ, List.lookup_cons]
    | some app => exact string_written (hfield (by simp [TaskSpec.fields, happ]))
  refine accepts_bind.mpr ⟨(), known_collect ?_, ?_⟩
  · cases happ : t.app <;> simp [TaskSpec.fields, happ]
  refine accepts_bind.mpr ⟨t.command, ?_, ?_⟩
  · unfold parseCommand
    rw [hrun, hscript]
    refine accepts_bind.mpr ⟨t.command, strings_written hrun, ?_⟩
    exact accepts_bind.mpr ⟨(), accepts_require.mpr (by simpa using hvalid.command), accepts_pure.mpr rfl⟩
  refine accepts_bind.mpr ⟨t.app, happ, accepts_bind.mpr ⟨(), ?_, accepts_bind.mpr ⟨(), ?_, ?_⟩⟩⟩
  · cases happ : t.app with
    | none => exact accepts_pure.mpr rfl
    | some app => exact accepts_require.mpr (hvalid.app app happ).1
  · rw [hoverrides]
    exact accepts_section.mpr (Or.inl ⟨rfl, rfl⟩)
  rw [htasks]
  refine accepts_bind.mpr ⟨t.spec, taskConfig_printed hvalid.spec hback hvalid.idle path, ?_⟩
  refine accepts_bind.mpr ⟨(), accepts_require.mpr ?_, accepts_pure.mpr rfl⟩
  cases happ : t.app with
  | none => rfl
  | some app => simp [(hvalid.app app happ).2]

private theorem isApplication_map_explicit (apps : Dict String AppSpec) (name : String) :
    ((apps.map AppSpec.explicit).lookup name).any AppSpec.isApplication = (apps.lookup name).any AppSpec.isApplication := by
  rw [Dict.lookup_map]
  cases apps.lookup name with
  | none => rfl
  | some a => exact a.isApplication_explicit

/-- Printed tasks are read back. -/
private theorem tasks_printed {ctx : Context} {s : Spec} (hvalid : s.Valid ctx) (hback : ∀ e ∈ s.task.entries, e.2.spec.ReadsBack) :
    (parseTasks ctx s.tasksToJson (s.app.map AppSpec.explicit)
      (some (.obj (s.task.entries.map fun e => (e.1, e.2.toJson))))).Accepts s.task := by
  refine accepts_section.mpr (Or.inr ⟨_, rfl, ?_⟩)
  refine accepts_bind.mpr ⟨s.task.entries.map fun e => e, accepts_each_map fun e he => ?_, ?_⟩
  · obtain ⟨hword, htask⟩ := hvalid.tasks e he
    -- The apps of the config that is read are explicit, which changes nothing for a task.
    have htask : e.2.Valid ctx (s.app.map AppSpec.explicit) :=
      ⟨htask.command, fun a ha => ⟨(isApplication_map_explicit s.app a).trans (htask.app a ha).1, (htask.app a ha).2⟩,
        htask.spec, htask.idle⟩
    unfold parseTask
    dsimp only
    rw [if_neg (by simp [hword])]
    refine accepts_named.mpr (Or.inr ⟨_, some e.2, rfl, ?_, rfl⟩)
    exact taskSpec_printed htask (hback e he) (tasksToJson_lookup he)
  · rw [List.map_id', Dict.ofList_entries]
    exact accepts_pure.mpr rfl

/-- Two homes with one print are one. -/
private theorem home_injective {home home' : Option Home} (h : ofOption Home.toJson home = ofOption Home.toJson home') :
    home = home' := by
  -- A home with a path has one printed, a temporary one none.
  have hmode : ∀ (p : String) (c : Cache), Home.toJson (.path p c) ≠ Home.toJson .temporary := by
    intro p c heq
    have hfields := congrArg (List.lookup "path") (Jsonnet.Json.obj.inj heq)
    rw [home_fields p c "path" (.str p) (by simp)] at hfields
    simp [lookup_collect, List.lookup_cons] at hfields
  cases home with
  | none =>
      cases home' with
      | none => rfl
      | some home' => cases home' <;> cases h
  | some home =>
      cases home' with
      | none => cases home <;> cases h
      | some home' =>
          cases home with
          | temporary =>
              cases home' with
              | temporary => rfl
              | path p c => exact absurd h.symm (hmode p c)
          | path p c =>
              cases home' with
              | temporary => exact absurd h (hmode p c)
              | path p' c' =>
                  have hfields := Jsonnet.Json.obj.inj h
                  have hpath := congrArg (List.lookup "path") hfields
                  have hcache := congrArg (List.lookup "cache") hfields
                  rw [home_fields p c "path" (.str p) (by simp), home_fields p' c' "path" (.str p') (by simp)] at hpath
                  rw [home_fields p c "cache" (.str (Cache.text c)) (by simp),
                    home_fields p' c' "cache" (.str (Cache.text c')) (by simp)] at hcache
                  -- A cache is read back from its text, so that the texts tell them apart.
                  have hsame : c = c' := by
                    have htext := Jsonnet.Json.str.inj (Option.some.inj hcache)
                    have := lookup_caches c
                    rw [htext, lookup_caches c'] at this
                    exact (Option.some.inj this).symm
                  rw [Jsonnet.Json.str.inj (Option.some.inj hpath), hsame]

/-- Configs that are printed alike have one home. -/
theorem home_of_toJson {s s' : Spec} (h : s.toJson = s'.toJson) : s.home = s'.home := by
  have hhome := congrArg (List.lookup "home") (Jsonnet.Json.obj.inj h)
  rw [s.lookup (show ("home", ofOption Home.toJson s.home) ∈ s.fields by simp [Spec.fields]),
    s'.lookup (show ("home", ofOption Home.toJson s'.home) ∈ s'.fields by simp [Spec.fields])] at hhome
  exact home_injective (Option.some.inj hhome)

private theorem apps_of_toJson {s s' : Spec} (h : s.toJson = s'.toJson) :
    s.app.entries.map (fun e => (e.1, e.2.toJson)) = s'.app.entries.map fun e => (e.1, e.2.toJson) := by
  have happs := congrArg (List.lookup "app") (Jsonnet.Json.obj.inj h)
  rw [s.lookup (show ("app", .obj (s.app.entries.map fun e => (e.1, e.2.toJson))) ∈ s.fields by simp [Spec.fields]),
    s'.lookup (show ("app", .obj (s'.app.entries.map fun e => (e.1, e.2.toJson))) ∈ s'.fields by simp [Spec.fields])]
    at happs
  exact Jsonnet.Json.obj.inj (Option.some.inj happs)

/-- The config of a task that is read as it was written. -/
theorem taskSpec_read {ctx : Context} {tasks : Map} {apps : Dict String AppSpec} {name path : String} {m : Map}
    {b : Body} {t : TaskSpec} (htasks : tasks.lookup name = some b.toSpec.toJson)
    (h : (parseTaskSpec ctx tasks apps name path m).Accepts (some t)) (hsame : t.spec.toSpec.toJson = b.toSpec.toJson) :
    b.ReadsBack := by
  obtain ⟨_, _, h⟩ := accepts_bind.mp h
  obtain ⟨command, _, h⟩ := accepts_bind.mp h
  obtain ⟨app, _, h⟩ := accepts_bind.mp h
  obtain ⟨_, _, h⟩ := accepts_bind.mp h
  obtain ⟨_, _, h⟩ := accepts_bind.mp h
  rw [htasks] at h
  obtain ⟨spec, hspec, h⟩ := accepts_bind.mp h
  obtain ⟨_, _, h⟩ := accepts_bind.mp h
  obtain rfl := Option.some.inj (accepts_pure.mp h)
  obtain ⟨parsed, hparsed, hspec⟩ := accepts_bind.mp hspec
  obtain rfl := accepts_pure.mp hspec
  -- Printed alike, the two have one home.
  have hhome : parsed.2.home = b.home := home_of_toJson hsame
  exact (body_read (s := b.toSpec) (Report.accepts_adopt.mp hparsed) hhome).2

/-- Tasks that are read as they were written. -/
theorem tasks_read {ctx : Context} {apps : Dict String AppSpec} {s : Spec} {task : Dict String TaskSpec}
    (h : (parseTasks ctx s.tasksToJson apps (some (.obj (s.task.entries.map fun e => (e.1, e.2.toJson))))).Accepts task)
    (hsame : task.entries.map (fun e => (e.1, e.2.spec.toSpec.toJson)) = s.tasksToJson) :
    ∀ e ∈ s.task.entries, e.2.spec.ReadsBack := by
  intro e he
  rcases accepts_section.mp h with ⟨hnone, _⟩ | ⟨m, hm, h⟩
  · cases hnone
  obtain rfl := Jsonnet.Json.obj.inj (Option.some.inj hm)
  obtain ⟨out, hout, h⟩ := accepts_bind.mp h
  obtain rfl := accepts_pure.mp h
  -- Its config is that of a task that is read.
  have hmem : (e.1, e.2.spec.toSpec.toJson) ∈ (Dict.ofList out).entries.map fun e => (e.1, e.2.spec.toSpec.toJson) := by
    rw [hsame]
    exact List.mem_map.mpr ⟨e, he, rfl⟩
  obtain ⟨r, hr, heq⟩ := List.mem_map.mp hmem
  obtain ⟨hname, hconfig⟩ := Prod.mk.inj heq
  obtain ⟨e', _, he'⟩ := hout.of_mem_each (Dict.mem_ofList hr)
  unfold parseTask at he'
  dsimp only at he'
  split at he'
  · simp at he'
  · rcases accepts_named.mp he' with ⟨_, hnone⟩ | ⟨m, o, _, ho, hr'⟩
    · cases hnone
    · obtain ⟨t, rfl, rfl⟩ := Option.map_eq_some_iff.mp hr'
      exact taskSpec_read (hname ▸ tasksToJson_lookup he) ho hconfig

private theorem validateName_of_sandbox {name : String} (h : Sandbox.validateSandboxName name = .ok ()) (kind : String) :
    validateName kind name = .ok () := by
  obtain ⟨hword, hhead, _⟩ := Sandbox.validateSandboxName_eq_ok.mp h
  have hdot := Sandbox.dot_notMem hword
  obtain ⟨hne, hall⟩ := Sandbox.validWord_iff.mp hword
  unfold validateName
  refine if_pos ⟨hne, ?_, ?_, hhead, ?_⟩
  · rintro rfl
    exact hdot (by decide)
  · rintro rfl
    exact hdot (by decide)
  · refine List.all_eq_true.mpr fun c hc => ?_
    have := hall c hc
    simp only [Sandbox.isWordChar, Bool.or_eq_true] at this ⊢
    tauto

/-- What is read of a print is the config, with its default app as one that is written. -/
private theorem config_printed {ctx : Context} {s : Spec} (hname : ∀ name ∈ ctx.name, Sandbox.validateSandboxName name = .ok ())
    (hvalid : s.Valid ctx) (hback : s.ReadsBack ctx) : (parseConfig ctx s.tasksToJson s.toJson).Accepts s.explicit := by
  unfold parseConfig
  refine accepts_bind.mpr ⟨(collect s.fields, s.toBody), body_printed hvalid.body hback.body, ?_⟩
  cases hctx : ctx.name with
  | none =>
      refine accepts_pure.mpr ?_
      obtain ⟨happ, htask⟩ := hvalid.unnamed hctx
      obtain ⟨body, app, task⟩ := s
      obtain rfl : app = ∅ := happ
      obtain rfl : task = ∅ := htask
      rfl
  | some name =>
      dsimp only
      rw [s.lookup (show ("app", .obj (s.app.entries.map fun e => (e.1, e.2.toJson))) ∈ s.fields by simp [Spec.fields]),
        s.lookup (show ("task", .obj (s.task.entries.map fun e => (e.1, e.2.toJson))) ∈ s.fields by simp [Spec.fields])]
      refine accepts_bind.mpr ⟨s.app.map AppSpec.explicit, ?_, accepts_bind.mpr ⟨s.task, ?_, accepts_pure.mpr rfl⟩⟩
      · exact apps_printed (validateName_of_sandbox (hname name hctx) "app") (hvalid.apps name hctx) (hback.apps name hctx)
      · exact tasks_printed hvalid hback.tasks

/-- Only a config that reads back is read as one with the same print. -/
private theorem config_read {ctx : Context} {s again : Spec} (h : (parseConfig ctx s.tasksToJson s.toJson).Accepts again)
    (hvalid : s.Valid ctx) (hsame : again.toJson = s.toJson) (htasks : again.tasksToJson = s.tasksToJson) :
    s.ReadsBack ctx := by
  unfold parseConfig at h
  obtain ⟨⟨top, body⟩, hbody, h⟩ := accepts_bind.mp h
  have hhome := home_of_toJson hsame
  cases hctx : ctx.name with
  | none =>
      rw [hctx] at h
      obtain rfl := accepts_pure.mp h
      refine ⟨(body_read hbody hhome).2, fun e he => ?_, fun name hname => ?_⟩
      · rw [(hvalid.unnamed hctx).2] at he
        exact absurd he Dict.not_mem_empty
      · rw [hctx] at hname
        cases hname
  | some name =>
      rw [hctx] at h
      obtain ⟨app, happ, h⟩ := accepts_bind.mp h
      obtain ⟨task, htask, h⟩ := accepts_bind.mp h
      obtain rfl := accepts_pure.mp h
      obtain ⟨htop, hreads⟩ := body_read hbody hhome
      dsimp only at happ htask
      rw [htop, s.lookup (show ("app", .obj (s.app.entries.map fun e => (e.1, e.2.toJson))) ∈ s.fields by simp [Spec.fields])]
        at happ
      rw [htop, s.lookup (show ("task", .obj (s.task.entries.map fun e => (e.1, e.2.toJson))) ∈ s.fields by
        simp [Spec.fields])] at htask
      refine ⟨hreads, tasks_read htask htasks, fun name' hname' => ?_⟩
      rw [hctx] at hname'
      obtain rfl := Option.some.inj hname'
      exact apps_read happ (apps_of_toJson hsame)

/-- The default app of its own makes no difference to what is printed. -/
theorem toJson_explicit (s : Spec) : s.explicit.toJson = s.toJson := by
  have happs : s.explicit.app.entries.map (fun e => (e.1, e.2.toJson)) = s.app.entries.map fun e => (e.1, e.2.toJson) := by
    change (s.app.entries.map fun e => (e.1, e.2.explicit)).map _ = _
    rw [List.map_map]
    refine List.map_congr_left fun e _ => ?_
    simp [AppSpec.toJson]
  unfold Spec.toJson Spec.fields
  rw [happs]
  rfl

/-- An accepted config is read back from what is printed of it exactly when it `ReadsBack`, and then it is the
same, with the default app of its own. -/
theorem printed_reads_back_iff (config : Value) (tasks : Map) (ctx : Context) (s : Spec)
    (hname : ∀ name ∈ ctx.name, Sandbox.validateSandboxName name = .ok ()) (h : fromJson config tasks ctx = .ok s) :
    ((∃ again, fromJson s.toJson s.tasksToJson ctx = .ok again ∧ again.toJson = s.toJson ∧
        again.tasksToJson = s.tasksToJson) ↔ s.ReadsBack ctx) ∧
      (s.ReadsBack ctx → fromJson s.toJson s.tasksToJson ctx = .ok s.explicit) := by
  have hvalid : s.Valid ctx := config_valid (Report.finish_eq_ok.mp h)
  have hprinted : s.ReadsBack ctx → fromJson s.toJson s.tasksToJson ctx = .ok s.explicit :=
    fun hback => Report.finish_eq_ok.mpr (config_printed hname hvalid hback)
  refine ⟨⟨?_, fun hback => ⟨s.explicit, hprinted hback, toJson_explicit s, rfl⟩⟩, hprinted⟩
  rintro ⟨again, hagain, hsame, htasks⟩
  exact config_read (Report.finish_eq_ok.mp hagain) hvalid hsame htasks

/-- With the host's buses the names that may be reached are printed, but not read. -/
theorem printed_reads_back_iff_host : ∃ s, fromJson (.obj [("dbus", .obj [("mode", .str "host")])]) [] editor = .ok s ∧
    ¬∃ again, fromJson s.toJson s.tasksToJson editor = .ok again ∧ again.toJson = s.toJson ∧
      again.tasksToJson = s.tasksToJson := by
  refine ⟨_, rfl, fun hread => ?_⟩
  have hname : ∀ name ∈ editor.name, Sandbox.validateSandboxName name = .ok () := by
    intro name hname
    obtain rfl := Option.some.inj hname
    decide
  have hback :=
    (printed_reads_back_iff (.obj [("dbus", .obj [("mode", .str "host")])]) [] editor _ hname rfl).1.mp hread
  exact hback.body.dbus _ rfl rfl

end Psbox.Config
