import Psbox.Config.Parse
import Psbox.Foundations.Runs

/-!
# Valid Configs

What a config that is accepted is like (`Spec.Valid`): its paths are absolute and normalized, its lists and
mounts are without repetitions, its names are names, what starts an application or borrows its identity names
one, and no two of its desktop entries are one file (`accepted_valid`).
-/

namespace Psbox.Config

open Psbox.Foundations
open Psbox.Sandbox (MountMode DeviceClass Cache Dbus DbusMode NetworkSetting Xwayland XwaylandMode XwaylandScale OpenIn
  Links validWord)

/-! ## Section 1: Rules for the Sections -/

namespace Checker

variable {α : Type}

/-- A condition is accepted if it holds. -/
@[simp]
theorem accepts_require {ok : Bool} {path message : String} {u : Unit} :
    (require ok path message).Accepts u ↔ ok = true := by
  cases ok <;> simp [require]

/-- A section is accepted if it is left out, or an object that is. -/
theorem accepts_section {path : String} {v : Option Value} {default a : α} {f : Map → Checker α} :
    (section_ path v default f).Accepts a ↔ v = none ∧ default = a ∨ ∃ m, v = some (.obj m) ∧ (f m).Accepts a := by
  cases v with
  | none => simp [section_]
  | some v => cases v <;> simp [section_, Checker.object]

/-- A section that may be null is accepted as `none` there. -/
theorem accepts_nullable {path : String} {v : Option Value} {a : Option α} {f : Map → Checker (Option α)} :
    (nullable path v f).Accepts a ↔
      (v = none ∨ v = some .null) ∧ none = a ∨ ∃ m, v = some (.obj m) ∧ (f m).Accepts a := by
  cases v with
  | none => simp [nullable, section_]
  | some v => cases v <;> simp [nullable, section_, Checker.object]

/-- Nothing is accepted for a null, and else what the object is accepted as. -/
theorem accepts_named {path name : String} {v : Value} {f : Map → Checker (Option α)} {o : Option (String × α)} :
    (named path name v f).Accepts o ↔
      v = .null ∧ none = o ∨ ∃ m a, v = .obj m ∧ (f m).Accepts a ∧ a.map (fun a => (name, a)) = o := by
  cases v <;> simp [named, Checker.object]

/-- Each item once, after those that are there. -/
def addAll [DecidableEq α] (start as : List α) : List α :=
  as.foldl (fun out a => if a ∈ out then out else out ++ [a]) start

/-- A list is accepted if each item is, and each is there once then. -/
theorem accepts_addDistinct [DecidableEq α] {path : String} {check : String → Except String α} {start out : List α}
    {items : List String} :
    (addDistinct path check start items).Accepts out ↔ ∃ as, items.map check = as.map .ok ∧ addAll start as = out := by
  unfold addDistinct
  generalize 0 = i
  -- Induction over the items; what each of them adds depends on those before, so the start is general.
  induction items generalizing start i with
  | nil =>
      rw [List.zipIdx_nil, List.foldlM_nil, Report.accepts_pure]
      constructor
      · rintro rfl
        exact ⟨[], rfl, rfl⟩
      · rintro ⟨as, has, rfl⟩
        rw [List.map_eq_nil_iff.mp has.symm]
        rfl
  | cons s items ih =>
      rw [List.zipIdx_cons, List.foldlM_cons, Report.accepts_bind]
      constructor
      · rintro ⟨next, hfirst, hrest⟩
        cases hcheck : check s with
        | error e => simp [hcheck] at hfirst
        | ok a =>
            obtain rfl := Report.accepts_pure.mp (by simpa only [hcheck] using hfirst)
            obtain ⟨as, has, rfl⟩ := (ih _).mp hrest
            exact ⟨a :: as, by rw [List.map_cons, List.map_cons, hcheck, has], rfl⟩
      · rintro ⟨as, has, rfl⟩
        cases as with
        | nil => cases has
        | cons a as =>
            obtain ⟨hcheck, hrest⟩ := List.cons.inj has
            refine ⟨if a ∈ start then start else start ++ [a], ?_, (ih _).mpr ⟨as, hrest, rfl⟩⟩
            rw [hcheck]
            exact Report.accepts_pure.mpr rfl

private theorem nodup_addAll [DecidableEq α] {start : List α} (h : start.Nodup) (as : List α) : (addAll start as).Nodup := by
  induction as generalizing start with
  | nil => exact h
  | cons a as ih =>
      rw [addAll, List.foldl_cons]
      split
      · exact ih h
      · rename_i hnew
        refine ih (List.nodup_append.mpr ⟨h, List.nodup_singleton a, ?_⟩)
        rintro b hb c hc rfl
        exact hnew (List.mem_singleton.mp hc ▸ hb)

/-- What is added comes after what was there. -/
theorem addAll_eq_append [DecidableEq α] (start as : List α) :
    ∃ new, addAll start as = start ++ new ∧ ∀ a ∈ new, a ∈ as := by
  induction as generalizing start with
  | nil => exact ⟨[], (List.append_nil start).symm, fun a ha => absurd ha List.not_mem_nil⟩
  | cons a as ih =>
      rw [addAll, List.foldl_cons]
      split
      · obtain ⟨new, heq, hnew⟩ := ih start
        exact ⟨new, heq, fun b hb => List.mem_cons_of_mem a (hnew b hb)⟩
      · obtain ⟨new, heq, hnew⟩ := ih (start ++ [a])
        refine ⟨a :: new, heq.trans (by simp), fun b hb => ?_⟩
        rcases List.mem_cons.mp hb with rfl | hb
        · exact List.mem_cons_self
        · exact List.mem_cons_of_mem a (hnew b hb)

/-- Without repetitions all are added. -/
theorem addAll_of_nodup [DecidableEq α] {start as : List α} (h : (start ++ as).Nodup) : addAll start as = start ++ as := by
  induction as generalizing start with
  | nil => exact (List.append_nil start).symm
  | cons a as ih =>
      -- The first item is new, since the list is without repetitions.
      have hnew : a ∉ start := fun ha => (List.nodup_append.mp h).2.2 a ha a List.mem_cons_self rfl
      have happend : start ++ a :: as = start ++ [a] ++ as := by simp
      rw [addAll, List.foldl_cons, if_neg hnew, happend]
      exact ih (happend ▸ h)

end Checker

open Checker

/-! ## Section 2: Validity -/

/-- A path that is written, or the sandbox's own. -/
def Home.Valid (ctx : Context) : Home → Prop
  | .path p _ => Normal p ∨ ctx.storage = some p
  | .temporary => True

/-- The classes in their order, and then USB devices. -/
structure DevicesValid (devices : List DeviceClass) : Prop where
  order : ∃ ids : List (Nat × Nat), (∀ id ∈ ids, id.1 < 2 ^ 16 ∧ id.2 < 2 ^ 16) ∧
    devices = (deviceKeys.map fun k => k.2.1).filter (· ∈ devices) ++ ids.map fun id => .usb id.1 id.2
  distinct : devices.Nodup

/-- With the host's buses every name is reached, and none is listed. -/
structure DbusValid (d : Dbus) : Prop where
  host : d.mode = .host → d.talk = []
  talk : ∀ name ∈ d.talk, validateTalkName name = .ok ()
  distinct : d.talk.Nodup

/-- Only psbox's own proxy scales. -/
def XwaylandValid (x : Xwayland) : Prop :=
  x.mode = .satellite → x.scale = .native

/-- Every variable has a name that it can have. -/
def EnvironmentValid (d : Dict String String) : Prop :=
  ∀ e ∈ d.entries, validateEnvKey e.1 = .ok ()

/-- A mount has a source unless it is empty, and both of its paths are normalized. -/
structure MountSpec.Valid (m : MountSpec) : Prop where
  source : ∀ p ∈ m.source, Normal p
  destination : Normal m.destination
  empty : m.mode = .empty ↔ m.source = none
  /-- Only a source that is required is created. -/
  create : m.create = true → m.source.isSome ∧ m.optional = false

/-- No two mounts have one destination. -/
structure MountsValid (d : Dict String MountSpec) : Prop where
  names : ∀ e ∈ d.entries, validateName "mount" e.1 = .ok ()
  mounts : ∀ e ∈ d.entries, e.2.Valid
  distinct : (d.entries.map fun e => e.2.destination).Nodup

/-- Every translation is in a locale. -/
def KeyValue.Valid : KeyValue → Prop
  | .localized _ locales => ∀ e ∈ locales.entries, e.1 ≠ "default" ∧ Install.validLocale e.1.toList = true
  | _ => True

/-- A Desktop Entry key that psbox does not set itself. -/
def ValidKey (key : String) : Prop :=
  key ≠ "" ∧ key.toList.all Install.isWordChar = true ∧ key.toList ∉ Install.reservedKeys

/-- Every key can be set, to the value it has. -/
def KeysValid (keys : Dict String KeyValue) : Prop :=
  ∀ e ∈ keys.entries, ValidKey e.1 ∧ e.2.Valid

/-- An action has keys other than its arguments. -/
structure Action.Valid (a : Action) : Prop where
  keys : KeysValid a.keys
  arguments : ∀ e ∈ a.keys.entries, e.1 ≠ "arguments"

/-- Every action has a name that it can have. -/
def ActionsValid (actions : Dict String (Option Action)) : Prop :=
  ∀ e ∈ actions.entries, (e.1 ≠ "" ∧ e.1.toList.all Install.isWordChar = true) ∧ ∀ a ∈ e.2, a.Valid

/-- A written id, or the sandbox's name for the default app. -/
def SourceValid (ctx : Context) (sandbox name : String) (sourceId : Option String) : Prop :=
  ∀ s ∈ sourceId, validateAppId s = .ok () ∨ name = sandbox ∧ s = sandbox ∧ ctx.hostEntry sandbox = true

/-- An application that is written passes the checks of its keys. -/
structure Application.Valid (ctx : Context) (sandbox name : String) (a : Application) : Prop where
  run : a.run ≠ []
  environment : EnvironmentValid a.environment
  id : validateAppId a.id = .ok ()
  sourceId : SourceValid ctx sandbox name a.sourceId
  keys : KeysValid a.keys
  actions : ActionsValid a.actions
  implicit : a.implicit = false

/-- An autostart entry passes the checks of its keys. -/
structure Autostart.Valid (a : Autostart) : Prop where
  id : validateAppId a.id = .ok ()
  sourceId : ∀ s ∈ a.sourceId, validateAppId s = .ok ()
  keys : KeysValid a.keys

/-- An entry that is written. -/
def AppSpec.Valid (ctx : Context) (sandbox name : String) : AppSpec → Prop
  | .application a => a.Valid ctx sandbox name
  | .autostart a => a.Valid
  | .suppress _ id => validateAppId id = .ok ()

/-- The apps pass their checks, and those that they need of each other. -/
structure AppsValid (ctx : Context) (sandbox : String) (apps : Dict String AppSpec) : Prop where
  /-- Each entry is written, or the default app that the config leaves out. -/
  entries : ∀ e ∈ apps.entries, validateName "app" e.1 = .ok () ∧ e.2.Valid ctx sandbox e.1 ∨
    e = (sandbox, implicitApp ctx sandbox)
  /-- Autostart entries start an application. -/
  started : ∀ e ∈ apps.entries, ∀ s, e.2 = .autostart s → (apps.lookup s.app).any AppSpec.isApplication = true
  /-- No two desktop files are one. -/
  distinct : ((apps.entries.filter fun e => e.2.hasFile).map fun e => (e.2.kind, e.2.id)).Nodup

/-- The sections pass their checks. -/
structure Body.Valid (ctx : Context) (b : Body) : Prop where
  home : ∀ h ∈ b.home, h.Valid ctx
  devices : DevicesValid b.devices
  dbus : ∀ d ∈ b.dbus, DbusValid d
  xwayland : ∀ x ∈ b.xwayland, b.display = true ∧ XwaylandValid x
  environment : EnvironmentValid b.environment
  mount : MountsValid b.mount

/-- A task has a command, and a config of its own that is valid. -/
structure TaskSpec.Valid (ctx : Context) (apps : Dict String AppSpec) (t : TaskSpec) : Prop where
  command : t.command ≠ []
  /-- A task with an app's identity has that app, and a bus to use it on. -/
  app : ∀ a ∈ t.app, (apps.lookup a).any AppSpec.isApplication = true ∧ t.spec.dbus.isSome
  spec : t.spec.Valid ctx
  idle : t.spec.idleTimeout = 0

/-- The config passes its own checks. -/
structure Spec.Valid (ctx : Context) (s : Spec) : Prop where
  body : s.toBody.Valid ctx
  apps : ∀ sandbox ∈ ctx.name, AppsValid ctx sandbox s.app
  tasks : ∀ e ∈ s.task.entries, validWord e.1 = true ∧ e.2.Valid ctx s.app
  /-- An unnamed sandbox has neither. -/
  unnamed : ctx.name = none → s.app = ∅ ∧ s.task = ∅

/-! ## Section 3: The Sections of a Config -/

private theorem home_valid {ctx : Context} {v : Option Value} {o : Option Home} (h : (parseHome ctx v).Accepts o) :
    ∀ home ∈ o, home.Valid ctx := by
  rintro home rfl
  rcases accepts_nullable.mp h with ⟨_, hnone⟩ | ⟨m, _, h⟩
  · cases hnone
  obtain ⟨_, _, h⟩ := Report.accepts_bind.mp h
  obtain ⟨mode, _, h⟩ := Report.accepts_bind.mp h
  split at h
  -- A temporary home has no path to be valid.
  · obtain ⟨_, _, h⟩ := Report.accepts_bind.mp h
    obtain rfl := Option.some.inj (Report.accepts_pure.mp h)
    trivial
  · obtain ⟨p, hp, h⟩ := Report.accepts_bind.mp h
    obtain ⟨cache, _, h⟩ := Report.accepts_bind.mp h
    obtain ⟨p', rfl, rfl⟩ := Option.map_eq_some_iff.mp (Report.accepts_pure.mp h)
    unfold homePath at hp
    split at hp
    -- A path that is written passed the check of paths; the storage is normalized as the context has
    -- it.
    · rcases accepts_path.mp hp with ⟨s, q, _, hq, heq⟩ | ⟨_, heq⟩
      · obtain rfl := Option.some.inj heq
        exact Or.inl (normal_of_absolute hq)
      · cases heq
    · split at hp
      · rename_i hstorage
        exact Or.inr (hstorage.trans (Report.accepts_pure.mp hp))
      · simp at hp
  · simp at h

private theorem usbHex_eq_ok {x : List Char} {n : Nat} (h : usbHex x = .ok n) : n < 2 ^ 16 := by
  unfold usbHex at h
  split at h
  · cases h
  · split at h
    · rename_i n' hparse
      obtain rfl := Except.ok.inj h
      unfold Devices.parseHex at hparse
      extract_lets digits value at hparse
      split at hparse
      · cases hparse
      · simpa using (Option.filter_eq_some_iff.mp hparse).2
    · cases h

/-- A USB device has two numbers of 16 bits. -/
private theorem usbDevice_eq_ok {s : String} {d : DeviceClass} (h : usbDevice s = .ok d) :
    ∃ id : Nat × Nat, (id.1 < 2 ^ 16 ∧ id.2 < 2 ^ 16) ∧ d = .usb id.1 id.2 := by
  unfold usbDevice at h
  split at h
  · cases h
  · rename_i v p _
    cases hv : usbHex v with
    | error e => simp [hv, bind, Except.bind] at h
    | ok vendor =>
        cases hp : usbHex p with
        | error e => simp [hv, hp, bind, Except.bind] at h
        | ok product =>
            simp only [hv, hp, bind, Except.bind] at h
            exact ⟨(vendor, product), ⟨usbHex_eq_ok hv, usbHex_eq_ok hp⟩, (Except.ok.inj h).symm⟩

/-- The classes that are on come in their order. -/
private theorem classes_sublist {m : Map} {ks : List (String × DeviceClass × Bool)} {cs : List DeviceClass}
    (h : (Report.each (deviceClass m) ks).Accepts cs) : cs.Sublist (ks.map fun k => k.2.1) := by
  induction ks generalizing cs with
  | nil =>
      rw [Report.accepts_each_nil.mp h]
      exact List.Sublist.refl []
  | cons k ks ih =>
      obtain ⟨o, cs', ho, hcs, rfl⟩ := Report.accepts_each_cons.mp h
      obtain ⟨on, _, ho⟩ := Report.accepts_bind.mp ho
      obtain rfl := Report.accepts_pure.mp ho
      cases on with
      | true => exact (ih hcs).cons_cons _
      | false => exact (ih hcs).cons _

private theorem sublist_eq_filter {α : Type} [DecidableEq α] {cs ks : List α} (h : cs.Sublist ks) (hks : ks.Nodup) :
    ks.filter (· ∈ cs) = cs := by
  -- Classes that are off are left out, so those that are on keep their order.
  induction h with
  | slnil => rfl
  | @cons cs ks k hsub ih =>
      obtain ⟨hk, hks⟩ := List.nodup_cons.mp hks
      rw [List.filter_cons_of_neg (by simpa using fun hmem => hk (hsub.subset hmem))]
      exact ih hks
  | @cons_cons cs ks k hsub ih =>
      obtain ⟨hk, hks⟩ := List.nodup_cons.mp hks
      rw [List.filter_cons_of_pos (by simp)]
      have hsame : ks.filter (· ∈ k :: cs) = ks.filter (· ∈ cs) := by
        refine List.filter_congr fun x hx => ?_
        -- The head is in the list once, so that asking for it changes nothing in the tail.
        have hne : x ≠ k := by
          rintro rfl
          exact hk hx
        simp [hne]
      rw [hsame, ih hks]

/-- Accepted devices are valid: the classes in their order, and USB devices after them. -/
private theorem devices_valid {v : Option Value} {devices : List DeviceClass} (h : (parseDevices v).Accepts devices) :
    DevicesValid devices := by
  have hclasses : (deviceKeys.map fun k => k.2.1).Nodup := by decide
  rcases accepts_section.mp h with ⟨_, rfl⟩ | ⟨m, _, h⟩
  · exact ⟨⟨[], by simp, by decide⟩, by decide⟩
  obtain ⟨_, _, h⟩ := Report.accepts_bind.mp h
  obtain ⟨classes, hon, h⟩ := Report.accepts_bind.mp h
  obtain ⟨ids, _, h⟩ := Report.accepts_bind.mp h
  obtain ⟨as, has, rfl⟩ := accepts_addDistinct.mp h
  have hsub := classes_sublist hon
  obtain ⟨new, heq, hnew⟩ := addAll_eq_append classes as
  -- What is added are USB devices.
  have husb : ∀ d ∈ new, ∃ id : Nat × Nat, (id.1 < 2 ^ 16 ∧ id.2 < 2 ^ 16) ∧ d = .usb id.1 id.2 := by
    intro d hd
    have hmem : (Except.ok d : Except String DeviceClass) ∈ ids.map usbDevice :=
      has ▸ List.mem_map.mpr ⟨d, hnew d hd, rfl⟩
    obtain ⟨s, _, hs⟩ := List.mem_map.mp hmem
    exact usbDevice_eq_ok hs
  refine ⟨?_, nodup_addAll (hsub.nodup hclasses) as⟩
  -- Each of the new ones is a USB device, so they are those of a list of ids.
  obtain ⟨pairs, hpairs, hmap⟩ : ∃ pairs : List (Nat × Nat), (∀ id ∈ pairs, id.1 < 2 ^ 16 ∧ id.2 < 2 ^ 16) ∧
      new = pairs.map fun id => .usb id.1 id.2 := by
    clear heq hnew
    induction new with
    | nil => exact ⟨[], by simp, rfl⟩
    | cons d new ih =>
        obtain ⟨hd, hrest⟩ := List.forall_mem_cons.mp husb
        obtain ⟨id, hid, rfl⟩ := hd
        obtain ⟨pairs, hpairs, rfl⟩ := ih hrest
        exact ⟨id :: pairs, List.forall_mem_cons.mpr ⟨hid, hpairs⟩, rfl⟩
  refine ⟨pairs, hpairs, ?_⟩
  -- No USB device is a class with a key.
  have hkept : (deviceKeys.map fun k => k.2.1).filter (· ∈ addAll classes as) = classes := by
    rw [← sublist_eq_filter hsub hclasses]
    refine List.filter_congr fun c hc => ?_
    have hnot : c ∉ new := by
      rw [hmap]
      intro hmem
      obtain ⟨id, _, rfl⟩ := List.mem_map.mp hmem
      simp [deviceKeys] at hc
    rw [sublist_eq_filter hsub hclasses, heq]
    simp [hnot]
  rw [hkept, heq, hmap]

/-- An accepted session bus is valid: a listed name passes its check. -/
private theorem dbus_valid {v : Option Value} {o : Option Dbus} (h : (parseDbus v).Accepts o) : ∀ d ∈ o, DbusValid d := by
  rintro d rfl
  rcases accepts_nullable.mp h with ⟨_, hnone⟩ | ⟨m, _, h⟩
  · cases hnone
  obtain ⟨_, _, h⟩ := Report.accepts_bind.mp h
  obtain ⟨mode, _, h⟩ := Report.accepts_bind.mp h
  obtain ⟨talk, htalk, h⟩ := Report.accepts_bind.mp h
  obtain rfl := Option.some.inj (Report.accepts_pure.mp h)
  cases mode with
  | host =>
      obtain ⟨_, _, htalk⟩ := Report.accepts_bind.mp htalk
      obtain rfl := Report.accepts_pure.mp htalk
      exact ⟨fun _ => rfl, fun _ hname => absurd hname List.not_mem_nil, List.nodup_nil⟩
  | portal =>
      obtain ⟨names, _, htalk⟩ := Report.accepts_bind.mp htalk
      obtain ⟨as, has, rfl⟩ := accepts_addDistinct.mp htalk
      refine ⟨nofun, fun name hname => ?_, nodup_addAll List.nodup_nil as⟩
      -- The list starts out empty, so whatever is in it was added.
      obtain ⟨new, heq, hnew⟩ := addAll_eq_append [] as
      rw [heq, List.nil_append] at hname
      have hmem : (Except.ok name : Except String String) ∈ names.map talkName :=
        has ▸ List.mem_map.mpr ⟨name, hnew name hname, rfl⟩
      obtain ⟨s, _, hs⟩ := List.mem_map.mp hmem
      unfold talkName at hs
      cases hvalid : validateTalkName s with
      | error e => simp [hvalid, Except.map] at hs
      | ok u =>
          rw [hvalid] at hs
          obtain rfl := Except.ok.inj hs
          exact hvalid

private theorem xwayland_valid {display : Bool} {v : Option Value} {o : Option Xwayland}
    (h : (parseXwayland display v).Accepts o) : ∀ x ∈ o, display = true ∧ XwaylandValid x := by
  rintro x rfl
  rcases accepts_nullable.mp h with ⟨_, hnone⟩ | ⟨m, hv, h⟩
  · cases hnone
  -- Without a display the section is not looked at, and nothing would be accepted.
  have hdisplay : display = true := by
    cases display with
    | true => rfl
    | false => cases hv
  refine ⟨hdisplay, ?_⟩
  obtain ⟨_, _, h⟩ := Report.accepts_bind.mp h
  obtain ⟨mode, _, h⟩ := Report.accepts_bind.mp h
  obtain ⟨scale, hscale, h⟩ := Report.accepts_bind.mp h
  obtain rfl := Option.some.inj (Report.accepts_pure.mp h)
  rintro hmode
  dsimp only at hmode
  subst hmode
  obtain ⟨_, _, hscale⟩ := Report.accepts_bind.mp hscale
  exact (Report.accepts_pure.mp hscale).symm

private theorem environment_valid {path : String} {v : Option Value} {d : Dict String String}
    (h : (environment path v).Accepts d) : EnvironmentValid d := by
  rcases accepts_environment.mp h with ⟨_, rfl⟩ | ⟨m, es, _, hes, rfl⟩
  · exact fun e he => absurd he Dict.not_mem_empty
  · intro e he
    -- The entry of the result is that of a variable that was read.
    obtain ⟨e', _, he'⟩ := Report.Accepts.of_mem_each hes (Dict.mem_ofList he)
    obtain ⟨hkey, ⟨_, hnone⟩ | ⟨s, _, hsome⟩⟩ := accepts_variable.mp he'
    · cases hnone
    · obtain rfl := Option.some.inj hsome
      exact hkey

/-! ## Section 4: Mounts -/

/-- An accepted source is normalized, and only an empty mount has none. -/
private theorem mountSource_valid {path : String} {m : Map} {create : Bool} {mode : MountMode} {source : Option String}
    (h : (mountSource path m create mode).Accepts source) :
    (∀ p ∈ source, Normal p) ∧ (mode = .empty ↔ source = none) ∧ (create = true → source.isSome) := by
  -- In all modes but one there has to be a source.
  have hother : (Checker.path path m "source" >>= fun source => do
      require (m.lookup "source").isSome (at_ path "source") "required"
      pure source).Accepts source → (∀ p ∈ source, Normal p) ∧ source ≠ none := by
    intro h
    obtain ⟨src, hsrc, h⟩ := Report.accepts_bind.mp h
    obtain ⟨_, hrequired, h⟩ := Report.accepts_bind.mp h
    obtain rfl := Report.accepts_pure.mp h
    rcases accepts_path.mp hsrc with ⟨s, p, _, hp, rfl⟩ | ⟨hnone, _⟩
    · refine ⟨fun q hq => ?_, by simp⟩
      obtain rfl := Option.some.inj hq
      exact normal_of_absolute hp
    · rw [accepts_require, hnone] at hrequired
      cases hrequired
  cases mode with
  | empty =>
      obtain ⟨_, _, h⟩ := Report.accepts_bind.mp h
      obtain ⟨_, hcreate, h⟩ := Report.accepts_bind.mp h
      obtain ⟨_, _, h⟩ := Report.accepts_bind.mp h
      obtain rfl := Report.accepts_pure.mp h
      rw [accepts_require] at hcreate
      refine ⟨nofun, by simp, fun hc => ?_⟩
      rw [hc] at hcreate
      cases hcreate
  | readWrite =>
      obtain ⟨hnormal, hsome⟩ := hother h
      exact ⟨hnormal, ⟨nofun, fun hnone => absurd hnone hsome⟩, fun _ => Option.isSome_iff_ne_none.mpr hsome⟩
  | readOnly =>
      obtain ⟨hnormal, hsome⟩ := hother h
      exact ⟨hnormal, ⟨nofun, fun hnone => absurd hnone hsome⟩, fun _ => Option.isSome_iff_ne_none.mpr hsome⟩
  | overlay =>
      obtain ⟨hnormal, hsome⟩ := hother h
      exact ⟨hnormal, ⟨nofun, fun hnone => absurd hnone hsome⟩, fun _ => Option.isSome_iff_ne_none.mpr hsome⟩

private theorem mountDestination_valid {path : String} {m : Map} {o : Option String}
    (h : (mountDestination path m).Accepts o) : ∀ p ∈ o, Normal p := by
  rintro p rfl
  unfold mountDestination at h
  split at h
  · rcases accepts_path.mp h with ⟨s, q, _, hq, heq⟩ | ⟨_, heq⟩
    · obtain rfl := Option.some.inj heq
      exact normal_of_absolute hq
    · cases heq
  · cases Report.accepts_pure.mp h

private theorem mountSpec_valid {path : String} {m : Map} {spec : MountSpec}
    (h : (parseMountSpec path m).Accepts (some spec)) : spec.Valid := by
  obtain ⟨_, _, h⟩ := Report.accepts_bind.mp h
  obtain ⟨mode, _, h⟩ := Report.accepts_bind.mp h
  obtain ⟨optional, _, h⟩ := Report.accepts_bind.mp h
  obtain ⟨create, _, h⟩ := Report.accepts_bind.mp h
  obtain ⟨destination, hdestination, h⟩ := Report.accepts_bind.mp h
  obtain ⟨source, hsource, h⟩ := Report.accepts_bind.mp h
  obtain ⟨_, hcreate, h⟩ := Report.accepts_bind.mp h
  obtain ⟨p, hp, rfl⟩ := Option.map_eq_some_iff.mp (Report.accepts_pure.mp h)
  obtain ⟨hnormal, hempty, hsome⟩ := mountSource_valid hsource
  refine ⟨hnormal, ?_, hempty, fun hc => ⟨hsome hc, ?_⟩⟩
  -- The destination is the one that is written, or else the source.
  · rcases Option.or_eq_some_iff.mp hp with hp | ⟨_, hp⟩
    · exact mountDestination_valid hdestination p hp
    · exact hnormal p hp
  · dsimp only at hc
    rw [accepts_require, hc] at hcreate
    simpa using hcreate

private theorem mount_valid {e : String × Value} {r : String × MountSpec} (h : (parseMount e).Accepts (some r)) :
    validateName "mount" r.1 = .ok () ∧ r.2.Valid := by
  obtain ⟨_, hname, h⟩ := Report.accepts_bind.mp h
  obtain ⟨_, hname, _⟩ := accepts_checked.mp hname
  rcases accepts_named.mp h with ⟨_, hnone⟩ | ⟨m, o, _, ho, hr⟩
  · cases hnone
  · obtain ⟨spec, rfl, rfl⟩ := Option.map_eq_some_iff.mp hr
    exact ⟨hname, mountSpec_valid ho⟩

/-- Of those that are seen no two have one destination, and each is seen or dropped. -/
theorem conflicts_valid {es : List (String × MountSpec)} {s out : List (String × MountSpec) × List String}
    (h : (es.foldlM conflict s).Accepts out) (hs : (s.1.map fun e => e.2.destination).Nodup) :
    (out.1.map fun e => e.2.destination).Nodup ∧ (∀ e ∈ es, e ∈ out.1 ∨ e.1 ∈ out.2) ∧
      (∀ e ∈ s.1, e ∈ out.1) ∧ ∀ name ∈ s.2, name ∈ out.2 := by
  induction es generalizing s with
  | nil =>
      obtain rfl := Report.accepts_pure.mp h
      exact ⟨hs, nofun, fun e he => he, fun name hname => hname⟩
  | cons e es ih =>
      rw [List.foldlM_cons] at h
      obtain ⟨next, hnext, h⟩ := Report.accepts_bind.mp h
      unfold conflict at hnext
      split at hnext
      · split at hnext
        · obtain rfl := Report.accepts_pure.mp hnext
          obtain ⟨hout, hes, hseen, hdropped⟩ := ih h hs
          refine ⟨hout, List.forall_mem_cons.mpr ⟨Or.inr (hdropped _ (by simp)), hes⟩, hseen, fun name hname => ?_⟩
          exact hdropped name (List.mem_append_left _ hname)
        · simp at hnext
      -- With nothing seen at its place the mount joins those that are seen.
      · rename_i hfree
        obtain rfl := Report.accepts_pure.mp hnext
        have hnodup : ((s.1 ++ [e]).map fun e => e.2.destination).Nodup := by
          rw [List.map_append, List.map_singleton, List.nodup_append]
          refine ⟨hs, List.nodup_singleton _, fun p hp q hq heq => ?_⟩
          obtain ⟨f, hf, rfl⟩ := List.mem_map.mp hp
          obtain rfl := List.mem_singleton.mp hq
          exact absurd heq (by simpa using List.find?_eq_none.mp hfree f hf)
        obtain ⟨hout, hes, hseen, hdropped⟩ := ih h hnodup
        refine ⟨hout, List.forall_mem_cons.mpr ⟨Or.inl (hseen e (by simp)), hes⟩, fun f hf => ?_, hdropped⟩
        exact hseen f (List.mem_append_left _ hf)

/-- Accepted mounts are valid: what is left has a destination of its own each. -/
private theorem mounts_valid {v : Option Value} {d : Dict String MountSpec} (h : (parseMounts v).Accepts d) : MountsValid d := by
  rcases accepts_section.mp h with ⟨_, rfl⟩ | ⟨entries, _, h⟩
  · exact ⟨fun e he => absurd he Dict.not_mem_empty, fun e he => absurd he Dict.not_mem_empty, List.nodup_nil⟩
  obtain ⟨mounts, hmounts, h⟩ := Report.accepts_bind.mp h
  obtain ⟨seen, hseen, h⟩ := Report.accepts_bind.mp h
  obtain rfl := Report.accepts_pure.mp h
  -- Each mount left is one that was read.
  have hentry : ∀ e ∈ (Dict.ofList mounts).entries, validateName "mount" e.1 = .ok () ∧ e.2.Valid := by
    intro e he
    obtain ⟨e', _, he'⟩ := Report.Accepts.of_mem_each hmounts (Dict.mem_ofList he)
    exact mount_valid he'
  obtain ⟨hnodup, hall, _⟩ := conflicts_valid hseen List.nodup_nil
  have hsub : ∀ e ∈ ((Dict.ofList mounts).filter fun e => e.1 ∉ seen.2).entries,
      e ∈ (Dict.ofList mounts).entries ∧ e ∈ seen.1 := by
    intro e he
    obtain ⟨hmem, hkept⟩ := List.mem_filter.mp he
    exact ⟨hmem, (hall e hmem).resolve_right (by simpa using hkept)⟩
  refine ⟨fun e he => (hentry e (hsub e he).1).1, fun e he => (hentry e (hsub e he).1).2, ?_⟩
  -- They are among those that are seen, and none is there twice.
  refine List.Nodup.map_on (fun e he e' he' heq => ?_) (List.Nodup.of_map Prod.fst (Dict.distinct _))
  exact List.inj_on_of_nodup_map hnodup (hsub e he).2 (hsub e' he').2 heq

/-! ## Section 5: Keys and Actions -/

/-- The translations of an accepted value are in locales. -/
private theorem keyValue_valid {path : String} {v : Value} {value : KeyValue}
    (h : (parseKeyValue path v).Accepts (some value)) : value.Valid := by
  cases v with
  | null =>
      obtain rfl := Option.some.inj (Report.accepts_pure.mp h)
      trivial
  | bool b =>
      obtain rfl := Option.some.inj (Report.accepts_pure.mp h)
      trivial
  | num n => simp [parseKeyValue] at h
  | str s =>
      obtain rfl := Option.some.inj (Report.accepts_pure.mp h)
      trivial
  | arr items =>
      obtain ⟨list, _, h⟩ := Report.accepts_bind.mp h
      obtain rfl := Option.some.inj (Report.accepts_pure.mp h)
      trivial
  | obj o =>
      obtain ⟨texts, htexts, h⟩ := Report.accepts_bind.mp h
      dsimp only at h
      split at h
      -- The default is filtered out, so what is left are locales.
      · obtain rfl := Option.some.inj (Report.accepts_pure.mp h)
        intro e he
        obtain ⟨hmem, hdefault⟩ := List.mem_filter.mp he
        have hdefault : e.1 ≠ "default" := by simpa using hdefault
        obtain ⟨e', _, he'⟩ := Report.Accepts.of_mem_each htexts (Dict.mem_ofList hmem)
        unfold translation at he'
        split at he'
        · split at he'
          · rename_i hlocale
            obtain rfl := Option.some.inj (Report.accepts_pure.mp he')
            exact ⟨hdefault, hlocale.resolve_left hdefault⟩
          · simp at he'
        · simp at he'
      · simp at h

private theorem key_valid {path : String} {e : String × Value} {r : String × KeyValue}
    (h : (parseKey path e).Accepts (some r)) : ValidKey r.1 ∧ r.2.Valid ∧ r.1 = e.1 := by
  unfold parseKey at h
  dsimp only at h
  split at h
  · simp at h
  rename_i hword
  split at h
  · simp at h
  rename_i hreserved
  -- Neither malformed nor reserved.
  obtain ⟨value, hvalue, h⟩ := Report.accepts_bind.mp h
  obtain ⟨value, rfl, rfl⟩ := Option.map_eq_some_iff.mp (Report.accepts_pure.mp h)
  rw [not_or] at hword
  exact ⟨⟨hword.1, by simpa using hword.2, by simpa using hreserved⟩, keyValue_valid hvalue, rfl⟩

/-- Accepted keys can be set, and are among those written. -/
private theorem keys_valid {path : String} {v : Option Value} {keys : Dict String KeyValue}
    (h : (parseKeys path v).Accepts keys) :
    KeysValid keys ∧ ∀ e ∈ keys.entries, ∀ m, v = some (.obj m) → ∃ e' ∈ m, e.1 = e'.1 := by
  rcases accepts_section.mp h with ⟨_, rfl⟩ | ⟨m, hv, h⟩
  · exact ⟨fun e he => absurd he Dict.not_mem_empty, fun e he => absurd he Dict.not_mem_empty⟩
  obtain ⟨es, hes, h⟩ := Report.accepts_bind.mp h
  obtain rfl := Report.accepts_pure.mp h
  have hentry : ∀ e ∈ (Dict.ofList es).entries, (ValidKey e.1 ∧ e.2.Valid) ∧ ∃ e' ∈ m, e.1 = e'.1 := by
    intro e he
    obtain ⟨e', hmem, he'⟩ := Report.Accepts.of_mem_each hes (Dict.mem_ofList he)
    obtain ⟨hkey, hvalue, hsame⟩ := key_valid he'
    -- The name is that of the key it was read under.
    exact ⟨⟨hkey, hvalue⟩, e', hmem, hsame⟩
  refine ⟨fun e he => (hentry e he).1, fun e he m' hm' => ?_⟩
  rw [hv] at hm'
  cases hm'
  exact (hentry e he).2

private theorem action_valid {path : String} {m : Map} {a : Action} (h : (parseAction path m).Accepts a) : a.Valid := by
  obtain ⟨arguments, _, h⟩ := Report.accepts_bind.mp h
  obtain ⟨keys, hkeys, h⟩ := Report.accepts_bind.mp h
  obtain rfl := Report.accepts_pure.mp h
  -- No key of the action is `arguments`, as those are filtered out before.
  obtain ⟨hvalid, hfrom⟩ := keys_valid hkeys
  refine ⟨hvalid, fun e he => ?_⟩
  obtain ⟨e', he', hsame⟩ := hfrom e he _ rfl
  rw [hsame]
  simpa using (List.mem_filter.mp he').2

/-- Accepted actions are valid. -/
private theorem actions_valid {path : String} {v : Option Value} {actions : Dict String (Option Action)}
    (h : (parseActions path v).Accepts actions) : ActionsValid actions := by
  rcases accepts_section.mp h with ⟨_, rfl⟩ | ⟨m, hv, h⟩
  · exact fun e he => absurd he Dict.not_mem_empty
  obtain ⟨es, hes, h⟩ := Report.accepts_bind.mp h
  obtain rfl := Report.accepts_pure.mp h
  intro e he
  obtain ⟨e', hmem, he'⟩ := Report.Accepts.of_mem_each hes (Dict.mem_ofList he)
  unfold actionEntry at he'
  dsimp only at he'
  split at he'
  · simp at he'
  rename_i hword
  rw [not_or] at hword
  have hword : e'.1 ≠ "" ∧ e'.1.toList.all Install.isWordChar = true := ⟨hword.1, by simpa using hword.2⟩
  split at he'
  -- An action that is null removes a copied one.
  · obtain rfl := Option.some.inj (Report.accepts_pure.mp he')
    exact ⟨hword, nofun⟩
  · rcases accepts_named.mp he' with ⟨_, hnone⟩ | ⟨m', o, _, ho, hr⟩
    · cases hnone
    · obtain ⟨a, haction, ha⟩ := Report.accepts_bind.mp ho
      obtain rfl := Report.accepts_pure.mp ha
      obtain rfl := Option.some.inj hr
      refine ⟨hword, fun a' ha' => ?_⟩
      obtain rfl := Option.some.inj ha'
      exact action_valid haction

/-! ## Section 6: Apps -/

/-- An accepted source is a desktop file id. -/
theorem checkSourceId_valid {path : String} {sourceId : Option String} {u : Unit}
    (h : (checkSourceId path sourceId).Accepts u) : ∀ s ∈ sourceId, validateAppId s = .ok () := by
  rintro s rfl
  obtain ⟨_, hs, _⟩ := Report.accepts_bind.mp h
  obtain ⟨_, hs, _⟩ := accepts_checked.mp hs
  exact hs

private theorem entryParts_valid {path id : String} {m : Map} {parts : EntryParts} (h : (parseEntryParts path id m).Accepts parts) :
    parts.id = id ∧ (∀ s ∈ parts.sourceId, validateAppId s = .ok ()) ∧ KeysValid parts.keys := by
  obtain ⟨sourceId, _, h⟩ := Report.accepts_bind.mp h
  obtain ⟨_, hsource, h⟩ := Report.accepts_bind.mp h
  obtain ⟨removeArguments, _, h⟩ := Report.accepts_bind.mp h
  obtain ⟨keys, hkeys, h⟩ := Report.accepts_bind.mp h
  obtain rfl := Report.accepts_pure.mp h
  exact ⟨rfl, checkSourceId_valid hsource, (keys_valid hkeys).1⟩

/-- An accepted application has a command. -/
private theorem run_valid {sandbox name path : String} {m : Map} {run : List String}
    (h : (parseRun sandbox name path m).Accepts run) : run ≠ [] := by
  obtain ⟨given, _, h⟩ := Report.accepts_bind.mp h
  split at h
  -- Only the default app may leave `run` out.
  · split at h
    · obtain rfl := Report.accepts_pure.mp h
      exact List.cons_ne_nil _ _
    · simp at h
  · obtain ⟨_, hrun, h⟩ := Report.accepts_bind.mp h
    obtain rfl := Report.accepts_pure.mp h
    simpa using hrun

/-- An accepted application is valid, its parts being. -/
private theorem application_valid {ctx : Context} {sandbox name path : String} {m : Map} {parts : EntryParts} {a : Application}
    (hid : validateAppId parts.id = .ok ()) (hsource : ∀ s ∈ parts.sourceId, validateAppId s = .ok ())
    (hkeys : KeysValid parts.keys) (h : (parseApplication ctx sandbox name path m parts).Accepts a) :
    a.Valid ctx sandbox name := by
  obtain ⟨_, _, h⟩ := Report.accepts_bind.mp h
  obtain ⟨run, hrun, h⟩ := Report.accepts_bind.mp h
  obtain ⟨environment, henvironment, h⟩ := Report.accepts_bind.mp h
  obtain ⟨actions, hactions, h⟩ := Report.accepts_bind.mp h
  obtain ⟨noDisplay, _, h⟩ := Report.accepts_bind.mp h
  obtain rfl := Report.accepts_pure.mp h
  refine ⟨run_valid hrun, environment_valid henvironment, hid, fun s hs => ?_, hkeys, actions_valid hactions, rfl⟩
  dsimp only at hs
  split at hs
  -- What is inherited is the host's entry of the sandbox's own name.
  · rename_i hdefault
    unfold inherited at hs
    split at hs
    · rename_i hentry
      exact Or.inr ⟨hdefault.1, (Option.some.inj hs).symm, hentry⟩
    · cases hs
  · exact Or.inl (hsource s hs)

private theorem autostart_valid {sandbox path : String} {m : Map} {parts : EntryParts} {a : Autostart}
    (hid : validateAppId parts.id = .ok ()) (hsource : ∀ s ∈ parts.sourceId, validateAppId s = .ok ())
    (hkeys : KeysValid parts.keys) (h : (parseAutostart sandbox path m parts).Accepts a) : a.Valid := by
  obtain ⟨_, _, h⟩ := Report.accepts_bind.mp h
  obtain ⟨app, _, h⟩ := Report.accepts_bind.mp h
  obtain rfl := Report.accepts_pure.mp h
  exact ⟨hid, hsource, hkeys⟩

/-- An accepted app is valid, of whichever kind. -/
private theorem appSpec_valid {ctx : Context} {sandbox name path : String} {m : Map} {a : AppSpec}
    (h : (parseAppSpec ctx sandbox name path m).Accepts (some a)) : a.Valid ctx sandbox name := by
  obtain ⟨kind, _, h⟩ := Report.accepts_bind.mp h
  obtain ⟨given, _, h⟩ := Report.accepts_bind.mp h
  obtain ⟨_, hid, h⟩ := Report.accepts_bind.mp h
  obtain ⟨_, hid, _⟩ := accepts_checked.mp hid
  obtain ⟨suppress, _, h⟩ := Report.accepts_bind.mp h
  -- An entry that only hides has an id and nothing else.
  cases suppress with
  | true =>
      obtain ⟨_, _, h⟩ := Report.accepts_bind.mp h
      obtain rfl := Option.some.inj (Report.accepts_pure.mp h)
      exact hid
  | false =>
      obtain ⟨parts, hparts, h⟩ := Report.accepts_bind.mp h
      obtain ⟨spec, hspec, h⟩ := Report.accepts_bind.mp h
      obtain rfl := Option.some.inj (Report.accepts_pure.mp h)
      obtain ⟨hsame, hsource, hkeys⟩ := entryParts_valid hparts
      rw [← hsame] at hid
      cases kind with
      | application =>
          obtain ⟨a, ha, hspec⟩ := Report.accepts_bind.mp hspec
          obtain rfl := Report.accepts_pure.mp hspec
          exact application_valid hid hsource hkeys ha
      | autostart =>
          obtain ⟨a, ha, hspec⟩ := Report.accepts_bind.mp hspec
          obtain rfl := Report.accepts_pure.mp hspec
          exact autostart_valid hid hsource hkeys ha

/-- An accepted app has a name that it can have. -/
theorem app_valid {ctx : Context} {sandbox : String} {e : String × Value} {r : String × AppSpec}
    (h : (parseApp ctx sandbox e).Accepts (some r)) : validateName "app" r.1 = .ok () ∧ r.2.Valid ctx sandbox r.1 := by
  obtain ⟨_, hname, h⟩ := Report.accepts_bind.mp h
  obtain ⟨_, hvalid, rfl⟩ := accepts_checked.mp hname
  rcases accepts_named.mp h with ⟨_, hnone⟩ | ⟨m, o, _, ho, hr⟩
  · cases hnone
  · obtain ⟨a, rfl, rfl⟩ := Option.map_eq_some_iff.mp hr
    exact ⟨hvalid, appSpec_valid ho⟩

/-- The check of the apps: what they start is there, and the ids of those with a file are noted and distinct. -/
theorem accepts_checkApps {sandbox : String} {apps : Dict String AppSpec} {es : List (String × AppSpec)}
    {ids out : List ((Kind × String) × String)} (hids : (ids.map Prod.fst).Nodup) :
    (es.foldlM (checkApp sandbox apps) ids).Accepts out ↔
      (∀ e ∈ es, ∀ s, e.2 = .autostart s → (apps.lookup s.app).any AppSpec.isApplication = true) ∧
        out = ids ++ (es.filter fun e => e.2.hasFile).map (fun e => ((e.2.kind, e.2.id), e.1)) ∧
        (out.map Prod.fst).Nodup := by
  have hstarted : ∀ (name : String) (a : AppSpec) (u : Unit), (checkStarted sandbox apps name a).Accepts u ↔
      ∀ s, a = .autostart s → (apps.lookup s.app).any AppSpec.isApplication = true := by
    intro name a u
    cases a with
    | application a => simp [checkStarted]
    | suppress kind id => simp [checkStarted]
    | autostart s =>
        -- Either message is a problem, so an app that is not there is never accepted.
        cases hfound : apps.lookup s.app with
        | none =>
            by_cases hdefault : s.app = sandbox
            · subst hdefault
              simp [checkStarted, hfound]
            · simp [checkStarted, hfound, hdefault]
        | some b => cases b <;> simp [checkStarted, hfound, AppSpec.isApplication]
  -- Induction over the entries; the ids noted so far are distinct by hypothesis, and stay so.
  induction es generalizing ids with
  | nil =>
      rw [List.foldlM_nil, Report.accepts_pure]
      constructor
      · rintro rfl
        exact ⟨nofun, by simp, hids⟩
      · rintro ⟨_, hout, _⟩
        simpa using hout.symm
  | cons e es ih =>
      rw [List.foldlM_cons, Report.accepts_bind]
      unfold checkApp
      constructor
      · rintro ⟨next, hnext, hrest⟩
        obtain ⟨_, hstart, hnext⟩ := Report.accepts_bind.mp hnext
        have hfirst := (hstarted e.1 e.2 _).mp hstart
        unfold checkId at hnext
        split at hnext
        · rename_i hfile
          obtain rfl := Report.accepts_pure.mp hnext
          obtain ⟨hes, hout, hnodup⟩ := (ih hids).mp hrest
          refine ⟨List.forall_mem_cons.mpr ⟨hfirst, hes⟩, ?_, hnodup⟩
          rw [List.filter_cons_of_neg (by simpa using hfile)]
          exact hout
        · rename_i hfile
          split at hnext
          · simp at hnext
          -- An id that is not noted yet joins those that are.
          · rename_i hfree
            obtain rfl := Report.accepts_pure.mp hnext
            have hnodup : ((ids ++ [((e.2.kind, e.2.id), e.1)]).map Prod.fst).Nodup := by
              rw [List.map_append, List.map_singleton, List.nodup_append]
              refine ⟨hids, List.nodup_singleton _, fun k hk k' hk' heq => ?_⟩
              obtain ⟨f, hf, rfl⟩ := List.mem_map.mp hk
              obtain rfl := List.mem_singleton.mp hk'
              have := List.lookup_eq_none_iff.mp hfree f hf
              simp [heq] at this
            obtain ⟨hes, hout, hnodup⟩ := (ih hnodup).mp hrest
            refine ⟨List.forall_mem_cons.mpr ⟨hfirst, hes⟩, ?_, hnodup⟩
            rw [List.filter_cons_of_pos (by simpa using hfile), hout]
            simp
      · rintro ⟨hes, hout, hnodup⟩
        obtain ⟨hfirst, hes⟩ := List.forall_mem_cons.mp hes
        cases hfile : e.2.hasFile with
        | false =>
            rw [List.filter_cons_of_neg (by simp [hfile])] at hout
            refine ⟨ids, Report.accepts_bind.mpr ⟨(), (hstarted e.1 e.2 _).mpr hfirst, ?_⟩,
              (ih hids).mpr ⟨hes, hout, hnodup⟩⟩
            unfold checkId
            rw [if_pos (by simp [hfile])]
            exact Report.accepts_pure.mpr rfl
        | true =>
            rw [List.filter_cons_of_pos (by simpa using hfile), List.map_cons, ← List.singleton_append, ← List.append_assoc] at hout
            -- The other way, the ids of all are distinct, so this one is not among those before.
            have hfirstNodup : ((ids ++ [((e.2.kind, e.2.id), e.1)]).map Prod.fst).Nodup := by
              rw [hout, List.map_append] at hnodup
              exact (List.nodup_append.mp hnodup).1
            have hfree : ids.lookup (e.2.kind, e.2.id) = none := by
              refine List.lookup_eq_none_iff.mpr fun f hf => ?_
              rw [List.map_append, List.map_singleton, List.nodup_append] at hfirstNodup
              have hne := hfirstNodup.2.2 f.1 (List.mem_map.mpr ⟨f, hf, rfl⟩) _ List.mem_cons_self
              simpa using Ne.symm hne
            refine ⟨_, Report.accepts_bind.mpr ⟨(), (hstarted e.1 e.2 _).mpr hfirst, ?_⟩,
              (ih hfirstNodup).mpr ⟨hes, hout, hnodup⟩⟩
            unfold checkId
            rw [if_neg (by simp [hfile]), hfree]
            exact Report.accepts_pure.mpr rfl

/-- Accepted apps are valid: those that are written, and the default app where it is left out. -/
private theorem apps_valid {ctx : Context} {sandbox : String} {v : Option Value} {apps : Dict String AppSpec}
    (h : (parseApps ctx sandbox v).Accepts apps) : AppsValid ctx sandbox apps := by
  obtain ⟨entries, _, h⟩ := Report.accepts_bind.mp h
  obtain ⟨parsed, hparsed, h⟩ := Report.accepts_bind.mp h
  obtain ⟨ids, hids, h⟩ := Report.accepts_bind.mp h
  have happs := Report.accepts_pure.mp h
  rw [happs] at hids
  have hnil : (([] : List ((Kind × String) × String)).map Prod.fst).Nodup := List.nodup_nil
  obtain ⟨hstarted, hout, hnodup⟩ := (accepts_checkApps hnil).mp hids
  have hwritten : ∀ e ∈ (Dict.ofList parsed).entries,
      validateName "app" e.1 = .ok () ∧ e.2.Valid ctx sandbox e.1 := by
    intro e he
    -- An entry that was read came from one that is written.
    obtain ⟨e', _, he'⟩ := Report.Accepts.of_mem_each hparsed (Dict.mem_ofList he)
    exact app_valid he'
  refine ⟨fun e he => ?_, hstarted, ?_⟩
  · rw [← happs] at he
    split at he
    · exact Or.inl (hwritten e he)
    -- What was inserted is the default app, which is valid in a way of its own.
    · rcases Dict.mem_insert he with rfl | he
      · exact Or.inr rfl
      · exact Or.inl (hwritten e he)
  · rw [hout, List.nil_append, List.map_map] at hnodup
    exact hnodup

/-! ## Section 7: Tasks and Configs -/

/-- Each section is accepted, and gives its part of the config. -/
structure BodyAccepts (ctx : Context) (top : Map) (b : Body) : Prop where
  known : ∀ e ∈ top, e.1 ∈ sections
  sandbox : (parseSandbox (top.lookup "sandbox")).Accepts (b.idleTimeout, b.allow32bit)
  home : (parseHome ctx (top.lookup "home")).Accepts b.home
  devices : (parseDevices (top.lookup "devices")).Accepts b.devices
  dbus : (parseDbus (top.lookup "dbus")).Accepts b.dbus
  network : (parseNetwork (top.lookup "network")).Accepts b.network
  display : (parseDisplay (top.lookup "display")).Accepts b.display
  xwayland : (parseXwayland b.display (top.lookup "xwayland")).Accepts b.xwayland
  links : (parseLinks (top.lookup "links")).Accepts b.links
  environment : (environment "environment" (top.lookup "environment")).Accepts b.environment
  mount : (parseMounts (top.lookup "mount")).Accepts b.mount

/-- A config is accepted section by section. -/
theorem accepts_body {ctx : Context} {v : Value} {top : Map} {b : Body} :
    (parseBody ctx v).Accepts (top, b) ↔ v = .obj top ∧ BodyAccepts ctx top b := by
  unfold parseBody
  constructor
  · intro h
    obtain ⟨given, hgiven, h⟩ := Report.accepts_bind.mp h
    obtain ⟨m, rfl, rfl⟩ := accepts_object.mp hgiven
    obtain ⟨_, hknown, h⟩ := Report.accepts_bind.mp h
    obtain ⟨sandbox, hsandbox, h⟩ := Report.accepts_bind.mp h
    obtain ⟨home, hhome, h⟩ := Report.accepts_bind.mp h
    obtain ⟨devices, hdevices, h⟩ := Report.accepts_bind.mp h
    obtain ⟨dbus, hdbus, h⟩ := Report.accepts_bind.mp h
    obtain ⟨network, hnetwork, h⟩ := Report.accepts_bind.mp h
    obtain ⟨display, hdisplay, h⟩ := Report.accepts_bind.mp h
    obtain ⟨xwayland, hxwayland, h⟩ := Report.accepts_bind.mp h
    obtain ⟨links, hlinks, h⟩ := Report.accepts_bind.mp h
    obtain ⟨environment, henvironment, h⟩ := Report.accepts_bind.mp h
    obtain ⟨mount, hmount, h⟩ := Report.accepts_bind.mp h
    obtain ⟨rfl, rfl⟩ := Prod.mk.inj (Report.accepts_pure.mp h)
    exact ⟨rfl, accepts_known.mp hknown, hsandbox, hhome, hdevices, hdbus, hnetwork, hdisplay, hxwayland, hlinks,
      henvironment, hmount⟩
  · rintro ⟨rfl, h⟩
    refine Report.accepts_bind.mpr ⟨some top, accepts_object.mpr ⟨top, rfl, rfl⟩, ?_⟩
    refine Report.accepts_bind.mpr ⟨(), accepts_known.mpr h.known, ?_⟩
    refine Report.accepts_bind.mpr ⟨_, h.sandbox, ?_⟩
    refine Report.accepts_bind.mpr ⟨_, h.home, ?_⟩
    refine Report.accepts_bind.mpr ⟨_, h.devices, ?_⟩
    refine Report.accepts_bind.mpr ⟨_, h.dbus, ?_⟩
    refine Report.accepts_bind.mpr ⟨_, h.network, ?_⟩
    refine Report.accepts_bind.mpr ⟨_, h.display, ?_⟩
    refine Report.accepts_bind.mpr ⟨_, h.xwayland, ?_⟩
    refine Report.accepts_bind.mpr ⟨_, h.links, ?_⟩
    refine Report.accepts_bind.mpr ⟨_, h.environment, ?_⟩
    exact Report.accepts_bind.mpr ⟨_, h.mount, Report.accepts_pure.mpr rfl⟩

/-- The sections of an accepted config are valid. -/
private theorem body_valid {ctx : Context} {v : Value} {parsed : Map × Body} (h : (parseBody ctx v).Accepts parsed) :
    parsed.2.Valid ctx := by
  obtain ⟨_, h⟩ := accepts_body.mp h
  exact ⟨home_valid h.home, devices_valid h.devices, dbus_valid h.dbus, xwayland_valid h.xwayland,
    environment_valid h.environment, mounts_valid h.mount⟩

private theorem command_valid {path : String} {m : Map} {command : List String}
    (h : (parseCommand path m).Accepts command) : command ≠ [] := by
  unfold parseCommand at h
  split at h
  · obtain ⟨run, _, h⟩ := Report.accepts_bind.mp h
    obtain ⟨_, hrun, h⟩ := Report.accepts_bind.mp h
    obtain rfl := Report.accepts_pure.mp h
    simpa using hrun
  · rename_i hscript
    obtain ⟨script, hstring, h⟩ := Report.accepts_bind.mp h
    obtain rfl := Report.accepts_pure.mp h
    rcases accepts_string.mp hstring with ⟨s, _, rfl⟩ | ⟨hnone, _⟩
    · exact List.cons_ne_nil _ _
    · rw [hscript] at hnone
      cases hnone
  · simp at h

/-- An accepted task is valid, and so is its own config. -/
private theorem taskSpec_valid {ctx : Context} {tasks : Map} {apps : Dict String AppSpec} {name path : String} {m : Map}
    {t : TaskSpec} (h : (parseTaskSpec ctx tasks apps name path m).Accepts (some t)) : t.Valid ctx apps := by
  obtain ⟨_, _, h⟩ := Report.accepts_bind.mp h
  obtain ⟨command, hcommand, h⟩ := Report.accepts_bind.mp h
  obtain ⟨app, _, h⟩ := Report.accepts_bind.mp h
  obtain ⟨_, happ, h⟩ := Report.accepts_bind.mp h
  obtain ⟨_, _, h⟩ := Report.accepts_bind.mp h
  split at h
  · simp at h
  obtain ⟨spec, hspec, h⟩ := Report.accepts_bind.mp h
  obtain ⟨_, hbus, h⟩ := Report.accepts_bind.mp h
  obtain rfl := Option.some.inj (Report.accepts_pure.mp h)
  obtain ⟨parsed, hparsed, hspec⟩ := Report.accepts_bind.mp hspec
  obtain rfl := Report.accepts_pure.mp hspec
  have hvalid := body_valid (Report.accepts_adopt.mp hparsed)
  refine ⟨command_valid hcommand, ?_, ⟨hvalid.home, hvalid.devices, hvalid.dbus, hvalid.xwayland, hvalid.environment,
    hvalid.mount⟩, rfl⟩
  rintro a rfl
  refine ⟨accepts_require.mp happ, ?_⟩
  rw [accepts_require] at hbus
  simpa [Option.isSome_iff_ne_none] using hbus

private theorem tasks_valid {ctx : Context} {tasks : Map} {apps : Dict String AppSpec} {v : Option Value}
    {task : Dict String TaskSpec} (h : (parseTasks ctx tasks apps v).Accepts task) :
    ∀ e ∈ task.entries, validWord e.1 = true ∧ e.2.Valid ctx apps := by
  rcases accepts_section.mp h with ⟨_, rfl⟩ | ⟨entries, _, h⟩
  · exact fun e he => absurd he Dict.not_mem_empty
  obtain ⟨out, hout, h⟩ := Report.accepts_bind.mp h
  obtain rfl := Report.accepts_pure.mp h
  intro e he
  obtain ⟨e', _, he'⟩ := Report.Accepts.of_mem_each hout (Dict.mem_ofList he)
  unfold parseTask at he'
  dsimp only at he'
  split at he'
  · simp at he'
  · rename_i hword
    rcases accepts_named.mp he' with ⟨_, hnone⟩ | ⟨m, o, _, ho, hr⟩
    · cases hnone
    · obtain ⟨t, rfl, rfl⟩ := Option.map_eq_some_iff.mp hr
      exact ⟨by simpa using hword, taskSpec_valid ho⟩

/-- An accepted config is valid. -/
theorem config_valid {ctx : Context} {tasks : Map} {v : Value} {s : Spec} (h : (parseConfig ctx tasks v).Accepts s) :
    s.Valid ctx := by
  obtain ⟨parsed, hparsed, h⟩ := Report.accepts_bind.mp h
  -- The sections are the same for a sandbox with a name and without.
  have hbody := body_valid hparsed
  split at h
  · rename_i sandbox hname
    obtain ⟨app, happ, h⟩ := Report.accepts_bind.mp h
    obtain ⟨task, htask, h⟩ := Report.accepts_bind.mp h
    obtain rfl := Report.accepts_pure.mp h
    refine ⟨hbody, fun name hmem => ?_, tasks_valid htask, fun hnone => ?_⟩
    · rw [hname] at hmem
      obtain rfl := Option.some.inj hmem
      exact apps_valid happ
    · rw [hname] at hnone
      cases hnone
  · rename_i hname
    obtain rfl := Report.accepts_pure.mp h
    refine ⟨hbody, fun name hmem => ?_, fun e he => absurd he Dict.not_mem_empty, fun _ => ⟨rfl, rfl⟩⟩
    rw [hname] at hmem
    cases hmem

/-- Every config that is accepted is valid, whatever its JSON and that of its tasks is. -/
theorem accepted_valid (config : Value) (tasks : Map) (ctx : Context) :
    ∀ s, fromJson config tasks ctx = .ok s → s.Valid ctx := by
  intro s h
  exact config_valid (Report.finish_eq_ok.mp h)

/-- A named sandbox, for whose name the host has a desktop entry. -/
def editor : Context where
  name := some "code"
  storage := some "/home/u/Sandbox/code"
  hostEntry := fun id => id == "code"

/-- A camera and a USB device, a bus name, two mounts, an application with its autostart entry, and a task
that borrows its identity. -/
def editorConfig : Value :=
  .obj
    [("devices", .obj [("camera", .bool true), ("usb", .arr [.str "1d6b:0002"])]),
      ("dbus", .obj [("talk", .arr [.str "org.example.Helper"])]),
      ("mount", .obj [("data", .obj [("source", .str "/srv/data"), ("mode", .str "read-only")]),
        ("empty", .obj [("destination", .str "/srv/empty"), ("mode", .str "empty")])]),
      ("app", .obj [("shell", .obj [("run", .arr [.str "sh"]), ("id", .str "org.example.Shell")]),
        ("login", .obj [("kind", .str "autostart"), ("app", .str "shell")])]),
      ("task", .obj [("build", .obj [("run", .arr [.str "make"]), ("app", .str "shell")])])]

theorem accepted_valid_editor :
    ∃ s, fromJson editorConfig [("build", .obj [("dbus", .obj [])])] editor = .ok s ∧ s.Valid editor ∧
      s.devices = [.gpu, .audio, .camera, .usb 7531 2] ∧ s.mount.entries.map Prod.fst = ["data", "empty"] ∧
      s.app.entries.map Prod.fst = ["code", "login", "shell"] ∧ s.task.entries.map Prod.fst = ["build"] := by
  obtain ⟨s, hs, hparts⟩ := exists_of_any
    (o := (fromJson editorConfig [("build", .obj [("dbus", .obj [])])] editor).toOption)
    (p := fun s => s.devices = [.gpu, .audio, .camera, .usb 7531 2] ∧
      s.mount.entries.map Prod.fst = ["data", "empty"] ∧
      s.app.entries.map Prod.fst = ["code", "login", "shell"] ∧ s.task.entries.map Prod.fst = ["build"])
    (by decide)
  have hok := toOption_eq_some.mp hs
  exact ⟨s, hok, accepted_valid _ _ _ s hok, of_decide_eq_true hparts⟩

end Psbox.Config
