import Psbox.Foundations.Fallible
import Psbox.Sandbox.Plan

/-!
# Keys

The keys of valid identities are read back as the identities that they were made of, and every key that
is read at all is one of those. So identities and keys are in bijection (`identities_and_keys`), and two
sandboxes share no file of the socket directory and no unit.
-/

namespace Psbox.Sandbox

open Psbox.Foundations

/-! ## Section 1: Names -/

/-- `HostEnv::socket_dir`, the per-user directory for supervisor sockets. -/
def HostEnv.socketDir (host : HostEnv) : Path :=
  host.runtimeDir ++ ["psbox"]

def HostEnv.socketPath (host : HostEnv) (id : Identity) : Path :=
  host.socketDir ++ [id.key ++ ".sock"]

/-- Where the settings of an unnamed sandbox are left for its supervisor. -/
def HostEnv.settingsPath (host : HostEnv) (id : Identity) : Path :=
  host.socketDir ++ [id.key ++ ".json"]

/-- `UNIT_PREFIX` (`systemd.rs`). -/
def unitPrefix : String := "psbox@"

def socketUnit (key : String) : String :=
  unitPrefix ++ key ++ ".socket"

def serviceUnit (key : String) : String :=
  unitPrefix ++ key ++ ".service"

/-- The files of an identity in the socket directory. -/
def HostEnv.files (host : HostEnv) (id : Identity) : List Path :=
  [host.socketPath id, host.settingsPath id]

def Identity.units (id : Identity) : List String :=
  [socketUnit id.key, serviceUnit id.key]

/-! ## Section 2: Valid Names -/

theorem validWord_iff {s : String} :
    validWord s = true ↔ s ≠ "" ∧ ∀ c ∈ s.toList, isWordChar c = true := by
  simp [validWord]

theorem dot_notMem {s : String} (h : validWord s = true) : '.' ∉ s.toList := by
  intro hdot
  exact absurd ((validWord_iff.mp h).2 '.' hdot) (by decide)

theorem validateSandboxName_eq_ok {name : String} : validateSandboxName name = .ok () ↔
    validWord name = true ∧ name.toList.head? ≠ some '-' ∧ name ≠ unnamed := by
  unfold validateSandboxName
  split
  · rename_i hinvalid
    constructor
    · intro h
      cases h
    · rintro ⟨hword, hhead, _⟩
      simp [hword, hhead] at hinvalid
  · rename_i hvalid
    have hword : validWord name = true ∧ name.toList.head? ≠ some '-' := by simpa using hvalid
    split
    · rename_i hreserved
      simp [hreserved]
    · rename_i hfree
      simp [hword, hfree]

namespace Identity

private theorem validateExtra_eq_ok {kind v : String} : validateExtra kind v = .ok () ↔ validWord v = true := by
  unfold validateExtra
  split
  · rename_i hinvalid
    constructor
    · intro h
      cases h
    · intro h
      simp [h] at hinvalid
  · rename_i hvalid
    simpa using hvalid

private theorem validate_instance {sandbox i : String} : (instance_ sandbox (some i)).validate = .ok () ↔
    validateSandboxName sandbox = .ok () ∧ validWord i = true := by
  rw [validate, check_bind_eq_ok_iff, validateExtra_eq_ok]

private theorem validate_task {sandbox name : String} : (task sandbox name).validate = .ok () ↔
    validateSandboxName sandbox = .ok () ∧ validWord name = true := by
  rw [validate, check_bind_eq_ok_iff, validateExtra_eq_ok]

private theorem validate_unnamed {id : String} : (Identity.unnamed id).validate = .ok () ↔
    id.utf8ByteSize = 16 ∧ ∀ c ∈ id.toList, isAsciiHexdigit c = true ∧ c.isUpper = false := by
  rw [validate]
  split
  · rename_i hinvalid
    constructor
    · intro h
      cases h
    · rintro ⟨hsize, hdigits⟩
      rcases hinvalid with hne | hall
      · exact absurd hsize hne
      · simp only [Bool.not_eq_true', List.all_eq_false] at hall
        obtain ⟨c, hc, hnot⟩ := hall
        simp [hdigits c hc] at hnot
  · rename_i hvalid
    simpa using hvalid

/-! ## Section 3: There and Back -/

private theorem toList_key_instance (sandbox i : String) : (instance_ sandbox (some i)).key.toList =
    sandbox.toList ++ '.' :: ("instance-".toList ++ i.toList) := by
  simp [key]

private theorem toList_key_task (sandbox name : String) :
    (task sandbox name).key.toList = sandbox.toList ++ '.' :: ("task-".toList ++ name.toList) := by
  simp [key]

private theorem toList_key_unnamed (id : String) :
    (Identity.unnamed id).key.toList = Sandbox.unnamed.toList ++ '.' :: id.toList := by
  simp [key]

private theorem dropPrefix?_append (p rest : List Char) : (p ++ rest).dropPrefix? p = some rest :=
  List.dropPrefix?_append_of_beq rest (by simp)

private theorem dropPrefix?_eq_some {p l rest : List Char} (h : l.dropPrefix? p = some rest) : l = p ++ rest := by
  obtain ⟨p', rfl, hp⟩ := List.dropPrefix?_eq_some_iff.mp h
  rw [eq_of_beq hp]

/-- No hexadecimal digit begins the prefix of an instance or of a task. -/
theorem dropPrefix?_hex {p l : List Char} {c : Char} (hp : p.head? = some c) (hc : isAsciiHexdigit c = false)
    (hl : ∀ d ∈ l, isAsciiHexdigit d = true) : l.dropPrefix? p = none := by
  cases hdrop : l.dropPrefix? p with
  | none => rfl
  -- The prefix would start with a letter that is no hexadecimal digit.
  | some rest =>
      have hmem : c ∈ l := by
        rw [dropPrefix?_eq_some hdrop]
        exact List.mem_append_left _ (List.mem_of_head? hp)
      rw [hl c hmem] at hc
      cases hc

/-- The key of a valid identity looks like that identity. -/
theorem parseKey_key {id : Identity} (h : id.validate = .ok ()) : parseKey id.key = .ok id := by
  unfold parseKey
  -- By the kind of identity.
  cases id with
  | instance_ sandbox name =>
      cases name with
      | none =>
          have hdot := dot_notMem (validateSandboxName_eq_ok.mp h).1
          rw [key, breakAt_eq_none.mpr hdot]
      | some i =>
          have hdot := dot_notMem (validateSandboxName_eq_ok.mp (validate_instance.mp h).1).1
          rw [toList_key_instance, breakAt_append hdot]
          dsimp only
          rw [dropPrefix?_append]
          simp
  | task sandbox name =>
      have hdot := dot_notMem (validateSandboxName_eq_ok.mp (validate_task.mp h).1).1
      -- The two prefixes differ in their first character.
      have hother : ("task-".toList ++ name.toList).dropPrefix? "instance-".toList = none := by
        cases hdrop : ("task-".toList ++ name.toList).dropPrefix? "instance-".toList with
        | none => rfl
        | some rest => cases dropPrefix?_eq_some hdrop
      rw [toList_key_task, breakAt_append hdot]
      dsimp only
      rw [hother, dropPrefix?_append]
      simp
  | unnamed id =>
      -- Digits start neither with `instance-` nor with `task-`.
      have hdigits : ∀ c ∈ id.toList, isAsciiHexdigit c = true := fun c hc => ((validate_unnamed.mp h).2 c hc).1
      rw [toList_key_unnamed, breakAt_append (by decide)]
      dsimp only
      rw [dropPrefix?_hex (c := 'i') rfl (by decide) hdigits, dropPrefix?_hex (c := 't') rfl (by decide) hdigits]
      simp

/-- What a key looks like has that key. -/
theorem key_of_parseKey {k : String} {id : Identity} (h : parseKey k = .ok id) : id.key = k := by
  unfold parseKey at h
  split at h
  · cases h
    rfl
  · rename_i sandbox rest hbreak
    obtain ⟨hk, _⟩ := breakAt_eq_some.mp hbreak
    apply String.toList_injective
    split at h
    · rename_i i hi
      -- The key is put together again as it was taken apart.
      cases h
      rw [toList_key_instance, hk, dropPrefix?_eq_some hi]
      simp
    · rename_i t ht
      cases h
      rw [toList_key_task, hk, dropPrefix?_eq_some ht]
      simp
    · split at h
      · rename_i hunnamed
        cases h
        rw [toList_key_unnamed, hk, ← hunnamed]
        simp
      · cases h

private theorem fromKey_key {id : Identity} (h : id.validate = .ok ()) : fromKey id.key = .ok id := by
  rw [fromKey, parseKey_key h]
  show id.validate.bind _ = _
  rw [h]
  rfl

private theorem fromKey_eq_ok {k : String} {id : Identity} (h : fromKey k = .ok id) :
    id.key = k ∧ id.validate = .ok () := by
  obtain ⟨id', hparse, hrest⟩ := bind_eq_ok h
  obtain ⟨hvalid, hsame⟩ := check_bind_eq_ok_iff.mp hrest
  cases hsame
  exact ⟨key_of_parseKey hparse, hvalid⟩

private theorem key_injective {a b : Identity} (ha : a.validate = .ok ()) (hb : b.validate = .ok ())
    (h : a.key = b.key) : a = b := by
  have hread := fromKey_key ha
  rw [h, fromKey_key hb] at hread
  exact (Except.ok.inj hread).symm

end Identity

/-! ## Section 4: Sockets and Units -/

private theorem sock_ne_json (k k' : String) : k ++ ".sock" ≠ k' ++ ".json" := by
  intro h
  -- The last characters differ.
  have hlast := congrArg (fun s : String => s.toList.getLast?) h
  simp at hlast

private theorem socket_ne_service (k k' : String) : k ++ ".socket" ≠ k' ++ ".service" := by
  intro h
  have hlast := congrArg (fun s : String => s.toList.getLast?) h
  simp at hlast

private theorem append_left_injective (ending : String) : Function.Injective (· ++ ending) := by
  intro k k' h
  apply String.toList_injective
  simpa using congrArg String.toList h

private theorem append_right_injective (start : String) : Function.Injective (start ++ ·) := by
  intro k k' h
  apply String.toList_injective
  simpa using congrArg String.toList h

/-- Files of identities with different keys are different. -/
theorem disjoint_files (host : HostEnv) {a b : Identity} (h : a.key ≠ b.key) :
    (host.files a).Disjoint (host.files b) := by
  have hfile : ∀ {k k' : String}, k ≠ k' → host.socketDir ++ [k] ≠ host.socketDir ++ [k'] := by
    intro k k' hne hsame
    exact hne (List.cons.inj (List.append_cancel_left hsame)).1
  intro file ha hb
  rcases List.mem_pair.mp ha with rfl | rfl <;> rcases List.mem_pair.mp hb with hsame | hsame
  · exact hfile ((append_left_injective _).ne h) hsame
  · exact hfile (sock_ne_json _ _) hsame
  · exact hfile (sock_ne_json _ _).symm hsame
  · exact hfile ((append_left_injective _).ne h) hsame

private theorem disjoint_units {a b : Identity} (h : a.key ≠ b.key) : a.units.Disjoint b.units := by
  have hprefixed : unitPrefix ++ a.key ≠ unitPrefix ++ b.key := (append_right_injective _).ne h
  intro unit ha hb
  rcases List.mem_pair.mp ha with rfl | rfl <;> rcases List.mem_pair.mp hb with hsame | hsame
  · exact (append_left_injective _).ne hprefixed hsame
  · exact socket_ne_service _ _ hsame
  · exact socket_ne_service _ _ hsame.symm
  · exact (append_left_injective _).ne hprefixed hsame

/-- Identities and keys are in bijection, and two identities share no socket, settings file or unit. -/
theorem identities_and_keys :
    (∀ id : Identity, id.validate = .ok () → Identity.fromKey id.key = .ok id) ∧
      (∀ (k : String) (id : Identity), Identity.fromKey k = .ok id → id.key = k ∧ id.validate = .ok ()) ∧
      ∀ a b : Identity, a.validate = .ok () → b.validate = .ok () → a ≠ b →
        a.key ≠ b.key ∧ (∀ host : HostEnv, (host.files a).Disjoint (host.files b)) ∧ a.units.Disjoint b.units := by
  refine ⟨fun id => Identity.fromKey_key, fun k id => Identity.fromKey_eq_ok, fun a b ha hb hne => ?_⟩
  -- Two identities of one key are one.
  have hkeys : a.key ≠ b.key := fun hsame => hne (Identity.key_injective ha hb hsame)
  exact ⟨hkeys, fun host => disjoint_files host hkeys, disjoint_units hkeys⟩

/-- A reserved name, and a name with a dot. -/
example : (Identity.fromKey "sandbox.instance-x").isOk = false ∧ (Identity.fromKey "a.task-x.y").isOk = false ∧
    Identity.fromKey "retroarch.task-update" = .ok (.task "retroarch" "update") := by
  decide

end Psbox.Sandbox
