import Mathlib.Data.List.AList
import Psbox.Foundations.Runs
import Psbox.Sandbox.Supervisor

/-!
# Why a Sandbox Needs a Restart

Reloads of the config and removals of devices both leave reasons for a restart behind
(`Supervisor::apply` and `unpublish` of `supervisor.rs`). They run on threads of their own: a
reload touches the reasons once, under the lock of the state, and a removal takes its record
under that lock, detaches the node, and comes back to the reasons. Anything may happen between.

What is pending is, at any time, what the last reload asked for and what could not be done since
(`pending_restart_kept`).
-/

namespace Psbox.Sandbox

open Psbox.Foundations

/-! ## Section 1: Devices -/

/-- A published device, by the first of its names. The others are links that go with it. -/
structure Published where
  devname : String
  /-- All links are in place. -/
  complete : Bool := false
  deriving DecidableEq, Repr

/-- A device's numbers. -/
abbrev Device := Nat × Nat

/-- A running supervisor, with the devices it published. -/
structure Running where
  sup : Sup
  devices : AList fun _ : Device => Published := ∅
  /-- The device that is being removed, and the record it is removed by. One device is
  reconciled at a time. -/
  unpublishing : Option (Device × Published) := none

/-- The reason of a removal that fails. -/
def removalReason (device : Device) (p : Published) : Reason :=
  .removing p.devname device

/-- What the failure to detach a device's node leaves. -/
def Sup.keepReason (s : Sup) (reason : Reason) : Sup :=
  if reason ∈ s.unapplied then s
  else { s with
    unapplied := s.unapplied ++ [reason]
    pendingRestart := s.pendingRestart ++ [reason] }

/-- A device that is gone is no reason any more. -/
def Sup.dropReason (s : Sup) (reason : Reason) : Sup :=
  { s with
    unapplied := s.unapplied.filter (· ≠ reason)
    pendingRestart := s.pendingRestart.filter (· ≠ reason) }

/-- What happens to a running supervisor. -/
inductive Happening where
  /-- What happens to its mounts, reloads among it. -/
  | sandbox (a : Action)
  /-- A device's node is attached, and recorded before its links are made. -/
  | publish (device : Device) (devname : String)
  | linked (device : Device)
  /-- `unpublish` takes the record of a device. -/
  | unpublish (device : Device)
  /-- The node is detached, or that fails. -/
  | unpublished (detached : Bool)

/-- There is no next state while another device is reconciled, or none is. -/
def Running.step (lossy : String → String) (s : Running) : Happening → Option Running
  | .sandbox a => some { s with sup := s.sup.step lossy a }
  | .publish device devname =>
      if s.unpublishing = none then
        some { s with devices := s.devices.insert device { devname := devname } }
      else none
  | .linked device =>
      if s.unpublishing = none then
        match s.devices.lookup device with
        | some p => some { s with devices := s.devices.insert device { p with complete := true } }
        | none => some s
      else none
  | .unpublish device =>
      if s.unpublishing = none then
        match s.devices.lookup device with
        | some p =>
            -- From here on the links are going.
            let p := { p with complete := false }
            some { s with
              devices := s.devices.insert device p
              unpublishing := some (device, p) }
        | none => some s
      else none
  | .unpublished detached =>
      match s.unpublishing with
      | none => none
      | some (device, p) =>
          let reason := removalReason device p
          if detached then
            some { sup := s.sup.dropReason reason, devices := s.devices.erase device }
          else some { s with sup := s.sup.keepReason reason, unpublishing := none }

def Running.start (plan : Plan) (host : Path → Bool) : Running where
  sup := Sup.start plan host

/-! ## Section 2: What Reloads Ask For -/

/-- The restart reasons of the last reload that was accepted: none when it needed no restart,
and the same as before when it was rejected. -/
def Running.lastAsked (lossy : String → String) (s : Running) (a : Happening) (last : List Reason) :
    List Reason :=
  match a with
  | .sandbox (.reload new faults) =>
      if (s.sup.apply lossy new faults).isSome then (s.sup.plan.diff new).restart else last
  | _ => last

def Reason.ofDevice : Reason → Bool
  | .removing _ _ => true
  | _ => false

private theorem ofDevice_settingReasons (old new : Plan) :
    ∀ r ∈ Plan.settingReasons old new, r.ofDevice = false := by
  intro r hr
  simp only [Plan.settingReasons, List.mem_append] at hr
  rcases hr with (((((((hr | hr) | hr) | hr) | hr) | hr) | hr) | hr) | hr
  all_goals
    split at hr
    · rw [List.mem_singleton.mp hr]
      rfl
    · cases hr

private theorem ofDevice_mountReasons (ms : List Mount) :
    ∀ r ∈ Plan.mountReasons ms, r.ofDevice = false := by
  intro r hr
  obtain ⟨m, _, rfl⟩ := List.mem_map.mp hr
  rfl

private theorem mem_of_pass {c : Prop} [Decidable c] {p : Reason → Bool} {l : List Reason} {r : Reason}
    (h : r ∈ if c then l.filter p else l) : r ∈ l := by
  split at h
  · exact List.mem_of_mem_filter h
  · exact h

private theorem mem_of_retained {new : Plan} {reasons : List Reason} {r : Reason}
    (h : r ∈ Plan.retained new reasons) : r ∈ reasons := by
  unfold Plan.retained at h
  extract_lets keep x11 links network home at h
  -- Each of the four passes leaves reasons out or does nothing.
  have hhome : r ∈ home := List.mem_eraseDups.mp h
  have hnetwork : r ∈ network := mem_of_pass hhome
  have hlinks : r ∈ links := mem_of_pass hnetwork
  have hx11 : r ∈ x11 := mem_of_pass hlinks
  exact mem_of_pass hx11

theorem restart_diff (old new : Plan) :
    (old.diff new).restart = Plan.retained new (Plan.settingReasons old new ++
      Plan.mountReasons (Plan.dropped old new) ++ Plan.mountReasons (Plan.added old new)) := by
  unfold Plan.diff
  generalize Plan.retained new _ = restart
  by_cases hnone : restart = []
  · simp [hnone]
  · simp [hnone]

/-- A reload asks for no restart because of a device. -/
theorem ofDevice_restart (old new : Plan) : ∀ r ∈ (old.diff new).restart, r.ofDevice = false := by
  intro r hr
  rw [restart_diff] at hr
  rcases List.mem_append.mp (mem_of_retained hr) with hr | hr
  · rcases List.mem_append.mp hr with hr | hr
    · exact ofDevice_settingReasons old new r hr
    · exact ofDevice_mountReasons _ r hr
  · exact ofDevice_mountReasons _ r hr

/-! ## Section 3: One Step -/

namespace Sup

/-- The reasons are the same. -/
structure SameReasons (s s' : Sup) : Prop where
  pending : s'.pendingRestart = s.pendingRestart
  unapplied : s'.unapplied = s.unapplied

theorem SameReasons.refl (s : Sup) : SameReasons s s :=
  ⟨rfl, rfl⟩

theorem SameReasons.trans {s t u : Sup} (h : SameReasons s t) (h' : SameReasons t u) :
    SameReasons s u :=
  ⟨h'.pending.trans h.pending, h'.unapplied.trans h.unapplied⟩

private theorem sameReasons_mount {lossy : String → String} {s s' : Sup} {src dst : Spelling}
    {mode : MountMode} {ok : Bool} (h : s.mount lossy src dst mode ok = some s') :
    SameReasons s s' := by
  unfold mount at h
  split at h
  · cases h
  split at h
  · cases h
  split at h
  · cases h
  split at h
  · obtain rfl := Option.some.inj h
    exact ⟨rfl, rfl⟩
  · cases h

private theorem sameReasons_mount_getD (lossy : String → String) (s : Sup) (src dst : Spelling)
    (mode : MountMode) (ok : Bool) : SameReasons s ((s.mount lossy src dst mode ok).getD s) := by
  cases h : s.mount lossy src dst mode ok with
  | none => exact .refl s
  | some s' => exact sameReasons_mount h

private theorem sameReasons_umount {s s' : Sup} {dst : Spelling} {ok : Bool} (h : s.umount dst ok = some s') :
    SameReasons s s' := by
  unfold umount at h
  split at h
  · cases h
  split at h
  · obtain ⟨T, _, rfl⟩ := Option.map_eq_some_iff.mp h
    exact ⟨rfl, rfl⟩
  · cases h

private theorem sameReasons_expose (lossy : String → String) (s : Sup) (path : Spelling) (create made ok : Bool) :
    SameReasons s (s.expose lossy path create made ok).1 := by
  unfold expose
  split
  · exact .refl s
  -- Making the file changes the host only.
  have hmade : SameReasons s
      (if create then { s with host := fun p => p = path.path || s.host p } else s) := by
    split <;> exact ⟨rfl, rfl⟩
  dsimp only
  generalize (if create then { s with host := fun p => p = path.path || s.host p } else s) = t at hmade ⊢
  split
  · exact hmade
  have hcounted : SameReasons s { t with docs := t.docs + 1 } := ⟨hmade.pending, hmade.unapplied⟩
  split
  · exact hcounted
  split
  · rename_i s' hmount
    exact hcounted.trans (sameReasons_mount hmount)
  · exact hcounted

theorem sameReasons_remountAll (lossy : String → String) (lms : List LiveMount) (fault : Nat → Bool)
    (s : Sup) : SameReasons s (remountAll lossy lms fault s) := by
  induction lms generalizing fault s with
  | nil => exact .refl s
  | cons lm lms ih => exact (sameReasons_mount_getD lossy s _ _ _ _).trans (ih _ _)

/-- What a reload that is accepted does to the reasons. -/
theorem reasons_apply {lossy : String → String} {s s' : Sup} {new : Plan} {faults : Faults}
    (h : s.apply lossy new faults = some s') :
    (s'.unapplied = s.unapplied ∧ s'.pendingRestart = (s.plan.diff new).restart ++ s.unapplied) ∨
      ((s.plan.diff new).restart = [] ∧ s'.pendingRestart = s'.unapplied) := by
  unfold apply at h
  split at h
  · cases h
  dsimp only at h
  split at h
  · obtain rfl := Option.some.inj h
    exact Or.inl ⟨rfl, rfl⟩
  · rename_i hlive
    obtain ⟨prepared, _, rfl⟩ := Option.map_eq_some_iff.mp h
    refine Or.inr ⟨not_not.mp hlive, rfl⟩

end Sup

/-- What is pending is what the last reload asked for and what could not be done. -/
structure ReasonsKept (s : Running) (last : List Reason) : Prop where
  pending : ∀ r, r ∈ s.sup.pendingRestart ↔ r ∈ last ∨ r ∈ s.sup.unapplied
  noDevice : ∀ r ∈ last, r.ofDevice = false

theorem ReasonsKept.of_same {s t : Running} {last : List Reason} (h : ReasonsKept s last)
    (hsame : Sup.SameReasons s.sup t.sup) : ReasonsKept t last where
  pending := by
    rw [hsame.pending, hsame.unapplied]
    exact h.pending
  noDevice := h.noDevice

private theorem ReasonsKept.keepReason {s : Running} {last : List Reason} (h : ReasonsKept s last)
    (reason : Reason) (t : Running) (ht : t.sup = s.sup.keepReason reason) : ReasonsKept t last := by
  refine ⟨fun r => ?_, h.noDevice⟩
  rw [ht, Sup.keepReason]
  split
  · exact h.pending r
  · simp only [List.mem_append, h.pending r, or_assoc]

private theorem ReasonsKept.dropReason {s : Running} {last : List Reason} (h : ReasonsKept s last)
    (reason : Reason) (hdevice : reason.ofDevice) (t : Running) (ht : t.sup = s.sup.dropReason reason) :
    ReasonsKept t last := by
  refine ⟨fun r => ?_, h.noDevice⟩
  -- The last reload did not ask for a restart because of the device.
  have hlast : r ∈ last → r ≠ reason := by
    rintro hmem rfl
    rw [h.noDevice r hmem] at hdevice
    cases hdevice
  simp only [ht, Sup.dropReason, List.mem_filter, h.pending r, decide_eq_true_eq]
  tauto

theorem ReasonsKept.sandbox {lossy : String → String} {s : Running} {last : List Reason}
    (h : ReasonsKept s last) (a : Action) (t : Running) (ht : t.sup = s.sup.step lossy a) :
    ReasonsKept t (s.lastAsked lossy (.sandbox a) last) := by
  cases a with
  | appear p =>
      apply h.of_same
      rw [ht]
      exact ⟨rfl, rfl⟩
  | mount src dst mode ok =>
      apply h.of_same
      rw [ht]
      exact Sup.sameReasons_mount_getD lossy _ _ _ _ _
  | umount dst ok =>
      apply h.of_same
      rw [ht]
      show Sup.SameReasons s.sup ((s.sup.umount dst ok).getD s.sup)
      cases humount : s.sup.umount dst ok with
      | none => exact .refl _
      | some s' => exact Sup.sameReasons_umount humount
  | expose path create made ok =>
      apply h.of_same
      rw [ht]
      exact Sup.sameReasons_expose lossy _ _ _ _ _
  | reload new faults =>
      have ht : t.sup = (s.sup.apply lossy new faults).getD s.sup := ht
      show ReasonsKept t (if (s.sup.apply lossy new faults).isSome then _ else last)
      cases happly : s.sup.apply lossy new faults with
      | none =>
          -- Rejected, or failed before anything was detached.
          rw [happly] at ht
          apply h.of_same
          rw [ht]
          exact .refl _
      | some s' =>
          rw [happly] at ht
          have ht : t.sup = s' := ht
          refine ⟨fun r => ?_, ofDevice_restart _ _⟩
          rw [ht]
          show _ ↔ r ∈ (s.sup.plan.diff new).restart ∨ _
          rcases Sup.reasons_apply happly with ⟨hunapplied, hpending⟩ | ⟨hnone, hpending⟩
          · rw [hpending, hunapplied, List.mem_append]
          · simp [hpending, hnone]

theorem ReasonsKept.step {lossy : String → String} {s s' : Running} {last : List Reason}
    (h : ReasonsKept s last) {a : Happening} (hstep : s.step lossy a = some s') :
    ReasonsKept s' (s.lastAsked lossy a last) := by
  cases a with
  | sandbox a =>
      obtain rfl := Option.some.inj hstep
      exact h.sandbox a _ rfl
  | publish device devname =>
      simp only [Running.step] at hstep
      split at hstep
      · obtain rfl := Option.some.inj hstep
        exact h.of_same (.refl _)
      · cases hstep
  | linked device =>
      simp only [Running.step] at hstep
      split at hstep
      · split at hstep <;> (obtain rfl := Option.some.inj hstep; exact h.of_same (.refl _))
      · cases hstep
  | unpublish device =>
      simp only [Running.step] at hstep
      split at hstep
      · split at hstep <;> (obtain rfl := Option.some.inj hstep; exact h.of_same (.refl _))
      · cases hstep
  | unpublished detached =>
      simp only [Running.step] at hstep
      split at hstep
      · cases hstep
      · rename_i device p _
        split at hstep
        · obtain rfl := Option.some.inj hstep
          exact h.dropReason (removalReason device p) rfl _ rfl
        · obtain rfl := Option.some.inj hstep
          exact h.keepReason _ _ rfl

/-! ## Section 4: Runs -/

/-- Whatever reloads and removals do, each on its own thread: what could not be done is pending,
and nothing else is but what the last reload that was accepted asked for. -/
theorem pending_restart_kept (lossy : String → String) (plan : Plan) (host : Path → Bool)
    (as : List Happening) (s : Running) (last : List Reason)
    (hrun : run (watched (Running.step lossy) (Running.lastAsked lossy))
      (Running.start plan host, []) as = some (s, last)) :
    (∀ r ∈ s.sup.unapplied, r ∈ s.sup.pendingRestart) ∧
      ∀ r, r ∈ s.sup.pendingRestart ↔ r ∈ last ∨ r ∈ s.sup.unapplied := by
  have hkept : ReasonsKept s last := by
    refine run_invariant (I := fun x : Running × List Reason => ReasonsKept x.1 x.2) ?_ ?_ hrun
    · intro (t, asked) a (t', asked') h hstep
      obtain ⟨hnext, rfl⟩ : t.step lossy a = some t' ∧ t.lastAsked lossy a asked = asked' :=
        watched_eq_some.mp hstep
      exact h.step hnext
    · exact ⟨fun r => by simp [Running.start, Sup.start], by simp⟩
  exact ⟨fun r hr => (hkept.pending r).mpr (Or.inr hr), hkept.pending⟩

/-- A sandbox with this network and nothing else. -/
def networkPlan (network : Network) : Plan where
  hostHomeDir := none
  home := ["home", "user"]
  mounts := []
  allow32bit := false
  dbus := none
  dbusTalk := []
  xwayland := none
  xwaylandScale := .native
  openUrls := []
  network := network
  runtimeDir := ["run", "user", "1000"]
  sandboxRoot := ["sandbox"]

/-- A device cannot be removed, and a reload asks for another network. -/
def networkChanges : List Happening :=
  [.publish (13, 64) "input/event0", .linked (13, 64), .unpublish (13, 64),
    .sandbox (.reload (networkPlan .loopback) {}), .unpublished false]

theorem pending_restart_kept_example :
    ∃ s last, run (watched (Running.step id) (Running.lastAsked id))
        (Running.start (networkPlan .host) fun _ => false, []) networkChanges = some (s, last) ∧
      s.sup.pendingRestart = [.network, .removing "input/event0" (13, 64)] ∧
      ∀ r, r ∈ s.sup.pendingRestart ↔ r ∈ last ∨ r ∈ s.sup.unapplied := by
  obtain ⟨⟨s, last⟩, hrun, hpending⟩ :=
    exists_of_any (o := run (watched (Running.step id) (Running.lastAsked id))
        (Running.start (networkPlan .host) fun _ => false, []) networkChanges)
      (p := fun x => x.1.sup.pendingRestart = [.network, .removing "input/event0" (13, 64)])
      (by decide)
  exact ⟨s, last, hrun, of_decide_eq_true hpending,
    (pending_restart_kept id _ _ _ s last hrun).2⟩

end Psbox.Sandbox
