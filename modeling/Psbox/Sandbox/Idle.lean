import Psbox.Sandbox.Cleanup

/-!
# Idle Stops

`watch_idle` counts the clients, removes launches, looks at the workload's population and reads
the reasons for a restart one after the other, with the state unlocked in between, and then kills
the workload. What it found may be over by then: a stop kills nothing when no Spawn began since
the clients were counted (`idle_stop_kills_nothing`).
-/

namespace Psbox.Sandbox

open Psbox.Foundations Launches

/-! ## Section 1: The Condition -/

/-- Whether a Spawn began since `watch_idle` last read the count of clients. -/
def began (_ : Launches) (a : Move) (b : Bool) : Bool :=
  match a with
  | .watch .sample => false
  | .begin => true
  | _ => b

/-- No Spawn began before a stop since the count was read, and the workload is not taken for
empty because its population could not be read. -/
def StopsInTime (p : Launches × Bool) : Move → Prop
  | .watch (.look readable) => readable ∨ p.1.workload = false
  | .watch .stop => p.2 = false
  | _ => True

/-- No client is served, and no process runs. -/
structure Deserted (s : Launches) : Prop where
  services : ∀ v ∈ s.services, inService v = false
  workload : s.workload = false

/-! ## Section 2: What a Step Does -/

namespace Launches

/-- What a step of a client's does for what `watch_idle` reads. -/
structure Serves (s s' : Launches) : Prop where
  watch : s'.watch = s.watch
  served : s'.served = s.served
  stopped : s'.stopped = s.stopped
  clients : s'.clients ≤ s.clients
  length : s'.services.length = s.services.length

private theorem serves {s s' : Launches} {c : Nat} {v : Service} {a : Serving}
    (hstep : s.serve c v a = some s') : Serves s s' := by
  unfold serve at hstep
  split at hstep
  case h_5 =>
    unfold startChild at hstep
    split at hstep
    · cases hstep
    · obtain rfl := Option.some.inj hstep
      exact ⟨rfl, rfl, rfl, le_rfl, List.length_set⟩
  case h_8 =>
    unfold enterChild at hstep
    obtain ⟨ch, _, rfl⟩ := Option.map_eq_some_iff.mp hstep
    exact ⟨rfl, rfl, rfl, le_rfl, List.length_set⟩
  case h_11 =>
    split at hstep
    · obtain rfl := Option.some.inj hstep
      exact ⟨rfl, rfl, rfl, le_rfl, List.length_set⟩
    · cases hstep
  case h_12 =>
    obtain rfl := Option.some.inj hstep
    exact ⟨rfl, rfl, rfl, le_rfl, rfl⟩
  case h_14 ok _ _ _ =>
    obtain rfl := Option.some.inj hstep
    cases ok <;> exact ⟨rfl, rfl, rfl, le_rfl, List.length_set⟩
  case h_15 =>
    obtain ⟨ch, _, rfl⟩ := Option.map_eq_some_iff.mp hstep
    exact ⟨rfl, rfl, rfl, le_rfl, List.length_set⟩
  case h_16 =>
    obtain rfl := Option.some.inj hstep
    exact ⟨rfl, rfl, rfl, Nat.sub_le _ _, List.length_set⟩
  case h_17 => cases hstep
  all_goals
    obtain rfl := Option.some.inj hstep
    exact ⟨rfl, rfl, rfl, le_rfl, List.length_set⟩

/-- A client that is served no longer takes no step. -/
theorem inService_of_serve {s s' : Launches} {c : Nat} {v : Service} {a : Serving}
    (hstep : s.serve c v a = some s') : inService v := by
  unfold inService
  apply decide_eq_true
  intro hgone
  simp [serve, hgone] at hstep

private theorem workload_eq_false {s : Launches} :
    s.workload = false ↔ s.others = [] ∧ ∀ ch ∈ s.children, ch.state ≠ .running := by
  simp [workload]

/-- A launch's process is one of the workload's. -/
theorem workload_of_populated {s : Launches} {n : Nat} (h : s.populated n) : s.workload := by
  unfold populated at h
  unfold workload
  rw [Bool.or_eq_true] at h ⊢
  rcases h with hother | hchild
  · have hmem : n ∈ s.others := of_decide_eq_true hother
    have hne : s.others ≠ [] := List.ne_nil_of_mem hmem
    simp [hne]
  · obtain ⟨ch, hch, hrunning⟩ := List.any_eq_true.mp hchild
    exact Or.inr (List.any_eq_true.mpr ⟨ch, hch, decide_eq_true (of_decide_eq_true hrunning).2⟩)

private theorem setChild_workload {s : Launches} (hs : s.workload = false) (k : Nat) {state : ChildState}
    (hstate : state ≠ .running) : (s.setChild k state).workload = false := by
  obtain ⟨hothers, hchildren⟩ := workload_eq_false.mp hs
  refine workload_eq_false.mpr ⟨hothers, fun ch hch => ?_⟩
  obtain ⟨j, hj⟩ := List.mem_iff_getElem?.mp hch
  rw [Accounted.getElem?_setChild] at hj
  split at hj
  · obtain ⟨ch', _, rfl⟩ := Option.map_eq_some_iff.mp hj
    exact hstate
  · exact hchildren ch (List.mem_of_getElem? hj)

end Launches

/-! ## Section 3: The Invariant -/

/-- What `watch_idle` found, as long as no Spawn began since. -/
def Found (s : Launches) : Prop :=
  match s.watch with
  | .asleep => True
  | .sampled clients served => s.clients ≤ clients ∧ (served = false → s.served = false)
  | .swept clients => s.clients ≤ clients
  | .idle | .stopping => s.clients = 0 ∧ s.workload = false

structure Unhurried (s : Launches) (began : Bool) : Prop where
  unserved : s.served = false → s.services = [] ∧ s.workload = false
  found : began = false → Found s
  stopped : s.stopped → s.clients = 0 ∧ s.workload = false

namespace Unhurried

theorem initial : Unhurried {} false :=
  ⟨fun _ => ⟨rfl, rfl⟩, fun _ => trivial, nofun⟩

/-- Clients may leave, and processes of a workload that is not empty come and go. -/
theorem fade {s t : Launches} {b : Bool} (h : Unhurried s b) (hwatch : t.watch = s.watch)
    (hserved : t.served = s.served) (hstopped : t.stopped = s.stopped)
    (hclients : t.clients ≤ s.clients) (hservices : s.services = [] → t.services = [])
    (hworkload : s.clients = 0 → s.workload = false → t.workload = false)
    (hnone : s.services = [] → s.clients = 0) : Unhurried t b := by
  have hquiet : s.clients = 0 ∧ s.workload = false → t.clients = 0 ∧ t.workload = false := by
    intro ⟨hzero, hempty⟩
    exact ⟨Nat.le_zero.mp (hzero ▸ hclients), hworkload hzero hempty⟩
  refine ⟨fun hs => ?_, fun hb => ?_, fun hs => hquiet (h.stopped (hstopped ▸ hs))⟩
  · obtain ⟨hempty, hworkless⟩ := h.unserved (hserved ▸ hs)
    exact ⟨hservices hempty, hworkload (hnone hempty) hworkless⟩
  · have hfound := h.found hb
    unfold Found at hfound ⊢
    rw [hwatch]
    split at hfound
    · trivial
    · exact ⟨Nat.le_trans hclients hfound.1, fun hsv => hserved ▸ hfound.2 hsv⟩
    · exact Nat.le_trans hclients hfound
    · exact hquiet hfound
    · exact hquiet hfound

theorem serve {s s' : Launches} {as : List Move} {b : Bool} (hs : Accounted s as)
    (h : Unhurried s b) {c : Nat} {v : Service} {a : Serving} (hv : s.services[c]? = some v)
    (hstep : s.serve c v a = some s') : Unhurried s' b := by
  obtain ⟨hwatch, hserved, hstopped, hclients, hlength⟩ := serves hstep
  -- The client is counted, so that the workload does not matter yet.
  have hcounted : 0 < s.clients := by
    rw [hs.counted]
    exact List.countP_pos_iff.mpr ⟨v, List.mem_of_getElem? hv, inService_of_serve hstep⟩
  have hsome : s.services ≠ [] := List.ne_nil_of_mem (List.mem_of_getElem? hv)
  apply h.fade hwatch hserved hstopped hclients
  · exact fun hnil => absurd hnil hsome
  · exact fun hzero => absurd hzero (Nat.pos_iff_ne_zero.mp hcounted)
  · exact fun hnil => absurd hnil hsome

theorem begin {s : Launches} (hrunning : s.stopped = false) :
    Unhurried { s with
      clients := s.clients + 1
      served := true
      services := s.services ++ [{}] } true := by
  refine ⟨nofun, nofun, ?_⟩
  intro hstopped
  rw [hrunning] at hstopped
  cases hstopped

/-- Each reading holds from then on, until a Spawn begins. -/
theorem watch {s s' : Launches} {b : Bool} (h : Unhurried s b) {a : Watching}
    (hmeets : StopsInTime (s, b) (.watch a)) (hstep : s.watchIdle a = some s') :
    Unhurried s' (began s (.watch a) b) := by
  have hkept : ∀ w, (b = false → Found { s with watch := w }) → Unhurried { s with watch := w } b :=
    fun w hfound => ⟨h.unserved, hfound, h.stopped⟩
  unfold watchIdle at hstep
  split at hstep
  -- It wakes, and reads who is served.
  case h_1 =>
    obtain rfl := Option.some.inj hstep
    exact ⟨h.unserved, fun _ => ⟨le_rfl, id⟩, h.stopped⟩
  -- Without a timeout, and before any command was served.
  case h_2 clients served elapsed hwatch =>
    split at hstep
    · rename_i huntimed
      split at hstep
      · rename_i hidle
        obtain rfl := Option.some.inj hstep
        apply hkept
        intro hb
        have hfound := h.found hb
        simp only [Found, hwatch] at hfound
        have hunserved : s.served = false := hfound.2 (by simpa using huntimed.2)
        exact ⟨Nat.le_zero.mp (hidle.1 ▸ hfound.1), (h.unserved hunserved).2⟩
      · obtain rfl := Option.some.inj hstep
        exact hkept _ fun _ => trivial
    · cases hstep
  -- What is finished is removed.
  case h_3 clients served readable removal hwatch =>
    split at hstep
    · cases hstep
    · obtain rfl := Option.some.inj hstep
      refine ⟨h.unserved, fun hb => ?_, h.stopped⟩
      have hfound := h.found hb
      simp only [Found, hwatch] at hfound
      exact hfound.1
  -- It looks at what still runs.
  case h_4 clients readable hwatch =>
    split at hstep
    · obtain rfl := Option.some.inj hstep
      exact hkept _ fun _ => trivial
    · rename_i hidle
      obtain rfl := Option.some.inj hstep
      apply hkept
      intro hb
      have hfound := h.found hb
      simp only [Found, hwatch] at hfound
      obtain ⟨hclients, hlook⟩ := not_or.mp hidle
      have hzero : s.clients = 0 := by omega
      have hempty : s.workload = false := by
        rcases hmeets with hreadable | hempty
        · simpa [hreadable] using hlook
        · exact hempty
      exact ⟨hzero, hempty⟩
  -- It decides whether to stop.
  case h_5 elapsed hwatch =>
    split at hstep
    · obtain rfl := Option.some.inj hstep
      apply hkept
      intro hb
      have hfound := h.found hb
      simp only [Found, hwatch] at hfound
      exact hfound
    · obtain rfl := Option.some.inj hstep
      exact hkept _ fun _ => trivial
  -- It stops, and nothing has begun since it decided.
  case h_6 hwatch =>
    obtain rfl := Option.some.inj hstep
    have hb : b = false := hmeets
    have hfound := h.found hb
    simp only [Found, hwatch] at hfound
    refine ⟨h.unserved, fun _ => ?_, fun _ => hfound⟩
    simp only [Found, hwatch]
    exact hfound
  case h_7 => cases hstep

theorem step {s s' : Launches} {as : List Move} {b : Bool} (hs : Accounted s as)
    (h : Unhurried s b) {a : Move} (hmeets : StopsInTime (s, b) a) (hstep : s.step a = some s') :
    Unhurried s' (began s a b) := by
  have hnone : s.services = [] → s.clients = 0 := by
    intro hnil
    rw [hs.counted, hnil]
    rfl
  unfold Launches.step at hstep
  split at hstep
  · cases hstep
  rename_i hrunning
  rw [Bool.not_eq_true] at hrunning
  split at hstep
  · obtain rfl := Option.some.inj hstep
    exact begin hrunning
  · obtain ⟨v, hv, hstep⟩ := Option.bind_eq_some_iff.mp hstep
    exact h.serve hs hv hstep
  · split at hstep
    · obtain rfl := Option.some.inj hstep
      exact h.fade rfl rfl rfl le_rfl id
        (fun _ hempty => setChild_workload hempty _ nofun) hnone
    · cases hstep
  · split at hstep
    · rename_i n hpopulated
      obtain rfl := Option.some.inj hstep
      refine h.fade rfl rfl rfl le_rfl id (fun _ hempty => ?_) hnone
      -- Only a process that runs starts another.
      rw [workload_of_populated hpopulated] at hempty
      cases hempty
    · cases hstep
  · split at hstep
    · rename_i n hmem
      obtain rfl := Option.some.inj hstep
      refine h.fade rfl rfl rfl le_rfl id (fun _ hempty => ?_) hnone
      rw [(workload_eq_false.mp hempty).1] at hmem
      cases hmem
    · cases hstep
  · exact h.watch hmeets hstep
  · obtain rfl := Option.some.inj hstep
    exact h.fade rfl rfl rfl le_rfl id (fun _ hempty => hempty) hnone

end Unhurried

/-! ## Section 4: Runs -/

/-- In every run in which no Spawn begins between the count of the clients and a stop, and the
workload's population can be read, `shutdown` is called when no client is served and no process
runs. -/
theorem idle_stop_kills_nothing {as : List Move} {s : Launches} {b : Bool}
    (hrun : run (watched Launches.step began) ({}, false) as = some (s, b))
    (hmeets : StepsMeet (watched Launches.step began) StopsInTime ({}, false) as)
    (hstopped : s.stopped) : Deserted s := by
  have hinv : (∃ h, Accounted s h) ∧ Unhurried s b := by
    refine run_invariant_of_meets (I := fun p => (∃ h, Accounted p.1 h) ∧ Unhurried p.1 p.2)
      ?_ ⟨⟨[], .initial⟩, .initial⟩ hmeets hrun
    rintro ⟨t, b⟩ a ⟨t', b'⟩ ⟨⟨h, hs⟩, hquiet⟩ hok hstep
    obtain ⟨hmove, rfl⟩ := watched_eq_some.mp hstep
    exact ⟨⟨_, hs.step hmove⟩, hquiet.step hs hok hmove⟩
  obtain ⟨⟨h, hs⟩, hquiet⟩ := hinv
  obtain ⟨hzero, hempty⟩ := hquiet.stopped hstopped
  refine ⟨fun v hv => ?_, hempty⟩
  -- The count is zero, so that no one is counted.
  rw [hs.counted, List.countP_eq_zero] at hzero
  exact Bool.not_eq_true _ ▸ hzero v hv

/-- A command that runs and exits, and a stop for a reason that came up. -/
def stopsAfterwards : List Move :=
  clientStays ++
    [.reload true false, .watch .sample, .watch (.sweep (fun _ => true) fun _ => .removed),
      .watch (.look true), .watch (.decide false), .watch .stop]

/-- A client comes after the clients were counted, and the reason for a restart is there. -/
def stopsTooSoon : List Move :=
  [.begin, .serve 0 .refuse, .serve 0 .leave, .reload true false, .watch .sample,
    .watch (.sweep (fun _ => true) fun _ => .removed), .watch (.look true),
    .begin, .serve 1 .record, .serve 1 (.create true), .serve 1 (.start (some 7)),
    .watch (.decide false), .watch .stop]

instance (p : Launches × Bool) (a : Move) : Decidable (StopsInTime p a) := by
  unfold StopsInTime
  split <;> infer_instance

theorem idle_stop_kills_nothing_afterwards :
    ∃ s b, run (watched Launches.step began) ({}, false) stopsAfterwards = some (s, b) ∧
      s.stopped ∧ Deserted s := by
  obtain ⟨⟨s, b⟩, hrun, hstopped⟩ := exists_of_any
    (o := run (watched Launches.step began) ({}, false) stopsAfterwards) (p := fun p => p.1.stopped)
    (by decide)
  have hmeets : StepsMeet (watched Launches.step began) StopsInTime ({}, false) stopsAfterwards := by
    decide
  exact ⟨s, b, hrun, hstopped, idle_stop_kills_nothing hrun hmeets hstopped⟩

/-- The sandbox is stopped although a client's process has just started. -/
theorem idle_stop_kills :
    ∃ s, run Launches.step {} stopsTooSoon = some s ∧ s.stopped ∧ s.clients = 1 ∧ s.workload ∧
      ¬Deserted s := by
  obtain ⟨s, hrun, hcheck⟩ := exists_of_any (o := run Launches.step {} stopsTooSoon)
    (p := fun s => s.stopped ∧ s.clients = 1 ∧ s.workload) (by decide)
  obtain ⟨hstopped, hclients, hworkload⟩ := of_decide_eq_true hcheck
  refine ⟨s, hrun, hstopped, hclients, hworkload, fun hdeserted => ?_⟩
  rw [hdeserted.workload] at hworkload
  cases hworkload

end Psbox.Sandbox
