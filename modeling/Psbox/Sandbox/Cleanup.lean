import Psbox.Sandbox.Launches

/-!
# What a Spawn Leaves

`serve_spawn` enters a client's process into three tables, one after the other, and returns early
between them. What it has entered is taken back, or left for `remove_finished_launches`, on every
way out but those where it cannot reach the client, poll, or wait (`spawn_cleaned_up_iff`).
-/

namespace Psbox.Sandbox

open Psbox.Foundations

/-! ## Section 1: The Condition -/

/-- What sends `serve_spawn` back while its child is still listed, or not waited for. -/
def Serving.fails : Serving → Bool
  | .tell false | .poll .error | .wait false => true
  | _ => false

/-- A step of the client's that fails so. -/
def Move.fails (c : Nat) : Move → Bool
  | .serve c' a => c' = c && a.fails
  | _ => false

def Failed (h : List Move) (c : Nat) : Prop :=
  ∃ a ∈ h, a.fails c

/-- Its child was waited for, nothing of it is listed, and its launch is gone or marked, so that
it is removed when it is over. -/
structure CleanedUp (s : Launches) (c : Nat) (v : Service) : Prop where
  child : ∀ k, v.child = some k → ∃ ch, s.children[k]? = some ch ∧ ch.state = .reaped
  spawned : ∀ p, s.spawned.lookup p ≠ some c
  launch : ∀ n, v.launch = some n → ∀ l, s.launches.lookup n = some l → l.started

private theorem failed_concat {h : List Move} {c : Nat} {a : Move} :
    Failed (h ++ [a]) c ↔ Failed h c ∨ a.fails c := by
  simp [Failed, or_and_right, exists_or]

private theorem failed_serve {h : List Move} {c : Nat} {a : Serving} :
    Failed (h ++ [.serve c a]) c ↔ Failed h c ∨ a.fails := by
  rw [failed_concat]
  simp [Move.fails]

private theorem failed_other {h : List Move} {c c' : Nat} {a : Serving} (hne : c' ≠ c) :
    Failed (h ++ [.serve c a]) c' ↔ Failed h c' := by
  rw [failed_concat]
  simp [Move.fails, hne.symm]

/-! ## Section 2: The Invariant -/

/-- The phases in which the child is listed. -/
def Phase.lists : Phase → Bool
  | .entered | .polling _ | .exited | .waited => true
  | _ => false

/-- The phases before there is a child, and after it could not be started. -/
def Phase.childless : Phase → Bool
  | .counted | .recorded | .created | .failed | .unlisted => true
  | _ => false

namespace Launches

/-- The entry of a service's launch. -/
def LaunchSound (s : Launches) (v : Service) : Prop :=
  match v.phase with
  | .counted => v.launch = none
  | .recorded | .created | .failed | .started =>
      ∃ n, v.launch = some n ∧ s.launches.lookup n = some {}
  | .unlisted | .entered | .polling _ | .exited | .waited | .returned | .gone =>
      ∀ n, v.launch = some n → ∀ l, s.launches.lookup n = some l → l.started

/-- A service's child, and whether the service failed. -/
def ChildSound (s : Launches) (failed : Prop) (v : Service) : Prop :=
  match v.phase with
  | .counted | .recorded | .created | .failed | .unlisted => v.child = none ∧ ¬failed
  | .started | .entered | .polling _ | .exited =>
      ¬failed ∧ ∃ k ch, v.child = some k ∧ s.children[k]? = some ch ∧ ch.state ≠ .reaped
  | .waited =>
      ∃ k ch, v.child = some k ∧ s.children[k]? = some ch ∧ (failed ↔ ch.state ≠ .reaped)
  | .returned | .gone =>
      (v.child = none → ¬failed) ∧ ∀ k, v.child = some k →
        ∃ ch, s.children[k]? = some ch ∧ (failed ↔ ch.state ≠ .reaped)

structure Sound (s : Launches) (failed : Prop) (v : Service) : Prop where
  number : ∀ n, v.launch = some n → n ≤ s.nextLaunch
  launch : s.LaunchSound v
  child : s.ChildSound failed v

/-- What other steps leave of a service: its launch may go when it was marked, and its child may
exit. -/
structure Spares (s s' : Launches) (v : Service) : Prop where
  number : s.nextLaunch ≤ s'.nextLaunch
  launch : ∀ n, v.launch = some n → s'.launches.lookup n = s.launches.lookup n ∨
    s'.launches.lookup n = none ∧ s.launches.lookup n ≠ some {}
  child : ∀ k ch, v.child = some k → s.children[k]? = some ch →
    ∃ ch', s'.children[k]? = some ch' ∧ ch'.pid = ch.pid ∧ (ch'.state = .reaped ↔ ch.state = .reaped)

theorem Spares.refl (s : Launches) (v : Service) : Spares s s v :=
  ⟨le_rfl, fun _ _ => Or.inl rfl, fun _ ch _ hch => ⟨ch, hch, rfl, Iff.rfl⟩⟩

private theorem Sound.of_spares {s s' : Launches} {failed : Prop} {v : Service} (h : s.Sound failed v)
    (hspares : Spares s s' v) : s'.Sound failed v := by
  obtain ⟨hnumber, hlaunch, hchild⟩ := h
  refine ⟨fun n hn => Nat.le_trans (hnumber n hn) hspares.number, ?_, ?_⟩
  · -- A launch that is not marked stays as it is.
    have hkept : ∀ n, v.launch = some n → s.launches.lookup n = some {} →
        s'.launches.lookup n = some {} := by
      intro n hn hentry
      rcases hspares.launch n hn with heq | ⟨_, hne⟩
      · rw [heq, hentry]
      · exact absurd hentry hne
    have hmarked : (∀ n, v.launch = some n → ∀ l, s.launches.lookup n = some l → l.started) →
        ∀ n, v.launch = some n → ∀ l, s'.launches.lookup n = some l → l.started := by
      intro hstarted n hn l hl
      rcases hspares.launch n hn with heq | ⟨hnone, _⟩
      · exact hstarted n hn l (heq ▸ hl)
      · rw [hnone] at hl
        cases hl
    unfold LaunchSound at hlaunch ⊢
    split at hlaunch
    · exact hlaunch
    all_goals first
      | exact hlaunch.imp fun n hn => ⟨hn.1, hkept n hn.1 hn.2⟩
      | exact hmarked hlaunch
  · unfold ChildSound at hchild ⊢
    split at hchild
    all_goals first
      | exact hchild
      | obtain ⟨hfailed, k, ch, hk, hch, hstate⟩ := hchild
        obtain ⟨ch', hch', _, hiff⟩ := hspares.child k ch hk hch
        exact ⟨hfailed, k, ch', hk, hch', fun h => hstate (hiff.mp h)⟩
      | obtain ⟨k, ch, hk, hch, hstate⟩ := hchild
        obtain ⟨ch', hch', _, hiff⟩ := hspares.child k ch hk hch
        exact ⟨k, ch', hk, hch', hstate.trans (not_congr hiff.symm)⟩
      | refine ⟨hchild.1, fun k hk => ?_⟩
        obtain ⟨ch, hch, hstate⟩ := hchild.2 k hk
        obtain ⟨ch', hch', _, hiff⟩ := hspares.child k ch hk hch
        exact ⟨ch', hch', hstate.trans (not_congr hiff.symm)⟩

/-- A child that a service has was started. -/
theorem Sound.exists_child {s : Launches} {failed : Prop} {v : Service} (h : s.Sound failed v)
    {k : Nat} (hk : v.child = some k) : ∃ ch, s.children[k]? = some ch := by
  have hchild := h.child
  unfold ChildSound at hchild
  split at hchild
  all_goals first
    | (rw [hchild.1] at hk; cases hk)
    | (obtain ⟨_, k', ch, hk', hch, _⟩ := hchild
       obtain rfl := Option.some.inj (hk.symm.trans hk')
       exact ⟨ch, hch⟩)
    | (obtain ⟨k', ch, hk', hch, _⟩ := hchild
       obtain rfl := Option.some.inj (hk.symm.trans hk')
       exact ⟨ch, hch⟩)
    | (obtain ⟨ch, hch, _⟩ := hchild.2 k hk
       exact ⟨ch, hch⟩)

private theorem Sound.childless {s : Launches} {failed : Prop} {v : Service} (h : s.Sound failed v)
    (hphase : v.phase.childless) : v.child = none ∧ ¬failed := by
  have hchild := h.child
  unfold ChildSound at hchild
  split at hchild
  all_goals first
    | exact hchild
    | (rename_i heq; simp [heq, Phase.childless] at hphase)

theorem Sound.put {s : Launches} {failed : Prop} {v : Service} (h : s.Sound failed v) (c : Nat)
    (v' : Service) : (s.put c v').Sound failed v :=
  ⟨h.number, h.launch, h.child⟩

end Launches

open Launches

/-- What is known after the moves `h`: clients are counted, services are sound, and a process that
is listed is one of a service that lists it, or that failed. -/
structure Accounted (s : Launches) (h : List Move) : Prop where
  counted : s.clients = s.services.countP inService
  sound : ∀ c v, s.services[c]? = some v → s.Sound (Failed h c) v
  listed : ∀ p c, s.spawned.lookup p = some c → ∃ v k ch, s.services[c]? = some v ∧
    v.child = some k ∧ s.children[k]? = some ch ∧ ch.pid = p ∧ (v.phase.lists ∨ Failed h c)
  fresh : ∀ c, s.services.length ≤ c → ¬Failed h c
  distinct : ∀ (c c' : Nat) (v v' : Service), c ≠ c' → s.services[c]? = some v → s.services[c']? = some v' →
    (∀ n, v.launch = some n → v'.launch ≠ some n) ∧ ∀ k, v.child = some k → v'.child ≠ some k

namespace Accounted

theorem initial : Accounted {} [] := by
  refine ⟨rfl, ?_, ?_, ?_, ?_⟩ <;> simp [Failed]

/-- An entry of a client's own. -/
theorem own {s : Launches} {h : List Move} (hs : Accounted s h) {c p : Nat} {v : Service}
    (hv : s.services[c]? = some v) (hp : s.spawned.lookup p = some c) :
    ∃ k ch, v.child = some k ∧ s.children[k]? = some ch ∧ ch.pid = p ∧
      (v.phase.lists ∨ Failed h c) := by
  obtain ⟨v₀, k, ch, hv₀, hk, hch, hpid, hlists⟩ := hs.listed p c hp
  obtain rfl : v₀ = v := Option.some.inj (hv₀.symm.trans hv)
  exact ⟨k, ch, hk, hch, hpid, hlists⟩

/-- What is of no client leaves every service. -/
theorem aside {s t : Launches} {h : List Move} (hs : Accounted s h) {a : Move}
    (ha : ∀ c, a.fails c = false) (hservices : t.services = s.services)
    (hclients : t.clients = s.clients) (hspawned : t.spawned = s.spawned)
    (hspares : ∀ v, Spares s t v) : Accounted t (h ++ [a]) := by
  have hfailed : ∀ c, Failed (h ++ [a]) c ↔ Failed h c := by
    intro c
    simp [failed_concat, ha c]
  refine {
    counted := ?counted, sound := ?sound, listed := ?listed, fresh := ?fresh,
    distinct := ?distinct }
  case counted =>
    rw [hclients, hservices]
    exact hs.counted
  case sound =>
    intro c v hv
    rw [hservices] at hv
    simp only [hfailed]
    exact (hs.sound c v hv).of_spares (hspares v)
  case listed =>
    intro p c hp
    rw [hspawned] at hp
    obtain ⟨v, k, ch, hv, hk, hch, hpid, hlists⟩ := hs.listed p c hp
    obtain ⟨ch', hch', hpid', _⟩ := (hspares v).child k ch hk hch
    exact ⟨v, k, ch', hservices ▸ hv, hk, hch', hpid'.trans hpid, hlists.imp_right (hfailed c).mpr⟩
  case fresh =>
    intro c hc
    rw [hservices] at hc
    rw [hfailed]
    exact hs.fresh c hc
  case distinct =>
    rw [hservices]
    exact hs.distinct

/-- A step of a client's own: the others are left as they are. -/
theorem put {s t : Launches} {h : List Move} (hs : Accounted s h) {c : Nat} {v v' : Service}
    {a : Serving} (hv : s.services[c]? = some v) (hservices : t.services = s.services)
    (hclients : t.clients + (if inService v then 1 else 0) =
      s.clients + if inService v' then 1 else 0)
    (hspares : ∀ c' v'', c' ≠ c → s.services[c']? = some v'' → Spares s t v'')
    (hsound : t.Sound (Failed (h ++ [.serve c a]) c) v')
    (hlisted : ∀ p c', t.spawned.lookup p = some c' →
      c' ≠ c ∧ s.spawned.lookup p = some c' ∨
      c' = c ∧ ∃ k ch, v'.child = some k ∧ t.children[k]? = some ch ∧ ch.pid = p ∧
        (v'.phase.lists ∨ Failed (h ++ [.serve c a]) c))
    (hdistinct : ∀ c' v'', c' ≠ c → s.services[c']? = some v'' →
      (∀ n, v'.launch = some n → v''.launch ≠ some n) ∧ ∀ k, v'.child = some k → v''.child ≠ some k) :
    Accounted (t.put c v') (h ++ [.serve c a]) := by
  have hlt : c < s.services.length := by
    obtain ⟨hlt, _⟩ := List.getElem?_eq_some_iff.mp hv
    exact hlt
  have hget : ∀ c', (t.put c v').services[c']? = if c = c' then some v' else s.services[c']? := by
    intro c'
    show (t.services.set c v')[c']? = _
    rw [hservices, List.getElem?_set]
    by_cases hc : c = c'
    · simp [hc, hc ▸ hlt]
    · simp [hc]
  have hother : ∀ c' v'', c' ≠ c → (t.put c v').services[c']? = some v'' →
      s.services[c']? = some v'' := by
    intro c' v'' hne hv''
    rw [hget, if_neg (Ne.symm hne)] at hv''
    exact hv''
  refine {
    counted := ?counted, sound := ?sound, listed := ?listed, fresh := ?fresh,
    distinct := ?distinct }
  case counted =>
    show t.clients = (t.services.set c v').countP inService
    have hself : s.services[c] = v := by simpa [hlt] using hv
    have hle : (if inService v then 1 else 0) ≤ s.services.countP inService := by
      split
      · rename_i hin
        exact List.countP_pos_iff.mpr ⟨v, List.mem_of_getElem? hv, hin⟩
      · exact Nat.zero_le _
    rw [hservices, List.countP_set hlt, hself, ← hs.counted]
    rw [← hs.counted] at hle
    omega
  case sound =>
    intro c' v'' hv''
    by_cases hc : c' = c
    · subst hc
      rw [hget, if_pos rfl] at hv''
      obtain rfl := Option.some.inj hv''
      exact hsound.put _ _
    · have hv'' := hother c' v'' hc hv''
      rw [show Failed (h ++ [.serve c a]) c' = Failed h c' from propext (failed_other hc)]
      exact ((hs.sound c' v'' hv'').of_spares (hspares c' v'' hc hv'')).put _ _
  case listed =>
    intro p c' hp
    rcases hlisted p c' hp with ⟨hc, hp⟩ | ⟨rfl, k, ch, hk, hch, hpid, hlists⟩
    · obtain ⟨v'', k, ch, hv'', hk, hch, hpid, hlists⟩ := hs.listed p c' hp
      obtain ⟨ch', hch', hpid', _⟩ := (hspares c' v'' hc hv'').child k ch hk hch
      refine ⟨v'', k, ch', ?_, hk, hch', hpid'.trans hpid, hlists.imp_right (failed_other hc).mpr⟩
      rw [hget, if_neg (Ne.symm hc)]
      exact hv''
    · refine ⟨v', k, ch, ?_, hk, hch, hpid, hlists⟩
      rw [hget, if_pos rfl]
  case fresh =>
    intro c' hc'
    have hlength : (t.put c v').services.length = s.services.length := by
      show (t.services.set c v').length = _
      rw [List.length_set, hservices]
    rw [hlength] at hc'
    have hne : c' ≠ c := by omega
    rw [failed_other hne]
    exact hs.fresh c' hc'
  case distinct =>
    intro c₁ c₂ v₁ v₂ hne hv₁ hv₂
    by_cases hc₁ : c₁ = c
    · subst hc₁
      rw [hget, if_pos rfl] at hv₁
      obtain rfl := Option.some.inj hv₁
      exact hdistinct c₂ v₂ (Ne.symm hne) (hother c₂ v₂ (Ne.symm hne) hv₂)
    · by_cases hc₂ : c₂ = c
      · subst hc₂
        rw [hget, if_pos rfl] at hv₂
        obtain rfl := Option.some.inj hv₂
        obtain ⟨hlaunch, hchild⟩ := hdistinct c₁ v₁ hc₁ (hother c₁ v₁ hc₁ hv₁)
        exact ⟨fun n hn hn' => hlaunch n hn' hn, fun k hk hk' => hchild k hk' hk⟩
      · exact hs.distinct c₁ c₂ v₁ v₂ hne (hother c₁ v₁ hc₁ hv₁) (hother c₂ v₂ hc₂ hv₂)

/-! ## Section 3: The Steps of a Service -/

/-- A step that changes how far the service is, and nothing else. -/
theorem phase {s : Launches} {h : List Move} (hs : Accounted s h) {c : Nat} {v : Service}
    {a : Serving} (hv : s.services[c]? = some v) (p : Phase) (hin : v.phase ≠ .gone ∧ p ≠ .gone)
    (hlaunch : s.LaunchSound { v with phase := p })
    (hchild : s.ChildSound (Failed (h ++ [.serve c a]) c) { v with phase := p })
    (hlists : v.phase.lists → p.lists ∨ a.fails) :
    Accounted (s.put c { v with phase := p }) (h ++ [.serve c a]) := by
  apply hs.put hv
  · rfl
  · simp [inService, hin.1, hin.2]
  · exact fun c' v'' _ _ => Spares.refl s v''
  · exact ⟨(hs.sound c v hv).number, hlaunch, hchild⟩
  · intro p' c' hp
    by_cases hc : c' = c
    · subst hc
      obtain ⟨k, ch, hk, hch, hpid, hlisted⟩ := hs.own hv hp
      refine Or.inr ⟨rfl, k, ch, hk, hch, hpid, ?_⟩
      rw [failed_serve]
      rcases hlisted with hlisted | hfailed
      · exact (hlists hlisted).imp_right Or.inr
      · exact Or.inr (Or.inl hfailed)
    · exact Or.inl ⟨hc, hp⟩
  · intro c' v'' hc hv''
    exact hs.distinct c c' v v'' (Ne.symm hc) hv hv''

theorem record {s : Launches} {h : List Move} (hs : Accounted s h) {c : Nat} {v : Service}
    (hv : s.services[c]? = some v) (hphase : v.phase = .counted) :
    Accounted
      (({ s with nextLaunch := s.nextLaunch + 1, launches := s.launches.insert (s.nextLaunch + 1) {} } :
        Launches).put c { v with phase := .recorded, launch := some (s.nextLaunch + 1) })
      (h ++ [.serve c .record]) := by
  have hself := hs.sound c v hv
  have hchild := hself.child
  simp only [ChildSound, hphase] at hchild
  -- Other launches have smaller numbers.
  have hother : ∀ (c' : Nat) v'', s.services[c']? = some v'' → ∀ n, v''.launch = some n →
      n ≠ s.nextLaunch + 1 := by
    intro c' v'' hv'' n hn
    have := (hs.sound c' v'' hv'').number n hn
    omega
  apply hs.put hv
  · rfl
  · simp [inService, hphase]
  · intro c' v'' _ hv''
    refine ⟨Nat.le_succ _, fun n hn => Or.inl ?_, fun k ch _ hch => ⟨ch, hch, rfl, Iff.rfl⟩⟩
    exact AList.lookup_insert_ne (hother c' v'' hv'' n hn)
  · refine ⟨?_, ⟨_, rfl, AList.lookup_insert _⟩, ?_⟩
    · intro n hn
      obtain rfl := Option.some.inj hn
      exact le_rfl
    · refine ⟨hchild.1, ?_⟩
      rw [failed_serve]
      simpa [Serving.fails] using hchild.2
  · intro p c' hp
    refine Or.inl ⟨?_, hp⟩
    rintro rfl
    obtain ⟨k, _, hk, _⟩ := hs.own hv hp
    rw [hchild.1] at hk
    cases hk
  · intro c' v'' hc hv''
    refine ⟨?_, ?_⟩
    · intro n hn hn'
      obtain rfl := Option.some.inj hn
      exact hother c' v'' hv'' _ hn' rfl
    · intro k hk
      rw [hchild.1] at hk
      cases hk

theorem start {s s' : Launches} {h : List Move} (hs : Accounted s h) {c n pid : Nat} {v : Service}
    (hv : s.services[c]? = some v) (hphase : v.phase = .created)
    (hstep : s.startChild c v n pid = some s') :
    Accounted s' (h ++ [.serve c (.start (some pid))]) := by
  obtain ⟨hnumber, hlaunch, hchild⟩ := hs.sound c v hv
  simp only [LaunchSound, hphase] at hlaunch
  simp only [ChildSound, hphase] at hchild
  unfold startChild at hstep
  split at hstep
  · cases hstep
  obtain rfl := Option.some.inj hstep
  have hkept : ∀ (k : Nat) (ch : Child), s.children[k]? = some ch →
      (s.children ++ [{ pid := pid, launch := n }])[k]? = some ch := by
    intro k ch hch
    obtain ⟨hlt, _⟩ := List.getElem?_eq_some_iff.mp hch
    rw [List.getElem?_append_left hlt, hch]
  apply hs.put hv
  · rfl
  · simp [inService, hphase]
  · intro c' v'' _ _
    exact ⟨le_rfl, fun _ _ => Or.inl rfl, fun k ch _ hch => ⟨ch, hkept k ch hch, rfl, Iff.rfl⟩⟩
  · refine ⟨hnumber, hlaunch, ?_, s.children.length, _, rfl, List.getElem?_concat_length, ?_⟩
    · rw [failed_serve]
      simpa [Serving.fails] using hchild.2
    · simp
  · intro p c' hp
    refine Or.inl ⟨?_, hp⟩
    rintro rfl
    obtain ⟨k, _, hk, _⟩ := hs.own hv hp
    rw [hchild.1] at hk
    cases hk
  · intro c' v'' hc hv''
    refine ⟨(hs.distinct c c' v v'' (Ne.symm hc) hv hv'').1, ?_⟩
    -- The others' children were started before.
    intro k hk hk'
    obtain rfl := Option.some.inj hk
    obtain ⟨ch, hch⟩ := (hs.sound c' v'' hv'').exists_child hk'
    obtain ⟨hlt, _⟩ := List.getElem?_eq_some_iff.mp hch
    exact absurd hlt (lt_irrefl _)

theorem unlist {s : Launches} {h : List Move} (hs : Accounted s h) {c n : Nat} {v : Service}
    (hv : s.services[c]? = some v) (hphase : v.phase = .failed) (hn : v.launch = some n) :
    Accounted (({ s with launches := s.launches.erase n } : Launches).put c { v with phase := .unlisted })
      (h ++ [.serve c .unlist]) := by
  obtain ⟨hnumber, _, hchild⟩ := hs.sound c v hv
  simp only [ChildSound, hphase] at hchild
  apply hs.put hv
  · rfl
  · simp [inService, hphase]
  · intro c' v'' hc hv''
    refine ⟨le_rfl, fun n' hn' => Or.inl ?_, fun k ch _ hch => ⟨ch, hch, rfl, Iff.rfl⟩⟩
    apply AList.lookup_erase_ne
    rintro rfl
    exact (hs.distinct c c' v v'' (Ne.symm hc) hv hv'').1 n' hn hn'
  · refine ⟨hnumber, ?_, hchild.1, ?_⟩
    · intro n' hn' l hl
      obtain rfl : n = n' := Option.some.inj (hn.symm.trans hn')
      rw [AList.lookup_erase] at hl
      cases hl
    · rw [failed_serve]
      simpa [Serving.fails] using hchild.2
  · intro p c' hp
    refine Or.inl ⟨?_, hp⟩
    rintro rfl
    obtain ⟨k, _, hk, _⟩ := hs.own hv hp
    rw [hchild.1] at hk
    cases hk
  · intro c' v'' hc hv''
    exact hs.distinct c c' v v'' (Ne.symm hc) hv hv''

theorem enter {s s' : Launches} {h : List Move} (hs : Accounted s h) {c n k : Nat} {v : Service}
    (hv : s.services[c]? = some v) (hphase : v.phase = .started) (hn : v.launch = some n)
    (hk : v.child = some k) (hstep : s.enterChild c v n k = some s') :
    Accounted s' (h ++ [.serve c .enter]) := by
  obtain ⟨hnumber, hlaunch, hchild⟩ := hs.sound c v hv
  simp only [LaunchSound, hphase] at hlaunch
  simp only [ChildSound, hphase] at hchild
  obtain ⟨n', hn', hentry⟩ := hlaunch
  obtain rfl : n = n' := Option.some.inj (hn.symm.trans hn')
  obtain ⟨hfailed, k', ch, hk', hch, hstate⟩ := hchild
  obtain rfl : k = k' := Option.some.inj (hk.symm.trans hk')
  simp only [enterChild, hch, hentry, Option.map_some, Option.some.injEq] at hstep
  subst hstep
  have hnotFailed : ¬Failed (h ++ [.serve c .enter]) c := by
    rw [failed_serve]
    simpa [Serving.fails] using hfailed
  apply hs.put hv
  -- Only the launch and the listing of the pid change.
  · rfl
  · simp [inService, hphase]
  -- Another client has another launch.
  · intro c' v'' hc hv''
    refine ⟨le_rfl, fun m hm => Or.inl ?_, fun k ch _ hch => ⟨ch, hch, rfl, Iff.rfl⟩⟩
    apply AList.lookup_insert_ne
    rintro rfl
    exact (hs.distinct c c' v v'' (Ne.symm hc) hv hv'').1 m hn hm
  · refine ⟨hnumber, ?_, hnotFailed, k, ch, hk, hch, hstate⟩
    intro n' hn' l hl
    obtain rfl : n = n' := Option.some.inj (hn.symm.trans hn')
    rw [AList.lookup_insert] at hl
    rw [← Option.some.inj hl]
  · intro p c' hp
    by_cases hpid : p = ch.pid
    · -- The pid is listed for this client now, whoever had it before.
      subst hpid
      rw [AList.lookup_insert] at hp
      obtain rfl := Option.some.inj hp
      exact Or.inr ⟨rfl, k, ch, hk, hch, rfl, Or.inl rfl⟩
    · rw [AList.lookup_insert_ne hpid] at hp
      refine Or.inl ⟨?_, hp⟩
      rintro rfl
      obtain ⟨_, _, _, _, _, hlists⟩ := hs.own hv hp
      rw [hphase] at hlists
      rcases hlists with hlists | hlists
      · cases hlists
      · exact hfailed hlists
  · intro c' v'' hc hv''
    exact hs.distinct c c' v v'' (Ne.symm hc) hv hv''

theorem getElem?_setChild (s : Launches) (k j : Nat) (state : ChildState) :
    (s.setChild k state).children[j]? =
      if k = j then (s.children[j]?).map fun ch => { ch with state := state }
      else s.children[j]? := by
  show (s.children.modify k fun ch => { ch with state := state })[j]? = _
  rw [List.getElem?_modify]
  split <;> simp

theorem wait {s : Launches} {h : List Move} (hs : Accounted s h) {c k : Nat} {v : Service}
    (hv : s.services[c]? = some v) (hphase : v.phase = .exited) (hk : v.child = some k) (ok : Bool) :
    Accounted ((if ok then s.setChild k .reaped else s).put c { v with phase := .waited })
      (h ++ [.serve c (.wait ok)]) := by
  obtain ⟨hnumber, hlaunch, hchild⟩ := hs.sound c v hv
  simp only [LaunchSound, hphase] at hlaunch
  simp only [ChildSound, hphase] at hchild
  obtain ⟨hfailed, k', ch, hk', hch, hstate⟩ := hchild
  obtain rfl : k = k' := Option.some.inj (hk.symm.trans hk')
  cases ok with
  | false =>
      refine hs.phase hv .waited (by simp [hphase]) hlaunch ⟨k, ch, hk, hch, ?_⟩ fun _ => Or.inl rfl
      rw [failed_serve]
      simp [Serving.fails, hstate]
  | true =>
      have hreaped : (s.setChild k .reaped).children[k]? = some { ch with state := .reaped } := by
        rw [getElem?_setChild, if_pos rfl, hch]
        rfl
      have hpids : ∀ (j : Nat) (ch₀ : Child), s.children[j]? = some ch₀ →
          ∃ ch' : Child, (s.setChild k .reaped).children[j]? = some ch' ∧ ch'.pid = ch₀.pid := by
        intro j ch₀ hj
        rw [getElem?_setChild, hj]
        split
        · exact ⟨_, rfl, rfl⟩
        · exact ⟨_, rfl, rfl⟩
      apply hs.put hv
      · rfl
      · simp [inService, hphase, setChild]
      · intro c' v'' hc hv''
        refine ⟨le_rfl, fun _ _ => Or.inl rfl, fun j ch₀ hj hch₀ => ?_⟩
        have hne : k ≠ j := by
          rintro rfl
          exact (hs.distinct c c' v v'' (Ne.symm hc) hv hv'').2 k hk hj
        exact ⟨ch₀, by rw [if_pos rfl, getElem?_setChild, if_neg hne, hch₀], rfl, Iff.rfl⟩
      · refine ⟨hnumber, hlaunch, k, _, hk, hreaped, ?_⟩
        rw [failed_serve]
        simp [Serving.fails, hfailed]
      · intro p c' hp
        by_cases hc : c' = c
        · subst hc
          obtain ⟨j, ch₀, hj, hch₀, hpid, _⟩ := hs.own hv hp
          obtain ⟨ch', hch', hpid'⟩ := hpids j ch₀ hch₀
          exact Or.inr ⟨rfl, j, ch', hj, hch', hpid'.trans hpid, Or.inl rfl⟩
        · exact Or.inl ⟨hc, hp⟩
      · intro c' v'' hc hv''
        exact hs.distinct c c' v v'' (Ne.symm hc) hv hv''

theorem forget {s s' : Launches} {h : List Move} (hs : Accounted s h) {c k : Nat} {v : Service}
    (hv : s.services[c]? = some v) (hphase : v.phase = .waited) (hk : v.child = some k)
    (hstep : (s.children[k]?).map (fun ch =>
      ({ s with spawned := s.spawned.erase ch.pid } : Launches).put c { v with phase := .returned }) =
        some s') : Accounted s' (h ++ [.serve c .forget]) := by
  obtain ⟨hnumber, hlaunch, hchild⟩ := hs.sound c v hv
  simp only [LaunchSound, hphase] at hlaunch
  simp only [ChildSound, hphase] at hchild
  obtain ⟨k', ch, hk', hch, hstate⟩ := hchild
  obtain rfl : k = k' := Option.some.inj (hk.symm.trans hk')
  rw [hch, Option.map_some] at hstep
  obtain rfl := Option.some.inj hstep
  apply hs.put hv
  · rfl
  · simp [inService, hphase]
  · intro c' v'' _ _
    exact ⟨le_rfl, fun _ _ => Or.inl rfl, fun _ ch _ hch => ⟨ch, hch, rfl, Iff.rfl⟩⟩
  · refine ⟨hnumber, hlaunch, ?_, ?_⟩
    · intro hnone
      rw [hk] at hnone
      cases hnone
    · intro j hj
      obtain rfl : k = j := Option.some.inj (hk.symm.trans hj)
      refine ⟨ch, hch, ?_⟩
      rw [failed_serve]
      simpa [Serving.fails] using hstate
  · intro p c' hp
    have hpid : p ≠ ch.pid := by
      rintro rfl
      rw [AList.lookup_erase] at hp
      cases hp
    rw [AList.lookup_erase_ne hpid] at hp
    refine Or.inl ⟨?_, hp⟩
    -- Its own entry, if it was still there, was at its child's pid.
    rintro rfl
    obtain ⟨j, ch₀, hj, hch₀, hpid₀, _⟩ := hs.own hv hp
    obtain rfl : k = j := Option.some.inj (hk.symm.trans hj)
    obtain rfl : ch = ch₀ := Option.some.inj (hch.symm.trans hch₀)
    exact hpid hpid₀.symm
  · intro c' v'' hc hv''
    exact hs.distinct c c' v v'' (Ne.symm hc) hv hv''

theorem leave {s : Launches} {h : List Move} (hs : Accounted s h) {c : Nat} {v : Service}
    (hv : s.services[c]? = some v) (hphase : v.phase = .returned) :
    Accounted (({ s with clients := s.clients - 1 } : Launches).put c { v with phase := .gone })
      (h ++ [.serve c .leave]) := by
  obtain ⟨hnumber, hlaunch, hchild⟩ := hs.sound c v hv
  simp only [LaunchSound, hphase] at hlaunch
  simp only [ChildSound, hphase] at hchild
  have hpositive : 0 < s.clients := by
    rw [hs.counted]
    exact List.countP_pos_iff.mpr ⟨v, List.mem_of_getElem? hv, by simp [inService, hphase]⟩
  apply hs.put hv
  · rfl
  · simp only [inService, hphase]
    simp
    omega
  · intro c' v'' _ _
    exact ⟨le_rfl, fun _ _ => Or.inl rfl, fun _ ch _ hch => ⟨ch, hch, rfl, Iff.rfl⟩⟩
  · refine ⟨hnumber, hlaunch, ?_, ?_⟩
    all_goals
      rw [failed_serve]
      simpa [Serving.fails] using by first | exact hchild.1 | exact hchild.2
  · intro p c' hp
    by_cases hc : c' = c
    · subst hc
      obtain ⟨k, ch, hk, hch, hpid, hlists⟩ := hs.own hv hp
      rw [hphase] at hlists
      refine Or.inr ⟨rfl, k, ch, hk, hch, hpid, Or.inr ?_⟩
      rcases hlists with hlists | hlists
      · cases hlists
      · exact failed_serve.mpr (Or.inl hlists)
    · exact Or.inl ⟨hc, hp⟩
  · intro c' v'' hc hv''
    exact hs.distinct c c' v v'' (Ne.symm hc) hv hv''

/-- A step before there is a child, which may be the last. -/
theorem early {s : Launches} {h : List Move} (hs : Accounted s h) {c : Nat} {v : Service}
    {a : Serving} (hv : s.services[c]? = some v) (p : Phase) (hphase : v.phase.childless)
    (hp : p.childless ∨ p = .returned) (ha : a.fails = false)
    (hlaunch : s.LaunchSound { v with phase := p }) :
    Accounted (s.put c { v with phase := p }) (h ++ [.serve c a]) := by
  obtain ⟨hnone, hfailed⟩ := (hs.sound c v hv).childless hphase
  have hnotFailed : ¬Failed (h ++ [.serve c a]) c := by
    rw [failed_serve]
    simpa [ha] using hfailed
  refine hs.phase hv p ?_ hlaunch ?_ ?_
  · constructor
    · intro hgone
      simp [hgone, Phase.childless] at hphase
    · rintro rfl
      simp [Phase.childless] at hp
  · rcases hp with hp | rfl
    · cases p <;> first | exact ⟨hnone, hnotFailed⟩ | cases hp
    · refine ⟨fun _ => hnotFailed, fun k hk => ?_⟩
      rw [hnone] at hk
      cases hk
  · intro hlists
    cases hv : v.phase <;> simp [hv, Phase.childless, Phase.lists] at hphase hlists

/-- A step while the child is watched. -/
theorem watching {s : Launches} {h : List Move} (hs : Accounted s h) {c : Nat} {v : Service}
    {a : Serving} (hv : s.services[c]? = some v) (p : Phase)
    (hphase : v.phase = .entered ∨ ∃ attached, v.phase = .polling attached)
    (hp : p = .exited ∨ ∃ attached, p = .polling attached) (ha : a.fails = false) :
    Accounted (s.put c { v with phase := p }) (h ++ [.serve c a]) := by
  have hself := hs.sound c v hv
  have hlaunch := hself.launch
  have hchild := hself.child
  have hnotFailed : ¬Failed h c → ¬Failed (h ++ [.serve c a]) c := by
    intro hfailed
    rw [failed_serve]
    simpa [ha] using hfailed
  rcases hphase with hphase | ⟨attached, hphase⟩ <;>
    simp only [LaunchSound, ChildSound, hphase] at hlaunch hchild <;>
    rcases hp with rfl | ⟨attached', rfl⟩ <;>
    exact hs.phase hv _ (by simp [hphase]) hlaunch ⟨hnotFailed hchild.1, hchild.2⟩
      fun _ => Or.inl rfl

/-- An early return while the child may still run. -/
theorem abandon {s : Launches} {h : List Move} (hs : Accounted s h) {c : Nat} {v : Service}
    {a : Serving} (hv : s.services[c]? = some v)
    (hphase : v.phase = .entered ∨ ∃ attached, v.phase = .polling attached) (ha : a.fails) :
    Accounted (s.put c { v with phase := .returned }) (h ++ [.serve c a]) := by
  have hself := hs.sound c v hv
  have hlaunch := hself.launch
  have hchild := hself.child
  have hfailed : Failed (h ++ [.serve c a]) c := failed_serve.mpr (Or.inr ha)
  rcases hphase with hphase | ⟨attached, hphase⟩ <;>
    simp only [LaunchSound, ChildSound, hphase] at hlaunch hchild <;>
    obtain ⟨_, k, ch, hk, hch, hstate⟩ := hchild <;>
    refine hs.phase hv _ (by simp [hphase]) hlaunch ⟨?_, ?_⟩ fun _ => Or.inr ha
  all_goals first
    | (intro hnone; rw [hk] at hnone; cases hnone)
    | (intro j hj
       obtain rfl : k = j := Option.some.inj (hk.symm.trans hj)
       exact ⟨ch, hch, by simp [hfailed, hstate]⟩)

/-- Requests of a client that is attached are passed on or refused. -/
theorem passOn {s : Launches} {h : List Move} (hs : Accounted s h) {c : Nat} {v : Service}
    (hv : s.services[c]? = some v) (hphase : v.phase = .polling true) :
    Accounted s (h ++ [.serve c (.poll .request)]) := by
  have hkept := hs.watching hv (a := .poll .request) (.polling true) (Or.inr ⟨true, hphase⟩)
    (Or.inr ⟨true, rfl⟩) rfl
  have hsame : s.put c { v with phase := .polling true } = s := by
    have hself : ({ v with phase := .polling true } : Service) = v := by rw [← hphase]
    obtain ⟨hlt, hget⟩ := List.getElem?_eq_some_iff.mp hv
    unfold Launches.put
    rw [hself, ← hget, List.set_getElem_self]
  rwa [hsame] at hkept

theorem serve {s s' : Launches} {h : List Move} (hs : Accounted s h) {c : Nat} {v : Service}
    {a : Serving} (hv : s.services[c]? = some v) (hstep : s.serve c v a = some s') :
    Accounted s' (h ++ [.serve c a]) := by
  have hlaunch := (hs.sound c v hv).launch
  unfold Launches.serve at hstep
  split at hstep
  -- The request is refused.
  case h_1 hphase =>
    obtain rfl := Option.some.inj hstep
    simp only [LaunchSound, hphase] at hlaunch
    apply hs.early hv .returned (by simp [hphase, Phase.childless]) (Or.inr rfl) rfl
    simp [LaunchSound, hlaunch]
  -- The launch is listed.
  case h_2 hphase =>
    obtain rfl := Option.some.inj hstep
    exact hs.record hv hphase
  -- Its cgroup is made, or not.
  case h_3 ok hphase =>
    obtain rfl := Option.some.inj hstep
    simp only [LaunchSound, hphase] at hlaunch
    cases ok with
    | true => exact hs.early hv .created (by simp [hphase, Phase.childless]) (Or.inl rfl) rfl hlaunch
    | false => exact hs.early hv .failed (by simp [hphase, Phase.childless]) (Or.inl rfl) rfl hlaunch
  -- The child cannot be started.
  case h_4 hphase =>
    obtain rfl := Option.some.inj hstep
    simp only [LaunchSound, hphase] at hlaunch
    exact hs.early hv .failed (by simp [hphase, Phase.childless]) (Or.inl rfl) rfl hlaunch
  -- The child starts.
  case h_5 hphase _ => exact hs.start hv hphase hstep
  -- A launch that failed is listed no longer.
  case h_6 hphase hn =>
    obtain rfl := Option.some.inj hstep
    exact hs.unlist hv hphase hn
  -- Its cgroup is removed.
  case h_7 hphase =>
    obtain rfl := Option.some.inj hstep
    simp only [LaunchSound, hphase] at hlaunch
    exact hs.early hv .returned (by simp [hphase, Phase.childless]) (Or.inr rfl) rfl hlaunch
  -- The child enters its cgroup.
  case h_8 hphase hn hk => exact hs.enter hv hphase hn hk hstep
  -- The client is told, or cannot be.
  case h_9 sent hphase =>
    obtain rfl := Option.some.inj hstep
    cases sent with
    | true => exact hs.watching hv (.polling true) (Or.inl hphase) (Or.inr ⟨true, rfl⟩) rfl
    | false => exact hs.abandon hv (Or.inl hphase) rfl
  -- Polling fails.
  case h_10 hphase =>
    obtain rfl := Option.some.inj hstep
    exact hs.abandon hv (Or.inr ⟨_, hphase⟩) rfl
  -- The child has exited.
  case h_11 hphase _ =>
    split at hstep
    · obtain rfl := Option.some.inj hstep
      exact hs.watching hv .exited (Or.inr ⟨_, hphase⟩) (Or.inl rfl) rfl
    · cases hstep
  -- The client asks for something.
  case h_12 hphase =>
    obtain rfl := Option.some.inj hstep
    exact hs.passOn hv hphase
  -- The client hangs up.
  case h_13 hphase =>
    obtain rfl := Option.some.inj hstep
    exact hs.watching hv (.polling false) (Or.inr ⟨_, hphase⟩) (Or.inr ⟨false, rfl⟩) rfl
  -- The child is waited for.
  case h_14 ok _ hphase hk =>
    obtain rfl := Option.some.inj hstep
    exact hs.wait hv hphase hk ok
  -- Its pid is listed no longer.
  case h_15 hphase hk => exact hs.forget hv hphase hk hstep
  -- The thread of the client is done.
  case h_16 hphase =>
    obtain rfl := Option.some.inj hstep
    exact hs.leave hv hphase
  -- There is no such step.
  case h_17 => cases hstep

/-! ## Section 4: Other Steps -/

theorem begin {s : Launches} {h : List Move} (hs : Accounted s h) :
    Accounted { s with
      clients := s.clients + 1
      served := true
      services := s.services ++ [{}] } (h ++ [.begin]) := by
  have hfailed : ∀ c, Failed (h ++ [.begin]) c ↔ Failed h c := by
    intro c
    simp [failed_concat, Move.fails]
  -- A service is one that was there, or the new one.
  have hget : ∀ (c : Nat) (v : Service), (s.services ++ [({} : Service)])[c]? = some v →
      s.services[c]? = some v ∨ c = s.services.length ∧ v = {} := by
    intro c v hv
    rcases lt_trichotomy c s.services.length with hlt | rfl | hlt
    · rw [List.getElem?_append_left hlt] at hv
      exact Or.inl hv
    · rw [List.getElem?_concat_length] at hv
      exact Or.inr ⟨rfl, (Option.some.inj hv).symm⟩
    · rw [List.getElem?_eq_none (by rw [List.length_append]; exact hlt)] at hv
      cases hv
  refine {
    counted := ?counted, sound := ?sound, listed := ?listed, fresh := ?fresh,
    distinct := ?distinct }
  case counted =>
    show s.clients + 1 = (s.services ++ [({} : Service)]).countP inService
    rw [List.countP_append, ← hs.counted]
    rfl
  case sound =>
    intro c v hv
    rw [propext (hfailed c)]
    rcases hget c v hv with hv | ⟨rfl, rfl⟩
    · exact ⟨(hs.sound c v hv).number, (hs.sound c v hv).launch, (hs.sound c v hv).child⟩
    · exact ⟨fun n hn => (nomatch hn), rfl, rfl, hs.fresh _ le_rfl⟩
  case listed =>
    intro p c hp
    obtain ⟨v, k, ch, hv, hk, hch, hpid, hlists⟩ := hs.listed p c hp
    obtain ⟨hlt, _⟩ := List.getElem?_eq_some_iff.mp hv
    exact ⟨v, k, ch, by rw [List.getElem?_append_left hlt, hv], hk, hch, hpid,
      hlists.imp_right (hfailed c).mpr⟩
  case fresh =>
    intro c hc
    rw [hfailed]
    apply hs.fresh
    simp only [List.length_append, List.length_singleton] at hc
    omega
  case distinct =>
    intro c c' v v' hne hv hv'
    rcases hget c v hv with hv | ⟨_, rfl⟩
    · rcases hget c' v' hv' with hv' | ⟨_, rfl⟩
      · exact hs.distinct c c' v v' hne hv hv'
      · exact ⟨fun _ _ hn' => (nomatch hn'), fun _ _ hk' => (nomatch hk')⟩
    · exact ⟨fun _ hn => (nomatch hn), fun _ hk => (nomatch hk)⟩

theorem exit {s : Launches} {h : List Move} (hs : Accounted s h) {k : Nat}
    (hk : (s.children[k]?).any fun ch => ch.state = .running) :
    Accounted (s.setChild k .exited) (h ++ [.exit k]) := by
  refine hs.aside (t := s.setChild k .exited) (fun _ => rfl) rfl rfl rfl fun v =>
    ⟨le_rfl, fun _ _ => Or.inl rfl, fun j ch _ hch => ?_⟩
  rw [getElem?_setChild]
  by_cases hj : k = j
  · subst hj
    have hrunning : ch.state = .running := by simpa [hch] using hk
    exact ⟨{ ch with state := .exited }, by simp [hch], rfl, by simp [hrunning]⟩
  · exact ⟨ch, by rw [if_neg hj, hch], rfl, Iff.rfl⟩

private theorem lookup_foldl_erase (ns : List Nat) (L : AList fun _ : Nat => Launch) (n : Nat) :
    (ns.foldl (fun L n => L.erase n) L).lookup n = if n ∈ ns then none else L.lookup n := by
  induction ns generalizing L with
  | nil => simp
  | cons m ns ih =>
      rw [List.foldl_cons, ih]
      by_cases hm : n = m
      · subst hm
        simp [AList.lookup_erase]
      · simp [hm, AList.lookup_erase_ne hm]

/-- Launches are taken off the list one by one, those that are marked. -/
theorem lookup_removeFinishedLaunches {s : Launches} {readable : Nat → Bool} {removal : Nat → Removal}
    (n : Nat) :
    (s.removeFinishedLaunches readable removal).launches.lookup n = s.launches.lookup n ∨
      (s.removeFinishedLaunches readable removal).launches.lookup n = none ∧
        s.launches.lookup n ≠ some {} := by
  show (List.foldl _ s.launches _).lookup n = _ ∨ (List.foldl _ s.launches _).lookup n = _ ∧ _
  rw [lookup_foldl_erase]
  by_cases hn : n ∈ s.finished readable removal
  · refine Or.inr ⟨if_pos hn, ?_⟩
    obtain ⟨⟨m, l⟩, hmem, hfinished⟩ := List.mem_filterMap.mp hn
    split at hfinished
    · rename_i hstarted
      obtain rfl : m = n := Option.some.inj hfinished
      rw [AList.mem_lookup_iff.mpr hmem]
      intro hentry
      obtain rfl := Option.some.inj hentry
      exact absurd hstarted.1 (by simp)
    · cases hfinished
  · exact Or.inl (if_neg hn)

theorem watch {s s' : Launches} {h : List Move} (hs : Accounted s h) {a : Watching}
    (hstep : s.watchIdle a = some s') : Accounted s' (h ++ [.watch a]) := by
  unfold watchIdle at hstep
  have hplain : ∀ t : Launches, t.services = s.services → t.clients = s.clients →
      t.spawned = s.spawned → t.nextLaunch = s.nextLaunch → t.launches = s.launches →
      t.children = s.children → Accounted t (h ++ [.watch a]) := by
    intro t hservices hclients hspawned hnext hlaunches hchildren
    apply hs.aside (fun _ => rfl) hservices hclients hspawned
    intro v
    exact ⟨Nat.le_of_eq hnext.symm, fun _ _ => Or.inl (by rw [hlaunches]),
      fun _ ch _ hch => ⟨ch, hchildren ▸ hch, rfl, Iff.rfl⟩⟩
  split at hstep
  · obtain rfl := Option.some.inj hstep
    exact hplain _ rfl rfl rfl rfl rfl rfl
  · split at hstep
    · split at hstep <;> (obtain rfl := Option.some.inj hstep; exact hplain _ rfl rfl rfl rfl rfl rfl)
    · cases hstep
  · split at hstep
    · cases hstep
    · obtain rfl := Option.some.inj hstep
      refine hs.aside (fun _ => rfl) ?_ ?_ ?_ fun v => ⟨?_, fun n _ => lookup_removeFinishedLaunches n,
        fun _ ch _ hch => ⟨ch, hch, rfl, Iff.rfl⟩⟩ <;> rfl
  · split at hstep <;> (obtain rfl := Option.some.inj hstep; exact hplain _ rfl rfl rfl rfl rfl rfl)
  · split at hstep <;> (obtain rfl := Option.some.inj hstep; exact hplain _ rfl rfl rfl rfl rfl rfl)
  · obtain rfl := Option.some.inj hstep
    exact hplain _ rfl rfl rfl rfl rfl rfl
  · cases hstep

theorem step {s s' : Launches} {h : List Move} (hs : Accounted s h) {a : Move}
    (hstep : s.step a = some s') : Accounted s' (h ++ [a]) := by
  unfold Launches.step at hstep
  split at hstep
  · cases hstep
  split at hstep
  · obtain rfl := Option.some.inj hstep
    exact hs.begin
  · obtain ⟨v, hv, hstep⟩ := Option.bind_eq_some_iff.mp hstep
    exact hs.serve hv hstep
  · split at hstep
    · rename_i hrunning
      obtain rfl := Option.some.inj hstep
      exact hs.exit hrunning
    · cases hstep
  · split at hstep
    · obtain rfl := Option.some.inj hstep
      exact hs.aside (fun _ => rfl) rfl rfl rfl fun v => ⟨le_rfl, fun _ _ => Or.inl rfl,
        fun _ ch _ hch => ⟨ch, hch, rfl, Iff.rfl⟩⟩
    · cases hstep
  · split at hstep
    · obtain rfl := Option.some.inj hstep
      exact hs.aside (fun _ => rfl) rfl rfl rfl fun v => ⟨le_rfl, fun _ _ => Or.inl rfl,
        fun _ ch _ hch => ⟨ch, hch, rfl, Iff.rfl⟩⟩
    · cases hstep
  · exact hs.watch hstep
  · obtain rfl := Option.some.inj hstep
    exact hs.aside (fun _ => rfl) rfl rfl rfl fun v => ⟨le_rfl, fun _ _ => Or.inl rfl,
      fun _ ch _ hch => ⟨ch, hch, rfl, Iff.rfl⟩⟩

end Accounted

/-! ## Section 5: Runs -/

private theorem accounted_of_run {s : Launches} {as : List Move} (hrun : run Launches.step {} as = some s) :
    Accounted s as := by
  have haccounted : Accounted s ([] ++ as) :=
    run_invariant_history (fun _ _ _ _ hs hstep => hs.step hstep) .initial hrun
  exact haccounted

/-- Once a launch that is marked has no process left, its entry goes, unless a process enters its
cgroup after all. -/
theorem removeFinishedLaunches_removes {s : Launches} {n : Nat} {l : Launch}
    (hentry : s.launches.lookup n = some l) (hstarted : l.started) (hover : s.populated n = false)
    {readable : Nat → Bool} {removal : Nat → Removal} (hremoval : removal n ≠ .busy) :
    (s.removeFinishedLaunches readable removal).launches.lookup n = none := by
  have hmem : n ∈ s.finished readable removal := by
    refine List.mem_filterMap.mpr ⟨⟨n, l⟩, AList.mem_lookup_iff.mp hentry, ?_⟩
    simp [hstarted, hover, hremoval]
  show (List.foldl _ s.launches _).lookup n = none
  rw [Accounted.lookup_foldl_erase, if_pos hmem]

/-- However a Spawn goes: once `serve_spawn` has returned, everything is taken back if and only
if it did not return because the client could not be told, the poll failed, or the wait. The
clients that are counted are those that are served. -/
theorem spawn_cleaned_up_iff {as : List Move} {s : Launches}
    (hrun : run Launches.step {} as = some s) :
    s.clients = s.services.countP inService ∧
      ∀ c v, s.services[c]? = some v → v.phase = .returned ∨ v.phase = .gone →
        (CleanedUp s c v ↔ ¬Failed as c) := by
  have hs := accounted_of_run hrun
  refine ⟨hs.counted, fun c v hv hdone => ?_⟩
  obtain ⟨_, hlaunch, hchild⟩ := hs.sound c v hv
  have hmarked : ∀ n, v.launch = some n → ∀ l, s.launches.lookup n = some l → l.started := by
    rcases hdone with hdone | hdone <;> simpa only [LaunchSound, hdone] using hlaunch
  have hends : (v.child = none → ¬Failed as c) ∧ ∀ k, v.child = some k →
      ∃ ch, s.children[k]? = some ch ∧ (Failed as c ↔ ch.state ≠ .reaped) := by
    rcases hdone with hdone | hdone <;> simpa only [ChildSound, hdone] using hchild
  constructor
  · intro hclean
    cases hk : v.child with
    | none => exact hends.1 hk
    | some k =>
        obtain ⟨ch, hch, hiff⟩ := hends.2 k hk
        obtain ⟨ch', hch', hreaped⟩ := hclean.child k hk
        obtain rfl : ch = ch' := Option.some.inj (hch.symm.trans hch')
        rw [hiff]
        exact not_not.mpr hreaped
  · intro hfailed
    refine ⟨fun k hk => ?_, fun p hp => ?_, hmarked⟩
    · obtain ⟨ch, hch, hiff⟩ := hends.2 k hk
      exact ⟨ch, hch, not_not.mp fun hstate => hfailed (hiff.mpr hstate)⟩
    · obtain ⟨_, _, _, _, _, hlists⟩ := hs.own hv hp
      rcases hlists with hlists | hlists
      · rcases hdone with hdone | hdone <;> (rw [hdone] at hlists; cases hlists)
      · exact hfailed hlists

/-- The client hangs up before it is told. -/
def clientHangsUp : List Move :=
  [.begin, .serve 0 .record, .serve 0 (.create true), .serve 0 (.start (some 7)), .serve 0 .enter,
    .serve 0 (.tell false), .serve 0 .leave]

/-- A Spawn that goes well. -/
def clientStays : List Move :=
  [.begin, .serve 0 .record, .serve 0 (.create true), .serve 0 (.start (some 7)), .serve 0 .enter,
    .serve 0 (.tell true), .exit 0, .serve 0 (.poll .child), .serve 0 (.wait true),
    .serve 0 .forget, .serve 0 .leave]

theorem spawn_cleaned_up_iff_example :
    ∃ s v, run Launches.step {} clientStays = some s ∧ s.services[0]? = some v ∧ s.clients = 0 ∧
      CleanedUp s 0 v := by
  obtain ⟨s, hrun, hcheck⟩ := exists_of_any (o := run Launches.step {} clientStays)
    (p := fun s => s.clients = 0 ∧
      s.services[0]? = some { phase := .gone, launch := some 1, child := some 0 }) (by decide +kernel)
  obtain ⟨hclients, hv⟩ := of_decide_eq_true hcheck
  have hfailed : ¬Failed clientStays 0 := by
    simp [Failed, clientStays, Move.fails, Serving.fails]
  exact ⟨s, _, hrun, hv, hclients, ((spawn_cleaned_up_iff hrun).2 0 _ hv (Or.inr rfl)).mpr hfailed⟩

/-- The child of a client that hangs up is neither waited for nor taken off the list. -/
theorem spawn_not_cleaned_up :
    ∃ s v, run Launches.step {} clientHangsUp = some s ∧ s.services[0]? = some v ∧ v.phase = .gone ∧
      s.children[0]? = some { pid := 7, launch := 1 } ∧ s.spawned.lookup 7 = some 0 ∧
      ¬CleanedUp s 0 v := by
  obtain ⟨s, hrun, hcheck⟩ := exists_of_any (o := run Launches.step {} clientHangsUp)
    (p := fun s => s.services[0]? = some { phase := .gone, launch := some 1, child := some 0 } ∧
      s.children[0]? = some { pid := 7, launch := 1 } ∧ s.spawned.lookup 7 = some 0)
    (by decide +kernel)
  obtain ⟨hv, hchild, hlisted⟩ := of_decide_eq_true hcheck
  exact ⟨s, _, hrun, hv, rfl, hchild, hlisted, fun hclean => hclean.spawned 7 hlisted⟩

end Psbox.Sandbox
