import Psbox.Decorations.CopiesFollow

/-!
# Size Limits

The size limits that the compositor has for a toplevel, against the bridge's own: with the height of
the title bar added, as long as it has one. They are not sent again when new states show or hide the
title bar, and are then off by its height; while that does not happen they follow
(`limits_follow`).
-/

namespace Psbox.Decorations

open Psbox.Foundations

variable {A : Type}

/-- In a run in which no new states change the height of the title bar of a toplevel that has limits,
the limits the compositor has are the bridge's own, with that height where there is a title bar. -/
theorem limits_follow (L : Library A) (hL : L.Lawful) {E : Setting (Window A)} (hdraws : E.drawing = L.drawing)
    {x : State (Window A) × (Nat → Own)} {as : List Action}
    (hmeets : StepsMeet (watched (step E) asks) (fun x a => Promised x.1 a ∧ LimitsStay E x.1 a)
      (State.initial (Window A) E, fun _ => {}) as)
    (hrun : run (watched (step E) asks) (State.initial (Window A) E, fun _ => {}) as = some x) {id : Id}
    {o : Obj} {t : Toplevel} {up : ObjectId} (ho : x.1.obj id = some o) (hiface : o.iface.name = "xdg_toplevel")
    (hrole : o.role = .toplevel t) (hkind : o.kind = .upstream (some up)) :
    match x.1.frames.lookup id with
    | some f =>
        (copyOf up x.1.log).min = grown (f.drawn.offset L) (x.2 o.born).min ∧
          (copyOf up x.1.log).max = grown (f.drawn.offset L) (x.2 o.born).max
    | none =>
        (copyOf up x.1.log).min = (x.2 o.born).min ∧ (copyOf up x.1.log).max = (x.2 o.born).max := by
  have hsteady : E.drawing.Steady := hdraws ▸ hL.steady
  obtain ⟨hmirrors, _⟩ : x.1.Mirrors E (fun _ => True) (fun _ => 0) x.2 ∧ _ :=
    mirrors_of_run hsteady (fun _ _ hc => ⟨hc.1, fun _ _ => hc.2⟩) hmeets hrun
  obtain ⟨_, _, hmin, hmax, hcopies⟩ := (hmirrors.objects id o up ho hkind).limits hiface t hrole
  obtain ⟨hcopymin, hcopymax⟩ := hcopies trivial
  rw [hcopymin, hcopymax]
  unfold State.frameOffset
  split
  · rename_i f hframe
    rw [hframe, hdraws]
    exact ⟨rfl, rfl⟩
  · rename_i hframe
    rw [hframe]
    exact ⟨grown_zero hmin, grown_zero hmax⟩

/-- A toplevel with limits gets a title bar. -/
def limited : List Action :=
  windowOpens ++ [.request ⟨8, 2, [.int 200, .int 100]⟩ ⟨some 0, true⟩,
    .request ⟨9, 1, [.uint serverSide]⟩ ⟨none, true⟩]

theorem limits_follow_example :
    ∃ x f, run (watched (step windowSetting) asks) (State.initial _ windowSetting, fun _ => {}) limited = some x ∧
      x.1.frames.lookup 8 = some f ∧ grown (f.drawn.offset (plainTitles 35)) (200, 100) = (200, 135) ∧
      (copyOf 15 x.1.log).min = grown (f.drawn.offset (plainTitles 35)) (200, 100) := by
  have hsome : ((run (watched (step windowSetting) asks) (State.initial _ windowSetting, fun _ => {})
      limited).any fun x => (x.1.obj 8).any fun o => (x.1.frames.lookup 8).any fun f => decide
        (o.iface.name = "xdg_toplevel" ∧ o.role.asToplevel.isSome ∧ o.kind = .upstream (some 15) ∧
          (x.2 o.born).min = (200, 100) ∧ grown (f.drawn.offset (plainTitles 35)) (200, 100) = (200, 135))) =
      true := by
    decide
  obtain ⟨x, hx, hobj⟩ := exists_of_any hsome
  obtain ⟨o, ho, hframe⟩ := exists_of_any hobj
  obtain ⟨f, hf, hchecked⟩ := exists_of_any hframe
  obtain ⟨hiface, hrole, hkind, hown, hgrown⟩ := of_decide_eq_true hchecked
  obtain ⟨t, ht⟩ := Option.isSome_iff_exists.mp hrole
  have hfollows := limits_follow (plainTitles 35) (plainTitles_lawful 35) rfl (by decide) hx ho hiface
    (Role.asToplevel_eq_some.mp ht) hkind
  rw [hf, hown] at hfollows
  exact ⟨x, f, hx, hf, hgrown, hfollows.1⟩

/-- Then it becomes fullscreen, which hides the title bar: the compositor keeps the limit that takes
it in. -/
theorem limits_left_behind :
    StepsMeet (watched (step windowSetting) asks) (fun x a => Promised x.1 a) (State.initial _ windowSetting, fun _ => {})
        (limited ++ [.event { sender := 15, opcode := 0, args := [.int 800, .int 600, .array [2, 0, 0, 0]] }]) ∧
      ∃ x, run (watched (step windowSetting) asks) (State.initial _ windowSetting, fun _ => {})
          (limited ++ [.event { sender := 15, opcode := 0, args := [.int 800, .int 600, .array [2, 0, 0, 0]] }]) =
            some x ∧
        ∃ o t f, x.1.obj 8 = some o ∧ o.iface.name = "xdg_toplevel" ∧ o.role = .toplevel t ∧
          o.kind = .upstream (some 15) ∧ x.1.frames.lookup 8 = some f ∧ f.drawn.offset (plainTitles 35) = 0 ∧
          (copyOf 15 x.1.log).min = (200, 135) ∧
          grown (f.drawn.offset (plainTitles 35)) (x.2 o.born).min = (200, 100) := by
  refine ⟨by decide, ?_⟩
  have hsome : ((run (watched (step windowSetting) asks) (State.initial _ windowSetting, fun _ => {})
      (limited ++ [.event { sender := 15, opcode := 0, args := [.int 800, .int 600, .array [2, 0, 0, 0]] }])).any
        fun x => (x.1.obj 8).any fun o => (x.1.frames.lookup 8).any fun f => decide
        (o.iface.name = "xdg_toplevel" ∧ o.role.asToplevel.isSome ∧ o.kind = .upstream (some 15) ∧
          f.drawn.offset (plainTitles 35) = 0 ∧ (copyOf 15 x.1.log).min = (200, 135) ∧
          grown (f.drawn.offset (plainTitles 35)) (x.2 o.born).min = (200, 100))) = true := by
    decide
  obtain ⟨x, hx, hobj⟩ := exists_of_any hsome
  obtain ⟨o, ho, hframe⟩ := exists_of_any hobj
  obtain ⟨f, hf, hchecked⟩ := exists_of_any hframe
  obtain ⟨hiface, hrole, hkind, hoffset, hcopy, hgrown⟩ := of_decide_eq_true hchecked
  obtain ⟨t, ht⟩ := Option.isSome_iff_exists.mp hrole
  exact ⟨x, hx, o, t, f, ho, hiface, Role.asToplevel_eq_some.mp ht, hkind, hf, hoffset, hcopy, hgrown⟩

end Psbox.Decorations
