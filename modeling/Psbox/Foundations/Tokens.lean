import Mathlib.Data.Multiset.AddSub
import Mathlib.Data.Multiset.UnionInter
import Mathlib.Tactic.Common

/-!
# Conservation of Tokens

A system hands tokens from place to place: every token that was issued is in
exactly one place. `Ledger` states that, and the rules say that it is kept when
some tokens move from one place to another and when a new token is issued.
-/

namespace Psbox.Foundations

variable {P ι : Type*}

/-- Every issued token, and no other, is in exactly one place, once. -/
structure Ledger (issued : ι → Prop) (t : P → Multiset ι) : Prop where
  nodup : ∀ p, (t p).Nodup
  disjoint : ∀ p q x, x ∈ t p → x ∈ t q → p = q
  sound : ∀ p x, x ∈ t p → issued x
  total : ∀ x, issued x → ∃ p, x ∈ t p

/-- The tokens `m` go from the place `a` to the place `b`. -/
structure Moves (t t' : P → Multiset ι) (a b : P) (m : Multiset ι) : Prop where
  source : t a = m + t' a
  target : t' b = m + t b
  frame : ∀ p, p ≠ a → p ≠ b → t' p = t p

/-- The new token `x` comes to the place `b`. -/
structure Issues (t t' : P → Multiset ι) (b : P) (x : ι) : Prop where
  target : t' b = x ::ₘ t b
  frame : ∀ p, p ≠ b → t' p = t p

section Rules

variable {issued issued' : ι → Prop} {t t' : P → Multiset ι}

/-- A token comes from outside after a step that moves none. -/
theorem Issues.after {t₁ : P → Multiset ι} {b : P} {x : ι} (h : Issues t₁ t' b x)
    (hsame : ∀ p, t₁ p = t p) : Issues t t' b x := by
  obtain rfl : t₁ = t := funext hsame
  exact h

theorem Ledger.congr (h : Ledger issued t) (hissued : ∀ x, issued' x ↔ issued x)
    (hsame : ∀ p, t' p = t p) : Ledger issued' t' := by
  obtain rfl : t' = t := funext hsame
  obtain rfl : issued' = issued := funext fun x => propext (hissued x)
  exact h

/-- Where a token is after a move. -/
theorem Moves.mem_iff {a b : P} {m : Multiset ι} (hne : a ≠ b) (h : Moves t t' a b m)
    (p : P) (x : ι) :
    x ∈ t' p ↔ (p = b ∧ x ∈ m) ∨ (p = a ∧ x ∈ t' a) ∨ (p ≠ a ∧ x ∈ t p) := by
  by_cases hpb : p = b
  · subst hpb
    simp [h.target, hne.symm]
  · by_cases hpa : p = a
    · subst hpa
      simp [hpb]
    · simp [hpa, hpb, h.frame p hpa hpb]

theorem Ledger.moves {a b : P} {m : Multiset ι} (h : Ledger issued t)
    (hissued : ∀ x, issued' x ↔ issued x) (hne : a ≠ b) (hmove : Moves t t' a b m) :
    Ledger issued' t' := by
  obtain rfl : issued' = issued := funext fun x => propext (hissued x)
  have hsource : ∀ x, x ∈ t a ↔ x ∈ m ∨ x ∈ t' a := by
    intro x
    rw [hmove.source, Multiset.mem_add]
  have hnodup := h.nodup a
  rw [hmove.source, Multiset.nodup_add] at hnodup
  obtain ⟨hm, ha, hdisj⟩ := hnodup
  -- A token that is somewhere after the move was there before, or moved.
  have hbefore : ∀ p x, x ∈ t' p → ∃ q, x ∈ t q ∧ ((q = p ∧ (p = a → x ∉ m)) ∨
      (q = a ∧ p = b ∧ x ∈ m)) := by
    intro p x hx
    rcases (hmove.mem_iff hne p x).mp hx with ⟨rfl, hxm⟩ | ⟨rfl, hxa⟩ | ⟨hpa, hxp⟩
    · exact ⟨a, (hsource x).mpr (Or.inl hxm), Or.inr ⟨rfl, rfl, hxm⟩⟩
    · exact ⟨p, (hsource x).mpr (Or.inr hxa), Or.inl ⟨rfl, fun _ hxm =>
        Multiset.disjoint_left.mp hdisj hxm hxa⟩⟩
    · exact ⟨p, hxp, Or.inl ⟨rfl, fun hp => absurd hp hpa⟩⟩
  constructor
  case nodup =>
    intro p
    by_cases hpb : p = b
    · subst hpb
      rw [hmove.target, Multiset.nodup_add]
      refine ⟨hm, h.nodup p, Multiset.disjoint_left.mpr ?_⟩
      intro x hxm hxb
      exact hne (h.disjoint a p x ((hsource x).mpr (Or.inl hxm)) hxb)
    · by_cases hpa : p = a
      · exact hpa ▸ ha
      · rw [hmove.frame p hpa hpb]
        exact h.nodup p
  case disjoint =>
    intro p q x hp hq
    obtain ⟨p', hp', hcase⟩ := hbefore p x hp
    obtain ⟨q', hq', hcase'⟩ := hbefore q x hq
    have hsame := h.disjoint p' q' x hp' hq'
    rcases hcase with ⟨rfl, hpa⟩ | ⟨rfl, rfl, hxm⟩
    · rcases hcase' with ⟨rfl, _⟩ | ⟨rfl, rfl, hxm⟩
      · exact hsame
      · exact absurd hxm (hpa hsame)
    · rcases hcase' with ⟨rfl, hqa⟩ | ⟨_, rfl, _⟩
      · exact absurd hxm (hqa hsame.symm)
      · rfl
  case sound =>
    intro p x hx
    obtain ⟨q, hq, _⟩ := hbefore p x hx
    exact h.sound q x hq
  case total =>
    intro x hx
    obtain ⟨p, hp⟩ := h.total x hx
    by_cases hpa : p = a
    · subst hpa
      rcases (hsource x).mp hp with hxm | hxa
      · exact ⟨b, by rw [hmove.target]; exact Multiset.mem_add.mpr (Or.inl hxm)⟩
      · exact ⟨p, hxa⟩
    · exact ⟨p, (hmove.mem_iff hne p x).mpr (Or.inr (Or.inr ⟨hpa, hp⟩))⟩

theorem Ledger.issues {b : P} {x : ι} (h : Ledger issued t)
    (hissued : ∀ y, issued' y ↔ y = x ∨ issued y) (hnew : ¬ issued x)
    (hissue : Issues t t' b x) : Ledger issued' t' := by
  have hmem : ∀ p y, y ∈ t' p ↔ (p = b ∧ y = x) ∨ y ∈ t p := by
    intro p y
    by_cases hpb : p = b
    · subst hpb
      simp [hissue.target]
    · simp [hpb, hissue.frame p hpb]
  have hfresh : ∀ p, x ∉ t p := fun p hx => hnew (h.sound p x hx)
  constructor
  case nodup =>
    intro p
    by_cases hpb : p = b
    · subst hpb
      rw [hissue.target, Multiset.nodup_cons]
      exact ⟨hfresh p, h.nodup p⟩
    · rw [hissue.frame p hpb]
      exact h.nodup p
  case disjoint =>
    intro p q y hp hq
    rcases (hmem p y).mp hp with ⟨rfl, rfl⟩ | hp'
    · rcases (hmem q y).mp hq with ⟨rfl, _⟩ | hq'
      · rfl
      · exact absurd hq' (hfresh q)
    · rcases (hmem q y).mp hq with ⟨rfl, rfl⟩ | hq'
      · exact absurd hp' (hfresh p)
      · exact h.disjoint p q y hp' hq'
  case sound =>
    intro p y hy
    rcases (hmem p y).mp hy with ⟨_, rfl⟩ | hy'
    · exact (hissued y).mpr (Or.inl rfl)
    · exact (hissued y).mpr (Or.inr (h.sound p y hy'))
  case total =>
    intro y hy
    rcases (hissued y).mp hy with rfl | hy'
    · exact ⟨b, (hmem b y).mpr (Or.inl ⟨rfl, rfl⟩)⟩
    · obtain ⟨p, hp⟩ := h.total y hy'
      exact ⟨p, (hmem p y).mpr (Or.inr hp)⟩

end Rules

end Psbox.Foundations
