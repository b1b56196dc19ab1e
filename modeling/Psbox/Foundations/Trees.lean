import Mathlib.Data.List.Infix
import Mathlib.Logic.Function.Basic

/-!
# Trees of Named Values

Objects in objects, by the names of their fields: a tree has a value at its root or named children. A
path of names leads to a part of a tree. Setting a path gives that part a new tree, and makes an object
of whatever is on the way and is none.
-/

namespace Psbox.Foundations

/-- A value, or children by their names. -/
inductive NamedTree (κ α : Type) where
  | leaf (a : α)
  | node (children : κ → Option (NamedTree κ α))

/-- Neither path leads to the other or to a part of what it leads to. -/
def Apart {κ : Type} (p q : List κ) : Prop :=
  ¬p <+: q ∧ ¬q <+: p

theorem Apart.symm {κ : Type} {p q : List κ} (h : Apart p q) : Apart q p :=
  ⟨h.2, h.1⟩

theorem Apart.of_cons {κ : Type} {k : κ} {p q : List κ} (h : Apart (k :: p) (k :: q)) : Apart p q :=
  ⟨fun hp => h.1 (List.cons_prefix_cons.mpr ⟨rfl, hp⟩), fun hq => h.2 (List.cons_prefix_cons.mpr ⟨rfl, hq⟩)⟩

namespace NamedTree

variable {κ α : Type}

/-- The tree of an object with no fields. -/
def empty : NamedTree κ α := node fun _ => none

def children : NamedTree κ α → κ → Option (NamedTree κ α)
  | leaf _ => fun _ => none
  | node f => f

/-- What a path leads to. -/
def get : List κ → NamedTree κ α → Option (NamedTree κ α)
  | [], t => some t
  | k :: p, t => (t.children k).bind (get p)

section Set

variable [DecidableEq κ]

/-- Gives what a path leads to a new tree. -/
def set : List κ → NamedTree κ α → NamedTree κ α → NamedTree κ α
  | [], s, _ => s
  | k :: p, s, t => node (Function.update t.children k (some (set p s ((t.children k).getD empty))))

end Set

/-! ## Section 1: What a Path Leads To -/

@[simp] theorem get_nil (t : NamedTree κ α) : get [] t = some t := rfl

@[simp] theorem children_empty (k : κ) : (empty : NamedTree κ α).children k = none := rfl

@[simp] theorem children_node (f : κ → Option (NamedTree κ α)) : (node f).children = f := rfl

theorem get_cons (k : κ) (p : List κ) (t : NamedTree κ α) : get (k :: p) t = (t.children k).bind (get p) := rfl

theorem get_cons_eq_none {k : κ} {t : NamedTree κ α} (h : t.children k = none) (p : List κ) : get (k :: p) t = none := by
  rw [get_cons, h]
  rfl

theorem get_cons_of_some {k : κ} {t u : NamedTree κ α} (h : t.children k = some u) (p : List κ) :
    get (k :: p) t = get p u := by
  rw [get_cons, h]
  rfl

theorem get_append (p q : List κ) (t : NamedTree κ α) : get (p ++ q) t = (get p t).bind (get q) := by
  -- Step by step along the first path.
  induction p generalizing t with
  | nil => rfl
  | cons k p ih =>
      rw [List.cons_append, get_cons, get_cons]
      cases t.children k with
      | none => rfl
      | some u => exact ih u

/-- Nothing is in an object with no fields. -/
theorem get_empty {p : List κ} (h : p ≠ []) : get p (empty : NamedTree κ α) = none := by
  cases p with
  | nil => exact absurd rfl h
  | cons k p => rfl

/-! ## Section 2: Setting a Path -/

section Set

variable [DecidableEq κ]

theorem children_set (k : κ) (p : List κ) (s t : NamedTree κ α) :
    (set (k :: p) s t).children k = some (set p s ((t.children k).getD empty)) := by
  rw [set, children_node, Function.update_self]

theorem children_set_of_ne {k k' : κ} (h : k' ≠ k) (p : List κ) (s t : NamedTree κ α) :
    (set (k :: p) s t).children k' = t.children k' := by
  rw [set, children_node, Function.update_of_ne h]

/-- A path that was set leads to what it was given. -/
theorem get_set (p : List κ) (s t : NamedTree κ α) : get p (set p s t) = some s := by
  induction p generalizing t with
  | nil => rfl
  | cons k p ih => rw [get_cons_of_some (children_set k p s t), ih]

/-- Every other path leads to what it led to. -/
theorem get_set_of_apart {p q : List κ} (h : Apart p q) (s t : NamedTree κ α) : get q (set p s t) = get q t := by
  -- By induction along the path that is set.
  induction p generalizing q t with
  | nil => exact absurd List.nil_prefix h.1
  | cons k p ih =>
      cases q with
      | nil => exact absurd List.nil_prefix h.2
      | cons k' q =>
          -- The paths go the same way for one step more, or part here.
          by_cases hk : k' = k
          · subst hk
            rw [get_cons_of_some (children_set k' p s t), ih h.of_cons]
            -- They part, so the other child is untouched.
            cases hchild : t.children k' with
            | none =>
                have hne : q ≠ [] := by
                  rintro rfl
                  exact h.of_cons.2 List.nil_prefix
                rw [get_cons_eq_none hchild]
                exact get_empty hne
            | some u => exact (get_cons_of_some hchild q).symm
          · rw [get_cons, get_cons, children_set_of_ne hk]

/-- On the way to what was set there are objects. -/
theorem exists_get_set {p q : List κ} (h : p <+: q) (hne : p ≠ q) (s t : NamedTree κ α) :
    ∃ f, get p (set q s t) = some (node f) := by
  -- By induction along the path that is asked for.
  induction q generalizing p t with
  | nil => exact absurd (List.prefix_nil.mp h) hne
  | cons k q ih =>
      cases p with
      | nil => exact ⟨_, rfl⟩
      | cons k' p =>
          obtain ⟨rfl, hp⟩ := List.cons_prefix_cons.mp h
          obtain ⟨f, hf⟩ := ih hp (fun heq => hne (by rw [heq])) ((t.children k').getD empty)
          exact ⟨f, by rw [get_cons_of_some (children_set k' q s t), hf]⟩

/-- Setting a path twice sets it to the second. -/
theorem set_set (p : List κ) (s s' t : NamedTree κ α) : set p s' (set p s t) = set p s' t := by
  induction p generalizing t with
  | nil => rfl
  | cons k p ih =>
      rw [set, children_set, Option.getD_some, ih, set, set, children_node, Function.update_idem]

/-- Paths that are apart are set in any order. -/
theorem set_comm {p q : List κ} (h : Apart p q) (s u t : NamedTree κ α) : set q u (set p s t) = set p s (set q u t) := by
  -- By induction along both paths up to where they part.
  induction p generalizing q t with
  | nil => exact absurd List.nil_prefix h.1
  | cons k p ih =>
      cases q with
      | nil => exact absurd List.nil_prefix h.2
      | cons k' q =>
          by_cases hk : k' = k
          · subst hk
            rw [set, children_set, Option.getD_some, ih h.of_cons, set, children_node, Function.update_idem]
            rw [set, children_set, Option.getD_some, set, children_node, Function.update_idem]
          · rw [set, children_set_of_ne hk, set, children_node, set, children_set_of_ne (Ne.symm hk), set, children_node,
              Function.update_comm (Ne.symm hk)]

end Set

/-! ## Section 3: Paths that Can Be Set -/

/-- Every value on the way to a path, if there is any, is an object or `absent`, which stands for
none. -/
def Opens (absent : α) (p : List κ) (t : NamedTree κ α) : Prop :=
  ∀ q, q <+: p → q ≠ p → ∀ a, get q t = some (leaf a) → a = absent

theorem Opens.tail {absent : α} {k : κ} {p : List κ} {t : NamedTree κ α} (h : Opens absent (k :: p) t) :
    Opens absent p ((t.children k).getD empty) := by
  intro q hq hne a hget
  cases hchild : t.children k with
  | none =>
      rw [hchild, Option.getD_none] at hget
      cases q with
      | nil => cases hget
      | cons k' q => cases hget
  | some u =>
      rw [hchild, Option.getD_some] at hget
      apply h (k :: q) (List.cons_prefix_cons.mpr ⟨rfl, hq⟩)
      · intro heq
        exact hne (List.cons.inj heq).2
      · rw [get_cons_of_some hchild, hget]

/-- A path can be set after one that does not lead to a part of it. -/
theorem Opens.set [DecidableEq κ] {absent : α} {p q : List κ} {t : NamedTree κ α} (h : Opens absent q t)
    (hpq : p <+: q → p = q) (s : NamedTree κ α) : Opens absent q (NamedTree.set p s t) := by
  intro r hr hne a hget
  -- On the way to the one, or to the other, or to neither.
  by_cases hrp : r <+: p
  · by_cases heq : r = p
    · subst heq
      exact absurd (hpq hr) hne
    · obtain ⟨f, hf⟩ := exists_get_set hrp heq s t
      rw [hf] at hget
      cases hget
  · by_cases hpr : p <+: r
    · have heq : p = q := hpq (hpr.trans hr)
      subst heq
      exact absurd (hr.eq_of_length_le hpr.length_le) hne
    · rw [get_set_of_apart ⟨hpr, hrp⟩] at hget
      exact h r hr hne a hget

/-- A path that can be set after one that is apart from it can be set before. -/
theorem Opens.of_set [DecidableEq κ] {absent : α} {p q : List κ} {s t : NamedTree κ α} (hp : Opens absent p t)
    (hq : Opens absent q (NamedTree.set p s t)) (hapart : Apart p q) : Opens absent q t := by
  intro r hr hne a hget
  -- What is on the way is an object either way.
  by_cases hrp : r <+: p
  · apply hp r hrp
    · rintro rfl
      exact hapart.1 hr
    · exact hget
  · have hpr : ¬p <+: r := fun hpr => hapart.1 (hpr.trans hr)
    rw [← get_set_of_apart ⟨hpr, hrp⟩ s t] at hget
    exact hq r hr hne a hget

theorem opens_empty (absent : α) (p : List κ) : Opens absent p (empty : NamedTree κ α) := by
  intro q _ _ a hget
  cases q with
  | nil => cases hget
  | cons k q => cases hget

/-! ## Section 4: What Becomes of a NamedTree -/

/-- The tree `t'` is `t` with `s` where the path leads to, and nothing else changed: objects on the way
to it, which hold nothing else where there was no value or `absent`, and everything that is not on the
way as it was. -/
structure Sets (absent : α) (path : List κ) (s t t' : NamedTree κ α) : Prop where
  value : get path t' = some s
  objects : ∀ p, p <+: path → p ≠ path → ∃ f, get p t' = some (node f)
  fresh : ∀ p k, p ++ [k] <+: path → get p t = none ∨ get p t = some (leaf absent) →
    ∀ k', k' ≠ k → get (p ++ [k']) t' = none
  others : ∀ q, Apart path q → get q t' = get q t

theorem sets_set [DecidableEq κ] (absent : α) (path : List κ) (s t : NamedTree κ α) :
    Sets absent path s t (NamedTree.set path s t) where
  value := get_set path s t
  objects := fun p hp hne => exists_get_set hp hne s t
  fresh := by
    intro p k hpath hnothing k' hk
    -- The path goes on in another direction.
    have hapart : Apart path (p ++ [k']) := by
      obtain ⟨rest, rfl⟩ := hpath
      rw [List.append_assoc]
      constructor
      · intro h
        exact hk (List.cons_prefix_cons.mp ((List.prefix_append_right_inj p).mp h)).1.symm
      · intro h
        exact hk (List.cons_prefix_cons.mp ((List.prefix_append_right_inj p).mp h)).1
    rw [get_set_of_apart hapart, get_append]
    obtain hnone | hleaf := hnothing
    · rw [hnone]
      rfl
    · rw [hleaf]
      rfl
  others := fun q hapart => get_set_of_apart hapart s t

end NamedTree

end Psbox.Foundations
