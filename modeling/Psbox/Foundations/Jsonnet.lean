import Psbox.Foundations.JsonStrings
import Psbox.Foundations.Trees

/-!
# Jsonnet

Objects of Jsonnet, and the expressions in their fields. An object is a stack of layers: adding an object
to another puts its layers on top. A field is looked up from the top; its expression is evaluated with the
whole object as `self` and with the layers below its own as `super`. An object literal inside it is an
object of its own, with its own `self` and `super`.

Whether a field is hidden is left out, a path names it either way. So are variables, functions and all
that computes a value that is no object: a field of which the value is computed so is a literal here.
-/

namespace Psbox.Foundations.Jsonnet

open Psbox.Foundations.Json (writeString)

/-! ## Section 1: Values and Expressions -/

/-- JSON, with names `κ` and numbers `ν`. -/
inductive Json (κ ν : Type) where
  | null
  | bool (b : Bool)
  | num (n : ν)
  | str (s : κ)
  | arr (items : List (Json κ ν))
  | obj (fields : List (κ × Json κ ν))

inductive Expr (κ ν : Type) where
  /-- JSON as it stands. -/
  | json (j : Json κ ν)
  | object (fields : List (κ × Expr κ ν))
  /-- `self[k]` -/
  | selfIndex (k : κ)
  /-- `super[k]` -/
  | superIndex (k : κ)
  /-- `k in super` -/
  | inSuper (k : κ)
  /-- `e[k]` -/
  | index (e : Expr κ ν) (k : κ)
  | ite (c t e : Expr κ ν)
  | and (a b : Expr κ ν)
  /-- `e != null` -/
  | notNull (e : Expr κ ν)
  | add (a b : Expr κ ν)

/-- The layers of an object, from the top. -/
abbrev Layers (κ ν : Type) := List (List (κ × Expr κ ν))

/-- What an expression evaluates to; `μ` are the numbers Jsonnet has for the written ones. -/
inductive Val (κ ν μ : Type) where
  | lit (j : Json κ μ)
  | obj (layers : Layers κ ν)

/-- What `self` and `super` mean. -/
structure Scope (κ ν : Type) where
  self : Layers κ ν
  super : Layers κ ν

variable {κ ν μ : Type}

mutual

/-- JSON with other numbers. -/
def Json.map (f : ν → μ) : Json κ ν → Json κ μ
  | .null => .null
  | .bool b => .bool b
  | .num n => .num (f n)
  | .str s => .str s
  | .arr items => .arr (Json.mapItems f items)
  | .obj fields => .obj (Json.mapFields f fields)

def Json.mapItems (f : ν → μ) : List (Json κ ν) → List (Json κ μ)
  | [] => []
  | j :: items => j.map f :: Json.mapItems f items

def Json.mapFields (f : ν → μ) : List (κ × Json κ ν) → List (κ × Json κ μ)
  | [] => []
  | (k, j) :: fields => (k, j.map f) :: Json.mapFields f fields

end

/-- What JSON evaluates to. -/
def Json.val (number : ν → μ) : Json κ ν → Val κ ν μ
  | .obj fields => .obj [fields.map fun field => (field.1, .json field.2)]
  | j => .lit (j.map number)

namespace Val

def layers? : Val κ ν μ → Option (Layers κ ν)
  | lit _ => none
  | obj layers => some layers

def bool? : Val κ ν μ → Option Bool
  | lit (.bool b) => some b
  | _ => none

def isNull : Val κ ν μ → Bool
  | lit .null => true
  | _ => false

/-- `+` on objects; what it makes of other values is left out. -/
def add : Val κ ν μ → Val κ ν μ → Option (Val κ ν μ)
  -- The layers of the right object come on top.
  | obj below, obj above => some (obj (above ++ below))
  | _, _ => none

end Val

section Evaluation

variable [DecidableEq κ]

/-- The topmost field of a name, and the layers below it. -/
def find (k : κ) : Layers κ ν → Option (Expr κ ν × Layers κ ν)
  | [] => none
  | layer :: below =>
      match layer.lookup k with
      -- The layers below are `super` for the field.
      | some e => some (e, below)
      | none => find k below

/-- Evaluates an expression, where `self` and `super` mean something or where they do not; `none` for an
error, and for an evaluation that takes more steps than are allowed. -/
def eval (number : ν → μ) : Nat → Option (Scope κ ν) → Expr κ ν → Option (Val κ ν μ)
  | 0, _, _ => none
  | _ + 1, _, .json j => some (j.val number)
  | _ + 1, _, .object fields => some (.obj [fields])
  | n + 1, scope, .selfIndex k => do
      let s ← scope
      let (body, below) ← find k s.self
      eval number n (some ⟨s.self, below⟩) body
  -- The field of the layers below, with the same `self`.
  | n + 1, scope, .superIndex k => do
      let s ← scope
      let (body, below) ← find k s.super
      eval number n (some ⟨s.self, below⟩) body
  | _ + 1, scope, .inSuper k => do
      let s ← scope
      return .lit (.bool (find k s.super).isSome)
  | n + 1, scope, .index e k => do
      let v ← eval number n scope e
      let layers ← v.layers?
      let (body, below) ← find k layers
      eval number n (some ⟨layers, below⟩) body
  | n + 1, scope, .ite c t e => do
      let v ← eval number n scope c
      let b ← v.bool?
      if b then eval number n scope t else eval number n scope e
  | n + 1, scope, .and a b => do
      let v ← eval number n scope a
      let x ← v.bool?
      -- the second is evaluated only after a first that is true
      if x then
        let w ← eval number n scope b
        let y ← w.bool?
        return .lit (.bool y)
      else return .lit (.bool false)
  | n + 1, scope, .notNull e => do
      let v ← eval number n scope e
      return .lit (.bool (!v.isNull))
  | n + 1, scope, .add a b => do
      let v ← eval number n scope a
      let w ← eval number n scope b
      v.add w

/-- An expression evaluates to a value. -/
def Evals (number : ν → μ) (scope : Option (Scope κ ν)) (e : Expr κ ν) (v : Val κ ν μ) : Prop :=
  ∃ n, eval number n scope e = some v

/-- More steps do not change what an expression evaluates to. -/
theorem eval_succ {number : ν → μ} {n : Nat} {scope : Option (Scope κ ν)} {e : Expr κ ν} {v : Val κ ν μ}
    (h : eval number n scope e = some v) : eval number (n + 1) scope e = some v := by
  -- Induction over the steps, by the kind of expression.
  induction n generalizing scope e v with
  | zero => cases h
  | succ n ih =>
      cases e with
      | json j => exact h
      | object fields => exact h
      | inSuper k => exact h
      | selfIndex k =>
          rw [eval] at h ⊢
          simp only [Option.bind_eq_bind, Option.bind_eq_some_iff] at h ⊢
          obtain ⟨s, hs, f, hf, hbody⟩ := h
          exact ⟨s, hs, f, hf, ih hbody⟩
      | superIndex k =>
          rw [eval] at h ⊢
          simp only [Option.bind_eq_bind, Option.bind_eq_some_iff] at h ⊢
          obtain ⟨s, hs, f, hf, hbody⟩ := h
          exact ⟨s, hs, f, hf, ih hbody⟩
      | index e k =>
          rw [eval] at h ⊢
          simp only [Option.bind_eq_bind, Option.bind_eq_some_iff] at h ⊢
          obtain ⟨u, hu, layers, hlayers, f, hf, hbody⟩ := h
          exact ⟨u, ih hu, layers, hlayers, f, hf, ih hbody⟩
      | ite c t e =>
          rw [eval] at h ⊢
          simp only [Option.bind_eq_bind, Option.bind_eq_some_iff] at h ⊢
          obtain ⟨u, hu, b, hb, hbranch⟩ := h
          refine ⟨u, ih hu, b, hb, ?_⟩
          -- Only the branch that is chosen is evaluated.
          cases b with
          | true => exact ih hbranch
          | false => exact ih hbranch
      | and a b =>
          rw [eval] at h ⊢
          simp only [Option.bind_eq_bind, Option.bind_eq_some_iff] at h ⊢
          obtain ⟨u, hu, x, hx, hrest⟩ := h
          refine ⟨u, ih hu, x, hx, ?_⟩
          cases x with
          | true =>
              simp only [↓reduceIte, Option.bind_eq_some_iff] at hrest ⊢
              obtain ⟨w, hw, hrest⟩ := hrest
              exact ⟨w, ih hw, hrest⟩
          | false => exact hrest
      | notNull e =>
          rw [eval] at h ⊢
          simp only [Option.bind_eq_bind, Option.bind_eq_some_iff] at h ⊢
          obtain ⟨u, hu, hrest⟩ := h
          exact ⟨u, ih hu, hrest⟩
      | add a b =>
          rw [eval] at h ⊢
          simp only [Option.bind_eq_bind, Option.bind_eq_some_iff] at h ⊢
          obtain ⟨u, hu, w, hw, hrest⟩ := h
          exact ⟨u, ih hu, w, ih hw, hrest⟩

theorem eval_mono {number : ν → μ} {n m : Nat} (hle : n ≤ m) {scope : Option (Scope κ ν)} {e : Expr κ ν}
    {v : Val κ ν μ} (h : eval number n scope e = some v) : eval number m scope e = some v := by
  induction hle with
  | refl => exact h
  | step _ ih => exact eval_succ ih

/-- An expression evaluates to one value. -/
theorem Evals.unique {number : ν → μ} {scope : Option (Scope κ ν)} {e : Expr κ ν} {v w : Val κ ν μ}
    (hv : Evals number scope e v) (hw : Evals number scope e w) : v = w := by
  obtain ⟨n, hn⟩ := hv
  obtain ⟨m, hm⟩ := hw
  -- Both evaluations are done with the greater number of steps.
  have hn' := eval_mono (Nat.le_max_left n m) hn
  have hm' := eval_mono (Nat.le_max_right n m) hm
  exact Option.some.inj (hn'.symm.trans hm')

/-! ## Section 2: Rules -/

section Rules

variable {number : ν → μ} {scope : Option (Scope κ ν)} {s : Scope κ ν} {a b c t e body : Expr κ ν} {k : κ}
  {v w : Val κ ν μ} {layers below : Layers κ ν}

attribute [local simp] eval

theorem evals_json (j : Json κ ν) : Evals number scope (.json j) (j.val number) :=
  ⟨1, rfl⟩

theorem evals_object (fields : List (κ × Expr κ ν)) : Evals number scope (.object fields) (.obj [fields]) :=
  ⟨1, rfl⟩

theorem evals_inSuper : Evals number (some s) (.inSuper k) (.lit (.bool (find k s.super).isSome)) :=
  ⟨1, rfl⟩

theorem evals_superIndex (hfind : find k s.super = some (body, below))
    (h : Evals number (some ⟨s.self, below⟩) body v) : Evals number (some s) (.superIndex k) v := by
  obtain ⟨n, hn⟩ := h
  refine ⟨n + 1, ?_⟩
  simp [hfind, hn]

theorem evals_notNull (h : Evals number scope e v) : Evals number scope (.notNull e) (.lit (.bool (!v.isNull))) := by
  obtain ⟨n, hn⟩ := h
  refine ⟨n + 1, ?_⟩
  simp [hn]

/-- Where the first is false the second is not evaluated. -/
theorem evals_and_false (h : Evals number scope a (.lit (.bool false))) :
    Evals number scope (.and a b) (.lit (.bool false)) := by
  obtain ⟨n, hn⟩ := h
  refine ⟨n + 1, ?_⟩
  simp [hn, Val.bool?]

theorem evals_and_true {y : Bool} (ha : Evals number scope a (.lit (.bool true)))
    (hb : Evals number scope b (.lit (.bool y))) : Evals number scope (.and a b) (.lit (.bool y)) := by
  obtain ⟨n, hn⟩ := ha
  obtain ⟨m, hm⟩ := hb
  have hn' := eval_mono (Nat.le_max_left n m) hn
  have hm' := eval_mono (Nat.le_max_right n m) hm
  refine ⟨max n m + 1, ?_⟩
  simp [hn', hm', Val.bool?]

theorem evals_ite_true (hc : Evals number scope c (.lit (.bool true))) (ht : Evals number scope t v) :
    Evals number scope (.ite c t e) v := by
  obtain ⟨n, hn⟩ := hc
  obtain ⟨m, hm⟩ := ht
  have hn' := eval_mono (Nat.le_max_left n m) hn
  have hm' := eval_mono (Nat.le_max_right n m) hm
  refine ⟨max n m + 1, ?_⟩
  simp [hn', hm', Val.bool?]

theorem evals_ite_false (hc : Evals number scope c (.lit (.bool false))) (he : Evals number scope e v) :
    Evals number scope (.ite c t e) v := by
  obtain ⟨n, hn⟩ := hc
  obtain ⟨m, hm⟩ := he
  have hn' := eval_mono (Nat.le_max_left n m) hn
  have hm' := eval_mono (Nat.le_max_right n m) hm
  refine ⟨max n m + 1, ?_⟩
  simp [hn', hm', Val.bool?]

theorem evals_add {u : Val κ ν μ} (ha : Evals number scope a v) (hb : Evals number scope b w) (hadd : v.add w = some u) :
    Evals number scope (.add a b) u := by
  obtain ⟨n, hn⟩ := ha
  obtain ⟨m, hm⟩ := hb
  have hn' := eval_mono (Nat.le_max_left n m) hn
  have hm' := eval_mono (Nat.le_max_right n m) hm
  refine ⟨max n m + 1, ?_⟩
  simp [hn', hm', hadd]

end Rules

/-! ## Section 3: Fields that Do Not Refer to `self` -/

/-- The expression does not say `self`; the object literals in it, whose `self` is their own, do not
either. -/
inductive SelfFree : Expr κ ν → Prop where
  | json (j : Json κ ν) : SelfFree (.json j)
  | object {fields : List (κ × Expr κ ν)} (h : ∀ field ∈ fields, SelfFree field.2) : SelfFree (.object fields)
  | superIndex (k : κ) : SelfFree (.superIndex k)
  | inSuper (k : κ) : SelfFree (.inSuper k)
  | index {e : Expr κ ν} (h : SelfFree e) (k : κ) : SelfFree (.index e k)
  | ite {c t e : Expr κ ν} (hc : SelfFree c) (ht : SelfFree t) (he : SelfFree e) : SelfFree (.ite c t e)
  | and {a b : Expr κ ν} (ha : SelfFree a) (hb : SelfFree b) : SelfFree (.and a b)
  | notNull {e : Expr κ ν} (h : SelfFree e) : SelfFree (.notNull e)
  | add {a b : Expr κ ν} (ha : SelfFree a) (hb : SelfFree b) : SelfFree (.add a b)

/-- No field of the object refers to `self`. -/
def Layers.SelfFree (layers : Layers κ ν) : Prop :=
  ∀ layer ∈ layers, ∀ field ∈ layer, Jsonnet.SelfFree field.2

theorem mem_of_lookup {fields : List (κ × Expr κ ν)} {k : κ} {e : Expr κ ν} (h : fields.lookup k = some e) :
    (k, e) ∈ fields := by
  obtain ⟨before, after, hsplit, _⟩ := List.lookup_eq_some_iff.mp h
  rw [hsplit]
  exact List.mem_append_right before List.mem_cons_self

/-- A field that is found, and the layers below it, do not refer to `self` either. -/
theorem Layers.SelfFree.find {layers below : Layers κ ν} (h : layers.SelfFree) {k : κ} {e : Expr κ ν}
    (hfind : Jsonnet.find k layers = some (e, below)) : Jsonnet.SelfFree e ∧ below.SelfFree := by
  -- Layer by layer from the top.
  induction layers with
  | nil => cases hfind
  | cons layer layers ih =>
      have hbelow : Layers.SelfFree layers := fun l hl => h l (List.mem_cons_of_mem layer hl)
      rw [Jsonnet.find] at hfind
      split at hfind
      · rename_i body hlookup
        cases hfind
        exact ⟨h layer List.mem_cons_self _ (mem_of_lookup hlookup), hbelow⟩
      · exact ih hbelow hfind

/-- What `self` is does not matter to an expression that does not refer to it. -/
theorem eval_self_irrelevant {number : ν → μ} {n : Nat} {self super : Layers κ ν} {e : Expr κ ν} (he : SelfFree e)
    (hsuper : super.SelfFree) (self' : Layers κ ν) :
    eval number n (some ⟨self, super⟩) e = eval number n (some ⟨self', super⟩) e := by
  -- Induction over the steps; `self` is passed on and never looked at.
  induction n generalizing super e with
  | zero => rfl
  | succ n ih =>
      cases he with
      | json j => rfl
      | object h => rfl
      | inSuper k => rfl
      | superIndex k =>
          rw [eval, eval]
          -- The field below is evaluated with the same `self`.
          cases hfind : find k super with
          | none => simp [hfind]
          | some found =>
              obtain ⟨body, below⟩ := found
              obtain ⟨hbody, hbelow⟩ := hsuper.find hfind
              simp [hfind, ih hbody hbelow]
      | index h k => simp only [eval, ih h hsuper]
      | ite hc ht he => simp only [eval, ih hc hsuper, ih ht hsuper, ih he hsuper]
      | and ha hb => simp only [eval, ih ha hsuper, ih hb hsuper]
      | notNull h => simp only [eval, ih h hsuper]
      | add ha hb => simp only [eval, ih ha hsuper, ih hb hsuper]

/-- An object that such an expression evaluates to does not refer to `self` either. -/
theorem selfFree_of_eval {number : ν → μ} {n : Nat} {self super : Layers κ ν} {e : Expr κ ν} (he : SelfFree e)
    (hsuper : super.SelfFree) {layers : Layers κ ν}
    (h : eval number n (some ⟨self, super⟩) e = some (.obj layers)) : layers.SelfFree := by
  -- Induction over the steps, by the kind of expression.
  induction n generalizing self super e layers with
  | zero => cases h
  | succ n ih =>
      cases he with
      | json j =>
          -- Of JSON only an object has layers.
          cases j with
          | obj fields =>
              cases h
              intro layer hlayer field hfield
              obtain rfl := List.mem_singleton.mp hlayer
              obtain ⟨f, _, rfl⟩ := List.mem_map.mp hfield
              exact .json f.2
          | null => cases h
          | bool b => cases h
          | num m => cases h
          | str s => cases h
          | arr items => cases h
      | object hfields =>
          cases h
          intro layer hlayer field hfield
          obtain rfl := List.mem_singleton.mp hlayer
          exact hfields field hfield
      | inSuper k => cases h
      | superIndex k =>
          rw [eval] at h
          simp only [Option.bind_eq_bind, Option.bind_eq_some_iff] at h
          obtain ⟨s, hs, ⟨body, below⟩, hfind, hbody⟩ := h
          cases hs
          obtain ⟨hfree, hbelow⟩ := hsuper.find hfind
          exact ih hfree hbelow hbody
      | index hfree k =>
          rw [eval] at h
          simp only [Option.bind_eq_bind, Option.bind_eq_some_iff] at h
          obtain ⟨u, hu, found, hfound, ⟨body, below⟩, hfind, hbody⟩ := h
          cases u with
          | lit j => cases hfound
          | obj inner =>
              cases hfound
              obtain ⟨hbodyfree, hbelow⟩ := (ih hfree hsuper hu).find hfind
              exact ih hbodyfree hbelow hbody
      | ite hc ht he =>
          rw [eval] at h
          simp only [Option.bind_eq_bind, Option.bind_eq_some_iff] at h
          obtain ⟨u, hu, b, hb, hbranch⟩ := h
          cases b with
          | true => exact ih ht hsuper hbranch
          | false => exact ih he hsuper hbranch
      | and ha hb =>
          rw [eval] at h
          simp only [Option.bind_eq_bind, Option.bind_eq_some_iff] at h
          obtain ⟨u, hu, x, hx, hrest⟩ := h
          cases x with
          | true =>
              simp only [↓reduceIte, Option.bind_eq_some_iff] at hrest
              obtain ⟨w, hw, y, hy, hrest⟩ := hrest
              cases hrest
          | false => cases hrest
      | notNull hfree =>
          rw [eval] at h
          simp only [Option.bind_eq_bind, Option.bind_eq_some_iff] at h
          obtain ⟨u, hu, hrest⟩ := h
          cases hrest
      | add ha hb =>
          rw [eval] at h
          simp only [Option.bind_eq_bind, Option.bind_eq_some_iff] at h
          obtain ⟨u, hu, w, hw, hadd⟩ := h
          cases u with
          | lit j => cases hadd
          | obj lower =>
              cases w with
              | lit j => cases hadd
              | obj upper =>
                  -- The layers of both, each without `self`.
                  cases hadd
                  intro layer hlayer
                  obtain hmem | hmem := List.mem_append.mp hlayer
                  · exact ih hb hsuper hw layer hmem
                  · exact ih ha hsuper hu layer hmem

/-! ## Section 4: What a Value Is a NamedTree Of -/

mutual

/-- The tree of JSON. -/
def Json.tree (number : ν → μ) : Json κ ν → NamedTree κ (Json κ μ)
  | .obj fields => .node (Json.treeFields number fields)
  | .null => .leaf .null
  | .bool b => .leaf (.bool b)
  | .num n => .leaf (.num (number n))
  | .str s => .leaf (.str s)
  | .arr items => .leaf (.arr (Json.mapItems number items))

def Json.treeFields (number : ν → μ) : List (κ × Json κ ν) → κ → Option (NamedTree κ (Json κ μ))
  | [], _ => none
  | (k', j) :: fields, k => if k = k' then some (j.tree number) else Json.treeFields number fields k

end

/-- The value is what the tree says, with every field of every object in it evaluated. -/
inductive Means (number : ν → μ) : Val κ ν μ → NamedTree κ (Json κ μ) → Prop where
  | lit (j : Json κ μ) : Means number (.lit j) (.leaf j)
  | obj {layers : Layers κ ν} {f : κ → Option (NamedTree κ (Json κ μ))} (vals : κ → Val κ ν μ) (trees : κ → NamedTree κ (Json κ μ))
      (habsent : ∀ k, find k layers = none → f k = none)
      (hevals : ∀ k body below, find k layers = some (body, below) →
        Evals number (some ⟨layers, below⟩) body (vals k))
      (hmeans : ∀ k, (find k layers).isSome → Means number (vals k) (trees k))
      (hpresent : ∀ k, (find k layers).isSome → f k = some (trees k)) :
      Means number (.obj layers) (.node f)

/-- An object means a tree field by field. -/
theorem means_obj_iff {number : ν → μ} {layers : Layers κ ν} {f : κ → Option (NamedTree κ (Json κ μ))} :
    Means number (.obj layers) (.node f) ↔
      ∀ k, (find k layers = none ∧ f k = none) ∨
        ∃ body below v u, find k layers = some (body, below) ∧ Evals number (some ⟨layers, below⟩) body v ∧
          Means number v u ∧ f k = some u := by
  constructor
  · intro h k
    cases h with
    | obj vals trees habsent hevals hmeans hpresent =>
        cases hfind : find k layers with
        | none => exact .inl ⟨rfl, habsent k hfind⟩
        | some found =>
            have hsome : (find k layers).isSome := by rw [hfind]; rfl
            exact .inr ⟨found.1, found.2, vals k, trees k, rfl, hevals k _ _ hfind, hmeans k hsome, hpresent k hsome⟩
  · intro h
    -- A choice of a value and a tree for each name that there is.
    have hchoice : ∀ k, ∃ v u, (find k layers).isSome →
        (∀ body below, find k layers = some (body, below) → Evals number (some ⟨layers, below⟩) body v) ∧
          Means number v u ∧ f k = some u := by
      intro k
      obtain ⟨hnone, _⟩ | ⟨body, below, v, u, hfind, hv, hu, hf⟩ := h k
      · exact ⟨.lit .null, .leaf .null, by simp [hnone]⟩
      · refine ⟨v, u, fun _ => ⟨?_, hu, hf⟩⟩
        intro body' below' hfind'
        cases hfind.symm.trans hfind'
        exact hv
    choose vals trees hvals using hchoice
    apply Means.obj vals trees
    · intro k hnone
      obtain ⟨_, hf⟩ | ⟨body, below, v, u, hfind, _⟩ := h k
      · exact hf
      · cases hnone.symm.trans hfind
    · intro k body below hfind
      exact (hvals k (by rw [hfind]; rfl)).1 body below hfind
    · intro k hsome
      exact (hvals k hsome).2.1
    · intro k hsome
      exact (hvals k hsome).2.2

/-- A value means one tree. -/
theorem Means.unique {number : ν → μ} {v : Val κ ν μ} {t u : NamedTree κ (Json κ μ)} (ht : Means number v t)
    (hu : Means number v u) : t = u := by
  -- Induction over what the value means.
  induction ht generalizing u with
  | lit j =>
      cases hu
      rfl
  | @obj layers f vals trees habsent hevals hmeans hpresent ih =>
      cases u with
      | leaf j => cases hu
      | node g =>
          congr 1
          funext k
          obtain ⟨hnone, hg⟩ | ⟨body, below, v, u, hfind, hv, hu, hg⟩ := means_obj_iff.mp hu k
          · rw [habsent k hnone, hg]
          · have hsome : (find k layers).isSome := by rw [hfind]; rfl
            obtain rfl := (hevals k body below hfind).unique hv
            rw [hpresent k hsome, hg, ih k hsome hu]

/-- The fields of a JSON object, as fields of an object with one layer. -/
theorem find_fields (number : ν → μ) (fields : List (κ × Json κ ν)) (k : κ) :
    (find k [fields.map fun field => (field.1, Expr.json field.2)] = none ∧ Json.treeFields number fields k = none) ∨
      ∃ j, (k, j) ∈ fields ∧
        find k [fields.map fun field => (field.1, Expr.json field.2)] = some (.json j, []) ∧
        Json.treeFields number fields k = some (j.tree number) := by
  induction fields with
  | nil => exact .inl ⟨rfl, rfl⟩
  | cons field fields ih =>
      obtain ⟨k', j'⟩ := field
      -- The first field has the name, or the others may.
      by_cases hk : k = k'
      · subst hk
        exact .inr ⟨j', List.mem_cons_self, by simp [find], by rw [Json.treeFields, if_pos rfl]⟩
      · have hfind : find k [((k', j') :: fields).map fun field => (field.1, Expr.json field.2)] =
            find k [fields.map fun field => (field.1, Expr.json field.2)] := by
          have hbeq : (k == k') = false := by simpa using hk
          simp only [find, List.map_cons, List.lookup_cons, hbeq]
        have htree : Json.treeFields number ((k', j') :: fields) k = Json.treeFields number fields k := by
          rw [Json.treeFields, if_neg hk]
        rw [hfind, htree]
        obtain hnone | ⟨j, hmem, hsome⟩ := ih
        · exact .inl hnone
        · exact .inr ⟨j, List.mem_cons_of_mem _ hmem, hsome⟩

/-- JSON means its tree. -/
theorem means_json (number : ν → μ) (j : Json κ ν) : Means number (j.val number) (j.tree number) := by
  match j with
  | .null => exact .lit .null
  | .bool b => exact .lit (.bool b)
  | .num n => exact .lit (.num (number n))
  | .str s => exact .lit (.str s)
  | .arr items => exact .lit (.arr (Json.mapItems number items))
  | .obj fields =>
      rw [Json.tree]
      apply means_obj_iff.mpr
      intro k
      obtain ⟨hfind, htree⟩ | ⟨j, hmem, hfind, htree⟩ := find_fields number fields k
      · exact .inl ⟨hfind, htree⟩
      · exact .inr ⟨.json j, [], j.val number, j.tree number, hfind, evals_json j, means_json number j, htree⟩
termination_by sizeOf j
decreasing_by
  have hlt := List.sizeOf_lt_of_mem hmem
  simp only [Prod.mk.sizeOf_spec] at hlt
  simp only [Json.obj.sizeOf_spec]
  omega

/-- A field on top of an object takes the place of the field of its name; the other fields mean what they
meant, because none of them refers to `self`. -/
theorem means_cons {number : ν → μ} {layers : Layers κ ν} {f : κ → Option (NamedTree κ (Json κ μ))} {k : κ}
    {body : Expr κ ν} {v : Val κ ν μ} {u : NamedTree κ (Json κ μ)} (hfree : layers.SelfFree)
    (hmeans : Means number (.obj layers) (.node f))
    (hbody : Evals number (some ⟨[(k, body)] :: layers, layers⟩) body v) (hv : Means number v u) :
    Means number (.obj ([(k, body)] :: layers)) (.node (Function.update f k (some u))) := by
  apply means_obj_iff.mpr
  intro k'
  -- The field on top, or one it does not hide.
  by_cases hk : k' = k
  · subst hk
    exact .inr ⟨body, layers, v, u, by simp [find], hbody, hv, Function.update_self k' (some u) f⟩
  · have hfind : find k' ([(k, body)] :: layers) = find k' layers := by
      have hbeq : (k' == k) = false := by simpa using hk
      simp [find, List.lookup_cons, hbeq]
    rw [hfind, Function.update_of_ne hk]
    obtain hnone | ⟨body', below, v', u', hfound, ⟨n, hn⟩, hu', hf⟩ := means_obj_iff.mp hmeans k'
    · exact .inl hnone
    · obtain ⟨hbodyfree, hbelow⟩ := hfree.find hfound
      rw [eval_self_irrelevant hbodyfree hbelow ([(k, body)] :: layers)] at hn
      exact .inr ⟨body', below, v', u', hfound, ⟨n, hn⟩, hu', hf⟩

end Evaluation

/-! ## Section 5: Text -/

section Texts

def nullText : List Char := "null".toList

def boolText (b : Bool) : List Char :=
  if b then "true".toList else "false".toList

def bracketed (inner : List Char) : List Char :=
  ['['] ++ inner ++ [']']

def braced (inner : List Char) : List Char :=
  ['{'] ++ inner ++ ['}']

def superText : List Char := "super".toList

def selfText : List Char := "self".toList

def inSuperText (name : List Char) : List Char :=
  name ++ " in super".toList

def iteText (c t e : List Char) : List Char :=
  "if ".toList ++ c ++ " then ".toList ++ t ++ " else ".toList ++ e

def andText (a b : List Char) : List Char :=
  a ++ " && ".toList ++ b

def notNullText (e : List Char) : List Char :=
  e ++ " != null".toList

def addText (a b : List Char) : List Char :=
  a ++ " + ".toList ++ b

/-- How loosely an operator holds its operands together. -/
inductive Level where
  | atom
  | add
  | comparison
  | equality
  | and
  | any

def Level.rank : Level → Nat
  | .atom => 0
  | .add => 1
  | .comparison => 2
  | .equality => 3
  | .and => 4
  | .any => 5

/-- An expression, in parentheses where its operator holds less than the place allows. -/
def inside (place own : Level) (text : List Char) : List Char :=
  if own.rank ≤ place.rank then text else ['('] ++ text ++ [')']

theorem inside_of_le (place own : Level) (h : own.rank ≤ place.rank) (text : List Char) : inside place own text = text :=
  if_pos h

theorem inside_of_lt (place own : Level) (h : place.rank < own.rank) (text : List Char) :
    inside place own text = ['('] ++ text ++ [')'] :=
  if_neg (Nat.not_le.mpr h)

variable (number : ν → List Char)

mutual

/-- JSON with no space between its tokens; `number` writes numbers. -/
def Json.text : Json (List Char) ν → List Char
  | .null => nullText
  | .bool b => boolText b
  | .num n => number n
  | .str s => writeString s
  | .arr items => bracketed (Json.itemsText items)
  | .obj fields => braced (Json.fieldsText fields)

def Json.itemsText : List (Json (List Char) ν) → List Char
  | [] => []
  | [j] => j.text
  | j :: items => j.text ++ [','] ++ Json.itemsText items

def Json.fieldsText : List (List Char × Json (List Char) ν) → List Char
  | [] => []
  | [(k, j)] => writeString k ++ [':'] ++ j.text
  | (k, j) :: fields => writeString k ++ [':'] ++ j.text ++ [','] ++ Json.fieldsText fields

end

mutual

/-- An expression as it is written where operators hold at least as much as `place`. -/
def Expr.text (place : Level) : Expr (List Char) ν → List Char
  | .json j => j.text number
  | .object [] => braced []
  | .object fields => braced ([' '] ++ Expr.fieldsText fields ++ [' '])
  | .selfIndex k => selfText ++ bracketed (writeString k)
  | .superIndex k => superText ++ bracketed (writeString k)
  | .inSuper k => inside place .comparison (inSuperText (writeString k))
  | .index e k => e.text .atom ++ bracketed (writeString k)
  | .ite c t e => inside place .any (iteText (c.text .any) (t.text .any) (e.text .any))
  | .and a b => inside place .and (andText (a.text .and) (b.text .equality))
  | .notNull e => inside place .equality (notNullText (e.text .equality))
  | .add a b => inside place .add (addText (a.text .add) (b.text .atom))

def Expr.fieldsText : List (List Char × Expr (List Char) ν) → List Char
  | [] => []
  | [(k, e)] => writeString k ++ [':', ' '] ++ e.text .any
  | (k, e) :: fields => writeString k ++ [':', ' '] ++ e.text .any ++ [',', ' '] ++ Expr.fieldsText fields

end

/-- A parser reads the expression as it is written. -/
def Reads (load : List Char → Option (Expr (List Char) ν)) (e : Expr (List Char) ν) : Prop :=
  load (e.text number .any) = some e

end Texts

end Psbox.Foundations.Jsonnet
