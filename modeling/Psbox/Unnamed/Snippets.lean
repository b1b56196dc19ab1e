import Psbox.Foundations.Jsonnet
import Psbox.Unnamed.Settings

/-!
# Settings as Layers of a Config

The Jsonnet that a `-c` setting becomes (`setting_snippet`, `unnamed.rs`), and what it does to the config
it is added to (`compose`, `psbox.libsonnet`): the value of its key, objects on the way to it, and
nothing else.

A snippet adds objects within objects, and in each of them `super` is another object: what the config
had there. The induction is on the key, from the outermost object; its invariant is that the config at
the part of the key that was read means what the tree has there, and that no field of it says `self`.
-/

namespace Psbox.Unnamed

open Psbox.Foundations
open Psbox.Foundations.Jsonnet
open Psbox.Foundations.Json (writeString)

variable {κ ν μ : Type}

/-! ## Section 1: The Snippet of a Setting -/

/-- An object with one field: `\x7b name: value \x7d`. -/
def fieldText (name value : Text) : Text :=
  "\x7b ".toList ++ name ++ ": ".toList ++ value ++ " \x7d".toList

/-- What a config has at a name, with `inner` added to it; a section a profile set to null is started
afresh. -/
def mergedText (name inner : Text) : Text :=
  "(if ".toList ++ name ++ " in super && super[".toList ++ name ++ "] != null then super[".toList ++ name ++
    "] else \x7b\x7d) + ".toList ++ inner

/-- Jsonnet for an object that sets the key `key`, `rest` to a value, merging into what is already there.
A key has at least one segment. -/
def settingSnippet (number : ν → Text) (value : Json Text ν) : Text → List Text → Text
  | key, [] => fieldText (writeString key) (value.text number)
  | key, next :: rest =>
      let inner := settingSnippet number value next rest
      fieldText (writeString key) (mergedText (writeString key) inner)

/-- What the config below has at a name, where that is no null. -/
def beneath (key : κ) : Expr κ ν :=
  .ite (.and (.inSuper key) (.notNull (.superIndex key))) (.superIndex key) (.object [])

/-- The fields of the object that the snippet writes. -/
def settingLayer (value : Json κ ν) : κ → List κ → List (κ × Expr κ ν)
  | key, [] => [(key, .json value)]
  | key, next :: rest => [(key, .add (beneath key) (.object (settingLayer value next rest)))]

theorem text_field (number : ν → Text) (k : Text) (e : Expr Text ν) (place : Level) :
    (Expr.object [(k, e)]).text number place = fieldText (writeString k) (e.text number .any) := by
  have hopen : "\x7b ".toList = ['{', ' '] := by decide
  have hcolon : ": ".toList = [':', ' '] := by decide
  have hclose : " \x7d".toList = [' ', '}'] := by decide
  simp [Expr.text, Expr.fieldsText, fieldText, braced, hopen, hcolon, hclose]

theorem text_beneath (number : ν → Text) (k : Text) :
    (beneath k : Expr Text ν).text number .add =
      ['('] ++ iteText (andText (inSuperText (writeString k)) (notNullText (superText ++ bracketed (writeString k))))
        (superText ++ bracketed (writeString k)) (braced []) ++ [')'] := by
  have hite := inside_of_lt .add .any (by decide)
  have hand := inside_of_le .any .and (by decide)
  have hin := inside_of_le .and .comparison (by decide)
  have hnull := inside_of_le .equality .equality (by decide)
  simp only [beneath, Expr.text, hite, hand, hin, hnull]

theorem text_merged (number : ν → Text) (k : Text) (e : Expr Text ν) :
    (Expr.add (beneath k) e).text number .any = mergedText (writeString k) (e.text number .atom) := by
  have hif : "(if ".toList = ['('] ++ "if ".toList := by decide
  have hin : " in super && super[".toList = " in super".toList ++ " && ".toList ++ "super".toList ++ ['['] := by decide
  have hthen : "] != null then super[".toList =
      [']'] ++ " != null".toList ++ " then ".toList ++ "super".toList ++ ['['] := by decide
  have helse : "] else \x7b\x7d) + ".toList =
      [']'] ++ " else ".toList ++ (['{'] ++ [] ++ ['}']) ++ [')'] ++ " + ".toList := by decide
  rw [Expr.text, inside_of_le .any .add (by decide), text_beneath]
  unfold mergedText addText iteText andText inSuperText notNullText superText bracketed braced
  rewrite [hif, hin, hthen, helse]
  simp only [List.append_assoc]

/-- The snippet is the text of that object. -/
theorem settingSnippet_eq_text (number : ν → Text) (value : Json Text ν) (key : Text) (rest : List Text)
    (place : Level) :
    settingSnippet number value key rest = (Expr.object (settingLayer value key rest)).text number place := by
  induction rest generalizing key place with
  | nil => rw [settingSnippet, settingLayer, text_field, Expr.text]
  | cons next rest ih => rw [settingSnippet, settingLayer, text_field, text_merged, ih next .atom]

/-! ## Section 2: A Snippet on a Config -/

section Config

variable [DecidableEq κ] {number : ν → μ}

/-- What a snippet adds to at a name: the object the config below has there, or one without fields. -/
theorem exists_beneath {layers : Layers κ ν} {f : κ → Option (NamedTree κ (Json κ μ))} (hfree : layers.SelfFree)
    (hmeans : Means number (.obj layers) (.node f)) {key : κ} {path : List κ}
    (hopens : NamedTree.Opens .null (key :: path) (.node f)) (hne : path ≠ []) (self : Layers κ ν) :
    ∃ lower g, Evals number (some ⟨self, layers⟩) (beneath key) (.obj lower) ∧ lower.SelfFree ∧
      Means number (.obj lower) (.node g) ∧ NamedTree.Opens .null path (.node g) ∧
      ∀ s, NamedTree.set path s ((f key).getD .empty) = NamedTree.set path s (.node g) := by
  obtain ⟨next, rest, rfl⟩ := List.exists_cons_of_ne_nil hne
  have hin : Evals number (some ⟨self, layers⟩) (.inSuper key) (.lit (.bool (find key layers).isSome)) :=
    evals_inSuper
  -- where nothing is there, or null, the snippet adds to an object without fields
  have hfresh : Evals number (some ⟨self, layers⟩) (.and (.inSuper key) (.notNull (.superIndex key)))
        (.lit (.bool false)) →
      (∀ s, NamedTree.set (next :: rest) s ((f key).getD .empty) = NamedTree.set (next :: rest) s .empty) →
      ∃ lower g, Evals number (some ⟨self, layers⟩) (beneath key) (.obj lower) ∧ lower.SelfFree ∧
        Means number (.obj lower) (.node g) ∧ NamedTree.Opens .null (next :: rest) (.node g) ∧
        ∀ s, NamedTree.set (next :: rest) s ((f key).getD .empty) = NamedTree.set (next :: rest) s (.node g) := by
    intro hcond hset
    refine ⟨[[]], fun _ => none, evals_ite_false hcond (evals_object []), ?_, ?_, NamedTree.opens_empty _ _, hset⟩
    · intro layer hlayer field hfield
      obtain rfl := List.mem_singleton.mp hlayer
      cases hfield
    · apply means_obj_iff.mpr
      intro k
      exact .inl ⟨rfl, rfl⟩
  obtain ⟨hnone, hf⟩ | ⟨body, below, v, u, hfind, ⟨n, hn⟩, hu, hf⟩ := means_obj_iff.mp hmeans key
  · rw [hnone] at hin
    apply hfresh (evals_and_false hin)
    intro s
    rw [hf, Option.getD_none]
  · obtain ⟨hbody, hbelow⟩ := hfree.find hfind
    rw [hfind] at hin
    -- the field's expression does not see that the object it is in has changed
    have hsuper : Evals number (some ⟨self, layers⟩) (.superIndex key) v := by
      apply evals_superIndex hfind
      exact ⟨n, (eval_self_irrelevant hbody hbelow layers).trans hn⟩
    have hcond := evals_and_true hin (evals_notNull hsuper)
    cases hu with
    | lit j =>
        have hnull : j = .null := by
          apply hopens [key] (by simp) (by simp)
          rw [NamedTree.get_cons_of_some (t := .node f) hf, NamedTree.get_nil]
        subst hnull
        apply hfresh hcond
        intro s
        rw [hf]
        rfl
    | @obj lower g vals trees habsent hevals hmeans' hpresent =>
        have htail := hopens.tail
        rw [NamedTree.children_node, hf, Option.getD_some] at htail
        refine ⟨lower, g, evals_ite_true hcond hsuper, selfFree_of_eval hbody hbelow hn, ?_, htail, ?_⟩
        · exact .obj vals trees habsent hevals hmeans' hpresent
        · intro s
          rw [hf, Option.getD_some]

omit [DecidableEq κ] in
/-- The fields of a snippet do not say `self`. -/
theorem settingLayer_selfFree (value : Json κ ν) (key : κ) (rest : List κ) :
    Layers.SelfFree [settingLayer value key rest] := by
  induction rest generalizing key with
  | nil =>
      intro layer hlayer field hfield
      obtain rfl := List.mem_singleton.mp hlayer
      obtain rfl := List.mem_singleton.mp hfield
      exact .json value
  | cons next rest ih =>
      intro layer hlayer field hfield
      obtain rfl := List.mem_singleton.mp hlayer
      obtain rfl := List.mem_singleton.mp hfield
      have hbeneath : SelfFree (beneath key : Expr κ ν) :=
        .ite (.and (.inSuper key) (.notNull (.superIndex key))) (.superIndex key) (.object fun f hf => by cases hf)
      exact .add hbeneath (.object (ih next _ List.mem_cons_self))

/-- A snippet on top of a config sets its key. -/
theorem means_settingLayer (value : Json κ ν) {layers : Layers κ ν} {f : κ → Option (NamedTree κ (Json κ μ))}
    (hfree : layers.SelfFree) (hmeans : Means number (.obj layers) (.node f)) {key : κ} {rest : List κ}
    (hopens : NamedTree.Opens .null (key :: rest) (.node f)) :
    Means number (.obj (settingLayer value key rest :: layers))
      (NamedTree.set (key :: rest) (value.tree number) (.node f)) := by
  induction rest generalizing key layers f with
  | nil => exact means_cons hfree hmeans (evals_json value) (means_json number value)
  | cons next rest ih =>
      obtain ⟨lower, g, hbeneath, hlower, hmeans', hopens', hset⟩ :=
        exists_beneath hfree hmeans hopens (List.cons_ne_nil next rest)
          (settingLayer value key (next :: rest) :: layers)
      have hinner := ih hlower hmeans' hopens'
      rw [← hset] at hinner
      -- the object in the field has the inner snippet on top of what was beneath
      exact means_cons hfree hmeans (evals_add hbeneath (evals_object _) rfl) hinner

end Config

/-! ## Section 3: Settings, One After the Other -/

/-- A key, by its first segment and the others, and the value it is set to. -/
structure Setting (ν : Type) where
  key : Text
  rest : List Text
  value : Json Text ν

namespace Setting

def path (s : Setting ν) : List Text := s.key :: s.rest

def layer (s : Setting ν) : List (Text × Expr Text ν) := settingLayer s.value s.key s.rest

/-- The expression that the snippet is the text of. -/
def expr (s : Setting ν) : Expr Text ν := .object s.layer

/-- The snippet; `write` writes its numbers. -/
def text (write : ν → Text) (s : Setting ν) : Text := settingSnippet write s.value s.key s.rest

end Setting

/-- The layers, in order, on top of a config: each is read by `load`, evaluated and added. -/
def compose (number : ν → μ) (load : Text → Option (Expr Text ν)) (steps : Nat) (base : Val Text ν μ)
    (layers : List Text) : Option (Val Text ν μ) :=
  layers.foldlM (fun acc text => do
    let e ← load text
    let layer ← eval number steps none e
    acc.add layer) base

/-- What the settings make of a tree, one after the other. -/
def settle (number : ν → μ) (t : NamedTree Text (Json Text μ)) (settings : List (Setting ν)) : NamedTree Text (Json Text μ) :=
  settings.foldl (fun t s => NamedTree.set s.path (s.value.tree number) t) t

/-- Each setting finds objects, null or nothing on the way to its key. -/
def Opened (number : ν → μ) : NamedTree Text (Json Text μ) → List (Setting ν) → Prop
  | _, [] => True
  | t, s :: settings => NamedTree.Opens .null s.path t ∧ Opened number (NamedTree.set s.path (s.value.tree number) t) settings

section Runs

variable {number : ν → μ} {load : Text → Option (Expr Text ν)} {write : ν → Text} {steps : Nat}

theorem settle_append (t : NamedTree Text (Json Text μ)) (settings settings' : List (Setting ν)) :
    settle number t (settings ++ settings') = settle number (settle number t settings) settings' :=
  List.foldl_append

theorem opened_append {t : NamedTree Text (Json Text μ)} {settings settings' : List (Setting ν)} :
    Opened number t (settings ++ settings') ↔
      Opened number t settings ∧ Opened number (settle number t settings) settings' := by
  induction settings generalizing t with
  | nil => simp [Opened, settle]
  | cons s settings ih =>
      rw [List.cons_append, Opened, Opened, ih, and_assoc]
      rfl

/-- A config with settings on top means what the settings make of what it meant. -/
theorem exists_compose {layers : Layers Text ν} {t : NamedTree Text (Json Text μ)} {settings : List (Setting ν)}
    (hfree : layers.SelfFree) (hmeans : Means number (.obj layers) t) (hopened : Opened number t settings)
    (hreads : ∀ s ∈ settings, Reads write load s.expr) :
    ∃ config, compose number load (steps + 1) (.obj layers) (settings.map (Setting.text write)) = some config ∧
      Means number config (settle number t settings) := by
  induction settings generalizing layers t with
  | nil => exact ⟨.obj layers, rfl, hmeans⟩
  | cons s settings ih =>
      obtain ⟨f, rfl⟩ : ∃ f, t = .node f := by
        cases hmeans
        exact ⟨_, rfl⟩
      have hload : load (s.text write) = some s.expr := by
        rw [Setting.text, settingSnippet_eq_text write s.value s.key s.rest .any]
        exact hreads s List.mem_cons_self
      have hstep := means_settingLayer s.value hfree hmeans hopened.1
      have hfree' : Layers.SelfFree (s.layer :: layers) := by
        intro layer hlayer
        obtain rfl | hmem := List.mem_cons.mp hlayer
        · exact settingLayer_selfFree s.value s.key s.rest _ List.mem_cons_self
        · exact hfree layer hmem
      obtain ⟨config, hcompose, hconfig⟩ :=
        ih hfree' hstep hopened.2 fun u hu => hreads u (List.mem_cons_of_mem s hu)
      refine ⟨config, ?_, hconfig⟩
      rw [List.map_cons, compose, List.foldlM_cons, hload]
      exact hcompose

/-- Where paths are apart, the settings may be exchanged. -/
theorem opened_swap {t : NamedTree Text (Json Text μ)} {s u : Setting ν} {settings : List (Setting ν)}
    (hapart : Apart s.path u.path) (h : Opened number t (s :: u :: settings)) :
    Opened number t (u :: s :: settings) ∧
      settle number t (u :: s :: settings) = settle number t (s :: u :: settings) := by
  obtain ⟨hs, hu, hrest⟩ := h
  have hcomm := NamedTree.set_comm hapart (s.value.tree number) (u.value.tree number) t
  have hu' : NamedTree.Opens .null u.path t := hs.of_set hu hapart
  have hs' : NamedTree.Opens .null s.path (NamedTree.set u.path (u.value.tree number) t) :=
    hs.set (fun hle => absurd hle hapart.2) (u.value.tree number)
  constructor
  · exact ⟨hu', hs', by rw [← hcomm]; exact hrest⟩
  · show settle number (NamedTree.set s.path _ (NamedTree.set u.path _ t)) settings = _
    rw [← hcomm]
    rfl

/-- Settings of paths apart from a path leave what it leads to. -/
theorem get_settle {path : List Text} {t : NamedTree Text (Json Text μ)} {settings : List (Setting ν)}
    (h : ∀ u ∈ settings, Apart path u.path) : NamedTree.get path (settle number t settings) = NamedTree.get path t := by
  induction settings generalizing t with
  | nil => rfl
  | cons u settings ih =>
      have hu := (h u List.mem_cons_self).symm
      calc NamedTree.get path (settle number t (u :: settings))
          = NamedTree.get path (NamedTree.set u.path (u.value.tree number) t) :=
            ih fun v hv => h v (List.mem_cons_of_mem u hv)
        _ = NamedTree.get path t := NamedTree.get_set_of_apart hu (u.value.tree number) t

/-- Of settings of one path the last is the only one that counts. -/
theorem opened_same {t : NamedTree Text (Json Text μ)} {s : Setting ν} {settings : List (Setting ν)}
    (hpath : ∀ u ∈ settings, u.path = s.path) (hopens : NamedTree.Opens .null s.path t) :
    Opened number t (settings ++ [s]) ∧
      settle number t (settings ++ [s]) = NamedTree.set s.path (s.value.tree number) t := by
  induction settings generalizing t with
  | nil => exact ⟨⟨hopens, trivial⟩, rfl⟩
  | cons u settings ih =>
      have hu := hpath u List.mem_cons_self
      have hopens' : NamedTree.Opens .null s.path (NamedTree.set u.path (u.value.tree number) t) :=
        hopens.set (fun _ => hu) (u.value.tree number)
      obtain ⟨hopened, hsettle⟩ := ih (fun v hv => hpath v (List.mem_cons_of_mem u hv)) hopens'
      rw [← hu] at hopens
      refine ⟨⟨hopens, hopened⟩, ?_⟩
      calc settle number t (u :: settings ++ [s])
          = NamedTree.set s.path (s.value.tree number) (NamedTree.set u.path (u.value.tree number) t) := hsettle
        _ = NamedTree.set s.path (s.value.tree number) t := by rw [hu, NamedTree.set_set]

/-- A setting on top of a config gives its key its value, makes objects on the way to it where there was
null or nothing, and changes nothing else. Settings of paths of which neither begins with the other may
be given in any order, of several of one path the last wins, and no setting of a path apart from it takes
that back. -/
theorem settings_set_their_keys {layers : Layers Text ν} {t : NamedTree Text (Json Text μ)} (hfree : layers.SelfFree)
    (hmeans : Means number (.obj layers) t) :
    (∀ s : Setting ν, Reads write load s.expr → NamedTree.Opens .null s.path t →
      ∃ config t', compose number load (steps + 1) (.obj layers) [s.text write] = some config ∧
        Means number config t' ∧ NamedTree.Sets .null s.path (s.value.tree number) t t') ∧
    (∀ before s u after, (∀ x ∈ before ++ s :: u :: after, Reads write load x.expr) → Apart s.path u.path →
      Opened number t (before ++ s :: u :: after) →
      ∃ config config' t',
        compose number load (steps + 1) (.obj layers) ((before ++ s :: u :: after).map (Setting.text write)) =
          some config ∧
        compose number load (steps + 1) (.obj layers) ((before ++ u :: s :: after).map (Setting.text write)) =
          some config' ∧
        Means number config t' ∧ Means number config' t') ∧
    (∀ earlier s, (∀ x ∈ earlier ++ [s], Reads write load x.expr) → (∀ u ∈ earlier, u.path = s.path) →
      NamedTree.Opens .null s.path t →
      ∃ config t', compose number load (steps + 1) (.obj layers) ((earlier ++ [s]).map (Setting.text write)) =
          some config ∧
        Means number config t' ∧ NamedTree.Sets .null s.path (s.value.tree number) t t') ∧
    (∀ before s after, (∀ x ∈ before ++ s :: after, Reads write load x.expr) → (∀ u ∈ after, Apart s.path u.path) →
      Opened number t (before ++ s :: after) →
      ∃ config t', compose number load (steps + 1) (.obj layers) ((before ++ s :: after).map (Setting.text write)) =
          some config ∧
        Means number config t' ∧ NamedTree.get s.path t' = some (s.value.tree number)) := by
  have hlast : ∀ earlier (s : Setting ν), (∀ x ∈ earlier ++ [s], Reads write load x.expr) →
      (∀ u ∈ earlier, u.path = s.path) → NamedTree.Opens .null s.path t →
      ∃ config t', compose number load (steps + 1) (.obj layers) ((earlier ++ [s]).map (Setting.text write)) =
          some config ∧
        Means number config t' ∧ NamedTree.Sets .null s.path (s.value.tree number) t t' := by
    intro earlier s hreads hpath hopens
    obtain ⟨hopened, hsettle⟩ := opened_same hpath hopens
    obtain ⟨config, hcompose, hconfig⟩ := exists_compose hfree hmeans hopened hreads
    exact ⟨config, _, hcompose, hconfig, by rw [hsettle]; exact NamedTree.sets_set _ _ _ _⟩
  refine ⟨?_, ?_, hlast, ?_⟩
  -- One setting.
  · intro s hread hopens
    exact hlast [] s (by simpa using hread) (by simp) hopens
  -- Two neighbours that are apart change places.
  · intro before s u after hreads hapart hopened
    obtain ⟨config, hcompose, hconfig⟩ := exists_compose hfree hmeans hopened hreads
    obtain ⟨hbefore, hrest⟩ := opened_append.mp hopened
    obtain ⟨hrest', hsettle⟩ := opened_swap hapart hrest
    have hreads' : ∀ x ∈ before ++ u :: s :: after, Reads write load x.expr := by
      intro x hx
      apply hreads x
      simp only [List.mem_append, List.mem_cons] at hx ⊢
      tauto
    obtain ⟨config', hcompose', hconfig'⟩ := exists_compose hfree hmeans (opened_append.mpr ⟨hbefore, hrest'⟩) hreads'
    refine ⟨config, config', _, hcompose, hcompose', hconfig, ?_⟩
    rw [settle_append, ← hsettle, ← settle_append]
    exact hconfig'
  -- What is set apart from a key leaves its value.
  · intro before s after hreads hapart hopened
    obtain ⟨config, hcompose, hconfig⟩ := exists_compose hfree hmeans hopened hreads
    refine ⟨config, _, hcompose, hconfig, ?_⟩
    rw [settle_append]
    show NamedTree.get s.path (settle number (NamedTree.set s.path _ _) after) = _
    rw [get_settle hapart, NamedTree.get_set]

end Runs

/-- A config in which the home is null, with a mount. -/
def homeless : Json Text Nat :=
  .obj [("home".toList, .null), ("mount".toList, .obj [("a.b".toList, .obj [("source".toList, .str "/x".toList)])])]

/-- `home.path=/data` -/
def homePath : Setting Nat := ⟨"home".toList, ["path".toList], .str "/data".toList⟩

def writeNat (n : Nat) : Text := (Nat.repr n).toList

/-- Reads the one snippet. -/
def readHomePath (text : Text) : Option (Expr Text Nat) :=
  if text = homePath.expr.text writeNat .any then some homePath.expr else none

theorem homePath_sets :
    ∃ config t', compose id readHomePath 1 (homeless.val id) [homePath.text writeNat] = some config ∧
      Means id config t' ∧
      NamedTree.Sets .null ["home".toList, "path".toList] (.leaf (.str "/data".toList)) (homeless.tree id) t' := by
  have hfree : Layers.SelfFree
      [[("home".toList, (.json .null : Expr Text Nat)),
        ("mount".toList, .json (.obj [("a.b".toList, .obj [("source".toList, .str "/x".toList)])]))]] := by
    intro layer hlayer field hfield
    obtain rfl := List.mem_singleton.mp hlayer
    obtain rfl | hfield := List.mem_cons.mp hfield
    · exact .json _
    · obtain rfl := List.mem_singleton.mp hfield
      exact .json _
  have hopens : NamedTree.Opens .null homePath.path (homeless.tree id) := by
    intro q hq hne a hget
    obtain rfl | ⟨p, rfl, hp⟩ := List.prefix_cons_iff.mp hq
    · cases hget
    obtain rfl | ⟨r, rfl, hr⟩ := List.prefix_cons_iff.mp hp
    · cases hget
      rfl
    · obtain rfl := List.prefix_nil.mp hr
      exact absurd rfl hne
  exact (settings_set_their_keys hfree (means_json id homeless)).1 homePath (if_pos rfl) hopens

end Psbox.Unnamed
