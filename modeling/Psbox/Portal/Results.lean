import Psbox.Foundations.FirstMatch
import Psbox.Portal.Paths

/-!
# What a File Chooser's Results Hold

The results of a file chooser or a screenshot name files of the host. Before they
are passed on, `map_file_results` puts the URIs that `Host::expose` made in their
place. It looks at one key, and at the first entry with it: the rest of the results
is passed on as it came.

`mapResults_exposed_iff` says exactly when what is passed on names exposed files only,
wherever in it a `uris` or `uri` stands.
-/

namespace Psbox.Portal

open Psbox.DBus Psbox.Foundations

/-! ## Section 1: URIs in a Response -/

def isUriKey (k : Value) : Bool :=
  k.asStr == some "uris" || k.asStr == some "uri"

mutual

/-- The texts that stand under a `uris` or `uri` of some dictionary, however deep. All texts do if the
value itself stands there. -/
def uriTexts (under : Bool) : Value → List String
  | .str s => if under then [s] else []
  | .path s => if under then [s] else []
  | .sig s => if under then [s] else []
  | .array _ items => uriTextsList under items
  | .struct fields => uriTextsList under fields
  | .dict _ _ entries => uriTextsEntries under entries
  | .variant inner => uriTexts under inner
  | _ => []

def uriTextsList (under : Bool) : List Value → List String
  | [] => []
  | v :: vs => uriTexts under v ++ uriTextsList under vs

def uriTextsEntries (under : Bool) : List (Value × Value) → List String
  | [] => []
  | (k, v) :: es => uriTexts under k ++ uriTexts (under || isUriKey k) v ++ uriTextsEntries under es

end

/-- A sandbox URI, of a file that was exposed. -/
def MadeByExpose (expose : Expose) (uri : String) : Prop :=
  ∃ path writable p, expose path writable = some p ∧ uri = pathToUri p

/-- The code of a `Response`. -/
def responseCode (args : List Value) : Option UInt32 :=
  args.head?.bind Value.asU32

/-- The `uris` and `uri` of a response with the code 0 name exposed files only. -/
def ResultsExposed (expose : Expose) (args : List Value) : Prop :=
  responseCode args = some 0 → ∀ uri ∈ uriTextsList false args, MadeByExpose expose uri

/-- The arguments a response is passed on with, when a file request of some kind or
none is recorded for it. -/
def mapResults (expose : Expose) (kind : Option FileRequest) (args : List Value) : List Value :=
  match kind with
  | some kind => mapFileResults expose kind args
  | none => args

/-- The entries that are passed on as they came: the others are set or taken out. -/
def untouched (expose : Expose) (kind : FileRequest) (entries : List (Value × Value)) :
    List (Value × Value) :=
  let results : Value := .dict [] [] entries
  match kind with
  | .screenshot =>
      match ((results.dictGet "uri").bind Value.asStr).bind (exposeUri expose .screenshot) with
      | some _ => entries.eraseP (Value.hasKey "uri")
      | none => entries.filter fun e => !Value.hasKey "uri" e
  | _ =>
      match results.dictGet "uris" with
      | some (.array _ _) => entries.eraseP (Value.hasKey "uris")
      | _ => entries

/-- Of results that are a dictionary, what is passed on as it came. -/
def withoutMapped (expose : Expose) (kind : FileRequest) : Value → Value
  | .dict k v entries => .dict k v (untouched expose kind entries)
  | results => results

/-- The URIs that are passed on as they came. -/
def leftAlone (expose : Expose) (kind : Option FileRequest) (args : List Value) : List String :=
  match kind with
  | none => uriTextsList false args
  | some kind => uriTextsList false (changeArg 1 (withoutMapped expose kind) args)

/-! ## Section 2: What Is Left Alone -/

theorem madeByExpose_of_exposeUri {expose : Expose} {kind : FileRequest} {uri uri' : String}
    (h : exposeUri expose kind uri = some uri') : MadeByExpose expose uri' := by
  simp only [exposeUri, Option.bind_eq_bind, Option.bind_eq_some_iff, Option.some.injEq] at h
  obtain ⟨path, _, p, hp, rfl⟩ := h
  exact ⟨path, _, p, hp, rfl⟩

/-- The texts of one entry. -/
def entryTexts (under : Bool) (e : Value × Value) : List String :=
  uriTexts under e.1 ++ uriTexts (under || isUriKey e.1) e.2

theorem uriTextsList_eq (under : Bool) (vs : List Value) :
    uriTextsList under vs = vs.flatMap (uriTexts under) := by
  induction vs with
  | nil => rw [uriTextsList, List.flatMap_nil]
  | cons v vs ih => rw [uriTextsList, ih, List.flatMap_cons]

theorem uriTextsEntries_eq (under : Bool) (es : List (Value × Value)) :
    uriTextsEntries under es = es.flatMap (entryTexts under) := by
  induction es with
  | nil => rw [uriTextsEntries, List.flatMap_nil]
  | cons e es ih => rw [uriTextsEntries, ih, List.flatMap_cons, entryTexts]

section Entries

variable {expose : Expose} {kind : FileRequest}

def AllExposed (expose : Expose) (texts : List String) : Prop :=
  ∀ uri ∈ texts, MadeByExpose expose uri

theorem allExposed_append {texts texts' : List String} :
    AllExposed expose (texts ++ texts') ↔ AllExposed expose texts ∧ AllExposed expose texts' :=
  List.forall_mem_append

theorem allExposed_dict (k v : Signature) (entries : List (Value × Value)) :
    AllExposed expose (uriTexts false (.dict k v entries)) ↔
      ∀ e ∈ entries, AllExposed expose (entryTexts false e) := by
  rw [uriTexts, uriTextsEntries_eq]
  simp only [AllExposed, List.mem_flatMap]
  exact ⟨fun h e he uri huri => h uri ⟨e, he, huri⟩, fun h uri ⟨e, he, huri⟩ => h e he uri huri⟩

/-- An entry that is set to exposed URIs. -/
theorem allExposed_set {key : String} (hkey : key = "uris" ∨ key = "uri") {v : Value}
    (hv : AllExposed expose (uriTexts true v)) {k : Value} (hk : k.asStr = some key) :
    AllExposed expose (entryTexts false (k, .variant v)) := by
  have huri : isUriKey k = true := by
    rcases hkey with rfl | rfl <;> simp [isUriKey, hk]
  have hnone : uriTexts false k = [] := by
    cases k <;> first | rfl | cases hk
  rw [entryTexts, hnone, huri, List.nil_append, Bool.or_true, uriTexts]
  exact hv

/-- Setting one of the two keys to exposed URIs leaves the other entries. -/
theorem allExposed_setEntry {key : String} (hkey : key = "uris" ∨ key = "uri") {v : Value}
    (hv : AllExposed expose (uriTexts true v)) (k w : Signature) (entries : List (Value × Value)) :
    AllExposed expose (uriTexts false (.dict k w (Value.setEntry key (.variant v) entries))) ↔
      AllExposed expose (uriTexts false (.dict k w (entries.eraseP (Value.hasKey key)))) := by
  rw [allExposed_dict, allExposed_dict]
  have hset : ∀ e, Value.hasKey key e → AllExposed expose (entryTexts false (e.1, .variant v)) :=
    fun e he => allExposed_set hkey hv (by simpa [Value.hasKey] using he)
  have hnew : AllExposed expose (entryTexts false (.str key, .variant v)) := allExposed_set hkey hv rfl
  exact forall_mem_setFirst_iff_eraseP (Value.hasKey key) (fun e => (e.1, .variant v)) (.str key, .variant v)
    (fun e => AllExposed expose (entryTexts false e)) hset hnew entries

/-- The results of a screenshot: `uri` is set or removed. -/
theorem allExposed_screenshot (results : Value) :
    AllExposed expose (uriTexts false (mapScreenshot expose results)) ↔
      AllExposed expose (uriTexts false (withoutMapped expose .screenshot results)) := by
  cases results with
  | dict k v entries =>
      -- `dict_get` does not look at the signatures of a dictionary.
      have hmap : mapScreenshot expose (.dict k v entries) =
          match ((Value.dictGet "uri" (.dict [] [] entries)).bind Value.asStr).bind
              (exposeUri expose .screenshot) with
          | some uri => .dict k v (Value.setEntry "uri" (.variant (.str uri)) entries)
          | none => .dict k v (entries.filter fun e => !Value.hasKey "uri" e) := rfl
      rw [hmap, withoutMapped, untouched]
      cases huri : ((Value.dictGet "uri" (.dict [] [] entries)).bind Value.asStr).bind
          (exposeUri expose .screenshot) with
      | none => exact Iff.rfl
      | some uri =>
          obtain ⟨_, _, hexpose⟩ := Option.bind_eq_some_iff.mp huri
          refine allExposed_setEntry (Or.inr rfl) ?_ k v entries
          simpa [AllExposed, uriTexts] using madeByExpose_of_exposeUri hexpose
  | _ => exact Iff.rfl

/-- The results of a file chooser: `uris` is set, when it is an array. -/
theorem allExposed_uris (hkind : kind ≠ .screenshot) (results : Value) :
    AllExposed expose (uriTexts false (mapUris expose kind results)) ↔
      AllExposed expose (uriTexts false (withoutMapped expose kind results)) := by
  cases results with
  | dict k v entries =>
      have huntouched : untouched expose kind entries = match Value.dictGet "uris" (.dict [] [] entries) with
          | some (.array _ _) => entries.eraseP (Value.hasKey "uris")
          | _ => entries := by
        cases kind with
        | screenshot => exact absurd rfl hkind
        | _ => rfl
      have hmap : mapUris expose kind (.dict k v entries) =
          match Value.dictGet "uris" (.dict [] [] entries) with
          | some (.array _ uris) =>
              .dict k v (Value.setEntry "uris" (.variant (.array ['s']
                (((uris.filterMap Value.asStr).filterMap (exposeUri expose kind)).map .str))) entries)
          | _ => .dict k v entries := rfl
      rw [hmap, withoutMapped, huntouched]
      cases Value.dictGet "uris" (.dict [] [] entries) with
      | none => exact Iff.rfl
      | some first =>
          cases first with
          | array elem uris =>
              refine allExposed_setEntry (Or.inl rfl) ?_ k v entries
              intro uri huri
              rw [uriTexts, uriTextsList_eq] at huri
              obtain ⟨_, hitem, huri⟩ := List.mem_flatMap.mp huri
              obtain ⟨exposed, hexposed, rfl⟩ := List.mem_map.mp hitem
              obtain ⟨u, _, hexpose⟩ := List.mem_filterMap.mp hexposed
              obtain rfl : uri = exposed := by simpa [uriTexts] using huri
              exact madeByExpose_of_exposeUri hexpose
          | _ => exact Iff.rfl
  | _ => exact Iff.rfl

/-- A change of the results, seen in the arguments. -/
theorem allExposed_changeArg {f g : Value → Value}
    (h : ∀ v, AllExposed expose (uriTexts false (f v)) ↔ AllExposed expose (uriTexts false (g v)))
    (args : List Value) :
    AllExposed expose (uriTextsList false (changeArg 1 f args)) ↔
      AllExposed expose (uriTextsList false (changeArg 1 g args)) := by
  match args with
  | [] => exact Iff.rfl
  | [_] => exact Iff.rfl
  | a :: b :: rest =>
      have hchange : ∀ f : Value → Value, changeArg 1 f (a :: b :: rest) = a :: f b :: rest := fun _ => rfl
      simp only [hchange, uriTextsList, allExposed_append, h]

end Entries

theorem responseCode_changeArg (f : Value → Value) (args : List Value) :
    responseCode (changeArg 1 f args) = responseCode args := by
  cases args <;> rfl

/-- What is passed on names exposed files only, exactly when the entries that are
passed on as they came do. -/
theorem mapResults_exposed_iff (expose : Expose) (kind : Option FileRequest) (args : List Value) :
    ResultsExposed expose (mapResults expose kind args) ↔
      (responseCode args = some 0 → ∀ uri ∈ leftAlone expose kind args, MadeByExpose expose uri) := by
  cases kind with
  | none => exact Iff.rfl
  | some kind =>
      by_cases hcode : responseCode args = some 0
      · have hmap : mapResults expose (some kind) args =
            changeArg 1 (if kind = .screenshot then mapScreenshot expose else mapUris expose kind)
              args := by
          simp only [mapResults, mapFileResults]
          rw [if_neg (by simpa [responseCode] using hcode)]
          cases kind <;> rfl
        rw [hmap, ResultsExposed, responseCode_changeArg]
        refine forall_congr' fun _ => allExposed_changeArg (fun results => ?_) args
        split
        · rename_i hkind
          subst hkind
          exact allExposed_screenshot results
        · rename_i hkind
          exact allExposed_uris hkind results
      · have hsame : mapResults expose (some kind) args = args := by
          simp only [mapResults, mapFileResults]
          rw [if_pos (by simpa [responseCode] using hcode)]
        rw [hsame]
        exact ⟨fun _ h => absurd h hcode, fun _ h => absurd h hcode⟩

end Psbox.Portal
