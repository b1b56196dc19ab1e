import Psbox.DBus.RoundTrip

/-!
# Changing the Object Paths of Values

What `map_paths` changes and what it keeps: `Alike` relates a value to one that is the
same but for its object paths. A value keeps its type under it, and so its encoding is
read back, as long as its lengths can be written (`decodeBody_mapPaths`).
-/

namespace Psbox.DBus

open Image

namespace Value

/-! ## Section 1: Paths -/

mutual

/-- The object paths in a value. -/
def paths : Value → List String
  | path p => [p]
  | array _ items => pathsList items
  | struct fields => pathsList fields
  | dict _ _ entries => pathsEntries entries
  | variant inner => paths inner
  | _ => []

def pathsList : List Value → List String
  | [] => []
  | v :: vs => paths v ++ pathsList vs

def pathsEntries : List (Value × Value) → List String
  | [] => []
  | (k, v) :: es => paths k ++ paths v ++ pathsEntries es

end

/-- Neither a path nor a container. -/
def plain : Value → Bool
  | path _ | array _ _ | struct _ | dict _ _ _ | variant _ => false
  | _ => true

/-- The values are the same but for their object paths, which `R` relates in turn. -/
inductive Alike (R : String → String → Prop) : Value → Value → Prop where
  | plain {v : Value} (hv : v.plain) : Alike R v v
  | path {p q : String} (h : R p q) : Alike R (path p) (path q)
  | array {elem : Signature} {vs ws : List Value} (h : List.Forall₂ (Alike R) vs ws) :
      Alike R (array elem vs) (array elem ws)
  | struct {vs ws : List Value} (h : List.Forall₂ (Alike R) vs ws) :
      Alike R (struct vs) (struct ws)
  | dict {k v : Signature} {es fs : List (Value × Value)}
      (hkeys : List.Forall₂ (Alike R) (es.map Prod.fst) (fs.map Prod.fst))
      (hvals : List.Forall₂ (Alike R) (es.map Prod.snd) (fs.map Prod.snd)) :
      Alike R (dict k v es) (dict k v fs)
  | variant {v w : Value} (h : Alike R v w) : Alike R (variant v) (variant w)

section MapPaths

variable {f g : String → Option String}

mutual

/-- Replacing paths changes nothing but paths. -/
theorem alike_mapPaths {R : String → String → Prop} (hR : ∀ p, R p ((f p).getD p)) :
    ∀ v : Value, Alike R v (mapPaths f v)
  | .path p => .path (hR p)
  | .array _ items => .array (alike_mapPathsList hR items)
  | .struct fields => .struct (alike_mapPathsList hR fields)
  | .dict _ _ entries => .dict (alike_mapPathsEntries hR entries).1 (alike_mapPathsEntries hR entries).2
  | .variant inner => .variant (alike_mapPaths hR inner)
  | .byte _ | .bool _ | .i16 _ | .u16 _ | .i32 _ | .u32 _ | .i64 _ | .u64 _ | .double _ | .str _
  | .sig _ | .fd _ => .plain rfl

/-- In a list neither. -/
theorem alike_mapPathsList {R : String → String → Prop} (hR : ∀ p, R p ((f p).getD p)) :
    ∀ vs : List Value, List.Forall₂ (Alike R) vs (mapPathsList f vs)
  | [] => .nil
  | v :: vs => .cons (alike_mapPaths hR v) (alike_mapPathsList hR vs)

/-- Nor in a dictionary, its keys and its values. -/
theorem alike_mapPathsEntries {R : String → String → Prop} (hR : ∀ p, R p ((f p).getD p)) :
    ∀ es : List (Value × Value),
      List.Forall₂ (Alike R) (es.map Prod.fst) ((mapPathsEntries f es).map Prod.fst) ∧
        List.Forall₂ (Alike R) (es.map Prod.snd) ((mapPathsEntries f es).map Prod.snd)
  | [] => ⟨.nil, .nil⟩
  | (k, v) :: es =>
      ⟨.cons (alike_mapPaths hR k) (alike_mapPathsEntries hR es).1,
        .cons (alike_mapPaths hR v) (alike_mapPathsEntries hR es).2⟩

end

mutual

/-- What undoes a change to each path undoes it to the value. -/
theorem mapPaths_mapPaths : ∀ v : Value,
    (∀ p ∈ paths v, (g ((f p).getD p)).getD ((f p).getD p) = p) → mapPaths g (mapPaths f v) = v
  | .path p, h => congrArg Value.path (h p (by simp [paths]))
  | .array elem items, h =>
      congrArg (Value.array elem) (mapPathsList_mapPathsList items fun p hp => h p hp)
  | .struct fields, h =>
      congrArg Value.struct (mapPathsList_mapPathsList fields fun p hp => h p hp)
  | .dict k v entries, h =>
      congrArg (Value.dict k v) (mapPathsEntries_mapPathsEntries entries fun p hp => h p hp)
  | .variant inner, h => congrArg Value.variant (mapPaths_mapPaths inner fun p hp => h p hp)
  | .byte _, _ | .bool _, _ | .i16 _, _ | .u16 _, _ | .i32 _, _ | .u32 _, _ | .i64 _, _ | .u64 _, _
  | .double _, _ | .str _, _ | .sig _, _ | .fd _, _ => rfl

/-- What is replaced and replaced back in each value is the list again. -/
theorem mapPathsList_mapPathsList : ∀ vs : List Value,
    (∀ p ∈ pathsList vs, (g ((f p).getD p)).getD ((f p).getD p) = p) →
      mapPathsList g (mapPathsList f vs) = vs
  | [], _ => rfl
  | v :: vs, h => by
      rw [mapPathsList, mapPathsList, mapPaths_mapPaths v fun p hp => h p (by simp [pathsList, hp]),
        mapPathsList_mapPathsList vs fun p hp => h p (by simp [pathsList, hp])]

/-- And so is a dictionary. -/
theorem mapPathsEntries_mapPathsEntries : ∀ es : List (Value × Value),
    (∀ p ∈ pathsEntries es, (g ((f p).getD p)).getD ((f p).getD p) = p) →
      mapPathsEntries g (mapPathsEntries f es) = es
  | [], _ => rfl
  | (k, v) :: es, h => by
      rw [mapPathsEntries, mapPathsEntries,
        mapPaths_mapPaths k fun p hp => h p (by simp [pathsEntries, hp]),
        mapPaths_mapPaths v fun p hp => h p (by simp [pathsEntries, hp]),
        mapPathsEntries_mapPathsEntries es fun p hp => h p (by simp [pathsEntries, hp])]

end

mutual

/-- Where no path is changed, nothing is. -/
theorem mapPaths_of_anyPath : ∀ v : Value, anyPath (fun p => (f p).isSome) v = false →
    mapPaths f v = v
  | .path p, h => by
      -- A path that has no replacement is itself.
      have hnone : f p = none := Option.isSome_eq_false_iff.mp h |> Option.isNone_iff_eq_none.mp
      rw [mapPaths, hnone, Option.getD_none]
  | .array elem items, h => congrArg (Value.array elem) (mapPathsList_of_anyPath items h)
  | .struct fields, h => congrArg Value.struct (mapPathsList_of_anyPath fields h)
  | .dict k v entries, h => congrArg (Value.dict k v) (mapPathsEntries_of_anyPath entries h)
  | .variant inner, h => congrArg Value.variant (mapPaths_of_anyPath inner h)
  | .byte _, _ | .bool _, _ | .i16 _, _ | .u16 _, _ | .i32 _, _ | .u32 _, _ | .i64 _, _ | .u64 _, _
  | .double _, _ | .str _, _ | .sig _, _ | .fd _, _ => rfl

/-- Where no path is to be replaced the list stays. -/
theorem mapPathsList_of_anyPath : ∀ vs : List Value,
    anyPathList (fun p => (f p).isSome) vs = false → mapPathsList f vs = vs
  | [], _ => rfl
  | v :: vs, h => by
      obtain ⟨hv, hvs⟩ := Bool.or_eq_false_iff.mp h
      rw [mapPathsList, mapPaths_of_anyPath v hv, mapPathsList_of_anyPath vs hvs]

/-- And so does a dictionary. -/
theorem mapPathsEntries_of_anyPath : ∀ es : List (Value × Value),
    anyPathEntries (fun p => (f p).isSome) es = false → mapPathsEntries f es = es
  | [], _ => rfl
  | (k, v) :: es, h => by
      obtain ⟨hkv, hes⟩ := Bool.or_eq_false_iff.mp h
      obtain ⟨hk, hv⟩ := Bool.or_eq_false_iff.mp hkv
      rw [mapPathsEntries, mapPaths_of_anyPath k hk, mapPaths_of_anyPath v hv,
        mapPathsEntries_of_anyPath es hes]

end

mutual

/-- A value has the type that it had. -/
@[simp] theorem signature_mapPaths : ∀ v : Value, (mapPaths f v).signature = v.signature
  | .struct fields => by rw [mapPaths, signature, signature, signatures_mapPathsList fields]
  | .array _ _ | .dict _ _ _ | .variant _ | .path _ => by simp only [mapPaths, signature]
  | .byte _ | .bool _ | .i16 _ | .u16 _ | .i32 _ | .u32 _ | .i64 _ | .u64 _ | .double _ | .str _
  | .sig _ | .fd _ => rfl

@[simp] theorem signatures_mapPathsList : ∀ vs : List Value,
    signatures (mapPathsList f vs) = signatures vs
  | [] => rfl
  | v :: vs => by
      rw [mapPathsList, signatures, signatures, signature_mapPaths v, signatures_mapPathsList vs]

end

theorem mapPathsList_eq_map (vs : List Value) : mapPathsList f vs = vs.map (mapPaths f) := by
  induction vs with
  | nil => rfl
  | cons v vs ih => rw [mapPathsList, ih, List.map_cons]

theorem mapPathsEntries_eq_map (es : List (Value × Value)) :
    mapPathsEntries f es = es.map fun e => (mapPaths f e.1, mapPaths f e.2) := by
  induction es with
  | nil => rfl
  | cons e es ih => rw [mapPathsEntries, ih, List.map_cons]

end MapPaths

end Value

/-! ## Section 2: Values Without Paths -/

open Value

theorem mem_signatures {c : Char} {vs : List Value} {v : Value} (hv : v ∈ vs)
    (hc : c ∈ v.signature) : c ∈ signatures vs := by
  rw [signatures_eq]
  exact List.mem_flatten.mpr ⟨_, List.mem_map_of_mem hv, hc⟩

theorem anyPathList_eq_any (p : String → Bool) (vs : List Value) :
    anyPathList p vs = vs.any (anyPath p) := by
  induction vs with
  | nil => rfl
  | cons v vs ih => rw [anyPathList, ih, List.any_cons]

theorem anyPathEntries_eq_any (p : String → Bool) (es : List (Value × Value)) :
    anyPathEntries p es = es.any fun e => anyPath p e.1 || anyPath p e.2 := by
  induction es with
  | nil => rfl
  | cons e es ih => rw [anyPathEntries, ih, List.any_cons]

/-- Only values whose type names a path or a variant hold a path. -/
theorem Typed.anyPath_eq_false {n : Nat} {v : Value} (h : Typed n v) (p : String → Bool)
    (ho : 'o' ∉ v.signature) (hv : 'v' ∉ v.signature) : anyPath p v = false := by
  -- By induction over the type: a type without either letter holds neither.
  induction h with
  | path _ => exact absurd List.mem_cons_self ho
  | variant _ _ _ => exact absurd List.mem_cons_self hv
  | array _ htype _ ih =>
      rw [anyPath, anyPathList_eq_any, List.any_eq_false]
      intro w hw
      rw [Value.signature, ← htype w hw] at ho hv
      rw [ih w hw (fun hmem => ho (List.mem_cons_of_mem _ hmem))
        fun hmem => hv (List.mem_cons_of_mem _ hmem)]
      exact Bool.false_ne_true
  | dict _ hktype hvtype _ _ ihk ihv =>
      rw [anyPath, anyPathEntries_eq_any, List.any_eq_false]
      intro e he
      rw [Value.signature, ← hktype e he, ← hvtype e he] at ho hv
      simp only [List.mem_append, not_or] at ho hv
      rw [ihk e he ho.1.1.2 hv.1.1.2, ihv e he ho.1.2 hv.1.2]
      exact Bool.false_ne_true
  | struct _ _ _ ih =>
      rw [anyPath, anyPathList_eq_any, List.any_eq_false]
      intro w hw
      rw [Value.signature] at ho hv
      simp only [List.mem_append, not_or] at ho hv
      rw [ih w hw (fun hmem => ho.1.2 (mem_signatures hw hmem))
        fun hmem => hv.1.2 (mem_signatures hw hmem)]
      exact Bool.false_ne_true
  | _ => rfl

/-! ## Section 3: Lengths That Can Be Written -/

/-- What a part of a message may be long. -/
def maxLength : Nat := 2 ^ 32

/-- No item is longer than the list. -/
theorem size_layoutList_le {α : Type} (lay : α → Layout) {as : List α} {a : α} (ha : a ∈ as)
    (pos : Nat) : ∃ pos', size (lay a pos') ≤ size (layoutList lay as pos) := by
  induction as generalizing pos with
  | nil => cases ha
  | cons b as ih =>
      rw [layoutList, Layout.andThen, size_append]
      -- The item is the first one, or among the others.
      rcases List.mem_cons.mp ha with rfl | hmem
      · exact ⟨pos, Nat.le_add_right _ _⟩
      · obtain ⟨pos', hle⟩ := ih hmem (pos + size (lay b pos))
        exact ⟨pos', by omega⟩

/-- A list can be written whose items can. -/
theorem fine_layoutList {α : Type} {lay : α → Layout} {as : List α}
    (has : ∀ a ∈ as, ∀ pos, size (lay a pos) < maxLength → Fine (lay a pos)) {pos : Nat}
    (hsize : size (layoutList lay as pos) < maxLength) : Fine (layoutList lay as pos) := by
  induction as generalizing pos with
  | nil => exact fine_nil
  | cons a as ih =>
      rw [layoutList, Layout.andThen, size_append] at hsize
      rw [layoutList, Layout.andThen, fine_append]
      refine ⟨has a List.mem_cons_self pos (by omega), ?_⟩
      exact ih (fun b hb => has b (List.mem_cons_of_mem a hb)) (by omega)

/-- A value can be written whose content can. -/
theorem fine_of_content {v : Value} (h : ∀ pos, size (content v pos) < maxLength → Fine (content v pos))
    {pos : Nat} (hsize : size (layout v pos) < maxLength) : Fine (layout v pos) := by
  rw [layout, size_aligned] at hsize
  rw [layout, Layout.aligned, fine_pad]
  exact h _ (by omega)

/-- An array can be written whose items can. -/
theorem fine_array {n : Nat} {items : Layout}
    (h : ∀ pos, size (items pos) < maxLength → Fine (items pos)) {pos : Nat}
    (hsize : size (Layout.array n items pos) < maxLength) : Fine (Layout.array n items pos) := by
  simp only [Layout.array, size_cons, size_aligned, Segment.size] at hsize
  simp only [Layout.array, Layout.aligned, fine_pad, fine_num]
  exact ⟨by simp only [maxLength] at hsize; omega, h _ (by omega)⟩

/-- A value that is not too long for it has lengths that can be written. -/
theorem Typed.fine {n : Nat} {v : Value} (h : Typed n v) {pos : Nat}
    (hsize : size (content v pos) < maxLength) : Fine (content v pos) := by
  -- By induction over the type; each part is no longer than the whole.
  induction h generalizing pos with
  | str hlen | path hlen =>
      rw [content, Layout.text, Layout.andThen, fine_append]
      refine ⟨?_, (fine_raw _ _).mpr fine_nil⟩
      exact (fine_pad _ _).mpr ((fine_num _ _ _).mpr ⟨hlen, fine_nil⟩)
  | sig hlen =>
      rw [content]
      exact (fine_num _ _ _).mpr ⟨hlen, (fine_raw _ _).mpr fine_nil⟩
  | variant _ hlen _ ih =>
      rw [content, Layout.andThen, size_append, size_aligned] at hsize
      rw [content, Layout.andThen, fine_append, Layout.aligned, fine_pad]
      exact ⟨(fine_num _ _ _).mpr ⟨hlen, (fine_raw _ _).mpr fine_nil⟩, ih (by omega)⟩
  | array _ _ _ ih =>
      rw [content] at hsize ⊢
      rw [layoutAll_eq] at hsize ⊢
      refine fine_array (fun pos hpos => fine_layoutList (fun w hw pos hpos => ?_) hpos) hsize
      exact fine_of_content (fun pos hpos => ih w hw hpos) hpos
  | struct _ _ _ ih =>
      rw [content, layoutAll_eq] at hsize ⊢
      refine fine_layoutList (fun w hw pos hpos => ?_) hsize
      exact fine_of_content (fun pos hpos => ih w hw hpos) hpos
  | dict _ _ _ _ _ ihk ihv =>
      rw [content, layoutEntries_eq] at hsize ⊢
      refine fine_array (fun pos hpos => fine_layoutList (fun e he pos hpos => ?_) hpos) hsize
      rw [layoutEntry, size_aligned, Layout.andThen, size_append] at hpos
      rw [layoutEntry, Layout.aligned, fine_pad, Layout.andThen, fine_append]
      exact ⟨fine_of_content (fun pos hpos => ihk e he hpos) (by omega),
        fine_of_content (fun pos hpos => ihv e he hpos) (by omega)⟩
  | bool b =>
      rw [content]
      refine (fine_pad _ _).mpr ((fine_num _ _ _).mpr ⟨?_, fine_nil⟩)
      split <;> decide
  | i32 x => exact fine_u32 x.toUInt32 pos
  | u32 x | fd x => exact fine_u32 x pos
  | i16 x => exact (fine_num _ _ _).mpr ⟨x.toUInt16.toNat_lt, fine_nil⟩
  | u16 x => exact (fine_num _ _ _).mpr ⟨x.toNat_lt, fine_nil⟩
  | i64 x => exact (fine_num _ _ _).mpr ⟨x.toUInt64.toNat_lt, fine_nil⟩
  | u64 x | double x => exact (fine_num _ _ _).mpr ⟨x.toNat_lt, fine_nil⟩
  | byte b => exact (fine_raw _ _).mpr fine_nil

/-- A path is no longer than what is written of it. -/
theorem length_le_size_path (p : String) (pos : Nat) :
    (utf8 p).length ≤ size (layout (.path p) pos) := by
  rw [layout, size_aligned, content, Layout.text, Layout.andThen, size_append, size_exactly]
  simp only [size_cons, Segment.size, List.length_append]
  omega

/-- `x` is part of what is laid out at `pos`. -/
theorem size_le_aligned (n : Nat) (x : Layout) (pos : Nat) :
    ∃ pos', size (x pos') ≤ size (Layout.aligned n x pos) :=
  ⟨_, by rw [size_aligned]; exact Nat.le_add_left _ _⟩

theorem size_le_array (n : Nat) (items : Layout) (pos : Nat) :
    ∃ pos', size (items pos') ≤ size (Layout.array n items pos) := by
  simp only [Layout.array, size_cons, size_aligned, Segment.size]
  exact ⟨_, by rw [← Nat.add_assoc, ← Nat.add_assoc]; exact Nat.le_add_left _ _⟩

/-- The items of a list that is short enough are short enough. -/
theorem exists_item_lt {as : List Value} {pos : Nat} (hsize : size (layoutAll as pos) < maxLength)
    {v : Value} (hv : v ∈ as) : ∃ pos', size (layout v pos') < maxLength := by
  rw [layoutAll_eq] at hsize
  obtain ⟨pos', hle⟩ := size_layoutList_le layout hv pos
  exact ⟨pos', by omega⟩

/-- So are the entries of a dictionary. -/
theorem exists_entry_lt {es : List (Value × Value)} {pos : Nat}
    (hsize : size (layoutEntries es pos) < maxLength) {e : Value × Value} (he : e ∈ es) :
    (∃ pos', size (layout e.1 pos') < maxLength) ∧ ∃ pos', size (layout e.2 pos') < maxLength := by
  rw [layoutEntries_eq] at hsize
  obtain ⟨pos', hle⟩ := size_layoutList_le layoutEntry he pos
  rw [layoutEntry, size_aligned, Layout.andThen, size_append] at hle
  exact ⟨⟨_, Nat.lt_of_le_of_lt (Nat.le_trans (Nat.le_add_right _ _) (Nat.le_add_left _ _))
    (Nat.lt_of_le_of_lt hle hsize)⟩, ⟨_, Nat.lt_of_le_of_lt (Nat.le_trans (Nat.le_add_left _ _)
    (Nat.le_add_left _ _)) (Nat.lt_of_le_of_lt hle hsize)⟩⟩

/-- A value keeps its type when its paths change, if it does not become too long. -/
theorem Typed.mapPaths {n : Nat} {v : Value} (h : Typed n v) (f : String → Option String) {pos : Nat}
    (hsize : size (layout (Value.mapPaths f v) pos) < maxLength) : Typed n (Value.mapPaths f v) := by
  -- By induction over the type; that it is not too long is about the value as changed.
  induction h generalizing pos with
  | path _ => exact .path (Nat.lt_of_le_of_lt (length_le_size_path _ pos) hsize)
  | variant htype hlen _ ih =>
      rw [layout, Value.mapPaths, content, size_aligned, Layout.andThen, size_append] at hsize
      rw [Value.mapPaths]
      -- The inner value is written behind its signature.
      have hinner := Nat.lt_of_le_of_lt (Nat.le_trans (Nat.le_add_left _ _) (Nat.le_add_left _ _)) hsize
      exact .variant (by rwa [signature_mapPaths]) (by rwa [signature_mapPaths]) (ih hinner)
  | array helem htype _ ih =>
      rw [layout, Value.mapPaths, content] at hsize
      rw [Value.mapPaths]
      obtain ⟨_, h₁⟩ := size_le_aligned _ (Layout.array _ _) pos
      obtain ⟨_, h₂⟩ := size_le_array _ _ _
      have hitems := Nat.lt_of_le_of_lt (Nat.le_trans h₂ h₁) hsize
      rw [mapPathsList_eq_map] at hitems ⊢
      refine .array helem ?_ ?_
      · intro w hw
        obtain ⟨x, hx, rfl⟩ := List.mem_map.mp hw
        rw [signature_mapPaths, htype x hx]
      · intro w hw
        obtain ⟨_, hlt⟩ := exists_item_lt hitems hw
        obtain ⟨x, hx, rfl⟩ := List.mem_map.mp hw
        exact ih x hx hlt
  | struct hne htypes _ ih =>
      rw [layout, Value.mapPaths, content] at hsize
      rw [Value.mapPaths]
      obtain ⟨_, h₁⟩ := size_le_aligned _ (layoutAll _) pos
      have hfields := Nat.lt_of_le_of_lt h₁ hsize
      rw [mapPathsList_eq_map] at hfields ⊢
      refine .struct (by simpa using hne) ?_ ?_
      · intro w hw
        obtain ⟨x, hx, rfl⟩ := List.mem_map.mp hw
        rw [signature_mapPaths]
        exact htypes x hx
      · intro w hw
        obtain ⟨_, hlt⟩ := exists_item_lt hfields hw
        obtain ⟨x, hx, rfl⟩ := List.mem_map.mp hw
        exact ih x hx hlt
  | dict hk hktype hvtype _ _ ihk ihv =>
      rw [layout, Value.mapPaths, content] at hsize
      rw [Value.mapPaths]
      obtain ⟨_, h₁⟩ := size_le_aligned _ (Layout.array _ _) pos
      obtain ⟨_, h₂⟩ := size_le_array _ _ _
      have hentries := Nat.lt_of_le_of_lt (Nat.le_trans h₂ h₁) hsize
      rw [mapPathsEntries_eq_map] at hentries ⊢
      refine .dict hk ?_ ?_ ?_ ?_
      all_goals
        intro e he
        obtain ⟨⟨_, hlt₁⟩, ⟨_, hlt₂⟩⟩ := exists_entry_lt hentries he
        obtain ⟨x, hx, rfl⟩ := List.mem_map.mp he
      · exact (signature_mapPaths x.1).trans (hktype x hx)
      · exact (signature_mapPaths x.2).trans (hvtype x hx)
      · exact ihk x hx hlt₁
      · exact ihv x hx hlt₂
  | str hlen => exact .str hlen
  | sig hlen => exact .sig hlen
  | byte b => exact .byte b
  | bool b => exact .bool b
  | i16 x => exact .i16 x
  | u16 x => exact .u16 x
  | i32 x => exact .i32 x
  | u32 x => exact .u32 x
  | i64 x => exact .i64 x
  | u64 x => exact .u64 x
  | double x => exact .double x
  | fd x => exact .fd x

/-- Values are read back from their encoding, if that is not too long. -/
theorem decodeBody_encodeBody (vs : List Value)
    (htypes : ∀ v ∈ vs, IsType (maxDepth + 1) v.signature) (htyped : ∀ v ∈ vs, Typed (maxDepth + 1) v)
    (hsize : (encodeBody vs).2.length < maxLength) :
    decodeBody (signatures vs) (encodeBody vs).2 false = .ok vs := by
  rw [encodeBody_eq, length_fill] at hsize
  rw [encodeBody_eq]
  -- Each of them is short enough, so its lengths can be written.
  have hfine : Fine (layoutAll vs 0) := by
    rw [layoutAll_eq] at hsize ⊢
    exact fine_layoutList (fun w hw pos hpos => fine_of_content (fun _ => (htyped w hw).fine) hpos)
      hsize
  have hfits := fits_fill hfine [] []
  rw [List.nil_append, List.append_nil, List.length_nil] at hfits
  exact decodeBody_eq_ok.mpr ⟨rfl, htypes, htyped, hfine, hfits, (length_fill _).symm⟩

/-- The values of a body whose paths change are read back from their encoding, if that
is not too long. -/
theorem decodeBody_mapPaths {sig : Signature} {body : List UInt8} {big : Bool} {vs : List Value}
    (h : decodeBody sig body big = .ok vs) (f : String → Option String)
    (hsize : (encodeBody (mapPathsList f vs)).2.length < maxLength) :
    decodeBody sig (encodeBody (mapPathsList f vs)).2 false = .ok (mapPathsList f vs) := by
  obtain ⟨hsig, htypes, htyped, _, _, _⟩ := decodeBody_eq_ok.mp h
  have hitems := hsize
  rw [encodeBody_eq, length_fill] at hitems
  rw [← hsig, ← signatures_mapPathsList vs]
  apply decodeBody_encodeBody
  · intro w hw
    rw [mapPathsList_eq_map] at hw
    obtain ⟨x, hx, rfl⟩ := List.mem_map.mp hw
    rw [signature_mapPaths]
    exact htypes x hx
  · intro w hw
    obtain ⟨_, hlt⟩ := exists_item_lt hitems hw
    rw [mapPathsList_eq_map] at hw
    obtain ⟨x, hx, rfl⟩ := List.mem_map.mp hw
    exact (htyped x hx).mapPaths f hlt
  · exact hsize

end Psbox.DBus
