import Psbox.DBus.Value

/-!
# The Grammar of Signatures

`IsType` is the grammar of single complete types. `complete_type_len` finds the one
complete type that a text starts with (`completeTypeLen_eq_ok`), and
`split_signature` cuts a text into complete types (`splitSignature_eq_ok`).
-/

namespace Psbox.DBus

open Psbox.Foundations (bind_eq_ok)

/-! ## Section 1: Complete Types -/

/-- The complete types that nest at most `n` deep. A dictionary entry counts as one,
as it does for `complete_type_len`. -/
inductive IsType : Nat → Signature → Prop where
  | basic {n : Nat} {c : Char} (hc : isBasicCode c) : IsType (n + 1) [c]
  | array {n : Nat} {t : Signature} (ht : IsType n t) : IsType (n + 1) ('a' :: t)
  | struct {n : Nat} (ts : List Signature) (hne : ts ≠ []) (hts : ∀ t ∈ ts, IsType n t) :
      IsType (n + 1) ('(' :: (ts.flatten ++ [')']))
  | entry {n : Nat} {k v : Signature} (hk : IsType n k) (hv : IsType n v) :
      IsType (n + 1) ('{' :: (k ++ v ++ ['}']))

/-- A code that a complete type starts with. -/
def opensType (c : Char) : Bool :=
  isBasicCode c || c == 'a' || c == '(' || c == '{'

/-- A complete type starts with a code that opens one. -/
theorem IsType.opens {n : Nat} {t : Signature} (h : IsType n t) :
    ∃ c cs, t = c :: cs ∧ opensType c := by
  cases h with
  | basic hc => exact ⟨_, [], rfl, by simp [opensType, hc]⟩
  | array _ | struct _ _ _ | entry _ _ => exact ⟨_, _, rfl, by simp [opensType]⟩

theorem IsType.ne_nil {n : Nat} {t : Signature} (h : IsType n t) : t ≠ [] := by
  obtain ⟨c, cs, rfl, _⟩ := h.opens
  simp

theorem not_basic_of_bracket : isBasicCode 'a' = false ∧ isBasicCode '(' = false ∧
    isBasicCode '{' = false ∧ isBasicCode ')' = false ∧ isBasicCode '}' = false := by
  decide

/-- What nests within a depth nests within a greater one. -/
theorem IsType.mono {n m : Nat} {t : Signature} (h : IsType n t) (hle : n ≤ m) : IsType m t := by
  -- By induction over the type, the bound following its nesting.
  induction h generalizing m with
  | basic hc =>
      obtain ⟨m, rfl⟩ : ∃ k, m = k + 1 := ⟨m - 1, by omega⟩
      exact .basic hc
  | array _ ih =>
      obtain ⟨m, rfl⟩ : ∃ k, m = k + 1 := ⟨m - 1, by omega⟩
      exact .array (ih (by omega))
  | struct ts hne _ ih =>
      obtain ⟨m, rfl⟩ : ∃ k, m = k + 1 := ⟨m - 1, by omega⟩
      exact .struct ts hne fun t ht => ih t ht (by omega)
  | entry _ _ ihk ihv =>
      obtain ⟨m, rfl⟩ : ∃ k, m = k + 1 := ⟨m - 1, by omega⟩
      exact .entry (ihk (by omega)) (ihv (by omega))

/-! ## Section 2: Finding a Complete Type -/

theorem sliceFrom_append (s rest : Signature) : sliceFrom (s ++ rest) s.length = .ok rest := by
  simp [sliceFrom]

/-- One field of a struct, and those after it. -/
theorem structFieldsLen_cons (next : Signature → Except Failure Nat) (fuel : Nat) {c : Char}
    (cs : Signature) (hc : c ≠ ')') :
    structFieldsLen next (fuel + 1) (c :: cs) = (do
      let n ← next (c :: cs)
      let rest' ← sliceFrom (c :: cs) n
      let m ← structFieldsLen next fuel rest'
      .ok (n + m)) := by
  rw [structFieldsLen]
  · simp
  · intro cs' h
    exact hc (List.cons.inj h).1

/-- Each of several types takes a character at least. -/
theorem length_le_flatten {ts : List Signature} (hopens : ∀ t ∈ ts, t ≠ []) :
    ts.length ≤ ts.flatten.length := by
  induction ts with
  | nil => simp
  | cons t ts ih =>
      have hrest := ih fun t ht => hopens t (List.mem_cons_of_mem _ ht)
      -- The first type takes a character at least.
      have hfirst := List.length_pos_iff.mpr (hopens t List.mem_cons_self)
      rw [List.flatten_cons, List.length_append, List.length_cons]
      omega

/-- The fields of a struct, up to its closing parenthesis. -/
theorem structFieldsLen_append {next : Signature → Except Failure Nat} {ts : List Signature}
    (hnext : ∀ t ∈ ts, ∀ rest, next (t ++ rest) = .ok t.length)
    (hopens : ∀ t ∈ ts, ∃ c cs, t = c :: cs ∧ opensType c) (rest : Signature) (fuel : Nat)
    (hfuel : ts.length ≤ fuel) :
    structFieldsLen next fuel (ts.flatten ++ ')' :: rest) = .ok ts.flatten.length := by
  induction ts generalizing fuel with
  | nil => cases fuel <;> rfl
  | cons t ts ih =>
      obtain ⟨fuel, rfl⟩ : ∃ k, fuel = k + 1 := ⟨fuel - 1, by simp at hfuel; omega⟩
      have hrest := ih (fun t ht => hnext t (List.mem_cons_of_mem _ ht))
        (fun t ht => hopens t (List.mem_cons_of_mem _ ht)) fuel (by simpa using hfuel)
      -- The first field ends where the others start.
      have hfirst := hnext t List.mem_cons_self (ts.flatten ++ ')' :: rest)
      have hslice := sliceFrom_append t (ts.flatten ++ ')' :: rest)
      obtain ⟨c, cs, rfl, hc⟩ := hopens t List.mem_cons_self
      -- No type starts with the closing parenthesis.
      have hclose : c ≠ ')' := by
        rintro rfl
        exact absurd hc (by decide)
      rw [List.flatten_cons, List.append_assoc, List.cons_append,
        structFieldsLen_cons next fuel _ hclose]
      rw [List.cons_append] at hfirst hslice
      simp only [hfirst, bind, Except.bind, hslice, hrest, List.length_append]

/-- A complete type is found at the start of any text that starts with it. -/
theorem IsType.completeTypeLen {n : Nat} {t : Signature} (h : IsType n t) (rest : Signature) :
    completeTypeLen n (t ++ rest) = .ok t.length := by
  obtain ⟨ha, hparen, hbrace, _⟩ := not_basic_of_bracket
  -- Induction over the type; what comes behind it is general, since the parts are followed by parts.
  induction h generalizing rest with
  | basic hc => simp [DBus.completeTypeLen, hc]
  | array ht ih =>
      simp only [List.cons_append, DBus.completeTypeLen, ha, ih rest]
      simp [bind, Except.bind, Nat.add_comm]
  | struct ts hne hts ih =>
      -- There is a turn of the loop for each field.
      have hlen : ts.length ≤ (ts.flatten ++ ')' :: rest).length := by
        have hle := length_le_flatten fun t ht => (hts t ht).ne_nil
        rw [List.length_append]
        omega
      have hfields := structFieldsLen_append (fun t ht => ih t ht) (fun t ht => (hts t ht).opens)
        rest _ hlen
      -- A struct with a field has a length.
      have hpos : (ts.map List.length).sum ≠ 0 := by
        rw [← List.length_flatten]
        have hle := length_le_flatten fun t ht => (hts t ht).ne_nil
        have := List.length_pos_iff.mpr hne
        omega
      rw [List.cons_append, List.append_assoc, List.singleton_append]
      simp only [DBus.completeTypeLen, hparen, hfields, bind, Except.bind]
      simp [hpos]
  | @entry n k v hk hv ihk ihv =>
      have hkey := ihk (v ++ '}' :: rest)
      have hslice := sliceFrom_append k (v ++ '}' :: rest)
      have hval := ihv ('}' :: rest)
      -- An entry is its key, its value and the brace, in this order.
      have hshape : '{' :: (k ++ v ++ ['}']) ++ rest = '{' :: (k ++ (v ++ '}' :: rest)) := by simp
      rw [hshape]
      simp only [DBus.completeTypeLen, hbrace, hkey, hslice, hval, bind, Except.bind]
      simp [Nat.add_assoc]

/-- A slice is there up to the end. -/
theorem sliceFrom_eq_ok {s s' : Signature} {n : Nat} (h : sliceFrom s n = .ok s') :
    n ≤ s.length ∧ s' = s.drop n := by
  unfold sliceFrom at h
  split at h
  · cases h
    exact ⟨‹_›, rfl⟩
  · cases h

/-- What the loop over the fields of a struct has read, when the types are complete
ones. -/
theorem structFieldsLen_eq_ok {n : Nat} {next : Signature → Except Failure Nat}
    (hnext : ∀ s k, next s = .ok k → ∃ t rest, s = t ++ rest ∧ IsType n t ∧ t.length = k)
    {fuel k : Nat} {s : Signature} (h : structFieldsLen next fuel s = .ok k) :
    ∃ (ts : List Signature) (rest : Signature), s = ts.flatten ++ ')' :: rest ∧
      (∀ t ∈ ts, IsType n t) ∧ ts.flatten.length = k := by
  -- Induction over the fuel, which the text it is about shrinks with.
  induction fuel generalizing s k with
  | zero =>
      cases s with
      | nil => cases h
      | cons c cs =>
          by_cases hc : c = ')'
          · subst hc
            cases h
            exact ⟨[], cs, rfl, by simp, rfl⟩
          · rw [structFieldsLen] at h
            · cases h
            · simp
            · intro cs' heq
              exact hc (List.cons.inj heq).1
  | succ fuel ih =>
      cases s with
      | nil => cases h
      | cons c cs =>
          by_cases hc : c = ')'
          · subst hc
            cases h
            exact ⟨[], cs, rfl, by simp, rfl⟩
          -- A field, and those after it.
          · rw [structFieldsLen_cons next fuel cs hc] at h
            obtain ⟨a, ha, h⟩ := bind_eq_ok h
            obtain ⟨s', hs', h⟩ := bind_eq_ok h
            obtain ⟨b, hb, h⟩ := bind_eq_ok h
            cases h
            obtain ⟨t, rest, hsplit, ht, hlen⟩ := hnext _ _ ha
            obtain ⟨_, rfl⟩ := sliceFrom_eq_ok hs'
            obtain ⟨ts, rest', hrest, hts, hsum⟩ := ih hb
            rw [hsplit, ← hlen, List.drop_left] at hrest
            refine ⟨t :: ts, rest', by rw [hsplit, hrest, List.flatten_cons, List.append_assoc], ?_, ?_⟩
            · intro t' ht'
              rcases List.mem_cons.mp ht' with rfl | ht'
              · exact ht
              · exact hts t' ht'
            · rw [List.flatten_cons, List.length_append, hlen, hsum]

/-- What is found is a complete type. -/
theorem isType_of_completeTypeLen {n k : Nat} {s : Signature} (h : completeTypeLen n s = .ok k) :
    ∃ t rest, s = t ++ rest ∧ IsType n t ∧ t.length = k := by
  -- Induction over the nesting that is left.
  induction n generalizing s k with
  | zero => cases h
  | succ n ih =>
      cases s with
      | nil => cases h
      | cons c cs =>
          rw [completeTypeLen] at h
          split at h
          -- One character.
          · rename_i hbasic
            cases h
            exact ⟨[c], cs, rfl, .basic hbasic, rfl⟩
          · split at h
            -- An array, by its element type.
            · rename_i hc
              subst hc
              obtain ⟨a, ha, h⟩ := bind_eq_ok h
              cases h
              obtain ⟨t, rest, hsplit, ht, hlen⟩ := ih ha
              exact ⟨'a' :: t, rest, by rw [hsplit]; rfl, .array ht, by simp [hlen, Nat.add_comm]⟩
            · split at h
              -- A struct, by its fields.
              · rename_i hc
                subst hc
                obtain ⟨a, ha, h⟩ := bind_eq_ok h
                obtain ⟨ts, rest, hsplit, hts, hlen⟩ := structFieldsLen_eq_ok (fun s k => ih) ha
                split at h
                · cases h
                · rename_i hpos
                  cases h
                  -- The fields have a length, so there is one.
                  have hne : ts ≠ [] := by
                    rintro rfl
                    exact hpos hlen.symm
                  refine ⟨'(' :: (ts.flatten ++ [')']), rest, ?_, .struct ts hne hts, ?_⟩
                  · rw [hsplit]
                    simp
                  · simp [hlen]
              · split at h
                -- An entry, by its key and its value.
                · rename_i hc
                  subst hc
                  obtain ⟨a, ha, h⟩ := bind_eq_ok h
                  obtain ⟨s', hs', h⟩ := bind_eq_ok h
                  obtain ⟨b, hb, h⟩ := bind_eq_ok h
                  split at h
                  · rename_i hclose
                    cases h
                    obtain ⟨t, rest, hsplit, ht, hlen⟩ := ih ha
                    obtain ⟨t', rest', hsplit', ht', hlen'⟩ := ih hb
                    obtain ⟨_, rfl⟩ := sliceFrom_eq_ok hs'
                    rw [hsplit, ← hlen, List.drop_left] at hsplit' hclose
                    rw [hsplit', ← hlen', List.getElem?_append_right (Nat.le_refl _), Nat.sub_self]
                      at hclose
                    -- The brace is where the value ends.
                    cases rest' with
                    | nil => cases hclose
                    | cons d rest' =>
                        cases hclose
                        refine ⟨'{' :: (t ++ t' ++ ['}']), rest', ?_, .entry ht ht', ?_⟩
                        · rw [hsplit, hsplit']
                          simp
                        · simp [hlen, hlen', Nat.add_assoc]
                  · cases h
                · cases h

/-- The length that is found is that of a complete type at the front, and of every one that there is. -/
theorem completeTypeLen_eq_ok {n k : Nat} {s : Signature} :
    completeTypeLen n s = .ok k ↔ ∃ t rest, s = t ++ rest ∧ IsType n t ∧ t.length = k := by
  refine ⟨isType_of_completeTypeLen, ?_⟩
  rintro ⟨t, rest, rfl, ht, rfl⟩
  exact ht.completeTypeLen rest

/-- A text starts with one complete type at most, however deep types may nest. -/
theorem IsType.append_inj {n m : Nat} {t t' rest rest' : Signature} (ht : IsType n t)
    (ht' : IsType m t') (h : t ++ rest = t' ++ rest') : t = t' ∧ rest = rest' := by
  -- Both are found at the front, so they have one length.
  have hlen := (ht.mono (Nat.le_max_left n m)).completeTypeLen rest
  rw [h, (ht'.mono (Nat.le_max_right n m)).completeTypeLen rest'] at hlen
  exact List.append_inj h (Except.ok.inj hlen).symm

/-! ## Section 3: Splitting Signatures -/

/-- Complete types one after another are split as they were. -/
private theorem splitLoop_flatten {ts : List Signature} (hts : ∀ t ∈ ts, IsType (maxDepth + 1) t)
    (fuel : Nat) (hfuel : ts.length ≤ fuel) : splitLoop fuel ts.flatten = .ok ts := by
  induction ts generalizing fuel with
  | nil => cases fuel <;> rfl
  | cons t ts ih =>
      obtain ⟨fuel, rfl⟩ : ∃ k, fuel = k + 1 := ⟨fuel - 1, by simp at hfuel; omega⟩
      have hrest := ih (fun t ht => hts t (List.mem_cons_of_mem _ ht)) fuel (by simpa using hfuel)
      have ht := hts t List.mem_cons_self
      have hfirst := ht.completeTypeLen ts.flatten
      have hslice := sliceFrom_append t ts.flatten
      obtain ⟨c, cs, rfl, _⟩ := ht.opens
      rw [List.flatten_cons]
      show splitLoop (fuel + 1) (c :: (cs ++ ts.flatten)) = _
      rw [splitLoop]
      · rw [List.cons_append] at hfirst hslice
        simp only [hfirst, bind, Except.bind, hslice, hrest]
        simp
      · simp

/-- What is split are complete types, and they are the signature again. -/
private theorem splitLoop_eq_ok {fuel : Nat} {s : Signature} {ts : List Signature}
    (h : splitLoop fuel s = .ok ts) :
    s = ts.flatten ∧ ∀ t ∈ ts, IsType (maxDepth + 1) t := by
  -- Induction over the fuel; each turn takes one type from the front.
  induction fuel generalizing s ts with
  | zero =>
      cases s with
      | nil =>
          cases h
          simp
      | cons c cs => cases h
  | succ fuel ih =>
      cases s with
      | nil =>
          cases h
          simp
      | cons c cs =>
          rw [splitLoop] at h
          · obtain ⟨k, hk, h⟩ := bind_eq_ok h
            obtain ⟨s', hs', h⟩ := bind_eq_ok h
            obtain ⟨ts', hts', h⟩ := bind_eq_ok h
            cases h
            obtain ⟨t, rest, hsplit, ht, hlen⟩ := isType_of_completeTypeLen hk
            obtain ⟨_, rfl⟩ := sliceFrom_eq_ok hs'
            obtain ⟨hrest, hall⟩ := ih hts'
            rw [hsplit, ← hlen, List.drop_left] at hrest
            rw [hsplit, ← hlen, List.take_left]
            refine ⟨by rw [hrest, List.flatten_cons], ?_⟩
            intro t' ht'
            rcases List.mem_cons.mp ht' with rfl | ht'
            · exact ht
            · exact hall t' ht'
          · simp

/-- A signature is split into the complete types it is made of. -/
theorem splitSignature_eq_ok {s : Signature} {ts : List Signature} :
    splitSignature s = .ok ts ↔ s = ts.flatten ∧ ∀ t ∈ ts, IsType (maxDepth + 1) t := by
  refine ⟨splitLoop_eq_ok, ?_⟩
  rintro ⟨rfl, hts⟩
  exact splitLoop_flatten hts _ (length_le_flatten fun t ht => (hts t ht).ne_nil)

end Psbox.DBus
