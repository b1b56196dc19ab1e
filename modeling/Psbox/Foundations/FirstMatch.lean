import Mathlib.Data.List.Basic

/-!
# Lists Searched for Their First Match

An association list that may hold a key more than once is read and changed
through its first matching entry. `setFirst` changes that entry, or appends one, and
`mapFirst` leaves a list alone that has none; `repeats` are the later entries that match
too, which neither `find?` nor a change ever looks at.
-/

namespace Psbox.Foundations

variable {α : Type*}

/-- Changes the first entry that satisfies `p` with `f`, or appends `new`. -/
def setFirst (p : α → Bool) (f : α → α) (new : α) : List α → List α
  | [] => [new]
  | e :: es => if p e then f e :: es else e :: setFirst p f new es

/-- Changes the first entry that satisfies `p` with `f`, if there is one. -/
def mapFirst (p : α → Bool) (f : α → α) : List α → List α
  | [] => []
  | e :: es => if p e then f e :: es else e :: mapFirst p f es

/-- The entries that satisfy `p`, without the first of them. -/
def repeats (p : α → Bool) : List α → List α
  | [] => []
  | e :: es => if p e then es.filter p else repeats p es

theorem forall_match_iff (p : α → Bool) (Q : α → Prop) (l : List α) :
    (∀ e ∈ l, p e → Q e) ↔ (∀ e ∈ l.find? p, Q e) ∧ ∀ e ∈ repeats p l, Q e := by
  -- Up to the first match, and the matches behind it.
  induction l with
  | nil => simp [repeats]
  | cons e es ih =>
      -- The first of them is here, or further on.
      by_cases he : p e
      · simp [repeats, he]
      · simpa [repeats, he] using ih

theorem exists_mem_setFirst (p : α → Bool) (f : α → α) (new : α)
    (hf : ∀ e, p e → p (f e)) (hnew : p new) (l : List α) :
    ∃ e ∈ setFirst p f new l, p e := by
  induction l with
  | nil => exact ⟨new, by simp [setFirst], hnew⟩
  | cons e es ih =>
      by_cases he : p e
      · exact ⟨f e, by simp [setFirst, he], hf e he⟩
      · obtain ⟨e', hmem, hp⟩ := ih
        exact ⟨e', by simp [setFirst, he, hmem], hp⟩

/-- Setting the first match makes every match satisfy `Q` exactly when the
repeats already do. -/
theorem forall_mem_setFirst_iff (p : α → Bool) (f : α → α) (new : α) (Q : α → Prop)
    (hf : ∀ e, p e → p (f e)) (hQ : ∀ e, p e → Q (f e)) (hnew : Q new) (l : List α) :
    (∀ e ∈ setFirst p f new l, p e → Q e) ↔ ∀ e ∈ repeats p l, Q e := by
  -- The new value is taken at the first match.
  induction l with
  | nil => simp [setFirst, repeats, hnew]
  | cons e es ih =>
      by_cases he : p e
      · simp [setFirst, repeats, he, hf e he, hQ e he]
      · simpa [setFirst, repeats, he] using ih

/-- Setting the first match takes its place. -/
theorem forall_mem_setFirst_iff_eraseP (p : α → Bool) (f : α → α) (new : α) (Q : α → Prop)
    (hQ : ∀ e, p e → Q (f e)) (hnew : Q new) (l : List α) :
    (∀ e ∈ setFirst p f new l, Q e) ↔ ∀ e ∈ l.eraseP p, Q e := by
  induction l with
  | nil => simp [setFirst, hnew]
  | cons e es ih =>
      by_cases he : p e
      · simp [setFirst, he, hQ e he]
      · simp [setFirst, he, ih]

theorem forall_mem_iff_find? (p : α → Bool) (Q : α → Prop) (l : List α) :
    (∀ e ∈ l, Q e) ↔
      (∀ e ∈ l, ¬p e → Q e) ∧ (∀ e ∈ l.find? p, Q e) ∧ ∀ e ∈ repeats p l, Q e := by
  rw [← forall_match_iff]
  constructor
  · intro h
    exact ⟨fun e he _ => h e he, fun e he _ => h e he⟩
  · intro h e he
    -- What comes first decides.
    by_cases hp : p e
    · exact h.2 e he hp
    · exact h.1 e he hp

/-- Only the first match is another after a change. -/
theorem forall_mem_mapFirst_iff (p : α → Bool) (f : α → α) (Q : α → Prop) (l : List α) :
    (∀ e ∈ mapFirst p f l, Q e) ↔
      (∀ e ∈ l, ¬p e → Q e) ∧ (∀ e ∈ l.find? p, Q (f e)) ∧ ∀ e ∈ repeats p l, Q e := by
  induction l with
  | nil => simp [mapFirst, repeats]
  | cons e es ih =>
      by_cases he : p e
      · have hsplit : (∀ x ∈ es, Q x) ↔ (∀ x ∈ es, ¬p x → Q x) ∧ ∀ x ∈ es, p x → Q x := by
          constructor
          · exact fun h => ⟨fun x hx _ => h x hx, fun x hx _ => h x hx⟩
          · intro h x hx
            -- Behind the first match only its repeats are left to say.
            by_cases hp : p x
            · exact h.2 x hx hp
            · exact h.1 x hx hp
        simp only [mapFirst, he, if_true, List.mem_cons, forall_eq_or_imp, hsplit, repeats,
          List.find?_cons_of_pos, Option.mem_def, Option.some.injEq, forall_eq', not_true_eq_false,
          false_imp_iff, true_and, List.mem_filter, and_imp]
        tauto
      · simp only [mapFirst, he, Bool.false_eq_true, if_false, List.mem_cons, forall_eq_or_imp, ih,
          repeats, List.find?_cons_of_neg, not_false_eq_true, true_imp_iff]
        tauto

/-- Entries that do not match can be taken out without changing the repeats. -/
theorem repeats_filter {p q : α → Bool} (hq : ∀ e, p e → q e) (l : List α) :
    repeats p (l.filter q) = repeats p l := by
  induction l with
  | nil => rfl
  | cons e es ih =>
      by_cases he : p e
      · have hes : (es.filter q).filter p = es.filter p := by
          rw [List.filter_filter]
          refine List.filter_congr fun e' _ => ?_
          by_cases he' : p e' <;> simp [he', hq e']
        simp [repeats, he, hq e he, hes]
      · by_cases hqe : q e <;> simp [repeats, he, hqe, ih]

theorem repeats_eq_nil {p : α → Bool} {l : List α} (h : ∀ e ∈ l, ¬p e) : repeats p l = [] := by
  induction l with
  | nil => rfl
  | cons e es ih =>
      obtain ⟨he, hes⟩ := List.forall_mem_cons.mp h
      rw [repeats, if_neg he, ih hes]

/-- A first match that is added at the end repeats none. -/
theorem repeats_concat {p : α → Bool} {x : α} {l : List α} (h : p x → ∀ e ∈ l, ¬p e) :
    repeats p (l ++ [x]) = repeats p l := by
  induction l with
  | nil => by_cases hx : p x <;> simp [repeats, hx]
  | cons e es ih =>
      by_cases he : p e
      -- The first match is already there.
      · have hx : ¬p x := fun hx => h hx e List.mem_cons_self he
        simp [repeats, he, hx]
      · simpa [repeats, he] using ih fun hx e' he' => h hx e' (List.mem_cons_of_mem _ he')

/-! ## Section 2: By Place -/

section Keys

variable {κ : Type*} {key : α → κ}

/-- No entry before place `i` has the key of the one there. -/
def FirstAt (keys : List κ) (i : Nat) : Prop :=
  ∀ k ∈ keys[i]?, k ∉ keys.take i

instance [DecidableEq κ] (keys : List κ) (i : Nat) : Decidable (FirstAt keys i) :=
  inferInstanceAs (Decidable (∀ k ∈ keys[i]?, k ∉ keys.take i))

theorem map_mapFirst {f : α → α} (p : α → Bool) (hf : ∀ x, key (f x) = key x) (l : List α) :
    (mapFirst p f l).map key = l.map key := by
  induction l with
  | nil => rfl
  | cons e es ih =>
      rw [mapFirst]
      split <;> simp [hf, ih]

theorem firstAt_succ {k : κ} {keys : List κ} {i : Nat} :
    FirstAt (k :: keys) (i + 1) ↔ FirstAt keys i ∧ ∀ k' ∈ keys[i]?, k' ≠ k := by
  simp only [FirstAt, List.getElem?_cons_succ, List.take_succ_cons, List.mem_cons, not_or]
  exact ⟨fun h => ⟨fun x hx => (h x hx).2, fun x hx => (h x hx).1⟩,
    fun h x hx => ⟨h.2 x hx, h.1 x hx⟩⟩

theorem getElem?_mapFirst_of_first [DecidableEq κ] (f : α → α) {l : List α} {i : Nat} {x : α}
    (hx : l[i]? = some x) (hfirst : FirstAt (l.map key) i) :
    (mapFirst (key · = key x) f l)[i]? = some (f x) := by
  -- Along the list to the place.
  induction l generalizing i with
  | nil => simp at hx
  | cons e es ih =>
      cases i with
      | zero =>
          obtain rfl : e = x := by simpa using hx
          simp [mapFirst]
      | succ i =>
          have hx' : es[i]? = some x := by simpa using hx
          obtain ⟨hfirst, hne⟩ := firstAt_succ.mp hfirst
          have he : key e ≠ key x := (hne (key x) (by simp [hx'])).symm
          simpa [mapFirst, he] using ih hx' hfirst

theorem getElem?_mapFirst_of_not [DecidableEq κ] {n : κ} (f : α → α) {l : List α} {i : Nat} {x : α}
    (hx : l[i]? = some x) (hnot : ¬(key x = n ∧ FirstAt (l.map key) i)) :
    (mapFirst (key · = n) f l)[i]? = some x := by
  -- Along the list; the change may be made before the place is reached.
  induction l generalizing i with
  | nil => simp at hx
  | cons e es ih =>
      cases i with
      | zero =>
          obtain rfl : e = x := by simpa using hx
          have he : key e ≠ n := fun he => hnot ⟨he, by simp [FirstAt]⟩
          simp [mapFirst, he]
      | succ i =>
          have hx' : es[i]? = some x := by simpa using hx
          by_cases he : key e = n
          · simpa [mapFirst, he] using hx'
          · have hrest : ¬(key x = n ∧ FirstAt (es.map key) i) := by
              rintro ⟨hn, hfirst⟩
              refine hnot ⟨hn, firstAt_succ.mpr ⟨hfirst, fun k hk => ?_⟩⟩
              obtain rfl : key x = k := by simpa [hx'] using hk
              exact fun heq => he (heq.symm.trans hn)
            simpa [mapFirst, he] using ih hx' hrest

/-- A change is made at the first place of its key. -/
theorem getElem?_mapFirst [DecidableEq κ] (n : κ) (f : α → α) {l : List α} {i : Nat} {x : α}
    (hx : l[i]? = some x) :
    (mapFirst (key · = n) f l)[i]? =
      some (if key x = n ∧ FirstAt (l.map key) i then f x else x) := by
  split
  · rename_i h
    obtain ⟨rfl, hfirst⟩ := h
    exact getElem?_mapFirst_of_first f hx hfirst
  · rename_i h
    exact getElem?_mapFirst_of_not f hx h

theorem find?_mapFirst [DecidableEq κ] {f : α → α} (hf : ∀ x, key (f x) = key x) (n m : κ)
    (l : List α) :
    (mapFirst (key · = n) f l).find? (key · = m) =
      (l.find? (key · = m)).map fun x => if m = n then f x else x := by
  induction l with
  | nil => rfl
  | cons e es ih =>
      -- Changed here, or further on.
      by_cases hn : key e = n
      · by_cases hm : key e = m
        · obtain rfl := hn
          obtain rfl := hm
          simp [mapFirst, hf]
        · have hne : m ≠ n := fun heq => hm (hn.trans heq.symm)
          simp [mapFirst, hn, hf, hne, hne.symm]
      · by_cases hm : key e = m
        · have hne : m ≠ n := fun heq => hn (hm.trans heq)
          simp [mapFirst, hm, hne]
        · simpa [mapFirst, hn, hm] using ih

/-- The entry found is at the first place of its key. -/
theorem find?_eq_of_firstAt [DecidableEq κ] {l : List α} {i : Nat} {x : α} (hx : l[i]? = some x)
    (hfirst : FirstAt (l.map key) i) : l.find? (key · = key x) = some x := by
  -- No entry before has the key.
  have hnone : ∀ y ∈ l.take i, ¬key y = key x := by
    intro y hy heq
    refine hfirst (key x) (by simp [hx]) ?_
    rw [← List.map_take, ← heq]
    exact List.mem_map_of_mem hy
  have hi : i < l.length := (List.getElem?_eq_some_iff.mp hx).1
  have hsplit : l = l.take i ++ x :: l.drop (i + 1) := by
    rw [← (List.getElem?_eq_some_iff.mp hx).2, List.getElem_cons_drop, List.take_append_drop]
  rw [hsplit, List.find?_append]
  have : (l.take i).find? (key · = key x) = none :=
    List.find?_eq_none.mpr fun y hy => by simpa using hnone y hy
  simp [this]

theorem exists_place_of_find? [DecidableEq κ] {l : List α} {n : κ} {x : α}
    (h : l.find? (key · = n) = some x) :
    ∃ i, l[i]? = some x ∧ key x = n ∧ FirstAt (l.map key) i := by
  obtain ⟨hx, before, after, rfl, hbefore⟩ := List.find?_eq_some_iff_append.mp h
  refine ⟨before.length, by simp, by simpa using hx, ?_⟩
  intro k hk
  obtain rfl : key x = k := by simpa using hk
  -- The keys before it are those of the entries before.
  have htake : ((before ++ x :: after).map key).take before.length = before.map key := by
    rw [List.map_append, List.take_left' (by simp)]
  rw [htake, List.mem_map]
  rintro ⟨y, hy, heq⟩
  have hx : key x = n := by simpa using hx
  have := hbefore y hy
  simp [heq, hx] at this

theorem filter_mapFirst_of_ne [DecidableEq κ] {f : α → α} (hf : ∀ x, key (f x) = key x) {n m : κ}
    (hne : m ≠ n) (l : List α) :
    (mapFirst (key · = n) f l).filter (key · = m) = l.filter (key · = m) := by
  induction l with
  | nil => rfl
  | cons e es ih =>
      by_cases hn : key e = n
      · simp [mapFirst, hn, hf, hne.symm]
      · by_cases hm : key e = m
        · simpa [mapFirst, hn, hm, hne] using ih
        · simpa [mapFirst, hn, hm] using ih

/-- A change of the entry of one key leaves the repeats of every key. -/
theorem repeats_mapFirst [DecidableEq κ] {f : α → α} (hf : ∀ x, key (f x) = key x) (n m : κ)
    (l : List α) :
    repeats (key · = m) (mapFirst (key · = n) f l) = repeats (key · = m) l := by
  induction l with
  | nil => rfl
  | cons e es ih =>
      -- The entry that is changed is the first of its key, so it repeats none.
      by_cases hn : key e = n
      · by_cases hm : n = m <;> simp [mapFirst, repeats, hn, hf, hm]
      · by_cases hm : key e = m
        · have hne : m ≠ n := fun heq => hn (hm.trans heq)
          simpa [mapFirst, repeats, hm, hne] using filter_mapFirst_of_ne hf hne es
        · simpa [mapFirst, repeats, hn, hm] using ih

theorem exists_earlier {l : List α} {i : Nat} {x : α} (hx : l[i]? = some x)
    (hlater : ¬FirstAt (l.map key) i) : ∃ j y, j < i ∧ l[j]? = some y ∧ key y = key x := by
  have hmem : key x ∈ (l.map key).take i := by
    by_contra hnot
    refine hlater fun k hk => ?_
    obtain rfl : key x = k := by simpa [hx] using hk
    exact hnot
  rw [← List.map_take] at hmem
  obtain ⟨y, hy, hkey⟩ := List.mem_map.mp hmem
  obtain ⟨j, hj⟩ := List.mem_iff_getElem?.mp hy
  -- The earlier place is within the entries before.
  have hji : j < i := by
    by_contra hle
    rw [List.getElem?_take_eq_none (by omega)] at hj
    cases hj
  rw [List.getElem?_take_of_lt hji] at hj
  exact ⟨j, y, hji, hj, hkey⟩

end Keys

end Psbox.Foundations
