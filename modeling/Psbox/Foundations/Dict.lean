import Mathlib.Data.List.Nodup
import Mathlib.Order.Lattice
import Mathlib.Tactic.Common

/-!
# Ordered Maps

A map as the list of its entries in the order of their keys, each key once (`Dict`). Two maps with the same
entries are equal, and a map is what its entries are collected to, in whatever way these were computed.

The lists of entries are of use by themselves where the order cannot be part of a type, as in a tree of maps.
-/

namespace Psbox.Foundations

variable {κ β γ : Type*} [LinearOrder κ]

/-! ## Section 1: Lists of Entries -/

/-- An entry is put in its place. It replaces one that has its key. -/
def insertEntry (k : κ) (v : β) : List (κ × β) → List (κ × β)
  | [] => [(k, v)]
  -- In front of the first greater key, or in place of its own.
  | e :: es => if k < e.1 then (k, v) :: e :: es else if k = e.1 then (k, v) :: es else e :: insertEntry k v es

/-- In the order of their keys, each once. -/
def Ordered (es : List (κ × β)) : Prop :=
  es.Pairwise fun a b => a.1 < b.1

theorem mem_insertEntry {k : κ} {v : β} {es : List (κ × β)} {e : κ × β} (h : e ∈ insertEntry k v es) :
    e = (k, v) ∨ e ∈ es := by
  -- By induction over the entries that are there.
  induction es with
  | nil => exact Or.inl (List.mem_singleton.mp h)
  | cons e' es ih =>
      rw [insertEntry] at h
      split_ifs at h
      · exact List.mem_cons.mp h
      · exact (List.mem_cons.mp h).imp_right fun hes => List.mem_cons_of_mem e' hes
      · rcases List.mem_cons.mp h with rfl | hes
        · exact Or.inr List.mem_cons_self
        · exact (ih hes).imp_right fun hold => List.mem_cons_of_mem e' hold

theorem ordered_insertEntry {es : List (κ × β)} (h : Ordered es) (k : κ) (v : β) :
    Ordered (insertEntry k v es) := by
  -- By induction; the new entry comes before those greater, and after those less.
  induction es with
  | nil => exact List.pairwise_singleton _ _
  | cons e es ih =>
      obtain ⟨hfirst, hrest⟩ := List.pairwise_cons.mp h
      rw [insertEntry]
      split_ifs with hlt heq
      · refine List.pairwise_cons.mpr ⟨fun e' he' => ?_, h⟩
        rcases List.mem_cons.mp he' with rfl | he'
        · exact hlt
        · exact hlt.trans (hfirst e' he')
      · exact List.pairwise_cons.mpr ⟨fun e' he' => heq ▸ hfirst e' he', hrest⟩
      · refine List.pairwise_cons.mpr ⟨fun e' he' => ?_, ih hrest⟩
        rcases mem_insertEntry he' with rfl | he'
        · exact lt_of_le_of_ne (not_lt.mp hlt) (Ne.symm heq)
        · exact hfirst e' he'

theorem lookup_insertEntry (k : κ) (v : β) (es : List (κ × β)) (j : κ) :
    (insertEntry k v es).lookup j = if j = k then some v else es.lookup j := by
  induction es with
  | nil =>
      -- The key asked for is the new one, or another.
      by_cases h : j = k
      · simp [insertEntry, h]
      · simp [insertEntry, List.lookup_cons, h, beq_eq_false_iff_ne.mpr h]
  | cons e es ih =>
      obtain ⟨k', v'⟩ := e
      rw [insertEntry]
      -- It is found where it was put.
      by_cases hj : j = k
      · rw [if_pos hj] at ih ⊢
        split_ifs with hlt heq
        · simp [hj]
        · simp [hj]
        · simp [List.lookup_cons, ih, beq_eq_false_iff_ne.mpr (hj ▸ heq)]
      · have hne : (j == k) = false := beq_eq_false_iff_ne.mpr hj
        rw [if_neg hj] at ih ⊢
        split_ifs with hlt heq
        · simp [List.lookup_cons, hne]
        · simp only [List.lookup_cons, hne, ← show k = k' from heq]
        · simp only [List.lookup_cons, ih]

/-- An entry after all others. -/
theorem insertEntry_last {k : κ} (v : β) {es : List (κ × β)} (h : ∀ e ∈ es, e.1 < k) :
    insertEntry k v es = es ++ [(k, v)] := by
  induction es with
  | nil => rfl
  | cons e es ih =>
      obtain ⟨hfirst, hrest⟩ := List.forall_mem_cons.mp h
      rw [insertEntry, if_neg hfirst.not_gt, if_neg hfirst.ne', ih hrest, List.cons_append]

/-- What is filtered out makes no difference. -/
theorem filter_insertEntry {p : κ × β → Bool} {k : κ} {v : β} {es : List (κ × β)} (hnew : p (k, v) = false)
    (hold : ∀ e ∈ es, e.1 = k → p e = false) : (insertEntry k v es).filter p = es.filter p := by
  induction es with
  | nil => simp [insertEntry, hnew]
  | cons e es ih =>
      obtain ⟨hfirst, hrest⟩ := List.forall_mem_cons.mp hold
      rw [insertEntry]
      split_ifs with hlt heq
      · rw [List.filter_cons_of_neg (by simp [hnew])]
      · rw [List.filter_cons_of_neg (by simp [hnew]), List.filter_cons_of_neg (by simp [hfirst heq.symm])]
      · rw [List.filter_cons, List.filter_cons, ih hrest]

/-- The entries one after the other, the last one for a key. -/
def collect (es : List (κ × β)) : List (κ × β) :=
  es.foldl (fun l e => insertEntry e.1 e.2 l) []

theorem ordered_foldl_insertEntry {l : List (κ × β)} (h : Ordered l) (es : List (κ × β)) :
    Ordered (es.foldl (fun l e => insertEntry e.1 e.2 l) l) := by
  induction es generalizing l with
  | nil => exact h
  | cons e es ih => exact ih (ordered_insertEntry h e.1 e.2)

theorem ordered_collect (es : List (κ × β)) : Ordered (collect es) :=
  ordered_foldl_insertEntry List.Pairwise.nil es

theorem mem_collect {es : List (κ × β)} {e : κ × β} (h : e ∈ collect es) : e ∈ es := by
  -- The list that is collected is general, since it grows.
  have hfold : ∀ (es l : List (κ × β)), e ∈ es.foldl (fun l e => insertEntry e.1 e.2 l) l → e ∈ es ∨ e ∈ l := by
    intro es
    induction es with
    | nil => exact fun l h => Or.inr h
    | cons e' es ih =>
        intro l h
        rcases ih _ h with hes | hl
        · exact Or.inl (List.mem_cons_of_mem e' hes)
        · rcases mem_insertEntry hl with rfl | hl
          · exact Or.inl List.mem_cons_self
          · exact Or.inr hl
  exact (hfold es [] h).resolve_right List.not_mem_nil

theorem lookup_foldl_insertEntry (es l : List (κ × β)) (k : κ) :
    (es.foldl (fun l e => insertEntry e.1 e.2 l) l).lookup k = (es.reverse.lookup k).or (l.lookup k) := by
  induction es generalizing l with
  | nil => rfl
  | cons e es ih =>
      rw [List.foldl_cons, ih, lookup_insertEntry, List.reverse_cons, List.lookup_append, List.lookup_cons,
        List.lookup_nil]
      -- The later entry of a key replaces the one before.
      by_cases h : k = e.1
      · simp [h]
      · have hne : (k == e.1) = false := by simpa using h
        simp [h, hne]

theorem lookup_collect (es : List (κ × β)) (k : κ) : (collect es).lookup k = es.reverse.lookup k := by
  rw [collect, lookup_foldl_insertEntry, List.lookup_nil, Option.or_none]

/-- What is found in a list without repetitions. -/
theorem lookup_of_nodup {es : List (κ × β)} (hes : (es.map Prod.fst).Nodup) {k : κ} {v : β} (h : (k, v) ∈ es) :
    es.lookup k = some v := by
  obtain ⟨l₁, l₂, rfl⟩ := List.append_of_mem h
  refine List.lookup_eq_some_iff.mpr ⟨l₁, l₂, rfl, fun e he => ?_⟩
  rw [List.map_append, List.nodup_append] at hes
  have hne := hes.2.2 e.1 (List.mem_map.mpr ⟨e, he, rfl⟩) k List.mem_cons_self
  simpa using Ne.symm hne

theorem lookup_collect_of_mem {es : List (κ × β)} (hes : (es.map Prod.fst).Nodup) {k : κ} {v : β} (h : (k, v) ∈ es) :
    (collect es).lookup k = some v := by
  -- In reverse there is no repetition either.
  have hreverse : (es.reverse.map Prod.fst).Nodup := by
    rw [List.map_reverse]
    exact List.nodup_reverse.mpr hes
  rw [lookup_collect, lookup_of_nodup hreverse (List.mem_reverse.mpr h)]

/-- Other values for the same keys. -/
theorem lookup_map (f : β → γ) (es : List (κ × β)) (k : κ) :
    (es.map fun e => (e.1, f e.2)).lookup k = (es.lookup k).map f := by
  induction es with
  | nil => rfl
  | cons e es ih =>
      rw [List.map_cons, List.lookup_cons, List.lookup_cons, ih]
      cases k == e.1 <;> rfl

theorem insertEntry_map (f : β → γ) (k : κ) (v : β) (es : List (κ × β)) :
    insertEntry k (f v) (es.map fun e => (e.1, f e.2)) = (insertEntry k v es).map fun e => (e.1, f e.2) := by
  induction es with
  | nil => rfl
  | cons e es ih =>
      rw [List.map_cons, insertEntry, insertEntry, ih]
      split_ifs <;> rfl

/-- Entries that are in order are all collected. -/
theorem Ordered.collect_eq {es : List (κ × β)} (h : Ordered es) : collect es = es := by
  -- Each entry comes after those before it.
  have hfold : ∀ (es l : List (κ × β)), Ordered (l ++ es) →
      es.foldl (fun l e => insertEntry e.1 e.2 l) l = l ++ es := by
    intro es
    induction es with
    | nil => exact fun l _ => (List.append_nil l).symm
    | cons e es ih =>
        intro l hl
        have hbefore : ∀ e' ∈ l, e'.1 < e.1 := fun e' he' =>
          (List.pairwise_append.mp hl).2.2 e' he' e List.mem_cons_self
        rw [List.foldl_cons, insertEntry_last e.2 hbefore, ih, List.append_assoc, List.singleton_append]
        rwa [List.append_assoc, List.singleton_append]
  exact hfold es [] h

/-! ## Section 2: Maps -/

/-- A map, as its entries in order. -/
structure Dict (κ : Type*) [LinearOrder κ] (β : Type*) where
  entries : List (κ × β)
  ordered : Ordered entries

namespace Dict

@[ext]
theorem ext {d d' : Dict κ β} (h : d.entries = d'.entries) : d = d' := by
  cases d
  cases d'
  cases h
  rfl

instance [DecidableEq β] : DecidableEq (Dict κ β) := fun d d' =>
  decidable_of_iff (d.entries = d'.entries) ⟨ext, congrArg entries⟩

def empty : Dict κ β :=
  ⟨[], List.Pairwise.nil⟩

instance : EmptyCollection (Dict κ β) :=
  ⟨empty⟩

@[simp]
theorem entries_empty : (∅ : Dict κ β).entries = [] :=
  rfl

theorem not_mem_empty {e : κ × β} : e ∉ (∅ : Dict κ β).entries :=
  List.not_mem_nil

def ofList (es : List (κ × β)) : Dict κ β :=
  ⟨collect es, ordered_collect es⟩

def lookup (d : Dict κ β) (k : κ) : Option β :=
  d.entries.lookup k

def insert (d : Dict κ β) (k : κ) (v : β) : Dict κ β :=
  ⟨insertEntry k v d.entries, ordered_insertEntry d.ordered k v⟩

def filter (d : Dict κ β) (p : κ × β → Bool) : Dict κ β :=
  ⟨d.entries.filter p, d.ordered.filter p⟩

def map (f : β → γ) (d : Dict κ β) : Dict κ γ where
  entries := d.entries.map fun e => (e.1, f e.2)
  ordered := by
    unfold Ordered
    rw [List.pairwise_map]
    exact d.ordered

@[simp]
theorem ofList_entries (d : Dict κ β) : ofList d.entries = d :=
  ext d.ordered.collect_eq

theorem mem_ofList {es : List (κ × β)} {e : κ × β} (h : e ∈ (ofList es).entries) : e ∈ es :=
  mem_collect h

theorem mem_insert {d : Dict κ β} {k : κ} {v : β} {e : κ × β} (h : e ∈ (d.insert k v).entries) :
    e = (k, v) ∨ e ∈ d.entries :=
  mem_insertEntry h

/-- No key is there twice. -/
theorem distinct (d : Dict κ β) : (d.entries.map Prod.fst).Nodup :=
  List.pairwise_map.mpr (d.ordered.imp fun hlt => hlt.ne)

theorem mem_of_lookup {d : Dict κ β} {k : κ} {v : β} (h : d.lookup k = some v) : (k, v) ∈ d.entries := by
  obtain ⟨l₁, l₂, heq, _⟩ := List.lookup_eq_some_iff.mp h
  rw [heq]
  simp

theorem lookup_of_mem {d : Dict κ β} {k : κ} {v : β} (h : (k, v) ∈ d.entries) : d.lookup k = some v :=
  lookup_of_nodup d.distinct h

@[simp]
theorem lookup_map (f : β → γ) (d : Dict κ β) (k : κ) : (d.map f).lookup k = (d.lookup k).map f :=
  Foundations.lookup_map f d.entries k

theorem filter_eq_self {d : Dict κ β} {p : κ × β → Bool} (h : ∀ e ∈ d.entries, p e = true) : d.filter p = d :=
  ext (List.filter_eq_self.mpr h)

theorem lookup_insert (d : Dict κ β) (k : κ) (v : β) (j : κ) :
    (d.insert k v).lookup j = if j = k then some v else d.lookup j :=
  lookup_insertEntry k v d.entries j

end Dict

end Psbox.Foundations
