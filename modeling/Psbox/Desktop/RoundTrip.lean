import Psbox.Desktop.Entry
import Psbox.Foundations.Fallible
import Psbox.Foundations.Texts

/-!
# Entries Written and Read Again

What is written of an entry is read as the same entry exactly when no value holds a newline or
has white space at an end, as far as its other parts are ones that can be written at all
(`parse_render_iff`).

A line of a section is an `Item`: the items of an entry are those of the lines written, one for
one, unless a value is more than one line.
-/

namespace Psbox.Desktop

open Psbox.Foundations (bind_eq_ok_iff breakAt_append breakAt_eq_some)

/-! ## Section 1: Lines -/

theorem lines_newline (t : Text) : lines ('\n' :: t) = [] :: lines t := by
  rw [lines, if_pos rfl]

/-- A line without the carriage return that belongs to its newline. -/
def chomp : Text → Text
  | [] => []
  | ['\r'] => []
  | c :: rest => c :: chomp rest

theorem lines_append {l : Text} (hl : '\n' ∉ l) (t : Text) :
    lines (l ++ '\n' :: t) = chomp l :: lines t := by
  induction l with
  | nil => exact lines_newline t
  | cons c l ih =>
      obtain ⟨hc, hl⟩ : '\n' ≠ c ∧ '\n' ∉ l := by simpa using hl
      rw [List.cons_append, lines, if_neg hc.symm, ih hl]
      cases l with
      | nil =>
          -- A carriage return in front of the newline belongs to it, any other character does not.
          by_cases hreturn : c = '\r'
          · simp [hreturn, chomp]
          · simp [hreturn, chomp]
      | cons d l =>
          have hd : d ≠ '\n' := by
            rintro rfl
            exact hl List.mem_cons_self
          simp [hd, chomp]

theorem lines_flatMap {ls : List Text} (hls : ∀ l ∈ ls, '\n' ∉ l) :
    lines (ls.flatMap (· ++ ['\n'])) = ls.map chomp := by
  -- Line by line.
  induction ls with
  | nil => rfl
  | cons l ls ih =>
      obtain ⟨hl, hls⟩ := List.forall_mem_cons.mp hls
      rw [List.flatMap_cons, List.append_assoc, List.singleton_append, lines_append hl, ih hls]
      rfl

/-- Lines are counted by their newlines. -/
theorem length_lines_append (l t : Text) :
    (lines (l ++ '\n' :: t)).length = l.count '\n' + 1 + (lines t).length := by
  induction l with
  | nil => rw [List.nil_append, lines_newline, List.length_cons, List.count_nil, Nat.add_comm]
  | cons c l ih =>
      rw [List.cons_append, lines]
      -- A newline is one line more, any other character goes to the line it starts.
      by_cases hc : c = '\n'
      · rw [if_pos hc, List.length_cons, ih, hc, List.count_cons_self]
        omega
      · rw [if_neg hc, List.count_cons_of_ne hc]
        split
        · exact ih
        · cases hrest : lines (l ++ '\n' :: t) with
          | nil =>
              rw [hrest, List.length_nil] at ih
              omega
          | cons l' ls =>
              rw [hrest] at ih
              simpa using ih

theorem length_lines (ls : List Text) :
    (lines (ls.flatMap (· ++ ['\n']))).length = (ls.map fun l => l.count '\n' + 1).sum := by
  induction ls with
  | nil => rfl
  | cons l ls ih =>
      rw [List.flatMap_cons, List.append_assoc, List.singleton_append, length_lines_append, ih,
        List.map_cons, List.sum_cons]

/-- As many lines are read as were written only if none holds a newline. -/
theorem no_newline_of_length {ls : List Text}
    (h : (lines (ls.flatMap (· ++ ['\n']))).length ≤ ls.length) : ∀ l ∈ ls, '\n' ∉ l := by
  rw [length_lines] at h
  induction ls with
  | nil => simp
  | cons l ls ih =>
      -- Each text is a line at least, so there are as many only if no text is two.
      have hle : ls.length ≤ (ls.map fun l => l.count '\n' + 1).sum := by
        clear h ih
        induction ls with
        | nil => exact Nat.zero_le _
        | cons l ls ih =>
            simp only [List.length_cons, List.map_cons, List.sum_cons]
            omega
      simp only [List.length_cons, List.map_cons, List.sum_cons] at h
      refine List.forall_mem_cons.mpr ⟨?_, ih (by omega)⟩
      rw [← List.count_eq_zero]
      omega

/-! ## Section 2: White Space -/

theorem chomp_eq (l : Text) : chomp l = l ∨ l = chomp l ++ ['\r'] := by
  induction l using chomp.induct with
  | case1 => exact Or.inl rfl
  | case2 => exact Or.inr rfl
  | case3 c rest h ih =>
      have hcons : chomp (c :: rest) = c :: chomp rest := by
        rw [chomp]
        exact fun hc hrest => h hc hrest
      rw [hcons]
      exact ih.imp (fun h => by rw [h]) fun h => by rw [List.cons_append, ← h]

theorem trim_append_whitespace {c : Char} (hc : isWhitespace c) (t : Text) :
    trim (t ++ [c]) = trim t := by
  rw [trim, trim, trimStart, trimStart]
  -- A text of blanks trims to nothing, with one blank more or less.
  by_cases hall : ∀ d ∈ t, isWhitespace d
  · have hempty : t.dropWhile isWhitespace = [] := List.dropWhile_eq_nil_iff.mpr hall
    have hempty' : (t ++ [c]).dropWhile isWhitespace = [] :=
      List.dropWhile_eq_nil_iff.mpr (by simpa [or_imp, forall_and] using ⟨hall, hc⟩)
    rw [hempty, hempty']
  · have hne : t.dropWhile isWhitespace ≠ [] := fun h => hall (List.dropWhile_eq_nil_iff.mp h)
    rw [List.dropWhile_append, if_neg (by simpa using hne), List.rdropWhile_concat_pos _ _ _ hc]

/-- The carriage return that belongs to a newline is white space, which is not read anyway. -/
theorem trim_chomp (l : Text) : trim (chomp l) = trim l := by
  rcases chomp_eq l with h | h
  · rw [h]
  · conv_rhs => rw [h]
    exact (trim_append_whitespace (by decide) _).symm

theorem parseLine_chomp (e : Entry) (raw : Text) : e.parseLine (chomp raw) = e.parseLine raw := by
  rw [Entry.parseLine, Entry.parseLine, trim_chomp]

/-- No white space is at either end. -/
def Trimmed (t : Text) : Prop :=
  (∀ c ∈ t.head?, ¬isWhitespace c) ∧ ∀ c ∈ t.getLast?, ¬isWhitespace c

theorem dropWhile_eq_self {p : Char → Bool} {t : Text} :
    t.dropWhile p = t ↔ ∀ c ∈ t.head?, ¬p c := by
  cases t with
  | nil => simp
  | cons c t =>
      by_cases hc : p c
      -- What is dropped makes the text shorter.
      · have hlength : (t.dropWhile p).length < (c :: t).length :=
          Nat.lt_succ_of_le (List.dropWhile_sublist p).length_le
        simp only [List.dropWhile_cons, hc, if_true, List.head?_cons, Option.mem_def,
          Option.some.injEq, forall_eq', not_true_eq_false, iff_false]
        exact fun h => absurd (congrArg List.length h) hlength.ne
      · simp [hc]

theorem rdropWhile_eq_self {p : Char → Bool} {t : Text} :
    t.rdropWhile p = t ↔ ∀ c ∈ t.getLast?, ¬p c := by
  rw [List.rdropWhile, List.reverse_eq_iff, dropWhile_eq_self, List.head?_reverse]

theorem trim_eq_self_iff {t : Text} : trim t = t ↔ Trimmed t := by
  constructor
  · intro h
    -- What is trimmed is a part of the text, and as long only if it is all of it.
    have hstart : trimStart t = t := by
      refine ((List.dropWhile_sublist _).eq_of_length_le ?_)
      have := (List.rdropWhile_prefix isWhitespace (trimStart t)).length_le
      rwa [show (trimStart t).rdropWhile isWhitespace = t from h] at this
    refine ⟨dropWhile_eq_self.mp hstart, rdropWhile_eq_self.mp ?_⟩
    rwa [trim, hstart] at h
  · rintro ⟨hhead, hlast⟩
    rw [trim, trimStart, dropWhile_eq_self.mpr hhead, rdropWhile_eq_self.mpr hlast]

/-- What is read of a value: the end of its line is trimmed first. -/
def readValue (v : Text) : Text :=
  trimStart (v.rdropWhile isWhitespace)

theorem readValue_eq_self_iff {v : Text} : readValue v = v ↔ Trimmed v := by
  constructor
  · intro h
    -- The same for its end.
    have hend : v.rdropWhile isWhitespace = v := by
      refine (List.rdropWhile_prefix _ _).eq_of_length_le ?_
      have := (List.dropWhile_sublist (l := v.rdropWhile isWhitespace) isWhitespace).length_le
      rwa [show (v.rdropWhile isWhitespace).dropWhile isWhitespace = v from h] at this
    refine ⟨dropWhile_eq_self.mp ?_, rdropWhile_eq_self.mp hend⟩
    rwa [readValue, hend] at h
  · rintro ⟨hhead, hlast⟩
    rw [readValue, rdropWhile_eq_self.mpr hlast, trimStart, dropWhile_eq_self.mpr hhead]

theorem rdropWhile_append_cons {p : Char → Bool} {c : Char} (hc : ¬p c) (a b : Text) :
    (a ++ c :: b).rdropWhile p = a ++ c :: b.rdropWhile p := by
  -- By induction over what is behind the last character that is not dropped.
  induction b using List.reverseRecOn with
  | nil =>
      rw [List.rdropWhile_nil, rdropWhile_eq_self]
      simpa using hc
  | append_singleton b d ih =>
      have hassoc : a ++ c :: (b ++ [d]) = (a ++ c :: b) ++ [d] := by simp
      rw [hassoc, List.rdropWhile_concat, List.rdropWhile_concat]
      split
      · exact ih
      · exact hassoc.symm

/-! ## Section 3: Items -/

/-- What a line is, once there is a section. -/
inductive Item where
  | header (name : Text)
  | line (l : Line)
  deriving DecidableEq

def itemOf (raw : Text) : Option Item :=
  match header (trim raw) with
  | some name => some (.header name)
  | none =>
      if isComment (trim raw) then some (.line (.other (trim raw)))
      else (splitOnce '=' (trim raw)).map fun (k, v) => .line (.key (trim k) (trimStart v))

def addItem (secs : List Section) : Item → List Section
  | .header name => secs ++ [{ name := name, lines := [] }]
  | .line l =>
      match secs.getLast? with
      | none => secs
      | some s => secs.dropLast ++ [{ s with lines := s.lines ++ [l] }]

def Section.items (s : Section) : List Item :=
  .header s.name :: s.lines.map .line

def Item.render : Item → Text
  | .header name => '[' :: (name ++ [']'])
  | .line l => l.render

theorem render_items (s : Section) : s.render = s.items.map Item.render := by
  simp [Section.render, Section.items, Item.render, Function.comp_def]

theorem addItem_ne_nil {secs : List Section} (h : secs ≠ []) (it : Item) : addItem secs it ≠ [] := by
  cases it with
  | header name => simp [addItem]
  | line l =>
      obtain ⟨init, last, rfl⟩ := List.eq_nil_or_concat secs |>.resolve_left h
      simp [addItem]

theorem items_addItem {secs : List Section} {it : Item} (h : secs ≠ [] ∨ ∃ name, it = .header name) :
    (addItem secs it).flatMap Section.items = secs.flatMap Section.items ++ [it] := by
  cases it with
  | header name => simp [addItem, Section.items]
  | line l =>
      have hne : secs ≠ [] := h.resolve_right (by simp)
      obtain ⟨init, last, rfl⟩ := List.eq_nil_or_concat secs |>.resolve_left hne
      simp [addItem, Section.items]

theorem items_foldl {secs : List Section} (h : secs ≠ []) (its : List Item) :
    (its.foldl addItem secs).flatMap Section.items = secs.flatMap Section.items ++ its := by
  -- Each item is added to the last section, or starts a new one.
  induction its generalizing secs with
  | nil => simp
  | cons it its ih =>
      rw [List.foldl_cons, ih (addItem_ne_nil h it), items_addItem (Or.inl h)]
      simp

theorem foldl_lines (acc : List Section) (s : Section) (ls : List Line) :
    (ls.map Item.line).foldl addItem (acc ++ [s]) =
      acc ++ [{ s with lines := s.lines ++ ls }] := by
  induction ls generalizing s with
  | nil => simp
  | cons l ls ih =>
      -- A line goes to the section that is being read.
      have hadd : addItem (acc ++ [s]) (.line l) = acc ++ [{ s with lines := s.lines ++ [l] }] := by
        simp [addItem]
      rw [List.map_cons, List.foldl_cons, hadd, ih]
      simp

/-- Sections are made of their items. -/
theorem foldl_items (acc secs : List Section) :
    (secs.flatMap Section.items).foldl addItem acc = acc ++ secs := by
  induction secs generalizing acc with
  | nil => simp
  | cons s secs ih =>
      rw [List.flatMap_cons, Section.items, List.foldl_append, List.foldl_cons, addItem, foldl_lines,
        ih]
      simp

/-- Once there is a section, every line is an item. -/
theorem parseLine_eq_ok {e e' : Entry} (hne : e.sections ≠ []) (raw : Text) :
    e.parseLine raw = .ok e' ↔
      ∃ it, itemOf raw = some it ∧ e' = { e with sections := addItem e.sections it } := by
  obtain ⟨last, hlast⟩ := Option.ne_none_iff_exists'.mp (mt List.getLast?_eq_none_iff.mp hne)
  rw [Entry.parseLine, itemOf]
  cases hheader : header (trim raw) with
  | some name => simp [addItem, eq_comm]
  | none =>
      simp only [hlast]
      -- A comment, and otherwise a key with its value.
      by_cases hcomment : isComment (trim raw)
      · simp [hcomment, addItem, hlast, Entry.push, eq_comm]
      · cases hsplit : splitOnce '=' (trim raw) with
        | none => simp [hcomment]
        | some kv => simp [hcomment, addItem, hlast, Entry.push, eq_comm]

theorem foldlM_parseLine_eq_ok {e e' : Entry} (hne : e.sections ≠ []) (ls : List Text) :
    ls.foldlM Entry.parseLine e = .ok e' ↔
      ∃ its, ls.mapM itemOf = some its ∧
        e' = { e with sections := its.foldl addItem e.sections } := by
  -- Line by line; there is a section from the first on.
  induction ls generalizing e with
  | nil =>
      constructor
      · intro h
        exact ⟨[], rfl, (Except.ok.inj h).symm⟩
      · rintro ⟨its, hits, rfl⟩
        obtain rfl := Option.some.inj hits
        rfl
  | cons raw ls ih =>
      rw [List.foldlM_cons, bind_eq_ok_iff]
      constructor
      · rintro ⟨e₁, he₁, h⟩
        obtain ⟨it, hit, rfl⟩ := (parseLine_eq_ok hne raw).mp he₁
        obtain ⟨its, hits, rfl⟩ := (ih (addItem_ne_nil hne it)).mp h
        exact ⟨it :: its, by rw [List.mapM_cons, hit, hits]; rfl, rfl⟩
      · rintro ⟨its, hits, rfl⟩
        rw [List.mapM_cons] at hits
        obtain ⟨it, hit, hrest⟩ := Option.bind_eq_some_iff.mp hits
        obtain ⟨its', hits', heq⟩ := Option.bind_eq_some_iff.mp hrest
        cases heq
        refine ⟨_, (parseLine_eq_ok hne raw).mpr ⟨it, hit, rfl⟩, ?_⟩
        exact (ih (addItem_ne_nil hne it)).mpr ⟨its', hits', rfl⟩

/-! ## Section 4: What Can Be Written -/

/-- The text is one line, without white space at its ends. -/
structure OneLine (t : Text) : Prop where
  noNewline : '\n' ∉ t
  trimmed : Trimmed t

/-- A line that can be written, whatever the value of its key. -/
def Line.Sound : Line → Prop
  | .other t => OneLine t ∧ isComment t
  | .key k v => OneLine k ∧ '=' ∉ k ∧ k.head? ≠ some '#' ∧
      (k.head? = some '[' → OneLine v ∧ v.getLast? ≠ some ']')

/-- The value of a line is one line. -/
def Line.Kept : Line → Prop
  | .other _ => True
  | .key _ v => OneLine v

/-- An entry that can be written, whatever its values. -/
structure Sound (e : Entry) : Prop where
  preamble : ∀ t ∈ e.preamble, OneLine t ∧ isComment t ∧ t ≠ generatorMarker ∧ ¬sandboxTag <+: t
  names : ∀ s ∈ e.sections, '\n' ∉ s.name
  lines : ∀ s ∈ e.sections, ∀ l ∈ s.lines, l.Sound
  main : e.sections.any (·.name == mainSection)

theorem itemOf_header {name : Text} : itemOf ('[' :: (name ++ [']'])) = some (.header name) := by
  -- A header has no blanks at its ends, as it starts and ends with a bracket.
  have htrim : trim ('[' :: (name ++ [']'])) = '[' :: (name ++ [']']) := by
    rw [trim_eq_self_iff]
    constructor
    · intro c hc
      obtain rfl : '[' = c := by simpa using hc
      decide
    · intro c hc
      rw [← List.cons_append, List.getLast?_append] at hc
      obtain rfl : ']' = c := by simpa using hc
      decide
  rw [itemOf, htrim]
  simp [header]

theorem itemOf_other {t : Text} (ht : Trimmed t) (hcomment : isComment t) :
    itemOf t = some (.line (.other t)) := by
  have hheader : header t = none := by
    cases t with
    | nil => rfl
    | cons c t =>
        have hc : c = '#' := by simpa [isComment] using hcomment
        rw [hc]
        rfl
  rw [itemOf, trim_eq_self_iff.mpr ht, hheader]
  simp [hcomment]

theorem splitOnce_append {k v : Text} (hk : '=' ∉ k) : splitOnce '=' (k ++ '=' :: v) = some (k, v) :=
  breakAt_append hk

/-- A key is read with its value, without the white space around that. -/
theorem itemOf_key {k v : Text} (h : (Line.key k v).Sound) :
    itemOf (k ++ '=' :: v) = some (.line (.key k (readValue v))) := by
  obtain ⟨⟨_, hk⟩, hequals, hcomment, hbracket⟩ := h
  -- A key does not start with a blank.
  have hstart : trimStart (k ++ '=' :: v) = k ++ '=' :: v := by
    rw [trimStart, dropWhile_eq_self]
    cases k with
    | nil => simp [isWhitespace]
    | cons c k => simpa using hk.1
  have htrim : trim (k ++ '=' :: v) = k ++ '=' :: v.rdropWhile isWhitespace := by
    rw [trim, hstart, rdropWhile_append_cons (by decide)]
  -- A key that starts with a bracket would be a header if its value ended with one.
  have hheader : header (k ++ '=' :: v.rdropWhile isWhitespace) = none := by
    cases k with
    | nil => rfl
    | cons c k =>
        by_cases hc : c = '['
        · -- The value is one that was read, and does not end the header of a section.
          subst hc
          obtain ⟨⟨_, hv⟩, hlast⟩ := hbracket rfl
          rw [rdropWhile_eq_self.mpr hv.2, List.cons_append, header, if_neg]
          rw [List.getLast?_append, List.getLast?_cons]
          cases hl : v.getLast? with
          | none => simp
          | some d => simpa [hl] using fun heq : d = ']' => hlast (by rw [hl, heq])
        · simp [header, hc]
  -- Nor does it start a comment.
  have hother : isComment (k ++ '=' :: v.rdropWhile isWhitespace) = false := by
    cases k with
    | nil => rfl
    | cons c k => simpa [isComment] using hcomment
  rw [itemOf, htrim, hheader]
  simp only [hother, Bool.false_eq_true, if_false, splitOnce_append hequals, Option.map_some]
  rw [trim_eq_self_iff.mpr hk]
  rfl

/-! ## Section 5: The Round Trip -/

theorem mapM_eq_self {α β : Type*} {f : α → β} {g : β → Option α} {l : List α} :
    (l.map f).mapM g = some l ↔ ∀ x ∈ l, g (f x) = some x := by
  induction l with
  | nil => simp
  | cons x l ih =>
      rw [List.map_cons, List.mapM_cons, List.forall_mem_cons, ← ih]
      constructor
      · intro h
        obtain ⟨y, hy, hrest⟩ := Option.bind_eq_some_iff.mp h
        obtain ⟨ys, hys, heq⟩ := Option.bind_eq_some_iff.mp hrest
        cases heq
        exact ⟨hy, hys⟩
      · rintro ⟨hx, hl⟩
        rw [hx, hl]
        rfl

theorem length_of_mapM {α β : Type*} {g : β → Option α} {l : List β} {l' : List α}
    (h : l.mapM g = some l') : l'.length = l.length := by
  -- By induction over what was read.
  induction l generalizing l' with
  | nil =>
      cases h
      rfl
  | cons x l ih =>
      rw [List.mapM_cons] at h
      obtain ⟨y, _, hrest⟩ := Option.bind_eq_some_iff.mp h
      obtain ⟨ys, hys, heq⟩ := Option.bind_eq_some_iff.mp hrest
      cases heq
      rw [List.length_cons, List.length_cons, ih hys]

theorem mapM_chomp (ls : List Text) : (ls.map chomp).mapM itemOf = ls.mapM itemOf := by
  induction ls with
  | nil => rfl
  | cons l ls ih =>
      have hl : itemOf (chomp l) = itemOf l := by rw [itemOf, itemOf, trim_chomp]
      rw [List.map_cons, List.mapM_cons, List.mapM_cons, ih, hl]

theorem foldlM_chomp (ls : List Text) (e : Entry) :
    (ls.map chomp).foldlM Entry.parseLine e = ls.foldlM Entry.parseLine e := by
  rw [List.foldlM_map]
  simp only [parseLine_chomp]

theorem lines_flatMap_append {ls : List Text} (hls : ∀ l ∈ ls, '\n' ∉ l) (rest : Text) :
    lines (ls.flatMap (· ++ ['\n']) ++ rest) = ls.map chomp ++ lines rest := by
  induction ls with
  | nil => rfl
  | cons l ls ih =>
      obtain ⟨hl, hls⟩ := List.forall_mem_cons.mp hls
      rw [List.flatMap_cons, List.append_assoc, List.append_assoc, List.singleton_append,
        lines_append hl, ih hls]
      rfl

/-- Whether an item is written as one line that is read as it. -/
theorem itemOf_render_line {l : Line} (h : l.Sound) :
    itemOf l.render = some (.line l) ∧ '\n' ∉ l.render ↔ l.Kept := by
  -- A comment is kept as it is.
  cases l with
  | other t => exact ⟨fun _ => trivial, fun _ => ⟨itemOf_other h.1.2 h.2, h.1.1⟩⟩
  | key k v =>
      rw [Line.render, itemOf_key h]
      simp only [Option.some.injEq, Item.line.injEq, Line.key.injEq, true_and, readValue_eq_self_iff,
        List.mem_append, List.mem_cons, not_or, Line.Kept]
      constructor
      · rintro ⟨htrimmed, _, _, hv⟩
        exact ⟨hv, htrimmed⟩
      · rintro ⟨hv, htrimmed⟩
        exact ⟨htrimmed, h.1.1, by decide, hv⟩

/-- A comment before the first section. -/
theorem parseLine_comment {pre : List Text} {t : Text} (ht : Trimmed t) (hcomment : isComment t) :
    Entry.parseLine { preamble := pre, sections := [] } t =
      .ok { preamble := if t ≠ generatorMarker ∧ ¬sandboxTag <+: t then pre ++ [t] else pre,
            sections := [] } := by
  have hheader : header t = none := by
    cases t with
    | nil => rfl
    | cons c t =>
        have hc : c = '#' := by simpa [isComment] using hcomment
        rw [hc]
        rfl
  rw [Entry.parseLine, trim_eq_self_iff.mpr ht, hheader]
  simp only [List.getLast?_nil, hcomment, Bool.not_true, Bool.false_eq_true, if_false]
  split <;> rfl

/-- The marker lines are passed over, and the preamble is kept. -/
theorem foldlM_preamble {e : Entry} (he : Sound e) {sandbox : Text} (hname : OneLine sandbox)
    (hne : sandbox ≠ []) :
    (generatorMarker :: (sandboxTag ++ sandbox) :: e.preamble).foldlM Entry.parseLine
      { preamble := [], sections := [] } = .ok { preamble := e.preamble, sections := [] } := by
  -- The preamble's comments follow the marker lines, and are kept one by one.
  have hfold : ∀ (ts pre : List Text), (∀ t ∈ ts, t ∈ e.preamble) →
      ts.foldlM Entry.parseLine { preamble := pre, sections := [] } =
        .ok { preamble := pre ++ ts, sections := [] } := by
    intro ts
    induction ts with
    | nil => exact fun pre _ => by rw [List.append_nil]; rfl
    | cons t ts ih =>
        intro pre hts
        obtain ⟨ht, hts⟩ := List.forall_mem_cons.mp hts
        obtain ⟨hone, hcomment, hother⟩ := he.preamble t ht
        rw [List.foldlM_cons, parseLine_comment hone.trimmed hcomment, if_pos hother]
        refine (ih (pre ++ [t]) hts).trans ?_
        rw [List.append_assoc]
        rfl
  -- Psbox's own two lines are not kept.
  have hmarker : Entry.parseLine { preamble := [], sections := [] } generatorMarker =
      .ok { preamble := [], sections := [] } := by
    decide
  have hhead : (sandboxTag ++ sandbox).head? = some '#' := by
    rw [List.head?_append, show sandboxTag.head? = some '#' by decide]
    rfl
  have htrimmed : Trimmed (sandboxTag ++ sandbox) := by
    refine ⟨fun c hc => ?_, fun c hc => ?_⟩
    · obtain rfl : '#' = c := Option.some.inj (hhead.symm.trans hc)
      decide
    · rw [List.getLast?_append_of_ne_nil _ hne] at hc
      exact hname.trimmed.2 c hc
  have hcomment : isComment (sandboxTag ++ sandbox) := by
    rw [isComment, hhead, beq_self_eq_true, Bool.or_true]
  have htag : Entry.parseLine { preamble := [], sections := [] } (sandboxTag ++ sandbox) =
      .ok { preamble := [], sections := [] } := by
    rw [parseLine_comment htrimmed hcomment, if_neg fun h => h.2 (List.prefix_append _ _)]
  rw [List.foldlM_cons, hmarker]
  show ((sandboxTag ++ sandbox) :: e.preamble).foldlM Entry.parseLine _ = _
  rw [List.foldlM_cons, htag]
  exact hfold e.preamble [] fun t ht => ht

theorem parse_eq_ok_iff {e : Entry} (hmain : e.sections.any (·.name == mainSection)) (text : Text) :
    Entry.parse text = .ok e ↔
      (lines text).foldlM Entry.parseLine { preamble := [], sections := [] } = .ok e := by
  rw [Entry.parse, bind_eq_ok_iff]
  constructor
  · rintro ⟨e', he', h⟩
    split at h
    · rw [he', Except.ok.inj h]
    · cases h
  · intro h
    exact ⟨e, h, if_pos hmain⟩

/-- A section's header, before there is a section. -/
theorem parseLine_header (pre : List Text) (name : Text) :
    Entry.parseLine { preamble := pre, sections := [] } ('[' :: (name ++ [']'])) =
      .ok { preamble := pre, sections := [{ name := name, lines := [] }] } := by
  have hitem : itemOf ('[' :: (name ++ [']'])) = some (.header name) := itemOf_header
  rw [itemOf] at hitem
  rw [Entry.parseLine]
  -- The header starts the first section.
  cases hheader : header (trim ('[' :: (name ++ [']']))) with
  | some n =>
      rw [hheader] at hitem
      obtain rfl : n = name := by simpa using hitem
      rfl
  | none =>
      rw [hheader] at hitem
      simp only at hitem
      split at hitem <;> simp at hitem

/-- An entry is read again when the items behind its first header are. -/
theorem parse_render_iff_items {e : Entry} (he : Sound e) {sandbox : Text} (hname : OneLine sandbox)
    (hne : sandbox ≠ []) {name : Text} {its : List Item}
    (hits : e.sections.flatMap Section.items = .header name :: its) (hheader : '\n' ∉ name) :
    Entry.parse (e.render sandbox) = .ok e ↔
      (lines ((its.map Item.render).flatMap (· ++ ['\n']))).mapM itemOf = some its := by
  -- The marker lines, the comments, the first header, and the items behind it.
  have hrender : e.render sandbox =
      (generatorMarker :: (sandboxTag ++ sandbox) :: e.preamble).flatMap (· ++ ['\n']) ++
        (('[' :: (name ++ [']'])) ++ '\n' :: (its.map Item.render).flatMap (· ++ ['\n'])) := by
    have hlines : e.sections.flatMap Section.render =
        ('[' :: (name ++ [']'])) :: its.map Item.render := by
      rw [List.flatMap_congr fun s _ => render_items s, ← List.map_flatMap, hits]
      rfl
    rw [Entry.render, Entry.renderLines, hlines]
    simp only [List.flatMap_cons, List.flatMap_append, List.append_assoc, List.nil_append,
      List.cons_append]
  have hfront : ∀ l ∈ generatorMarker :: (sandboxTag ++ sandbox) :: e.preamble, '\n' ∉ l := by
    refine List.forall_mem_cons.mpr ⟨by decide, List.forall_mem_cons.mpr ⟨?_, fun t ht =>
      (he.preamble t ht).1.noNewline⟩⟩
    rw [List.mem_append, not_or]
    exact ⟨by decide, hname.noNewline⟩
  have hfirst : '\n' ∉ '[' :: (name ++ [']']) := by simpa using hheader
  -- The sections are made of their items, so these say it all.
  have hread : ∀ secs : List Section, secs.flatMap Section.items = .header name :: its ↔
      secs = its.foldl addItem [{ name := name, lines := [] }] := by
    intro secs
    constructor
    · intro h
      have := foldl_items [] secs
      rw [h] at this
      exact this.symm
    · rintro rfl
      rw [items_foldl (by simp)]
      rfl
  rw [parse_eq_ok_iff he.main, hrender, lines_flatMap_append hfront, lines_append hfirst,
    List.foldlM_append, foldlM_chomp, foldlM_preamble he hname hne]
  show (chomp ('[' :: (name ++ [']'])) :: _).foldlM Entry.parseLine _ = _ ↔ _
  rw [List.foldlM_cons, parseLine_chomp, parseLine_header]
  show List.foldlM Entry.parseLine { preamble := e.preamble, sections := [{ name := name, lines := [] }] } _ = _ ↔ _
  rw [foldlM_parseLine_eq_ok (by simp)]
  constructor
  · rintro ⟨its', hits', heq⟩
    have hsections := (hread e.sections).mp hits
    have hsame : its'.foldl addItem [{ name := name, lines := [] }] = e.sections :=
      (congrArg Entry.sections heq).symm
    have := congrArg (List.flatMap Section.items) hsame
    rw [items_foldl (by simp), hits] at this
    obtain rfl : its' = its := by simpa [Section.items] using this
    exact hits'
  · intro h
    refine ⟨its, h, ?_⟩
    show e = { preamble := e.preamble, sections := _ }
    rw [← (hread e.sections).mp hits]

/-- The item of a sound line, or of a section whose name is one line. -/
def Item.Sound : Item → Prop
  | .header name => '\n' ∉ name
  | .line l => l.Sound

def Item.Kept : Item → Prop
  | .header _ => True
  | .line l => l.Kept

theorem itemOf_render {it : Item} (h : it.Sound) :
    itemOf it.render = some it ∧ '\n' ∉ it.render ↔ it.Kept := by
  cases it with
  | header name =>
      have hname : '\n' ∉ name := h
      exact ⟨fun _ => trivial, fun _ => ⟨itemOf_header, by simpa [Item.render] using hname⟩⟩
  | line l => exact itemOf_render_line h

/-- Lines are read as the items they were written for exactly when each of these is kept: one of
more than one line would be read as more than one item. -/
theorem mapM_itemOf_iff {its : List Item} (h : ∀ it ∈ its, it.Sound) :
    (lines ((its.map Item.render).flatMap (· ++ ['\n']))).mapM itemOf = some its ↔
      ∀ it ∈ its, it.Kept := by
  constructor
  · intro hread
    -- One item for each line, so no line was cut in two.
    have hlength := length_of_mapM hread
    have hnewline : ∀ l ∈ its.map Item.render, '\n' ∉ l :=
      no_newline_of_length (by simp [← hlength])
    rw [lines_flatMap hnewline, mapM_chomp, mapM_eq_self] at hread
    intro it hit
    exact (itemOf_render (h it hit)).mp ⟨hread it hit, hnewline _ (List.mem_map_of_mem hit)⟩
  · intro hkept
    have hboth : ∀ it ∈ its, itemOf it.render = some it ∧ '\n' ∉ it.render :=
      fun it hit => (itemOf_render (h it hit)).mpr (hkept it hit)
    have hnewline : ∀ l ∈ its.map Item.render, '\n' ∉ l := by
      intro l hl
      obtain ⟨it, hit, rfl⟩ := List.mem_map.mp hl
      exact (hboth it hit).2
    rw [lines_flatMap hnewline, mapM_chomp, mapM_eq_self]
    exact fun it hit => (hboth it hit).1

/-- What is written of an entry is read as the same entry exactly when every value is one line
without white space at its ends. -/
theorem parse_render_iff {e : Entry} (he : Sound e) {sandbox : Text} (hname : OneLine sandbox)
    (hne : sandbox ≠ []) :
    Entry.parse (e.render sandbox) = .ok e ↔ ∀ s ∈ e.sections, ∀ l ∈ s.lines, l.Kept := by
  have hsound : ∀ it ∈ e.sections.flatMap Section.items, it.Sound := by
    intro it hit
    obtain ⟨s, hs, hit⟩ := List.mem_flatMap.mp hit
    rcases List.mem_cons.mp hit with rfl | hline
    · exact he.names s hs
    · obtain ⟨l, hl, rfl⟩ := List.mem_map.mp hline
      exact he.lines s hs l hl
  -- The sections are kept as their items are.
  have hkept : (∀ it ∈ e.sections.flatMap Section.items, it.Kept) ↔
      ∀ s ∈ e.sections, ∀ l ∈ s.lines, l.Kept := by
    constructor
    · intro h s hs l hl
      exact h (.line l) (List.mem_flatMap.mpr ⟨s, hs, List.mem_cons_of_mem _ (List.mem_map_of_mem hl)⟩)
    · intro h it hit
      obtain ⟨s, hs, hit⟩ := List.mem_flatMap.mp hit
      rcases List.mem_cons.mp hit with rfl | hline
      · exact trivial
      · obtain ⟨l, hl, rfl⟩ := List.mem_map.mp hline
        exact h s hs l hl
  cases hsections : e.sections with
  | nil =>
      have := he.main
      rw [hsections] at this
      cases this
  | cons s rest =>
      have hits : e.sections.flatMap Section.items =
          .header s.name :: (s.lines.map .line ++ rest.flatMap Section.items) := by
        rw [hsections, List.flatMap_cons, Section.items, List.cons_append]
      rw [parse_render_iff_items he hname hne hits (he.names s (by simp [hsections])), ← hsections,
        ← hkept, hits]
      rw [hits] at hsound
      rw [mapM_itemOf_iff fun it hit => hsound it (List.mem_cons_of_mem _ hit), List.forall_mem_cons]
      exact (and_iff_right trivial).symm

/-! ## Section 6: What Was Read Can Be Written -/

theorem noNewline_of_mem_lines {t l : Text} (hl : l ∈ lines t) : '\n' ∉ l := by
  -- Character by character.
  induction t generalizing l with
  | nil => cases hl
  | cons c t ih =>
      rw [lines] at hl
      split at hl
      · rcases List.mem_cons.mp hl with rfl | hl
        · simp
        · exact ih hl
      · rename_i hc
        split at hl
        · exact ih hl
        · split at hl
          · obtain rfl : l = [c] := by simpa using hl
            simpa using fun h => hc h.symm
          · rename_i hrest
            rcases List.mem_cons.mp hl with rfl | hl
            · have hhead := ih (l := _) (by rw [hrest]; exact List.mem_cons_self)
              simpa using ⟨fun h => hc h.symm, hhead⟩
            · exact ih (by rw [hrest]; exact List.mem_cons_of_mem _ hl)

theorem trim_sublist (t : Text) : (trim t).Sublist t :=
  (List.rdropWhile_prefix _ _).sublist.trans (List.dropWhile_sublist _)

theorem trimmed_trimStart {t : Text} (ht : ∀ c ∈ t.getLast?, ¬isWhitespace c) :
    Trimmed (trimStart t) := by
  refine ⟨dropWhile_eq_self.mp (List.dropWhile_idempotent _ _), fun c hc => ?_⟩
  obtain ⟨front, hfront⟩ := List.dropWhile_suffix (l := t) isWhitespace
  refine ht c ?_
  rw [← hfront, List.getLast?_append_of_ne_nil]
  · exact hc
  · rintro hnil
    rw [trimStart, hnil] at hc
    cases hc

theorem trimmed_trim (t : Text) : Trimmed (trim t) := by
  refine ⟨fun c hc => ?_, fun c hc => ?_⟩
  · obtain ⟨back, hback⟩ := List.rdropWhile_prefix isWhitespace (trimStart t)
    have hne : trim t ≠ [] := by
      rintro hnil
      rw [hnil] at hc
      cases hc
    have hhead : c ∈ (trimStart t).head? := by
      rw [← hback]
      exact (List.head?_append_of_ne_nil _ hne).trans hc
    exact dropWhile_eq_self.mp (List.dropWhile_idempotent _ _) c hhead
  · exact rdropWhile_eq_self.mp (List.rdropWhile_idempotent _ _) c hc

theorem oneLine_trim {raw : Text} (hraw : '\n' ∉ raw) : OneLine (trim raw) :=
  ⟨fun h => hraw ((trim_sublist raw).subset h), trimmed_trim raw⟩

theorem splitOnce_eq_some {c : Char} {t k v : Text} (h : splitOnce c t = some (k, v)) :
    t = k ++ c :: v ∧ c ∉ k :=
  breakAt_eq_some.mp h

/-- The start of a key is that of its line. -/
theorem head_trim {k v : Text} (hline : Trimmed (k ++ '=' :: v)) {c : Char}
    (hc : (trim k).head? = some c) : (k ++ '=' :: v).head? = some c := by
  have hstart : trimStart k = k := by
    rw [trimStart, dropWhile_eq_self]
    -- The key is not trimmed in front, as the line starts with it.
    cases k with
    | nil => simp
    | cons d k => simpa using hline.1
  obtain ⟨back, hback⟩ := List.rdropWhile_prefix isWhitespace (trimStart k)
  have hne : trim k ≠ [] := by
    rintro hnil
    rw [hnil] at hc
    cases hc
  have hk : k.head? = some c := by
    rw [← hstart, ← hback]
    exact (List.head?_append_of_ne_nil _ hne).trans hc
  rw [List.head?_append, hk]
  rfl

/-- A line that was read can be written, and its value is one line. -/
theorem sound_of_itemOf {raw : Text} {l : Line} (hraw : '\n' ∉ raw)
    (h : itemOf raw = some (.line l)) : l.Sound ∧ l.Kept := by
  have hone := oneLine_trim hraw
  rw [itemOf] at h
  generalize trim raw = line at h hone
  split at h
  · cases h
  · rename_i hheader
    split at h
    · rename_i hcomment
      cases h
      exact ⟨⟨hone, hcomment⟩, trivial⟩
    · rename_i hcomment
      obtain ⟨⟨k, v⟩, hsplit, hl⟩ := Option.map_eq_some_iff.mp h
      cases hl
      obtain ⟨rfl, hequals⟩ := splitOnce_eq_some hsplit
      -- The value ends the line, so its last character is the line's.
      have hlast : ∀ c ∈ v.getLast?, c ∈ (k ++ '=' :: v).getLast? := by
        intro c hc
        rw [List.getLast?_append_of_ne_nil _ (List.cons_ne_nil _ _), List.getLast?_cons,
          Option.mem_def.mp hc]
        rfl
      have hvalue : OneLine (trimStart v) := by
        refine ⟨fun hmem => hone.noNewline ?_,
          trimmed_trimStart fun c hc => hone.trimmed.2 c (hlast c hc)⟩
        have := (List.dropWhile_sublist isWhitespace).subset hmem
        simp [this]
      refine ⟨⟨⟨fun hmem => hone.noNewline ?_, trimmed_trim k⟩,
        fun hmem => hequals ((trim_sublist k).subset hmem), fun hhash => ?_, fun hbracket => ?_⟩, hvalue⟩
      · have := (trim_sublist k).subset hmem
        simp [this]
      · have := head_trim hone.trimmed hhash
        simp [isComment, this] at hcomment
      · refine ⟨hvalue, fun hend => ?_⟩
        obtain ⟨front, hfront⟩ := List.dropWhile_suffix (l := v) isWhitespace
        -- A bracket at both ends would have made it a header.
        have hvlast : v.getLast? = some ']' := by
          rw [← hfront, List.getLast?_append_of_ne_nil]
          · exact hend
          · rintro hnil
            rw [trimStart, hnil] at hend
            cases hend
        have hhead := head_trim hone.trimmed hbracket
        have hend := hlast ']' hvlast
        obtain ⟨rest, hrest⟩ : ∃ rest, k ++ '=' :: v = '[' :: rest := by
          rw [List.head?_eq_some_iff] at hhead
          exact hhead
        rw [hrest, header] at hheader
        rw [hrest, List.getLast?_cons] at hend
        cases hrestlast : rest.getLast? with
        | none => simp [hrestlast] at hend
        | some d =>
            have hd : d = ']' := by simpa [hrestlast] using hend
            simp [hrestlast, hd] at hheader

/-- What holds of an entry while it is read. -/
structure ReadSoFar (e : Entry) : Prop where
  preamble : ∀ t ∈ e.preamble, OneLine t ∧ isComment t ∧ t ≠ generatorMarker ∧ ¬sandboxTag <+: t
  names : ∀ s ∈ e.sections, '\n' ∉ s.name
  lines : ∀ s ∈ e.sections, ∀ l ∈ s.lines, l.Sound ∧ l.Kept

theorem name_of_header {t name : Text} (h : header t = some name) : ∀ c ∈ name, c ∈ t := by
  rw [header.eq_def] at h
  split at h
  · split at h
    · cases h
      exact fun c hc => List.mem_cons_of_mem _ ((List.dropLast_subset _ hc))
    · cases h
  · cases h

theorem readSoFar_addItem {e : Entry} (he : ReadSoFar e) {raw : Text} (hraw : '\n' ∉ raw) {it : Item}
    (hit : itemOf raw = some it) : ReadSoFar { e with sections := addItem e.sections it } := by
  cases it with
  | header name =>
      have hname : '\n' ∉ name := by
        rw [itemOf] at hit
        split at hit
        · rename_i hheader
          -- The name is between the brackets of one line.
          cases hit
          exact fun hmem => (oneLine_trim hraw).noNewline (name_of_header hheader _ hmem)
        · split at hit
          · cases hit
          · obtain ⟨_, _, h⟩ := Option.map_eq_some_iff.mp hit
            cases h
      refine ⟨he.preamble, fun s hs => ?_, fun s hs l hl => ?_⟩
      -- The section is new, or was there.
      · rcases List.mem_append.mp hs with hs | hs
        · exact he.names s hs
        · obtain rfl := List.mem_singleton.mp hs
          exact hname
      · rcases List.mem_append.mp hs with hs | hs
        · exact he.lines s hs l hl
        · obtain rfl := List.mem_singleton.mp hs
          cases hl
  | line l =>
      have hsound := sound_of_itemOf hraw hit
      rw [addItem]
      split
      · exact he
      · rename_i last hlast
        have hlast : last ∈ e.sections := List.mem_of_getLast? hlast
        refine ⟨he.preamble, fun s hs => ?_, fun s hs l' hl' => ?_⟩
        -- The line goes to the last section, or it was there.
        · rcases List.mem_append.mp hs with hs | hs
          · exact he.names s (List.dropLast_subset _ hs)
          · obtain rfl := List.mem_singleton.mp hs
            exact he.names last hlast
        · rcases List.mem_append.mp hs with hs | hs
          · exact he.lines s (List.dropLast_subset _ hs) l' hl'
          · obtain rfl := List.mem_singleton.mp hs
            rcases List.mem_append.mp hl' with hl' | hl'
            · exact he.lines last hlast l' hl'
            · obtain rfl := List.mem_singleton.mp hl'
              exact hsound

theorem readSoFar_parseLine {e e' : Entry} (he : ReadSoFar e) {raw : Text} (hraw : '\n' ∉ raw)
    (h : e.parseLine raw = .ok e') : ReadSoFar e' := by
  -- The first section, or one behind it.
  by_cases hne : e.sections = []
  · -- Before the first section, lines are comments.
    rw [Entry.parseLine, hne] at h
    cases hheader : header (trim raw) with
    | some name =>
        rw [hheader] at h
        obtain rfl := Except.ok.inj h
        have hitem : itemOf raw = some (.header name) := by
          rw [itemOf, hheader]
        have := readSoFar_addItem he hraw hitem
        rwa [addItem, hne] at this
    | none =>
        simp only [hheader, List.getLast?_nil] at h
        split at h
        · cases h
        · rename_i hcomment
          split at h
          · rename_i hother
            obtain rfl := Except.ok.inj h
            refine ⟨fun t ht => ?_, by simp, by simp⟩
            rcases List.mem_append.mp ht with ht | ht
            · exact he.preamble t ht
            · obtain rfl := List.mem_singleton.mp ht
              exact ⟨oneLine_trim hraw, by simpa using hcomment, hother⟩
          · obtain rfl := Except.ok.inj h
            exact he
  · obtain ⟨it, hit, rfl⟩ := (parseLine_eq_ok hne raw).mp h
    exact readSoFar_addItem he hraw hit

/-- An entry that was read can be written, and each of its values is one line. -/
theorem sound_of_parse {text : Text} {e : Entry} (h : Entry.parse text = .ok e) :
    Sound e ∧ ∀ s ∈ e.sections, ∀ l ∈ s.lines, l.Kept := by
  -- Line by line.
  have hfold : ∀ (ls : List Text) (e₀ : Entry), (∀ l ∈ ls, '\n' ∉ l) → ReadSoFar e₀ →
      ∀ e, ls.foldlM Entry.parseLine e₀ = .ok e → ReadSoFar e := by
    intro ls
    induction ls with
    | nil =>
        intro e₀ _ he₀ e h
        obtain rfl := Except.ok.inj h
        exact he₀
    | cons l ls ih =>
        intro e₀ hls he₀ e h
        obtain ⟨hl, hls⟩ := List.forall_mem_cons.mp hls
        rw [List.foldlM_cons] at h
        obtain ⟨e₁, he₁, h⟩ := bind_eq_ok_iff.mp h
        exact ih e₁ hls (readSoFar_parseLine he₀ hl he₁) e h
  obtain ⟨e', he', hmain⟩ := bind_eq_ok_iff.mp h
  split at hmain
  · rename_i hsection
    obtain rfl := Except.ok.inj hmain
    have hread := hfold (lines text) _ (fun l hl => noNewline_of_mem_lines hl)
      ⟨by simp, by simp, by simp⟩ e' he'
    exact ⟨⟨hread.preamble, hread.names, fun s hs l hl => (hread.lines s hs l hl).1, hsection⟩,
      fun s hs l hl => (hread.lines s hs l hl).2⟩
  · cases hmain

end Psbox.Desktop
