import Psbox.Desktop.Exec
import Psbox.Foundations.Fallible

/-!
# Exec Values Read by Both Rules

A reader of a desktop entry takes two rules to an `Exec` value: the escapes that every string
value has (`unescape`), and then the quoting rules. The code that splits and joins arguments
knows the second one only, so that the two readings part where an argument holds what has a
meaning for the first (`readExec_joinExec`, `carriedOver_iff`).
-/

namespace Psbox.Desktop

open Psbox.Foundations (toOption_eq_some bind_eq_ok_iff)

/-! ## Section 1: Reading by Both Rules -/

/-- The escapes of a string value. -/
def unescapeChar : Char → Option Char
  | 's' => some ' '
  | 'n' => some '\n'
  | 't' => some '\t'
  | 'r' => some '\r'
  | '\\' => some '\\'
  | _ => none

/-- A string value with an escape that there is not has no reading. -/
def unescape : Text → Option Text
  | [] => some []
  -- A backslash at the end escapes nothing.
  | ['\\'] => none
  | '\\' :: c :: rest => do
      let d ← unescapeChar c
      let out ← unescape rest
      some (d :: out)
  | c :: rest => (unescape rest).map (c :: ·)

/-- A value ends with its line. -/
def line (value : Text) : Text :=
  value.takeWhile (· ≠ '\n')

/-- The arguments of an `Exec` value by the general escapes and then the quoting rules. -/
def readExec (value : Text) : Option (List Text) := do
  let v ← unescape (line value)
  (splitExec v).toOption

/-- No character is written with an escape that a string value does not have. -/
def Tame (a : Text) : Prop :=
  ∀ c ∈ a, c ∉ ['"', '`', '$', '\n']

/-- No backslash stands before another, or at the end. -/
def SingleBackslashes : Text → Prop
  | [] => True
  | ['\\'] => False
  | '\\' :: c :: rest => c ≠ '\\' ∧ SingleBackslashes rest
  | _ :: rest => SingleBackslashes rest

/-- An argument that quoting alone is enough for. -/
def Plain (a : Text) : Prop :=
  Tame a ∧ SingleBackslashes a

theorem unescape_cons {c : Char} (hc : c ≠ '\\') (t : Text) :
    unescape (c :: t) = (unescape t).map (c :: ·) := by
  cases t <;> simp [unescape, hc]

theorem line_cons {c : Char} (hc : c ≠ '\n') (t : Text) : line (c :: t) = c :: line t := by
  simp [line, hc]

theorem unescape_backslash (t : Text) :
    unescape ('\\' :: '\\' :: t) = (unescape t).map ('\\' :: ·) := by
  cases h : unescape t <;> simp [unescape, unescapeChar, h]

theorem Tame.cons {c : Char} {a : Text} (ha : Tame a) (hc : c ∉ ['"', '`', '$', '\n']) :
    Tame (c :: a) :=
  List.forall_mem_cons.mpr ⟨hc, ha⟩

theorem Tame.of_cons {c : Char} {a : Text} (h : Tame (c :: a)) : Tame a :=
  fun d hd => h d (List.mem_cons_of_mem _ hd)

theorem Tame.not_special {c : Char} {rest : Text} (h : Tame (c :: rest)) (hc : c ≠ '\\') :
    c ∉ quotedSpecial := by
  have := h c List.mem_cons_self
  simp only [quotedSpecial, List.mem_cons, List.not_mem_nil, or_false] at this ⊢
  tauto

theorem Tame.ne_quote {c : Char} {rest : Text} (h : Tame (c :: rest)) : c ≠ '"' := by
  rintro rfl
  exact h '"' List.mem_cons_self (by decide)

/-- The general escapes undo the quoting's, where only backslashes were escaped. -/
theorem unescape_tame {x : Text} (hx : Tame x) (t : Text) :
    unescape (line (x.flatMap quoteChar ++ t)) = (unescape (line t)).map (x ++ ·) := by
  induction x with
  | nil => simp
  -- A backslash was escaped by the quotes, every other character is itself.
  | cons c x ih =>
      rw [List.flatMap_cons, List.append_assoc, quoteChar]
      by_cases hbackslash : c = '\\'
      · subst hbackslash
        rw [if_pos (by decide), List.cons_append, List.cons_append, List.nil_append,
          line_cons (by decide), line_cons (by decide), unescape_backslash, ih hx.of_cons]
        simp [Function.comp_def]
      · have hnewline : c ≠ '\n' := by
          rintro rfl
          exact hx '\n' List.mem_cons_self (by decide)
        rw [if_neg (hx.not_special hbackslash), List.cons_append, List.nil_append,
          line_cons hnewline, unescape_cons hbackslash, ih hx.of_cons]
        simp [Function.comp_def]

/-- Otherwise the value has no reading, or ends with its line, within the quotes. -/
theorem no_quote_of_not_tame {x t u : Text} (hx : ¬Tame x)
    (h : unescape (line (x.flatMap quoteChar ++ t)) = some u) : '"' ∉ u := by
  -- The first character that is not tame decides.
  induction x generalizing u with
  | nil => exact absurd (by simp [Tame]) hx
  | cons c x ih =>
      rw [List.flatMap_cons, List.append_assoc, quoteChar] at h
      by_cases hbackslash : c = '\\'
      · subst hbackslash
        rw [if_pos (by decide), List.cons_append, List.cons_append, List.nil_append,
          line_cons (by decide), line_cons (by decide), unescape_backslash] at h
        obtain ⟨u, hu, rfl⟩ := Option.map_eq_some_iff.mp h
        have := ih (fun htame => hx (htame.cons (by decide))) hu
        simpa using this
      -- An escape that a string value does not have.
      by_cases hspecial : c ∈ quotedSpecial
      · rw [if_pos hspecial, List.cons_append, List.cons_append, List.nil_append,
          line_cons (by decide)] at h
        simp only [quotedSpecial, List.mem_cons, List.not_mem_nil, or_false] at hspecial
        rcases hspecial with rfl | rfl | rfl | rfl <;>
          simp [line, unescape, unescapeChar] at h hbackslash
      rw [if_neg hspecial, List.cons_append, List.nil_append] at h
      -- The value ends where its line does.
      by_cases hnewline : c = '\n'
      · subst hnewline
        obtain rfl : u = [] := by simpa [line, unescape] using h.symm
        exact List.not_mem_nil
      · rw [line_cons hnewline, unescape_cons hbackslash] at h
        obtain ⟨u, hu, rfl⟩ := Option.map_eq_some_iff.mp h
        simp only [quotedSpecial, List.mem_cons, List.not_mem_nil, or_false, not_or] at hspecial
        have htame : c ∉ ['"', '`', '$', '\n'] := by
          simp [hspecial, hnewline]
        have := ih (fun htame' => hx (htame'.cons htame)) hu
        simp [this, Ne.symm hspecial.1]

/-! ## Section 2: Where the Two Readings Part -/

theorem splitQuoted_backslash (args : List Text) (cur : Text) (e : Char) (rest : Text) :
    splitQuoted args cur ('\\' :: e :: rest) =
      if e ∈ quotedSpecial then splitQuoted args (cur ++ [e]) rest
      else splitQuoted args (cur ++ ['\\', e]) rest := by
  rw [splitQuoted]

theorem splitQuoted_cons {c : Char} (hc : c ≠ '\\') (args : List Text) (cur rest : Text) :
    splitQuoted args cur (c :: rest) =
      if c = '"' then splitPlain args cur true rest
      else splitQuoted args (cur ++ [c]) rest := by
  cases rest <;> simp [splitQuoted, hc]

mutual

/-- What was read stays, and an argument only grows. -/
theorem splitPlain_extends (args : List Text) (cur : Text) (hasCur : Bool) :
    ∀ (t : Text) (ys : List Text), splitPlain args cur hasCur t = .ok ys →
      ∃ zs, ys = args ++ zs ∧ (hasCur → ∃ y rest, zs = y :: rest ∧ cur <+: y)
  -- By recursion along the text, in both states of the reader.
  | [], ys, h => by
      rw [splitPlain] at h
      cases hasCur with
      | false => exact ⟨[], by simpa using h.symm, by simp⟩
      | true => exact ⟨[cur], by simpa using h.symm, fun _ => ⟨cur, [], rfl, List.prefix_rfl⟩⟩
  | c :: rest, ys, h => by
      rw [splitPlain] at h
      split at h
      · obtain ⟨y, zs, rfl, hy⟩ := splitQuoted_extends args cur rest ys h
        exact ⟨y :: zs, rfl, fun _ => ⟨y, zs, rfl, hy⟩⟩
      split at h
      · split at h
        · obtain ⟨zs, rfl, _⟩ := splitPlain_extends (args ++ [cur]) [] false rest ys h
          exact ⟨cur :: zs, by simp, fun _ => ⟨cur, zs, rfl, List.prefix_rfl⟩⟩
        · rename_i hcur
          obtain ⟨zs, rfl, _⟩ := splitPlain_extends args cur false rest ys h
          exact ⟨zs, rfl, fun htrue => absurd htrue hcur⟩
      · obtain ⟨zs, rfl, hzs⟩ := splitPlain_extends args (cur ++ [c]) true rest ys h
        obtain ⟨y, zs, rfl, hy⟩ := hzs rfl
        exact ⟨y :: zs, rfl, fun _ => ⟨y, zs, rfl, (List.prefix_append cur [c]).trans hy⟩⟩

theorem splitQuoted_extends (args : List Text) (cur : Text) :
    ∀ (t : Text) (ys : List Text), splitQuoted args cur t = .ok ys →
      ∃ y zs, ys = args ++ y :: zs ∧ cur <+: y
  | [], ys, h => by simp [splitQuoted] at h
  | c :: rest, ys, h => by
      -- An escape in the quotes, or a character of its own.
      by_cases hc : c = '\\'
      · subst hc
        match rest, h with
        | [], h => simp [splitQuoted] at h
        | e :: rest, h =>
            rw [splitQuoted_backslash] at h
            split at h
            all_goals
              obtain ⟨y, zs, rfl, hy⟩ := splitQuoted_extends args _ rest ys h
              exact ⟨y, zs, rfl, (List.prefix_append cur _).trans hy⟩
      · rw [splitQuoted_cons hc] at h
        split at h
        · obtain ⟨zs, rfl, hzs⟩ := splitPlain_extends args cur true rest ys h
          obtain ⟨y, zs, rfl, hy⟩ := hzs rfl
          exact ⟨y, zs, rfl, hy⟩
        · obtain ⟨y, zs, rfl, hy⟩ := splitQuoted_extends args (cur ++ [c]) rest ys h
          exact ⟨y, zs, rfl, (List.prefix_append cur [c]).trans hy⟩

end

/-- Along a text that may hold escapes. -/
@[elab_as_elim]
theorem backslash_induction {P : Text → Prop} (nil : P []) (lone : P ['\\'])
    (escape : ∀ e rest, P rest → P ('\\' :: e :: rest))
    (other : ∀ c rest, c ≠ '\\' → P rest → P (c :: rest)) (t : Text) : P t := by
  -- A backslash takes the next character with it.
  induction t using SingleBackslashes.induct with
  | case1 => exact nil
  | case2 => exact lone
  | case3 e rest ih => exact escape e rest ih
  | case4 c rest hnil hcons ih =>
      refine other c rest ?_ ih
      rintro rfl
      cases rest with
      | nil => exact hnil rfl rfl
      | cons e rest => exact hcons e rest rfl rfl

theorem singleBackslashes_cons {c : Char} (hc : c ≠ '\\') (rest : Text) :
    SingleBackslashes (c :: rest) ↔ SingleBackslashes rest := by
  cases rest <;> simp [SingleBackslashes, hc]

/-- Without a quote to end it, a quoted argument has no reading. -/
theorem splitQuoted_of_no_quote (t : Text) (hquote : '"' ∉ t) (args : List Text) (cur : Text)
    (ys : List Text) : splitQuoted args cur t ≠ .ok ys := by
  induction t using backslash_induction generalizing cur with
  | nil => simp [splitQuoted]
  | lone => simp [splitQuoted]
  -- The escaped character is no end of the quotes.
  | escape e rest ih =>
      have hrest : '"' ∉ rest := fun h => hquote (by simp [h])
      rw [splitQuoted_backslash]
      split
      · exact ih hrest _
      · exact ih hrest _
  | other c rest hc ih =>
      obtain ⟨hne, hrest⟩ : '"' ≠ c ∧ '"' ∉ rest := by simpa using hquote
      rw [splitQuoted_cons hc, if_neg hne.symm]
      exact ih hrest _

/-- An argument that quoting alone is enough for is read as it is. -/
theorem splitQuoted_plain (w : Text) (htame : Tame w) (hsingle : SingleBackslashes w)
    (args : List Text) (cur v : Text) :
    splitQuoted args cur (w ++ '"' :: v) = splitPlain args (cur ++ w) true v := by
  induction w using backslash_induction generalizing cur with
  | nil => simp [splitQuoted]
  | lone => simp [SingleBackslashes] at hsingle
  -- A lone backslash is written twice, and read as one by each rule.
  | escape e rest ih =>
      obtain ⟨he, hsingle⟩ := hsingle
      have hrest := ih htame.of_cons.of_cons hsingle (cur ++ ['\\', e])
      rw [List.cons_append, List.cons_append, splitQuoted_backslash,
        if_neg (htame.of_cons.not_special he), hrest]
      simp
  | other c rest hc ih =>
      have hrest := ih htame.of_cons ((singleBackslashes_cons hc rest).mp hsingle) (cur ++ [c])
      rw [List.cons_append, splitQuoted_cons hc, if_neg htame.ne_quote, hrest]
      simp

section Quoted

variable {args ys : List Text} {v : Text}

/-- What stands behind an argument. -/
def Behind (v : Text) : Prop :=
  v = [] ∨ ∃ rest, v = ' ' :: rest

theorem ne_of_prefix {p y : Text} {c d : Char} (hy : p ++ [c] <+: y) (hcd : c ≠ d) (rest : Text) :
    y ≠ p ++ d :: rest := by
  rintro rfl
  obtain ⟨t, ht⟩ := hy
  simp at ht
  exact hcd ht.1

theorem replicate_append_cons {α : Type*} (k : Nat) (a : α) (l : List α) :
    List.replicate k a ++ a :: l = a :: (List.replicate k a ++ l) := by
  rw [← List.cons_append, ← List.replicate_succ, List.replicate_succ', List.append_assoc]
  rfl

/-- Once a backslash is lost, what is read falls behind for good: it never again comes to what
was written, which is ahead by a backslash and `k` more. -/
theorem splitQuoted_behind (hv : Behind v) (w : Text) (htame : Tame w) (cur : Text) (k : Nat)
    (h : splitQuoted args cur (w ++ '"' :: v) = .ok ys) :
    ∃ y zs, ys = args ++ y :: zs ∧ y ≠ cur ++ '\\' :: (List.replicate k '\\' ++ w) := by
  -- Once behind, whatever is read next keeps it so.
  induction w using backslash_induction generalizing cur k with
  | nil =>
      rw [List.nil_append, splitQuoted_cons (by decide), if_pos rfl] at h
      rcases hv with rfl | ⟨rest, rfl⟩
      · rw [splitPlain, if_pos rfl] at h
        cases h
        exact ⟨cur, [], rfl, by simp⟩
      · rw [splitPlain, if_neg (by decide), if_pos (by decide), if_pos rfl] at h
        obtain ⟨zs, rfl, _⟩ := splitPlain_extends _ _ _ _ _ h
        exact ⟨cur, zs, by simp, by simp⟩
  | lone =>
      rw [List.cons_append, List.nil_append, splitQuoted_backslash, if_pos (by decide)] at h
      obtain ⟨y, zs, rfl, hy⟩ := splitQuoted_extends _ _ _ _ h
      exact ⟨y, zs, rfl, ne_of_prefix hy (by decide) _⟩
  -- An escape is read as one character by both, or as two.
  | escape e rest ih =>
      rw [List.cons_append, List.cons_append, splitQuoted_backslash] at h
      rw [replicate_append_cons]
      by_cases he : e = '\\'
      · -- Of two backslashes one is read, so that what was written is ahead by one more.
        subst he
        rw [if_pos (by decide)] at h
        obtain ⟨y, zs, rfl, hy⟩ := ih htame.of_cons.of_cons (cur ++ ['\\']) (k + 1) h
        refine ⟨y, zs, rfl, ?_⟩
        rw [replicate_append_cons]
        simpa [List.replicate_succ] using hy
      · rw [if_neg (htame.of_cons.not_special he)] at h
        obtain ⟨y, zs, rfl, hy⟩ := splitQuoted_extends _ _ _ _ h
        refine ⟨y, zs, rfl, ?_⟩
        have hy' : (cur ++ ['\\']) ++ [e] <+: y := by simpa using hy
        simpa using ne_of_prefix hy' he (List.replicate k '\\' ++ e :: rest)
  | other c rest hc ih =>
      rw [List.cons_append, splitQuoted_cons hc, if_neg htame.ne_quote] at h
      obtain ⟨y, zs, rfl, hy⟩ := splitQuoted_extends _ _ _ _ h
      exact ⟨y, zs, rfl, ne_of_prefix hy hc _⟩

/-- An argument that quoting alone is not enough for is read as another. -/
theorem splitQuoted_parts (hv : Behind v) (w : Text) (htame : Tame w)
    (hsingle : ¬SingleBackslashes w) (cur : Text)
    (h : splitQuoted args cur (w ++ '"' :: v) = .ok ys) :
    ∃ y zs, ys = args ++ y :: zs ∧ y ≠ cur ++ w ∧
      ∃ p, cur ++ p ++ ['"', ' '] <+: y ∨ cur ++ p ++ ['\\'] <+: y ∧ p.length + 2 ≤ w.length := by
  induction w using backslash_induction generalizing cur with
  | nil => exact absurd trivial hsingle
  -- A backslash at the end escapes the quote.
  | lone =>
      rw [List.cons_append, List.nil_append, splitQuoted_backslash, if_pos (by decide)] at h
      rcases hv with rfl | ⟨rest, rfl⟩
      · simp [splitQuoted] at h
      · rw [splitQuoted_cons (by decide), if_neg (by decide)] at h
        obtain ⟨y, zs, rfl, hy⟩ := splitQuoted_extends _ _ _ _ h
        refine ⟨y, zs, rfl, ?_, [], Or.inl (by simpa using hy)⟩
        exact ne_of_prefix ((List.prefix_append _ [' ']).trans hy) (by decide) _
  | escape e rest ih =>
      rw [List.cons_append, List.cons_append, splitQuoted_backslash] at h
      by_cases he : e = '\\'
      · subst he
        rw [if_pos (by decide)] at h
        obtain ⟨y, zs, hys, hy⟩ := splitQuoted_behind hv rest htame.of_cons.of_cons _ 0 h
        obtain ⟨y', zs', hys', hstart⟩ := splitQuoted_extends _ _ _ _ h
        obtain ⟨rfl, rfl⟩ : y = y' ∧ zs = zs' := by simpa [hys] using hys'
        exact ⟨y, zs, hys, by simpa using hy, [], Or.inr ⟨by simpa using hstart, by simp⟩⟩
      · rw [if_neg (htame.of_cons.not_special he)] at h
        -- The two backslashes are further on.
        have hrest : ¬SingleBackslashes rest := fun hrest => hsingle ⟨he, hrest⟩
        obtain ⟨y, zs, rfl, hy, p, hp⟩ := ih htame.of_cons.of_cons hrest _ h
        refine ⟨y, zs, rfl, by simpa using hy, '\\' :: e :: p, ?_⟩
        refine hp.imp (fun hp => by simpa using hp) fun ⟨hstart, hlength⟩ => ?_
        have hlonger : ('\\' :: e :: p).length + 2 ≤ ('\\' :: e :: rest).length :=
          Nat.add_le_add_right hlength 2
        exact ⟨by simpa using hstart, hlonger⟩
  | other c rest hc ih =>
      rw [List.cons_append, splitQuoted_cons hc, if_neg htame.ne_quote] at h
      have hrest : ¬SingleBackslashes rest := fun hrest =>
        hsingle ((singleBackslashes_cons hc rest).mpr hrest)
      obtain ⟨y, zs, rfl, hy, p, hp⟩ := ih htame.of_cons hrest _ h
      refine ⟨y, zs, rfl, by simpa using hy, c :: p, ?_⟩
      exact hp.imp (fun hp => by simpa using hp) fun hp => by simpa using hp

end Quoted

/-! ## Section 3: Reading What Was Joined -/

/-- Reads a value by both rules, with arguments that were read before. -/
def readFrom (args : List Text) (value : Text) : Option (List Text) := do
  let v ← unescape (line value)
  (splitPlain args [] false v).toOption

/-- Reads on behind an argument. -/
def readBehind (args : List Text) (cur : Text) (value : Text) : Option (List Text) := do
  let v ← unescape (line value)
  (splitPlain args cur true v).toOption

theorem plain_of_unquoted {x : Text} (hx : ∀ c ∈ x, c ∉ needsQuotes) : Plain x := by
  -- Outside quotes there is no backslash at all.
  have hbackslash : ∀ c ∈ x, c ≠ '\\' := by
    rintro c hc rfl
    exact hx _ hc (by decide)
  constructor
  · intro c hc hspecial
    refine hx c hc ?_
    revert hspecial
    simp only [needsQuotes, List.mem_cons, List.not_mem_nil, or_false]
    tauto
  · clear hx
    -- Without a backslash there are no two of them.
    induction x with
    | nil => exact trivial
    | cons c x ih =>
        rw [singleBackslashes_cons (hbackslash c List.mem_cons_self)]
        exact ih fun d hd => hbackslash d (List.mem_cons_of_mem _ hd)

theorem unescape_quote (t : Text) :
    unescape (line ('"' :: t)) = (unescape (line t)).map ('"' :: ·) := by
  rw [line_cons (by decide), unescape_cons (by decide)]

/-- What is put in quotes, and what is not. -/
theorem quoteArg_eq (x : Text) :
    quoteArg x = '"' :: (x.flatMap quoteChar ++ ['"']) ∨
      quoteArg x = x.flatMap quoteChar ∧ x ≠ [] ∧ ∀ c ∈ x, c ∉ needsQuotes := by
  rw [quoteArg]
  split
  · exact Or.inl rfl
  · rename_i h
    rw [not_or] at h
    -- What needs no quotes is written as it is.
    have hplain : ∀ c ∈ x, c ∉ needsQuotes := fun c hc hneeds => h.2 ⟨c, hc, hneeds⟩
    refine Or.inr ⟨?_, h.1, hplain⟩
    have hchar : ∀ c ∈ x, quoteChar c = [c] := by
      intro c hc
      refine if_neg fun hspecial => hplain c hc ?_
      revert hspecial
      simp only [quotedSpecial, needsQuotes, List.mem_cons, List.not_mem_nil, or_false]
      tauto
    rw [List.flatMap_congr hchar, List.flatMap_singleton']

theorem readFrom_plain {x : Text} (hx : Plain x) (args : List Text) (t : Text) :
    readFrom args (quoteArg x ++ t) = readBehind args x t := by
  rw [readFrom, readBehind]
  -- In quotes or not.
  rcases quoteArg_eq x with hquoted | ⟨hquoted, hne, hneeds⟩
  · have hvalue : unescape (line (quoteArg x ++ t)) =
        (unescape (line t)).map fun v => '"' :: (x ++ '"' :: v) := by
      rw [hquoted, List.cons_append, List.append_assoc, unescape_quote, unescape_tame hx.1,
        List.singleton_append, unescape_quote]
      simp [Function.comp_def]
    rw [hvalue]
    cases unescape (line t) with
    | none => rfl
    | some v =>
        have hsplit := splitQuoted_plain x hx.1 hx.2 args [] v
        show (splitPlain args [] false ('"' :: (x ++ '"' :: v))).toOption = _
        rw [splitPlain, if_pos rfl, hsplit]
        rfl
  · rw [hquoted, unescape_tame hx.1]
    cases unescape (line t) with
    | none => rfl
    | some v =>
        show (splitPlain args [] false (x ++ v)).toOption = _
        rw [splitPlain_unquoted hne hneeds]
        rfl

/-- An argument, as it is read at the place of `x`, which it is not. Nor is it a field code that
could stand there. -/
def Mistaken (x y : Text) : Prop :=
  y ≠ x ∧ (isFieldCode y → ¬Plain y ∧ ¬isFieldCode x)

theorem length_le_utf8 (a : Text) : a.length ≤ (a.map Char.utf8Size).sum := by
  -- A character has a byte at least.
  induction a with
  | nil => exact Nat.zero_le _
  | cons c a ih =>
      have := Char.utf8Size_pos c
      simp only [List.length_cons, List.map_cons, List.sum_cons]
      omega

theorem isFieldCode_shape {a : Text} (h : isFieldCode a) : a.length ≤ 2 ∧ a.head? = some '%' := by
  simp only [isFieldCode, Bool.and_eq_true, beq_iff_eq] at h
  exact ⟨h.1 ▸ length_le_utf8 a, h.2⟩

theorem mistaken_of_parts {x y p : Text} (hne : y ≠ x)
    (hp : p ++ ['"', ' '] <+: y ∨ p ++ ['\\'] <+: y ∧ p.length + 2 ≤ x.length) :
    Mistaken x y := by
  refine ⟨hne, fun hfield => ?_⟩
  obtain ⟨hlength, hhead⟩ := isFieldCode_shape hfield
  rcases hp with ⟨r, rfl⟩ | ⟨⟨r, rfl⟩, hx⟩
  -- What is read starts otherwise, or is longer than a field code.
  · cases p with
    | nil => simp at hhead
    | cons c p =>
        simp only [List.length_append, List.length_cons] at hlength
        omega
  · match p with
    | [] => simp at hhead
    | [c] =>
        obtain rfl : c = '%' := by simpa using hhead
        obtain rfl : r = [] := by
          refine List.eq_nil_of_length_eq_zero ?_
          simp only [List.length_append, List.length_cons, List.length_nil] at hlength
          omega
        refine ⟨fun hplain => hplain.2, fun hfield => ?_⟩
        have := (isFieldCode_shape hfield).1
        simp only [List.length_cons, List.length_nil] at hx
        omega
    | c :: d :: p =>
        simp only [List.length_append, List.length_cons] at hlength
        omega

theorem behind_unescape {t v : Text} (ht : Behind t) (h : unescape (line t) = some v) :
    Behind v := by
  -- Behind an argument there is a blank or nothing.
  rcases ht with rfl | ⟨rest, rfl⟩
  · obtain rfl : v = [] := by simpa [line, unescape] using h.symm
    exact Or.inl rfl
  · rw [line_cons (by decide), unescape_cons (by decide)] at h
    obtain ⟨w, _, rfl⟩ := Option.map_eq_some_iff.mp h
    exact Or.inr ⟨w, rfl⟩

theorem readFrom_not_plain {x : Text} (hx : ¬Plain x) {args ys : List Text} {t : Text}
    (ht : Behind t) (h : readFrom args (quoteArg x ++ t) = some ys) :
    ∃ y zs, ys = args ++ y :: zs ∧ Mistaken x y := by
  rcases quoteArg_eq x with hquoted | ⟨_, _, hneeds⟩
  · rw [readFrom, hquoted, List.cons_append, List.append_assoc, unescape_quote,
      List.singleton_append] at h
    obtain ⟨u, hu, hsplit⟩ := Option.bind_eq_some_iff.mp h
    obtain ⟨u, hu', rfl⟩ := Option.map_eq_some_iff.mp hu
    rw [splitPlain, if_pos rfl, toOption_eq_some] at hsplit
    -- It is refused for an escape that there is not, or read with backslashes lost.
    by_cases htame : Tame x
    · rw [unescape_tame htame, unescape_quote, Option.map_map] at hu'
      obtain ⟨v, hv, rfl⟩ := Option.map_eq_some_iff.mp hu'
      have hsingle : ¬SingleBackslashes x := fun hsingle => hx ⟨htame, hsingle⟩
      obtain ⟨y, zs, hys, hne, p, hp⟩ :=
        splitQuoted_parts (behind_unescape ht hv) x htame hsingle [] hsplit
      exact ⟨y, zs, hys, mistaken_of_parts hne hp⟩
    · exact absurd hsplit (splitQuoted_of_no_quote u (no_quote_of_not_tame htame hu') _ _ _)
  · exact absurd (plain_of_unquoted hneeds) hx

theorem readBehind_nil (args : List Text) (x : Text) : readBehind args x [] = some (args ++ [x]) := by
  simp [readBehind, line, unescape, splitPlain, Except.toOption]

theorem readBehind_space (args : List Text) (x t : Text) :
    readBehind args x (' ' :: t) = readFrom (args ++ [x]) t := by
  rw [readBehind, readFrom, line_cons (by decide), unescape_cons (by decide)]
  cases unescape (line t) with
  | none => rfl
  | some v =>
      show (splitPlain args x true (' ' :: v)).toOption = _
      rw [splitPlain, if_neg (by decide), if_pos (by decide), if_pos rfl]
      rfl

theorem readFrom_nil (args : List Text) : readFrom args [] = some args := by
  simp [readFrom, line, unescape, splitPlain, Except.toOption]

/-- Arguments that quoting is enough for are read one for one. -/
theorem readFrom_joinExec_plain (l : List Text) (hl : ∀ a ∈ l, Plain a) (args : List Text) :
    readFrom args (joinExec l) = some (args ++ l) := by
  -- Argument by argument.
  induction l generalizing args with
  | nil => simpa [joinExec] using readFrom_nil args
  | cons a l ih =>
      obtain ⟨ha, hl⟩ := List.forall_mem_cons.mp hl
      cases l with
      | nil =>
          have h := readFrom_plain ha args []
          rw [List.append_nil, readBehind_nil] at h
          exact h
      | cons b l =>
          rw [joinExec, readFrom_plain ha, readBehind_space, ih hl (args ++ [a])]
          simp

/-- What is read of joined arguments: they are, up to the first that quoting is not enough for. -/
theorem readFrom_joinExec {l args ys : List Text} (h : readFrom args (joinExec l) = some ys) :
    (∀ a ∈ l, Plain a) ∨
      ∃ pre x post y zs, l = pre ++ x :: post ∧ (∀ a ∈ pre, Plain a) ∧ ¬Plain x ∧
        ys = args ++ pre ++ y :: zs ∧ Mistaken x y := by
  -- The first argument that is not plain is the one that is mistaken.
  induction l generalizing args with
  | nil => exact Or.inl (by simp)
  | cons a l ih =>
      obtain ⟨t, ht, hjoin⟩ : ∃ t, Behind t ∧ joinExec (a :: l) = quoteArg a ++ t := by
        cases l with
        | nil => exact ⟨[], Or.inl rfl, by simp [joinExec]⟩
        | cons b l => exact ⟨_, Or.inr ⟨_, rfl⟩, rfl⟩
      -- This one is read as it is, so one behind it is mistaken.
      by_cases ha : Plain a
      · cases l with
        | nil => exact Or.inl (by simpa using ha)
        | cons b l =>
            rw [joinExec, readFrom_plain ha, readBehind_space] at h
            rcases ih h with hl | ⟨pre, x, post, y, zs, hl, hpre, hx, hys, hne⟩
            · exact Or.inl (List.forall_mem_cons.mpr ⟨ha, hl⟩)
            · refine Or.inr ⟨a :: pre, x, post, y, zs, by rw [hl]; rfl, ?_, hx, ?_, hne⟩
              · exact List.forall_mem_cons.mpr ⟨ha, hpre⟩
              · simpa using hys
      · rw [hjoin] at h
        obtain ⟨y, zs, hys, hne⟩ := readFrom_not_plain ha ht h
        exact Or.inr ⟨[], a, l, y, zs, rfl, by simp, ha, by simpa using hys, hne⟩

/-- Joined arguments are read back exactly when quoting is enough for each of them. -/
theorem readExec_joinExec (l : List Text) :
    readExec (joinExec l) = some l ↔ ∀ a ∈ l, Plain a := by
  refine ⟨fun h => ?_, fun h => readFrom_joinExec_plain l h []⟩
  rcases @readFrom_joinExec _ [] _ h with hplain | ⟨pre, x, post, y, zs, hl, _, _, hys, hne, _⟩
  · exact hplain
  · rw [hl, List.nil_append] at hys
    simp only [List.append_cancel_left_eq, List.cons.injEq] at hys
    exact absurd hys.1.symm hne

/-! ## Section 4: The Lines That Are Written -/

/-- The arguments of a launch. -/
def Launch.args : Launch → List Text
  | .command args => args
  | .exec args => args

/-- Whatever arguments are removed, the line written in place of `value` is read as the host's
line is, behind the command. -/
def CarriedOver (t : Target) (value : Text) : Prop :=
  ∀ removeArgs written args launch, t.rewritten value removeArgs = .ok written →
    readExec value = some args → classify args removeArgs = .ok launch →
      readExec written = some (t.command ++ launch.argv)

/-- The quoting rules alone make the same command line of `value` as both rules do, and are
enough for its arguments and the command. -/
def SameLaunch (t : Target) (value : Text) : Prop :=
  ∀ args args' launch launch', splitExec value = .ok args → readExec value = some args' →
    classify args [] = .ok launch → classify args' [] = .ok launch' →
      launch = launch' ∧ ∀ a ∈ t.command ++ launch.args, Plain a

/-- A launch without the arguments to be removed. -/
def Launch.without (removeArgs : List Text) : Launch → Launch
  | .command args => .command (args.filter (keep removeArgs))
  | .exec args => .exec (args.filter (keep removeArgs))

theorem filter_keep_nil (l : List Text) : l.filter (keep []) = l :=
  List.filter_eq_self.mpr fun a _ => by simp [keep]

theorem classify_without (args removeArgs : List Text) :
    classify args removeArgs = (classify args []).map (Launch.without removeArgs) := by
  cases args with
  | nil => rfl
  | cons program rest =>
      simp only [classify, filter_keep_nil]
      split <;> rfl

theorem rewritten_eq_ok {t : Target} {value written : Text} {removeArgs : List Text} :
    t.rewritten value removeArgs = .ok written ↔
      ∃ args launch, splitExec value = .ok args ∧ classify args removeArgs = .ok launch ∧
        written = joinExec (t.command ++ launch.argv) := by
  simp only [Target.rewritten, launchFor, bind_eq_ok_iff, Except.ok.injEq]
  constructor
  · rintro ⟨launch, ⟨args, hargs, hlaunch⟩, rfl⟩
    exact ⟨args, launch, hargs, hlaunch, rfl⟩
  · rintro ⟨args, launch, hargs, hlaunch, rfl⟩
    exact ⟨launch, ⟨args, hargs, hlaunch⟩, rfl⟩

/-- What joined arguments are read as behind some that they start with. -/
theorem readExec_behind {p l l' : List Text} (h : readExec (joinExec (p ++ l)) = some (p ++ l')) :
    (∀ a ∈ p, Plain a) ∧
      ((∀ a ∈ l, Plain a) ∧ l = l' ∨
        ∃ pre x post y zs, l = pre ++ x :: post ∧ (∀ a ∈ pre, Plain a) ∧ ¬Plain x ∧
          l' = pre ++ y :: zs ∧ Mistaken x y) := by
  rcases @readFrom_joinExec _ [] _ h with hplain | ⟨pre, x, post, y, zs, hl, hpre, hx, hys, hne⟩
  · obtain ⟨hp, hl⟩ := List.forall_mem_append.mp hplain
    -- All of them are plain, so both readings are the same.
    have hsame := (readExec_joinExec (p ++ l)).mpr hplain
    rw [h, Option.some_inj, List.append_cancel_left_eq] at hsame
    exact ⟨hp, Or.inl ⟨hl, hsame.symm⟩⟩
  · rw [List.nil_append] at hys
    -- It lies within the first part, or behind it.
    rcases List.append_eq_append_iff.mp hl with ⟨r, rfl, hr⟩ | ⟨r, rfl, hr⟩
    · -- The argument that is mistaken is behind `p`.
      obtain ⟨hp, hpre⟩ := List.forall_mem_append.mp hpre
      rw [List.append_assoc, List.append_cancel_left_eq] at hys
      exact ⟨hp, Or.inr ⟨r, x, post, y, zs, hr, hpre, hx, hys, hne⟩⟩
    · cases r with
      | nil =>
          rw [List.append_nil] at hys ⊢
          rw [List.append_cancel_left_eq] at hys
          exact ⟨hpre, Or.inr ⟨[], x, post, y, zs, hr.symm, by simp, hx, hys, hne⟩⟩
      | cons x' r =>
          obtain ⟨rfl, _⟩ := List.cons.inj hr
          simp only [List.append_assoc, List.cons_append, List.append_cancel_left_eq,
            List.cons.injEq] at hys
          exact absurd hys.1.symm hne.1

/-- Where every choice of arguments to remove gives the same on both sides, quoting is enough for
all of them: it could remove everything else than one that is mistaken. -/
theorem plain_of_removals {p l l' : List Text}
    (h : ∀ removeArgs, readExec (joinExec (p ++ l.filter (keep removeArgs))) =
      some (p ++ l'.filter (keep removeArgs))) : ∀ a ∈ l, Plain a := by
  have hkeep : ∀ removeArgs a, a ∈ removeArgs → keep removeArgs a = isFieldCode a := by
    intro removeArgs a ha
    simp [keep, ha]
  -- Without all arguments that are not field codes.
  -- What is not removed then are the field codes.
  have hcodes : (∀ a ∈ l, isFieldCode a → Plain a) ∧
      ∀ a ∈ l', isFieldCode a → a ∈ l := by
    have hl : l.filter (keep (l ++ l')) = l.filter (isFieldCode ·) :=
      List.filter_congr fun a ha => hkeep _ a (List.mem_append_left _ ha)
    have hl' : l'.filter (keep (l ++ l')) = l'.filter (isFieldCode ·) :=
      List.filter_congr fun a ha => hkeep _ a (List.mem_append_right _ ha)
    -- Every choice is allowed, so take away all that is no field code.
    have hread := h (l ++ l')
    rw [hl, hl'] at hread
    rcases (readExec_behind hread).2 with ⟨hplain, hsame⟩ | ⟨pre, x, post, y, zs, hpre, _, _, hys, hne⟩
    · refine ⟨fun a ha hcode => hplain a (List.mem_filter.mpr ⟨ha, hcode⟩), fun a ha hcode => ?_⟩
      have : a ∈ l.filter (isFieldCode ·) := hsame ▸ List.mem_filter.mpr ⟨ha, hcode⟩
      exact (List.mem_filter.mp this).1
    · have hx : x ∈ l.filter (isFieldCode ·) := hpre ▸ by simp
      have hy : y ∈ l'.filter (isFieldCode ·) := hys ▸ by simp
      exact absurd (List.mem_filter.mp hx).2 (hne.2 (List.mem_filter.mp hy).2).2
  intro a ha
  by_contra hplain
  -- With all field codes, and `a`.
  -- With this choice the argument and the field codes are left.
  have hkept : ∀ b ∈ l ++ l', keep ((l ++ l').filter (· ≠ a)) b → isFieldCode b ∨ b = a := by
    intro b hb hkeep
    simp only [keep, Bool.or_eq_true, Bool.not_eq_true', List.contains_eq_mem, List.mem_filter,
      decide_eq_false_iff_not, not_and, decide_eq_true_eq, ne_eq, not_not] at hkeep
    exact hkeep.imp_right fun h => h hb
  have hself : keep ((l ++ l').filter (· ≠ a)) a := by simp [keep]
  rcases (readExec_behind (h ((l ++ l').filter (· ≠ a)))).2 with
    ⟨hall, _⟩ | ⟨pre, x, post, y, zs, hpre, _, hx, hys, hne⟩
  · exact hplain (hall a (List.mem_filter.mpr ⟨ha, hself⟩))
  · have hxmem : x ∈ l.filter (keep ((l ++ l').filter (· ≠ a))) := hpre ▸ by simp
    have hymem : y ∈ l'.filter (keep ((l ++ l').filter (· ≠ a))) := hys ▸ by simp
    rw [List.mem_filter] at hxmem hymem
    obtain rfl : x = a :=
      (hkept x (List.mem_append_left _ hxmem.1) hxmem.2).resolve_left fun hcode =>
        hx (hcodes.1 x hxmem.1 hcode)
    have hcode : isFieldCode y :=
      (hkept y (List.mem_append_right _ hymem.1) hymem.2).resolve_right hne.1
    exact (hne.2 hcode).1 (hcodes.1 y (hcodes.2 y hymem.1 hcode) hcode)

theorem plain_dashes : Plain "--".toList ∧ Plain "--exec".toList := by
  constructor <;> exact plain_of_unquoted (by decide)

theorem readExec_next {p l l' : List Text} {a b : Text} (ha : Plain a)
    (h : readExec (joinExec (p ++ a :: l)) = some (p ++ b :: l')) : a = b := by
  rcases (readExec_behind h).2 with ⟨_, hsame⟩ | ⟨pre, x, post, y, zs, hl, _, hx, hys, _⟩
  · exact (List.cons.inj hsame).1
  -- The mistaken one is the first, or behind it.
  · cases pre with
    | nil => exact absurd ha ((List.cons.inj hl).1 ▸ hx)
    | cons c pre => exact (List.cons.inj hl).1.trans (List.cons.inj hys).1.symm

/-- The arguments `l` behind the same command `p` and dashes `m`. -/
theorem same_of_removals {p m l l' : List Text}
    (h : ∀ removeArgs, readExec (joinExec (p ++ (m ++ l.filter (keep removeArgs)))) =
      some (p ++ (m ++ l'.filter (keep removeArgs)))) : l = l' ∧ ∀ a ∈ p ++ l, Plain a := by
  simp only [← List.append_assoc] at h
  have hnone := h []
  rw [filter_keep_nil, filter_keep_nil] at hnone
  have hplain := List.forall_mem_append.mpr ⟨(readExec_behind hnone).1, plain_of_removals h⟩
  rw [(readExec_joinExec _).mpr hplain, Option.some_inj, List.append_cancel_left_eq] at hnone
  refine ⟨hnone, fun a ha => hplain a ?_⟩
  rcases List.mem_append.mp ha with hp | hl
  · exact List.mem_append_left _ (List.mem_append_left _ hp)
  · exact List.mem_append_right _ hl

theorem plain_argv {launch : Launch} (h : ∀ a ∈ launch.args, Plain a) :
    ∀ a ∈ launch.argv, Plain a := by
  -- The dashes are plain.
  obtain ⟨hdash, hdashExec⟩ := plain_dashes
  cases launch with
  | command l => exact List.forall_mem_cons.mpr ⟨hdash, h⟩
  | exec l => exact List.forall_mem_cons.mpr ⟨hdashExec, List.forall_mem_cons.mpr ⟨hdash, h⟩⟩

theorem mem_without {launch : Launch} {removeArgs : List Text} {a : Text}
    (h : a ∈ (launch.without removeArgs).args) : a ∈ launch.args := by
  cases launch <;> exact List.mem_of_mem_filter h

theorem classify_eq_ok {args removeArgs : List Text} {launch : Launch}
    (h : classify args removeArgs = .ok launch) :
    ∃ whole, classify args [] = .ok whole ∧ launch = whole.without removeArgs := by
  rw [classify_without] at h
  cases hwhole : classify args [] with
  | error e =>
      rw [hwhole] at h
      cases h
  | ok whole =>
      rw [hwhole] at h
      exact ⟨whole, rfl, (Except.ok.inj h).symm⟩

/-- A host's line is carried over exactly when the quoting rules alone make the same command
line of it and are enough for its arguments. -/
theorem carriedOver_iff (t : Target) (value : Text) : CarriedOver t value ↔ SameLaunch t value := by
  constructor
  · intro h args args' launch launch' hargs hargs' hlaunch hlaunch'
    -- Without dashes both launches are a command, or both a line of their own.
    have hread : ∀ removeArgs, readExec (joinExec (t.command ++ (launch.without removeArgs).argv)) =
        some (t.command ++ (launch'.without removeArgs).argv) := by
      intro removeArgs
      refine h removeArgs _ args' _ (rewritten_eq_ok.mpr ⟨args, _, hargs, ?_, rfl⟩) hargs' ?_
      · rw [classify_without, hlaunch]
        rfl
      · rw [classify_without, hlaunch']
        rfl
    obtain ⟨hdash, hdashExec⟩ := plain_dashes
    -- A command and a line of its own differ in their first argument.
    cases launch with
    | command l =>
        cases launch' with
        | command l' =>
            obtain ⟨rfl, hplain⟩ := same_of_removals (m := ["--".toList]) hread
            exact ⟨rfl, hplain⟩
        | exec l' => exact absurd (readExec_next hdash (hread [])) (by decide)
    | exec l =>
        cases launch' with
        | command l' => exact absurd (readExec_next hdashExec (hread [])) (by decide)
        | exec l' =>
            obtain ⟨rfl, hplain⟩ := same_of_removals (m := ["--exec".toList, "--".toList]) hread
            exact ⟨rfl, hplain⟩
  · intro h removeArgs written args' launch' hwritten hread hlaunch'
    obtain ⟨args, launch, hargs, hlaunch, rfl⟩ := rewritten_eq_ok.mp hwritten
    obtain ⟨whole, hwhole, rfl⟩ := classify_eq_ok hlaunch
    obtain ⟨whole', hwhole', rfl⟩ := classify_eq_ok hlaunch'
    obtain ⟨rfl, hplain⟩ := h args args' whole whole' hargs hread hwhole hwhole'
    obtain ⟨hcommand, hargs⟩ := List.forall_mem_append.mp hplain
    refine (readExec_joinExec _).mpr (List.forall_mem_append.mpr ⟨hcommand, ?_⟩)
    exact plain_argv fun a ha => hargs a (mem_without ha)

theorem plain_dashed {p args : List Text} :
    (∀ a ∈ p ++ dashed args, Plain a) ↔ ∀ a ∈ p ++ args, Plain a := by
  rw [List.forall_mem_append, List.forall_mem_append, dashed]
  split
  · rename_i h
    rw [h]
  · rw [List.forall_mem_cons, and_iff_right plain_dashes.1]

end Psbox.Desktop
