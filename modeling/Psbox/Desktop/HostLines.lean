import Mathlib.Data.List.TakeWhile
import Psbox.Desktop.ExecReading

/-!
# Host Lines by Their Text

Which `Exec` values of the host the rewriting gets right, read off the text of the value alone
(`ReadAlike`, `Fair`). The quoting rules and both rules are followed along the text side by side. They
take the same characters while no backslash means anything to the string rule. Where one does, the
quoting rules have taken more than both rules have, and never take fewer later (`outrun`).
-/

namespace Psbox.Desktop

open Psbox.Foundations (toOption_eq_some)

/-! ## Section 1: The Text of a Value -/

def blank (c : Char) : Bool :=
  c = ' ' ∨ c = '\t'

/-- Quotes that are opened are closed. The first argument says whether one is open. -/
def Closed : Bool → Text → Prop
  | isOpen, [] => isOpen = false
  | false, c :: rest => Closed (c = '"') rest
  | true, ['\\'] => False
  | true, '\\' :: _ :: rest => Closed true rest
  | true, c :: rest => Closed (c ≠ '"') rest

/-- No backslash stands outside of quotes; within them they come in pairs, each in front of a character
that needs no escape; and no backtick or dollar sign stands anywhere. -/
def ReadAlike : Bool → Text → Prop
  | isOpen, [] => isOpen = false
  | false, c :: rest => c ∉ ['\\', '`', '$'] ∧ ReadAlike (c = '"') rest
  | true, '\\' :: '\\' :: c :: rest => c ∉ quotedSpecial ∧ ReadAlike true rest
  | true, c :: rest => c ∉ ['\\', '`', '$'] ∧ ReadAlike (c ≠ '"') rest

/-- The text of a word, up to a blank outside of quotes, and what stands behind it. -/
def firstWord : Bool → Text → Text × Text
  | _, [] => ([], [])
  | false, c :: rest =>
      if blank c then ([], c :: rest)
      else (c :: (firstWord (c = '"') rest).1, (firstWord (c = '"') rest).2)
  | true, '\\' :: e :: rest => ('\\' :: e :: (firstWord true rest).1, (firstWord true rest).2)
  | true, c :: rest => (c :: (firstWord (c ≠ '"') rest).1, (firstWord (c ≠ '"') rest).2)

/-- The text of the program, and of what it is given. -/
def programText (value : Text) : Text :=
  (firstWord false (value.dropWhile blank)).1

def argsText (value : Text) : Text :=
  (firstWord false (value.dropWhile blank)).2

/-- A program by its name, and not `env`. -/
def Bare (program : Text) : Prop :=
  '/' ∉ program ∧ program.filter (· ≠ '"') ≠ "env".toList

/-- The value is a command line by the quoting rules alone and by both rules. -/
structure IsLine (value : Text) : Prop where
  closed : Closed false value
  word : ∃ c ∈ value, blank c = false
  meant : ∃ u, unescape value = some u ∧ Closed false u ∧ ∃ c ∈ u, blank c = false

/-- Behind the program, both rules and the quoting rules alone have come to the same text. -/
def ProgramEnds (value u : Text) : Prop :=
  unescape (argsText value) = some (argsText u)

/-- Nothing in the value makes a difference: not behind a program that the sandbox has its own
command for, and nowhere otherwise. -/
def Fair (t : Target) (value : Text) : Prop :=
  (∀ a ∈ t.command, Plain a) ∧
    ((∃ u, unescape value = some u ∧ Bare (programText value) ∧ Bare (programText u) ∧ ProgramEnds value u ∧
        ReadAlike false (argsText value)) ∨
      (¬Bare (programText value) ∧ ReadAlike false value))

/-- Where the program's end is in doubt, errors can cancel. -/
def Settled (value : Text) : Prop :=
  Bare (programText value) → ∀ u, unescape value = some u → ProgramEnds value u

/-! ## Section 2: Both Rules, Character by Character -/

/-- The two parts of `split_exec`. -/
def splitAs (isOpen : Bool) (args : List Text) (cur : Text) (hasCur : Bool) (t : Text) :
    Except ExecError (List Text) :=
  if isOpen then splitQuoted args cur t else splitPlain args cur hasCur t

section

variable (args : List Text) (cur : Text) (hasCur : Bool) (rest : Text)

theorem splitAs_open : splitAs false args cur hasCur ('"' :: rest) = splitAs true args cur true rest := by
  rw [splitAs, if_neg (by decide), splitPlain, if_pos rfl]
  rfl

theorem splitAs_blank {c : Char} (hc : blank c = true) :
    splitAs false args cur hasCur (c :: rest) =
      if hasCur then splitAs false (args ++ [cur]) [] false rest else splitAs false args cur false rest := by
  have hblank : c = ' ' ∨ c = '\t' := by simpa [blank] using hc
  have hquote : c ≠ '"' := by
    rintro rfl
    revert hblank
    decide
  rw [splitAs, if_neg (by decide), splitPlain, if_neg hquote, if_pos hblank]
  rfl

theorem splitAs_other {c : Char} (hquote : c ≠ '"') (hc : blank c = false) :
    splitAs false args cur hasCur (c :: rest) = splitAs false args (cur ++ [c]) true rest := by
  have hblank : ¬(c = ' ' ∨ c = '\t') := by simpa [blank] using hc
  rw [splitAs, if_neg (by decide), splitPlain, if_neg hquote, if_neg hblank]
  rfl

theorem splitAs_close : splitAs true args cur hasCur ('"' :: rest) = splitAs false args cur true rest := by
  rw [splitAs, if_pos rfl, splitQuoted_cons (by decide), if_pos rfl]
  rfl

theorem splitAs_escape (e : Char) :
    splitAs true args cur hasCur ('\\' :: e :: rest) =
      splitAs true args (cur ++ if e ∈ quotedSpecial then [e] else ['\\', e]) true rest := by
  rw [splitAs, if_pos rfl, splitQuoted_backslash]
  split <;> rfl

theorem splitAs_within {c : Char} (hc : c ≠ '\\') (hquote : c ≠ '"') :
    splitAs true args cur hasCur (c :: rest) = splitAs true args (cur ++ [c]) true rest := by
  rw [splitAs, if_pos rfl, splitQuoted_cons hc, if_neg hquote]
  rfl

end

theorem closed_cons {c : Char} (hc : c ≠ '\\') (rest : Text) :
    Closed true (c :: rest) ↔ Closed (c ≠ '"') rest := by
  cases rest <;> simp [Closed, hc]

theorem closed_backslash (e : Char) (rest : Text) : Closed true ('\\' :: e :: rest) ↔ Closed true rest := by
  rw [Closed]

theorem firstWord_cons {c : Char} (hc : c ≠ '\\') (rest : Text) :
    firstWord true (c :: rest) = (c :: (firstWord (c ≠ '"') rest).1, (firstWord (c ≠ '"') rest).2) := by
  cases rest <;> simp [firstWord, hc]

/-- What an escape stands for. -/
theorem unescape_escape {x : Char} {rest u : Text} (h : unescape ('\\' :: x :: rest) = some u) :
    ∃ d v, unescapeChar x = some d ∧ unescape rest = some v ∧ u = d :: v := by
  rw [unescape] at h
  cases hd : unescapeChar x with
  | none => simp [hd] at h
  | some d =>
      cases hv : unescape rest with
      | none => simp [hd, hv] at h
      | some v => exact ⟨d, v, rfl, rfl, by simpa [hd, hv] using h.symm⟩

theorem unescape_other {c : Char} (hc : c ≠ '\\') {rest u : Text} (h : unescape (c :: rest) = some u) :
    ∃ v, unescape rest = some v ∧ u = c :: v := by
  rw [unescape_cons hc] at h
  obtain ⟨v, hv, rfl⟩ := Option.map_eq_some_iff.mp h
  exact ⟨v, hv, rfl⟩

/-- An escape is that of a backslash, or neither it nor what it stands for means anything to the quoting
rules. -/
theorem unescapeChar_cases {x d : Char} (h : unescapeChar x = some d) :
    (x = '\\' ∧ d = '\\') ∨
      (x ∉ '\n' :: quotedSpecial ∧ blank x = false ∧ d ≠ '"' ∧ d ≠ '\\') := by
  rw [unescapeChar.eq_def] at h
  split at h
  case h_5 => exact Or.inl ⟨rfl, (Option.some.inj h).symm⟩
  case h_6 => cases h
  all_goals
    obtain rfl := Option.some.inj h
    exact Or.inr (by decide)

/-- A value has arguments when its quotes are closed. -/
theorem splitAs_isOk (isOpen : Bool) (t : Text) (args : List Text) (cur : Text) (hasCur : Bool) :
    (∃ ys, splitAs isOpen args cur hasCur t = .ok ys) ↔ Closed isOpen t := by
  induction isOpen, t using Closed.induct generalizing args cur hasCur with
  -- The end.
  | case1 isOpen => cases isOpen <;> simp [splitAs, splitPlain, splitQuoted, Closed]
  -- Outside of quotes.
  | case2 c rest ih =>
      rw [Closed]
      by_cases hquote : c = '"'
      · subst hquote
        rw [splitAs_open]
        exact ih args cur true
      rw [decide_eq_false hquote] at ih ⊢
      cases hblank : blank c with
      | true =>
          rw [splitAs_blank _ _ _ _ hblank]
          split
          · exact ih (args ++ [cur]) [] false
          · exact ih args cur false
      | false =>
          rw [splitAs_other _ _ _ _ hquote hblank]
          exact ih args (cur ++ [c]) true
  -- A backslash with nothing behind it.
  | case3 => simp [splitAs, splitQuoted, Closed]
  -- A backslash and the character behind it.
  | case4 e rest ih =>
      rw [closed_backslash, splitAs_escape]
      exact ih args _ true
  -- Any other character within quotes.
  | case5 c rest hlone hescape ih =>
      have hc : c ≠ '\\' := by
        rintro rfl
        cases rest with
        | nil => exact hlone rfl rfl
        | cons e rest => exact hescape e rest rfl rfl
      rw [closed_cons hc]
      by_cases hquote : c = '"'
      · subst hquote
        rw [splitAs_close]
        exact ih args cur true
      · rw [splitAs_within _ _ _ _ hc hquote]
        rw [decide_eq_true hquote] at ih ⊢
        exact ih args (cur ++ [c]) true

/-! ## Section 3: What the Quoting Rules Take -/

/-- How many characters the arguments have. -/
def taken : Bool → Text → Nat
  | _, [] => 0
  | false, c :: rest =>
      if c = '"' then taken true rest
      else if blank c then taken false rest
      else taken false rest + 1
  | true, '\\' :: e :: rest => if e ∈ quotedSpecial then taken true rest + 1 else taken true rest + 2
  | true, c :: rest => if c = '"' then taken false rest else taken true rest + 1

/-- A character that may stand in a plain argument, `behind` a backslash or not. -/
def Takes (behind : Bool) (c : Char) : Prop :=
  c ∉ ['"', '`', '$', '\n'] ∧ (behind → c ≠ '\\')

/-- Quotes are closed, and the arguments are plain. -/
def Enough : Bool → Bool → Text → Prop
  | false, behind, [] => behind = false
  | true, _, [] => False
  | false, behind, c :: rest =>
      if c = '"' then Enough true behind rest
      else if blank c then behind = false ∧ Enough false false rest
      else Takes behind c ∧ Enough false (c = '\\') rest
  | true, _, ['\\'] => False
  | true, behind, '\\' :: e :: rest =>
      if e ∈ quotedSpecial then Takes behind e ∧ Enough true (e = '\\') rest
      else behind = false ∧ e ≠ '\n' ∧ Enough true false rest
  | true, behind, c :: rest =>
      if c = '"' then Enough false behind rest else Takes behind c ∧ Enough true false rest

theorem enough_cons {c : Char} (hc : c ≠ '\\') (behind : Bool) (rest : Text) :
    Enough true behind (c :: rest) ↔
      if c = '"' then Enough false behind rest else Takes behind c ∧ Enough true false rest := by
  cases rest <;> simp [Enough, hc]

/-- An argument ends with a backslash so far. -/
def endsBehind (cur : Text) : Bool :=
  cur.getLast? = some '\\'

/-- It can become a plain argument. -/
def Begun (cur : Text) : Prop :=
  Tame cur ∧ ¬['\\', '\\'] <:+: cur

@[simp] theorem endsBehind_nil : endsBehind [] = false := rfl

@[simp] theorem endsBehind_concat (cur : Text) (c : Char) : endsBehind (cur ++ [c]) = decide (c = '\\') := by
  simp [endsBehind]

theorem begun_nil : Begun [] := by
  simp [Begun, Tame]

theorem begun_concat {cur : Text} {c : Char} : Begun (cur ++ [c]) ↔ Begun cur ∧ Takes (endsBehind cur) c := by
  have hends : ['\\', '\\'] <:+ cur ++ [c] ↔ endsBehind cur = true ∧ c = '\\' := by
    have hlast : endsBehind cur = true ↔ ['\\'] <:+ cur := by
      rw [endsBehind, decide_eq_true_eq, List.singleton_suffix_iff_getLast?_eq_some]
    rw [hlast, List.suffix_concat_iff]
    constructor
    · rintro (h | ⟨l, hl, hsuffix⟩)
      · simp at h
      · have hl' : ['\\'] ++ ['\\'] = l ++ [c] := hl
        obtain ⟨rfl, hc⟩ := List.append_inj' hl' rfl
        exact ⟨hsuffix, (List.singleton_inj.mp hc).symm⟩
    · rintro ⟨h, rfl⟩
      exact Or.inr ⟨['\\'], rfl, h⟩
  rw [Begun, Begun, Takes, List.infix_concat_iff, hends, Tame, Tame]
  simp only [List.mem_append, List.mem_singleton, or_imp, forall_and, forall_eq]
  tauto

theorem endsBehind_cons {c : Char} (hc : c ≠ '\\') (rest : Text) : endsBehind (c :: rest) = endsBehind rest := by
  cases rest <;> simp [endsBehind, hc]

theorem plain_iff_begun {a : Text} : Plain a ↔ Begun a ∧ endsBehind a = false := by
  have hsingle : SingleBackslashes a ↔ ¬['\\', '\\'] <:+: a ∧ endsBehind a = false := by
    induction a using backslash_induction with
    | nil => simp [SingleBackslashes]
    | lone => simp [SingleBackslashes, endsBehind]
    | escape e rest ih =>
        have hlast : endsBehind ('\\' :: e :: rest) = endsBehind (e :: rest) := by simp [endsBehind]
        by_cases he : e = '\\'
        · simp [SingleBackslashes, he, List.infix_cons_iff]
        · simp [SingleBackslashes, ih, hlast, endsBehind_cons he, List.infix_cons_iff, he, Ne.symm he]
    | other c rest hc ih =>
        simp [singleBackslashes_cons hc, ih, endsBehind_cons hc, List.infix_cons_iff, Ne.symm hc]
  rw [Plain, Begun, hsingle, and_assoc]

/-- The characters of the arguments are those that are taken. -/
theorem length_of_splitAs {isOpen : Bool} {t : Text} {args ys : List Text} {cur : Text} {hasCur : Bool}
    (hcur : hasCur = false → cur = []) (h : splitAs isOpen args cur hasCur t = .ok ys) :
    (ys.map List.length).sum = (args.map List.length).sum + cur.length + taken isOpen t := by
  induction isOpen, t using taken.induct generalizing args cur hasCur with
  -- The end.
  | case1 isOpen =>
      cases isOpen with
      | true => simp [splitAs, splitQuoted] at h
      | false =>
          cases hasCur with
          | true => simp [splitAs, splitPlain] at h; simp [← h, taken]
          | false => simp [splitAs, splitPlain] at h; simp [← h, taken, hcur rfl]
  -- A quote opens.
  | case2 rest ih =>
      rw [splitAs_open] at h
      simpa [taken] using ih (by simp) h
  -- A blank ends an argument.
  | case3 c rest hquote hblank ih =>
      rw [splitAs_blank _ _ _ _ hblank] at h
      rw [taken, if_neg hquote, if_pos hblank]
      cases hasCur with
      | true => simpa [Nat.add_assoc] using ih (by simp) h
      | false => simpa using ih hcur h
  -- A character of an argument.
  | case4 c rest hquote hblank ih =>
      rw [splitAs_other _ _ _ _ hquote (by simpa using hblank)] at h
      have hrest := ih (by simp) h
      simp [taken, hquote, hblank] at hrest ⊢
      omega
  -- An escaped character.
  | case5 e rest he ih =>
      rw [splitAs_escape, if_pos he] at h
      have hrest := ih (by simp) h
      simp [taken, he] at hrest ⊢
      omega
  -- A backslash that escapes nothing.
  | case6 e rest he ih =>
      rw [splitAs_escape, if_neg he] at h
      have hrest := ih (by simp) h
      simp [taken, he] at hrest ⊢
      omega
  -- The quote closes.
  | case7 rest hc ih =>
      rw [splitAs_close] at h
      simpa [taken] using ih (by simp) h
  -- Any other character within quotes.
  | case8 c rest hescape hquote ih =>
      by_cases hc : c = '\\'
      · subst hc
        cases rest with
        | nil => simp [splitAs, splitQuoted] at h
        | cons e rest => exact absurd rfl (hescape e rest rfl)
      · rw [splitAs_within _ _ _ _ hc hquote] at h
        have hrest := ih (by simp) h
        rw [taken.eq_def]
        simp [hquote] at hrest ⊢
        omega

theorem forall_concat {P : Text → Prop} {args : List Text} {a : Text} :
    (∀ b ∈ args ++ [a], P b) ↔ (∀ b ∈ args, P b) ∧ P a := by
  rw [List.forall_mem_append, List.forall_mem_singleton]

/-- The arguments are plain where the text is enough to say so. -/
theorem plain_splitAs {isOpen : Bool} {t : Text} {args ys : List Text} {cur : Text} {hasCur : Bool}
    (hcur : hasCur = false → cur = []) (h : splitAs isOpen args cur hasCur t = .ok ys) :
    (∀ a ∈ ys, Plain a) ↔ (∀ a ∈ args, Plain a) ∧ Begun cur ∧ Enough isOpen (endsBehind cur) t := by
  induction isOpen, t using taken.induct generalizing args cur hasCur with
  -- The end.
  | case1 isOpen =>
      cases isOpen with
      | true => simp [splitAs, splitQuoted] at h
      | false =>
          cases hasCur with
          | true =>
              obtain rfl : args ++ [cur] = ys := by simpa [splitAs, splitPlain] using h
              rw [forall_concat, plain_iff_begun, Enough]
          | false =>
              obtain rfl : args = ys := by simpa [splitAs, splitPlain] using h
              rw [hcur rfl, Enough]
              simp [begun_nil]
  -- A quote opens.
  | case2 rest ih =>
      rw [splitAs_open] at h
      rw [ih (by simp) h, Enough, if_pos rfl]
  -- A blank ends an argument.
  | case3 c rest hquote hblank ih =>
      rw [splitAs_blank _ _ _ _ hblank] at h
      rw [Enough, if_neg hquote, if_pos hblank]
      cases hasCur with
      | true =>
          rw [ih (by simp) h, forall_concat, plain_iff_begun]
          simp [begun_nil, and_assoc]
      | false =>
          rw [ih hcur h, hcur rfl]
          simp [begun_nil]
  -- A character of an argument.
  | case4 c rest hquote hblank ih =>
      rw [splitAs_other _ _ _ _ hquote (by simpa using hblank)] at h
      rw [ih (by simp) h, begun_concat, endsBehind_concat, Enough, if_neg hquote, if_neg hblank, and_assoc]
  -- An escaped character.
  | case5 e rest he ih =>
      rw [splitAs_escape, if_pos he] at h
      rw [ih (by simp) h, Enough, if_pos he, begun_concat, endsBehind_concat, and_assoc]
  -- A backslash that escapes nothing.
  | case6 e rest he ih =>
      -- The backslash stays, and the character behind it is none.
      rw [splitAs_escape, if_neg he, List.append_cons] at h
      have hother : e ≠ '"' ∧ e ≠ '`' ∧ e ≠ '$' ∧ e ≠ '\\' := by simpa [quotedSpecial] using he
      rw [ih (by simp) h, Enough, if_neg he, begun_concat, begun_concat, endsBehind_concat, endsBehind_concat]
      simp [Takes, hother, and_assoc]
  -- The quote closes.
  | case7 rest hc ih =>
      rw [splitAs_close] at h
      rw [ih (by simp) h, enough_cons (by decide), if_pos rfl]
  -- Any other character within quotes.
  | case8 c rest hescape hquote ih =>
      by_cases hc : c = '\\'
      · subst hc
        cases rest with
        | nil => simp [splitAs, splitQuoted] at h
        | cons e rest => exact absurd rfl (hescape e rest rfl)
      · rw [splitAs_within _ _ _ _ hc hquote] at h
        rw [ih (by simp) h, begun_concat, endsBehind_concat, enough_cons hc, if_neg hquote, and_assoc,
          decide_eq_false hc]

/-! ## Section 4: Both Rules Side by Side -/

/-- Once one of the two stands within quotes and the other does not, a backslash stands where an
argument with it is not plain, or quotes stay open. -/
theorem not_enough_apart {isOpen behind : Bool} {t u : Text} (h : Enough isOpen behind t)
    (hu : unescape t = some u) : ¬Closed (!isOpen) u := by
  induction isOpen, behind, t using Enough.induct generalizing u with
  -- The end, outside of quotes.
  | case1 behind =>
      obtain rfl : [] = u := by simpa [unescape] using hu
      simp [Closed]
  -- The end, within quotes.
  | case2 behind => exact h.elim
  -- A quote opens.
  | case3 behind rest ih =>
      obtain ⟨v, hv, rfl⟩ := unescape_other (by decide) hu
      rw [Enough, if_pos rfl] at h
      simpa [closed_cons] using ih h hv
  -- A blank ends an argument.
  | case4 behind c rest hquote hblank ih =>
      have hc : c ≠ '\\' := by
        rintro rfl
        revert hblank
        decide
      obtain ⟨v, hv, rfl⟩ := unescape_other hc hu
      rw [Enough, if_neg hquote, if_pos hblank] at h
      simpa [closed_cons hc, hquote] using ih h.2 hv
  -- A character of an argument.
  | case5 behind c rest hquote hblank ih =>
      rw [Enough, if_neg hquote, if_neg hblank] at h
      by_cases hc : c = '\\'
      · subst hc
        cases rest with
        | nil => simp [unescape] at hu
        | cons x rest =>
            obtain ⟨d, v, hd, hv, rfl⟩ := unescape_escape hu
            rcases unescapeChar_cases hd with ⟨rfl, -⟩ | ⟨hx, hxblank, hdquote, hdback⟩
            · -- Two backslashes in a row.
              simp [Enough, blank, Takes] at h
            · have hother : x ≠ '"' ∧ x ≠ '\\' := by
                simp [quotedSpecial] at hx
                tauto
              have hrest := ih h.2 (u := x :: v) (by rw [unescape_cons hother.2, hv]; rfl)
              simpa [closed_cons hother.2, closed_cons hdback, hother.1, hdquote] using hrest
      · obtain ⟨v, hv, rfl⟩ := unescape_other hc hu
        simpa [closed_cons hc, hquote] using ih h.2 hv
  -- A backslash with nothing behind it.
  | case6 behind => exact h.elim
  -- An escaped character.
  | case7 behind e rest he ih =>
      obtain ⟨d, v, hd, hv, rfl⟩ := unescape_escape hu
      rw [Enough, if_pos he] at h
      rcases unescapeChar_cases hd with ⟨-, rfl⟩ | ⟨hx, -⟩
      · simpa [Closed] using ih h.2 hv
      · exact absurd (List.mem_cons_of_mem _ he) hx
  -- A backslash that escapes nothing.
  | case8 behind e rest he ih =>
      obtain ⟨d, v, hd, hv, rfl⟩ := unescape_escape hu
      rw [Enough, if_neg he] at h
      rcases unescapeChar_cases hd with ⟨rfl, -⟩ | ⟨-, -, hdquote, -⟩
      · exact absurd (by decide) he
      · simpa [Closed, hdquote] using ih h.2.2 hv
  -- The quote closes.
  | case9 behind rest hlone hescape ih =>
      obtain ⟨v, hv, rfl⟩ := unescape_other (by decide) hu
      rw [enough_cons (by decide), if_pos rfl] at h
      simpa [Closed] using ih h hv
  -- Any other character within quotes.
  | case10 behind c rest hlone hescape hquote ih =>
      have hc : c ≠ '\\' := by
        rintro rfl
        cases rest with
        | nil => exact hlone rfl rfl
        | cons e rest => exact hescape e rest rfl rfl
      obtain ⟨v, hv, rfl⟩ := unescape_other hc hu
      rw [enough_cons hc, if_neg hquote] at h
      simpa [Closed, hquote] using ih h.2 hv

theorem taken_cons {c : Char} (hc : c ≠ '\\') (rest : Text) :
    taken true (c :: rest) = if c = '"' then taken false rest else taken true rest + 1 := by
  cases rest <;> simp [taken, hc]

theorem readAlike_cons {c : Char} (hc : c ≠ '\\') (rest : Text) :
    ReadAlike true (c :: rest) ↔ c ∉ ['\\', '`', '$'] ∧ ReadAlike (c ≠ '"') rest := by
  rw [ReadAlike]
  rintro c' rest' rfl
  exact absurd rfl hc

/-- The quoting rules take at least what both rules do, and where they take as much the text is alike. -/
def Outrun (isOpen : Bool) (t u : Text) : Prop :=
  taken isOpen u ≤ taken isOpen t ∧ (taken isOpen u = taken isOpen t → ReadAlike isOpen t)

theorem Takes.not_special {behind : Bool} {c : Char} (h : Takes behind c) (hc : c ≠ '\\') :
    c ∉ quotedSpecial := by
  have hother := h.1
  simp only [quotedSpecial, List.mem_cons, List.not_mem_nil, or_false] at hother ⊢
  tauto

theorem Takes.alike {behind : Bool} {c : Char} (h : Takes behind c) (hc : c ≠ '\\') :
    c ∉ ['\\', '`', '$'] := by
  have hother := h.1
  simp only [List.mem_cons, List.not_mem_nil, or_false] at hother ⊢
  tauto

/-- Other characters are the same to both. -/
theorem outrun_other {isOpen behind : Bool} {c : Char} {rest v : Text} (hc : c ≠ '\\')
    (h : Enough isOpen behind (c :: rest)) (hclosed : Closed isOpen (c :: v))
    (ih : ∀ isOpen behind, Enough isOpen behind rest → Closed isOpen v → Outrun isOpen rest v) :
    Outrun isOpen (c :: rest) (c :: v) := by
  cases isOpen with
  | false =>
      rw [Enough] at h
      rw [Closed] at hclosed
      by_cases hquote : c = '"'
      · rw [if_pos hquote] at h
        rw [decide_eq_true hquote] at hclosed
        obtain ⟨hle, halike⟩ := ih true behind h hclosed
        simpa [Outrun, taken, ReadAlike, hquote] using And.intro hle halike
      rw [if_neg hquote] at h
      rw [decide_eq_false hquote] at hclosed
      split at h
      · rename_i hblank
        have hplain : c ∉ ['\\', '`', '$'] := by
          have heither : c = ' ' ∨ c = '\t' := by simpa [blank] using hblank
          rcases heither with rfl | rfl <;> decide
        obtain ⟨hle, halike⟩ := ih false false h.2 hclosed
        rw [Outrun, taken, if_neg hquote, if_pos hblank, taken, if_neg hquote, if_pos hblank, ReadAlike,
          decide_eq_false hquote]
        exact ⟨hle, fun heq => ⟨hplain, halike heq⟩⟩
      · rename_i hblank
        obtain ⟨hle, halike⟩ := ih false _ h.2 hclosed
        rw [Outrun, taken, if_neg hquote, if_neg hblank, taken, if_neg hquote, if_neg hblank, ReadAlike,
          decide_eq_false hquote]
        exact ⟨by omega, fun heq => ⟨h.1.alike hc, halike (by omega)⟩⟩
  | true =>
      rw [enough_cons hc] at h
      rw [closed_cons hc] at hclosed
      rw [Outrun, taken_cons hc, taken_cons hc, readAlike_cons hc]
      by_cases hquote : c = '"'
      · rw [if_pos hquote] at h
        subst hquote
        obtain ⟨hle, halike⟩ := ih false behind h hclosed
        exact ⟨by simpa using hle, fun heq => ⟨by decide, halike (by simpa using heq)⟩⟩
      · rw [if_neg hquote] at h
        rw [if_neg hquote, if_neg hquote]
        rw [decide_eq_true hquote] at hclosed ⊢
        obtain ⟨hle, halike⟩ := ih true false h.2 hclosed
        exact ⟨by omega, fun heq => ⟨h.1.alike hc, halike (by omega)⟩⟩

/-- Outside of quotes the quoting rules take both characters of an escape. -/
theorem outrun_escape_plain {behind : Bool} {x d : Char} {rest v : Text} (hd : unescapeChar x = some d)
    (h : Enough false behind ('\\' :: x :: rest)) (hclosed : Closed false (d :: v))
    (ih : ∀ isOpen behind, Enough isOpen behind rest → Closed isOpen v → Outrun isOpen rest v) :
    Outrun false ('\\' :: x :: rest) (d :: v) := by
  rcases unescapeChar_cases hd with ⟨rfl, -⟩ | ⟨hx, hxblank, hdquote, hdback⟩
  · -- Two backslashes in a row.
    simp [Enough, blank, Takes] at h
  · have hxquote : x ≠ '"' := by
      rintro rfl
      exact hx (by decide)
    have hrest : Enough false (x = '\\') rest := by
      rw [Enough, if_neg (by decide), if_neg (by decide), Enough, if_neg hxquote, if_neg (by simp [hxblank])] at h
      exact h.2.2
    rw [Closed, decide_eq_false hdquote] at hclosed
    obtain ⟨hle, -⟩ := ih false _ hrest hclosed
    have htaken : taken false ('\\' :: x :: rest) = taken false rest + 2 := by
      simp [taken, blank, hxquote]
      simpa [blank] using hxblank
    have hshort : taken false (d :: v) ≤ taken false v + 1 := by
      rw [taken, if_neg hdquote]
      split <;> omega
    rw [Outrun, htaken]
    exact ⟨by omega, fun heq => by omega⟩

/-- So they do within quotes. -/
theorem outrun_escape_quoted {behind : Bool} {x d : Char} {rest v : Text} (hd : unescapeChar x = some d)
    (hback : x ≠ '\\') (h : Enough true behind ('\\' :: x :: rest)) (hclosed : Closed true (d :: v))
    (ih : ∀ isOpen behind, Enough isOpen behind rest → Closed isOpen v → Outrun isOpen rest v) :
    Outrun true ('\\' :: x :: rest) (d :: v) := by
  rcases unescapeChar_cases hd with ⟨rfl, -⟩ | ⟨hx, hxblank, hdquote, hdback⟩
  · exact absurd rfl hback
  · have hspecial : x ∉ quotedSpecial := fun hmem => hx (List.mem_cons_of_mem _ hmem)
    rw [Enough, if_neg hspecial] at h
    rw [closed_cons hdback, decide_eq_true hdquote] at hclosed
    obtain ⟨hle, -⟩ := ih true false h.2.2 hclosed
    rw [Outrun, taken, if_neg hspecial, taken_cons hdback, if_neg hdquote]
    exact ⟨by omega, fun heq => by omega⟩

/-- Within quotes no character that is escaped there stands behind two backslashes. -/
theorem outrun_backslashes {behind : Bool} {c : Char} {rest v : Text} (hc : c ≠ '\\')
    (hv : unescape rest = some v) (h : Enough true behind ('\\' :: '\\' :: c :: rest))
    (hclosed : Closed true ('\\' :: c :: v))
    (ih : ∀ isOpen behind, Enough isOpen behind rest → Closed isOpen v → Outrun isOpen rest v) :
    Outrun true ('\\' :: '\\' :: c :: rest) ('\\' :: c :: v) := by
  rw [Enough, if_pos (by decide), enough_cons hc] at h
  rw [closed_backslash] at hclosed
  have hquote : c ≠ '"' := by
    rintro rfl
    rw [if_pos rfl] at h
    exact not_enough_apart h.2 hv hclosed
  rw [if_neg hquote] at h
  have hspecial := h.2.1.not_special hc
  obtain ⟨hle, halike⟩ := ih true false h.2.2 hclosed
  have hlong : taken true ('\\' :: '\\' :: c :: rest) = taken true rest + 2 := by
    rw [taken, if_pos (by decide), taken_cons hc, if_neg hquote]
  have hshort : taken true ('\\' :: c :: v) = taken true v + 2 := by
    rw [taken, if_neg hspecial]
  rw [Outrun, hlong, hshort, ReadAlike]
  exact ⟨by omega, fun heq => ⟨hspecial, halike (by omega)⟩⟩

theorem outrun (n : Nat) {isOpen behind : Bool} {t u : Text} (hlen : t.length ≤ n)
    (h : Enough isOpen behind t) (hu : unescape t = some u) (hclosed : Closed isOpen u) :
    Outrun isOpen t u := by
  induction n generalizing isOpen behind t u with
  | zero =>
      obtain rfl := List.eq_nil_of_length_eq_zero (Nat.le_zero.mp hlen)
      obtain rfl : [] = u := by simpa [unescape] using hu
      exact ⟨le_rfl, fun _ => hclosed⟩
  | succ n ih =>
      cases t with
      | nil =>
          obtain rfl : [] = u := by simpa [unescape] using hu
          exact ⟨le_rfl, fun _ => hclosed⟩
      | cons c rest =>
          rw [List.length_cons, Nat.add_le_add_iff_right] at hlen
          by_cases hc : c = '\\'
          swap
          · obtain ⟨v, hv, rfl⟩ := unescape_other hc hu
            exact outrun_other hc h hclosed fun _ _ henough => ih hlen henough hv
          subst hc
          cases rest with
          | nil => simp [unescape] at hu
          | cons x rest =>
              rw [List.length_cons] at hlen
              obtain ⟨d, v, hd, hv, rfl⟩ := unescape_escape hu
              have hrest : ∀ isOpen behind, Enough isOpen behind rest → Closed isOpen v → Outrun isOpen rest v :=
                fun _ _ henough => ih (by omega) henough hv
              cases isOpen with
              | false => exact outrun_escape_plain hd h hclosed hrest
              | true =>
                  by_cases hback : x = '\\'
                  swap
                  · exact outrun_escape_quoted hd hback h hclosed hrest
                  subst hback
                  obtain rfl : '\\' = d := by simpa [unescapeChar] using hd
                  cases rest with
                  | nil =>
                      obtain rfl : [] = v := by simpa [unescape] using hv
                      exact hclosed.elim
                  | cons c rest =>
                      by_cases hc : c = '\\'
                      · -- A third backslash, taken or not, makes two in a row.
                        subst hc
                        cases rest with
                        | nil => simp [unescape] at hv
                        | cons y rest =>
                            obtain ⟨e, w, he, hw, rfl⟩ := unescape_escape hv
                            rcases unescapeChar_cases he with ⟨rfl, -⟩ | ⟨hy, -⟩
                            · simp [Enough, quotedSpecial, Takes] at h
                            · have hspecial : y ∉ quotedSpecial := fun hmem => hy (List.mem_cons_of_mem _ hmem)
                              rw [Enough, if_pos (by decide), Enough, if_neg hspecial] at h
                              simp at h
                      · obtain ⟨w, hw, rfl⟩ := unescape_other hc hv
                        refine outrun_backslashes hc hw h hclosed fun _ _ henough => ih ?_ henough hw
                        rw [List.length_cons] at hlen
                        omega

/-- A text that is read alike is split alike. -/
theorem splitAs_alike {isOpen : Bool} {t u : Text} (h : ReadAlike isOpen t) (hu : unescape t = some u)
    (args : List Text) (cur : Text) (hasCur : Bool) :
    splitAs isOpen args cur hasCur u = splitAs isOpen args cur hasCur t := by
  induction isOpen, t using ReadAlike.induct generalizing args cur hasCur u with
  -- The end.
  | case1 isOpen =>
      obtain rfl : [] = u := by simpa [unescape] using hu
      rfl
  -- Outside of quotes.
  | case2 c rest ih =>
      rw [ReadAlike] at h
      have hc : c ≠ '\\' := fun hc => h.1 (by simp [hc])
      obtain ⟨v, hv, rfl⟩ := unescape_other hc hu
      by_cases hquote : c = '"'
      · subst hquote
        rw [splitAs_open, splitAs_open]
        exact ih h.2 hv args cur true
      rw [decide_eq_false hquote] at ih h
      cases hblank : blank c with
      | true =>
          rw [splitAs_blank _ _ _ _ hblank, splitAs_blank _ _ _ _ hblank, ih h.2 hv, ih h.2 hv]
      | false =>
          rw [splitAs_other _ _ _ _ hquote hblank, splitAs_other _ _ _ _ hquote hblank, ih h.2 hv]
  -- Two backslashes and what is behind them.
  | case3 c rest ih =>
      rw [ReadAlike] at h
      have hc : c ≠ '\\' := by
        rintro rfl
        exact h.1 (by decide)
      have hquote : c ≠ '"' := by
        rintro rfl
        exact h.1 (by decide)
      obtain ⟨d, v, hd, hv, rfl⟩ := unescape_escape hu
      obtain rfl : '\\' = d := by simpa [unescapeChar] using hd
      obtain ⟨w, hw, rfl⟩ := unescape_other hc hv
      rw [splitAs_escape, splitAs_escape, if_neg h.1, if_pos (by decide), splitAs_within _ _ _ _ hc hquote,
        ih h.2 hw, List.append_cons]
  -- Any other character within quotes.
  | case4 c rest hpair ih =>
      rw [ReadAlike] at h
      swap
      · exact hpair
      have hc : c ≠ '\\' := fun hc => h.1 (by simp [hc])
      obtain ⟨v, hv, rfl⟩ := unescape_other hc hu
      by_cases hquote : c = '"'
      · subst hquote
        rw [splitAs_close, splitAs_close]
        exact ih h.2 hv args cur true
      · rw [decide_eq_true hquote] at ih h
        rw [splitAs_within _ _ _ _ hc hquote, splitAs_within _ _ _ _ hc hquote, ih h.2 hv]

/-- Its arguments are plain. -/
theorem enough_of_alike {isOpen : Bool} {t : Text} (h : ReadAlike isOpen t) (hline : '\n' ∉ t) :
    Enough isOpen false t := by
  have htakes : ∀ {c : Char}, c ∉ ['\\', '`', '$'] → c ≠ '"' → c ≠ '\n' → Takes false c := by
    intro c hc hquote hnewline
    simp only [List.mem_cons, List.not_mem_nil, or_false, not_or] at hc
    simp [Takes, hc, hquote, hnewline]
  induction isOpen, t using ReadAlike.induct with
  -- The end.
  | case1 isOpen =>
      obtain rfl : isOpen = false := h
      rw [Enough]
  -- Outside of quotes.
  | case2 c rest ih =>
      rw [ReadAlike] at h
      rw [List.mem_cons, not_or] at hline
      have hrest := ih h.2 hline.2
      rw [Enough]
      split
      · rename_i hquote
        rwa [decide_eq_true hquote] at hrest
      · rename_i hquote
        rw [decide_eq_false hquote] at hrest
        split
        · exact ⟨rfl, hrest⟩
        · refine ⟨htakes h.1 hquote (Ne.symm hline.1), ?_⟩
          rwa [decide_eq_false fun hc => h.1 (by simp [hc])]
  -- Two backslashes and what is behind them.
  | case3 c rest ih =>
      rw [ReadAlike] at h
      have hother : c ≠ '"' ∧ c ≠ '`' ∧ c ≠ '$' ∧ c ≠ '\\' := by simpa [quotedSpecial] using h.1
      simp only [List.mem_cons, not_or] at hline
      rw [Enough, if_pos (by decide), enough_cons hother.2.2.2, if_neg hother.1]
      refine ⟨by simp [Takes], ?_, ih h.2 hline.2.2.2⟩
      simp [Takes, hother, Ne.symm hline.2.2.1]
  -- Any other character within quotes.
  | case4 c rest hpair ih =>
      rw [ReadAlike] at h
      swap
      · exact hpair
      rw [List.mem_cons, not_or] at hline
      have hrest := ih h.2 hline.2
      rw [enough_cons fun hc => h.1 (by simp [hc])]
      split
      · rename_i hquote
        rwa [decide_eq_false (not_not.mpr hquote)] at hrest
      · rename_i hquote
        rw [decide_eq_true hquote] at hrest
        exact ⟨htakes h.1 hquote (Ne.symm hline.1), hrest⟩

/-! ## Section 5: The Program -/

/-- What the quoting rules make of the text of a word. -/
structure WordOf (text w : Text) : Prop where
  slash : '/' ∈ w ↔ '/' ∈ text
  exact : '\\' ∉ text → w = text.filter (· ≠ '"')
  special : '\\' ∈ text → ∃ c ∈ w, c ∈ quotedSpecial

theorem WordOf.nil : WordOf [] [] :=
  ⟨Iff.rfl, fun _ => rfl, by simp⟩

theorem WordOf.quote {text w : Text} (h : WordOf text w) : WordOf ('"' :: text) w where
  slash := by simp [h.slash]
  exact hback := by simpa using h.exact (by simpa using hback)
  special hback := h.special (by simpa using hback)

theorem WordOf.cons {text w : Text} {c : Char} (h : WordOf text w) (hquote : c ≠ '"') :
    WordOf (c :: text) (c :: w) where
  slash := by simp [h.slash]
  exact hback := by
    rw [List.mem_cons, not_or] at hback
    rw [List.filter_cons_of_pos (by simpa using hquote), ← h.exact hback.2]
  special hback := by
    rcases List.mem_cons.mp hback with rfl | hback
    · exact ⟨'\\', List.mem_cons_self, by decide⟩
    · obtain ⟨d, hd, hspecial⟩ := h.special hback
      exact ⟨d, List.mem_cons_of_mem _ hd, hspecial⟩

theorem WordOf.escape {text w : Text} (h : WordOf text w) (e : Char) :
    WordOf ('\\' :: e :: text) ((if e ∈ quotedSpecial then [e] else ['\\', e]) ++ w) where
  slash := by
    split
    · simp [h.slash]
    · simp [h.slash]
  exact hback := absurd List.mem_cons_self hback
  special _ := by
    split
    · rename_i he
      exact ⟨e, by simp, he⟩
    · exact ⟨'\\', by simp, by decide⟩

/-- A word is read to its end. -/
theorem splitAs_firstWord {isOpen : Bool} {t : Text} (h : Closed isOpen t) (args : List Text) (cur : Text) :
    ∃ w, WordOf (firstWord isOpen t).1 w ∧
      splitAs isOpen args cur true t = splitAs false (args ++ [cur ++ w]) [] false (firstWord isOpen t).2 := by
  induction isOpen, t using firstWord.induct generalizing cur with
  -- The end.
  | case1 isOpen =>
      obtain rfl : isOpen = false := h
      exact ⟨[], WordOf.nil, by simp [splitAs, splitPlain, firstWord]⟩
  -- A blank ends the word.
  | case2 c rest hblank =>
      rw [firstWord, if_pos hblank]
      exact ⟨[], WordOf.nil, by simp [splitAs_blank _ _ _ _ hblank]⟩
  -- A character of the word.
  | case3 c rest hblank ih =>
      rw [Closed] at h
      rw [firstWord, if_neg hblank]
      by_cases hquote : c = '"'
      · subst hquote
        obtain ⟨w, hw, hsplit⟩ := ih h cur
        exact ⟨w, hw.quote, by rw [splitAs_open]; exact hsplit⟩
      · rw [decide_eq_false hquote] at ih h ⊢
        obtain ⟨w, hw, hsplit⟩ := ih h (cur ++ [c])
        refine ⟨c :: w, hw.cons hquote, ?_⟩
        rw [splitAs_other _ _ _ _ hquote (by simpa using hblank), hsplit, List.append_cons cur c w]
  -- A backslash and the character behind it.
  | case4 e rest ih =>
      rw [closed_backslash] at h
      rw [firstWord]
      obtain ⟨w, hw, hsplit⟩ := ih h (cur ++ if e ∈ quotedSpecial then [e] else ['\\', e])
      exact ⟨_, hw.escape e, by rw [splitAs_escape, hsplit, List.append_assoc]⟩
  -- Any other character within quotes.
  | case5 c rest hescape ih =>
      have hc : c ≠ '\\' := by
        rintro rfl
        cases rest with
        | nil => exact h
        | cons e rest => exact hescape e rest rfl rfl
      rw [closed_cons hc] at h
      rw [firstWord_cons hc]
      by_cases hquote : c = '"'
      · subst hquote
        obtain ⟨w, hw, hsplit⟩ := ih h cur
        exact ⟨w, hw.quote, by rw [splitAs_close]; exact hsplit⟩
      · rw [decide_eq_true hquote] at ih h ⊢
        obtain ⟨w, hw, hsplit⟩ := ih h (cur ++ [c])
        refine ⟨c :: w, hw.cons hquote, ?_⟩
        rw [splitAs_within _ _ _ _ hc hquote, hsplit, List.append_cons cur c w]

/-- Blanks in front of the first word do not matter. -/
theorem splitAs_dropWhile (t : Text) (args : List Text) :
    splitAs false args [] false (t.dropWhile blank) = splitAs false args [] false t := by
  induction t with
  | nil => rfl
  | cons c rest ih =>
      cases hblank : blank c with
      | true => rw [List.dropWhile_cons_of_pos hblank, splitAs_blank _ _ _ _ hblank, ih]; rfl
      | false => rw [List.dropWhile_cons_of_neg (by simp [hblank])]

theorem closed_dropWhile (t : Text) : Closed false (t.dropWhile blank) ↔ Closed false t := by
  rw [← splitAs_isOk false _ [] [] false, splitAs_dropWhile, splitAs_isOk]

/-- The arguments so far stay in front. -/
theorem splitAs_behind (isOpen : Bool) (t : Text) (args : List Text) (cur : Text) (hasCur : Bool) :
    splitAs isOpen args cur hasCur t = (splitAs isOpen [] cur hasCur t).map (args ++ ·) := by
  induction isOpen, t using Closed.induct generalizing args cur hasCur with
  -- The end.
  | case1 isOpen =>
      cases isOpen with
      | true => simp [splitAs, splitQuoted, Except.map]
      | false => cases hasCur <;> simp [splitAs, splitPlain, Except.map]
  -- Outside of quotes.
  | case2 c rest ih =>
      by_cases hquote : c = '"'
      · subst hquote
        rw [splitAs_open, splitAs_open]
        exact ih args cur true
      rw [decide_eq_false hquote] at ih
      cases hblank : blank c with
      | false =>
          rw [splitAs_other _ _ _ _ hquote hblank, splitAs_other _ _ _ _ hquote hblank]
          exact ih args _ true
      | true =>
          rw [splitAs_blank _ _ _ _ hblank, splitAs_blank _ _ _ _ hblank]
          split
          · rw [ih (args ++ [cur]), ih ([] ++ [cur])]
            cases splitAs false [] [] false rest <;> simp [Except.map]
          · exact ih args cur false
  -- A backslash with nothing behind it.
  | case3 => simp [splitAs, splitQuoted, Except.map]
  -- A backslash and the character behind it.
  | case4 e rest ih =>
      rw [splitAs_escape, splitAs_escape]
      exact ih args _ true
  -- Any other character within quotes.
  | case5 c rest hlone hescape ih =>
      have hc : c ≠ '\\' := by
        rintro rfl
        cases rest with
        | nil => exact hlone rfl rfl
        | cons e rest => exact hescape e rest rfl rfl
      by_cases hquote : c = '"'
      · subst hquote
        rw [splitAs_close, splitAs_close]
        exact ih args cur true
      · rw [decide_eq_true hquote] at ih
        rw [splitAs_within _ _ _ _ hc hquote, splitAs_within _ _ _ _ hc hquote]
        exact ih args _ true

/-- A value is split into its program and what is behind it. -/
theorem splitExec_program {value : Text} (h : Closed false value) (hword : ∃ c ∈ value, blank c = false) :
    ∃ w zs, WordOf (programText value) w ∧ splitExec value = .ok (w :: zs) ∧
      splitAs false [] [] false (argsText value) = .ok zs := by
  obtain ⟨ys, hys⟩ := (splitAs_isOk false value [] [] false).mpr h
  have hclosed := (closed_dropWhile value).mpr h
  rw [← splitAs_dropWhile] at hys
  rw [programText, argsText]
  cases hdrop : value.dropWhile blank with
  | nil =>
      obtain ⟨c, hc, hblank⟩ := hword
      have hall := List.dropWhile_eq_nil_iff.mp hdrop c hc
      simp [hall] at hblank
  | cons c rest =>
      have hblank : blank c = false := by
        have hhead := List.head_dropWhile_not blank (l := value) (by simp [hdrop])
        simpa [hdrop] using hhead
      -- The first character of the program begins its word.
      have hbegin : splitAs false [] [] false (c :: rest) = splitAs false [] [] true (c :: rest) := by
        by_cases hquote : c = '"'
        · subst hquote
          rw [splitAs_open, splitAs_open]
        · rw [splitAs_other _ _ _ _ hquote hblank, splitAs_other _ _ _ _ hquote hblank]
      rw [hdrop] at hys hclosed
      obtain ⟨w, hw, hsplit⟩ := splitAs_firstWord hclosed [] []
      rw [hbegin, hsplit, splitAs_behind] at hys
      cases hrest : splitAs false [] [] false (firstWord false (c :: rest)).2 with
      | error e => simp [hrest, Except.map] at hys
      | ok zs =>
          refine ⟨w, zs, hw, ?_, rfl⟩
          show splitAs false [] [] false value = _
          rw [← splitAs_dropWhile, hdrop, hbegin, hsplit, splitAs_behind, hrest]
          rfl

theorem bare_iff {text w : Text} (hw : WordOf text w) : Bare text ↔ ¬(w = "env".toList ∨ '/' ∈ w) := by
  have henv : w = "env".toList ↔ text.filter (· ≠ '"') = "env".toList := by
    by_cases hback : '\\' ∈ text
    · refine iff_of_false ?_ ?_
      · rintro rfl
        obtain ⟨c, hc, hspecial⟩ := hw.special hback
        revert c
        decide
      · intro hfilter
        have hname : '\\' ∈ "env".toList := hfilter ▸ List.mem_filter.mpr ⟨hback, by decide⟩
        revert hname
        decide
    · rw [hw.exact hback]
  rw [Bare, henv, hw.slash, not_or, and_comm]

theorem classify_bare {text w : Text} (hw : WordOf text w) (h : Bare text) (zs : List Text) :
    classify (w :: zs) [] = .ok (.command zs) := by
  rw [classify, if_neg ((bare_iff hw).mp h), filter_keep_nil]

theorem classify_not_bare {text w : Text} (hw : WordOf text w) (h : ¬Bare text) (zs : List Text) :
    classify (w :: zs) [] = .ok (.exec (w :: zs)) := by
  rw [classify, if_pos (not_not.mp fun hnot => h ((bare_iff hw).mpr hnot)), filter_keep_nil]

theorem firstWord_suffix (isOpen : Bool) (t : Text) : (firstWord isOpen t).2 <:+ t := by
  induction isOpen, t using firstWord.induct with
  -- The end.
  | case1 isOpen => simp [firstWord]
  -- A blank ends the word.
  | case2 c rest hblank => simp [firstWord, hblank]
  -- A character of the word.
  | case3 c rest hblank ih =>
      rw [firstWord, if_neg hblank]
      exact ih.trans (List.suffix_cons c rest)
  -- A backslash and the character behind it.
  | case4 e rest ih =>
      rw [firstWord]
      exact (ih.trans (List.suffix_cons e rest)).trans (List.suffix_cons _ _)
  -- Any other character within quotes.
  | case5 c rest hescape ih =>
      rw [firstWord]
      · exact ih.trans (List.suffix_cons c rest)
      · exact hescape

theorem argsText_suffix (value : Text) : argsText value <:+ value :=
  (firstWord_suffix false _).trans (List.dropWhile_suffix _)

/-! ## Section 6: The Lines That Are Right -/

theorem word_of_splitExec {value : Text} {args : List Text} (h : splitExec value = .ok args)
    (hargs : args ≠ []) : ∃ c ∈ value, blank c = false := by
  by_contra hnone
  simp only [not_exists, not_and, Bool.not_eq_false] at hnone
  have hdrop : value.dropWhile blank = [] := List.dropWhile_eq_nil_iff.mpr hnone
  have hsplit : splitAs false [] [] false value = .ok args := h
  rw [← splitAs_dropWhile, hdrop] at hsplit
  exact hargs (by simpa [splitAs, splitPlain] using hsplit.symm)

theorem readExec_eq_some {value : Text} (hline : '\n' ∉ value) {args : List Text} :
    readExec value = some args ↔ ∃ u, unescape value = some u ∧ splitExec u = .ok args := by
  have hvalue : line value = value := List.takeWhile_eq_self_iff.mpr fun c hc => by
    rw [decide_eq_true_eq]
    rintro rfl
    exact hline hc
  rw [readExec, hvalue, Option.bind_eq_bind, Option.bind_eq_some_iff]
  exact exists_congr fun u => and_congr_right fun _ => toOption_eq_some

theorem classify_ne_nil {args : List Text} {launch : Launch} (h : classify args [] = .ok launch) : args ≠ [] := by
  rintro rfl
  cases h

/-- A value with a launch by the quoting rules alone and by both is a line. -/
theorem IsLine.of_launches {value u : Text} {args args' : List Text} (hargs : splitExec value = .ok args)
    (hne : args ≠ []) (hu : unescape value = some u) (hargs' : splitExec u = .ok args') (hne' : args' ≠ []) :
    IsLine value where
  closed := (splitAs_isOk false value [] [] false).mp ⟨args, hargs⟩
  word := word_of_splitExec hargs hne
  meant := ⟨u, hu, (splitAs_isOk false u [] [] false).mp ⟨args', hargs'⟩, word_of_splitExec hargs' hne'⟩

/-- Where a text is split into the same plain arguments before and after the escapes, it is read alike. -/
theorem alike_of_same {t u : Text} {ys : List Text} (hu : unescape t = some u)
    (h : splitAs false [] [] false t = .ok ys) (h' : splitAs false [] [] false u = .ok ys)
    (hplain : ∀ a ∈ ys, Plain a) : ReadAlike false t := by
  obtain ⟨-, -, henough⟩ := (plain_splitAs (fun _ => rfl) h).mp hplain
  have hclosed := (splitAs_isOk false u [] [] false).mp ⟨ys, h'⟩
  have htaken := length_of_splitAs (fun _ => rfl) h
  rw [length_of_splitAs (fun _ => rfl) h'] at htaken
  exact (outrun t.length le_rfl henough hu hclosed).2 (Nat.add_left_cancel htaken)

theorem plain_of_alike {t : Text} {ys : List Text} (halike : ReadAlike false t) (hline : '\n' ∉ t)
    (h : splitAs false [] [] false t = .ok ys) : ∀ a ∈ ys, Plain a :=
  (plain_splitAs (fun _ => rfl) h).mpr ⟨by simp, begun_nil, enough_of_alike halike hline⟩

theorem carriedOver_of_fair {t : Target} {value : Text} (hline : '\n' ∉ value)
    (h : IsLine value → Fair t value) : CarriedOver t value := by
  rw [carriedOver_iff]
  intro args args' launch launch' hargs hread hlaunch hlaunch'
  obtain ⟨u, hu, hargs'⟩ := (readExec_eq_some hline).mp hread
  have hvalue := IsLine.of_launches hargs (classify_ne_nil hlaunch) hu hargs' (classify_ne_nil hlaunch')
  obtain ⟨hcommand, hfair⟩ := h hvalue
  suffices hsame : launch = launch' ∧ ∀ a ∈ launch.args, Plain a from
    ⟨hsame.1, List.forall_mem_append.mpr ⟨hcommand, hsame.2⟩⟩
  rcases hfair with ⟨u', hu', hbare, hbare', hends, halike⟩ | ⟨hbare, halike⟩
  · obtain rfl : u = u' := Option.some.inj (hu.symm.trans hu')
    obtain ⟨w, zs, hw, hsplit, hzs⟩ := splitExec_program hvalue.closed hvalue.word
    obtain ⟨w', zs', hw', hsplit', hzs'⟩ := splitExec_program
      ((splitAs_isOk false u [] [] false).mp ⟨args', hargs'⟩)
      (word_of_splitExec hargs' (classify_ne_nil hlaunch'))
    obtain rfl : w :: zs = args := Except.ok.inj (hsplit.symm.trans hargs)
    obtain rfl : w' :: zs' = args' := Except.ok.inj (hsplit'.symm.trans hargs')
    -- Both go on behind the program with the same text.
    obtain rfl : zs' = zs := by
      rw [splitAs_alike halike hends, hzs] at hzs'
      exact (Except.ok.inj hzs').symm
    rw [classify_bare hw hbare] at hlaunch
    rw [classify_bare hw' hbare'] at hlaunch'
    obtain rfl := Except.ok.inj hlaunch
    obtain rfl := Except.ok.inj hlaunch'
    have hargsLine : '\n' ∉ argsText value := fun hmem => hline ((argsText_suffix value).subset hmem)
    exact ⟨rfl, plain_of_alike halike hargsLine hzs⟩
  · obtain ⟨w, zs, hw, hsplit, -⟩ := splitExec_program hvalue.closed hvalue.word
    obtain rfl : w :: zs = args := Except.ok.inj (hsplit.symm.trans hargs)
    have hsame : splitAs false [] [] false u = splitAs false [] [] false value := splitAs_alike halike hu [] [] false
    obtain rfl : w :: zs = args' := Except.ok.inj (hargs.symm.trans (hsame.symm.trans hargs'))
    rw [classify_not_bare hw hbare] at hlaunch hlaunch'
    obtain rfl := Except.ok.inj hlaunch
    obtain rfl := Except.ok.inj hlaunch'
    exact ⟨rfl, plain_of_alike halike hline hargs⟩

theorem fair_of_carriedOver {t : Target} {value : Text} (hline : '\n' ∉ value) (hsettled : Settled value)
    (h : CarriedOver t value) (hvalue : IsLine value) : Fair t value := by
  rw [carriedOver_iff] at h
  obtain ⟨u, hu, hclosed', hword'⟩ := hvalue.meant
  obtain ⟨w, zs, hw, hsplit, hzs⟩ := splitExec_program hvalue.closed hvalue.word
  obtain ⟨w', zs', hw', hsplit', hzs'⟩ := splitExec_program hclosed' hword'
  have hread := (readExec_eq_some hline).mpr ⟨u, hu, hsplit'⟩
  by_cases hbare : Bare (programText value)
  · have hlaunch := classify_bare hw hbare zs
    by_cases hbare' : Bare (programText u)
    · obtain ⟨hsame, hplain⟩ := h _ _ _ _ hsplit hread hlaunch (classify_bare hw' hbare' zs')
      obtain rfl : zs = zs' := Launch.command.inj hsame
      obtain ⟨hcommand, hzsPlain⟩ := List.forall_mem_append.mp hplain
      have hends := hsettled hbare u hu
      exact ⟨hcommand, Or.inl ⟨u, hu, hbare, hbare', hends, alike_of_same hends hzs hzs' hzsPlain⟩⟩
    · have hsame := (h _ _ _ _ hsplit hread hlaunch (classify_not_bare hw' hbare' zs')).1
      cases hsame
  · have hlaunch := classify_not_bare hw hbare zs
    by_cases hbare' : Bare (programText u)
    · have hsame := (h _ _ _ _ hsplit hread hlaunch (classify_bare hw' hbare' zs')).1
      cases hsame
    · obtain ⟨hsame, hplain⟩ := h _ _ _ _ hsplit hread hlaunch (classify_not_bare hw' hbare' zs')
      rw [← Launch.exec.inj hsame] at hsplit'
      obtain ⟨hcommand, hargs⟩ := List.forall_mem_append.mp hplain
      exact ⟨hcommand, Or.inr ⟨hbare, alike_of_same hu hsplit hsplit' hargs⟩⟩

/-- The lines that psbox writes run the exact arguments just where quoting is enough for them, and so
do those of the host that it rewrites. -/
theorem exec_lines_exact (t : Target) :
    (∀ args, readExec (t.exec args) = some (t.command ++ dashed args) ↔
      ∀ a ∈ t.command ++ args, Plain a) ∧
    ∀ value, '\n' ∉ value →
      ((IsLine value → Fair t value) → CarriedOver t value) ∧
      (Settled value → CarriedOver t value → IsLine value → Fair t value) :=
  ⟨fun _ => (readExec_joinExec _).trans plain_dashed, fun _ hline =>
    ⟨carriedOver_of_fair hline, fair_of_carriedOver hline⟩⟩

/-- What a host's program is given is carried over with a pair of backslashes within quotes. -/
theorem exec_lines_exact_pair :
    let t : Target := ⟨"/usr/bin/psbox".toList, "box".toList, "app".toList⟩
    let value := "run \"a\\\\b\" %u".toList
    IsLine value ∧ Fair t value ∧ CarriedOver t value := by
  intro t value
  have hu : unescape value = some "run \"a\\b\" %u".toList := by decide
  have hprogram : programText value = "run".toList := by decide
  have hprogram' : programText "run \"a\\b\" %u".toList = "run".toList := by decide
  have hargs : argsText value = " \"a\\\\b\" %u".toList := by decide
  have hbare : Bare "run".toList := by
    rw [Bare]
    decide
  have hcommand : ∀ a ∈ t.command, Plain a := by
    intro a ha
    refine plain_of_unquoted ?_
    revert a
    decide
  have hline : IsLine value := by
    refine ⟨?_, by decide, _, hu, ?_, by decide⟩ <;> simp [Closed, value]
  have hfair : Fair t value := by
    refine ⟨hcommand, Or.inl ⟨_, hu, hprogram ▸ hbare, hprogram' ▸ hbare, ?_, ?_⟩⟩
    · rw [ProgramEnds]
      decide
    · rw [hargs]
      simp [ReadAlike, quotedSpecial]
  exact ⟨hline, hfair, ((exec_lines_exact t).2 value (by decide)).1 fun _ => hfair⟩

/-- Of an argument of two backslashes one is left, and what a host's line runs with two arguments
is run with one. -/
theorem exec_lines_inexact :
    let t : Target := ⟨"/usr/bin/psbox".toList, "box".toList, "app".toList⟩
    readExec (t.exec ["\\\\".toList]) = some (t.command ++ dashed ["\\".toList]) ∧
    readExec (t.exec ["\\\\".toList]) ≠ some (t.command ++ dashed ["\\\\".toList]) ∧
    ¬CarriedOver t "run a\\sb".toList := by
  refine ⟨by decide, by decide, fun h => ?_⟩
  -- The host's line has two arguments, the rewritten one a single one.
  have hread := h [] _ ["run".toList, "a".toList, "b".toList] (.command ["a".toList, "b".toList])
    (rewritten_eq_ok.mpr ⟨["run".toList, "a\\sb".toList], .command ["a\\sb".toList],
      by decide, by decide, rfl⟩) (by decide) (by decide)
  revert hread
  decide

end Psbox.Desktop
