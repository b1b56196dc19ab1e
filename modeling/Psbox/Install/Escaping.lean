import Psbox.Desktop.ExecReading
import Psbox.Install.Build

/-!
# What Escaping Keeps

When a value that was written for a configured text is one line, as a reader of the entry sees it:
escaping leaves no newline, but white space at an end that it does not know is lost there. The
arguments of an `Exec` are quoted and not escaped.

The value itself says what was escaped: the general escapes give the string back, and for a list
the split at the semicolons that are not escaped (`escape_lossless`).
-/

namespace Psbox.Install

open Psbox.Foundations Psbox.Desktop

/-! ## Section 1: Strings -/

/-- White space at the start of the text is written as an escape sequence. -/
def StartKept (s : Text) : Prop :=
  ∀ c ∈ s.head?, isWhitespace c → c ∈ [' ', '\t', '\n', '\r']

/-- White space at the end of the text is written as an escape sequence: a space only when it is
at the start too. -/
def EndKept (s : Text) : Prop :=
  ∀ c ∈ s.getLast?, isWhitespace c → c ∈ ['\t', '\n', '\r'] ∨ s = [' ']

private theorem escapeChar_eq {first : Bool} {c : Char} {out : Text} (h : escapeChar first c = some out) :
    (∃ d, out = ['\\', d] ∧ ¬isWhitespace d ∧
      (c = '\\' ∨ c ∈ ['\t', '\n', '\r'] ∨ c = ' ' ∧ first)) ∨
    (out = [c] ∧ c ∉ ['\\', '\t', '\n', '\r'] ∧ ¬(c = ' ' ∧ first)) := by
  rw [escapeChar] at h
  by_cases hslash : c = '\\'
  · rw [if_pos hslash] at h
    exact Or.inl ⟨'\\', (Option.some.inj h).symm, by decide, Or.inl hslash⟩
  rw [if_neg hslash] at h
  by_cases hnewline : c = '\n'
  · rw [if_pos hnewline] at h
    exact Or.inl ⟨'n', (Option.some.inj h).symm, by decide, Or.inr (Or.inl (by simp [hnewline]))⟩
  rw [if_neg hnewline] at h
  by_cases htab : c = '\t'
  · rw [if_pos htab] at h
    exact Or.inl ⟨'t', (Option.some.inj h).symm, by decide, Or.inr (Or.inl (by simp [htab]))⟩
  rw [if_neg htab] at h
  by_cases hreturn : c = '\r'
  · rw [if_pos hreturn] at h
    exact Or.inl ⟨'r', (Option.some.inj h).symm, by decide, Or.inr (Or.inl (by simp [hreturn]))⟩
  rw [if_neg hreturn] at h
  by_cases hspace : c = ' ' ∧ first
  · rw [if_pos hspace] at h
    exact Or.inl ⟨'s', (Option.some.inj h).symm, by decide, Or.inr (Or.inr hspace)⟩
  rw [if_neg hspace] at h
  split at h
  · cases h
  · exact Or.inr ⟨(Option.some.inj h).symm, by simp [hslash, htab, hnewline, hreturn], hspace⟩

private theorem escapeFrom_cons {first : Bool} {c : Char} {s out : Text}
    (h : escapeFrom first (c :: s) = some out) :
    ∃ o more, escapeChar first c = some o ∧ escapeFrom false s = some more ∧ out = o ++ more := by
  obtain ⟨o, ho, hrest⟩ := Option.bind_eq_some_iff.mp h
  obtain ⟨more, hmore, hout⟩ := Option.bind_eq_some_iff.mp hrest
  exact ⟨o, more, ho, hmore, (Option.some.inj hout).symm⟩

private theorem escapeFrom_noNewline {first : Bool} {s out : Text} (h : escapeFrom first s = some out) :
    '\n' ∉ out := by
  induction s generalizing first out with
  | nil =>
      obtain rfl := Option.some.inj h
      simp
  | cons c s ih =>
      obtain ⟨o, more, ho, hmore, rfl⟩ := escapeFrom_cons h
      rw [List.mem_append, not_or]
      refine ⟨?_, ih hmore⟩
      -- The character is escaped, and then its letter is no newline, or it is itself no newline.
      rcases escapeChar_eq ho with ⟨d, rfl, hd, _⟩ | ⟨rfl, hc, _⟩
      · intro hmem
        have hd' : '\n' = d := by simpa using hmem
        exact hd (hd' ▸ by decide)
      · intro hmem
        have hc' : '\n' = c := by simpa using hmem
        exact hc (hc' ▸ by decide)

private theorem escapeFrom_start {s out : Text} (h : escapeFrom true s = some out) :
    (∀ d ∈ out.head?, ¬isWhitespace d) ↔ StartKept s := by
  cases s with
  | nil =>
      obtain rfl := Option.some.inj h
      simp [StartKept]
  | cons c s =>
      obtain ⟨o, more, ho, _, rfl⟩ := escapeFrom_cons h
      rcases escapeChar_eq ho with ⟨d, rfl, _, hc⟩ | ⟨rfl, hc, hspace⟩
      -- A backslash in front is no blank, so what it stands for is kept.
      · have hstart : StartKept (c :: s) := by
          intro c' hc' hwhite
          obtain rfl : c = c' := by simpa using hc'
          rcases hc with rfl | hc | ⟨rfl, _⟩
          · cases hwhite
          · exact List.mem_cons_of_mem _ hc
          · exact List.mem_cons_self
        have hslash : ¬isWhitespace '\\' := by decide
        simpa [hstart] using hslash
      · have hother : c ∉ [' ', '\t', '\n', '\r'] := by
          have hne : c ≠ ' ' := fun heq => hspace ⟨heq, rfl⟩
          simp only [List.mem_cons, not_or] at hc ⊢
          exact ⟨hne, hc.2⟩
        -- A character that stays as it is has to be none itself.
        have hkept : ¬isWhitespace c ↔ (isWhitespace c → c ∈ [' ', '\t', '\n', '\r']) :=
          ⟨fun hnot hwhite => absurd hwhite hnot, fun h hwhite => hother (h hwhite)⟩
        simpa [StartKept] using hkept

private theorem escapeFrom_end {first : Bool} {s out : Text} (h : escapeFrom first s = some out) :
    (∀ d ∈ out.getLast?, ¬isWhitespace d) ↔
      ∀ c ∈ s.getLast?, isWhitespace c → c ∈ ['\t', '\n', '\r'] ∨ first ∧ s = [' '] := by
  induction s generalizing first out with
  | nil =>
      obtain rfl := Option.some.inj h
      simp
  | cons c s ih =>
      obtain ⟨o, more, ho, hmore, rfl⟩ := escapeFrom_cons h
      -- The last character, or one before it.
      cases s with
      | nil =>
          obtain rfl := Option.some.inj hmore
          rw [List.append_nil]
          rcases escapeChar_eq ho with ⟨d, rfl, hd, hc⟩ | ⟨rfl, hc, hspace⟩
          · have hkept : isWhitespace c → c ∈ ['\t', '\n', '\r'] ∨ first ∧ [c] = [' '] := by
              intro hwhite
              rcases hc with rfl | hc | ⟨rfl, hfirst⟩
              · cases hwhite
              · exact Or.inl hc
              · exact Or.inr ⟨hfirst, rfl⟩
            simpa using ⟨fun _ => by simpa using hkept, fun _ => by simpa using hd⟩
          · have hother : ¬(c ∈ ['\t', '\n', '\r'] ∨ first ∧ [c] = [' ']) := by
              rintro (hmem | ⟨hfirst, heq⟩)
              · exact hc (List.mem_cons_of_mem _ hmem)
              · exact hspace ⟨by simpa using heq, hfirst⟩
            simp only [List.getLast?_singleton, Option.mem_def, Option.some.injEq, forall_eq', hother,
              imp_false]
      | cons c' s =>
          have hne : more ≠ [] := by
            rintro rfl
            obtain ⟨o', more', ho', _, hnil⟩ := escapeFrom_cons hmore
            obtain ⟨rfl, rfl⟩ := List.append_eq_nil_iff.mp hnil.symm
            -- One character is written as one or two, never as none.
            rcases escapeChar_eq ho' with ⟨d, hd, _⟩ | ⟨hd, _⟩ <;> cases hd
          have hrest := ih hmore
          rw [List.getLast?_append_of_ne_nil _ hne, hrest]
          simp

private theorem escape_eq_ok {s out : Text} : escape s = .ok out ↔ escapeFrom true s = some out := by
  rw [escape]
  split <;> simp_all

/-- An escaped value is one line when the white space at its ends is escaped. -/
theorem oneLine_escape {s out : Text} (h : escape s = .ok out) :
    OneLine out ↔ StartKept s ∧ EndKept s := by
  have h := escape_eq_ok.mp h
  have hend := escapeFrom_end h
  simp only [true_and] at hend
  constructor
  · intro hone
    exact ⟨(escapeFrom_start h).mp hone.trimmed.1, hend.mp hone.trimmed.2⟩
  · intro hkept
    exact ⟨escapeFrom_noNewline h, (escapeFrom_start h).mpr hkept.1, hend.mpr hkept.2⟩

/-! ## Section 2: Lists -/

private theorem escapeList_cons {item out : Text} {items : List Text}
    (h : escapeList (item :: items) = .ok out) :
    ∃ o more, escape item = .ok o ∧ escapeList items = .ok more ∧
      out = o.flatMap escapeSeparator ++ ';' :: more := by
  obtain ⟨o, ho, hrest⟩ := bind_eq_ok h
  obtain ⟨more, hmore, hout⟩ := bind_eq_ok hrest
  exact ⟨o, more, ho, hmore, (Except.ok.inj hout).symm⟩

private theorem escapeList_noNewline {items : List Text} {out : Text} (h : escapeList items = .ok out) :
    '\n' ∉ out := by
  induction items generalizing out with
  | nil =>
      obtain rfl := Except.ok.inj h
      simp
  | cons item items ih =>
      obtain ⟨o, more, ho, hmore, rfl⟩ := escapeList_cons h
      have hitem := escapeFrom_noNewline (escape_eq_ok.mp ho)
      have hseparated : '\n' ∉ o.flatMap escapeSeparator := by
        rw [List.mem_flatMap]
        rintro ⟨c, hc, hmem⟩
        rw [escapeSeparator] at hmem
        split at hmem
        · simp at hmem
        · obtain rfl : '\n' = c := by simpa using hmem
          exact hitem hc
      simp [hseparated, ih hmore]

private theorem escapeList_end {items : List Text} {out : Text} (h : escapeList items = .ok out) :
    ∀ c ∈ out.getLast?, ¬isWhitespace c := by
  induction items generalizing out with
  | nil =>
      obtain rfl := Except.ok.inj h
      simp
  | cons item items ih =>
      obtain ⟨o, more, _, hmore, rfl⟩ := escapeList_cons h
      have hrest := ih hmore
      rw [List.getLast?_append_of_ne_nil _ (List.cons_ne_nil _ _), List.getLast?_cons]
      cases hlast : more.getLast? with
      | none => simpa using (by decide : ¬isWhitespace ';')
      | some d => simpa [hlast] using hrest

private theorem head_separated {o more : Text} :
    (∀ d ∈ (o.flatMap escapeSeparator ++ ';' :: more).head?, ¬isWhitespace d) ↔
      ∀ d ∈ o.head?, ¬isWhitespace d := by
  cases o with
  | nil => simpa using (by decide : ¬isWhitespace ';')
  | cons c o =>
      rw [List.flatMap_cons, escapeSeparator]
      split
      · rename_i hc
        subst hc
        simp [show isWhitespace '\\' = false by decide, show isWhitespace ';' = false by decide]
      · simp

/-- Only the start of the first item can be lost: every item ends with a semicolon. -/
theorem oneLine_escapeList {items : List Text} {out : Text} (h : escapeList items = .ok out) :
    OneLine out ↔ ∀ item ∈ items.head?, StartKept item := by
  -- The first item decides how the list starts.
  have hstart : (∀ d ∈ out.head?, ¬isWhitespace d) ↔ ∀ item ∈ items.head?, StartKept item := by
    cases items with
    | nil =>
        obtain rfl := Except.ok.inj h
        simp
    | cons item items =>
        obtain ⟨o, more, ho, _, rfl⟩ := escapeList_cons h
        rw [head_separated, escapeFrom_start (escape_eq_ok.mp ho)]
        simp
  rw [← hstart]
  exact ⟨fun hone => hone.trimmed.1,
    fun hhead => ⟨escapeList_noNewline h, hhead, escapeList_end h⟩⟩

/-! ## Section 3: Arguments -/

def Quoted (a : Text) : Prop :=
  a = [] ∨ ∃ c ∈ a, c ∈ needsQuotes

/-- White space at the start of the argument is between quotes. -/
def ArgStartKept (a : Text) : Prop :=
  ∀ c ∈ a.head?, isWhitespace c → Quoted a

/-- White space at the end of the argument is between quotes. -/
def ArgEndKept (a : Text) : Prop :=
  ∀ c ∈ a.getLast?, isWhitespace c → Quoted a

/-- The arguments that follow others: none holds a newline, which quotes do not take away. -/
def ArgsKept (args : List Text) : Prop :=
  (∀ a ∈ args, '\n' ∉ a) ∧ ∀ a ∈ args.getLast?, ArgEndKept a

private theorem mem_quoteArg_newline {a : Text} : '\n' ∈ quoteArg a ↔ '\n' ∈ a := by
  -- None of the characters that are quoted is a newline.
  have hspecial : ∀ c ∈ quotedSpecial, c ≠ '\n' := by decide
  rw [quoteArg]
  split
  · simp only [List.mem_cons, List.mem_append, List.mem_flatMap, quoteChar, List.not_mem_nil, or_false]
    constructor
    · rintro (h | ⟨c, hc, h⟩ | h)
      · cases h
      · split at h
        · rename_i hmem
          have : '\n' = c := by simpa using h
          exact this ▸ hc
        · have : '\n' = c := by simpa using h
          exact this ▸ hc
      · cases h
    · intro h
      exact Or.inr (Or.inl ⟨'\n', h, by simp [quotedSpecial]⟩)
  · exact Iff.rfl

private theorem quoteArg_ne_nil (a : Text) : quoteArg a ≠ [] := by
  rw [quoteArg]
  split
  · exact List.cons_ne_nil _ _
  · rename_i h
    exact fun hnil => h (Or.inl hnil)

private theorem quoteArg_start {a : Text} : (∀ c ∈ (quoteArg a).head?, ¬isWhitespace c) ↔ ArgStartKept a := by
  rw [quoteArg, ArgStartKept, Quoted]
  split
  · rename_i h
    simpa [h] using (by decide : ¬isWhitespace '"')
  · rename_i h
    simp [h]

private theorem quoteArg_end {a : Text} : (∀ c ∈ (quoteArg a).getLast?, ¬isWhitespace c) ↔ ArgEndKept a := by
  rw [quoteArg, ArgEndKept, Quoted]
  split
  · rename_i h
    rw [← List.cons_append, List.getLast?_concat]
    simpa [h] using (by decide : ¬isWhitespace '"')
  · rename_i h
    simp [h]

private theorem joinExec_ne_nil (a : Text) (args : List Text) : joinExec (a :: args) ≠ [] := by
  cases args with
  | nil => exact quoteArg_ne_nil a
  | cons b args => simp [joinExec, quoteArg_ne_nil]

private theorem mem_joinExec_newline {args : List Text} : '\n' ∈ joinExec args ↔ ∃ a ∈ args, '\n' ∈ a := by
  induction args with
  | nil => simp [joinExec]
  | cons a args ih =>
      cases args with
      | nil => simp [joinExec, mem_quoteArg_newline]
      | cons b args =>
          rw [joinExec, List.mem_append, List.mem_cons, mem_quoteArg_newline, ih]
          simp

private theorem head_joinExec (a : Text) (args : List Text) :
    (joinExec (a :: args)).head? = (quoteArg a).head? := by
  cases args with
  | nil => rfl
  | cons b args => rw [joinExec, List.head?_append_of_ne_nil _ (quoteArg_ne_nil a)]

private theorem getLast_joinExec {args : List Text} {a : Text} (h : a ∈ args.getLast?) :
    (joinExec args).getLast? = (quoteArg a).getLast? := by
  induction args with
  | nil => cases h
  | cons b args ih =>
      cases args with
      | nil =>
          obtain rfl : b = a := by simpa using h
          rfl
      | cons c args =>
          rw [joinExec, List.getLast?_append_of_ne_nil _ (List.cons_ne_nil _ _),
            List.getLast?_cons_of_ne_nil (joinExec_ne_nil c args)]
          exact ih (by simpa using h)

/-- A command line is one line as its arguments are. -/
theorem oneLine_joinExec (a : Text) (args : List Text) :
    OneLine (joinExec (a :: args)) ↔ ArgStartKept a ∧ ArgsKept (a :: args) := by
  obtain ⟨last, hlast⟩ : ∃ last, last ∈ (a :: args).getLast? :=
    Option.ne_none_iff_exists'.mp (by simp)
  -- Quotes take no newline away.
  have hnewline : '\n' ∉ joinExec (a :: args) ↔ ∀ b ∈ a :: args, '\n' ∉ b := by
    rw [mem_joinExec_newline]
    simp
  have hstart : (∀ c ∈ (joinExec (a :: args)).head?, ¬isWhitespace c) ↔ ArgStartKept a := by
    rw [head_joinExec, quoteArg_start]
  have hend : (∀ c ∈ (joinExec (a :: args)).getLast?, ¬isWhitespace c) ↔
      ∀ b ∈ (a :: args).getLast?, ArgEndKept b := by
    rw [getLast_joinExec hlast, quoteArg_end, Option.mem_def.mp hlast]
    simp
  rw [ArgsKept, ← hnewline, ← hstart, ← hend]
  exact ⟨fun hone => ⟨hone.trimmed.1, hone.noNewline, hone.trimmed.2⟩,
    fun ⟨hs, hn, he⟩ => ⟨hn, hs, he⟩⟩

/-! ## Section 4: What Is Read Back -/

/-- Splits a list value at its unescaped semicolons, behind the item that is read. A semicolon
that is escaped stands for itself; every other escape is left to the item. -/
def splitItems (item : Text) : Text → List Text
  | [] => if item = [] then [] else [item]
  | '\\' :: c :: rest => splitItems (item ++ if c = ';' then [';'] else ['\\', c]) rest
  | c :: rest => if c = ';' then item :: splitItems [] rest else splitItems (item ++ [c]) rest

/-- The items of a list value. -/
def readList (value : Text) : Option (List Text) :=
  (splitItems [] value).mapM unescape

private theorem splitItems_cons {c : Char} (hslash : c ≠ '\\') (hseparator : c ≠ ';') (item rest : Text) :
    splitItems item (c :: rest) = splitItems (item ++ [c]) rest := by
  cases rest <;> simp [splitItems, hslash, hseparator]

/-- What a character is written as stands for it: an escape that there is, or itself. -/
theorem escapeChar_reads {first : Bool} {c : Char} {out : Text}
    (h : escapeChar first c = some out) :
    (∃ d, out = ['\\', d] ∧ unescapeChar d = some c) ∨
      (out = [c] ∧ c ∉ ['\\', '\n', '\t', '\r']) := by
  rw [escapeChar] at h
  split_ifs at h with hslash hnewline htab hreturn hspace
  · exact Or.inl ⟨'\\', (Option.some.inj h).symm, by simp [unescapeChar, hslash]⟩
  · exact Or.inl ⟨'n', (Option.some.inj h).symm, by simp [unescapeChar, hnewline]⟩
  · exact Or.inl ⟨'t', (Option.some.inj h).symm, by simp [unescapeChar, htab]⟩
  · exact Or.inl ⟨'r', (Option.some.inj h).symm, by simp [unescapeChar, hreturn]⟩
  · exact Or.inl ⟨'s', (Option.some.inj h).symm, by simp [unescapeChar, hspace.1]⟩
  · exact Or.inr ⟨(Option.some.inj h).symm, by simp [hslash, hnewline, htab, hreturn]⟩

private theorem unescapeChar_plain {c d : Char} (h : unescapeChar d = some c) :
    d ∉ [';', '\n', '\t', '\r'] := by
  intro hmem
  -- The escapes that there are.
  have hnone : ∀ e ∈ [';', '\n', '\t', '\r'], unescapeChar e = none := by decide
  rw [hnone d hmem] at h
  cases h

/-- Text without the characters that end a line or that a reader takes for blanks. -/
def NoRaw (t : Text) : Prop :=
  ∀ c ∈ ['\n', '\t', '\r'], c ∉ t

private theorem escapeFrom_noRaw {first : Bool} {s out : Text} (h : escapeFrom first s = some out) :
    NoRaw out := by
  induction s generalizing first out with
  | nil =>
      obtain rfl := Option.some.inj h
      simp [NoRaw]
  | cons c s ih =>
      obtain ⟨o, more, ho, hmore, rfl⟩ := escapeFrom_cons h
      intro raw hraw hmem
      rcases List.mem_append.mp hmem with hmem | hmem
      · rcases escapeChar_reads ho with ⟨d, rfl, hd⟩ | ⟨rfl, hc⟩
        · have hne : raw ≠ '\\' := by
            intro heq
            exact absurd (heq ▸ hraw) (by decide)
          obtain rfl : raw = d := by simpa [hne] using hmem
          exact unescapeChar_plain hd (List.mem_cons_of_mem _ hraw)
        · obtain rfl : raw = c := by simpa using hmem
          exact hc (List.mem_cons_of_mem _ hraw)
      · exact ih hmore raw hraw hmem

private theorem unescape_escapeFrom {first : Bool} {s out : Text} (h : escapeFrom first s = some out) :
    unescape out = some s := by
  induction s generalizing first out with
  | nil =>
      obtain rfl := Option.some.inj h
      rfl
  | cons c s ih =>
      obtain ⟨o, more, ho, hmore, rfl⟩ := escapeFrom_cons h
      have hrest := ih hmore
      -- Read back by the escape that there is, or as itself.
      rcases escapeChar_reads ho with ⟨d, rfl, hd⟩ | ⟨rfl, hc⟩
      · simp [unescape, hd, hrest]
      · have hslash : c ≠ '\\' := fun heq => hc (by simp [heq])
        simp [unescape_cons hslash, hrest]

/-- An item is split off as it was before its semicolons were escaped. -/
theorem splitItems_separated {first : Bool} {s out : Text} (h : escapeFrom first s = some out)
    (item rest : Text) :
    splitItems item (out.flatMap escapeSeparator ++ ';' :: rest) =
      (item ++ out) :: splitItems [] rest := by
  induction s generalizing first out item with
  | nil =>
      obtain rfl := Option.some.inj h
      cases rest <;> simp [splitItems]
  | cons c s ih =>
      obtain ⟨o, more, ho, hmore, rfl⟩ := escapeFrom_cons h
      have hrest := ih hmore
      rcases escapeChar_reads ho with ⟨d, rfl, hd⟩ | ⟨rfl, hc⟩
      · -- The escape holds no semicolon and stays whole.
        have hseparator : d ≠ ';' := fun heq => unescapeChar_plain hd (by simp [heq])
        simp [escapeSeparator, hseparator, splitItems, hrest]
      · have hslash : c ≠ '\\' := fun heq => hc (by simp [heq])
        -- A semicolon has a backslash of its own, which the list's reader takes away.
        by_cases hseparator : c = ';'
        · subst hseparator
          simp [escapeSeparator, splitItems, hrest]
        · simp [escapeSeparator, hseparator, splitItems_cons hslash hseparator, hrest]

private theorem noRaw_separated {out : Text} (h : NoRaw out) (more : Text) (hmore : NoRaw more) :
    NoRaw (out.flatMap escapeSeparator ++ ';' :: more) := by
  intro raw hraw hmem
  have hne : raw ≠ '\\' ∧ raw ≠ ';' := by
    constructor <;> intro heq <;> exact absurd (heq ▸ hraw) (by decide)
  simp only [List.mem_append, List.mem_flatMap, List.mem_cons, hne.2, false_or] at hmem
  rcases hmem with ⟨c, hc, hmem⟩ | hmem
  · rw [escapeSeparator] at hmem
    split at hmem
    · simp [hne] at hmem
    · obtain rfl : raw = c := by simpa using hmem
      exact h raw hraw hc
  · exact hmore raw hraw hmem

private theorem readList_escapeList {items : List Text} {out : Text} (h : escapeList items = .ok out) :
    NoRaw out ∧ readList out = some items := by
  induction items generalizing out with
  | nil =>
      obtain rfl := Except.ok.inj h
      simp [NoRaw, readList, splitItems]
  | cons item items ih =>
      obtain ⟨o, more, ho, hmore, rfl⟩ := escapeList_cons h
      have ho := escape_eq_ok.mp ho
      obtain ⟨hraw, hread⟩ := ih hmore
      refine ⟨noRaw_separated (escapeFrom_noRaw ho) more hraw, ?_⟩
      rw [readList] at hread ⊢
      rw [splitItems_separated ho, List.nil_append, List.mapM_cons, unescape_escapeFrom ho, hread]
      rfl

/-- What is written for a string or a list stands on one line and is read back as it was, so that
no two are written alike. -/
theorem escape_lossless :
    (∀ s out, escape s = .ok out → NoRaw out ∧ unescape out = some s) ∧
    (∀ items out, escapeList items = .ok out → NoRaw out ∧ readList out = some items) ∧
    (∀ s s' out, escape s = .ok out → escape s' = .ok out → s = s') ∧
    (∀ items items' out, escapeList items = .ok out → escapeList items' = .ok out →
      items = items') := by
  have hstring : ∀ s out, escape s = .ok out → NoRaw out ∧ unescape out = some s :=
    fun s out h => ⟨escapeFrom_noRaw (escape_eq_ok.mp h), unescape_escapeFrom (escape_eq_ok.mp h)⟩
  have hlist : ∀ items out, escapeList items = .ok out → NoRaw out ∧ readList out = some items :=
    fun items out h => readList_escapeList h
  refine ⟨hstring, hlist, ?_, ?_⟩
  · intro s s' out h h'
    -- Read back they are the same.
    have heq := (hstring s out h).2.symm.trans (hstring s' out h').2
    exact Option.some.inj heq
  · intro items items' out h h'
    have heq := (hlist items out h).2.symm.trans (hlist items' out h').2
    exact Option.some.inj heq

/-- Semicolons, backslashes, line breaks and spaces in front, and an empty item. -/
theorem escape_lossless_items :
    ∃ out, escapeList [" a;b".toList, [], "c\\;\n\td".toList] = .ok out ∧ NoRaw out ∧
      readList out = some [" a;b".toList, [], "c\\;\n\td".toList] := by
  have hok : ((escapeList [" a;b".toList, [], "c\\;\n\td".toList]).toOption).isSome = true := by
    decide
  obtain ⟨out, hout⟩ := Option.isSome_iff_exists.mp hok
  have hwritten := toOption_eq_some.mp hout
  exact ⟨out, hwritten, escape_lossless.2.1 _ out hwritten⟩

end Psbox.Install
