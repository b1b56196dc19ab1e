import Mathlib.Algebra.Ring.Nat
import Mathlib.Data.List.Basic
import Mathlib.Tactic.Common

/-!
# Exec Values

How `desktop.rs` splits the `Exec` value of a desktop entry into arguments, joins arguments to
one, and makes the command line that runs an app in its sandbox.

Whatever the arguments hold, they are split as they were joined (`splitExec_joinExec`).
-/

namespace Psbox.Desktop

/-- A `String`, as its characters. -/
abbrev Text := List Char

-- A text is tested by its characters, not by a search through all characters.
scoped instance (priority := 2000) decidableForallMem {p : Char → Prop} [DecidablePred p]
    (text : Text) : Decidable (∀ c ∈ text, p c) :=
  List.decidableBAll p text

scoped instance (priority := 2000) decidableExistsMem {p : Char → Prop} [DecidablePred p]
    (text : Text) : Decidable (∃ c ∈ text, p c) :=
  List.decidableBEx p text

/-! ## Section 1: Splitting and Joining -/

/-- The errors of an `Exec` value. -/
inductive ExecError where
  | unterminatedEscape
  | unterminatedQuote
  | empty
  deriving DecidableEq

/-- The characters that are escaped between quotes. -/
def quotedSpecial : List Char := ['"', '`', '$', '\\']

mutual

/-- `split_exec` outside quotes, with the arguments so far, the one that is read, and whether
there is one. -/
def splitPlain (args : List Text) (cur : Text) (hasCur : Bool) :
    Text → Except ExecError (List Text)
  | [] => .ok (if hasCur then args ++ [cur] else args)
  | c :: rest =>
      if c = '"' then splitQuoted args cur rest
      else if c = ' ' ∨ c = '\t' then
        if hasCur then splitPlain (args ++ [cur]) [] false rest
        else splitPlain args cur false rest
      else splitPlain args (cur ++ [c]) true rest

/-- `split_exec` between quotes. -/
def splitQuoted (args : List Text) (cur : Text) : Text → Except ExecError (List Text)
  | [] => .error .unterminatedQuote
  -- A backslash at the end escapes nothing.
  | ['\\'] => .error .unterminatedEscape
  | '\\' :: e :: rest =>
      if e ∈ quotedSpecial then splitQuoted args (cur ++ [e]) rest
      else splitQuoted args (cur ++ ['\\', e]) rest
  | c :: rest =>
      if c = '"' then splitPlain args cur true rest
      else splitQuoted args (cur ++ [c]) rest

end

/-- Splits an `Exec` value into arguments. -/
def splitExec (value : Text) : Except ExecError (List Text) :=
  splitPlain [] [] false value

/-- Characters for which an argument is quoted. -/
def needsQuotes : List Char :=
  [' ', '\t', '\n', '"', '\'', '\\', '>', '<', '~', '|', '&', ';', '$', '*', '?', '#', '(', ')', '`']

def quoteChar (c : Char) : Text :=
  if c ∈ quotedSpecial then ['\\', c] else [c]

def quoteArg (a : Text) : Text :=
  if a = [] ∨ ∃ c ∈ a, c ∈ needsQuotes then '"' :: (a.flatMap quoteChar ++ ['"']) else a

/-- Joins arguments into an `Exec` value, quoting where needed. -/
def joinExec : List Text → Text
  | [] => []
  | [a] => quoteArg a
  -- The arguments are parted by single blanks.
  | a :: b :: args => quoteArg a ++ ' ' :: joinExec (b :: args)

/-! ## Section 2: The Command Line of an Entry -/

/-- Field codes like `%u`; never removed by `remove-args`. The length is that in bytes. -/
def isFieldCode (arg : Text) : Bool :=
  -- `%` and one byte more, which an ASCII letter is.
  (arg.map Char.utf8Size).sum == 2 && arg.head? == some '%'

/-- The command line an `Exec` value runs inside the sandbox. -/
inductive Launch where
  /-- A bare program name: run the sandbox command with these arguments. -/
  | command (args : List Text)
  /-- A path or an `env` prefix: run this exact command line. -/
  | exec (args : List Text)
  deriving DecidableEq

def keep (removeArgs : List Text) (a : Text) : Bool :=
  isFieldCode a || !removeArgs.contains a

/-- `launch_for`, of the arguments. -/
def classify (args removeArgs : List Text) : Except ExecError Launch :=
  match args with
  -- There has to be a program.
  | [] => .error .empty
  | program :: rest =>
      if program = "env".toList ∨ '/' ∈ program then
        .ok (.exec ((program :: rest).filter (keep removeArgs)))
      else .ok (.command (rest.filter (keep removeArgs)))

/-- Classifies and filters an `Exec` value. -/
def launchFor (exec : Text) (removeArgs : List Text) : Except ExecError Launch := do
  let args ← splitExec exec
  classify args removeArgs

/-- How an entry starts its sandbox app. The path of psbox is what `to_string_lossy` makes of it. -/
structure Target where
  psbox : Text
  sandbox : Text
  app : Text

/-- `psbox run <sandbox> --app <app>`. -/
def Target.command (t : Target) : List Text :=
  [t.psbox, "run".toList, t.sandbox, "--app".toList, t.app]

/-- Arguments behind the command, when there are any. -/
def dashed (args : List Text) : List Text :=
  if args = [] then [] else "--".toList :: args

/-- The `Exec` value that runs the app with `args`. -/
def Target.exec (t : Target) (args : List Text) : Text :=
  joinExec (t.command ++ dashed args)

/-- What `rewrite` puts behind the command. -/
def Launch.argv : Launch → List Text
  | .command args => "--".toList :: args
  | .exec args => "--exec".toList :: "--".toList :: args

/-- The `Exec` value that `rewrite` replaces `exec` with. -/
def Target.rewritten (t : Target) (exec : Text) (removeArgs : List Text) : Except ExecError Text := do
  let launch ← launchFor exec removeArgs
  .ok (joinExec (t.command ++ launch.argv))

/-! ## Section 3: Joined Arguments Are Split Again -/

theorem splitPlain_word {w : Text} (hw : ∀ c ∈ w, c ≠ '"' ∧ c ≠ ' ' ∧ c ≠ '\t') (args : List Text)
    (cur rest : Text) :
    splitPlain args cur true (w ++ rest) = splitPlain args (cur ++ w) true rest := by
  -- By induction over the word.
  induction w generalizing cur with
  | nil => simp
  | cons c w ih =>
      obtain ⟨hq, hs, ht⟩ := hw c List.mem_cons_self
      have hrest := ih (fun c hc => hw c (List.mem_cons_of_mem _ hc)) (cur ++ [c])
      rw [List.append_assoc] at hrest
      simpa [splitPlain, hq, hs, ht] using hrest

theorem splitPlain_unquoted {a : Text} (hne : a ≠ []) (ha : ∀ c ∈ a, c ∉ needsQuotes)
    (args : List Text) (rest : Text) :
    splitPlain args [] false (a ++ rest) = splitPlain args a true rest := by
  have hword : ∀ c ∈ a, c ≠ '"' ∧ c ≠ ' ' ∧ c ≠ '\t' := by
    intro c hc
    have := ha c hc
    refine ⟨?_, ?_, ?_⟩ <;> rintro rfl <;> revert this <;> decide
  cases a with
  | nil => exact absurd rfl hne
  | cons c w =>
      obtain ⟨hq, hs, ht⟩ := hword c List.mem_cons_self
      have hrest := splitPlain_word (fun c hc => hword c (List.mem_cons_of_mem _ hc)) args [c] rest
      simpa [splitPlain, hq, hs, ht] using hrest

theorem splitQuoted_escaped (a : Text) (args : List Text) (cur rest : Text) :
    splitQuoted args cur (a.flatMap quoteChar ++ '"' :: rest) =
      splitPlain args (cur ++ a) true rest := by
  -- By induction over what was quoted; each character is read as itself.
  induction a generalizing cur with
  | nil => simp [splitQuoted]
  | cons c a ih =>
      rw [List.flatMap_cons, quoteChar]
      -- A special character has its backslash in front, which takes it in.
      by_cases hc : c ∈ quotedSpecial
      · rw [if_pos hc]
        simpa [splitQuoted, hc] using ih (cur ++ [c])
      · rw [if_neg hc]
        have hother : c ≠ '\\' ∧ c ≠ '"' := by
          refine ⟨?_, ?_⟩ <;> rintro rfl <;> exact hc (by decide)
        simpa [splitQuoted, hother.1, hother.2] using ih (cur ++ [c])

theorem splitPlain_quoteArg (a : Text) (args : List Text) (rest : Text) :
    splitPlain args [] false (quoteArg a ++ rest) = splitPlain args a true rest := by
  rw [quoteArg]
  split
  · simpa [splitPlain] using splitQuoted_escaped a args [] rest
  · rename_i h
    rw [not_or] at h
    exact splitPlain_unquoted h.1 (fun c hc hneeds => h.2 ⟨c, hc, hneeds⟩) args rest

theorem splitPlain_joinExec (l args : List Text) :
    splitPlain args [] false (joinExec l) = .ok (args ++ l) := by
  -- By induction over the arguments.
  induction l generalizing args with
  | nil => simp [joinExec, splitPlain]
  | cons a l ih =>
      cases l with
      | nil =>
          have h := splitPlain_quoteArg a args []
          rw [List.append_nil] at h
          rw [joinExec, h, splitPlain, if_pos rfl]
      | cons b l =>
          rw [joinExec, splitPlain_quoteArg, splitPlain, if_neg (by decide), if_pos (by decide),
            if_pos rfl, ih (args ++ [a])]
          simp

/-- What is joined is split again, whatever the arguments hold. -/
theorem splitExec_joinExec (l : List Text) : splitExec (joinExec l) = .ok l :=
  splitPlain_joinExec l []

end Psbox.Desktop
