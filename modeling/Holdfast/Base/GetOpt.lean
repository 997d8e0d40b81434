/-
  Holdfast.Base.GetOpt — the options of a command line, as `getopt_long` takes them where the
  first word that is no option ends them.

  `--` ends them as well and is dropped. A long option has its argument behind a `=`, or as
  the next word if it must have one. Options of one letter and shortened names are refused.
-/

import Mathlib.Data.List.TakeWhile

namespace Holdfast.Base.GetOpt

abbrev Word := List Char

inductive HasArg where
  | no
  | required
  | optional
  deriving DecidableEq, Repr

abbrev Options := List (Word × HasArg)

/-- The name, and the argument behind the first `=`. -/
def splitValue (word : Word) : Word × Option Word :=
  match word.dropWhile (· ≠ '=') with
  | [] => (word, none)
  | _ :: value => (word.takeWhile (· ≠ '='), some value)

/-- What a word is where an option may stand. -/
inductive Kind where
  | ends
  | plain
  | option (name : Word) (value : Option Word)
  /-- Its argument is the next word. -/
  | wants (name : Word)
  | refused
  deriving DecidableEq, Repr

def longOption (long : Options) (name : Word) (value : Option Word) : Kind :=
  match long.lookup name, value with
  | some .no, none => .option name none
  | some .required, some value => .option name (some value)
  | some .required, none => .wants name
  | some .optional, value => .option name value
  | _, _ => .refused

def classify (long : Options) : Word → Kind
  | ['-', '-'] => .ends
  | '-' :: '-' :: name => longOption long (splitValue name).1 (splitValue name).2
  | '-' :: _ :: _ => .refused
  | _ => .plain

abbrev Parsed := Option (List (Word × Option Word) × List Word)

/-- One more option before the others. -/
def withOption (name : Word) (value : Option Word) (r : Parsed) : Parsed := r.map fun r => ((name, value) :: r.1, r.2)

/-- From a point where an option may stand, or the argument of one. -/
def getoptFrom (long : Options) : Option Word → List Word → Parsed
  | none, [] => some ([], [])
  | some _, [] => none
  | some name, value :: rest => withOption name (some value) (getoptFrom long none rest)
  | none, word :: rest =>
    match classify long word with
    | .ends => some ([], rest)
    | .plain => some ([], word :: rest)
    | .option name value => withOption name value (getoptFrom long none rest)
    | .wants name => getoptFrom long (some name) rest
    | .refused => none

/-- The options with their arguments, and the words after them. -/
def getopt (long : Options) (words : List Word) : Parsed := getoptFrom long none words

theorem splitValue_value {name : Word} (h : '=' ∉ name) (value : Word) :
    splitValue (name ++ '=' :: value) = (name, some value) := by
  have hall : ∀ c ∈ name, decide (c ≠ '=') = true := fun c hc => by
    rw [decide_eq_true_eq]
    exact fun heq => h (heq ▸ hc)
  rw [splitValue, List.dropWhile_append_of_pos hall, List.takeWhile_append_of_pos hall]
  show (name ++ List.takeWhile _ ('=' :: value), some value) = (name, some value)
  rw [List.takeWhile_cons_of_neg (by decide), List.append_nil]

/-- An option that is whole in its word. -/
theorem getopt_option {long : Options} {word name : Word} {value : Option Word} (h : classify long word = .option name value)
    (rest : List Word) : getopt long (word :: rest) = withOption name value (getopt long rest) := by
  rw [getopt, getoptFrom, h]
  rfl

/-- An option and the word after it. -/
theorem getopt_wants {long : Options} {word name : Word} (h : classify long word = .wants name)
    (value : Word) (rest : List Word) :
    getopt long (word :: value :: rest) = withOption name (some value) (getopt long rest) := by
  rw [getopt, getoptFrom, h]
  rfl

/-- A word that is no option ends them. -/
theorem getopt_plain {long : Options} {word : Word} (h : classify long word = .plain) (rest : List Word) :
    getopt long (word :: rest) = some ([], word :: rest) := by
  rw [getopt, getoptFrom, h]

/-- An option that may have an argument, with one. -/
theorem classify_optional {long : Options} {name : Word} (hname : name ≠ []) (heq : '=' ∉ name)
    (hlong : long.lookup name = some .optional) (value : Word) :
    classify long ('-' :: '-' :: (name ++ '=' :: value)) = .option name (some value) := by
  rcases name with _ | ⟨c, name⟩
  · exact absurd rfl hname
  · show longOption long (splitValue (c :: name ++ '=' :: value)).1 (splitValue (c :: name ++ '=' :: value)).2 = _
    rw [splitValue_value heq]
    unfold longOption
    rw [hlong]

/-- A word that does not begin with a hyphen is no option. -/
theorem classify_plain (long : Options) {word : Word} (h : word.head? ≠ some '-') : classify long word = .plain := by
  unfold classify
  split
  · exact absurd rfl h
  · exact absurd rfl h
  · exact absurd rfl h
  · rfl

end Holdfast.Base.GetOpt
