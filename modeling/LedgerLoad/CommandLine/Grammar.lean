/-! # Arguments

A grammar says what the options of a command mean and what its other arguments are; `Grammar.read`
goes through a list of arguments with it. An option is written with two dashes and its name, with a
value behind an equals sign or in the next argument, or as one letter behind a single dash, where
several may stand together and a value may follow at once. Two dashes alone end the options. -/

namespace LedgerLoad.CommandLine

/-- How an option is written. -/
inductive OptionName
  | letter (c : Char)
  | word (name : String)
deriving DecidableEq, Repr

/-- What an option does with the settings `S` read so far; a setting that is refused is none. -/
inductive Effect (S : Type)
  | flag (set : S → Option S)
  | value (set : String → S → Option S)
  /-- Asks for help, whatever stands behind it. -/
  | help
  /-- Asks for the version, whatever stands behind it. -/
  | version

/-- The options of a command and its other arguments. -/
structure Grammar (S : Type) where
  option? : OptionName → Option (Effect S)
  argument : String → S → Option S

/-- What a list of arguments comes to. -/
inductive Reading (S : Type)
  | settings (s : S)
  | help
  | version
  /-- The arguments make no sense. -/
  | misuse

/-- Goes on with what was read if it makes sense. -/
def Reading.andThen {S T : Type} (next : S → Reading T) : Option S → Reading T
  | some s => next s
  | none => .misuse

/-- Whether an argument is written like an option. -/
def looksLikeOption (arg : String) : Bool :=
  match arg.toList with
  | '-' :: _ :: _ => true
  | _ => false

/-- Whether the next argument is the value of an option, and then the value and the rest. -/
def nextValue : List String → Option (String × List String)
  | [] => none
  | arg :: rest => if looksLikeOption arg then none else some (arg, rest)

/-- A value that follows a letter at once, perhaps with an equals sign between. -/
def attached : List Char → String
  | '=' :: rest => String.ofList rest
  | rest => String.ofList rest

/-- What stands before the first equals sign, and what behind it if there is one. -/
def splitWord (chars : List Char) : String × Option String :=
  let name := String.ofList (chars.takeWhile (· ≠ '='))
  match chars.dropWhile (· ≠ '=') with
  | [] => (name, none)
  | _ :: value => (name, some (String.ofList value))

/-- What is left to do with an argument: nothing more, or a value has to follow. -/
inductive Pending (S : Type)
  | settled (s : S)
  | wants (set : String → S → Option S) (s : S)
  | stop (r : Reading S)

namespace Grammar

variable {S : Type}

/-- Reads letters that stand together behind a dash. -/
def letters (g : Grammar S) : List Char → S → Pending S
  | [], s => .settled s
  | c :: rest, s =>
    match g.option? (.letter c) with
    | none => .stop .misuse
    | some .help => .stop .help
    | some .version => .stop .version
    | some (.flag set) =>
      match set s with
      | some s => letters g rest s
      | none => .stop .misuse
    | some (.value set) =>
      if rest.isEmpty then .wants set s
      else match set (attached rest) s with
        | some s => .settled s
        | none => .stop .misuse

/-- Reads what stands behind two dashes. -/
def word (g : Grammar S) (chars : List Char) (s : S) : Pending S :=
  let (name, value) := splitWord chars
  match g.option? (.word name), value with
  | some .help, none => .stop .help
  | some .version, none => .stop .version
  | some (.flag set), none =>
    match set s with
    | some s => .settled s
    | none => .stop .misuse
  | some (.value set), none => .wants set s
  | some (.value set), some value =>
    match set value s with
    | some s => .settled s
    | none => .stop .misuse
  | _, _ => .stop .misuse

/-- Reads arguments none of which is an option. -/
def readArguments (g : Grammar S) : List String → S → Reading S
  | [], s => .settings s
  | arg :: rest, s => Reading.andThen (readArguments g rest) (g.argument arg s)

/-- Reads arguments from left to right; the first that makes no sense ends the reading. The fuel is
the number of arguments. -/
def readUpTo (g : Grammar S) : (fuel : Nat) → List String → S → Reading S
  | _, [], s => .settings s
  | 0, _, _ => .misuse
  | fuel + 1, arg :: rest, s =>
    match arg.toList with
    | ['-', '-'] => g.readArguments rest s
    | '-' :: '-' :: chars => go fuel rest (g.word chars s)
    | '-' :: c :: chars => go fuel rest (g.letters (c :: chars) s)
    | _ => Reading.andThen (g.readUpTo fuel rest) (g.argument arg s)
where
  /-- Goes on after an option. -/
  go (fuel : Nat) (rest : List String) : Pending S → Reading S
    | .settled s => g.readUpTo fuel rest s
    | .stop r => r
    | .wants set s =>
      match nextValue rest with
      | some (value, rest) => Reading.andThen (g.readUpTo fuel rest) (set value s)
      | none => .misuse

/-- Reads arguments from left to right. -/
def read (g : Grammar S) (args : List String) (s : S) : Reading S := g.readUpTo args.length args s

end Grammar

end LedgerLoad.CommandLine
