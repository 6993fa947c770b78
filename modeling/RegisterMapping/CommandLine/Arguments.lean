import RegisterMapping.CommandLine.Request

/-!
# Command line arguments

The program is called with the name of an action and its options, of which a path is required. The
words are read from left to right. The first fault decides that the usage is wrong, and a request
for the version is answered where it stands, without a look at later words. An option that takes a
value takes the rest of its word, without an equals sign in front, or else the next word, unless
that looks like an option. A target is an architecture, or an ordinary Linux on it.
-/

set_option autoImplicit false

namespace RegisterMapping.CommandLine

/-- Options as far as they have been read. -/
structure PartialOptions where
  target? : Option String
  names : Bool
  verbose : Bool
  path? : Option String
  deriving DecidableEq, Repr

/-- A word of the command line by its form: two hyphens alone, a long option with its value, a
cluster of short options, or anything else. -/
inductive Word where
  | endOfOptions
  | long (name : List Char) (value? : Option (List Char))
  | short (letters : List Char)
  | operand
  deriving DecidableEq, Repr

/-- Split a long option at its first equals sign. -/
def Word.ofLong (text : List Char) : Word :=
  match text.dropWhile fun c => c ≠ '=' with
  | [] => .long text none
  | _ :: value => .long (text.takeWhile fun c => c ≠ '=') (some value)

/-- The form of a word. A hyphen alone is no option. -/
def Word.ofText (text : String) : Word :=
  match text.toList with
  | ['-', '-'] => .endOfOptions
  | '-' :: '-' :: rest => .ofLong rest
  | '-' :: c :: rest => .short (c :: rest)
  | _ => .operand

namespace PartialOptions

/-- No option read yet. -/
def empty : PartialOptions := ⟨none, false, false, none⟩

/-- Set the target, once. -/
def setTarget? (options : PartialOptions) (target : String) : Option PartialOptions :=
  if options.target?.isSome then none else some { options with target? := some target }

/-- Ask for names, once. -/
def setNames? (options : PartialOptions) : Option PartialOptions :=
  if options.names then none else some { options with names := true }

/-- Ask for a log, once. -/
def setVerbose? (options : PartialOptions) : Option PartialOptions :=
  if options.verbose then none else some { options with verbose := true }

/-- Set the path, once; it is not empty. -/
def setPath? (options : PartialOptions) (path : String) : Option PartialOptions :=
  if options.path?.isSome || path = "" then none else some { options with path? := some path }

/-- The options, if the path is there. -/
def finish? (options : PartialOptions) : Option Options :=
  options.path?.map fun path => ⟨options.target?, options.names, options.verbose, path⟩

end PartialOptions

/-- What a cluster of short options leads to: options, a request for the version, or options that
wait for the value of the target in the next word. -/
inductive ClusterResult where
  | options (options : PartialOptions)
  | version
  | needsTarget (options : PartialOptions)
  deriving DecidableEq, Repr

/-- Read a cluster of short options. -/
def readCluster? (options : PartialOptions) : List Char → Option ClusterResult
  | [] => some (.options options)
  | 'V' :: _ => some .version
  | 'v' :: rest =>
    match options.setVerbose? with
    | some next => readCluster? next rest
    | none => none
  | ['t'] => some (.needsTarget options)
  | 't' :: '=' :: value => (options.setTarget? (String.ofList value)).map .options
  | 't' :: value => (options.setTarget? (String.ofList value)).map .options
  | _ => none

/-- Read words of which none is an option: the first is the path. -/
def readOperands? (options : PartialOptions) : List String → Option Options
  | [] => options.finish?
  | word :: rest =>
    match options.setPath? word with
    | some next => readOperands? next rest
    | none => none

/-- Read the words after the name of an action. -/
def readOptions? (action : Action) (options : PartialOptions) : List String → Option Request
  | [] => options.finish?.map (.report action)
  | word :: rest =>
    match Word.ofText word with
    | .endOfOptions => (readOperands? options rest).map (.report action)
    | .operand => do
      let next ← options.setPath? word
      readOptions? action next rest
    | .long name value? =>
      match String.ofList name, value? with
      | "version", none => some (.version (some action))
      | "names", none => do
        let next ← options.setNames?
        readOptions? action next rest
      | "verbose", none => do
        let next ← options.setVerbose?
        readOptions? action next rest
      | "target", some value => do
        let next ← options.setTarget? (String.ofList value)
        readOptions? action next rest
      | "target", none => awaitTarget options rest
      | _, _ => none
    | .short letters =>
      match readCluster? options letters with
      | some (.options next) => readOptions? action next rest
      | some .version => some (.version (some action))
      | some (.needsTarget next) => awaitTarget next rest
      | none => none
where
  /-- Read words of which the first is the target. -/
  awaitTarget (options : PartialOptions) : List String → Option Request
    | [] => none
    | word :: rest =>
      match Word.ofText word with
      | .operand => do
        let next ← options.setTarget? word
        readOptions? action next rest
      | _ => none

/-- Read the arguments of a call. Nothing means that the usage is wrong. -/
def readArguments? : List String → Option Request
  | [] => none
  | word :: rest =>
    match Action.ofText? word with
    | some action => readOptions? action PartialOptions.empty rest
    | none =>
      match Word.ofText word with
      | .long name none => if name = "version".toList then some (.version none) else none
      | .short ('V' :: _) => some (.version none)
      | _ => none

/-- The target that is written as the name of an architecture, which may be followed by the vendor
and the system of an ordinary Linux. -/
def Target.ofText? (text : String) : Option Target :=
  let linux := "-unknown-linux-gnu"
  let letters := text.toList
  if linux.toList.isSuffixOf letters then
    let name := String.ofList (letters.take (letters.length - linux.length))
    (Architecture.ofText? name).map fun arch => ⟨arch, arch.text ++ linux⟩
  else
    (Architecture.ofText? text).map fun arch => ⟨arch, arch.text ++ "-unknown-unknown"⟩

/-- How the program reads a call, on a host that is an ordinary 64-bit Linux. -/
def CallReader.ofWords : CallReader where
  request? := readArguments?
  target? := Target.ofText?
  host := ⟨.x86_64, "x86_64-unknown-linux-gnu"⟩

end RegisterMapping.CommandLine
