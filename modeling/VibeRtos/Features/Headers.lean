import VibeRtos.Proof.ConditionGroups

/-!
# Headers and their inclusions

`features_gen.py`: `HeaderParser.parse_file` with the inclusions it follows, `_resolve` and
`_record_define`. A file that has been visited is skipped, and definitions of include guards are
not recorded.

Beside it stands the C preprocessor on the same headers, which visits nothing and reads a file again
each time it is included: it is the file's own include guard that makes it empty then.
-/

namespace VibeRtos.Features

/-- A line that is no conditional directive. -/
inductive HeaderLine where
  /-- `#include "path"` -/
  | include_ (path : String)
  /-- `#define name value` -/
  | define (name value : String)
  | other
  deriving DecidableEq

/-- What the parser asks of the file system. -/
structure FileSystem where
  isAbsolute : String → Bool
  /-- `Path.exists` -/
  present : String → Bool
  /-- `base / path` -/
  join : String → String → String
  /-- `Path.resolve` -/
  real : String → String
  /-- `_read_lines`, and the patterns of `parse_file` on each line -/
  lines : String → List (Directive HeaderLine)

/-- `HeaderParser._resolve` -/
def FileSystem.resolve (fs : FileSystem) (includePaths : List String) (path : String) :
    Option String :=
  if fs.isAbsolute path && fs.present path then some path
  else includePaths.findSome? fun base =>
    let candidate := fs.join base path
    if fs.present candidate then some candidate else none

/-- A definition as it is recorded. -/
structure MacroDef where
  name : String
  value : String
  source : String
  lineno : Nat
  deriving DecidableEq

/-- The symbol table. -/
abbrev HeaderTable := String → Option String

/-- The table behind a definition: `value if value else 1`. -/
def HeaderTable.define (t : HeaderTable) (name value : String) : HeaderTable :=
  Function.update t name (some (if value = "" then "1" else value))

/-! ## The parser -/

/-- The fields of `HeaderParser`; `exhausted` says that more inclusions were nested than the model
follows. -/
structure HeaderParser where
  symbols : HeaderTable
  macros : List MacroDef
  visited : List String
  exhausted : Bool

/-- `_record_define` -/
def HeaderParser.recordDefine (w : HeaderParser) (source : String) (lineno : Nat)
    (name value : String) : HeaderParser :=
  if value = "" ∧ isGuardName name then w
  else { w with
    macros := w.macros ++ [⟨name, value, source, lineno⟩]
    symbols := w.symbols.define name value }

/-- The lines of the file `source`. -/
def parserSymbols (eval : HeaderTable → String → Bool) (source : String)
    (follow : String → HeaderParser → HeaderParser) : Symbols HeaderParser HeaderLine where
  defined _ w name := (w.symbols name).isSome
  eval _ w condition := eval w.symbols condition
  act n w
    | .include_ path => follow path w
    | .define name value => w.recordDefine source n name value
    | .other => w

/-- `parse_file`, with inclusions at most `fuel` deep. -/
def parseHeader (fs : FileSystem) (includePaths : List String)
    (eval : HeaderTable → String → Bool) : Nat → String → HeaderParser → HeaderParser
  | fuel, path, w =>
      match fs.resolve includePaths path with
      | none => w
      | some resolved =>
          let key := fs.real resolved
          if key ∈ w.visited then w
          else
            match fuel with
            | 0 => { w with exhausted := true }
            | fuel + 1 =>
                (parseFile (parserSymbols eval resolved (parseHeader fs includePaths eval fuel))
                  { w with visited := key :: w.visited } (fs.lines key)).world

/-! ## The C preprocessor -/

/-- What the preprocessor has defined, in the order in which it came to it. -/
structure Preprocessor where
  symbols : HeaderTable
  defines : List MacroDef
  exhausted : Bool

def Preprocessor.define (c : Preprocessor) (source : String) (lineno : Nat) (name value : String) :
    Preprocessor :=
  { c with
    defines := c.defines ++ [⟨name, value, source, lineno⟩]
    symbols := c.symbols.define name value }

def cppSymbols (eval : HeaderTable → String → Bool) (source : String)
    (follow : String → Preprocessor → Preprocessor) : Symbols Preprocessor HeaderLine where
  defined _ c name := (c.symbols name).isSome
  eval _ c condition := eval c.symbols condition
  act n c
    | .include_ path => follow path c
    | .define name value => c.define source n name value
    | .other => c

/-- A header with its include guard: `#ifndef guard`, `#define guard`, the body, `#endif`. -/
def guardedFile (guard : String) (body : Block HeaderLine) : Block HeaderLine :=
  .group (.ifndef guard) (.line (.define guard "") body) .endif .nil

/-- Preprocess a file, with inclusions at most `fuel` deep. -/
def preprocess (fs : FileSystem) (includePaths : List String) (eval : HeaderTable → String → Bool)
    (file : String → Block HeaderLine) : Nat → String → Preprocessor → Preprocessor
  | 0, _, c => { c with exhausted := true }
  | fuel + 1, path, c =>
      match fs.resolve includePaths path with
      | none => c
      | some resolved =>
          ((file (fs.real resolved)).process
            (cppSymbols eval resolved (preprocess fs includePaths eval file fuel)) 1 c).2

/-! ## Guarded headers -/

/-- A condition that does not look at include guards. -/
def IgnoresGuards (eval : HeaderTable → String → Bool) (condition : String) : Prop :=
  ∀ t t' : HeaderTable, (∀ x, isGuardName x = false → t x = t' x) →
    eval t condition = eval t' condition

def Opening.Plain (eval : HeaderTable → String → Bool) : Opening → Prop
  | .ifdef name => isGuardName name = false
  | .ifndef name => isGuardName name = false
  | .if_ condition => IgnoresGuards eval condition

def HeaderLine.Plain : HeaderLine → Prop
  | .define name _ => isGuardName name = false
  | _ => True

mutual

/-- The body of a header, which neither tests nor defines include guards. -/
def Block.Plain (eval : HeaderTable → String → Bool) : Block HeaderLine → Prop
  | .nil => True
  | .line l rest => l.Plain ∧ rest.Plain eval
  | .group opening body branches rest =>
      opening.Plain eval ∧ body.Plain eval ∧ branches.Plain eval ∧ rest.Plain eval

def Branches.Plain (eval : HeaderTable → String → Bool) : Branches HeaderLine → Prop
  | .endif => True
  | .else_ body => body.Plain eval
  | .elif condition body more =>
      IgnoresGuards eval condition ∧ body.Plain eval ∧ more.Plain eval

end

/-- The headers are the files in `keys`, each with an include guard of its own. -/
structure Guarded (fs : FileSystem) (includePaths : List String)
    (eval : HeaderTable → String → Bool) (keys : Finset String) where
  guard : String → String
  body : String → Block HeaderLine
  lines : ∀ key ∈ keys, fs.lines key = (guardedFile (guard key) (body key)).flatten
  isGuard : ∀ key ∈ keys, isGuardName (guard key) = true
  distinct : ∀ key ∈ keys, ∀ key' ∈ keys, guard key = guard key' → key = key'
  plain : ∀ key ∈ keys, (body key).Plain eval
  closed : ∀ path resolved, fs.resolve includePaths path = some resolved → fs.real resolved ∈ keys

end VibeRtos.Features
