import Mathlib

/-!
# The condition stack of the feature generator

`features_gen.py`: `ConditionStack` and the line loop of `HeaderParser.parse_file`. The truth of
a condition comes from the live symbol table, which the lines that are recorded change; the
table, the lookup in it and `_eval` are parameters.
-/

namespace VibeRtos.Features

/-- One dictionary of `ConditionStack._stack`. -/
structure Frame where
  condition : String
  taken : Bool
  hadTrue : Bool
  isGuard : Bool
  deriving Repr, DecidableEq

/-- `[A-Z0-9_]` -/
def isGuardChar (c : Char) : Bool := c.isUpper || c.isDigit || c == '_'

/-- The names that `^_[A-Z0-9_]+H_?$` matches: include guards such as `_FOO_H` and `_FOO_H_`. -/
def isGuardName (name : String) : Bool :=
  match name.toList with
  | '_' :: rest =>
      let core := if rest.getLast? = some '_' then rest.dropLast else rest
      core.getLast? == some 'H' && core.dropLast ≠ [] && core.dropLast.all isGuardChar
  | _ => false

/-- `ConditionStack._stack`, innermost frame first. -/
abbrev ConditionStack := List Frame

namespace ConditionStack

variable (stack : ConditionStack)

def active : Bool := stack.all (·.taken)

/-- Innermost condition that is neither an include guard nor an `#else`. -/
def currentCondition : Option String :=
  (stack.find? fun frame => !frame.isGuard && frame.condition ≠ "else").map (·.condition)

/-- `name in self.symbols` is `defined name`. -/
def pushIfdef (defined : String → Bool) (name : String) : ConditionStack :=
  let taken := defined name
  ⟨"defined(" ++ name ++ ")", taken, taken, false⟩ :: stack

def pushIfndef (defined : String → Bool) (name : String) : ConditionStack :=
  let taken := !defined name
  ⟨"!defined(" ++ name ++ ")", taken, taken, isGuardName name⟩ :: stack

def pushIf (eval : String → Bool) (condition : String) : ConditionStack :=
  let taken := eval condition
  ⟨condition, taken, taken, false⟩ :: stack

def handleElif (eval : String → Bool) (condition : String) : ConditionStack :=
  match stack with
  | [] => []
  | frame :: outer =>
      let taken := !frame.hadTrue && eval condition
      ⟨condition, taken, frame.hadTrue || taken, frame.isGuard⟩ :: outer

def handleElse : ConditionStack :=
  match stack with
  | [] => []
  | frame :: outer => { frame with condition := "else", taken := !frame.hadTrue } :: outer

def pop : ConditionStack := stack.tail

end ConditionStack

/-- What the directive patterns make of a line; `line` is every other one, a definition or an
inclusion among them. -/
inductive Directive (L : Type) where
  | ifdef (name : String)
  | ifndef (name : String)
  | if_ (condition : String)
  | elif (condition : String)
  | else_
  | endif
  | line (l : L)
  deriving Repr, DecidableEq

/-- What the parser asks of its symbols `W`, and what an active line does to them. The answers
may depend on the line number as well. -/
structure Symbols (W L : Type) where
  /-- `name in self.symbols` -/
  defined : Nat → W → String → Bool
  /-- `ConditionStack._eval` -/
  eval : Nat → W → String → Bool
  /-- `parse_file` of an inclusion, `_record_define` of a definition -/
  act : Nat → W → L → W

/-- A line as the loop comes past it: `guard` is what `_record_define` is given. -/
structure Seen (L : Type) where
  lineno : Nat
  line : L
  active : Bool
  guard : Option String
  deriving Repr, DecidableEq

/-- The loop of `parse_file` between two lines. -/
structure ParserState (W L : Type) where
  lineno : Nat
  world : W
  cond : ConditionStack
  seen : List (Seen L)

section Loop

variable {W L : Type} (o : Symbols W L)

def parseLine (s : ParserState W L) (d : Directive L) : ParserState W L :=
  let n := s.lineno
  let next (cond : ConditionStack) := { s with lineno := n + 1, cond := cond }
  match d with
  | .endif => next s.cond.pop
  | .else_ => next s.cond.handleElse
  | .elif c => next (s.cond.handleElif (o.eval n s.world) c)
  | .ifdef name => next (s.cond.pushIfdef (o.defined n s.world) name)
  | .ifndef name => next (s.cond.pushIfndef (o.defined n s.world) name)
  | .if_ c => next (s.cond.pushIf (o.eval n s.world) c)
  | .line l =>
      { lineno := n + 1
        world := if s.cond.active then o.act n s.world l else s.world
        cond := s.cond
        seen := s.seen ++ [⟨n, l, s.cond.active, s.cond.currentCondition⟩] }

/-- The loop of `parse_file`, from a fresh `ConditionStack`. -/
def parseFile (w : W) (lines : List (Directive L)) : ParserState W L :=
  lines.foldl (parseLine o) ⟨1, w, [], []⟩

end Loop

example : isGuardName "_CONFIG_H_" = true ∧ isGuardName "_H" = false := by decide +kernel

end VibeRtos.Features
