import VibeRtos.Job.Scheduler
import VibeRtos.Lib.Coroutine

/-!
# The coroutine macros

`async.h`. A coroutine is a C function whose body stands in a `switch` over the line at which
it stopped, with the `case` labels inside its loops and conditionals. The C that the macros
expand to is given by a machine that keeps what is left to run, and the `switch` finds its
label by walking through the body.

`σ` is the memory the coroutines work on. Their `async_t`s are apart from it, by address.
-/

namespace VibeRtos.Async

open Coroutine

/-- The statements. A condition may call functions. -/
inductive CStmt (σ : Type) where
  | skip
  | expr (f : σ → σ)
  | seq (s t : CStmt σ)
  | ifElse (c : σ → σ × Bool) (s t : CStmt σ)
  | whileLoop (c : σ → σ × Bool) (s : CStmt σ)
  | brk
  | ret (st : AsyncStatus)
  /-- `co->line = n;` -/
  | setLine (co : Nat) (n : Int)
  /-- `case n:` -/
  | caseLabel (n : Int)
  /-- `switch (co->line) { s }` -/
  | switchLine (co : Nat) (s : CStmt σ)
  /-- `if (fn(ctx, child_co) != ASYNC_DONE) { s }`, with the body of `fn` -/
  | ifNotDone (fn s : CStmt σ)

/-- What is left to run. -/
inductive CKont (σ : Type) where
  | stop
  | seq (s : CStmt σ) (k : CKont σ)
  | loop (c : σ → σ × Bool) (s : CStmt σ) (k : CKont σ)
  | switch (k : CKont σ)
  /-- the caller, who tests the result -/
  | call (s : CStmt σ) (k : CKont σ)

/-- The `async_t`s: the field `line` of each. -/
abbrev Lines := Nat → Int

/-- `async_init`. -/
def asyncInit {σ : Type} (co : Nat) : CStmt σ := .setLine co 0

/-- `async_is_done`. -/
def asyncIsDone (ls : Lines) (co : Nat) : Bool := ls co < 0

variable {σ : Type}

/-! ## The machine -/

/-- The place behind `case n:`. The labels inside of another `switch` are not seen. -/
def CStmt.find (n : Int) : CStmt σ → CKont σ → Option (CStmt σ × CKont σ)
  | .seq s t, k => (s.find n (.seq t k)).or (t.find n k)
  | .ifElse _ s t, k => (s.find n k).or (t.find n k)
  | .whileLoop c s, k => s.find n (.loop c s k)
  | .ifNotDone _ s, k => s.find n k
  | .caseLabel n', k => if n = n' then some (.skip, k) else none
  | .skip, _ | .expr _, _ | .brk, _ | .ret _, _ | .setLine .., _ | .switchLine .., _ => none

/-- `break`: the end of the loop or of the `switch`. -/
def CKont.brk : CKont σ → Option (CKont σ)
  | .seq _ k => k.brk
  | .loop _ _ k => some k
  | .switch k => some (.switch k)
  | .stop | .call .. => none

inductive CState (σ : Type) where
  | run (s : CStmt σ) (k : CKont σ) (m : σ) (ls : Lines)
  | returned (st : AsyncStatus) (m : σ) (ls : Lines)

/-- `return`. -/
def CKont.ret (st : AsyncStatus) : CKont σ → σ → Lines → CState σ
  | .stop, m, ls => .returned st m ls
  | .seq _ k, m, ls => k.ret st m ls
  | .loop _ _ k, m, ls => k.ret st m ls
  | .switch k, m, ls => k.ret st m ls
  | .call s k, m, ls => if st ≠ .done then .run s k m ls else .run .skip k m ls

/-- What comes after a statement. A function must not end without a `return`. -/
def CKont.next : CKont σ → σ → Lines → Option (CState σ)
  | .seq s k, m, ls => some (.run s k m ls)
  | .loop c s k, m, ls => some (.run (.whileLoop c s) k m ls)
  | .switch k, m, ls => some (.run .skip k m ls)
  | .stop, _, _ | .call .., _, _ => none

/-- One step. -/
def cStep : CState σ → Option (CState σ)
  | .returned .. => none
  | .run .skip k m ls => k.next m ls
  | .run (.expr f) k m ls => some (.run .skip k (f m) ls)
  | .run (.seq s t) k m ls => some (.run s (.seq t k) m ls)
  | .run (.ifElse c s t) k m ls =>
      some (if (c m).2 then .run s k (c m).1 ls else .run t k (c m).1 ls)
  | .run (.whileLoop c s) k m ls =>
      some (if (c m).2 then .run s (.loop c s k) (c m).1 ls else .run .skip k (c m).1 ls)
  | .run .brk k m ls => k.brk.map fun k' => .run .skip k' m ls
  | .run (.ret st) k m ls => some (k.ret st m ls)
  | .run (.setLine co n) k m ls => some (.run .skip k m (Function.update ls co n))
  | .run (.caseLabel _) k m ls => some (.run .skip k m ls)
  | .run (.switchLine co s) k m ls =>
      match s.find (ls co) (.switch k) with
      | some (t, k') => some (.run t k' m ls)
      | none => some (.run .skip k m ls)
  | .run (.ifNotDone fn s) k m ls => some (.run fn (.call s k) m ls)

/-! ## The macros

`line` is the `__LINE__` of the place where the macro stands. -/

/-- `ASYNC_END`. -/
def asyncEnd (co : Nat) : CStmt σ := .seq (.setLine co (-1)) (.ret .done)

/-- A coroutine function: `ASYNC_BEGIN`, its body and `ASYNC_END`. -/
def coroutine (co : Nat) (body : CStmt σ) : CStmt σ :=
  .seq (.switchLine co (.seq (.caseLabel 0) body)) (asyncEnd co)

/-- `ASYNC_YIELD`. -/
def asyncYield (co line : Nat) : CStmt σ :=
  .seq (.setLine co line) (.seq (.ret .running) (.caseLabel line))

/-- `if (!(cond)) { return ASYNC_BLOCKED; }` -/
def probe (cond : σ → σ × Bool) : CStmt σ := .ifElse cond .skip (.ret .blocked)

/-- `ASYNC_AWAIT`. -/
def asyncAwait (co line : Nat) (cond : σ → σ × Bool) : CStmt σ :=
  .seq (.setLine co line) (.seq (.caseLabel line) (probe cond))

/-- `ASYNC_AWAIT_CORO`. -/
def asyncAwaitCoro (co line : Nat) (fn : CStmt σ) : CStmt σ :=
  .seq (.setLine co line) (.seq (.caseLabel line) (.ifNotDone fn (.ret .running)))

/-- `ASYNC_RETURN`. -/
def asyncReturn (co : Nat) : CStmt σ := .seq (.setLine co (-1)) (.ret .done)

/-! ## Coroutine bodies -/

/-- What stands between `ASYNC_BEGIN` and `ASYNC_END`, with the line of each macro. Another
coroutine is awaited with the address of its `async_t`. -/
abbrev Body (σ : Type) := Prog σ Nat (Nat × Nat)

/-- The C of a body. A child's `async_t` is initialised before the child is awaited. -/
def expand (co : Nat) : Body σ → CStmt σ
  | .skip => .skip
  | .act f => .expr f
  | .seq p q => .seq (expand co p) (expand co q)
  | .ite c p q => .ifElse c (expand co p) (expand co q)
  | .loop c p => .whileLoop c (expand co p)
  | .leave => .brk
  | .exit => asyncReturn co
  | .pause line => asyncYield co line
  | .await line c => asyncAwait co line c
  | .inner (line, child) p =>
      .seq (asyncInit child) (asyncAwaitCoro co line (coroutine child (expand child p)))

/-- The C function of a coroutine with the body `b`. -/
def function (co : Nat) (b : Body σ) : CStmt σ := coroutine co (expand co b)

/-- An invocation of the function. -/
def Returns (co : Nat) (b : Body σ) (ls : Lines) (m : σ) (st : AsyncStatus) (ls' : Lines)
    (m' : σ) : Prop :=
  .returned st m' ls' ∈ StateTransition.eval cStep (.run (function co b) .stop m ls)

/-! ## What the C compiler and the header ask for -/

/-- The lines of the macros of one function. -/
def lines : Body σ → List Nat
  | .seq p q => lines p ++ lines q
  | .ite _ p q => lines p ++ lines q
  | .loop _ p => lines p
  | .pause line => [line]
  | .await line _ => [line]
  | .inner (line, _) _ => [line]
  | .skip | .act _ | .leave | .exit => []

/-- The `async_t`s of the coroutines that are awaited, and of those that they await. -/
def children : Body σ → List Nat
  | .seq p q => children p ++ children q
  | .ite _ p q => children p ++ children q
  | .loop _ p => children p
  | .inner (_, child) p => child :: children p
  | .skip | .act _ | .leave | .exit | .pause _ | .await .. => []

/-- So for each coroutine awaited: it compiles, as no two `case` labels are equal, and it does
not await anyone on its own `async_t`. -/
def Nested : Body σ → Prop
  | .seq p q => Nested p ∧ Nested q
  | .ite _ p q => Nested p ∧ Nested q
  | .loop _ p => Nested p
  | .inner (_, child) p => (0 :: lines p).Nodup ∧ child ∉ children p ∧ Nested p
  | .skip | .act _ | .leave | .exit | .pause _ | .await .. => True

/-- The body of a coroutine that compiles, and that no coroutine enters again while it runs. -/
structure WellFormed (co : Nat) (b : Body σ) : Prop where
  lines : (0 :: lines b).Nodup
  co : co ∉ children b
  nested : Nested b

/-- `async_status_t`, as the caller reads it. -/
def report : AsyncStatus → Report
  | .done => .done
  | .running => .paused
  | .blocked => .waiting

/-- An invocation of what is left of a body. -/
def Resumes (rest : Resumption σ Nat (Nat × Nat)) (m : σ) (st : AsyncStatus)
    (rest' : Resumption σ Nat (Nat × Nat)) (m' : σ) : Prop :=
  Invoke rest m (report st) rest' m'

end VibeRtos.Async
