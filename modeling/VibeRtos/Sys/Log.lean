import VibeRtos.Lib.Fifo
import VibeRtos.Lib.Runs

/-!
# The deferred log

`log.c` with `CONFIG_LOG_DEFERRED`: `_vibe_log_emit` puts a message into the ring inside a
locked section, from threads and interrupts, and `vibe_log_flush` prints the messages without
the lock, one load at a time.
-/

namespace VibeRtos

open Fifo

/-- The options of `Kconfig`, in their ranges. -/
structure LogConfig where
  /-- `CONFIG_LOG_BUFFER_SIZE` -/
  bufferSize : Nat
  bufferSize_range : 256 ≤ bufferSize ∧ bufferSize ≤ 16384

/-- `sizeof(vibe_log_msg_t)`: level, name and time stamp of four bytes each, and the text. -/
def sizeofLogMsg : Nat := 140

/-- `ARRAY_SIZE(g_log_ring)` -/
def LogConfig.ringLen (cfg : LogConfig) : Nat := cfg.bufferSize / sizeofLogMsg

/-- `vibe_log_module_t` -/
structure LogModule where
  /-- the address of its name -/
  name : Nat
  level : Nat
  deriving DecidableEq

/-- `vibe_log_msg_t`; `msg` is `char msg[128]`. -/
structure LogMsg where
  level : Nat
  moduleName : Nat
  timestampMs : UInt32
  msg : Nat → UInt8

/-- What a message says. -/
structure LogRecord where
  level : Nat
  moduleName : Nat
  timestampMs : UInt32
  text : List UInt8
  deriving DecidableEq

/-- The string in a `char[128]`. -/
def logString (msg : Nat → UInt8) : List UInt8 := ((List.range 128).map msg).takeWhile (· ≠ 0)

def LogMsg.record (m : LogMsg) : LogRecord :=
  ⟨m.level, m.moduleName, m.timestampMs, logString m.msg⟩

/-- `strncpy(dst, src, n)` of the string `src`. -/
def strncpy (dst : Nat → UInt8) (src : List UInt8) (n : Nat) : Nat → UInt8 :=
  fun j => if j < n then src.getD j 0 else dst j

/-- The string that `vibe_vsnprintk(msg, 128, …)` leaves when the formatter emits `bytes`. -/
def logText (bytes : List UInt8) : List UInt8 := (bytes.take 127).takeWhile (· ≠ 0)

/-- Where `vibe_log_flush` is. -/
inductive FlushPc where
  /-- not called -/
  | out
  /-- before the condition of its loop -/
  | test
  /-- before the load of `m->level` -/
  | level
  | moduleName (level : Nat)
  | timestamp (level moduleName : Nat)
  /-- before the load of `m->msg[i]`; `text` has been printed -/
  | msg (level moduleName : Nat) (timestampMs : UInt32) (i : Nat) (text : List UInt8)
  /-- behind `vibe_printk` -/
  | advance (r : LogRecord)
  deriving DecidableEq

/-- The ring, the flusher, and what has happened. -/
structure LogSys where
  /-- `g_log_ring` -/
  ring : Nat → LogMsg
  /-- `g_log_head` -/
  head : Nat
  /-- `g_log_tail` -/
  tail : Nat
  pc : FlushPc
  /-- the messages that were put into the ring -/
  accepted : List LogRecord
  /-- the messages that were printed and taken out -/
  flushed : List LogRecord

namespace LogSys

/-- The steps. -/
inductive Label where
  /-- `_vibe_log_emit`, when the formatter emits `bytes` and `vibe_uptime_ms` is `now` -/
  | emit (mod : Option LogModule) (level : Nat) (bytes : List UInt8) (now : UInt32)
  /-- a call of `vibe_log_flush` -/
  | call
  /-- the flusher goes on -/
  | flush

/-- How many messages are in the ring. -/
def used (cfg : LogConfig) (s : LogSys) : Nat := (s.tail + cfg.ringLen - s.head) % cfg.ringLen

/-- The messages in the ring, oldest first. -/
def pending (cfg : LogConfig) (s : LogSys) : List LogRecord :=
  (ringRead s.ring cfg.ringLen s.head (s.used cfg)).map LogMsg.record

/-- `_vibe_log_emit` -/
def emit (cfg : LogConfig) (s : LogSys) (mod : Option LogModule) (level : Nat) (bytes : List UInt8)
    (now : UInt32) : LogSys :=
  match mod with
  | none => s
  | some mod =>
      if level > mod.level then s
      else
        let text := logText bytes
        let next := (s.tail + 1) % cfg.ringLen
        if next ≠ s.head then
          { s with
            ring := Function.update s.ring s.tail
              ⟨level, mod.name, now, strncpy (s.ring s.tail).msg text 127⟩
            tail := next
            accepted := s.accepted ++ [⟨level, mod.name, now, text⟩] }
        else s

/-- The next load or store of `vibe_log_flush`. -/
def flush (cfg : LogConfig) (s : LogSys) : Option LogSys :=
  let m := s.ring s.head
  match s.pc with
  | .out => none
  | .test => some { s with pc := if s.head ≠ s.tail then .level else .out }
  | .level => some { s with pc := .moduleName m.level }
  | .moduleName level => some { s with pc := .timestamp level m.moduleName }
  | .timestamp level name => some { s with pc := .msg level name m.timestampMs 0 [] }
  | .msg level name now i text =>
      if i < 128 then
        if m.msg i = 0 then some { s with pc := .advance ⟨level, name, now, text⟩ }
        else some { s with pc := .msg level name now (i + 1) (text ++ [m.msg i]) }
      else none
  | .advance r => some { s with
      head := (s.head + 1) % cfg.ringLen
      pc := .test
      flushed := s.flushed ++ [r] }

/-- One step. -/
def step (cfg : LogConfig) (s : LogSys) : Label → Option LogSys
  | .emit mod level bytes now => some (s.emit cfg mod level bytes now)
  | .call => if s.pc = .out then some { s with pc := .test } else none
  | .flush => s.flush cfg

/-- The log as the C start-up code leaves it. -/
structure Initial (s : LogSys) : Prop where
  ring : ∀ i, s.ring i = ⟨0, 0, 0, fun _ => 0⟩
  head : s.head = 0
  tail : s.tail = 0
  pc : s.pc = .out
  accepted : s.accepted = []
  flushed : s.flushed = []

/-- The message passes the filter of its module. -/
def Passes (mod : Option LogModule) (level : Nat) : Prop :=
  match mod with
  | none => False
  | some mod => level ≤ mod.level

instance (mod : Option LogModule) (level : Nat) : Decidable (Passes mod level) := by
  cases mod <;> unfold Passes <;> infer_instance

/-- What the log promises in a state and of the step that is taken there. -/
structure Keeps (cfg : LogConfig) (s : LogSys) (l : Label) : Prop where
  /-- what has been flushed is what was accepted, in order, up to what is in the ring -/
  order : s.accepted = s.flushed ++ s.pending cfg
  /-- when the flusher returns, everything has been flushed -/
  all : l = .flush → s.pc = .test → s.head = s.tail → s.flushed = s.accepted
  /-- it is never stuck on a message -/
  going : l = .flush → s.pc ≠ .out → (s.flush cfg).isSome
  /-- an emit overwrites nothing that is in the ring -/
  overwrite : ∀ mod level bytes now, l = .emit mod level bytes now → ∀ j < s.used cfg,
    (s.emit cfg mod level bytes now).ring (ringAt cfg.ringLen s.head j)
      = s.ring (ringAt cfg.ringLen s.head j)
  /-- a message that passes the filter is accepted, or dropped when another is in the ring -/
  dropped : ∀ mod level bytes now, l = .emit mod level bytes now → Passes mod level →
    (s.emit cfg mod level bytes now).accepted.length = s.accepted.length + 1 ∨ s.pending cfg ≠ []

/-- A message passes its filter only when the ring has room for two. -/
def Roomy (cfg : LogConfig) (_ : LogSys) (l : Label) : Prop :=
  match l with
  | .emit mod level _ _ => Passes mod level → 280 ≤ cfg.bufferSize
  | _ => True

instance (cfg : LogConfig) (s : LogSys) (l : Label) : Decidable (s.Roomy cfg l) := by
  cases l <;> unfold Roomy <;> infer_instance

end LogSys

end VibeRtos
