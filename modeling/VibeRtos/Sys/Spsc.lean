import VibeRtos.Sys.RingBuffer

/-!
# A ring buffer between two parties

One producer calls `vibe_rb_put` and `vibe_rb_put_buf`, one consumer `vibe_rb_get` and
`vibe_rb_get_buf`, and their loads and stores interleave: the load of the other party's
counter, each byte in or out of the buffer, and the store of the own counter are steps of
their own. The bytes of a `memcpy` may be copied in any order. The statistics are left out.
-/

namespace VibeRtos

/-- Where the producer is in its call. -/
inductive Producer where
  | idle
  /-- `vibe_rb_put` has seen room for the byte -/
  | store (byte : UInt8)
  /-- and has stored it -/
  | stored (byte : UInt8)
  /-- `vibe_rb_put_buf` has seen room for `n` bytes, and has stored those of `copied` -/
  | copy (data : Nat → UInt8) (n : UInt32) (copied : Nat → Bool)

/-- Where the consumer is in its call. -/
inductive Consumer where
  | idle
  /-- `vibe_rb_get` has seen a byte -/
  | load
  /-- and has loaded it -/
  | loaded (byte : UInt8)
  /-- `vibe_rb_get_buf` has seen `n` bytes, and has loaded those of `copied` to `dst` -/
  | copy (n : UInt32) (copied : Nat → Bool) (dst : Nat → UInt8)

/-- The ring buffer, its two parties, and the bytes that have gone through. -/
structure Spsc where
  rb : RingBuffer
  producer : Producer
  consumer : Consumer
  /-- the bytes accepted by the producer's calls, once `tail` covers them -/
  published : List UInt8
  /-- the bytes returned by the consumer's calls, once `head` covers them -/
  obtained : List UInt8

/-- The length of the first `memcpy` of `n` bytes at counter `idx`. -/
def rbChunk (rb : RingBuffer) (idx n : UInt32) : Nat :=
  let chunk := rb.size - rbMask rb idx
  (if chunk > n then n else chunk).toNat

/-- Where byte `i` of the two `memcpy`s of `n` bytes at counter `idx` is in the buffer. -/
def rbSlot (rb : RingBuffer) (idx n : UInt32) (i : Nat) : Nat :=
  if i < rbChunk rb idx n then (rbMask rb idx).toNat + i else i - rbChunk rb idx n

/-- Byte `i` of the two `memcpy`s may be copied next. -/
def CopiesNext (rb : RingBuffer) (idx n : UInt32) (copied : Nat → Bool) (i : Nat) : Prop :=
  i < n.toNat ∧ copied i = false
    ∧ (i < rbChunk rb idx n ∨ (List.range (rbChunk rb idx n)).all copied)

instance (rb : RingBuffer) (idx n : UInt32) (copied : Nat → Bool) (i : Nat) :
    Decidable (CopiesNext rb idx n copied i) := inferInstanceAs (Decidable (_ ∧ _))

namespace Spsc

/-- Both parties are in their own code, and the bytes in the buffer count as published. -/
structure Initial (s : Spsc) : Prop where
  size : isPowerOfTwo s.rb.size = true
  used : rbUsed s.rb ≤ s.rb.size
  producer : s.producer = .idle
  consumer : s.consumer = .idle
  obtained : s.obtained = []
  published : s.published = (List.range (rbUsed s.rb).toNat).map fun j =>
    s.rb.buf (rbMask s.rb (s.rb.head + UInt32.ofNat j)).toNat

/-- The steps of the two parties. -/
inductive Label where
  /-- `vibe_rb_put`, up to the test for room -/
  | put (byte : UInt8)
  /-- `vibe_rb_put_buf`, up to the number of bytes -/
  | putBuf (data : Nat → UInt8) (len : UInt32)
  /-- store byte `i` -/
  | store (i : Nat)
  /-- store `tail` -/
  | publish
  /-- `vibe_rb_get`, up to the test for a byte -/
  | get
  /-- `vibe_rb_get_buf`, up to the number of bytes -/
  | getBuf (len : UInt32)
  /-- load byte `i` -/
  | load (i : Nat)
  /-- store `head` -/
  | advance

/-- One step of the producer. -/
def produce (s : Spsc) : Label → Option Spsc
  | .put byte =>
      match s.producer with
      | .idle => some (if rbIsFull s.rb then s else { s with producer := .store byte })
      | _ => none
  | .putBuf data len =>
      match s.producer with
      | .idle =>
          let space := rbFree s.rb
          let n := if len < space then len else space
          some { s with producer := .copy data n fun _ => false }
      | _ => none
  | .store i =>
      match s.producer with
      | .store byte =>
          some { s with
            rb := { s.rb with
              buf := Function.update s.rb.buf (rbMask s.rb s.rb.tail).toNat byte }
            producer := .stored byte }
      | .copy data n copied =>
          if CopiesNext s.rb s.rb.tail n copied i then
            some { s with
              rb := { s.rb with
                buf := Function.update s.rb.buf (rbSlot s.rb s.rb.tail n i) (data i) }
              producer := .copy data n (Function.update copied i true) }
          else none
      | _ => none
  | .publish =>
      match s.producer with
      | .stored byte =>
          some { s with
            rb := { s.rb with tail := s.rb.tail + 1 }
            producer := .idle
            published := s.published ++ [byte] }
      | .copy data n copied =>
          if (List.range n.toNat).all copied then
            some { s with
              rb := { s.rb with tail := s.rb.tail + n }
              producer := .idle
              published := s.published ++ (List.range n.toNat).map data }
          else none
      | _ => none
  | _ => none

/-- One step of the consumer. -/
def consume (s : Spsc) : Label → Option Spsc
  | .get =>
      match s.consumer with
      | .idle => some (if rbIsEmpty s.rb then s else { s with consumer := .load })
      | _ => none
  | .getBuf len =>
      match s.consumer with
      | .idle =>
          let avail := rbUsed s.rb
          let n := if len < avail then len else avail
          some { s with consumer := .copy n (fun _ => false) fun _ => 0 }
      | _ => none
  | .load i =>
      match s.consumer with
      | .load => some { s with consumer := .loaded (s.rb.buf (rbMask s.rb s.rb.head).toNat) }
      | .copy n copied dst =>
          if CopiesNext s.rb s.rb.head n copied i then
            some { s with
              consumer := .copy n (Function.update copied i true)
                (Function.update dst i (s.rb.buf (rbSlot s.rb s.rb.head n i))) }
          else none
      | _ => none
  | .advance =>
      match s.consumer with
      | .loaded byte =>
          some { s with
            rb := { s.rb with head := s.rb.head + 1 }
            consumer := .idle
            obtained := s.obtained ++ [byte] }
      | .copy n copied dst =>
          if (List.range n.toNat).all copied then
            some { s with
              rb := { s.rb with head := s.rb.head + n }
              consumer := .idle
              obtained := s.obtained ++ (List.range n.toNat).map dst }
          else none
      | _ => none
  | _ => none

/-- One step. -/
def step (s : Spsc) (l : Label) : Option Spsc :=
  match l with
  | .put _ | .putBuf .. | .store _ | .publish => s.produce l
  | .get | .getBuf _ | .load _ | .advance => s.consume l

/-- The consumer's call has loaded `b` as its byte `i`. -/
def Holds (s : Spsc) (i : Nat) (b : UInt8) : Prop :=
  match s.consumer with
  | .loaded byte => i = 0 ∧ b = byte
  | .copy n copied dst => i < n.toNat ∧ copied i = true ∧ b = dst i
  | _ => False

/-- What two parties are promised at every moment. -/
structure Safe (s : Spsc) : Prop where
  /-- what has been obtained is a prefix of what has been published -/
  order : s.obtained <+: s.published
  /-- a byte already loaded is the one that comes next there -/
  loaded : ∀ i b, s.Holds i b → s.published[s.obtained.length + i]? = some b
  /-- the unread bytes are in the buffer, as they were published -/
  unread : s.published = s.obtained ++ (List.range (rbUsed s.rb).toNat).map fun j =>
    s.rb.buf (rbMask s.rb (s.rb.head + UInt32.ofNat j)).toNat
  bound : rbUsed s.rb ≤ s.rb.size

end Spsc

end VibeRtos
