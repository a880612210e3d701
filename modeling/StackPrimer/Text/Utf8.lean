/-!
# Text in bytes

Bytes are read as UTF-8, strictly: a character has one form only, surrogates have none, and the
first sequence that is none stops the reading. The message names the bytes that begin like a
character up to the one that does not go on.

Results:
* `decode_ascii`: plain characters stand for themselves.
-/

namespace StackPrimer.Text

/-- What is wrong with a sequence of bytes. -/
inductive Undecodable.Cause
  | invalidStart
  | invalidContinuation
  | unexpectedEnd
  deriving DecidableEq, Repr

/-- The bytes from `start` up to `stop`, the first of which is `byte`, are no character. -/
structure Undecodable where
  byte : UInt8
  start : Nat
  stop : Nat
  cause : Undecodable.Cause
  deriving DecidableEq, Repr

namespace Undecodable

/-- The cause in words. -/
def Cause.text : Cause → String
  | invalidStart => "invalid start byte"
  | invalidContinuation => "invalid continuation byte"
  | unexpectedEnd => "unexpected end of data"

/-- What is said about the bytes. -/
def message (e : Undecodable) : String :=
  let place :=
    if e.stop ≤ e.start + 1 then
      "byte 0x" ++ String.ofList [Nat.digitChar (e.byte.toNat / 16),
        Nat.digitChar (e.byte.toNat % 16)] ++ " in position " ++ toString e.start
    else "bytes in position " ++ toString e.start ++ "-" ++ toString (e.stop - 1)
  "'utf-8' codec can't decode " ++ place ++ ": " ++ e.cause.text

end Undecodable

/-- Whether a byte can be the second of a character that begins with `first`. -/
def isSecond (first second : UInt8) : Bool :=
  if first = 0xE0 then 0xA0 ≤ second && second ≤ 0xBF
  else if first = 0xED then 0x80 ≤ second && second ≤ 0x9F
  else if first = 0xF0 then 0x90 ≤ second && second ≤ 0xBF
  else if first = 0xF4 then 0x80 ≤ second && second ≤ 0x8F
  else 0x80 ≤ second && second ≤ 0xBF

/-- Whether a byte can be the third or fourth of a character. -/
def isTail (b : UInt8) : Bool := 0x80 ≤ b && b ≤ 0xBF

/-- The six bits that a byte after the first adds to a code point. -/
def addTail (n : Nat) (b : UInt8) : Nat := n * 64 + b.toNat % 64

/-- The characters `done` (last one first) and those of the bytes that follow at `position`. -/
def decodeFrom (position : Nat) (done : List Char) :
    List UInt8 → Except Undecodable (List Char)
  | [] => .ok done.reverse
  | a :: rest =>
    let bad (length : Nat) (cause : Undecodable.Cause) : Except Undecodable (List Char) :=
      .error ⟨a, position, position + length, cause⟩
    if a < 0x80 then decodeFrom (position + 1) (Char.ofNat a.toNat :: done) rest
    else if a < 0xC2 ∨ 0xF4 < a then bad 1 .invalidStart
    else
      match rest with
      | [] => bad 1 .unexpectedEnd
      | b :: rest =>
        if !isSecond a b then bad 1 .invalidContinuation
        else if a < 0xE0 then
          decodeFrom (position + 2) (Char.ofNat (addTail (a.toNat % 32) b) :: done) rest
        else
          match rest with
          | [] => bad 2 .unexpectedEnd
          | c :: rest =>
            if !isTail c then bad 2 .invalidContinuation
            else if a < 0xF0 then
              decodeFrom (position + 3)
                (Char.ofNat (addTail (addTail (a.toNat % 16) b) c) :: done) rest
            else
              match rest with
              | [] => bad 3 .unexpectedEnd
              | d :: rest =>
                if !isTail d then bad 3 .invalidContinuation
                else
                  decodeFrom (position + 4)
                    (Char.ofNat (addTail (addTail (addTail (a.toNat % 8) b) c) d) :: done) rest

/-- The characters that the bytes stand for. -/
def decode (bytes : List UInt8) : Except Undecodable (List Char) := decodeFrom 0 [] bytes

theorem decodeFrom_ascii (position : Nat) (done : List Char) {bytes : List UInt8}
    (h : ∀ b ∈ bytes, b < 0x80) :
    decodeFrom position done bytes =
      .ok (done.reverse ++ bytes.map fun b => Char.ofNat b.toNat) := by
  induction bytes generalizing position done with
  | nil => simp [decodeFrom]
  | cons a rest ih =>
    have ha : a < 0x80 := h a (by simp)
    have hrest := ih (position + 1) (Char.ofNat a.toNat :: done) fun b hb => h b (by simp [hb])
    unfold decodeFrom
    simp [ha, hrest]

/-- Plain characters stand for themselves. -/
theorem decode_ascii {bytes : List UInt8} (h : ∀ b ∈ bytes, b < 0x80) :
    decode bytes = .ok (bytes.map fun b => Char.ofNat b.toNat) := by
  simp [decode, decodeFrom_ascii 0 [] h]

end StackPrimer.Text
