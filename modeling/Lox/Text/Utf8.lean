/-! Text as bytes. A character is a first byte and the bytes behind it, whose number and ranges the
first byte tells; the ranges admit no second spelling of a character and no half of a pair. -/
namespace Lox.Text

/-- Where bytes cease to be text. -/
structure Utf8Fault where
  /-- How many bytes before it are text. -/
  index : Nat
  /-- How many bytes belong to no character. It is left out when the bytes end inside one. -/
  length : Option Nat
  deriving DecidableEq, Repr

def Utf8Fault.text (fault : Utf8Fault) : String :=
  match fault.length with
  | some n =>
    "invalid utf-8 sequence of " ++ toString n ++ " bytes from index " ++ toString fault.index
  | none => "incomplete utf-8 byte sequence from index " ++ toString fault.index

/-- Least and greatest values of a byte. -/
structure ByteRange where
  least : UInt8
  greatest : UInt8

def ByteRange.admits (range : ByteRange) (b : UInt8) : Bool :=
  range.least ≤ b && b ≤ range.greatest

/-- The range of most bytes that are not first in a character. -/
def following : ByteRange := ⟨0x80, 0xbf⟩

/-- The bits that a first byte adds to the code of its character, and the ranges of the bytes behind
it. -/
def firstByte? (b : UInt8) : Option (Nat × List ByteRange) :=
  let code := b.toNat
  if code < 0x80 then some (code, [])
  else if code < 0xc2 then none
  else if code < 0xe0 then some (code % 0x20, [following])
  else if code = 0xe0 then some (0, [⟨0xa0, 0xbf⟩, following])
  else if code = 0xed then some (0xd, [⟨0x80, 0x9f⟩, following])
  else if code < 0xf0 then some (code % 0x10, [following, following])
  else if code = 0xf0 then some (0, [⟨0x90, 0xbf⟩, following, following])
  else if code < 0xf4 then some (code % 8, [following, following, following])
  else if code = 0xf4 then some (4, [⟨0x80, 0x8f⟩, following, following])
  else none

/-- Reads the bytes behind `read` bytes of a character: its code and the bytes left, or the length
of the fault. -/
def followingBytes (code read : Nat) :
    List ByteRange → List UInt8 → Except (Option Nat) (Nat × List UInt8)
  | [], bytes => .ok (code, bytes)
  | _ :: _, [] => .error none
  | range :: ranges, b :: bytes =>
    if range.admits b then followingBytes (code * 0x40 + b.toNat % 0x40) (read + 1) ranges bytes
    else .error (some read)

theorem length_followingBytes_le {code read reached : Nat} {ranges : List ByteRange}
    {bytes rest : List UInt8} (done : followingBytes code read ranges bytes = .ok (reached, rest)) :
    rest.length ≤ bytes.length := by
  induction ranges generalizing code read bytes with
  | nil => simp_all [followingBytes]
  | cons range ranges ih =>
    cases bytes with
    | nil => simp [followingBytes] at done
    | cons b bytes =>
      simp only [followingBytes] at done
      split at done
      · exact Nat.le_succ_of_le (ih done)
      · simp at done

/-- The characters of bytes that stand behind `index` others. -/
def charactersFrom (index : Nat) : List UInt8 → Except Utf8Fault (List Char)
  | [] => .ok []
  | first :: bytes =>
    match firstByte? first with
    | none => .error ⟨index, some 1⟩
    | some (code, ranges) =>
      match _read : followingBytes code 1 ranges bytes with
      | .error length => .error ⟨index, length⟩
      | .ok (code, rest) =>
        match charactersFrom (index + 1 + ranges.length) rest with
        | .error fault => .error fault
        | .ok characters => .ok (Char.ofNat code :: characters)
termination_by bytes => bytes.length
decreasing_by exact Nat.lt_succ_of_le (length_followingBytes_le _read)

def ofBytes (bytes : ByteArray) : Except Utf8Fault String :=
  (charactersFrom 0 bytes.toList).map String.ofList

end Lox.Text
