/-
  Outcomes in JSON.

  An outcome of a text or an integer is an object of exactly one member, `Failure` with a string or
  `Success` with an integer.  It is written without a blank.  It is read with any blanks around its
  tokens, from a text that holds nothing else, and an integer is read only if it is written as one
  and fits: a fraction, an exponent and a negative zero are none.

  The readers take what they can read off the front of a list of characters and return the rest.
-/
import EffectMachine.Outcome
import EffectMachine.Text.Quoted

namespace EffectMachine.Text

/-! ## Reading tokens -/

/-- The characters that may stand between two tokens. -/
def isBlank (c : Char) : Bool := c == ' ' || c == '\n' || c == '\t' || c == '\r'

/-- The rest behind the blanks. -/
def skipBlanks (cs : List Char) : List Char := cs.dropWhile isBlank

/-- The rest behind a character that has to come next, blanks aside. -/
def readChar (c : Char) (cs : List Char) : Option (List Char) :=
  match skipBlanks cs with
  | d :: rest => if d = c then some rest else none
  | [] => none

/-- The value of a hexadecimal digit of either case. -/
def hexDigit? (c : Char) : Option Nat :=
  if '0' ≤ c ∧ c ≤ '9' then some (c.toNat - '0'.toNat)
  else if 'a' ≤ c ∧ c ≤ 'f' then some (c.toNat - 'a'.toNat + 10)
  else if 'A' ≤ c ∧ c ≤ 'F' then some (c.toNat - 'A'.toNat + 10)
  else none

/-- The code unit written by four hexadecimal digits. -/
def codeUnit? (a b c d : Char) : Option Nat := do
  return (((← hexDigit? a) * 16 + (← hexDigit? b)) * 16 + (← hexDigit? c)) * 16 + (← hexDigit? d)

/-- The character an escape of one letter stands for. -/
def escaped? : Char → Option Char
  | '"' => some '"'
  | '\\' => some '\\'
  | '/' => some '/'
  | 'b' => some '\x08'
  | 'f' => some '\x0c'
  | 'n' => some '\n'
  | 'r' => some '\r'
  | 't' => some '\t'
  | _ => none

/-- The first half of a character that is written as two code units. -/
def isHighUnit (n : Nat) : Bool := 0xd800 ≤ n && n < 0xdc00

/-- The second half of such a character. -/
def isLowUnit (n : Nat) : Bool := 0xdc00 ≤ n && n < 0xe000

/-- The characters of a string behind its opening quote, and the rest behind its closing one.  A
    code unit that is half a character needs its other half right behind it. -/
def readStringTail : List Char → Option (List Char × List Char)
  | [] => none
  | '"' :: rest => some ([], rest)
  | '\\' :: 'u' :: a :: b :: c :: d :: rest =>
    match codeUnit? a b c d, rest with
    | none, _ => none
    | some n, rest =>
      if isLowUnit n then none
      else if isHighUnit n then
        match rest with
        | '\\' :: 'u' :: e :: f :: g :: h :: rest =>
          match codeUnit? e f g h with
          | none => none
          | some m =>
            if isLowUnit m then
              (readStringTail rest).map fun (s, r) =>
                (Char.ofNat (0x10000 + (n - 0xd800) * 0x400 + (m - 0xdc00)) :: s, r)
            else none
        | _ => none
      else (readStringTail rest).map fun (s, r) => (Char.ofNat n :: s, r)
  | '\\' :: c :: rest =>
    match escaped? c with
    | some d => (readStringTail rest).map fun (s, r) => (d :: s, r)
    | none => none
  | c :: rest =>
    if c.val < 0x20 then none
    else (readStringTail rest).map fun (s, r) => (c :: s, r)

/-- A string, blanks before it aside. -/
def readString (cs : List Char) : Option (String × List Char) := do
  let (s, rest) ← readStringTail (← readChar '"' cs)
  return (String.ofList s, rest)

/-- The number written by decimal digits. -/
def natOfDigits (ds : List Char) : Nat := ds.foldl (fun n d => n * 10 + (d.toNat - '0'.toNat)) 0

/-- An integer of 64 bits, blanks before it aside: no leading zero, no negative zero. -/
def readInt64 (cs : List Char) : Option (Int64 × List Char) :=
  let cs := skipBlanks cs
  let (negative, cs) := match cs with
    | '-' :: rest => (true, rest)
    | cs => (false, cs)
  let digits := cs.takeWhile Char.isDigit
  let rest := cs.dropWhile Char.isDigit
  let n := natOfDigits digits
  -- a zero in front stands alone, and no sign stands before it
  if digits = [] ∨ (digits.head? = some '0' ∧ digits.length ≠ 1) then none
  else if negative then
    if n = 0 ∨ 0x8000000000000000 < n then none else some (Int64.ofInt (-n), rest)
  else if 0x8000000000000000 ≤ n then none
  else some (Int64.ofNat n, rest)

end EffectMachine.Text

namespace EffectMachine.Outcome

open EffectMachine.Text

/-- The outcome as JSON. -/
def json : Outcome String Int64 → String
  | failure e => "\x7b\"Failure\":" ++ Text.json e ++ "\x7d"
  | success n => "\x7b\"Success\":" ++ toString n.toInt ++ "\x7d"

/-- The outcome that a text holds, if it holds one. -/
def ofJson? (s : String) : Option (Outcome String Int64) := do
  let (key, rest) ← readString (← readChar '\x7b' s.toList)
  let rest ← readChar ':' rest
  let (outcome, rest) ←
    if key = "Failure" then (readString rest).map fun (e, rest) => (failure e, rest)
    else if key = "Success" then (readInt64 rest).map fun (n, rest) => (success n, rest)
    else none
  let rest ← readChar '\x7d' rest
  if skipBlanks rest = [] then some outcome else none

example : ofJson? " \x7b \"Success\" : -7 \x7d " = some (success (-7)) := by decide +kernel
example : ofJson? "\x7b\"Success\":-0\x7d" = none := by decide +kernel
example : ofJson? "\x7b\"Failure\":\"\\ud83d\\ude00\"\x7d" = some (failure "😀") := by
  decide +kernel

end EffectMachine.Outcome
