/-
  Quoted text.

  Two spellings of a piece of text as one quoted token, which differ in the characters that are
  escaped and in how:

  * `debug`, the spelling inside a description of a value: a quote, a backslash, tab, newline,
    carriage return and NUL have escapes of one letter, and any other character that would not
    show by itself, because it is not printable or extends the one before it, is written by its
    code in braces, as few lower-case hexadecimal digits as it needs;
  * `json`, the spelling of a JSON string: the escapes of one letter that JSON has, and four
    hexadecimal digits for any other character below the space.

  Every other character stands for itself, non-ASCII ones too.
-/
import EffectMachine.Text.Printable
import EffectMachine.Text.Extending

namespace EffectMachine.Text

/-- The lower-case hexadecimal digits of a number, none of them a leading zero. -/
def hex (n : Nat) : String := String.ofList (Nat.toDigits 16 n)

/-- Whether a character shows by itself: it is printable, and no part of the one before it. -/
def showsItself (c : Char) : Bool := isPrintable c && !isExtending c

/-- One character inside `debug` quotes. -/
def debugEscape (c : Char) : String :=
  match c with
  | '"' => "\\\""
  | '\\' => "\\\\"
  | '\t' => "\\t"
  | '\n' => "\\n"
  | '\r' => "\\r"
  | '\x00' => "\\0"
  | c => if showsItself c then c.toString else "\\u\x7b" ++ hex c.toNat ++ "\x7d"

/-- One character inside `json` quotes. -/
def jsonEscape (c : Char) : String :=
  match c with
  | '"' => "\\\""
  | '\\' => "\\\\"
  | '\x08' => "\\b"
  | '\x0c' => "\\f"
  | '\n' => "\\n"
  | '\r' => "\\r"
  | '\t' => "\\t"
  | c =>
    if c.val < 0x10 then "\\u000" ++ hex c.toNat
    else if c.val < 0x20 then "\\u00" ++ hex c.toNat
    else c.toString

/-- Text between quotes, each character written by `escape`. -/
def quoteWith (escape : Char → String) (s : String) : String :=
  "\"" ++ String.join (s.toList.map escape) ++ "\""

/-- Text as it is quoted in the description of a value. -/
def debug (s : String) : String := quoteWith debugEscape s

/-- Text as a JSON string. -/
def json (s : String) : String := quoteWith jsonEscape s

/-- The printable characters of ASCII show by themselves, and no other character below U+00A1. -/
theorem showsItself_iff_of_lt (c : Char) (h : c.toNat < 0xa1) :
    showsItself c = true ↔ 0x20 ≤ c.toNat ∧ c.toNat < 0x7f := by
  simp [showsItself, isExtending_eq_false_of_lt c (by omega), isPrintable_iff_of_lt c h]

example : debug "a\"b\n" = "\"a\\\"b\\n\"" := by decide +kernel
example : debug "é e\u0301" = "\"é e\\u\x7b301\x7d\"" := by decide +kernel
example : json "\x01\x7f" = "\"\\u0001\x7f\"" := by decide +kernel

end EffectMachine.Text
