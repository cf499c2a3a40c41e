import Mathlib

/-!
# JSON texts

Texts of bytes as an encoder of JSON sees them that copies values it is given as texts.  A
`Scanner` reads a text byte by byte and keeps a stack of the objects and arrays it is in; it tells
which bytes are white space between tokens and rejects what is not JSON.  `compact` removes that
white space and escapes the characters that must not stand in HTML, as such an encoder does.

Strings are not decoded, and bytes in them that are no UTF-8 are copied.
-/

namespace LlmdAsync

/-- A text of bytes. -/
abbrev Bytes := List UInt8

namespace JsonText

/-- The byte of an ASCII character. -/
def byte (c : Char) : UInt8 := UInt8.ofNat c.toNat

/-- The bytes of an ASCII text. -/
def bytes (text : String) : Bytes := text.toList.map byte

def quote : UInt8 := 0x22

def backslash : UInt8 := 0x5c

def openBrace : UInt8 := 0x7b

@[inherit_doc openBrace]
def closeBrace : UInt8 := 0x7d

def openBracket : UInt8 := 0x5b

@[inherit_doc openBracket]
def closeBracket : UInt8 := 0x5d

def isSpace (c : UInt8) : Bool := c = 0x20 || c = 0x09 || c = 0x0d || c = 0x0a

def isDigit (c : UInt8) : Bool := decide (byte '0' ≤ c) && decide (c ≤ byte '9')

def isHex (c : UInt8) : Bool :=
  isDigit c || (decide (byte 'a' ≤ c) && decide (c ≤ byte 'f')) ||
    (decide (byte 'A' ≤ c) && decide (c ≤ byte 'F'))

/-- What the scanner is inside of: the key or the value of a member of an object, or an array. -/
inductive Frame where
  | objectKey
  | objectValue
  | arrayValue
deriving DecidableEq, Repr

/-- Where in a value the scanner is. -/
inductive State where
  | beginValue
  | beginValueOrEmpty
  | beginString
  | beginStringOrEmpty
  | endValue
  | endTop
  | inString
  | inStringEsc
  /-- This many hexadecimal digits are still to come. -/
  | inStringEscU (left : ℕ)
  | neg
  /-- After a leading `0`. -/
  | zero
  /-- After other digits. -/
  | digits
  | dot
  | fraction
  | exponent
  | exponentSign
  | exponentDigits
  /-- The rest of `true`, `false` or `null`. -/
  | literal (rest : Bytes)
deriving DecidableEq, Repr

/-- A scanner in the middle of a text. -/
structure Scanner where
  state : State
  stack : List Frame
deriving DecidableEq, Repr

/-- How deep values may be nested. -/
def maxNestingDepth : ℕ := 10000

namespace Scanner

def start : Scanner := ⟨.beginValue, []⟩

/-- A byte that belongs to a token. -/
def keep (state : State) (stack : List Frame) : Option (Scanner × Bool) :=
  some (⟨state, stack⟩, true)

/-- A byte between tokens. -/
def skip (state : State) (stack : List Frame) : Option (Scanner × Bool) :=
  some (⟨state, stack⟩, false)

def push (state : State) (frame : Frame) (stack : List Frame) : Option (Scanner × Bool) :=
  if stack.length < maxNestingDepth then keep state (frame :: stack) else none

def pop (stack : List Frame) : Option (Scanner × Bool) :=
  keep (if stack = [] then .endTop else .endValue) stack

/-- A byte after a value. -/
def endValue (stack : List Frame) (c : UInt8) : Option (Scanner × Bool) :=
  match stack with
  | [] => if isSpace c then skip .endTop [] else none
  | frame :: rest =>
    if isSpace c then skip .endValue stack
    else
      match frame with
      | .objectKey => if c = byte ':' then keep .beginValue (.objectValue :: rest) else none
      | .objectValue =>
        if c = byte ',' then keep .beginString (.objectKey :: rest)
        else if c = closeBrace then pop rest
        else none
      | .arrayValue =>
        if c = byte ',' then keep .beginValue stack
        else if c = closeBracket then pop rest
        else none

/-- A byte at the start of a value. -/
def beginValue (stack : List Frame) (c : UInt8) : Option (Scanner × Bool) :=
  if isSpace c then skip .beginValue stack
  else if c = openBrace then push .beginStringOrEmpty .objectKey stack
  else if c = openBracket then push .beginValueOrEmpty .arrayValue stack
  else if c = quote then keep .inString stack
  else if c = byte '-' then keep .neg stack
  else if c = byte '0' then keep .zero stack
  else if isDigit c then keep .digits stack
  else if c = byte 't' then keep (.literal (bytes "rue")) stack
  else if c = byte 'f' then keep (.literal (bytes "alse")) stack
  else if c = byte 'n' then keep (.literal (bytes "ull")) stack
  else none

/-- A byte at the start of a key. -/
def beginString (stack : List Frame) (c : UInt8) : Option (Scanner × Bool) :=
  if isSpace c then skip .beginString stack
  else if c = quote then keep .inString stack
  else none

/-- A byte after the digits before the dot. -/
def afterInteger (stack : List Frame) (c : UInt8) : Option (Scanner × Bool) :=
  if c = byte '.' then keep .dot stack
  else if c = byte 'e' || c = byte 'E' then keep .exponent stack
  else endValue stack c

/-- The scanner after one more byte, and whether that byte is part of a token; nothing if the text
is no JSON. -/
def step (s : Scanner) (c : UInt8) : Option (Scanner × Bool) :=
  match s.state with
  | .beginValue => beginValue s.stack c
  | .beginValueOrEmpty =>
    if isSpace c then skip .beginValueOrEmpty s.stack
    else if c = closeBracket then endValue s.stack c
    else beginValue s.stack c
  | .beginString => beginString s.stack c
  | .beginStringOrEmpty =>
    if isSpace c then skip .beginStringOrEmpty s.stack
    else if c = closeBrace then pop s.stack.tail
    else beginString s.stack c
  | .endValue => endValue s.stack c
  | .endTop => if isSpace c then skip .endTop s.stack else none
  | .inString =>
    if c = quote then keep .endValue s.stack
    else if c = backslash then keep .inStringEsc s.stack
    else if c < 0x20 then none
    else keep .inString s.stack
  | .inStringEsc =>
    if c = quote || c = backslash || (bytes "/bfnrt").contains c then keep .inString s.stack
    else if c = byte 'u' then keep (.inStringEscU 4) s.stack
    else none
  | .inStringEscU left =>
    if isHex c then keep (if left ≤ 1 then .inString else .inStringEscU (left - 1)) s.stack
    else none
  | .neg =>
    if c = byte '0' then keep .zero s.stack
    else if isDigit c then keep .digits s.stack
    else none
  | .zero => afterInteger s.stack c
  | .digits => if isDigit c then keep .digits s.stack else afterInteger s.stack c
  | .dot => if isDigit c then keep .fraction s.stack else none
  | .fraction =>
    if isDigit c then keep .fraction s.stack
    else if c = byte 'e' || c = byte 'E' then keep .exponent s.stack
    else endValue s.stack c
  | .exponent =>
    if c = byte '+' || c = byte '-' then keep .exponentSign s.stack
    else if isDigit c then keep .exponentDigits s.stack
    else none
  | .exponentSign => if isDigit c then keep .exponentDigits s.stack else none
  | .exponentDigits => if isDigit c then keep .exponentDigits s.stack else endValue s.stack c
  | .literal [] => none
  | .literal (x :: rest) =>
    if c = x then keep (if rest = [] then .endValue else .literal rest) s.stack else none

/-- The text may end here. -/
def atEnd (s : Scanner) : Bool :=
  decide (s.state = .endTop) || ((s.step 0x20).any fun r => decide (r.1.state = .endTop))

def scan (s : Scanner) : Bytes → Option Scanner
  | [] => some s
  | c :: text => (s.step c).bind fun r => r.1.scan text

end Scanner

def valid (text : Bytes) : Bool := (Scanner.start.scan text).any Scanner.atEnd

/-- A hexadecimal digit of a number below 16. -/
def hexDigit (n : UInt8) : UInt8 := if n < 10 then byte '0' + n else byte 'a' + (n - 10)

/-- The characters that are escaped for HTML. -/
def isHTML (c : UInt8) : Bool := c = byte '<' || c = byte '>' || c = byte '&'

/-- The escape of such a character. -/
def escapeHTML (c : UInt8) : Bytes :=
  backslash :: bytes "u00" ++ [hexDigit (c / 16), hexDigit (c % 16)]

/-- The text begins with U+2028 or U+2029. -/
def isSeparator : Bytes → Bool
  | 0xe2 :: 0x80 :: c :: _ => c = 0xa8 || c = 0xa9
  | _ => false

/-- The escape of U+2028 or U+2029. -/
def escapeSeparator (c : UInt8) : Bytes := backslash :: bytes "u202" ++ [hexDigit (c % 16)]

/-- Copy a text without the white space between tokens and with the characters escaped that must not
stand in HTML, from somewhere in its middle.  `dropped` bytes were escaped as one character. -/
def compactFrom (s : Scanner) (dropped : ℕ) : Bytes → Option Bytes
  | [] => if s.atEnd then some [] else none
  | c :: text =>
    (s.step c).bind fun r =>
      let copied : Bytes :=
        if isSeparator (c :: text) then escapeSeparator (text.getD 1 0)
        else if 0 < dropped then []
        else if isHTML c then escapeHTML c
        else if r.2 then [c]
        else []
      let dropped := if isSeparator (c :: text) then 2 else dropped - 1
      (compactFrom r.1 dropped text).map (copied ++ ·)

/-- `compact` of a whole text. -/
def compact (text : Bytes) : Option Bytes := compactFrom .start 0 text

/-- The text `null`. -/
def null : Bytes := bytes "null"

end JsonText

end LlmdAsync
