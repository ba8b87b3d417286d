import OpenVSwitch.Json.Lexer

/-!
# The JSON parser

`struct json_parser` of `lib/json.c`: a byte-driven lexer in front of a state machine with an
explicit stack.  `JsonParser.feed` is `json_parser_feed()`, `JsonParser.finish` is
`json_parser_finish()`, and `jsonFromString` is `json_from_string()`.

The C code links a new array or object into its parent when it is pushed and fills it through
the pointer on the stack.  Here a stack node remembers the member name under which it hangs and
is put into its parent when it is popped: nothing reads the parent in between.

A byte may have to be offered twice, because a number or a keyword ends only where the next
character starts.  Twice is enough (`lexInput_start_consumes`).
-/

namespace OVS

/-- `enum json_lex_state`. -/
inductive LexState where
  | start
  | number
  | keyword
  | string
  | escape
deriving DecidableEq

/-- `enum json_parse_state`. -/
inductive ParseState where
  | start
  | finish
  | objectInit
  | objectName
  | objectColon
  | objectValue
  | objectNext
  | arrayInit
  | arrayValue
  | arrayNext
deriving DecidableEq

/-- Where the parser is in its input; only error messages show it. -/
structure Position where
  line : ℕ := 0
  column : ℕ := 0
  byte : ℕ := 0

/-- `struct json_parser_node`, with the name under which the value hangs in its parent when the
parent is an object. -/
structure ParserNode where
  json : Json
  name : Option CString

/-- `struct json_parser`.  The top of the stack is its head. -/
structure JsonParser where
  /-- `JSPF_TRAILER` is set in `flags`. -/
  trailer : Bool
  lexState : LexState := .start
  buffer : List UInt8 := []
  pos : Position := {}
  parseState : ParseState := .start
  stack : List ParserNode := []
  memberName : Option CString := none
  done : Bool := false
  error : Option CString := none

def jsonMaxHeight : ℕ := 1000

namespace JsonParser

/-- `json_error()`: the first error is kept, with its position. -/
def jsonError (p : JsonParser) (msg : List UInt8) : JsonParser :=
  if p.error.isSome then p
  else
    { p with
      error := some (CString.ofBytes
        (ascii "line " ++ decimal p.pos.line ++ ascii ", column " ++ decimal p.pos.column ++
          ascii ", byte " ++ decimal p.pos.byte ++ ascii ": " ++ msg))
      done := true }

/-! ## The state machine -/

/-- `json_parser_put_value()`: adds a value to the array or object on top of the stack. -/
def putValue (p : JsonParser) (value : Json) : JsonParser :=
  match p.stack with
  | [] => p
  | node :: rest =>
    match node.json, p.memberName with
    | .object members, some name =>
      { p with
        stack := { node with json := .object (shashReplace members name value) } :: rest
        memberName := none }
    | .array elems, _ =>
      { p with stack := { node with json := .array (elems ++ [value]) } :: rest }
    | _, _ => p

def push (p : JsonParser) (newJson : Json) (newState : ParseState) : JsonParser :=
  if p.stack.length < jsonMaxHeight then
    { p with
      stack := ⟨newJson, p.memberName⟩ :: p.stack
      memberName := none
      parseState := newState }
  else p.jsonError (ascii "input exceeds maximum nesting depth " ++ decimal jsonMaxHeight)

def pushObject (p : JsonParser) : JsonParser := p.push (.object []) .objectInit

def pushArray (p : JsonParser) : JsonParser := p.push (.array []) .arrayInit

/-- A value that is a single token is put in place; the parser goes on in `next`. -/
def parseScalar (p : JsonParser) (value : Json) (next : ParseState) : JsonParser :=
  { p.putValue value with parseState := next }

/-- `json_parse_value()`. -/
def parseValue (p : JsonParser) (token : Token) (next : ParseState) : JsonParser :=
  match token with
  | .false => p.parseScalar .false next
  | .null => p.parseScalar .null next
  | .true => p.parseScalar .true next
  | .lbrace => p.pushObject
  | .lbracket => p.pushArray
  | .integer n => p.parseScalar (.integer n) next
  | .real r => p.parseScalar (.real r) next
  | .string s => p.parseScalar (.string s) next
  | .eof | .rbrace | .rbracket | .colon | .comma =>
    p.jsonError (ascii "syntax error expecting value")

def pop (p : JsonParser) : JsonParser :=
  match p.stack with
  | [] => p
  | [_] => { p with parseState := .finish, done := p.done || !p.trailer }
  | node :: parent :: rest =>
    let p := { p with stack := parent :: rest, memberName := node.name }.putValue node.json
    match parent.json with
    | .array _ => { p with parseState := .arrayNext }
    | .object _ => { p with parseState := .objectNext }
    | _ => p

/-- `JSON_PARSE_OBJECT_NAME`: a member name is expected. -/
def parseName (p : JsonParser) (token : Token) : JsonParser :=
  match token with
  | .string s => { p with memberName := some s, parseState := .objectColon }
  | _ => p.jsonError (ascii "syntax error parsing object expecting string")

/-- The transitions of `json_parser_input()`. -/
def transition (p : JsonParser) (token : Token) : JsonParser :=
  match p.parseState with
  | .start =>
    match token with
    | .lbrace => p.pushObject
    | .lbracket => p.pushArray
    | _ => p.jsonError (ascii "syntax error at beginning of input")
  | .finish => p.jsonError (ascii "trailing garbage at end of input")
  | .objectInit =>
    match token with
    | .rbrace => p.pop
    | _ => p.parseName token
  | .objectName => p.parseName token
  | .objectColon =>
    match token with
    | .colon => { p with parseState := .objectValue }
    | _ => p.jsonError (ascii "syntax error parsing object expecting ':'")
  | .objectValue => p.parseValue token .objectNext
  | .objectNext =>
    match token with
    | .comma => { p with parseState := .objectName }
    | .rbrace => p.pop
    | _ => p.jsonError (ascii "syntax error expecting '\x7d' or ','")
  | .arrayInit =>
    match token with
    | .rbracket => p.pop
    | _ => p.parseValue token .arrayNext
  | .arrayValue => p.parseValue token .arrayNext
  | .arrayNext =>
    match token with
    | .comma => { p with parseState := .arrayValue }
    | .rbracket => p.pop
    | _ => p.jsonError (ascii "syntax error expecting ']' or ','")

/-- The lexer starts a new token. -/
def endToken (p : JsonParser) : JsonParser := { p with lexState := .start, buffer := [] }

/-- `json_parser_input()`: a transition, and the end of the token. -/
def input (p : JsonParser) (token : Token) : JsonParser := (p.transition token).endToken

/-- A token that was recognised goes to the state machine; one that was not is an error. -/
def inputOrError (p : JsonParser) (token : Except (List UInt8) Token) : JsonParser :=
  match token with
  | .ok token => p.input token
  | .error msg => p.jsonError msg

/-! ## The lexer -/

variable (D : DoubleFormat)

/-- `isalpha()` in the C locale. -/
def isalpha (c : UInt8) : Bool :=
  (ch 'a' ≤ c && c ≤ ch 'z') || (ch 'A' ≤ c && c ≤ ch 'Z')

/-- `isprint()` in the C locale. -/
def isprint (c : UInt8) : Bool := 0x20 ≤ c && c ≤ 0x7e

/-- `strchr(".0123456789eE-+", c)`, which also finds the terminating NUL. -/
def isNumberByte (c : UInt8) : Bool := c = 0 || (ascii ".0123456789eE-+").contains c

/-- The tokens of one character. -/
def punctuation (c : UInt8) : Option Token :=
  if c = ch '[' then some .lbracket
  else if c = ch '\x7b' then some .lbrace
  else if c = ch ']' then some .rbracket
  else if c = ch '\x7d' then some .rbrace
  else if c = ch ':' then some .colon
  else if c = ch ',' then some .comma
  else none

/-- `ds_put_char(&p->buffer, c)`. -/
def putChar (p : JsonParser) (c : UInt8) : JsonParser := { p with buffer := p.buffer ++ [c] }

/-- `json_lex_input()` in `JSON_LEX_START`. -/
def lexStart (p : JsonParser) (c : UInt8) : JsonParser :=
  if c = ch ' ' ∨ c = ch '\t' ∨ c = ch '\n' ∨ c = ch '\r' then p
  else if ch 'a' ≤ c ∧ c ≤ ch 'z' then { p with lexState := .keyword }.putChar c
  else
    match punctuation c with
    | some token => p.input token
    | none =>
      if c = ch '-' ∨ isdigit c then { p with lexState := .number }.putChar c
      else if c = ch '"' then { p with lexState := .string }
      else if isprint c then p.jsonError (ascii "invalid character '" ++ [c] ++ ascii "'")
      else p.jsonError (ascii "invalid character U+" ++ hex4 false c.toNat)

/-- `json_lex_input()`, with whether the character was consumed. -/
def lexInput (p : JsonParser) (c : UInt8) : JsonParser × Bool :=
  match p.lexState with
  | .start => (p.lexStart c, true)
  | .keyword =>
    if isalpha c then (p.putChar c, true)
    else (p.inputOrError (keywordToken (CString.ofBytes p.buffer)), false)
  | .number =>
    if isNumberByte c then (p.putChar c, true)
    else (p.inputOrError (numberToken D (CString.ofBytes p.buffer)), false)
  | .string =>
    if c = ch '\\' then ({ p with lexState := .escape }.putChar c, true)
    else if c = ch '"' then (p.inputOrError (stringToken (CString.ofBytes p.buffer)), true)
    else if c < 0x20 then
      (p.jsonError (ascii "U+" ++ hex4 true c.toNat ++ ascii " must be escaped in quoted string"),
        true)
    else (p.putChar c, true)
  | .escape => ({ p with lexState := .string }.putChar c, true)

/-- The position after a consumed character. -/
def advance (p : JsonParser) (c : UInt8) : JsonParser :=
  { p with
    pos :=
      if c = ch '\n' then { line := p.pos.line + 1, column := 0, byte := p.pos.byte + 1 }
      else { p.pos with column := p.pos.column + 1, byte := p.pos.byte + 1 } }

/-- One round of the loop of `json_parser_feed()` for a character: it is offered, and offered
again if the lexer did not consume it and the parser is not done. -/
def feedByte (p : JsonParser) (c : UInt8) : JsonParser :=
  match p.lexInput D c with
  | (p, true) => p.advance c
  | (p, false) => if p.done then p else (p.lexInput D c).1.advance c

def feed (p : JsonParser) (cs : List UInt8) : JsonParser :=
  match cs with
  | [] => p
  | c :: cs => if p.done then p else feed (p.feedByte D c) cs

/-- `json_parser_finish()`.  A failed assertion is `none`. -/
def finish (p : JsonParser) : Option Json :=
  let p :=
    match p.lexState with
    | .start => p
    | .string | .escape => p.jsonError (ascii "unexpected end of input in quoted string")
    | .number | .keyword => (p.lexInput D (ch ' ')).1
  let p :=
    if p.parseState = .start then p.jsonError (ascii "empty input stream")
    else if p.parseState ≠ .finish then p.jsonError (ascii "unexpected end of input")
    else p
  match p.error, p.stack with
  | some msg, _ => some (.string msg)
  | none, [node] => some node.json
  | none, _ => none

end JsonParser

def jsonFromString (D : DoubleFormat) (s : CString) : Option Json :=
  (({ trailer := true } : JsonParser).feed D s.bytes).finish D

end OVS
