import BlockVerilog.Json.Reader

/-!
Values that are read past: only whether they are JSON is looked at.
-/

namespace BlockVerilog.Json

/-- A bracket that is still open. -/
inductive Container where
  | array
  | object
  deriving DecidableEq, Repr

/-- What has to come next. -/
inductive Expected where
  /-- A value, behind a colon or at the start. -/
  | value
  /-- The first item of an array, or its end. -/
  | firstItem
  /-- An item of an array behind a comma. -/
  | item
  /-- The first key of an object, or its end. -/
  | firstKey
  /-- A key of an object behind a comma. -/
  | key
  | colon
  /-- A comma, or the end of the innermost bracket. -/
  | more
  deriving DecidableEq, Repr

/-- What the end of the text means where something is expected. -/
def endFault (expected : Expected) (innermost : Option Container) : SyntaxFault :=
  match expected with
  | .value | .item | .key => .endInValue
  | .firstItem => .endInArray
  | .firstKey | .colon => .endInObject
  | .more => if innermost = some .array then .endInArray else .endInObject

/-- What happens at a token. -/
inductive SkipStep where
  /-- A container opens. -/
  | enter (container : Container)
  /-- A value is complete. -/
  | complete
  /-- The innermost container ends. -/
  | leave
  /-- Something else of it follows. -/
  | go (expected : Expected)
  | broken (fault : SyntaxFault) (edge : Edge)

/-- What a token that should start a value does; `otherwise` is the fault if it cannot. -/
def valueStep (token : Token) : SkipStep :=
  match token with
  | .null | .bool _ | .number _ | .string _ => .complete
  | .openBracket => .enter .array
  | .openBrace => .enter .object
  | .broken fault | .brokenString fault => .broken fault .behind
  | _ => .broken .expectedValue .within

/-- What a token that should be a key does. -/
def keyStep (token : Token) : SkipStep :=
  match token with
  | .string _ => .go .colon
  | .brokenString fault => .broken fault .behind
  | _ => .broken .keyNotString .within

/-- What a token does where something is expected. -/
def skipStep (innermost : Option Container) (expected : Expected) (token : Token) : SkipStep :=
  match expected, token with
  | .value, token => valueStep token
  | .firstItem, .closeBracket => .leave
  | .firstItem, token => valueStep token
  | .item, .closeBracket => .broken .trailingComma .within
  | .item, token => valueStep token
  | .firstKey, .closeBrace => .leave
  | .firstKey, token => keyStep token
  | .key, .closeBrace => .broken .trailingComma .within
  | .key, token => keyStep token
  | .colon, .colon => .go .value
  | .colon, _ => .broken .expectedColon .within
  | .more, .closeBracket =>
      if innermost = some .array then .leave else .broken .expectedCommaOrBrace .within
  | .more, .closeBrace =>
      if innermost = some .object then .leave else .broken .expectedCommaOrBracket .within
  | .more, .comma => .go (if innermost = some .array then .item else .key)
  | .more, _ =>
      .broken (if innermost = some .array then .expectedCommaOrBracket else .expectedCommaOrBrace)
        .within

/-- Read past a value whose open brackets are `stack`, the innermost first. No more than `room`
brackets may be open at a time. -/
def skipFrom (room : Nat) (stack : List Container) (expected : Expected) :
    List Token → Except Fault (List Token)
  | [] => .error (.syntactic (endFault expected stack.head?) .within [])
  | token :: rest =>
      match skipStep stack.head? expected token with
      | .enter container =>
          if stack.length < room then
            skipFrom room (container :: stack)
              (if container = .array then .firstItem else .firstKey) rest
          else .error (.syntactic .nestedTooDeep .within (token :: rest))
      | .complete => if stack = [] then .ok rest else skipFrom room stack .more rest
      | .leave =>
          if stack.tail = [] then .ok rest else skipFrom room stack.tail .more rest
      | .go expected => skipFrom room stack expected rest
      | .broken fault edge => .error (.syntactic fault edge (token :: rest))

/-- Read past one value. -/
def skip (room : Nat) (tokens : List Token) : Except Fault (List Token) :=
  skipFrom room [] .value tokens

theorem length_of_skipFrom {room : Nat} {stack : List Container} {expected : Expected}
    {tokens rest : List Token} (read : skipFrom room stack expected tokens = .ok rest) :
    rest.length < tokens.length := by
  induction tokens generalizing stack expected with
  | nil => cases read
  | cons token tokens inductionHypothesis =>
      have later {stack : List Container} {expected : Expected}
          (read : skipFrom room stack expected tokens = .ok rest) :
          rest.length < (token :: tokens).length :=
        Nat.lt_succ_of_lt (inductionHypothesis read)
      unfold skipFrom at read
      split at read
      next =>
        split at read
        next => exact later read
        next => cases read
      next =>
        split at read
        next => cases read; simp
        next => exact later read
      next =>
        split at read
        next => cases read; simp
        next => exact later read
      next => exact later read
      next => cases read

end BlockVerilog.Json
