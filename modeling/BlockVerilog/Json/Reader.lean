import BlockVerilog.Json.Lexeme

/-!
Readers of token streams, in the order of the text.

The first token that does not fit decides, be it broken JSON or a value of the wrong kind. A
reader takes at least one token; arrays and objects end because their items do.
-/

namespace BlockVerilog.Json

/-- What a reader finds: a value and the tokens behind it, or a fault. -/
abbrev Outcome (α : Type) := Except Fault (α × List Token)

/-- Reads a value from the front of a token stream. -/
structure Reader (α : Type) where
  read : List Token → Outcome α
  progress : ∀ {tokens : List Token} {value : α} {rest : List Token},
    read tokens = .ok (value, rest) → rest.length < tokens.length

/-- Apply a function to what a reader finds. -/
def Reader.map {α β : Type} (inner : Reader α) (f : α → β) : Reader β where
  read tokens := (inner.read tokens).map fun found => (f found.1, found.2)
  progress := by
    intro tokens value rest success
    cases result : inner.read tokens with
    | error fault =>
        rw [result] at success
        cases success
    | ok found =>
        rw [result] at success
        cases success
        exact inner.progress result

/-- A fault of the JSON at the next token. -/
def Fault.syntactic (fault : SyntaxFault) (edge : Edge) (tokens : List Token) : Fault :=
  ⟨.syntactic fault, tokens.length, edge⟩

/-- A misfit at the next token. -/
def Fault.misplaced (misfit : Misfit) (edge : Edge) (tokens : List Token) : Fault :=
  ⟨.misplaced misfit, tokens.length, edge⟩

/-- A misfit behind the token before these. -/
def Fault.behindLast (misfit : Misfit) (tokens : List Token) : Fault :=
  ⟨.misplaced misfit, tokens.length + 1, .behind⟩

/-- A misfit inside an object, noticed where the object could end. -/
def Fault.inObject (misfit : Misfit) (tokens : List Token) : Fault :=
  match tokens with
  | .closeBrace :: _ => .misplaced misfit .behind tokens
  | _ => .misplaced misfit .before tokens

/-- The fault where a value of another kind is expected. -/
def unexpected (expected : String) (tokens : List Token) : Fault :=
  let misfit (found : Found) (edge : Edge) : Fault :=
    .misplaced (.wrongType found expected) edge tokens
  match tokens with
  | .null :: _ => misfit .null .behind
  | .bool value :: _ => misfit (.bool value) .behind
  | .number value :: _ => misfit (.number value) .behind
  | .string value :: _ => misfit (.string value) .behind
  | .openBracket :: _ => misfit .array .before
  | .openBrace :: _ => misfit .object .before
  | .brokenString fault :: _ => .syntactic fault .behind tokens
  | .broken fault :: _ => .syntactic fault .behind tokens
  | [] => .syntactic .endInValue .within tokens
  | _ => .syntactic .expectedValue .within tokens

/-- A string. -/
def string : Reader String where
  read
    | .string value :: rest => .ok (value, rest)
    | tokens => .error (unexpected "a string" tokens)
  progress := by
    intro tokens value rest success
    split at success
    next => cases success; simp
    next => cases success

/-- A boolean. -/
def bool : Reader Bool where
  read
    | .bool value :: rest => .ok (value, rest)
    | tokens => .error (unexpected "a boolean" tokens)
  progress := by
    intro tokens value rest success
    split at success
    next => cases success; simp
    next => cases success

/-- A value, or nothing for `null`. -/
def optional {α : Type} (inner : Reader α) : Reader (Option α) where
  read
    | .null :: rest => .ok (none, rest)
    | tokens => (inner.map some).read tokens
  progress := by
    intro tokens value rest success
    split at success
    next => cases success; simp
    next => exact (inner.map some).progress success

/-- What stands where an item of an array may: the closing bracket, with the tokens behind it, or
an item. -/
inductive ArrayStep where
  | ended (rest : List Token)
  | item (tokens : List Token)

/-- Look at an array behind its bracket (`first`) or behind an item. -/
def arrayStep (first : Bool) (tokens : List Token) : Except Fault ArrayStep :=
  match first, tokens with
  | _, [] => .error (.syntactic .endInArray .within tokens)
  | _, .closeBracket :: rest => .ok (.ended rest)
  | true, tokens => .ok (.item tokens)
  | false, .comma :: rest =>
      match rest with
      | [] => .error (.syntactic .endInValue .within rest)
      | .closeBracket :: _ => .error (.syntactic .trailingComma .within rest)
      | _ => .ok (.item rest)
  | false, tokens => .error (.syntactic .expectedCommaOrBracket .within tokens)

theorem arrayStep_ended {first : Bool} {tokens rest : List Token}
    (step : arrayStep first tokens = .ok (.ended rest)) : tokens = .closeBracket :: rest := by
  unfold arrayStep at step
  split at step
  next => cases step
  next => cases step; rfl
  next => cases step
  next => split at step <;> cases step
  next => cases step

theorem arrayStep_item {first : Bool} {tokens rest : List Token}
    (step : arrayStep first tokens = .ok (.item rest)) : rest.length ≤ tokens.length := by
  unfold arrayStep at step
  split at step
  next => cases step
  next => cases step
  next => cases step; exact Nat.le_refl _
  next =>
    split at step
    next => cases step
    next => cases step
    next => cases step; simp
  next => cases step

/-- The items of an array from here on. -/
def items {α : Type} (item : Reader α) (first : Bool) (tokens : List Token) : Outcome (List α) :=
  match _step : arrayStep first tokens with
  | .error fault => .error fault
  | .ok (.ended rest) => .ok ([], rest)
  | .ok (.item start) =>
      match _read : item.read start with
      | .error fault => .error fault
      | .ok (value, rest) => (items item false rest).map fun more => (value :: more.1, more.2)
termination_by tokens.length
decreasing_by exact Nat.lt_of_lt_of_le (item.progress _read) (arrayStep_item _step)

theorem length_of_items {α : Type} {item : Reader α} {first : Bool} {tokens rest : List Token}
    {values : List α} (read : items item first tokens = .ok (values, rest)) :
    rest.length < tokens.length := by
  fun_induction items item first tokens generalizing values rest with
  | case1 => cases read
  | case2 _ _ _ step =>
      cases read
      rw [arrayStep_ended step]
      simp
  | case3 => cases read
  | case4 first tokens start step value after one inductionHypothesis =>
      cases more : items item false after with
      | error fault =>
          rw [more] at read
          cases read
      | ok found =>
          rw [more] at read
          cases read
          have := inductionHypothesis more
          have := item.progress one
          have := arrayStep_item step
          omega

/-- An array of items. -/
def array {α : Type} (item : Reader α) : Reader (List α) where
  read
    | .openBracket :: rest => items item true rest
    | tokens => .error (unexpected "a sequence" tokens)
  progress := by
    intro tokens value rest success
    split at success
    next => exact Nat.lt_succ_of_lt (length_of_items success)
    next => cases success

/-- What stands where a member of an object may: the closing brace, with the tokens behind it, or
a key, with the tokens behind that. -/
inductive ObjectStep where
  | ended (rest : List Token)
  | key (name : String) (rest : List Token)

/-- A key, which has to be a string. -/
def objectKey (tokens : List Token) : Except Fault ObjectStep :=
  match tokens with
  | .string name :: rest => .ok (.key name rest)
  | .brokenString fault :: _ => .error (.syntactic fault .behind tokens)
  | _ => .error (.syntactic .keyNotString .within tokens)

/-- Look at an object behind its brace (`first`) or behind a member. -/
def objectStep (first : Bool) (tokens : List Token) : Except Fault ObjectStep :=
  match first, tokens with
  | _, [] => .error (.syntactic .endInObject .within tokens)
  | _, .closeBrace :: rest => .ok (.ended rest)
  | true, tokens => objectKey tokens
  | false, .comma :: rest =>
      match rest with
      | [] => .error (.syntactic .endInValue .within rest)
      | .closeBrace :: _ => .error (.syntactic .trailingComma .within rest)
      | _ => objectKey rest
  | false, tokens => .error (.syntactic .expectedCommaOrBrace .within tokens)

theorem objectKey_eq_ok {tokens : List Token} {step : ObjectStep}
    (found : objectKey tokens = .ok step) :
    ∃ name rest, tokens = .string name :: rest ∧ step = .key name rest := by
  unfold objectKey at found
  split at found
  next name rest => cases found; exact ⟨name, rest, rfl, rfl⟩
  next => cases found
  next => cases found

theorem objectStep_ended {first : Bool} {tokens rest : List Token}
    (step : objectStep first tokens = .ok (.ended rest)) : tokens = .closeBrace :: rest := by
  unfold objectStep at step
  split at step
  next => cases step
  next => cases step; rfl
  next =>
    obtain ⟨_, _, _, impossible⟩ := objectKey_eq_ok step
    cases impossible
  next =>
    split at step
    next => cases step
    next => cases step
    next =>
      obtain ⟨_, _, _, impossible⟩ := objectKey_eq_ok step
      cases impossible
  next => cases step

theorem objectStep_key {first : Bool} {tokens rest : List Token} {name : String}
    (step : objectStep first tokens = .ok (.key name rest)) : rest.length < tokens.length := by
  unfold objectStep at step
  split at step
  next => cases step
  next => cases step
  next =>
    obtain ⟨_, _, same, here⟩ := objectKey_eq_ok step
    cases here
    simp [same]
  next =>
    split at step
    next => cases step
    next => cases step
    next =>
      obtain ⟨_, _, same, here⟩ := objectKey_eq_ok step
      cases here
      rw [same, List.length_cons, List.length_cons]
      omega
  next => cases step

/-- The tokens behind the colon of a member. -/
def colon (tokens : List Token) : Except Fault (List Token) :=
  match tokens with
  | [] => .error (.syntactic .endInObject .within tokens)
  | .colon :: rest => .ok rest
  | _ => .error (.syntactic .expectedColon .within tokens)

theorem length_of_colon {tokens rest : List Token} (read : colon tokens = .ok rest) :
    rest.length < tokens.length := by
  unfold colon at read
  split at read
  next => cases read
  next => cases read; simp
  next => cases read

/-- The members of an object from here on. What is known so far refuses a key, or reads its value
and takes it in. -/
def members {σ : Type} (member : σ → String → Except Misfit (Reader σ)) (first : Bool) (known : σ)
    (tokens : List Token) : Outcome σ :=
  match _step : objectStep first tokens with
  | .error fault => .error fault
  | .ok (.ended rest) => .ok (known, rest)
  | .ok (.key name rest) =>
      match member known name with
      | .error misfit => .error (.inObject misfit rest)
      | .ok value =>
          match _colon : colon rest with
          | .error fault => .error fault
          | .ok start =>
              match _read : value.read start with
              | .error fault => .error fault
              | .ok (known, rest) => members member false known rest
termination_by tokens.length
decreasing_by
  have := value.progress _read
  have := length_of_colon _colon
  have := objectStep_key _step
  omega

theorem length_of_members {σ : Type} {member : σ → String → Except Misfit (Reader σ)}
    {first : Bool} {known result : σ} {tokens rest : List Token}
    (read : members member first known tokens = .ok (result, rest)) :
    rest.length < tokens.length := by
  fun_induction members member first known tokens generalizing result rest with
  | case1 => cases read
  | case2 =>
      rename_i step
      cases read
      rw [objectStep_ended step]
      simp
  | case3 => cases read
  | case4 => cases read
  | case5 => cases read
  | case6 =>
      rename_i step value _ _ afterColon _ _ one inductionHypothesis
      have := inductionHypothesis read
      have := value.progress one
      have := length_of_colon afterColon
      have := objectStep_key step
      omega

/-- An object with members of any name; `expected` is what messages call it. -/
def object {σ : Type} (expected : String) (start : σ) (member : σ → String → Reader σ) :
    Reader σ where
  read
    | .openBrace :: rest => members (fun known name => .ok (member known name)) true start rest
    | tokens => .error (unexpected expected tokens)
  progress := by
    intro tokens value rest success
    split at success
    next => exact Nat.lt_succ_of_lt (length_of_members success)
    next => cases success

end BlockVerilog.Json
