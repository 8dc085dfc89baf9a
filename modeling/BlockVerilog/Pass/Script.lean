import BlockVerilog.Pass.Error
import BlockVerilog.Precedence

/-!
Scripts: what the generator of a node asks of the pass it runs in.

A script asks for the text of slots, for names and for declarations, and ends with a value or an
error. How the questions are answered is up to `Generator.run`.
-/

namespace BlockVerilog

/-- A computation of a pass, one question at a time. -/
inductive Script (α : Type) where
  | done (value : α)
  | fail (error : PassError)
  /-- The expression in a value slot, in parentheses if it binds looser than `required`. -/
  | value (node : NodeId) (slot : String) (required : Precedence)
      (next : Option String → Script α)
  /-- The statements in a statement slot, indented. -/
  | statements (node : NodeId) (slot : String) (next : String → Script α)
  /-- The name of a workspace variable. -/
  | variableName (id : String) (next : String → Script α)
  /-- A name that nothing else in the pass has. -/
  | freshName (wanted : String) (next : String → Script α)
  /-- Declare a text once; tells whether its key was new. -/
  | define (key text : String) (next : Bool → Script α)

namespace Script

variable {α β : Type}

protected def bind : Script α → (α → Script β) → Script β
  | done a, f => f a
  | fail error, _ => fail error
  | value node slot required next, f => value node slot required fun text => (next text).bind f
  | statements node slot next, f => statements node slot fun text => (next text).bind f
  | variableName id next, f => variableName id fun name => (next name).bind f
  | freshName wanted next, f => freshName wanted fun name => (next name).bind f
  | define key text next, f => define key text fun isNew => (next isNew).bind f

instance : Monad Script where
  pure := done
  bind := Script.bind

@[simp] theorem pure_eq_done (a : α) : (pure a : Script α) = done a := rfl

@[simp] theorem done_bind (a : α) (f : α → Script β) : (done a >>= f) = f a := rfl

@[simp] theorem fail_bind (error : PassError) (f : α → Script β) :
    (fail error >>= f) = fail error := rfl

@[simp] theorem value_bind (node : NodeId) (slot : String) (required : Precedence)
    (next : Option String → Script α) (f : α → Script β) :
    (value node slot required next >>= f) =
      value node slot required fun text => next text >>= f := rfl

@[simp] theorem statements_bind (node : NodeId) (slot : String) (next : String → Script α)
    (f : α → Script β) :
    (statements node slot next >>= f) = statements node slot fun text => next text >>= f := rfl

@[simp] theorem variableName_bind (id : String) (next : String → Script α) (f : α → Script β) :
    (variableName id next >>= f) = variableName id fun name => next name >>= f := rfl

@[simp] theorem freshName_bind (wanted : String) (next : String → Script α) (f : α → Script β) :
    (freshName wanted next >>= f) = freshName wanted fun name => next name >>= f := rfl

@[simp] theorem define_bind (key text : String) (next : Bool → Script α) (f : α → Script β) :
    (define key text next >>= f) = define key text fun isNew => next isNew >>= f := rfl

/-- A script whose questions about slots are all about one node. -/
def IsLocal (id : NodeId) : Script α → Prop
  | done _ => True
  | fail _ => True
  | value node _ _ next => node = id ∧ ∀ text, (next text).IsLocal id
  | statements node _ next => node = id ∧ ∀ text, (next text).IsLocal id
  | variableName _ next => ∀ name, (next name).IsLocal id
  | freshName _ next => ∀ name, (next name).IsLocal id
  | define _ _ next => ∀ isNew, (next isNew).IsLocal id

theorem isLocal_bind {id : NodeId} {script : Script α} {f : α → Script β}
    (first : script.IsLocal id) (second : ∀ a, (f a).IsLocal id) : (script >>= f).IsLocal id := by
  induction script with
  | done a => exact second a
  | fail => trivial
  | value node slot required next inductionHypothesis =>
      exact ⟨first.1, fun text => inductionHypothesis text (first.2 text)⟩
  | statements node slot next inductionHypothesis =>
      exact ⟨first.1, fun text => inductionHypothesis text (first.2 text)⟩
  | variableName _ next inductionHypothesis =>
      exact fun name => inductionHypothesis name (first name)
  | freshName _ next inductionHypothesis =>
      exact fun name => inductionHypothesis name (first name)
  | define _ _ next inductionHypothesis =>
      exact fun isNew => inductionHypothesis isNew (first isNew)

end Script

end BlockVerilog
