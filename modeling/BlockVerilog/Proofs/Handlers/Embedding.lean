import BlockVerilog.Proofs.Handlers.Bodies

/-!
Bodies inside of the statements that have them.

A statement prints each of its bodies as it was given, behind a line of its own. What it does with
the lines of a body can therefore be told from the text around it.
-/

namespace BlockVerilog

open Text

namespace Text

/-- A text has each of these bodies inside, behind the end of a line. -/
def Embeds (bodies : List String) (text : String) : Prop :=
  ∀ body ∈ bodies, ∃ front back : String,
    text = front ++ body ++ back ∧ front.toList.getLast? = some '\n'

theorem embeds_nil (text : String) : Embeds [] text := List.forall_mem_nil _

theorem embeds_one {head : String} (ended : head.toList.getLast? = some '\n')
    (body closing : String) : Embeds [body] (head ++ body ++ closing) :=
  List.forall_mem_singleton.mpr ⟨head, closing, rfl, ended⟩

theorem Embeds.append {bodies more : List String} {first second : String}
    (embeds : Embeds bodies first) (next : Embeds more second) :
    Embeds (bodies ++ more) (first ++ second) := by
  intro body listed
  rcases List.mem_append.mp listed with inFirst | inSecond
  · obtain ⟨front, back, rfl, ended⟩ := embeds body inFirst
    exact ⟨front, back ++ second, String.append_assoc, ended⟩
  · obtain ⟨front, back, rfl, ended⟩ := next body inSecond
    refine ⟨first ++ front, back, ?_, getLast?_toList_append ended first⟩
    simp only [String.append_assoc]

end Text

namespace Script

variable {α β : Type}

/-- Whatever a script asks for, it makes a result with `post` of all bodies; `before` are those that
it was already given. -/
def LaysOut (post : List String → α → Prop) : Script α → (before : List String) → Prop
  | done a, before => post before a
  | fail _, _ => True
  | value _ _ _ next, before => ∀ text, (next text).LaysOut post before
  | statements _ _ next, before =>
      ∀ body, IsBody body → (next body).LaysOut post (before ++ [body])
  | variableName _ next, before => ∀ name, (next name).LaysOut post before
  | freshName _ next, before => ∀ name, (next name).LaysOut post before
  | define _ _ next, before => ∀ isNew, (next isNew).LaysOut post before

theorem LaysOut.bind {post : List String → α → Prop} {postNext : List String → β → Prop}
    {script : Script α} {f : α → Script β} {before : List String}
    (laysOut : script.LaysOut post before)
    (next : ∀ bodies a, post bodies a → (f a).LaysOut postNext bodies) :
    (script >>= f).LaysOut postNext before := by
  induction script generalizing before with
  | done a => exact next before a laysOut
  | fail e => trivial
  | value node slot required more inductionHypothesis =>
      exact fun text => inductionHypothesis text (laysOut text)
  | statements node slot more inductionHypothesis =>
      exact fun body whole => inductionHypothesis body (laysOut body whole)
  | variableName id more inductionHypothesis
  | freshName wanted more inductionHypothesis =>
      exact fun name => inductionHypothesis name (laysOut name)
  | define key text more inductionHypothesis =>
      exact fun isNew => inductionHypothesis isNew (laysOut isNew)

/-- What is known of a script that asks for certain bodies is known of what it makes of them. -/
theorem Prints.and {post also : List String → α → Prop} {script : Script α}
    {slots before : List String} (prints : script.Prints post slots before)
    (laysOut : script.LaysOut also before) : script.Prints also slots before := by
  induction script generalizing slots before with
  | done a => exact ⟨prints.1, laysOut⟩
  | fail e => trivial
  | value node slot required more inductionHypothesis =>
      exact fun text => inductionHypothesis text (prints text) (laysOut text)
  | statements node slot more inductionHypothesis =>
      obtain ⟨later, same, prints⟩ := prints
      exact ⟨later, same, fun body whole =>
        inductionHypothesis body (prints body whole) (laysOut body whole)⟩
  | variableName id more inductionHypothesis
  | freshName wanted more inductionHypothesis =>
      exact fun name => inductionHypothesis name (prints name) (laysOut name)
  | define key text more inductionHypothesis =>
      exact fun isNew => inductionHypothesis isNew (prints isNew) (laysOut isNew)

theorem Prints.laysOut {post : List String → α → Prop} {script : Script α}
    {slots before : List String} (prints : script.Prints post slots before) :
    script.LaysOut post before := by
  induction script generalizing slots before with
  | done a => exact prints.2
  | fail e => trivial
  | value node slot required more inductionHypothesis =>
      exact fun text => inductionHypothesis text (prints text)
  | statements node slot more inductionHypothesis =>
      obtain ⟨later, _, prints⟩ := prints
      exact fun body whole => inductionHypothesis body (prints body whole)
  | variableName id more inductionHypothesis
  | freshName wanted more inductionHypothesis =>
      exact fun name => inductionHypothesis name (prints name)
  | define key text more inductionHypothesis =>
      exact fun isNew => inductionHypothesis isNew (prints isNew)

end Script

namespace Handler

/-- The statements of a handler embed its bodies. -/
def Embeds : Handler → Prop
  | expression _ => True
  | statement generate => ∀ site, (generate site).LaysOut Text.Embeds []

end Handler

namespace Handlers

open Script

theorem alwaysBlock_embeds : alwaysBlock.Embeds := fun _ _ _ _ =>
  embeds_one (getLast?_toList_append (by decide) _) _ _

theorem initialBlock_embeds (opening closing : String) : (initialBlock opening closing).Embeds := by
  intro site body _
  have regroup : "initial " ++ opening ++ "\n" ++ body ++ closing ++ "\n" =
      "initial " ++ opening ++ "\n" ++ body ++ (closing ++ "\n") := String.append_assoc
  change Embeds [body] ("initial " ++ opening ++ "\n" ++ body ++ closing ++ "\n")
  rw [regroup]
  exact embeds_one (getLast?_toList_append (by decide) _) _ _

theorem declareTimescale_laysOut {α : Type} {post : List String → α → Prop} {script : Script α}
    {site : Site} {before : List String} (laysOut : script.LaysOut post before) :
    (declareTimescale site >>= fun _ => script).LaysOut post before := by
  unfold declareTimescale
  split
  next => exact laysOut
  next => exact fun _ => laysOut

theorem alwaysDelay_embeds : alwaysDelay.Embeds := by
  intro site
  apply declareTimescale_laysOut
  intro time body _
  exact embeds_one (getLast?_toList_append (by decide) _) _ _

theorem delay_embeds : delay.Embeds := by
  intro site
  apply declareTimescale_laysOut
  intro time body _
  change Embeds [body] ("#" ++ time.getD "1" ++ "\n" ++ body)
  rw [← @String.append_empty (_ ++ body)]
  exact embeds_one (getLast?_toList_append (by decide) _) _ _

theorem twoWayConditional_embeds : twoWayConditional.Embeds := by
  intro site first yes _ second no _
  have ended : ∀ front : String, (front ++ ") begin\n").toList.getLast? = some '\n' :=
    getLast?_toList_append (by decide)
  have both := (embeds_one (ended ("if (" ++ first.getD "0")) yes "").append
    (embeds_one (ended ("end\nelse if (" ++ second.getD "0")) no "end\n")
  change Embeds [yes, no] ("if (" ++ first.getD "0" ++ ") begin\n" ++ yes ++ "end\nelse if (" ++
    second.getD "0" ++ ") begin\n" ++ no ++ "end\n")
  simpa only [String.append_empty, String.append_assoc, List.nil_append, List.cons_append]
    using both

/-- The branches of a conditional embed the bodies that they add. -/
theorem branches_laysOut {site : Site} (count n : Nat) (before : List String) :
    (branches site count n).LaysOut
      (fun bodies text => ∃ added, bodies = before ++ added ∧ Embeds added text) before := by
  induction count generalizing n before with
  | zero => exact ⟨[], (List.append_nil before).symm, embeds_nil ""⟩
  | succ count inductionHypothesis =>
      intro condition body _
      apply (inductionHypothesis (n + 1) (before ++ [body])).bind
      rintro _ more ⟨added, rfl, embeds⟩
      refine ⟨body :: added, by rw [List.append_assoc, List.singleton_append], ?_⟩
      have head := embeds_one
        (getLast?_toList_append (by decide : ") begin\n".toList.getLast? = some '\n')
          ((if n = 0 then "" else " else ") ++ "if (" ++ condition.getD "0")) body "end"
      exact head.append embeds

theorem otherwise_laysOut {site : Site} (before : List String) :
    (otherwise site).LaysOut
      (fun bodies text => ∃ added, bodies = before ++ added ∧ Embeds added text) before := by
  unfold otherwise
  split
  next => exact fun body _ => ⟨[body], rfl, embeds_one (by decide) body "end"⟩
  next => exact ⟨[], (List.append_nil before).symm, embeds_nil ""⟩

theorem conditional_embeds : conditional.Embeds := by
  intro site
  apply (branches_laysOut (branchCount site.node) 0 []).bind
  rintro _ chain ⟨first, rfl, embedsFirst⟩
  apply (otherwise_laysOut _).bind
  rintro _ last ⟨second, rfl, embedsSecond⟩
  have all := (embedsFirst.append embedsSecond).append (embeds_nil "\n")
  rwa [List.append_nil] at all

theorem embeds_of_mem_builtin {kind : String} {handler : Handler}
    (registered : (kind, handler) ∈ builtin) : handler.Embeds := by
  cases handler with
  | expression generate => trivial
  | statement generate =>
      intro site
      rcases printsAlone_or_body site registered with ⟨alone, _⟩ | body
      · have prints : (generate site).Prints Text.Embeds [] [] := by
          apply Script.Prints.mono alone
          rintro _ text rfl
          exact embeds_nil text
        exact prints.laysOut
      · revert site
        change (Handler.statement generate).Embeds
        simp only [bodyHandlers, List.mem_cons, Prod.mk.injEq, List.not_mem_nil, or_false] at body
        rcases body with ⟨_, same⟩ | ⟨_, same⟩ | ⟨_, same⟩ | ⟨_, same⟩ | ⟨_, same⟩ | ⟨_, same⟩ |
          ⟨_, same⟩ | ⟨_, same⟩ | ⟨_, same⟩
        all_goals rw [same]
        · exact alwaysBlock_embeds
        · exact alwaysDelay_embeds
        · exact initialBlock_embeds "begin" "end"
        · exact initialBlock_embeds "fork" "join"
        · exact conditional_embeds
        · exact conditional_embeds
        · exact twoWayConditional_embeds
        · exact delay_embeds
        · exact fun _ => embeds_nil _

/-- A built-in statement asks for the bodies of its kind and embeds them. -/
theorem statement_embeds {site : Site} {generate : Site → Script String}
    (registered : (site.node.kind, .statement generate) ∈ builtin) :
    (generate site).Prints Embeds site.node.bodySlots [] :=
  Prints.and (prints_of_mem_builtin site registered) (embeds_of_mem_builtin registered site)

end Handlers

end BlockVerilog
