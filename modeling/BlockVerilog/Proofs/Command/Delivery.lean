import BlockVerilog.Proofs.Command.Arguments
import BlockVerilog.Proofs.Command.World
import BlockVerilog.Proofs.Document.Written

/-!
Where the code goes, and what stays as it was.

Everything that can fail comes before the only write, and a write that fails changes nothing. What a
run changes is therefore one file at most, and only if it succeeds.
-/

namespace BlockVerilog.Command

namespace World

/-- The text that a document path stands for. -/
def source (world : World) (path : String) : Except CommandError String :=
  if path = stdinPath then .ok world.stdin else (world.read path).mapError (.ofRead path)

theorem run_bind {α β : Type} {c : StateM World α} {world after : World} {a : α}
    (ran : c.run world = (a, after)) (f : α → StateM World β) :
    (c >>= f).run world = (f a).run after := by
  rw [StateT.run_bind, ran]
  rfl

theorem run_readInput (world : World) (path : String) :
    (readInput host path).run world = (world.source path, world) := by
  unfold readInput source
  split
  next => rfl
  next => rfl

theorem run_checkFile (world : World) (path : String) :
    (checkFile host path).run world =
      (match world.source path with
        | .error e => .error e
        | .ok text =>
            match checkSource text with
            | .error e => .error (.failed e)
            | .ok summary => .ok ("OK: " ++ path ++ " (" ++ summary ++ ")"), world) := by
  unfold checkFile
  rw [run_bind (run_readInput world path)]
  cases world.source path with
  | error e => rfl
  | ok text =>
      dsimp only
      cases checkSource text <;> rfl

theorem run_generateFile (world : World) (options : Options) :
    (generateFile host options).run world =
      (match world.source options.input with
        | .error e => .error e
        | .ok text => (generateSource text options.config).mapError .failed, world) := by
  unfold generateFile
  rw [run_bind (run_readInput world options.input)]
  cases world.source options.input <;> rfl

theorem run_writeOutput (world : World) (path text : String) :
    (writeOutput host path text).run world =
      match world.write path text with
      | (some reason, after) => (.error (.unwritable path reason), after)
      | (none, after) => (.ok (), after) := by
  have asked : (host.writeFile path text).run world = world.write path text := rfl
  rcases written : world.write path text with ⟨_ | reason, after⟩
  all_goals
    unfold writeOutput
    rw [run_bind (asked.trans written)]
    rfl

/-- Nothing is in the way of what options ask for. -/
structure Grants (world : World) (options : Options) (text : String) : Prop where
  held : world.source options.input = .ok text
  checked : options.checkOnly = true → ∃ summary, checkSource text = .ok summary
  generated : options.checkOnly = false →
    ∃ code, generateSource text options.config = .ok code ∧
      ∀ path, options.output = some path → (world.write path code).1 = none

/-- What becomes of options in a world: a failure that changes nothing, a check, or code that is
printed or received behind a path. -/
inductive Performs (world : World) (options : Options) :
    Except CommandError String → World → Prop
  | fails (e : CommandError) (refused : ∀ text, ¬ world.Grants options text) :
      Performs world options (.error e) world
  | checks {text summary : String} (checkOnly : options.checkOnly = true)
      (held : world.source options.input = .ok text) (checked : checkSource text = .ok summary)
      (shown : String) : Performs world options (.ok shown) world
  | prints {text code : String} (generates : options.checkOnly = false)
      (held : world.source options.input = .ok text)
      (generated : generateSource text options.config = .ok code)
      (unnamed : options.output = none) : Performs world options (.ok code) world
  | delivers {text code path : String} {after : World} (generates : options.checkOnly = false)
      (held : world.source options.input = .ok text)
      (generated : generateSource text options.config = .ok code)
      (named : options.output = some path) (written : world.write path code = (none, after))
      (received : world.Receives path code after) : Performs world options (.ok "") after

theorem performs_check (world : World) {options : Options} (mode : options.checkOnly = true) :
    world.Performs options ((perform host options).run world).1
      ((perform host options).run world).2 := by
  unfold perform
  rw [if_pos mode, run_bind (run_checkFile world options.input)]
  cases held : world.source options.input with
  | error e => exact .fails e fun text grants => by simpa [held] using grants.held
  | ok text =>
      dsimp only
      cases checked : checkSource text with
      | error e =>
          refine .fails _ fun other grants => ?_
          obtain rfl : text = other := Except.ok.inj (held.symm.trans grants.held)
          simpa [checked] using grants.checked mode
      | ok summary => exact .checks mode held checked _

theorem performs_generation (world : World) {options : Options} (mode : options.checkOnly = false) :
    world.Performs options ((perform host options).run world).1
      ((perform host options).run world).2 := by
  unfold perform
  rw [if_neg (by simp [mode]), run_bind (run_generateFile world options)]
  cases held : world.source options.input with
  | error e => exact .fails e fun text grants => by simpa [held] using grants.held
  | ok text =>
      have unique : ∀ other, world.Grants options other → text = other := fun _ grants =>
        Except.ok.inj (held.symm.trans grants.held)
      dsimp only
      cases generated : generateSource text options.config with
      | error e =>
          refine .fails _ fun other grants => ?_
          obtain rfl := unique other grants
          simpa [generated] using grants.generated mode
      | ok code =>
          dsimp only [Except.mapError]
          cases named : options.output with
          | none => exact .prints mode held generated named
          | some path =>
              dsimp only
              rcases world.write_spec path code with ⟨reason, failed⟩ | ⟨after, written, received⟩
              · rw [run_bind (by rw [run_writeOutput, failed])]
                refine .fails _ fun other grants => ?_
                obtain rfl := unique other grants
                obtain ⟨_, same, granted⟩ := grants.generated mode
                cases generated.symm.trans same
                simpa [failed] using granted path named
              · rw [run_bind (by rw [run_writeOutput, written])]
                exact .delivers mode held generated named written received

theorem performs (world : World) (options : Options) :
    world.Performs options ((perform host options).run world).1
      ((perform host options).run world).2 := by
  cases mode : options.checkOnly with
  | true => exact performs_check world mode
  | false => exact performs_generation world mode

/-- A world in which nothing was written to the streams yet. -/
def started (world : World) : World := { world with stdout := "", stderr := "" }

/-- Code that went to the standard output, or to where the last `-o` says. A device takes the code,
and nothing stays of it in a file. -/
def Delivered (world : World) (path? : Option String) (code stdout : String) (after : World) :
    Prop :=
  match path? with
  | none => stdout = code ∧ after.entries = world.entries
  | some path =>
      match world.device? path with
      | some device =>
          stdout = (if device = .output then code else "") ∧ after.entries = world.entries
      | none =>
          stdout = "" ∧ after.read path = .ok code ∧
            ∃ target, world.place path = .ok target ∧
              ∀ other, other ≠ target → after.entry? other = world.entry? other

/-- A run of the command line leaves everything as it was, or delivers its code to one place. -/
structure Delivers (world : World) (arguments : List String) (exit : Exit) (after : World) :
    Prop where
  ends : exit.code = 0 ∨ exit.code = 1
  succeeds : exit.code = 0 ↔ ∃ options text, parse arguments = .ok options ∧
    world.started.Grants options text
  failure : exit.code = 1 → exit.stdout = "" ∧
    (∃ message, exit.stderr = "error: " ++ message) ∧ after.entries = world.entries
  check : exit.code = 0 → "--check" ∈ plainArguments arguments → after.entries = world.entries
  generation : exit.code = 0 → "--check" ∉ plainArguments arguments →
    ∃ options text code, parse arguments = .ok options ∧
      documentPaths arguments = [options.input] ∧ world.source options.input = .ok text ∧
      generateSource text options.config = .ok code ∧
      world.Delivered (outputPaths arguments).getLast? code exit.stdout after

variable {world : World} {arguments : List String}

theorem delivered_of_receives {path code : String} {after : World}
    (received : world.started.Receives path code after) :
    world.Delivered (some path) code (after.stdout ++ "") after := by
  unfold Delivered
  cases received with
  | @device device leads taken =>
      have same : world.device? path = some device := leads
      simp only [same]
      refine ⟨?_, entries_writeDevice world.started device code⟩
      cases device <;> simp [writeDevice, started]
  | @file target noDevice leads file =>
      have same : world.device? path = none := noDevice
      simp only [same]
      refine ⟨rfl, read_put leads file, target, leads, fun other apart => ?_⟩
      rw [get_put, if_neg apart]
      rfl

/-- How a run ends, after which what was written to the streams as files stands in front. -/
def exitAfter (exit : Exit) (after : World) : Exit :=
  ⟨exit.code, after.stdout ++ exit.stdout, after.stderr ++ exit.stderr⟩

theorem run_eq {exit : Exit} {after : World}
    (ran : (Command.run host arguments).run world.started = (exit, after)) :
    world.run arguments = (exitAfter exit after, after) := by
  unfold World.run
  rw [show ({ world with stdout := "", stderr := "" } : World) = world.started from rfl, ran]
  rfl

/-- How a run ends that has performed what its options ask for. -/
def exitOf : Except CommandError String → Exit
  | .error e => ⟨1, "", "error: " ++ e.message ++ "\n"⟩
  | .ok text => ⟨0, text, ""⟩

section

variable {first : String} {rest : List String} (noHelp : first ∉ helpWords)
  (noVersion : first ∉ versionWords)
include noHelp noVersion

theorem run_of_usage {e : UsageError} (refused : parse (first :: rest) = .error e) :
    world.run (first :: rest) =
      (exitAfter ⟨1, "", "error: " ++ e.message ++ "\n\nRun `vgen --help` for usage.\n"⟩
        world.started, world.started) := by
  apply run_eq
  simp only [Command.run, noHelp, noVersion, if_false, refused]
  rfl

theorem run_of_performed {options : Options} (parsed : parse (first :: rest) = .ok options)
    {result : Except CommandError String} {after : World}
    (performed : (perform host options).run world.started = (result, after)) :
    world.run (first :: rest) = (exitAfter (exitOf result) after, after) := by
  apply run_eq
  simp only [Command.run, noHelp, noVersion, if_false, parsed]
  rw [run_bind performed]
  cases result <;> rfl

end

theorem delivers_of_failure (message : String) (refused : ∀ options text,
    parse arguments = .ok options → ¬ world.started.Grants options text) :
    world.Delivers arguments (exitAfter ⟨1, "", "error: " ++ message⟩ world.started)
      world.started where
  ends := .inr rfl
  succeeds := ⟨nofun, fun ⟨options, text, parsed, grants⟩ =>
    absurd grants (refused options text parsed)⟩
  failure _ := ⟨rfl, ⟨message, String.empty_append⟩, rfl⟩
  check ok := nomatch ok
  generation ok := nomatch ok

theorem delivers_of_success {options : Options} (parsed : parse arguments = .ok options)
    {text stdout stderr : String} {after : World} (grants : world.started.Grants options text)
    (check : options.checkOnly = true → after.entries = world.entries)
    (generation : options.checkOnly = false → ∃ code,
      generateSource text options.config = .ok code ∧
        world.Delivered options.output code stdout after) :
    world.Delivers arguments ⟨0, stdout, stderr⟩ after := by
  obtain ⟨document, output, checkOnly⟩ := parse_spec parsed
  constructor
  case ends => exact .inl rfl
  case succeeds => exact ⟨fun _ => ⟨options, text, parsed, grants⟩, fun _ => rfl⟩
  case failure => exact nofun
  case check => exact fun _ asked => check (checkOnly.mpr asked)
  case generation =>
    intro _ plain
    have mode : options.checkOnly = false :=
      Bool.eq_false_iff.mpr fun asked => plain (checkOnly.mp asked)
    obtain ⟨code, generated, delivered⟩ := generation mode
    exact ⟨options, text, code, parsed, document, grants.held, generated, output ▸ delivered⟩

theorem delivers_of_performs {options : Options} (parsed : parse arguments = .ok options)
    {result : Except CommandError String} {after : World}
    (done : world.started.Performs options result after) :
    world.Delivers arguments (exitAfter (exitOf result) after) after := by
  cases done with
  | fails e refused =>
      rw [exitOf, String.append_assoc]
      refine delivers_of_failure _ fun other text same => ?_
      cases parsed.symm.trans same
      exact refused text
  | checks mode held checked shown =>
      have grants : world.started.Grants options _ :=
        ⟨held, fun _ => ⟨_, checked⟩, by simp [mode]⟩
      exact delivers_of_success parsed grants (fun _ => rfl) (by simp [mode])
  | @prints text code mode held generated unnamed =>
      have grants : world.started.Grants options text :=
        ⟨held, by simp [mode], fun _ => ⟨code, generated, by simp [unnamed]⟩⟩
      refine delivers_of_success parsed grants (fun _ => rfl) fun _ => ⟨code, generated, ?_⟩
      rw [unnamed]
      exact ⟨String.empty_append, rfl⟩
  | @delivers text code path _ mode held generated named written received =>
      have granted : ∀ other, options.output = some other →
          (world.started.write other code).1 = none := by
        intro other same
        obtain rfl := Option.some.inj (named.symm.trans same)
        rw [written]
      have grants : world.started.Grants options text :=
        ⟨held, by simp [mode], fun _ => ⟨code, generated, granted⟩⟩
      refine delivers_of_success parsed grants (by simp [mode]) fun _ => ⟨code, generated, ?_⟩
      rw [named]
      exact delivered_of_receives received

/-- A world with a document and the standard output in it. -/
def desk : World where
  entries := .ofList [([], .directory), (["dev"], .directory), (home, .directory),
    (["dev", "stdout"], .device .output), (home ++ ["g.json"], .file Document.endingText)]
  stdin := ""

theorem source_desk : desk.started.source "g.json" = .ok Document.endingText := by
  cbv

theorem place_desk : desk.started.place "g.json" = .ok (home ++ ["g.json"]) := by
  cbv

theorem isFileAt_desk : desk.started.isFileAt (home ++ ["g.json"]) = true := by
  cbv

theorem parse_desk (path : String) :
    parse ["g.json", "-o", path] = .ok ⟨"g.json", some path, .standard, false⟩ := by
  cbv

theorem generateSource_ending :
    generateSource Document.endingText .standard = .ok "endmodule\n" := by
  have read : Document.parse Document.endingText = .ok Document.ending :=
    Document.parse_of_isWrittenAs Document.ending_isWrittenAs
  rw [generateSource, load, Program.parse, read]
  cbv

theorem device_desk : desk.started.device? "/dev/stdout" = some .output := by
  cbv

/-- A path may lead to the standard output itself. -/
theorem run_desk_stdout :
    (desk.run ["g.json", "-o", "/dev/stdout"]).1 = ⟨0, "endmodule\n", ""⟩ := by
  have performed : (perform host ⟨"g.json", some "/dev/stdout", .standard, false⟩).run
      desk.started = (.ok "", (desk.started.writeDevice .output "endmodule\n").2) := by
    unfold perform
    rw [if_neg (by decide), run_bind (run_generateFile _ _), source_desk]
    dsimp only
    rw [generateSource_ending]
    dsimp only [Except.mapError]
    rw [run_bind (run_writeOutput _ _ _), write_of_device device_desk]
    rfl
  rw [run_of_performed (by decide) (by decide) (parse_desk _) performed]
  rfl

end World

end BlockVerilog.Command
