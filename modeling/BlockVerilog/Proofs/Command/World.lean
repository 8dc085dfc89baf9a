import BlockVerilog.Command.World

/-!
Files that were written are read back.

The way that a path takes goes through directories only. A file is put where no directory stands, so
that the way to it stays as it was.
-/

namespace BlockVerilog.Command.World

variable {world : World} {start target other : Place} {path text : String} {entry : Entry}

@[simp] theorem get_put (world : World) (target : Place) (entry : Entry) (other : Place) :
    World.entry? (world.put target entry) other =
      if other = target then some entry else world.entry? other :=
  OrderedMap.get?_insert world.entries target other entry

/-- The entry at a place is one that a text can be given to, or none is there yet. -/
def isFileAt (world : World) (target : Place) : Bool :=
  match world.entry? target with
  | some .directory => false
  | some (.device _) => false
  | _ => true

/-- A step from a place does not see what is put where no directory is. -/
theorem step_put (file : world.isFileAt target = true) {part : String}
    (stepped : world.step start part = .ok other) :
    (world.put target entry).step start part = .ok other := by
  -- A step starts from a directory, and the target is none.
  have apart : start ≠ target := by
    rintro rfl
    unfold step at stepped
    unfold isFileAt at file
    split at stepped
    next => cases stepped
    next isDirectory => simp [isDirectory] at file
    next => cases stepped
  unfold step at stepped ⊢
  rwa [get_put, if_neg apart]

theorem walk_cons (world : World) (start : Place) (part : String) (parts : List String) :
    world.walk start (part :: parts) =
      world.step start part >>= fun next => world.walk next parts := rfl

theorem walk_put (file : world.isFileAt target = true) {parts : List String}
    (walked : world.walk start parts = .ok other) :
    (world.put target entry).walk start parts = .ok other := by
  induction parts generalizing start with
  | nil => exact walked
  | cons part parts inductionHypothesis =>
      rw [walk_cons] at walked ⊢
      cases stepped : world.step start part with
      | error fault =>
          rw [stepped] at walked
          cases walked
      | ok next =>
          rw [stepped] at walked
          rw [step_put file stepped]
          exact inductionHypothesis walked

theorem place_put (file : world.isFileAt target = true) (leads : world.place path = .ok other) :
    (world.put target entry).place path = .ok other := by
  unfold place at leads ⊢
  split at leads
  next => cases leads
  next => exact walk_put file leads

/-- A text that was put where a path leads to is read there. -/
theorem read_put (leads : world.place path = .ok target) (file : world.isFileAt target = true) :
    (world.put target (.file text)).read path = .ok text := by
  unfold read
  rw [place_put file leads]
  simp

theorem write_of_file (leads : world.place path = .ok target)
    (file : world.isFileAt target = true) :
    world.write path text = (none, world.put target (.file text)) := by
  unfold isFileAt at file
  cases held : World.entry? world target with
  | none => simp only [write, leads, held]
  | some entry =>
      cases entry with
      | directory | device => simp [held] at file
      | file | binary => simp only [write, leads, held]

/-- The device that a path leads to, if it leads to one. -/
def device? (world : World) (path : String) : Option Device :=
  match world.place path with
  | .error _ => none
  | .ok target =>
      match world.entry? target with
      | some (.device device) => some device
      | _ => none

theorem write_of_device {device : Device} (leads : world.device? path = some device) :
    world.write path text = world.writeDevice device text := by
  unfold device? at leads
  split at leads
  next => cases leads
  next target placed =>
    split at leads
    next held =>
      cases leads
      simp only [write, placed, held]
    next => cases leads

theorem entries_writeDevice (world : World) (device : Device) (text : String) :
    (world.writeDevice device text).2.entries = world.entries := by
  cases device <;> rfl

theorem writeDevice_of_failed {device : Device} {reason : String}
    (failed : (world.writeDevice device text).1 = some reason) :
    world.writeDevice device text = (some reason, world) := by
  cases device with
  | full => exact Prod.ext failed rfl
  | null | input | output | errors => cases failed

/-- A text is received behind a path: by a device, or by the file that is there from then on. -/
inductive Receives (world : World) (path text : String) : World → Prop
  | device {device : Device} (leads : world.device? path = some device)
      (taken : (world.writeDevice device text).1 = none) :
      Receives world path text (world.writeDevice device text).2
  | file {target : Place} (noDevice : world.device? path = none)
      (leads : world.place path = .ok target) (file : world.isFileAt target = true) :
      Receives world path text (world.put target (.file text))

theorem device?_of_isFileAt (leads : world.place path = .ok target)
    (file : world.isFileAt target = true) : world.device? path = none := by
  unfold isFileAt at file
  cases held : World.entry? world target with
  | none => simp only [device?, leads, held]
  | some entry =>
      cases entry with
      | directory | device => simp [held] at file
      | file | binary => simp only [device?, leads, held]

theorem write_of_directory (leads : world.place path = .ok target)
    (directory : World.entry? world target = some .directory) :
    world.write path text = (some directoryReason, world) := by
  simp only [write, leads, directory]

/-- A write that fails changes nothing, and one that does not gets the text through. -/
theorem write_spec (world : World) (path text : String) :
    (∃ reason, world.write path text = (some reason, world)) ∨
      ∃ after, world.write path text = (none, after) ∧ world.Receives path text after := by
  cases leads : world.place path with
  | error fault =>
      left
      rw [write, leads]
      exact ⟨_, rfl⟩
  | ok target =>
      by_cases file : world.isFileAt target = true
      · exact .inr ⟨_, write_of_file leads file,
          .file (device?_of_isFileAt leads file) leads file⟩
      · cases held : World.entry? world target with
        | none => simp [isFileAt, held] at file
        | some entry =>
            cases entry with
            | directory => exact .inl ⟨_, write_of_directory leads held⟩
            | device device =>
                have reached : world.device? path = some device := by
                  simp only [device?, leads, held]
                rw [write_of_device reached]
                cases taken : (world.writeDevice device text).1 with
                | some reason => exact .inl ⟨reason, writeDevice_of_failed taken⟩
                | none => exact .inr ⟨_, by rw [← taken], .device reached taken⟩
            | file | binary => simp [isFileAt, held] at file

end BlockVerilog.Command.World
