import BlockVerilog.Json.Record
import BlockVerilog.Proofs.Json.Written

/-!
What readers make of the tokens of arrays, objects and records.

`Reads` says that a reader takes exactly these tokens and what it gives for them, whatever follows.
It is put together along the written form of a value: an array from its items, an object from its
members in their order, and a record from its parts in any order.
-/

namespace BlockVerilog.Json

/-- A reader takes these tokens and no more, and gives a value for them. They do not look like the
end of an array. -/
structure Reader.Reads {α : Type} (reader : Reader α) (tokens : List Token) (value : α) : Prop where
  read : ∀ rest, reader.read (tokens ++ rest) = .ok (value, rest)
  begins : ∃ first more, tokens = first :: more ∧ first ≠ .closeBracket

variable {α β σ : Type}

/-- A reader gives a value back from each of its written forms. -/
def Reader.Undoes (reader : Reader α) (writes : Writing α) : Prop :=
  ∀ value tokens, writes value tokens → reader.Reads tokens value

theorem Reader.Reads.map {reader : Reader α} {tokens : List Token} {value : α}
    (reads : reader.Reads tokens value) (f : α → β) : (reader.map f).Reads tokens (f value) where
  read rest := by
    rw [Reader.map]
    dsimp only
    rw [reads.read rest]
    rfl
  begins := reads.begins

theorem string_undoes : string.Undoes WritesString := by
  rintro value _ ⟨⟩
  exact ⟨fun _ => rfl, _, _, rfl, nofun⟩

theorem bool_undoes : bool.Undoes WritesBool := by
  rintro value _ ⟨⟩
  exact ⟨fun _ => rfl, _, _, rfl, nofun⟩

theorem optional_undoes {inner : Reader α} {writes : Writing α} (undoes : inner.Undoes writes)
    (noNull : ∀ value tokens, writes value tokens → tokens.head? ≠ some .null) :
    (optional inner).Undoes (WritesOptional writes) := by
  rintro _ tokens (_ | @⟨value, _, written⟩)
  · exact ⟨fun _ => rfl, _, _, rfl, nofun⟩
  · have reads := undoes value tokens written
    obtain ⟨first, more, rfl, _⟩ := reads.begins
    -- The reader looks for null first, so no value may look like it.
    have other : first ≠ .null := fun same => noNull _ _ written (congrArg some same)
    refine ⟨fun rest => ?_, reads.begins⟩
    have mapped := (reads.map some).read rest
    unfold optional
    dsimp only
    split
    next found => exact absurd (List.cons.inj found).1 other
    next => exact mapped

theorem Reader.Reads.arrayStep {item : Reader α} {tokens : List Token} {value : α}
    (reads : item.Reads tokens value) (rest : List Token) :
    arrayStep true (tokens ++ rest) = .ok (.item (tokens ++ rest)) ∧
      arrayStep false (.comma :: (tokens ++ rest)) = .ok (.item (tokens ++ rest)) := by
  obtain ⟨first, more, rfl, noEnd⟩ := reads.begins
  cases first <;> first | exact ⟨rfl, rfl⟩ | exact absurd rfl noEnd

theorem items_of_ended {item : Reader α} {first : Bool} {tokens rest : List Token}
    (step : arrayStep first tokens = .ok (.ended rest)) :
    items item first tokens = .ok ([], rest) := by
  unfold items
  split <;> simp_all

theorem items_of_item {item : Reader α} {first : Bool} {tokens start rest : List Token} {value : α}
    (step : arrayStep first tokens = .ok (.item start))
    (read : item.read start = .ok (value, rest)) :
    items item first tokens =
      (items item false rest).map fun more => (value :: more.1, more.2) := by
  conv => lhs; unfold items
  split
  next found => simp [step] at found
  next found => simp [step] at found
  next start' found =>
    obtain rfl : start = start' := by simpa [step] using found
    split
    next failed => simp [read] at failed
    next value' rest' found =>
      obtain ⟨rfl, rfl⟩ : value = value' ∧ rest = rest' := by simpa [read] using found
      rfl

theorem items_of_reads {item : Reader α} {values : List α} {texts : List (List Token)}
    (reads : List.Forall₂ (fun value tokens => item.Reads tokens value) values texts)
    (rest : List Token) :
    items item false (texts.flatMap (.comma :: ·) ++ .closeBracket :: rest) =
      .ok (values, rest) := by
  induction reads with
  | nil => exact items_of_ended rfl
  | cons first _ inductionHypothesis =>
      simp only [List.flatMap_cons, List.cons_append, List.append_assoc]
      rw [items_of_item (first.arrayStep _).2 (first.read _), inductionHypothesis]
      rfl

theorem array_undoes {item : Reader α} {writes : Writing α} (undoes : item.Undoes writes) :
    (array item).Undoes (WritesArray writes) := by
  rintro values _ @⟨_, texts, each⟩
  have reads := each.imp undoes
  refine ⟨fun rest => ?_, _, _, rfl, nofun⟩
  simp only [arrayTokens, List.cons_append, List.append_assoc, List.nil_append, array]
  cases reads with
  | nil => exact items_of_ended rfl
  | cons first more =>
      rw [separated, List.append_assoc, items_of_item (first.arrayStep _).1 (first.read _),
        items_of_reads more]
      rfl

/-- What is known after some members, taken in one after the other. -/
inductive Takes (member : σ → String → Except Misfit (Reader σ)) : σ → List Member → σ → Prop
  | done {known : σ} : Takes member known [] known
  | next {known more last : σ} {name : String} {tokens : List Token} {reader : Reader σ}
      {rest : List Member} (accepted : member known name = .ok reader)
      (reads : reader.Reads tokens more) (later : Takes member more rest last) :
      Takes member known ((name, tokens) :: rest) last

section

variable {member : σ → String → Except Misfit (Reader σ)} {known more last : σ}

theorem members_of_ended {first : Bool} {tokens rest : List Token}
    (step : objectStep first tokens = .ok (.ended rest)) :
    members member first known tokens = .ok (known, rest) := by
  unfold members
  split <;> simp_all

theorem members_of_key {first : Bool} {name : String} {tokens value rest : List Token}
    {reader : Reader σ} (step : objectStep first tokens = .ok (.key name (.colon :: value)))
    (accepted : member known name = .ok reader) (read : reader.read value = .ok (more, rest)) :
    members member first known tokens = members member false more rest := by
  conv => lhs; unfold members
  split
  next found => simp [step] at found
  next found => simp [step] at found
  next name' behind found =>
    obtain ⟨rfl, rfl⟩ : name = name' ∧ .colon :: value = behind := by simpa [step] using found
    rw [accepted]
    dsimp only
    split
    next failed => simp [colon] at failed
    next start found =>
      obtain rfl : value = start := by simpa [colon] using found
      split
      next failed => simp [read] at failed
      next more' rest' found =>
        obtain ⟨rfl, rfl⟩ : more = more' ∧ rest = rest' := by simpa [read] using found
        rfl

theorem members_of_takes {taken : List Member} (takes : Takes member known taken last)
    (rest : List Token) :
    members member false known
        ((taken.map Member.tokens).flatMap (.comma :: ·) ++ .closeBrace :: rest) =
      .ok (last, rest) := by
  induction takes with
  | done => exact members_of_ended rfl
  | next accepted reads _ inductionHypothesis =>
      simp only [List.map_cons, List.flatMap_cons, Member.tokens, List.cons_append,
        List.append_assoc]
      rw [members_of_key rfl accepted (reads.read _), inductionHypothesis]

theorem members_of_object {taken : List Member} (takes : Takes member known taken last)
    (rest : List Token) :
    members member true known
        (separated (taken.map Member.tokens) ++ .closeBrace :: rest) = .ok (last, rest) := by
  cases takes with
  | done => exact members_of_ended rfl
  | next accepted reads later =>
      simp only [List.map_cons, separated, Member.tokens, List.cons_append, List.append_assoc]
      rw [members_of_key rfl accepted (reads.read _), members_of_takes later]

end

theorem objectTokens_append (taken : List Member) (rest : List Token) :
    objectTokens taken ++ rest =
      .openBrace :: (separated (taken.map Member.tokens) ++ .closeBrace :: rest) := by
  simp [objectTokens]

theorem takes_entries {value : Reader β} {writes : Writing β} (undoes : value.Undoes writes)
    (take : σ → String → β → σ) {entries : List (String × β)} {taken : List Member}
    (each : List.Forall₂ (WritesMember writes) entries taken) (known : σ) :
    Takes (fun known name => .ok (value.map (take known name))) known taken
      (entries.foldl (fun known entry => take known entry.1 entry.2) known) := by
  induction each generalizing known with
  | nil => exact .done
  | @cons entry member _ _ written _ inductionHypothesis =>
      obtain ⟨_, tokens⟩ := member
      obtain ⟨rfl, written⟩ := written
      exact .next rfl ((undoes _ _ written).map _) (inductionHypothesis _)

/-- An object of any names is read entry by entry. -/
theorem reads_object {expected : String} {start : σ} {value : Reader β} {writes : Writing β}
    (undoes : value.Undoes writes) (take : σ → String → β → σ) {entries : List (String × β)}
    {tokens : List Token} (written : WritesObject writes entries tokens) :
    (object expected start fun known name => value.map (take known name)).Reads tokens
      (entries.foldl (fun known entry => take known entry.1 entry.2) start) := by
  obtain ⟨each⟩ := written
  refine ⟨fun rest => ?_, _, _, rfl, nofun⟩
  rw [objectTokens_append]
  exact members_of_object (takes_entries undoes take each start) rest

/-- A field of a record reads a part of it. The records on the way are given by the names that are
known. -/
structure Part.Fits (known : List String → σ) (field : RecordField σ) (part : Part) : Prop where
  name : field.name = part.name
  needed : field.optional = false → ¬ part.omissible
  reads : ∀ names tokens, part.writes tokens →
    (field.value (known names)).Reads tokens (known (part.name :: names))

section

variable {known : List String → σ} {fields : List (RecordField σ)} {parts : List Part}

theorem find?_of_fits (fit : List.Forall₂ (Part.Fits known) fields parts)
    (distinct : (parts.map Part.name).Nodup) {part : Part} (listed : part ∈ parts) :
    ∃ field, fields.find? (·.name = part.name) = some field ∧ part.Fits known field := by
  induction fit with
  | nil => cases listed
  | @cons field head fields parts fits _ inductionHypothesis =>
      rw [List.map_cons, List.nodup_cons] at distinct
      rcases List.mem_cons.mp listed with rfl | later
      · exact ⟨field, List.find?_cons_of_pos (by simp [fits.name]), fits⟩
      · obtain ⟨found, isFound, fitsFound⟩ := inductionHypothesis distinct.2 later
        have apart : head.name ≠ part.name := fun same =>
          distinct.1 (same ▸ List.mem_map_of_mem later)
        refine ⟨found, ?_, fitsFound⟩
        rw [List.find?_cons_of_neg (by simpa [fits.name] using apart), isFound]

theorem takes_of_fits (fit : List.Forall₂ (Part.Fits known) fields parts)
    (distinct : (parts.map Part.name).Nodup) {taken : List Member} (names : List String)
    (fresh : (taken.map Prod.fst).Nodup) (apart : ∀ name ∈ taken.map Prod.fst, name ∉ names)
    (written : ∀ member ∈ taken, ∃ part ∈ parts, part.name = member.1 ∧ part.writes member.2) :
    Takes (Record.member fields) (names, known names) taken
      ((taken.map Prod.fst).reverse ++ names, known ((taken.map Prod.fst).reverse ++ names)) := by
  -- Whatever was read before, the record so far is given by the names alone.
  induction taken generalizing names with
  | nil => exact .done
  | cons member taken inductionHypothesis =>
      obtain ⟨name, tokens⟩ := member
      rw [List.map_cons, List.nodup_cons] at fresh
      rw [List.map_cons, List.forall_mem_cons] at apart
      rw [List.forall_mem_cons] at written
      obtain ⟨⟨part, listed, rfl, writes⟩, writtenLater⟩ := written
      obtain ⟨field, isFound, fits⟩ := find?_of_fits fit distinct listed
      have accepted : Record.member fields (names, known names) part.name =
          .ok (Record.named names field (known names)) := by
        simp [Record.member, isFound, apart.1]
      have reads : (Record.named names field (known names)).Reads tokens
          (field.name :: names, known (part.name :: names)) := (fits.reads _ _ writes).map _
      rw [fits.name] at reads
      have apartLater : ∀ name ∈ taken.map Prod.fst, name ∉ part.name :: names := by
        intro name later
        rw [List.mem_cons, not_or]
        exact ⟨fun same => fresh.1 (same ▸ later), apart.2 name later⟩
      rw [List.map_cons, List.reverse_cons, List.append_assoc, List.singleton_append]
      exact .next accepted reads (inductionHypothesis _ fresh.2 apartLater writtenLater)

theorem close_of_fits (fit : List.Forall₂ (Part.Fits known) fields parts) {names : List String}
    (present : ∀ part ∈ parts, part.name ∈ names ∨ part.omissible) (record : σ)
    (rest : List Token) : Record.close fields (names, record) rest = .ok (record, rest) := by
  have none : fields.find? (fun field => !field.optional && field.name ∉ names) = none := by
    refine List.find?_eq_none.mpr fun field listed missing => ?_
    obtain ⟨part, among, fits⟩ := exists_related_of_mem fit listed
    simp only [Bool.and_eq_true, Bool.not_eq_true', decide_eq_true_eq] at missing
    rcases present part among with known | omissible
    · exact missing.2 (fits.name ▸ known)
    · exact fits.needed missing.1 omissible
  simp only [Record.close, none]

/-- A record is read whatever the order of its parts. -/
theorem reads_record {title : String} {blank target : σ}
    (fit : List.Forall₂ (Part.Fits known) fields parts)
    (distinct : (parts.map Part.name).Nodup) (starts : known [] = blank)
    (complete : ∀ names, (∀ part ∈ parts, part.name ∈ names ∨ part.omissible) →
      known names = target)
    {tokens : List Token} (written : WritesRecord parts tokens) :
    (record title fields blank).Reads tokens target := by
  obtain @⟨taken, fresh, each, present⟩ := written
  have takes := takes_of_fits fit distinct [] fresh (fun _ _ => List.not_mem_nil) each
  rw [List.append_nil] at takes
  have all : ∀ part ∈ parts, part.name ∈ (taken.map Prod.fst).reverse ∨ part.omissible :=
    fun part listed => (present part listed).imp_left List.mem_reverse.mpr
  refine ⟨fun rest => ?_, _, _, rfl, nofun⟩
  rw [objectTokens_append]
  change Record.ofObject fields blank _ = _
  rw [Record.ofObject, ← starts, members_of_object takes]
  dsimp only
  rw [close_of_fits fit all, complete _ all]

end

end BlockVerilog.Json
