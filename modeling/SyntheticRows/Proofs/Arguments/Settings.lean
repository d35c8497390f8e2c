import SyntheticRows.Proofs.Arguments

/-!
Command lines as lists of settings. A setting is spelled by one argument or by two (`Spelling`), and a command line
that is accepted spells some settings (`exists_spells_of_parse`). It asks for what they ask for when they are applied
one after the other (`parse_iff_of_spells`).
-/

namespace SyntheticRows

/-! ### Names -/

namespace ValueOption

def name : ValueOption → String
  | seed => "seed"
  | upperBound => "upper-bound"
  | step => "step"
  | pass => "pass"
  | readingTable => "reading-table"
  | positionTable => "position-table"
  | config => "config"
  | report => "report"
  | logFile => "log-file"

theorem equals_not_mem_name (option : ValueOption) : '=' ∉ option.name.toList := by
  cases option <;> decide

end ValueOption

namespace Switch

def name : Switch → String
  | insertStatement => "insert-statement"
  | verbose => "verbose"
  | help => "help"
  | version => "version"

theorem equals_not_mem_name (switch : Switch) : '=' ∉ switch.name.toList := by
  cases switch <;> decide

end Switch

namespace Arguments

theorem valueOption?_iff {name : String} {option : ValueOption} :
    valueOption? name = some option ↔ name = option.name := by
  constructor
  · intro h
    unfold valueOption? at h
    split at h <;> cases h <;> rfl
  · rintro rfl
    cases option <;> rfl

theorem switch?_iff {name : String} {switch : Switch} : switch? name = some switch ↔ name = switch.name := by
  constructor
  · intro h
    unfold switch? at h
    split at h <;> cases h <;> rfl
  · rintro rfl
    cases switch <;> rfl

theorem valueOption?_name_switch (switch : Switch) : valueOption? switch.name = none := by
  cases switch <;> decide

/-! ### Settings -/

/-- What an option of a command line asks for. -/
inductive Setting
  | value (option : ValueOption) (given : String)
  | switch (switch : Switch)
deriving DecidableEq, Repr

def Setting.apply (a : Arguments) : Setting → Except UsageFault Arguments
  | .value option given => a.put given option
  | .switch turned => a.turnOn turned

/-- A value that an option can have behind it as an argument of its own. -/
def StandsAlone (value : String) : Prop :=
  value.toList = ['-'] ∨ '-' ∉ value.toList.head?

instance (value : String) : Decidable (StandsAlone value) :=
  inferInstanceAs (Decidable (_ ∨ _))

/-- The arguments that spell an option, and the settings for which they stand. Switches of one letter can share an
    argument. -/
inductive Spelling : List Setting → List String → Prop
  | separate (option : ValueOption) (value : String) (alone : StandsAlone value) :
    Spelling [.value option value] ["--" ++ option.name, value]
  | attached (option : ValueOption) (value : String) :
    Spelling [.value option value] ["--" ++ option.name ++ "=" ++ value]
  | long (switch : Switch) : Spelling [.switch switch] ["--" ++ switch.name]
  | letters (group : List Char) (switches : List Switch) (known : group.map letter? = switches.map some)
    (nonempty : group ≠ []) : Spelling (switches.map .switch) [String.ofList ('-' :: group)]

/-- The command lines that spell settings. Two dashes may end them. -/
inductive Spells : List Setting → List String → Prop
  | nil : Spells [] []
  | stop : Spells [] ["--"]
  | cons {settings rest : List Setting} {words args : List String} (first : Spelling settings words)
    (later : Spells rest args) : Spells (settings ++ rest) (words ++ args)

/-! ### Reading an option -/

section
variable {a b c : Arguments} {pending later : Pending} {s value : String} {option : ValueOption}

theorem splitName_name {name : List Char} (h : '=' ∉ name) : splitName name = (String.ofList name, none) := by
  have hall : ∀ c ∈ name, (c != '=') = true := fun c hc => bne_iff_ne.mpr fun heq => h (heq ▸ hc)
  simp only [splitName, List.takeWhile_eq_self_iff.mpr hall, List.dropWhile_eq_nil_iff.mpr hall]

theorem splitName_attached {name : List Char} (h : '=' ∉ name) (value : List Char) :
    splitName (name ++ '=' :: value) = (String.ofList name, some (String.ofList value)) := by
  have hall : ∀ c ∈ name, (c != '=') = true := fun c hc => bne_iff_ne.mpr fun heq => h (heq ▸ hc)
  simp [splitName, List.takeWhile_append_of_pos hall, List.dropWhile_append_of_pos hall]

theorem argument_separate (a : Arguments) (pending : Pending) (option : ValueOption) :
    a.argument pending ("--" ++ option.name) = (a.settle pending).map (·, some (option, none)) := by
  have hchars : ("--" ++ option.name).toList = '-' :: '-' :: option.name.toList := by
    rw [String.toList_append]
    rfl
  have hname : valueOption? option.name = some option := valueOption?_iff.mpr rfl
  simp only [argument, hchars, splitName_name option.equals_not_mem_name, String.ofList_toList, named, hname]
  cases a.settle pending <;> rfl

theorem argument_attached (a : Arguments) (pending : Pending) (option : ValueOption) (value : String) :
    a.argument pending ("--" ++ option.name ++ "=" ++ value) =
      ((a.settle pending) >>= (·.put value option)).map (·, none) := by
  have hchars : ("--" ++ option.name ++ "=" ++ value).toList =
      '-' :: '-' :: (option.name.toList ++ '=' :: value.toList) := by
    simp [String.toList_append]
  have hname : valueOption? option.name = some option := valueOption?_iff.mpr rfl
  simp only [argument, hchars, splitName_attached option.equals_not_mem_name, String.ofList_toList, named, hname]
  cases a.settle pending with
  | error fault => rfl
  | ok b =>
    simp only [bind, Except.bind]
    cases b.put value option <;> rfl

theorem argument_long (a : Arguments) (pending : Pending) (switch : Switch) :
    a.argument pending ("--" ++ switch.name) = ((a.settle pending) >>= (·.turnOn switch)).map (·, none) := by
  have hchars : ("--" ++ switch.name).toList = '-' :: '-' :: switch.name.toList := by
    rw [String.toList_append]
    rfl
  have hname : switch? switch.name = some switch := switch?_iff.mpr rfl
  simp only [argument, hchars, splitName_name switch.equals_not_mem_name, String.ofList_toList, named, hname,
    valueOption?_name_switch]
  cases a.settle pending with
  | error fault => rfl
  | ok b =>
    simp only [bind, Except.bind]
    cases b.turnOn switch <;> rfl

theorem letters_eq {group : List Char} {switches : List Switch} (known : group.map letter? = switches.map some) :
    a.letters pending group = (a.settle pending) >>= fun b => switches.foldlM turnOn b := by
  induction group generalizing a pending switches with
  | nil =>
    obtain rfl := List.map_eq_nil_iff.mp known.symm
    exact (bind_pure (m := Except UsageFault) _).symm
  | cons c rest ih =>
    obtain ⟨switch, others, rfl, hc, hrest⟩ := List.map_eq_cons_iff.mp known.symm
    simp only [letters, ← hc, List.foldlM_cons, ih hrest.symm]
    cases a.settle pending <;> rfl

theorem argument_letters {group : List Char} {switches : List Switch} (known : group.map letter? = switches.map some)
    (nonempty : group ≠ []) : a.argument pending (String.ofList ('-' :: group)) =
      ((a.settle pending) >>= fun b => switches.foldlM turnOn b).map (·, none) := by
  obtain ⟨c, rest, rfl⟩ := List.exists_cons_of_ne_nil nonempty
  have hdash : c ≠ '-' := by
    rintro rfl
    obtain ⟨switch, others, -, hc, -⟩ := List.map_eq_cons_iff.mp known.symm
    cases hc
  rw [← letters_eq known]
  unfold argument
  rw [String.toList_ofList]
  split
  · rename_i hchars
    exact absurd (List.cons.inj (List.cons.inj hchars).2).1 hdash
  · rename_i hchars
    cases hchars
    cases a.letters pending (c :: rest) <;> rfl
  · rename_i hchars
    exact absurd rfl (hchars _ _)

/-- An argument that can stand alone is the value of an option that waits for one, and nothing else. -/
theorem argument_alone (h : StandsAlone s) : a.argument pending s =
    match pending with
    | some (option, none) => .ok (a, some (option, some s))
    | _ => .error .unknownArgument := by
  unfold argument
  split
  · rename_i hchars
    rw [StandsAlone, hchars] at h
    simp at h
  · rename_i hchars
    rw [StandsAlone, hchars] at h
    simp at h
  · rfl

end

/-! ### Completing an option -/

/-- An option that does not wait for its value. -/
def Ready (pending : Pending) : Prop :=
  ∀ option, pending ≠ some (option, none)

section
variable {a b c : Arguments} {pending : Pending}

theorem ready_of_settle (h : a.settle pending = .ok b) : Ready pending := by
  rintro option rfl
  cases h

theorem letters_of_settle (h : a.settle pending = .ok b) (group : List Char) :
    a.letters pending group = b.letters none group := by
  cases group with
  | nil => exact h
  | cons c rest =>
    simp only [letters, h]
    cases letter? c <;> rfl

/-- An option that can be completed is completed before the next argument is read. -/
theorem argument_of_settle (h : a.settle pending = .ok b) (s : String) : a.argument pending s = b.argument none s := by
  unfold argument
  split
  · simp only [named, h]
    rfl
  · rw [letters_of_settle h]
  · split
    · rename_i hpending
      exact absurd rfl (ready_of_settle h _)
    · rfl

theorem argument_of_settle_error {fault : UsageFault} (h : a.settle pending = .error fault) (hready : Ready pending)
    (s : String) : ∃ fault, a.argument pending s = .error fault := by
  unfold argument
  split
  · rename_i rest _
    simp only [named, h]
    cases valueOption? (splitName rest).1 with
    | some option => exact ⟨fault, rfl⟩
    | none =>
      cases switch? (splitName rest).1 with
      | none => exact ⟨_, rfl⟩
      | some switch => cases (splitName rest).2 <;> exact ⟨_, rfl⟩
  · simp only [letters, h]
    split <;> exact ⟨_, rfl⟩
  · split
    · exact absurd rfl (hready _)
    · exact ⟨_, rfl⟩

theorem read_of_settle (h : a.settle pending = .ok b) (args : List String) :
    a.read pending args = b.read none args := by
  cases args with
  | nil => exact h
  | cons s rest =>
    simp only [read, h, argument_of_settle h]
    rfl

theorem read_of_settle_error {fault : UsageFault} (h : a.settle pending = .error fault) (hready : Ready pending)
    (args : List String) : ∃ fault, a.read pending args = .error fault := by
  cases args with
  | nil => exact ⟨fault, h⟩
  | cons s rest =>
    obtain ⟨other, hargument⟩ := argument_of_settle_error h hready s
    simp only [read, h, hargument]
    split
    · split <;> exact ⟨_, rfl⟩
    · exact ⟨_, rfl⟩

/-- An option that does not wait for its value is completed first, whatever comes after it. -/
theorem read_iff_of_ready (hready : Ready pending) {args : List String} :
    a.read pending args = .ok c ↔ ∃ b, a.settle pending = .ok b ∧ b.read none args = .ok c := by
  cases hsettle : a.settle pending with
  | error fault =>
    obtain ⟨other, hread⟩ := read_of_settle_error hsettle hready args
    simp [hread]
  | ok b =>
    rw [read_of_settle hsettle]
    simp

end

/-! ### Reading settings -/

section
variable {a b : Arguments} {settings : List Setting} {words args : List String}

theorem StandsAlone.ne_stop {value : String} (h : StandsAlone value) : value ≠ "--" := by
  rintro rfl
  exact absurd h (by decide)

theorem foldlM_setting (setting : Setting) (a : Arguments) : [setting].foldlM Setting.apply a = setting.apply a :=
  bind_pure (m := Except UsageFault) _

theorem foldlM_switches (switches : List Switch) (a : Arguments) :
    (switches.map Setting.switch).foldlM Setting.apply a = switches.foldlM turnOn a := by
  rw [List.foldlM_map]
  rfl

/-- A single argument is read as the settings for which it stands. -/
theorem read_word {word : String} (hne : word ≠ "--")
    (hword : a.argument none word = (settings.foldlM Setting.apply a).map (·, none)) :
    a.read none ([word] ++ args) = .ok b ↔
      ∃ c, settings.foldlM Setting.apply a = .ok c ∧ c.read none args = .ok b := by
  rw [List.singleton_append, read, if_neg hne, hword]
  cases settings.foldlM Setting.apply a with
  | error fault => simp [Except.map, bind, Except.bind]
  | ok c => simp [Except.map, bind, Except.bind]

/-- An option waits for its value, and the value for the next argument. -/
theorem read_separate {option : ValueOption} {value : String} (alone : StandsAlone value) :
    a.read none (["--" ++ option.name, value] ++ args) = a.read (some (option, some value)) args := by
  have hne : "--" ++ option.name ≠ "--" := by cases option <;> decide
  rw [List.cons_append, List.singleton_append, read, if_neg hne, argument_separate]
  simp only [settle, Except.map, bind, Except.bind]
  rw [read, if_neg alone.ne_stop, argument_alone alone]
  rfl

theorem attached_ne_stop (option : ValueOption) (value : String) : "--" ++ option.name ++ "=" ++ value ≠ "--" := by
  intro heq
  have hlength := congrArg (·.toList.length) heq
  simp [String.toList_append] at hlength

theorem letters_ne_stop {group : List Char} {switches : List Switch} (known : group.map letter? = switches.map some) :
    String.ofList ('-' :: group) ≠ "--" := by
  intro heq
  have hchars := congrArg String.toList heq
  rw [String.toList_ofList] at hchars
  obtain rfl : group = ['-'] := (List.cons.inj hchars).2
  obtain ⟨switch, others, -, hdash, -⟩ := List.map_eq_cons_iff.mp known.symm
  cases hdash

/-- An option and its value are read as one setting or several. -/
theorem read_spelling (h : Spelling settings words) (a : Arguments) (args : List String) :
    a.read none (words ++ args) = .ok b ↔
      ∃ c, settings.foldlM Setting.apply a = .ok c ∧ c.read none args = .ok b := by
  cases h with
  | separate option value alone =>
    rw [read_separate alone, foldlM_setting]
    exact read_iff_of_ready (by simp [Ready])
  | attached option value =>
    refine read_word (attached_ne_stop option value) ?_
    rw [argument_attached, foldlM_setting]
    rfl
  | long switch =>
    refine read_word (by cases switch <;> decide) ?_
    rw [argument_long, foldlM_setting]
    rfl
  | letters group switches known nonempty =>
    refine read_word (letters_ne_stop known) ?_
    rw [argument_letters known nonempty, foldlM_switches]
    rfl

/-- A command line asks for what its settings ask for, one after the other. -/
theorem parse_iff_of_spells (h : Spells settings args) :
    parse args = .ok b ↔ settings.foldlM Setting.apply {} = .ok b := by
  rw [parse]
  generalize ({} : Arguments) = a
  induction h generalizing a with
  | nil => rfl
  | stop => rfl
  | @cons settings rest words args first _ ih =>
    rw [read_spelling first, List.foldlM_append]
    constructor
    · rintro ⟨c, hc, hread⟩
      simp only [hc]
      exact (ih c).mp hread
    · intro hfold
      obtain ⟨c, hc, hrest⟩ := exists_of_bind_eq_ok hfold
      exact ⟨c, hc, (ih c).mpr hrest⟩

end

/-! ### Settings of a command line -/

theorem splitName_eq {s : List Char} {name : String} {attached : Option String} (h : splitName s = (name, attached)) :
    s = name.toList ++ attached.elim [] fun value => '=' :: value.toList := by
  have hsplit := List.takeWhile_append_dropWhile (p := (· != '=')) (l := s)
  unfold splitName at h
  split at h
  · rename_i c value hrest
    cases h
    have hc : c = '=' := by
      have hhead := List.head_dropWhile_not (· != '=') (l := s) (by rw [hrest]; exact List.cons_ne_nil _ _)
      simpa [hrest] using hhead
    simpa [hrest, hc] using hsplit.symm
  · rename_i hrest
    cases h
    simpa [hrest] using hsplit.symm

theorem exists_switches_of_letters {a b : Arguments} {pending : Pending} {group : List Char}
    (h : a.letters pending group = .ok b) : ∃ switches : List Switch, group.map letter? = switches.map some := by
  induction group generalizing a pending with
  | nil => exact ⟨[], rfl⟩
  | cons c rest ih =>
    rw [letters] at h
    cases hc : letter? c with
    | none => rw [hc] at h; cases h
    | some switch =>
      rw [hc] at h
      obtain ⟨settled, -, h⟩ := exists_of_bind_eq_ok h
      obtain ⟨turned, -, h⟩ := exists_of_bind_eq_ok h
      obtain ⟨switches, hrest⟩ := ih h
      exact ⟨switch :: switches, by rw [List.map_cons, List.map_cons, hc, hrest]⟩

/-- The rest of a command line: a value first if an option waits for one, and then settings. -/
def Continues (pending : Pending) (args : List String) : Prop :=
  match pending with
  | some (_, none) => ∃ value rest settings, args = value :: rest ∧ StandsAlone value ∧ Spells settings rest
  | _ => ∃ settings, Spells settings args

section
variable {a b : Arguments} {pending later : Pending}

theorem Continues.of_ready (hready : Ready pending) {settings : List Setting} {args : List String}
    (h : Spells settings args) : Continues pending args := by
  unfold Continues
  split
  · exact absurd rfl (hready _)
  · exact ⟨settings, h⟩

/-- A name is read as an option with its value, as an option that waits for one, or as a switch. -/
theorem named_cases {name : String} {attached : Option String} (h : a.named pending name attached = .ok (b, later)) :
    Ready pending ∧
      ((∃ option value, name = ValueOption.name option ∧ attached = some value ∧ later = none) ∨
        (∃ option, name = ValueOption.name option ∧ attached = none ∧ later = some (option, none)) ∨
        ∃ switch, name = Switch.name switch ∧ attached = none ∧ later = none) := by
  unfold named at h
  split at h
  · rename_i option hoption
    have hname := valueOption?_iff.mp hoption
    obtain ⟨settled, hsettled, h⟩ := exists_of_bind_eq_ok h
    refine ⟨ready_of_settle hsettled, ?_⟩
    cases attached with
    | some value =>
      obtain ⟨put, -, ⟨⟩⟩ := exists_of_bind_eq_ok h
      exact .inl ⟨option, value, hname, rfl, rfl⟩
    | none =>
      cases h
      exact .inr (.inl ⟨option, hname, rfl, rfl⟩)
  · split at h
    · cases h
    · cases h
    · rename_i switch hswitch
      obtain ⟨settled, hsettled, h⟩ := exists_of_bind_eq_ok h
      obtain ⟨turned, -, ⟨⟩⟩ := exists_of_bind_eq_ok h
      exact ⟨ready_of_settle hsettled, .inr (.inr ⟨switch, switch?_iff.mp hswitch, rfl, rfl⟩)⟩

theorem dashes_of_splitName {rest : List Char} {name : String} {attached : Option String}
    (h : splitName rest = (name, attached)) :
    String.ofList ('-' :: '-' :: rest) = "--" ++ name ++ attached.elim "" fun value => "=" ++ value := by
  rw [splitName_eq h, ← String.toList_inj, String.toList_ofList]
  cases attached <;> simp [String.toList_append]

theorem continues_of_named {rest : List Char} {args : List String}
    (h : a.named pending (splitName rest).1 (splitName rest).2 = .ok (b, later)) (hlater : Continues later args) :
    Continues pending (String.ofList ('-' :: '-' :: rest) :: args) := by
  rw [dashes_of_splitName (Prod.mk.eta (p := splitName rest)).symm]
  obtain ⟨hready, ⟨option, value, hname, hattached, rfl⟩ | ⟨option, hname, hattached, rfl⟩ |
    ⟨switch, hname, hattached, rfl⟩⟩ := named_cases h
  · obtain ⟨settings, hspells⟩ := hlater
    have hwords := Spells.cons (.attached option value) hspells
    rw [String.append_assoc] at hwords
    rw [hname, hattached]
    exact .of_ready hready hwords
  · obtain ⟨value, rest, settings, rfl, halone, hspells⟩ := hlater
    rw [hname, hattached, Option.elim_none, String.append_empty]
    exact .of_ready hready (.cons (.separate option value halone) hspells)
  · obtain ⟨settings, hspells⟩ := hlater
    rw [hname, hattached, Option.elim_none, String.append_empty]
    exact .of_ready hready (.cons (.long switch) hspells)

theorem standsAlone_of_ne {s : String} (h : ∀ c rest, s.toList = '-' :: c :: rest → False) : StandsAlone s := by
  rw [StandsAlone]
  cases hchars : s.toList with
  | nil => exact .inr nofun
  | cons c rest =>
    by_cases hc : c = '-'
    · subst hc
      cases rest with
      | nil => exact .inl rfl
      | cons d rest => exact absurd hchars (h d rest)
    · exact .inr fun hhead => hc (Option.some.inj hhead)

theorem continues_of_argument {s : String} {args : List String} (h : a.argument pending s = .ok (b, later))
    (hlater : Continues later args) : Continues pending (s :: args) := by
  unfold argument at h
  split at h
  · rename_i rest hchars
    have := continues_of_named h hlater
    rwa [← hchars, String.ofList_toList] at this
  · rename_i c rest hdash hchars
    obtain ⟨read, hread, ⟨⟩⟩ := exists_of_bind_eq_ok h
    obtain ⟨switches, hknown⟩ := exists_switches_of_letters hread
    obtain ⟨settings, hspells⟩ := hlater
    have hwords := Spells.cons (.letters (c :: rest) switches hknown (List.cons_ne_nil c rest)) hspells
    rw [← hchars, String.ofList_toList] at hwords
    obtain ⟨settled, hsettled⟩ : ∃ settled, a.settle pending = .ok settled := by
      rw [letters_eq hknown] at hread
      obtain ⟨settled, hsettled, -⟩ := exists_of_bind_eq_ok hread
      exact ⟨settled, hsettled⟩
    exact .of_ready (ready_of_settle hsettled) hwords
  · rename_i hdash
    split at h
    · cases h
      obtain ⟨settings, hspells⟩ := hlater
      exact ⟨s, args, settings, rfl, standsAlone_of_ne hdash, hspells⟩
    · cases h

theorem continues_of_read {args : List String} (h : a.read pending args = .ok b) : Continues pending args := by
  induction args generalizing a pending with
  | nil => exact .of_ready (ready_of_settle h) .nil
  | cons s rest ih =>
    rw [read] at h
    split at h
    · rename_i hs
      split at h
      · rename_i hrest
        rw [hs, hrest]
        exact .of_ready (ready_of_settle h) .stop
      · cases h
    · obtain ⟨⟨c, later⟩, hargument, h⟩ := exists_of_bind_eq_ok h
      exact continues_of_argument hargument (ih h)

/-- A command line that is accepted spells settings. -/
theorem exists_spells_of_parse {args : List String} (h : parse args = .ok b) : ∃ settings, Spells settings args :=
  continues_of_read h

end

end Arguments

end SyntheticRows
