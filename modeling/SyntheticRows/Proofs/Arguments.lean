import SyntheticRows.Arguments
import SyntheticRows.Proofs.Numeral

/-!
Command lines with a seed. Reading arguments that leave the seed open gives the same with a seed in front of
them, only that the seed is set (`parse_seed_cons`).
-/

namespace SyntheticRows

theorem exists_of_bind_eq_ok {ε α β : Type} {x : Except ε α} {f : α → Except ε β} {b : β} (h : x >>= f = .ok b) :
    ∃ a, x = .ok a ∧ f a = .ok b := by
  cases x with
  | error e => cases h
  | ok a => exact ⟨a, rfl, h⟩

namespace Arguments

/-! ### Steps that leave the seed open -/

def withSeed (a : Arguments) (seed : Seed) : Arguments :=
  { a with seed := some seed }

/-- A step that leaves the seed open only where it was open, and then does the same where a seed is given. -/
def LeavesOpen (step : Arguments → Except UsageFault Arguments) : Prop :=
  ∀ a b, step a = .ok b → b.seed = none →
    a.seed = none ∧ ∀ seed, step (a.withSeed seed) = .ok (b.withSeed seed)

namespace LeavesOpen

theorem pure : LeavesOpen .ok := by
  rintro a _ ⟨⟩ hopen
  exact ⟨hopen, fun _ => rfl⟩

theorem refused (fault : UsageFault) : LeavesOpen fun _ => .error fault := by
  rintro a b ⟨⟩

theorem bind {first second : Arguments → Except UsageFault Arguments} (hfirst : LeavesOpen first)
    (hsecond : LeavesOpen second) : LeavesOpen fun a => first a >>= second := by
  intro a c h hopen
  obtain ⟨b, hb, hc⟩ := exists_of_bind_eq_ok h
  obtain ⟨hopen, hsecond⟩ := hsecond b c hc hopen
  obtain ⟨hopen, hfirst⟩ := hfirst a b hb hopen
  refine ⟨hopen, fun seed => ?_⟩
  simp only [hfirst seed]
  exact hsecond seed

end LeavesOpen

theorem leavesOpen_put (value : String) (option : ValueOption) : LeavesOpen (·.put value option) := by
  intro a b h hopen
  cases option with
  | seed =>
    -- A seed that is put stays, so this is not a step to an open seed.
    obtain ⟨given, hgiven, hb⟩ := exists_of_bind_eq_ok h
    cases hb
    obtain rfl : given = none := hopen
    cases ha : a.seed with
    | some before => rw [ha] at hgiven; cases hgiven
    | none =>
      rw [ha, once] at hgiven
      cases hn : number value with
      | error fault => rw [hn] at hgiven; cases hgiven
      | ok n => rw [hn] at hgiven; cases hgiven
  | pass =>
    simp only [put] at h ⊢
    cases hfind : (Vocabulary.find? value : Option Pass) with
    | none => rw [hfind] at h; cases h
    | some pass =>
      rw [hfind] at h
      cases h
      exact ⟨hopen, fun _ => rfl⟩
  | _ =>
    obtain ⟨given, hgiven, hb⟩ := exists_of_bind_eq_ok h
    cases hb
    refine ⟨hopen, fun seed => ?_⟩
    simp only [put, withSeed, hgiven]
    rfl

theorem leavesOpen_turnOn (switch : Switch) : LeavesOpen (·.turnOn switch) := by
  cases switch with
  | help => exact .refused _
  | version => exact .refused _
  | _ =>
    intro a b h hopen
    simp only [turnOn] at h
    split at h
    · cases h
    · rename_i hoff
      cases h
      exact ⟨hopen, fun seed => if_neg hoff⟩

theorem leavesOpen_settle (pending : Pending) : LeavesOpen (·.settle pending) := by
  match pending with
  | none => exact .pure
  | some (_, none) => exact .refused _
  | some (option, some value) => exact leavesOpen_put value option

theorem leavesOpen_letters (pending : Pending) (group : List Char) : LeavesOpen (·.letters pending group) := by
  induction group generalizing pending with
  | nil => exact leavesOpen_settle pending
  | cons c rest ih =>
    simp only [letters]
    cases letter? c with
    | none => exact .refused _
    | some switch => exact (leavesOpen_settle pending).bind ((leavesOpen_turnOn switch).bind (ih none))

/-- A step with what is pending after it, which does not depend on the arguments. -/
def ThenPending (read : Arguments → Except UsageFault (Arguments × Pending)) : Prop :=
  ∃ step later, LeavesOpen step ∧ ∀ a, read a = (step a).map (·, later)

theorem thenPending_named (pending : Pending) (name : String) (attached : Option String) :
    ThenPending (·.named pending name attached) := by
  have hsettle := leavesOpen_settle pending
  unfold named
  cases valueOption? name with
  | some option =>
    cases attached with
    | none => exact ⟨_, some (option, none), hsettle, fun a => rfl⟩
    | some value =>
      refine ⟨_, none, hsettle.bind (leavesOpen_put value option), fun a => ?_⟩
      exact (bind_assoc (m := Except UsageFault) _ _ _).symm
  | none =>
    cases switch? name with
    | none => exact ⟨_, none, .refused .unknownArgument, fun a => rfl⟩
    | some switch =>
      cases attached with
      | some value => exact ⟨_, none, .refused .unexpectedValue, fun a => rfl⟩
      | none =>
        refine ⟨_, none, hsettle.bind (leavesOpen_turnOn switch), fun a => ?_⟩
        exact (bind_assoc (m := Except UsageFault) _ _ _).symm

theorem thenPending_argument (pending : Pending) (s : String) : ThenPending (·.argument pending s) := by
  unfold argument
  split
  · exact thenPending_named pending _ _
  · exact ⟨_, none, leavesOpen_letters pending _, fun a => rfl⟩
  · split
    · exact ⟨_, some (_, some s), .pure, fun a => rfl⟩
    · exact ⟨_, none, .refused .unknownArgument, fun a => rfl⟩

theorem leavesOpen_read (pending : Pending) (args : List String) : LeavesOpen (·.read pending args) := by
  induction args generalizing pending with
  | nil => exact leavesOpen_settle pending
  | cons s rest ih =>
    obtain ⟨step, later, hstep, hargument⟩ := thenPending_argument pending s
    simp only [read]
    split
    · split
      · exact leavesOpen_settle pending
      · exact .refused _
    · have hread := hstep.bind (ih later)
      convert hread using 2 with a
      rw [show a.argument pending s = _ from hargument a]
      cases step a <;> rfl

/-! ### A seed in front -/

variable {a b : Arguments} {pending later : Pending}

theorem letters_settle {c : Char} {rest : List Char} (h : a.letters none (c :: rest) = .ok b) :
    a.letters pending (c :: rest) = (a.settle pending).bind (·.letters none (c :: rest)) := by
  simp only [letters] at h ⊢
  cases hletter : letter? c with
  | none => rw [hletter] at h; cases h
  | some switch => rfl

theorem named_settle {name : String} {attached : Option String} (h : a.named none name attached = .ok (b, later)) :
    a.named pending name attached = (a.settle pending).bind (·.named none name attached) := by
  unfold named at h ⊢
  cases hoption : valueOption? name with
  | some option => rfl
  | none =>
    rw [hoption] at h
    cases hswitch : switch? name with
    | none => simp only [hswitch] at h; cases h
    | some switch =>
      cases attached with
      | some value => simp only [hswitch] at h; cases h
      | none => rfl

/-- An option whose value was read is completed by the argument that comes next. -/
theorem argument_settle {s value : String} {option : ValueOption} (h : a.argument none s = .ok (b, later)) :
    a.argument (some (option, some value)) s = (a.put value option).bind (·.argument none s) := by
  unfold argument at h ⊢
  split at h
  · exact named_settle h
  · obtain ⟨read, hread, -⟩ := exists_of_bind_eq_ok h
    simp only [letters_settle hread, settle]
    cases a.put value option <;> rfl
  · cases h

/-- A seed that is pending is completed and does not change anything else. -/
theorem read_pending {args : List String} (seed : Seed) (h : a.read none args = .ok b) (hopen : b.seed = none) :
    a.read (some (.seed, some (String.ofList (Decimal.numeral seed.toNat)))) args = .ok (b.withSeed seed) := by
  obtain ⟨haopen, hread⟩ := leavesOpen_read none args a b h hopen
  have hput : a.put (String.ofList (Decimal.numeral seed.toNat)) .seed = .ok (a.withSeed seed) := by
    rw [put, haopen, number, Numeral.parse_numeral]
    rfl
  rw [← hread seed]
  match args with
  | [] => exact hput
  | s :: rest =>
    simp only [read] at h ⊢
    split at h
    · rename_i hs
      split at h
      · rename_i hrest
        rw [if_pos hs, if_pos hs, if_pos hrest, if_pos hrest]
        exact hput
      · cases h
    · rename_i hs
      obtain ⟨⟨c, later⟩, hargument, -⟩ := exists_of_bind_eq_ok h
      rw [if_neg hs, if_neg hs, argument_settle hargument, hput]
      rfl

/-- Arguments that leave the seed open are read with a seed in front of them, and the rest is the same. -/
theorem parse_seed_cons {args : List String} (seed : Seed) (h : parse args = .ok b) (hopen : b.seed = none) :
    parse ("--seed" :: String.ofList (Decimal.numeral seed.toNat) :: args) = .ok (b.withSeed seed) := by
  obtain ⟨c, ds, hnumeral, hc, -⟩ := Decimal.exists_numeral_cons seed.toNat
  have hdash : c ≠ '-' := by
    rintro rfl
    cases hc
  have hword : argument {} none "--seed" = .ok ({}, some (.seed, none)) := by decide
  have hvalue (value : String) (hchars : value.toList = c :: ds) :
      argument {} (some (.seed, none)) value = .ok ({}, some (.seed, some value)) := by
    unfold argument
    split
    · rename_i hs
      exact absurd (List.cons.inj (hchars.symm.trans hs)).1 hdash
    · rename_i hs
      exact absurd (List.cons.inj (hchars.symm.trans hs)).1 hdash
    · rfl
  have hne : String.ofList (Decimal.numeral seed.toNat) ≠ "--" := by
    intro h
    have := congrArg String.toList h
    rw [String.toList_ofList, hnumeral] at this
    exact hdash (List.cons.inj this).1
  rw [parse, read, if_neg (by decide), hword]
  simp only [bind, Except.bind]
  rw [read, if_neg hne, hvalue _ (by rw [String.toList_ofList, hnumeral])]
  exact read_pending seed h hopen

end Arguments

end SyntheticRows
