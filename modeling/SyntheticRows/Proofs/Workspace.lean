import Mathlib
import SyntheticRows.Proofs.Recording.Attempt
import SyntheticRows.Workspace

/-!
What a program does to the files of its workspace. Where a path leads depends on which files there are and not on their
texts, so it stays the same while a log grows (`KeptBy`).
-/

namespace SyntheticRows

/-! ### Trees -/

namespace Tree
variable {t u : Tree} {location other : Location} {text : List Char}

theorem lookup_replace (files : List (Location × List Char)) (location other : Location) (text : List Char) :
    (files.map fun file => if file.1 == location then (location, text) else file).lookup other =
      if other = location then (files.lookup location).map fun _ => text else files.lookup other := by
  induction files with
  | nil => simp
  | cons file files ih =>
    obtain ⟨name, kept⟩ := file
    rw [List.map_cons]
    by_cases hname : name = location
    · subst hname
      by_cases hother : other = name
      · simp [hother]
      · have hne : (other == name) = false := beq_false_of_ne hother
        rw [if_pos (beq_self_eq_true name), List.lookup_cons, hne, ih, if_neg hother, if_neg hother,
          List.lookup_cons, hne]
    · have hne : (location == name) = false := beq_false_of_ne (Ne.symm hname)
      rw [if_neg (by simpa using hname), List.lookup_cons, ih]
      by_cases hother : other = location
      · subst hother
        simp [hne, List.lookup_cons]
      · simp [hother, List.lookup_cons]

theorem text?_setText_self (t : Tree) (location : Location) (text : List Char) :
    (t.setText location text).text? location = some text := by
  rw [setText]
  split
  · rename_i hfile
    obtain ⟨old, hold⟩ := Option.isSome_iff_exists.mp hfile
    rw [text?] at hold
    rw [text?, lookup_replace, if_pos rfl, hold]
    rfl
  · rename_i hfile
    have hnone : t.files.lookup location = none := Option.not_isSome_iff_eq_none.mp hfile
    rw [text?, List.lookup_append, hnone]
    simp

theorem text?_setText_of_ne (h : other ≠ location) : (t.setText location text).text? other = t.text? other := by
  rw [setText]
  split
  · rw [text?, lookup_replace, if_neg h]
    rfl
  · have hne : (other == location) = false := beq_false_of_ne h
    rw [text?, List.lookup_append]
    simp [text?, List.lookup_cons, hne]

/-- Trees that differ in their files alone. -/
def SameFrame (t u : Tree) : Prop :=
  ∃ files, u = { t with files }

theorem sameFrame_setText (t : Tree) (location : Location) (text : List Char) :
    t.SameFrame (t.setText location text) := by
  rw [setText]
  split
  · exact ⟨_, rfl⟩
  · exact ⟨_, rfl⟩

/-- Trees that differ in the texts of their files alone. -/
structure SamePlaces (t u : Tree) : Prop where
  frame : t.SameFrame u
  isSome : ∀ location, (u.text? location).isSome = (t.text? location).isSome

namespace SamePlaces

theorem home (h : t.SamePlaces u) : u.home = t.home := by
  obtain ⟨files, rfl⟩ := h.frame
  rfl

theorem links (h : t.SamePlaces u) : u.links = t.links := by
  obtain ⟨files, rfl⟩ := h.frame
  rfl

theorem at? (h : t.SamePlaces u) (location : Location) : u.at? location = t.at? location := by
  have hfile : (u.text? location).map (fun _ => Place.file location) =
      (t.text? location).map fun _ => Place.file location := by
    have hsome := h.isSome location
    cases hu : u.text? location <;> cases ht : t.text? location <;> simp_all
  rw [Tree.at?, Tree.at?, hfile]
  obtain ⟨files, rfl⟩ := h.frame
  rfl

theorem follow (h : t.SamePlaces u) (here : Location) (name : String) : u.follow here name = t.follow here name := by
  rw [Tree.follow, Tree.follow, h.at?, h.links]

theorem walk (h : t.SamePlaces u) (names : List String) (here : Location) : u.walk here names = t.walk here names := by
  induction names generalizing here with
  | nil => rfl
  | cons name names ih =>
    rw [Tree.walk, Tree.walk, h.follow]
    refine bind_congr fun there => ?_
    rw [h.at?, ih]

theorem placeToWrite (h : t.SamePlaces u) (path : String) : u.placeToWrite path = t.placeToWrite path := by
  simp only [Tree.placeToWrite, Tree.vacancy, Tree.origin, h.home, h.walk, h.follow, h.at?]

end SamePlaces

/-! ### Paths -/

section
open String
variable (before part rest : List Char) (done : List String)

theorem not_atEnd (c : Char) :
    ¬Pos.Raw.atEnd (.ofList (before ++ part ++ c :: rest)) ⟨utf8Len before + utf8Len part⟩ = true := by
  have hsize := c.utf8Size_pos
  rw [String.atEnd_iff, String.rawEndPos_ofList]
  simp
  omega

/-- The last name of a path ends with it. -/
theorem splitOnAux_end :
    String.splitOnAux (.ofList (before ++ part)) "/" ⟨utf8Len before⟩ ⟨utf8Len before + utf8Len part⟩ 0 done =
      (.ofList part :: done).reverse := by
  have hextract := String.extract_of_valid before part []
  have hend : Pos.Raw.atEnd (.ofList (before ++ part)) ⟨utf8Len before + utf8Len part⟩ = true := by
    rw [String.atEnd_iff, String.rawEndPos_ofList]
    simp
  rw [List.append_nil] at hextract
  rw [String.splitOnAux, if_pos hend, hextract]

/-- A slash ends the name before it, and the next one begins behind it. -/
theorem splitOnAux_slash :
    String.splitOnAux (.ofList (before ++ part ++ '/' :: rest)) "/" ⟨utf8Len before⟩
        ⟨utf8Len before + utf8Len part⟩ 0 done =
      String.splitOnAux (.ofList (before ++ part ++ '/' :: rest)) "/" ⟨utf8Len (before ++ part ++ ['/'])⟩
        ⟨utf8Len (before ++ part ++ ['/'])⟩ 0 (.ofList part :: done) := by
  have hget := String.get_of_valid (before ++ part) ('/' :: rest)
  have hnext := String.next_of_valid (before ++ part) '/' rest
  have hone : utf8Len ['/'] = '/'.utf8Size := by simp
  have hslash : Pos.Raw.get "/" 0 = '/' := by decide
  have hlast : Pos.Raw.atEnd "/" (Pos.Raw.next "/" 0) = true := by decide
  have hback : (⟨utf8Len before + utf8Len part + '/'.utf8Size⟩ : Pos.Raw).unoffsetBy (Pos.Raw.next "/" 0) =
      ⟨utf8Len before + utf8Len part⟩ := rfl
  rw [utf8Len_append] at hget hnext
  rw [String.splitOnAux, if_neg (not_atEnd before part rest '/'), hget, hnext, hslash, List.headD_cons,
    if_pos (beq_self_eq_true '/')]
  dsimp only
  rw [if_pos hlast, hback, String.extract_of_valid before part ('/' :: rest), utf8Len_append, utf8Len_append, hone]

/-- Any other character belongs to the name that is being read. -/
theorem splitOnAux_other {c : Char} (hc : c ≠ '/') :
    String.splitOnAux (.ofList (before ++ part ++ c :: rest)) "/" ⟨utf8Len before⟩
        ⟨utf8Len before + utf8Len part⟩ 0 done =
      String.splitOnAux (.ofList (before ++ part ++ c :: rest)) "/" ⟨utf8Len before⟩
        ⟨utf8Len before + utf8Len (part ++ [c])⟩ 0 done := by
  have hget := String.get_of_valid (before ++ part) (c :: rest)
  have hnext := String.next_of_valid (before ++ part) c rest
  have hone : utf8Len [c] = c.utf8Size := by simp
  have hslash : Pos.Raw.get "/" 0 = '/' := by decide
  have hback : (⟨utf8Len before + utf8Len part⟩ : Pos.Raw).unoffsetBy 0 = ⟨utf8Len before + utf8Len part⟩ := rfl
  rw [utf8Len_append] at hget hnext
  rw [String.splitOnAux, if_neg (not_atEnd before part rest c), hget, hslash, List.headD_cons,
    if_neg (by simpa using hc), hback, hnext, utf8Len_append, hone, Nat.add_assoc]

/-- The splitting of a path after the names that are done, a part of the next one and the slashes between them. -/
theorem splitOnAux_eq :
    String.splitOnAux (.ofList (before ++ part ++ rest)) "/" ⟨utf8Len before⟩ ⟨utf8Len before + utf8Len part⟩ 0 done =
      done.reverse ++ (List.splitOnPPrepend (· == '/') rest part.reverse).map .ofList := by
  induction rest generalizing before part done with
  | nil =>
    rw [List.append_nil, splitOnAux_end]
    simp
  | cons c rest ih =>
    rw [List.splitOnPPrepend_cons_eq_if]
    by_cases hc : c = '/'
    · subst hc
      have hafter := ih (before ++ part ++ ['/']) [] (.ofList part :: done)
      rw [List.append_nil, utf8Len_nil, Nat.add_zero, List.append_assoc _ ['/'], List.singleton_append] at hafter
      rw [splitOnAux_slash, if_pos (beq_self_eq_true '/'), hafter]
      simp
    · have hpart := ih before (part ++ [c]) done
      rw [← List.append_assoc, List.append_assoc _ [c], List.singleton_append, List.reverse_append] at hpart
      rw [splitOnAux_other before part rest done hc, if_neg (by simpa using hc)]
      exact hpart

end

/-- The names of a path are what stands between its slashes. -/
theorem names_eq (path : String) :
    names path = ((path.toList.splitOn '/').map String.ofList).filter (· ≠ "") := by
  have h := splitOnAux_eq [] [] path.toList []
  rw [names, String.splitOn, if_neg (by decide)]
  simpa [List.splitOn] using congrArg (List.filter (· ≠ "")) h

example : names "/dev//null/" = ["dev", "null"] := by
  rw [names_eq]
  decide

end Tree

/-! ### Logs -/

namespace Workspace
variable {σ : Type} {w v u : Workspace σ}

/-- The log file is there if one is open. -/
def LogReady (w : Workspace σ) : Prop :=
  ∀ location, w.logAt = some (.file location) → (w.tree.text? location).isSome

/-- The log goes anywhere but to standard output, or there is none. -/
def LogApart (w : Workspace σ) : Prop :=
  w.logAt ≠ some (.special .standardOutput)

theorem logApart_of_closed (h : w.logAt = none) : w.LogApart := by
  rw [LogApart, h]
  exact (Option.some_ne_none _).symm

/-- A file has the same text in both workspaces, or it is the log and has grown. -/
structure KeptAt (w v : Workspace σ) (location : Location) : Prop where
  other : w.logAt ≠ some (.file location) → v.tree.text? location = w.tree.text? location
  log : ∀ text, w.logAt = some (.file location) → w.tree.text? location = some text →
    ∃ lines, v.tree.text? location = some (text ++ lines)

namespace KeptAt
variable {location : Location}

theorem of_eq (h : v.tree.text? location = w.tree.text? location) : w.KeptAt v location :=
  ⟨fun _ => h, fun text _ htext => ⟨[], by rw [h, htext, List.append_nil]⟩⟩

theorem trans (hlog : v.logAt = w.logAt) (h : w.KeptAt v location) (k : v.KeptAt u location) : w.KeptAt u location where
  other hne := (k.other (hlog ▸ hne)).trans (h.other hne)
  log text hat htext := by
    obtain ⟨lines, hlines⟩ := h.log text hat htext
    obtain ⟨more, hmore⟩ := k.log _ (hlog.trans hat) hlines
    exact ⟨lines ++ more, by rw [hmore, List.append_assoc]⟩

end KeptAt

/-- No file of the first workspace but its log is changed in the second one, and the log and standard output have only
    grown. -/
structure KeptBy (w v : Workspace σ) : Prop where
  frame : w.tree.SameFrame v.tree
  logAt : v.logAt = w.logAt
  occasion : v.occasion = w.occasion
  output : ∃ hs, w.output.Extends hs v.output
  text? : ∀ location, w.KeptAt v location

namespace KeptBy

/-- Only standard output or what the user was shown is different. -/
theorem of_eq (htree : v.tree = w.tree) (hlogAt : v.logAt = w.logAt) (hoccasion : v.occasion = w.occasion)
    (houtput : ∃ hs, w.output.Extends hs v.output) : w.KeptBy v :=
  ⟨⟨v.tree.files, by rw [htree]⟩, hlogAt, hoccasion, houtput, fun _ => .of_eq (by rw [htree])⟩

theorem refl (w : Workspace σ) : w.KeptBy w :=
  of_eq rfl rfl rfl ⟨[], .refl _⟩

theorem trans (h : w.KeptBy v) (k : v.KeptBy u) : w.KeptBy u where
  frame := by
    obtain ⟨files, hframe⟩ := h.frame
    obtain ⟨more, kframe⟩ := k.frame
    exact ⟨more, by rw [kframe, hframe]⟩
  logAt := k.logAt.trans h.logAt
  occasion := k.occasion.trans h.occasion
  output := by
    obtain ⟨hs, hextends⟩ := h.output
    obtain ⟨ks, kextends⟩ := k.output
    exact ⟨hs ++ ks, hextends.trans kextends⟩
  text? location := (h.text? location).trans h.logAt (k.text? location)

theorem device (h : w.KeptBy v) : v.output.device = w.output.device := by
  obtain ⟨hs, hextends⟩ := h.output
  exact hextends.device

theorem apart (h : w.KeptBy v) (hapart : w.LogApart) : v.LogApart := by
  rw [LogApart, h.logAt]
  exact hapart

theorem samePlaces (hready : w.LogReady) (h : w.KeptBy v) : w.tree.SamePlaces v.tree where
  frame := h.frame
  isSome location := by
    by_cases hat : w.logAt = some (.file location)
    · obtain ⟨text, htext⟩ := Option.isSome_iff_exists.mp (hready location hat)
      obtain ⟨lines, hlines⟩ := (h.text? location).log text hat htext
      rw [hlines, htext]
      rfl
    · rw [(h.text? location).other hat]

end KeptBy

theorem text?_appendLog {location : Location} {text : List Char} (line : List Char)
    (hat : w.logAt = some (.file location)) (htext : w.tree.text? location = some text) :
    (w.appendLog line).tree.text? location = some (text ++ line) := by
  rw [appendLog, hat]
  dsimp only
  rw [append, Tree.text?_setText_self, htext]
  rfl

theorem keptBy_send (w : Workspace σ) (text : List Char) : w.KeptBy (w.send text).2 := by
  obtain ⟨hs, hextends, -⟩ := Recording.Adds.writeAll (utf8 text) w.output
  exact .of_eq rfl rfl rfl ⟨hs, hextends⟩

/-- A device without faults takes all of a text. -/
theorem stored_send (hfree : w.output.device.FaultFree) (text : List Char) :
    (w.send text).2.output.stored = w.output.stored ++ utf8 text := by
  obtain ⟨hs, hextends, hwrites⟩ := Recording.Adds.writeAll (utf8 text) w.output
  refine hextends.stored.trans ?_
  have hattempt := hwrites.attempt
  rw [hattempt.faultless_iff.mp (hfree.faultless hextends.follows)] at hattempt
  rw [hattempt.taken_eq]

theorem keptBy_append {location : Location} (hat : w.logAt = some (.file location)) (line : List Char) :
    w.KeptBy (w.append location line) where
  frame := w.tree.sameFrame_setText _ _
  logAt := rfl
  occasion := rfl
  output := ⟨[], .refl _⟩
  text? other := by
    refine ⟨fun hne => Tree.text?_setText_of_ne fun heq => hne (heq ▸ hat), fun text hother htext => ⟨line, ?_⟩⟩
    cases hat.symm.trans hother
    rw [append, Tree.text?_setText_self, htext]
    rfl

/-- Nothing but the log was written. -/
structure LoggedBy (w v : Workspace σ) : Prop where
  kept : w.KeptBy v
  output : w.LogApart → v.output = w.output

namespace LoggedBy

theorem refl (w : Workspace σ) : w.LoggedBy w :=
  ⟨.refl w, fun _ => rfl⟩

theorem trans (h : w.LoggedBy v) (k : v.LoggedBy u) : w.LoggedBy u :=
  ⟨h.kept.trans k.kept, fun hapart => (k.output (h.kept.apart hapart)).trans (h.output hapart)⟩

end LoggedBy

/-- A line of the log stands at the end of the log file and changes no other. -/
theorem loggedBy_appendLog (w : Workspace σ) (line : List Char) : w.LoggedBy (w.appendLog line) := by
  rw [appendLog]
  split
  · rename_i hat
    exact ⟨keptBy_append hat line, fun _ => rfl⟩
  · rename_i hat
    exact ⟨w.keptBy_send line, fun hapart => absurd hat hapart⟩
  · exact ⟨.of_eq rfl rfl rfl ⟨[], .refl _⟩, fun _ => rfl⟩
  · exact .refl w

/-- A log is open from then on, and no line was written. If its file was missing it is empty. -/
structure OpenedBy (w v : Workspace σ) : Prop where
  ready : v.LogReady
  output : v.output = w.output
  occasion : v.occasion = w.occasion
  text? : ∀ location, v.tree.text? location = w.tree.text? location ∨
    v.logAt = some (.file location) ∧ w.tree.text? location = none ∧ v.tree.text? location = some []

/-- A log that is no file of the tree may be opened in any workspace. -/
theorem OpenedBy.of_logAt {place : Option Place} (hplace : ∀ location, place ≠ some (.file location)) :
    w.OpenedBy { w with logAt := place } where
  ready location hat := absurd hat (hplace location)
  output := rfl
  occasion := rfl
  text? _ := .inl rfl

theorem OpenedBy.refl (hclosed : w.logAt = none) : w.OpenedBy w := by
  have h : w.OpenedBy { w with logAt := none } := of_logAt fun _ => (Option.some_ne_none _).symm
  rwa [← hclosed] at h

theorem openLog_cases (w : Workspace σ) (path : String) :
    (∃ fault, w.openLog path = (some fault, w)) ∨ ∃ v, w.openLog path = (none, v) ∧ w.OpenedBy v := by
  rw [openLog]
  split
  · exact .inl ⟨_, rfl⟩
  · exact .inl ⟨_, rfl⟩
  · exact .inr ⟨_, rfl, .of_logAt fun _ hat => by cases hat⟩
  · rename_i opened _
    refine .inr ⟨_, rfl, fun location hat => ?_, rfl, rfl, fun location => ?_⟩
    · cases hat
      rw [append, Tree.text?_setText_self]
      rfl
    · by_cases heq : location = opened
      · subst heq
        rw [append, Tree.text?_setText_self, List.append_nil]
        cases htext : w.tree.text? location with
        | none => exact .inr ⟨rfl, rfl, rfl⟩
        | some text => exact .inl rfl
      · exact .inl (Tree.text?_setText_of_ne heq)

/-- A text is written to a file of the tree or to a special file, which changes no file of the tree. -/
theorem writeText_cases (w : Workspace σ) (path : String) (text : List Char) :
    (∃ fault v, w.writeText path text = (some fault, v) ∧ w.KeptBy v) ∨
    (∃ kind v, kind ≠ .full ∧ w.tree.placeToWrite path = .ok (.special kind) ∧ w.writeText path text = (none, v) ∧
      w.KeptBy v) ∨
    ∃ location, w.tree.placeToWrite path = .ok (.file location) ∧
      w.writeText path text = (none, { w with tree := w.tree.setText location text }) := by
  rw [writeText]
  split
  · exact .inl ⟨_, w, rfl, .refl w⟩
  · exact .inl ⟨_, w, rfl, .refl w⟩
  · exact .inl ⟨_, w, rfl, .refl w⟩
  · rename_i hplace
    have hkept := w.keptBy_send text
    generalize w.send text = sent at hkept ⊢
    obtain ⟨_ | fault, v⟩ := sent
    · exact .inr (.inl ⟨_, v, by decide, hplace, rfl, hkept⟩)
    · exact .inl ⟨fault, v, rfl, hkept⟩
  · rename_i hplace
    exact .inr (.inl ⟨_, _, by decide, hplace, rfl, .of_eq rfl rfl rfl ⟨[], .refl _⟩⟩)
  · rename_i hfull _ _ hplace
    exact .inr (.inl ⟨_, w, hfull, hplace, rfl, .refl w⟩)
  · rename_i location hplace
    exact .inr (.inr ⟨location, hplace, rfl⟩)

/-- A text that cannot be written is in no file of the tree. -/
theorem keptBy_of_fault {path : String} {text : List Char} {fault : IoFault}
    (h : w.writeText path text = (some fault, v)) : w.KeptBy v := by
  rcases w.writeText_cases path text with ⟨fault, u, hwrite, hkept⟩ | ⟨kind, u, -, -, hwrite, -⟩ |
    ⟨location, -, hwrite⟩
  · cases hwrite.symm.trans h
    exact hkept
  · cases hwrite.symm.trans h
  · cases hwrite.symm.trans h

end Workspace

end SyntheticRows
