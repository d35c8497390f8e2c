import SyntheticRows.Recording

/-!
What a computation does to a recorded device. The happenings that it adds are answers of the device, in
order (`Follows`), and they carry out the orders that the computation has to give, up to the first fault
(`Attempt`). Writing all of a text is such an attempt, however the device cuts the text into pieces.
-/

namespace SyntheticRows

/-! ### Effects and faults -/

/-- What reaches a device: a byte that it keeps, or an order to flush that it carries out. -/
inductive Effect
  | byte (value : UInt8)
  | flush
deriving DecidableEq, Repr

namespace Happening

/-- What a happening leaves in the device. -/
def effects : Happening → List Effect
  | offered bytes reply => (offered bytes reply).accepted.map .byte
  | flushed none => [.flush]
  | _ => []

/-- The fault that a happening shows. A call that takes nothing although it is offered something is one too. -/
def fault? : Happening → Option IoFault
  | offered (_ :: _) (.took 0) => some .nothingTaken
  | offered _ (.failed fault) => some fault
  | flushed fault => fault
  | _ => none

end Happening

def effects (hs : List Happening) : List Effect :=
  hs.flatMap (·.effects)

def taken (hs : List Happening) : Bytes :=
  hs.flatMap (·.accepted)

theorem effects_append (hs ks : List Happening) : effects (hs ++ ks) = effects hs ++ effects ks :=
  List.flatMap_append

theorem taken_append (hs ks : List Happening) : taken (hs ++ ks) = taken hs ++ taken ks :=
  List.flatMap_append

theorem stored_eq_taken {σ : Type} (r : Recording σ) : r.stored = taken r.happenings :=
  rfl

def Effect.byte? : Effect → Option UInt8
  | byte value => some value
  | flush => none

theorem filterMap_map_byte (bytes : Bytes) : (bytes.map Effect.byte).filterMap Effect.byte? = bytes := by
  rw [List.filterMap_map]
  exact List.filterMap_some

theorem taken_eq_filterMap (hs : List Happening) : taken hs = (effects hs).filterMap Effect.byte? := by
  induction hs with
  | nil => rfl
  | cons h hs ih =>
    rw [← List.singleton_append, taken_append, effects_append, List.filterMap_append, ← ih]
    congr 1
    cases h with
    | offered bytes reply =>
      simp only [taken, effects, List.flatMap_cons, List.flatMap_nil, List.append_nil, Happening.effects]
      exact (filterMap_map_byte _).symm
    | flushed fault => cases fault <;> rfl
    | noted event => rfl

/-! ### Attempts -/

def Faultless (hs : List Happening) : Prop :=
  ∀ h ∈ hs, h.fault? = none

/-- The last happening shows the fault, and none before it does. -/
def StopsAt (hs : List Happening) (fault : IoFault) : Prop :=
  ∃ before last, hs = before ++ [last] ∧ Faultless before ∧ last.fault? = some fault

/-- Happenings that carry out a goal, or a part from its beginning if a fault stops them. -/
def Attempt (goal : List Effect) (hs : List Happening) : Option IoFault → Prop
  | none => effects hs = goal ∧ Faultless hs
  | some fault => effects hs <+: goal ∧ StopsAt hs fault

theorem Faultless.append {hs ks : List Happening} (h : Faultless hs) (k : Faultless ks) : Faultless (hs ++ ks) :=
  fun x hx => (List.mem_append.mp hx).elim (h x) (k x)

theorem StopsAt.not_faultless {hs : List Happening} {fault : IoFault} (h : StopsAt hs fault) :
    ¬Faultless hs := by
  obtain ⟨before, last, rfl, -, hlast⟩ := h
  intro hf
  have := hf last (List.mem_append_right _ List.mem_cons_self)
  rw [this] at hlast
  cases hlast

namespace Attempt
variable {goal more : List Effect} {hs ks : List Happening} {fault : Option IoFault}

theorem nil : Attempt [] [] none :=
  ⟨rfl, fun _ h => absurd h List.not_mem_nil⟩

theorem append (h : Attempt goal hs none) (k : Attempt more ks fault) : Attempt (goal ++ more) (hs ++ ks) fault := by
  obtain ⟨he, hf⟩ := h
  cases fault with
  | none => exact ⟨by rw [effects_append, he, k.1], hf.append k.2⟩
  | some fault =>
    obtain ⟨ke, before, last, rfl, kb, kl⟩ := k
    refine ⟨?_, hs ++ before, last, (List.append_assoc ..).symm, hf.append kb, kl⟩
    rw [effects_append, he]
    exact List.prefix_append_right_inj goal |>.mpr ke

theorem stop {fault : IoFault} (h : Attempt goal hs (some fault)) : Attempt (goal ++ more) hs (some fault) :=
  ⟨h.1.trans (List.prefix_append goal more), h.2⟩

theorem faultless_iff (h : Attempt goal hs fault) : Faultless hs ↔ fault = none := by
  cases fault with
  | none => exact iff_of_true h.2 rfl
  | some fault => exact iff_of_false h.2.not_faultless (Option.some_ne_none fault)

theorem isPrefix (h : Attempt goal hs fault) : effects hs <+: goal := by
  cases fault with
  | none => exact h.1 ▸ List.prefix_refl _
  | some fault => exact h.1

theorem taken_eq {text : Bytes} (h : Attempt (text.map .byte) hs none) : taken hs = text := by
  rw [taken_eq_filterMap, h.1, filterMap_map_byte]

theorem taken_prefix (h : Attempt goal hs fault) : taken hs <+: goal.filterMap Effect.byte? := by
  rw [taken_eq_filterMap]
  exact h.isPrefix.filterMap _

end Attempt

/-! ### Written texts -/

/-- Nothing in the happenings is an order to flush. -/
def Unflushed (hs : List Happening) : Prop :=
  ∀ h ∈ hs, h.isFlush = false

theorem Unflushed.nil : Unflushed [] :=
  fun _ h => absurd h List.not_mem_nil

theorem Unflushed.append {hs ks : List Happening} (h : Unflushed hs) (k : Unflushed ks) : Unflushed (hs ++ ks) :=
  List.forall_mem_append.mpr ⟨h, k⟩

theorem Unflushed.countP_eq {hs : List Happening} (h : Unflushed hs) : hs.countP (·.isFlush) = 0 :=
  List.countP_eq_zero.mpr fun x hx => by simp [h x hx]

/-- What comes of writing a text: how many bytes were taken, and the fault if there was one. The text is attempted
    by writing alone, and after a fault a part of it is missing. -/
structure Writes (text : Bytes) (a : Nat × Option IoFault) (hs : List Happening) : Prop where
  count : a.1 = (taken hs).length
  attempt : Attempt (text.map .byte) hs a.2
  unflushed : Unflushed hs
  short : a.2 ≠ none → (taken hs).length < text.length

namespace Writes
variable {text more : Bytes} {hs ks : List Happening} {m n : Nat} {fault : Option IoFault}

theorem nil : Writes [] (0, none) [] :=
  ⟨rfl, Attempt.nil, Unflushed.nil, fun h => absurd rfl h⟩

theorem append (h : Writes text (m, none) hs) (k : Writes more (n, fault) ks) :
    Writes (text ++ more) (m + n, fault) (hs ++ ks) := by
  obtain ⟨rfl, hattempt, hunflushed, -⟩ := h
  obtain ⟨rfl, kattempt, kunflushed, kshort⟩ := k
  refine ⟨?_, ?_, hunflushed.append kunflushed, fun hfault => ?_⟩
  · rw [taken_append, List.length_append]
  · rw [List.map_append]
    exact hattempt.append kattempt
  · -- The first text was taken whole, so what is missing is missing from the second.
    have := kshort hfault
    rw [taken_append, List.length_append, List.length_append, hattempt.taken_eq]
    omega

theorem stop {fault : IoFault} (h : Writes text (m, some fault) hs) :
    Writes (text ++ more) (m, some fault) hs where
  count := h.count
  attempt := by
    rw [List.map_append]
    exact h.attempt.stop
  unflushed := h.unflushed
  short hfault := by
    have := h.short hfault
    rw [List.length_append]
    omega

/-- A call that takes the first bytes of what it is offered has written them. -/
theorem took (text : Bytes) (count : Nat) :
    Writes (text.take (count + 1)) (min (count + 1) text.length, none) [.offered text (.took (count + 1))] where
  count := by simp [taken, Happening.accepted]
  attempt := ⟨by simp [effects, Happening.effects, Happening.accepted], by simp [Faultless, Happening.fault?]⟩
  unflushed := by simp [Unflushed, Happening.isFlush]
  short h := absurd rfl h

/-- A call that shows a fault and takes nothing of what it is offered. -/
theorem refused {reply : Reply} {fault : IoFault} (hne : text ≠ [])
    (hfault : (Happening.offered text reply).fault? = some fault)
    (hnothing : (Happening.offered text reply).accepted = []) : Writes text (0, some fault) [.offered text reply] where
  count := by simp [taken, hnothing]
  attempt := by
    refine ⟨?_, [], _, rfl, fun _ h => absurd h List.not_mem_nil, hfault⟩
    simp [effects, Happening.effects, hnothing]
  unflushed := by simp [Unflushed, Happening.isFlush]
  short _ := by
    simpa [taken, hnothing] using List.length_pos_iff.mpr hne

end Writes

/-! ### Recordings -/

namespace Device
variable {σ : Type} {d : Device σ}

/-- The happenings are what a device does when it is called in this way, from one state to another. -/
def Follows (d : Device σ) : σ → List Happening → σ → Prop
  | s, [], t => s = t
  | s, .offered bytes reply :: hs, t => (d.offer s bytes).1 = reply ∧ d.Follows (d.offer s bytes).2 hs t
  | s, .flushed fault :: hs, t => (d.flush s).1 = fault ∧ d.Follows (d.flush s).2 hs t
  | s, .noted _ :: hs, t => d.Follows s hs t

theorem Follows.append {s t u : σ} {hs ks : List Happening} (h : d.Follows s hs t) (k : d.Follows t ks u) :
    d.Follows s (hs ++ ks) u := by
  induction hs generalizing s with
  | nil =>
    cases h
    exact k
  | cons x hs ih =>
    cases x with
    | offered bytes reply => exact ⟨h.1, ih h.2⟩
    | flushed fault => exact ⟨h.1, ih h.2⟩
    | noted event => exact ih (s := s) h

/-- A device on which no call fails, and no call that is offered something takes nothing of it. -/
structure FaultFree (d : Device σ) : Prop where
  write : ∀ s bytes fault, (d.write s bytes).1 ≠ .failed fault
  took : ∀ s b bytes, (d.write s (b :: bytes)).1 ≠ .took 0
  flush : ∀ s, (d.flush s).1 = none

namespace FaultFree

theorem offer (h : d.FaultFree) (s : σ) (bytes : Bytes) :
    (∀ fault, (d.offer s bytes).1 ≠ .failed fault) ∧ (bytes ≠ [] → (d.offer s bytes).1 ≠ .took 0) := by
  fun_induction d.offer s bytes with
  | case1 s count t hw =>
    refine ⟨fun _ => Reply.noConfusion, fun hne h0 => ?_⟩
    obtain ⟨b, rest, rfl⟩ := List.exists_cons_of_ne_nil hne
    cases h0
    exact h.took s b rest (by rw [hw])
  | case2 s fault t hw => exact absurd (by rw [hw]) (h.write s _ fault)
  | case3 s t hw ih => exact ih

theorem faultless (h : d.FaultFree) {s t : σ} {hs : List Happening} (hf : d.Follows s hs t) : Faultless hs := by
  induction hs generalizing s with
  | nil => exact fun _ hx => absurd hx List.not_mem_nil
  | cons x hs ih =>
    rw [Faultless, List.forall_mem_cons]
    cases x with
    | offered bytes reply =>
      obtain ⟨rfl, hf⟩ := hf
      refine ⟨?_, ih hf⟩
      obtain ⟨hfail, htook⟩ := h.offer s bytes
      generalize (d.offer s bytes).1 = reply at hfail htook
      unfold Happening.fault?
      split <;> simp_all
    | flushed fault =>
      obtain ⟨rfl, hf⟩ := hf
      exact ⟨h.flush s, ih hf⟩
    | noted event => exact ⟨rfl, ih (s := s) hf⟩

end FaultFree

/-- A device that takes one byte at a time and never fails. -/
def byteByByte : Device Unit where
  write _ bytes := (.took (min 1 bytes.length), ())
  flush _ := (none, ())
  patience _ := 0
  patience_lt h := by cases h

theorem faultFree_byteByByte : byteByByte.FaultFree where
  write _ _ _ h := by cases h
  took _ b bytes h := by simp [byteByByte] at h
  flush _ := rfl

end Device

namespace Recording
variable {σ α β : Type}

/-- A recording that goes on from another with further answers of the device. -/
structure Extends (r : Recording σ) (hs : List Happening) (t : Recording σ) : Prop where
  device : t.device = r.device
  happenings : t.happenings = r.happenings ++ hs
  follows : r.device.Follows r.state hs t.state

theorem Extends.refl (r : Recording σ) : r.Extends [] r :=
  ⟨rfl, (List.append_nil _).symm, rfl⟩

theorem Extends.trans {r s t : Recording σ} {hs ks : List Happening} (h : r.Extends hs s) (k : s.Extends ks t) :
    r.Extends (hs ++ ks) t where
  device := k.device.trans h.device
  happenings := by rw [k.happenings, h.happenings, List.append_assoc]
  follows := h.follows.append (h.device ▸ k.follows)

theorem Extends.stored {r t : Recording σ} {hs : List Happening} (h : r.Extends hs t) :
    t.stored = r.stored ++ taken hs := by
  rw [stored_eq_taken, h.happenings, taken_append, ← stored_eq_taken]

theorem flushes_eq_countP (r : Recording σ) : r.flushes = r.happenings.countP (·.isFlush) :=
  (List.reverse_perm _).countP_eq _ |>.symm

theorem Extends.flushes {r t : Recording σ} {hs : List Happening} (h : r.Extends hs t) :
    t.flushes = r.flushes + hs.countP (·.isFlush) := by
  rw [flushes_eq_countP, h.happenings, List.countP_append, ← flushes_eq_countP]

theorem happenings_add (r : Recording σ) (x : Happening) : (r.add x).happenings = r.happenings ++ [x] :=
  List.reverse_cons

/-- Whatever was recorded before, the computation adds happenings and gives a value that goes with them. -/
def Adds (x : StateM (Recording σ) α) (P : α → List Happening → Prop) : Prop :=
  ∀ r : Recording σ, ∃ hs, r.Extends hs (x.run r).2 ∧ P (x.run r).1 hs

namespace Adds
variable {x : StateM (Recording σ) α} {P : α → List Happening → Prop}

theorem pure {a : α} (h : P a []) : Adds (Pure.pure a : StateM (Recording σ) α) P :=
  fun r => ⟨[], Extends.refl r, h⟩

theorem bind {f : α → StateM (Recording σ) β} {Q : β → List Happening → Prop} (hx : Adds x P)
    (hf : ∀ a hs, P a hs → Adds (f a) fun b ks => Q b (hs ++ ks)) : Adds (x >>= f) Q := fun r => by
  obtain ⟨hs, he, hp⟩ := hx r
  obtain ⟨ks, ke, hq⟩ := hf _ hs hp (x.run r).2
  exact ⟨hs ++ ks, he.trans ke, hq⟩

theorem mono {Q : α → List Happening → Prop} (hx : Adds x P) (h : ∀ a hs, P a hs → Q a hs) : Adds x Q := fun r => by
  obtain ⟨hs, he, hp⟩ := hx r
  exact ⟨hs, he, h _ hs hp⟩

theorem map {f : α → β} {Q : β → List Happening → Prop} (hx : Adds x P) (h : ∀ a hs, P a hs → Q (f a) hs) :
    Adds (f <$> x) Q := fun r => by
  obtain ⟨hs, he, hp⟩ := hx r
  exact ⟨hs, he, h _ hs hp⟩

theorem write (bytes : Bytes) :
    Adds (Outlet.write bytes : StateM (Recording σ) Reply) fun reply hs => hs = [.offered bytes reply] := fun _ =>
  ⟨[_], ⟨rfl, happenings_add .., rfl, rfl⟩, rfl⟩

theorem flush : Adds (Outlet.flush : StateM (Recording σ) (Option IoFault)) fun fault hs => hs = [.flushed fault] :=
  fun _ => ⟨[_], ⟨rfl, happenings_add .., rfl, rfl⟩, rfl⟩

theorem note (event : RunEvent) :
    Adds (Observer.note event : StateM (Recording σ) Unit) fun _ hs => hs = [.noted event] := fun _ =>
  ⟨[_], ⟨rfl, happenings_add .., rfl⟩, rfl⟩

theorem clock : Adds (Observer.clock : StateM (Recording σ) UInt64) fun time hs => time = 0 ∧ hs = [] := fun r =>
  ⟨[], Extends.refl r, rfl, rfl⟩

/-! ### Writing texts -/

/-- Writing a text offers the rest of it again until all is taken or a fault comes. -/
theorem writeAll (text : Bytes) :
    Adds (SyntheticRows.writeAll text : StateM (Recording σ) (Nat × Option IoFault)) (Writes text) := by
  induction hn : text.length using Nat.strongRecOn generalizing text with
  | _ n ih =>
    unfold SyntheticRows.writeAll
    split
    · rename_i hnil
      subst hnil
      exact pure Writes.nil
    · rename_i hne
      obtain ⟨b, rest, hb⟩ := List.exists_cons_of_ne_nil hne
      refine bind (write text) ?_
      rintro reply _ rfl
      split
      · exact pure (Writes.refused hne (by rw [hb]; rfl) rfl)
      · exact pure (Writes.refused hne (by rw [hb]; rfl) rfl)
      · rename_i count
        -- What is left to offer is shorter, so the induction is on the length.
        have hlt : (text.drop (count + 1)).length < n := by
          have := List.length_pos_iff.mpr hne
          simp only [List.length_drop]
          omega
        refine bind (ih _ hlt _ rfl) ?_
        rintro ⟨more, fault⟩ ks hrest
        refine pure ?_
        have := (Writes.took text count).append hrest
        rwa [List.take_append_drop, ← List.append_nil ks] at this

/-- Texts that are written one after the other are attempted as one text. -/
theorem writeEach (texts : List Bytes) :
    Adds (SyntheticRows.writeEach texts : StateM (Recording σ) (Nat × Option IoFault)) (Writes texts.flatten) := by
  induction texts with
  | nil => exact pure Writes.nil
  | cons text rest ih =>
    unfold SyntheticRows.writeEach
    refine bind (writeAll text) ?_
    rintro ⟨count, fault⟩ hs hfirst
    rw [List.flatten_cons]
    cases fault with
    | some fault =>
      refine pure ?_
      rw [List.append_nil]
      exact hfirst.stop
    | none =>
      refine bind ih ?_
      rintro ⟨more, fault⟩ ks hrest
      refine pure ?_
      rw [List.append_nil]
      exact hfirst.append hrest

end Adds
end Recording

end SyntheticRows
