import RegisterRules.Proofs.Lexemes

/-!
# Expressions are read in one way only

Two expressions with the same text are the same up to brackets. With brackets wherever they are
needed, an expression is determined by its lexemes, also if others follow, as long as these do not
go on with it.

Two kinds of expressions go on to the right without an end: methods are called on what stands to
their left, and so are operators. Each is taken apart into a row. A receiver is a base with calls
behind it, and an expression is a unit with operators and units behind it. The lexemes determine the
rows. The row of calls is the receiver. In a row of units, the last of the loosest operators is the
root: what stands to the left of the root binds as tightly, what stands to the right binds tighter.

## Main definitions

* `Procedure.Expr.Position`: an expression as a whole, as a unit between operators, or as a base in
  front of methods, and what may follow in each case.
* `Procedure.Expr.Determined`: an expression is determined by its lexemes.
* `Procedure.Expr.units`, `Procedure.Expr.calls`: the two rows.

## Main results

* `Procedure.Expr.eq_of_units_eq`: the row of units determines the expression.
* `Procedure.Expr.Bracketed.resolved`: the lexemes determine the expression.
* `Procedure.Expr.render_unambiguous`: the text determines the expression up to brackets.
-/

namespace RegisterRules

namespace Procedure

namespace Expr

/-! ### Positions -/

/-- Where an expression stands. -/
inductive Position where
  /-- On its own, as an argument or in brackets. -/
  | whole
  /-- Between operators. -/
  | unit
  /-- In front of the methods that are called on it. -/
  | base
deriving DecidableEq

/-- The expressions that can stand at a position. -/
def Position.admits : Position → Expr → Bool
  | .whole, _ => true
  | .unit, e => !e.isOpen
  | .base, .var _ | .base, .call .. | .base, .group _ => true
  | .base, _ => false

/-- The lexemes that can follow an expression at a position. -/
def Position.stops : Position → Lexeme → Bool
  | _, .closing | _, .comma => true
  | .whole, _ => false
  | _, .arrow | _, .operator _ => true
  | .base, .dot => true
  | _, _ => false

/-- A sequence can follow an expression at a position. -/
def Position.StopsAt (p : Position) (tail : List Lexeme) : Prop :=
  ∀ a ∈ tail.head?, p.stops a = true

@[simp] theorem Position.stopsAt_cons (p : Position) (a : Lexeme) (tail : List Lexeme) :
    p.StopsAt (a :: tail) ↔ p.stops a = true := by
  simp [Position.StopsAt]

theorem Position.StopsAt.of_whole {tail : List Lexeme} (h : Position.whole.StopsAt tail)
    (p : Position) : p.StopsAt tail := by
  intro a ha
  have hstop := h a ha
  cases a <;> first | rfl | cases hstop

theorem Position.StopsAt.base_of_unit {tail : List Lexeme} (h : Position.unit.StopsAt tail) :
    Position.base.StopsAt tail := by
  intro a ha
  have hstop := h a ha
  cases a <;> first | rfl | cases hstop

/-- An expression is determined by its lexemes at a position, whatever follows. -/
def Determined (p : Position) (e : Expr) : Prop :=
  ∀ f, Bracketed f → p.admits f = true → ∀ tail tail', p.StopsAt tail → p.StopsAt tail' →
    e.lexemes ++ tail = f.lexemes ++ tail' → e = f ∧ tail = tail'

/-! ### First lexemes -/

/-- The first lexeme of an expression. -/
def lead : Expr → Lexeme
  | .literal value => .literal value
  | .var name => .word name
  | .call function _ => .word function
  | .invoke receiver _ _ => receiver.lead
  | .create _ => .new
  | .lambda param _ => .word param
  | .binary left _ _ => left.lead
  | .group _ => .opening
  | .not _ => .bang

theorem exists_lexemes_eq : ∀ e : Expr, ∃ rest, e.lexemes = e.lead :: rest
  | .literal _ | .var _ | .call .. | .create _ | .lambda .. | .group _ | .not _ => ⟨_, rfl⟩
  | .invoke receiver method args => by
    obtain ⟨rest, hrest⟩ := exists_lexemes_eq receiver
    exact ⟨_, by rw [lexemes, hrest, List.cons_append]; rfl⟩
  | .binary left op right => by
    obtain ⟨rest, hrest⟩ := exists_lexemes_eq left
    exact ⟨_, by rw [lexemes, hrest, List.cons_append]; rfl⟩

theorem lead_eq_lead {e f : Expr} {tail tail' : List Lexeme}
    (h : e.lexemes ++ tail = f.lexemes ++ tail') : e.lead = f.lead := by
  obtain ⟨rest, hrest⟩ := exists_lexemes_eq e
  obtain ⟨rest', hrest'⟩ := exists_lexemes_eq f
  rw [hrest, hrest'] at h
  exact (List.cons_eq_cons.mp h).1

/-- No expression starts like what may follow one. -/
theorem stops_lead (p : Position) : ∀ e : Expr, p.stops e.lead = false
  | .literal _ | .var _ | .call .. | .create _ | .lambda .. | .group _ | .not _ => by
    cases p <;> rfl
  | .invoke receiver _ _ => stops_lead p receiver
  | .binary left _ _ => stops_lead p left

/-- A receiver starts with a name or a bracket. -/
theorem Bracketed.lead_of_isReceiver {e : Expr} (h : Bracketed e)
    (hreceiver : e.isReceiver = true) :
    (∃ name, e.lead = .word name) ∨ e.lead = .opening := by
  induction h with
  | var | call => exact .inl ⟨_, rfl⟩
  | invoke hcallable _ _ _ ih => exact ih hcallable
  | group => exact .inr rfl
  | literal | create | lambda | binary | not => cases hreceiver

/-- A unit is a receiver, a literal, a new object or a negation. -/
theorem Bracketed.unit_cases {e : Expr} (h : Bracketed e) (hunit : e.isOpen = false) :
    (e.isReceiver = true ∧ ((∃ name, e.lead = .word name) ∨ e.lead = .opening)) ∨
      (∃ value, e = .literal value) ∨ (∃ type, e = .create type) ∨
      ∃ inner, e = .not inner ∧ Bracketed inner ∧ inner.isOpen = false := by
  by_cases hreceiver : e.isReceiver = true
  · exact .inl ⟨hreceiver, h.lead_of_isReceiver hreceiver⟩
  · cases h with
    | literal value => exact .inr (.inl ⟨value, rfl⟩)
    | create => exact .inr (.inr (.inl ⟨_, rfl⟩))
    | not hinner hclosed => exact .inr (.inr (.inr ⟨_, rfl, hinner, hclosed⟩))
    | var | call | invoke | group => exact absurd rfl hreceiver
    | lambda | binary => cases hunit

/-! ### Arguments -/

theorem stopsAt_moreArgLexemes (args : List Expr) (tail : List Lexeme) :
    Position.whole.StopsAt (moreArgLexemes args ++ .closing :: tail) := by
  cases args with
  | nil => simp [moreArgLexemes, Position.stops]
  | cons arg args => simp [moreArgLexemes, Position.stops]

theorem moreArgLexemes_inj {args args' : List Expr} (hargs : ∀ arg ∈ args, Determined .whole arg)
    (hargs' : ∀ arg ∈ args', Bracketed arg) {tail tail' : List Lexeme}
    (h : moreArgLexemes args ++ .closing :: tail = moreArgLexemes args' ++ .closing :: tail') :
    args = args' ∧ tail = tail' := by
  induction args generalizing args' with
  | nil =>
    cases args' with
    | nil => simpa [moreArgLexemes] using h
    | cons arg' args' => simp [moreArgLexemes] at h
  | cons arg args ih =>
    cases args' with
    | nil => simp [moreArgLexemes] at h
    | cons arg' args' =>
      obtain ⟨harg, hmore⟩ := List.forall_mem_cons.mp hargs
      obtain ⟨harg', hmore'⟩ := List.forall_mem_cons.mp hargs'
      simp only [moreArgLexemes, List.cons_append, List.append_assoc, List.cons.injEq,
        true_and] at h
      obtain ⟨rfl, hrest⟩ := harg arg' harg' rfl _ _ (stopsAt_moreArgLexemes _ _)
        (stopsAt_moreArgLexemes _ _) h
      obtain ⟨rfl, htail⟩ := ih hmore hmore' hrest
      exact ⟨rfl, htail⟩

/-- Arguments are determined up to the bracket that closes them. -/
theorem argLexemes_inj {args args' : List Expr} (hargs : ∀ arg ∈ args, Determined .whole arg)
    (hargs' : ∀ arg ∈ args', Bracketed arg) {tail tail' : List Lexeme}
    (h : argLexemes args ++ .closing :: tail = argLexemes args' ++ .closing :: tail') :
    args = args' ∧ tail = tail' := by
  -- no argument starts with the bracket
  have hne : ∀ (arg : Expr) (rest tail : List Lexeme), .closing :: tail ≠ arg.lexemes ++ rest := by
    intro arg rest tail heq
    obtain ⟨more, hmore⟩ := exists_lexemes_eq arg
    rw [hmore, List.cons_append, List.cons.injEq] at heq
    have hlead := stops_lead .whole arg
    rw [← heq.1] at hlead
    cases hlead
  cases args with
  | nil =>
    cases args' with
    | nil => simpa [argLexemes] using h
    | cons arg' args' =>
      rw [argLexemes, argLexemes, List.append_assoc] at h
      exact absurd h (hne _ _ _)
  | cons arg args =>
    cases args' with
    | nil =>
      rw [argLexemes, argLexemes, List.append_assoc] at h
      exact absurd h.symm (hne _ _ _)
    | cons arg' args' =>
      obtain ⟨harg, hmore⟩ := List.forall_mem_cons.mp hargs
      obtain ⟨harg', hmore'⟩ := List.forall_mem_cons.mp hargs'
      rw [argLexemes, argLexemes, List.append_assoc, List.append_assoc] at h
      obtain ⟨rfl, hrest⟩ := harg arg' harg' rfl _ _ (stopsAt_moreArgLexemes _ _)
        (stopsAt_moreArgLexemes _ _) h
      obtain ⟨rfl, htail⟩ := moreArgLexemes_inj hmore hmore' hrest
      exact ⟨rfl, htail⟩

/-! ### Receivers: a base and the calls on it -/

/-- The base of a receiver and the methods called on it, with their arguments. -/
def calls : Expr → Expr × List (String × List Expr)
  | .invoke receiver method args => (receiver.calls.1, receiver.calls.2 ++ [(method, args)])
  | e => (e, [])

/-- The lexemes of calls of methods. -/
def callLexemes (calls : List (String × List Expr)) : List Lexeme :=
  calls.flatMap fun call =>
    .dot :: .word call.1 :: .opening :: (argLexemes call.2 ++ [.closing])

theorem lexemes_eq_calls : ∀ e : Expr, e.lexemes = e.calls.1.lexemes ++ callLexemes e.calls.2
  | .invoke receiver method args => by
    rw [lexemes, lexemes_eq_calls receiver]
    simp [calls, callLexemes]
  | .literal _ | .var _ | .call .. | .create _ | .lambda .. | .binary .. | .group _ | .not _ => by
    simp [calls, callLexemes]

/-- Calling the methods on the base one after the other gives the receiver back. -/
theorem foldl_calls :
    ∀ e : Expr, e.calls.2.foldl (fun receiver call => .invoke receiver call.1 call.2) e.calls.1 = e
  | .invoke receiver method args => by
    rw [calls, List.foldl_append, foldl_calls receiver]
    rfl
  | .literal _ | .var _ | .call .. | .create _ | .lambda .. | .binary .. | .group _ | .not _ => rfl

/-- The row of calls determines the receiver. -/
theorem eq_of_calls_eq {e f : Expr} (h : e.calls = f.calls) : e = f := by
  rw [← foldl_calls e, h, foldl_calls f]

/-- A receiver has a base, and all its parts have their brackets. -/
theorem Bracketed.calls {e : Expr} (h : Bracketed e) (hreceiver : e.isReceiver = true) :
    Bracketed e.calls.1 ∧ Position.base.admits e.calls.1 = true ∧
      ∀ call ∈ e.calls.2, ∀ arg ∈ call.2, Bracketed arg := by
  induction h with
  | var hname => exact ⟨.var hname, rfl, by simp [Expr.calls]⟩
  | call hname hargs => exact ⟨.call hname hargs, rfl, by simp [Expr.calls]⟩
  | group hinner => exact ⟨.group hinner, rfl, by simp [Expr.calls]⟩
  | invoke hcallable _ _ hargs ih =>
    obtain ⟨hbase, hadmits, hcalls⟩ := ih hcallable
    exact ⟨hbase, hadmits, List.forall_mem_append.mpr ⟨hcalls, by simpa using hargs⟩⟩
  | literal | create | lambda | binary | not => cases hreceiver

theorem stopsAt_callLexemes (calls : List (String × List Expr)) {tail : List Lexeme}
    (htail : Position.unit.StopsAt tail) : Position.base.StopsAt (callLexemes calls ++ tail) := by
  cases calls with
  | nil => exact htail.base_of_unit
  | cons call calls => simp [callLexemes, Position.stops]

/-- Calls are determined together with what they are called on. -/
theorem callLexemes_inj {calls calls' : List (String × List Expr)}
    (hcalls : ∀ call ∈ calls, ∀ arg ∈ call.2, Determined .whole arg)
    (hcalls' : ∀ call ∈ calls', ∀ arg ∈ call.2, Bracketed arg) {tail tail' : List Lexeme}
    (htail : Position.unit.StopsAt tail) (htail' : Position.unit.StopsAt tail')
    (h : callLexemes calls ++ tail = callLexemes calls' ++ tail') :
    calls = calls' ∧ tail = tail' := by
  -- a tail does not start with another call
  have hne : ∀ {tail : List Lexeme} (rest : List Lexeme), Position.unit.StopsAt tail →
      tail ≠ .dot :: rest := by
    rintro _ rest hstops rfl
    simp [Position.stops] at hstops
  induction calls generalizing calls' with
  | nil =>
    cases calls' with
    | nil => exact ⟨rfl, h⟩
    | cons call' calls' => exact absurd h (hne _ htail)
  | cons call calls ih =>
    cases calls' with
    | nil => exact absurd h.symm (hne _ htail')
    | cons call' calls' =>
      obtain ⟨method, args⟩ := call
      obtain ⟨method', args'⟩ := call'
      obtain ⟨hargs, hmore⟩ := List.forall_mem_cons.mp hcalls
      obtain ⟨hargs', hmore'⟩ := List.forall_mem_cons.mp hcalls'
      simp only [callLexemes, List.flatMap_cons, List.cons_append, List.append_assoc,
        List.nil_append, List.cons.injEq, Lexeme.word.injEq, true_and] at h
      obtain ⟨rfl, h⟩ := h
      obtain ⟨rfl, hrest⟩ := argLexemes_inj hargs hargs' h
      obtain ⟨rfl, htails⟩ := ih hmore hmore' hrest
      exact ⟨rfl, htails⟩

/-- A receiver is determined as a unit if its base and all arguments are. -/
theorem determined_of_calls {e : Expr} (h : Bracketed e) (hreceiver : e.isReceiver = true)
    (hbase : Determined .base e.calls.1)
    (hcalls : ∀ call ∈ e.calls.2, ∀ arg ∈ call.2, Determined .whole arg) :
    Determined .unit e := by
  intro f hf hunit tail tail' htail htail' heq
  have hlead := lead_eq_lead heq
  have hstart := h.lead_of_isReceiver hreceiver
  rw [hlead] at hstart
  obtain ⟨hreceiver', -⟩ | ⟨value, rfl⟩ | ⟨type, rfl⟩ | ⟨inner, rfl, -, -⟩ :=
    hf.unit_cases (by simpa [Position.admits] using hunit)
  · obtain ⟨hbase', hadmits', hcalls'⟩ := hf.calls hreceiver'
    rw [lexemes_eq_calls e, lexemes_eq_calls f, List.append_assoc, List.append_assoc] at heq
    obtain ⟨hbases, hrest⟩ := hbase _ hbase' hadmits' _ _ (stopsAt_callLexemes _ htail)
      (stopsAt_callLexemes _ htail') heq
    obtain ⟨hrows, htails⟩ := callLexemes_inj hcalls hcalls' htail htail' hrest
    exact ⟨eq_of_calls_eq (Prod.ext hbases hrows), htails⟩
  -- nothing else starts with a name or a bracket
  all_goals simp [lead] at hstart

/-! ### Units and the operators between them -/

/-- Whether an expression is a lambda. -/
def isLambda : Expr → Bool
  | .lambda .. => true
  | _ => false

theorem isLambda_of_needsGroup {tooLoose : ℕ → Bool} {e : Expr}
    (h : e.needsGroup tooLoose = false) : e.isLambda = false := by
  cases e with
  | lambda => cases h
  | _ => rfl

theorem isLambda_of_isOpen {e : Expr} (h : e.isOpen = false) : e.isLambda = false := by
  cases e with
  | lambda => cases h
  | _ => rfl

/-- The first unit of an expression, and the others with the operators in front of them. -/
def units : Expr → Expr × List (Infix × Expr)
  | .binary left op right => (left.units.1, left.units.2 ++ (op, right.units.1) :: right.units.2)
  | e => (e, [])

theorem units_of_isOpen {e : Expr} (h : e.isOpen = false) : e.units = (e, []) := by
  cases e with
  | binary => cases h
  | _ => rfl

/-- The lexemes of units with the operators in front of them. -/
def unitLexemes (units : List (Infix × Expr)) : List Lexeme :=
  units.flatMap fun unit => .operator unit.1 :: unit.2.lexemes

theorem lexemes_eq_units : ∀ e : Expr, e.lexemes = e.units.1.lexemes ++ unitLexemes e.units.2
  | .binary left op right => by
    rw [lexemes, lexemes_eq_units left, lexemes_eq_units right]
    simp [units, unitLexemes]
  | .literal _ | .var _ | .call .. | .invoke .. | .create _ | .lambda .. | .group _ | .not _ => by
    simp [units, unitLexemes]

/-- The units of an expression are units, and they have their brackets. -/
theorem Bracketed.units {e : Expr} (h : Bracketed e) (hlambda : e.isLambda = false) :
    (Bracketed e.units.1 ∧ e.units.1.isOpen = false) ∧
      ∀ unit ∈ e.units.2, Bracketed unit.2 ∧ unit.2.isOpen = false := by
  induction h with
  | binary _ htight _ _ htighter ihleft ihright =>
    obtain ⟨hfirst, hleft⟩ := ihleft (isLambda_of_needsGroup htight)
    obtain ⟨hnext, hright⟩ := ihright (isLambda_of_needsGroup htighter)
    exact ⟨hfirst, List.forall_mem_append.mpr ⟨hleft, List.forall_mem_cons.mpr ⟨hnext, hright⟩⟩⟩
  | literal value => exact ⟨⟨.literal value, rfl⟩, by simp [Expr.units]⟩
  | var hname => exact ⟨⟨.var hname, rfl⟩, by simp [Expr.units]⟩
  | call hname hargs => exact ⟨⟨.call hname hargs, rfl⟩, by simp [Expr.units]⟩
  | invoke hcallable hon hname hargs =>
    exact ⟨⟨.invoke hcallable hon hname hargs, rfl⟩, by simp [Expr.units]⟩
  | create hname => exact ⟨⟨.create hname, rfl⟩, by simp [Expr.units]⟩
  | group hinner => exact ⟨⟨.group hinner, rfl⟩, by simp [Expr.units]⟩
  | not hinner hclosed => exact ⟨⟨.not hinner hclosed, rfl⟩, by simp [Expr.units]⟩
  | lambda => cases hlambda

/-- No operator of an operand without brackets binds looser than it may. -/
theorem Bracketed.strength_le {e : Expr} (h : Bracketed e) {bound : ℕ}
    (hneeds : e.needsGroup (· < bound) = false) : ∀ unit ∈ e.units.2, bound ≤ unit.1.strength := by
  induction h generalizing bound with
  | @binary left right op _ htight _ _ htighter ihleft ihright =>
    have hop : bound ≤ op.strength := by simpa [needsGroup] using hneeds
    have hright : right.needsGroup (· < op.strength + 1) = false := by
      simpa only [Nat.lt_succ_iff] using htighter
    refine List.forall_mem_append.mpr ⟨fun unit hunit => ?_, List.forall_mem_cons.mpr ⟨hop, ?_⟩⟩
    · exact Nat.le_trans hop (ihleft htight unit hunit)
    · intro unit hunit
      have hstrength := ihright hright unit hunit
      omega
  | _ => simp [Expr.units]

/-- A row has one last place where a measure is least. -/
theorem append_cons_inj_of_least {α : Type} (measure : α → ℕ) {before before' after after' : List α}
    {x x' : α} (hbefore : ∀ y ∈ before, measure x ≤ measure y)
    (hafter : ∀ y ∈ after, measure x < measure y)
    (hbefore' : ∀ y ∈ before', measure x' ≤ measure y)
    (hafter' : ∀ y ∈ after', measure x' < measure y)
    (h : before ++ x :: after = before' ++ x' :: after') :
    before = before' ∧ x = x' ∧ after = after' := by
  rw [List.append_eq_append_iff] at h
  obtain ⟨middle, hsplit, hrest⟩ | ⟨middle, hsplit, hrest⟩ := h
  · cases middle with
    | nil => simpa [eq_comm] using And.intro hsplit hrest
    | cons y middle =>
      obtain ⟨rfl, hafterEq⟩ := List.cons_eq_cons.mp hrest
      have hle := hbefore' x (by simp [hsplit])
      have hlt := hafter x' (by simp [hafterEq])
      omega
  · cases middle with
    | nil => simpa [eq_comm] using And.intro hsplit hrest
    | cons y middle =>
      obtain ⟨rfl, hafterEq⟩ := List.cons_eq_cons.mp hrest
      have hle := hbefore x' (by simp [hsplit])
      have hlt := hafter' x (by simp [hafterEq])
      omega

theorem units_cases (e : Expr) :
    (∃ left op right, e = .binary left op right) ∨ e.units = (e, []) := by
  cases e with
  | binary left op right => exact .inl ⟨left, op, right, rfl⟩
  | _ => exact .inr rfl

/-- An operator is the last of the loosest ones of its row. -/
theorem Bracketed.least_root {left right : Expr} {op : Infix}
    (h : Bracketed (.binary left op right)) :
    (∀ unit ∈ left.units.2, op.strength ≤ unit.1.strength) ∧
      ∀ unit ∈ right.units.2, op.strength < unit.1.strength := by
  cases h with
  | binary hleft htight _ hright htighter =>
    have hneeds : right.needsGroup (· < op.strength + 1) = false := by
      simpa only [Nat.lt_succ_iff] using htighter
    exact ⟨hleft.strength_le htight, hright.strength_le hneeds⟩

/-- **The row of units determines the expression.** -/
theorem eq_of_units_eq {e f : Expr} (he : Bracketed e) (hf : Bracketed f) (h : e.units = f.units) :
    e = f := by
  induction he generalizing f with
  | @binary left right op hleft htight hknown hright htighter ihleft ihright =>
    obtain ⟨left', op', right', rfl⟩ | hunit := f.units_cases
    · have hroot := (Bracketed.binary hleft htight hknown hright htighter).least_root
      have hroot' := hf.least_root
      obtain ⟨hfirst, hrow⟩ := Prod.mk.inj h
      obtain ⟨hbefore, hmiddle, hafter⟩ :=
        append_cons_inj_of_least (fun unit : Infix × Expr => unit.1.strength)
          hroot.1 hroot.2 hroot'.1 hroot'.2 hrow
      obtain ⟨rfl, hnext⟩ := Prod.mk.inj hmiddle
      cases hf with
      | binary hleft' _ _ hright' _ =>
        rw [ihleft hleft' (Prod.ext hfirst hbefore), ihright hright' (Prod.ext hnext hafter)]
    · rw [hunit, Expr.units] at h
      simp at h
  | _ =>
    obtain ⟨left', op', right', rfl⟩ | hunit := f.units_cases
    · simp [Expr.units] at h
    · rw [hunit] at h
      exact (Prod.mk.inj h).1

theorem stopsAt_unitLexemes (units : List (Infix × Expr)) {tail : List Lexeme}
    (htail : Position.whole.StopsAt tail) : Position.unit.StopsAt (unitLexemes units ++ tail) := by
  cases units with
  | nil => exact htail.of_whole .unit
  | cons unit units => simp [unitLexemes, Position.stops]

/-- A row of units is determined if its units are. -/
theorem unitLexemes_inj {first first' : Expr} {units units' : List (Infix × Expr)}
    (hfirst : Determined .unit first) (hunits : ∀ unit ∈ units, Determined .unit unit.2)
    (hfirst' : Bracketed first' ∧ first'.isOpen = false)
    (hunits' : ∀ unit ∈ units', Bracketed unit.2 ∧ unit.2.isOpen = false)
    {tail tail' : List Lexeme} (htail : Position.whole.StopsAt tail)
    (htail' : Position.whole.StopsAt tail')
    (h : first.lexemes ++ (unitLexemes units ++ tail) =
      first'.lexemes ++ (unitLexemes units' ++ tail')) :
    first = first' ∧ units = units' ∧ tail = tail' := by
  have hne : ∀ {tail : List Lexeme} (op : Infix) (rest : List Lexeme),
      Position.whole.StopsAt tail → tail ≠ .operator op :: rest := by
    rintro _ op rest hstops rfl
    simp [Position.stops] at hstops
  induction units generalizing first first' units' with
  | nil =>
    obtain ⟨rfl, hrest⟩ := hfirst first' hfirst'.1 (by simp [Position.admits, hfirst'.2]) _ _
      (stopsAt_unitLexemes _ htail) (stopsAt_unitLexemes _ htail') h
    cases units' with
    | nil => exact ⟨rfl, rfl, hrest⟩
    | cons unit' units' => exact absurd hrest (hne _ _ htail)
  | cons unit units ih =>
    obtain ⟨rfl, hrest⟩ := hfirst first' hfirst'.1 (by simp [Position.admits, hfirst'.2]) _ _
      (stopsAt_unitLexemes _ htail) (stopsAt_unitLexemes _ htail') h
    cases units' with
    | nil => exact absurd hrest.symm (hne _ _ htail')
    | cons unit' units' =>
      obtain ⟨hunit, hmore⟩ := List.forall_mem_cons.mp hunits
      obtain ⟨hunit', hmore'⟩ := List.forall_mem_cons.mp hunits'
      simp only [unitLexemes, List.flatMap_cons, List.cons_append, List.append_assoc,
        List.cons.injEq, Lexeme.operator.injEq] at hrest
      obtain ⟨hop, hrest⟩ := hrest
      obtain ⟨hnext, rfl, htails⟩ := ih hunit hmore hunit' hmore' hrest
      rw [Prod.ext hop hnext]
      exact ⟨rfl, rfl, htails⟩

theorem unitLexemes_ne_arrow (units : List (Infix × Expr)) {tail : List Lexeme}
    (htail : Position.whole.StopsAt tail) (rest : List Lexeme) :
    unitLexemes units ++ tail ≠ .arrow :: rest := by
  intro heq
  cases units with
  | nil =>
    obtain rfl : tail = .arrow :: rest := heq
    simp [Position.stops] at htail
  | cons unit units => simp [unitLexemes] at heq

/-- An expression is determined as a whole if its units are. -/
theorem determined_of_units {e : Expr} (he : Bracketed e)
    (hfirst : Determined .unit e.units.1) (hunits : ∀ unit ∈ e.units.2, Determined .unit unit.2) :
    Determined .whole e := by
  intro f hf _ tail tail' htail htail' heq
  rw [lexemes_eq_units e, List.append_assoc] at heq
  rcases hlambda' : f.isLambda with - | -
  · obtain ⟨hfirst', hunits'⟩ := hf.units hlambda'
    rw [lexemes_eq_units f, List.append_assoc] at heq
    obtain ⟨hfirsts, hrows, htails⟩ :=
      unitLexemes_inj hfirst hunits hfirst' hunits' htail htail' heq
    exact ⟨eq_of_units_eq he hf (Prod.ext hfirsts hrows), htails⟩
  · -- the first unit would be the parameter, with the arrow behind it
    cases hf with
    | @lambda param body hname _ =>
      obtain ⟨-, hrest⟩ := hfirst (.var param) (.var hname) rfl _
        (.arrow :: (body.lexemes ++ tail')) (stopsAt_unitLexemes _ htail)
        (by simp [Position.stops]) heq
      exact absurd hrest (unitLexemes_ne_arrow _ htail _)
    | _ => cases hlambda'

/-- A lambda is determined by its parameter and its body. -/
theorem determined_lambda {param : String} {body : Expr} (hparam : Determined .unit (.var param))
    (hbody : Determined .whole body) : Determined .whole (.lambda param body) := by
  intro f hf _ tail tail' htail htail' heq
  rcases hlambda' : f.isLambda with - | -
  · obtain ⟨⟨hfirst', hunit'⟩, -⟩ := hf.units hlambda'
    rw [lexemes_eq_units f, List.append_assoc] at heq
    obtain ⟨-, hrest⟩ := hparam f.units.1 hfirst' (by simp [Position.admits, hunit'])
      (.arrow :: (body.lexemes ++ tail)) _ (by simp [Position.stops])
      (stopsAt_unitLexemes _ htail') heq
    exact absurd hrest.symm (unitLexemes_ne_arrow _ htail' _)
  · cases hf with
    | @lambda param' body' _ hbody' =>
      simp only [lexemes, List.cons_append, List.cons.injEq, Lexeme.word.injEq, true_and] at heq
      obtain ⟨rfl, heq⟩ := heq
      obtain ⟨rfl, htails⟩ := hbody body' hbody' rfl _ _ htail htail' heq
      exact ⟨rfl, htails⟩
    | _ => cases hlambda'

/-! ### Units that are no receivers -/

theorem determined_literal (value : Value) : Determined .unit (.literal value) := by
  intro f hf hunit tail tail' _ _ heq
  have hlead := lead_eq_lead heq
  obtain ⟨-, ⟨name, hword⟩ | hopening⟩ | ⟨value', rfl⟩ | ⟨type, rfl⟩ | ⟨inner, rfl, -, -⟩ :=
    hf.unit_cases (by simpa [Position.admits] using hunit)
  · simp [lead, hword] at hlead
  · simp [lead, hopening] at hlead
  · simpa [lexemes] using heq
  · simp [lexemes] at heq
  · simp [lexemes] at heq

theorem determined_create (type : String) : Determined .unit (.create type) := by
  intro f hf hunit tail tail' _ _ heq
  have hlead := lead_eq_lead heq
  obtain ⟨-, ⟨name, hword⟩ | hopening⟩ | ⟨value', rfl⟩ | ⟨type, rfl⟩ | ⟨inner, rfl, -, -⟩ :=
    hf.unit_cases (by simpa [Position.admits] using hunit)
  · simp [lead, hword] at hlead
  · simp [lead, hopening] at hlead
  · simp [lexemes] at heq
  · simpa [lexemes] using heq
  · simp [lexemes] at heq

theorem determined_not {inner : Expr} (h : Determined .unit inner) :
    Determined .unit (.not inner) := by
  intro f hf hunit tail tail' htail htail' heq
  have hlead := lead_eq_lead heq
  obtain ⟨-, ⟨name, hword⟩ | hopening⟩ | ⟨value', rfl⟩ | ⟨type, rfl⟩ |
      ⟨inner', rfl, hinner', hclosed'⟩ :=
    hf.unit_cases (by simpa [Position.admits] using hunit)
  · simp [lead, hword] at hlead
  · simp [lead, hopening] at hlead
  · simp [lexemes] at heq
  · simp [lexemes] at heq
  · simp only [lexemes, List.cons_append, List.cons.injEq, true_and] at heq
    obtain ⟨rfl, htails⟩ :=
      h inner' hinner' (by simp [Position.admits, hclosed']) _ _ htail htail' heq
    exact ⟨rfl, htails⟩

/-! ### Bases -/

theorem determined_var (name : String) : Determined .base (.var name) := by
  intro f hf hbase tail tail' htail _ heq
  cases hf with
  | var => simpa [lexemes] using heq
  | call =>
    obtain ⟨-, rfl⟩ : _ ∧ tail = _ := by simpa [lexemes] using heq
    simp [Position.stops] at htail
  | group => simp [lexemes] at heq
  | _ => cases hbase

theorem determined_call {function : String} {args : List Expr}
    (hargs : ∀ arg ∈ args, Determined .whole arg) : Determined .base (.call function args) := by
  intro f hf hbase tail tail' _ htail' heq
  cases hf with
  | var =>
    obtain ⟨-, rfl⟩ : _ ∧ _ = tail' := by simpa [lexemes] using heq
    simp [Position.stops] at htail'
  | call _ hargs' =>
    simp only [lexemes, List.cons_append, List.append_assoc, List.nil_append, List.cons.injEq,
      Lexeme.word.injEq, true_and] at heq
    obtain ⟨rfl, heq⟩ := heq
    obtain ⟨rfl, htails⟩ := argLexemes_inj hargs hargs' heq
    exact ⟨rfl, htails⟩
  | group => simp [lexemes] at heq
  | _ => cases hbase

theorem determined_group {inner : Expr} (h : Determined .whole inner) :
    Determined .base (.group inner) := by
  intro f hf hbase tail tail' _ _ heq
  cases hf with
  | var | call => simp [lexemes] at heq
  | @group inner' hinner' =>
    simp only [lexemes, List.cons_append, List.append_assoc, List.nil_append, List.cons.injEq,
      true_and] at heq
    obtain ⟨rfl, htails⟩ := h inner' hinner' rfl _ _ (by simp [Position.stops])
      (by simp [Position.stops]) heq
    exact ⟨rfl, by simpa using htails⟩
  | _ => cases hbase

/-! ### The whole expression -/

/-- Everything of an expression is determined: the rows it is made of, and the expression itself. -/
structure Resolved (e : Expr) : Prop where
  whole : Determined .whole e
  units : e.isLambda = false →
    Determined .unit e.units.1 ∧ ∀ unit ∈ e.units.2, Determined .unit unit.2
  calls : e.isReceiver = true →
    Determined .base e.calls.1 ∧ ∀ call ∈ e.calls.2, ∀ arg ∈ call.2, Determined .whole arg

theorem Resolved.unit {e : Expr} (h : Resolved e) (hunit : e.isOpen = false) :
    Determined .unit e := by
  have hfirst := (h.units (isLambda_of_isOpen hunit)).1
  rwa [units_of_isOpen hunit] at hfirst

/-- A unit is resolved if it is determined as a unit and, as a receiver, by its calls. -/
theorem resolved_of_unit {e : Expr} (he : Bracketed e) (hopen : e.isOpen = false)
    (hunit : Determined .unit e)
    (hcalls : e.isReceiver = true →
      Determined .base e.calls.1 ∧ ∀ call ∈ e.calls.2, ∀ arg ∈ call.2, Determined .whole arg) :
    Resolved e := by
  have hunits : Determined .unit e.units.1 ∧ ∀ unit ∈ e.units.2, Determined .unit unit.2 := by
    rw [units_of_isOpen hopen]
    exact ⟨hunit, by simp⟩
  exact ⟨determined_of_units he hunits.1 hunits.2, fun _ => hunits, hcalls⟩

theorem resolved_of_calls {e : Expr} (he : Bracketed e) (hreceiver : e.isReceiver = true)
    (hbase : Determined .base e.calls.1)
    (hcalls : ∀ call ∈ e.calls.2, ∀ arg ∈ call.2, Determined .whole arg) : Resolved e := by
  have hopen : e.isOpen = false := by
    cases e with
    | lambda | binary => cases hreceiver
    | _ => rfl
  exact resolved_of_unit he hopen (determined_of_calls he hreceiver hbase hcalls)
    fun _ => ⟨hbase, hcalls⟩

/-- **The lexemes determine the expression.** By induction on the expression: the rows of its parts
are joined to its own. -/
theorem Bracketed.resolved {e : Expr} (h : Bracketed e) : Resolved e := by
  induction h with
  | literal value =>
    exact resolved_of_unit (.literal value) rfl (determined_literal value) (by simp [isReceiver])
  | @var name hname =>
    exact resolved_of_calls (.var hname) rfl (determined_var name) (by simp [Expr.calls])
  | call hname hargs ih =>
    exact resolved_of_calls (.call hname hargs) rfl
      (determined_call fun arg harg => (ih arg harg).whole) (by simp [Expr.calls])
  | @invoke receiver method args hcallable hon hname hargs ihreceiver ih =>
    obtain ⟨hbase, hcalls⟩ := ihreceiver.calls hcallable
    refine resolved_of_calls (.invoke hcallable hon hname hargs) rfl hbase ?_
    refine List.forall_mem_append.mpr ⟨hcalls, ?_⟩
    simpa using fun arg harg => (ih arg harg).whole
  | @create type hname =>
    exact resolved_of_unit (.create hname) rfl (determined_create type) (by simp [isReceiver])
  | @lambda param body hname hbody ih =>
    have hparam : Determined .unit (.var param) :=
      determined_of_calls (.var hname) rfl (determined_var param) (by simp [Expr.calls])
    exact ⟨determined_lambda hparam ih.whole, by simp [isLambda], by simp [isReceiver]⟩
  | @binary left right op hleft htight hknown hright htighter ihleft ihright =>
    obtain ⟨hfirst, hbefore⟩ := ihleft.units (isLambda_of_needsGroup htight)
    obtain ⟨hnext, hafter⟩ := ihright.units (isLambda_of_needsGroup htighter)
    have hunits : ∀ unit ∈ (Expr.binary left op right).units.2, Determined .unit unit.2 :=
      List.forall_mem_append.mpr ⟨hbefore, List.forall_mem_cons.mpr ⟨hnext, hafter⟩⟩
    exact ⟨determined_of_units (.binary hleft htight hknown hright htighter) hfirst hunits,
      fun _ => ⟨hfirst, hunits⟩, by simp [isReceiver]⟩
  | group hinner ih =>
    exact resolved_of_calls (.group hinner) rfl (determined_group ih.whole) (by simp [Expr.calls])
  | not hinner hclosed ih =>
    exact resolved_of_unit (.not hinner hclosed) rfl (determined_not (ih.unit hclosed))
      (by simp [isReceiver])

/-- **The brackets suffice.** Two plain expressions with the same text are the same up to
brackets. -/
theorem render_unambiguous {e f : Expr} (he : Plain e) (hf : Plain f) (h : e.render = f.render) :
    e.erase = f.erase := by
  have hlexemes := he.lexemes_eq hf h
  have hwhole := he.bracketed.resolved.whole
  obtain ⟨heq, -⟩ := hwhole f.withBrackets hf.bracketed rfl [] [] (by simp [Position.StopsAt])
    (by simp [Position.StopsAt]) (by rw [hlexemes])
  rw [← he.erase_withBrackets, ← hf.erase_withBrackets, heq]

/-- A test on rows with two differences, each wrapped in some way. -/
def wrappedDifferences (wrap : Expr → Expr) : Expr :=
  .invoke (.var "rows") "All" [.lambda "row" (.not (wrap
    (.binary (.var "row") .sub (wrap (.binary (.var "x") .sub (.literal (.text "\"")))))))]

/-- With and without brackets of its own the test has one text. -/
theorem render_unambiguous_wrappedDifferences :
    (wrappedDifferences id).render = (wrappedDifferences .group).render ∧
      (wrappedDifferences id).erase = (wrappedDifferences .group).erase := by
  have hplain : ∀ wrap : Expr → Expr, (∀ e, Plain e → Plain (wrap e)) →
      Plain (wrappedDifferences wrap) := by
    intro wrap hwrap
    have hinner : Plain (.binary (.var "x") .sub (.literal (.text "\""))) :=
      .binary (.var (by decide)) (by decide) (.literal _)
    have houter := Plain.binary (.var (by decide : IsName "row")) (by decide : .sub ∈ Infix.known)
      (hwrap _ hinner)
    exact .invoke rfl (.var (by decide)) (by decide)
      (by simpa using .lambda (by decide) (.not (hwrap _ houter)))
  have htext : (wrappedDifferences id).render = (wrappedDifferences .group).render := by decide
  exact ⟨htext,
    render_unambiguous (hplain id fun _ h => h) (hplain .group fun _ h => .group h) htext⟩

end Expr

end Procedure

end RegisterRules
