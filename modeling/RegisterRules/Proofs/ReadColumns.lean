import Mathlib.Data.List.Induction
import Mathlib.Data.List.Nodup
import RegisterRules.Rule

/-!
# What the conditions of a rule read

Conditions name the same registers and columns time and again. A rule lists the registers that its
conditions read, and for any register the columns; the right side of a comparison does not count.
Each list holds what is read once, in the order in which one meets it when the conditions are gone
through from left to right (`ListsReadings`). There is only one such list.

## One condition more

Whether registers or the columns of one register are asked for, a condition reads one thing or
nothing. So the lists grow in one way only (`listsReadings_eraseDups`): a condition that reads
nothing, or what is listed already, leaves the list as it is, and anything new goes to its end,
where everything else has been read before it.

## Main definitions

* `Condition.ReadsRegister`, `Condition.ReadsColumn`: what a condition reads.
* `ReadBefore`, `ListsReadings`: the order of first readings, and the list of what is read.
* `Rule.readColumns`: every listed register with every column listed for it.

## Main results

* `ListsReadings.unique`: what the conditions read can be listed in one way only.
* `Rule.listsReadings_registers`, `Rule.listsReadings_columns`: the lists of a rule.
* `Rule.mem_readColumns_iff`, `Rule.nodup_readColumns`: every column read, each of them once.
* `Rule.registers_columns_exact`: the lists are the only such ones, and what they name together.
-/

namespace RegisterRules

namespace Condition

/-- A condition reads the register of its left side. -/
def ReadsRegister (c : Condition) (code : String) : Prop := c.cell.code = code

/-- A condition reads the column on its left side if it is a column of the given register. -/
def ReadsColumn (code : String) (c : Condition) (column : UInt32) : Prop :=
  c.cell.code = code ∧ c.cell.column = column

end Condition

/-! ### Lists of what is read -/

section

variable {α : Type} {reads : Condition → α → Prop} {conditions : List Condition}
  {listed other : List α} {a b : α} {c : Condition}

/-- `a` is read before `b` is: some conditions at the beginning read `a`, and none of them `b`. -/
def ReadBefore (reads : Condition → α → Prop) (conditions : List Condition) (a b : α) : Prop :=
  ∃ beginning, beginning <+: conditions ∧ (∃ c ∈ beginning, reads c a) ∧
    ∀ c ∈ beginning, ¬ reads c b

/-- `listed` holds everything that the conditions read and nothing else, each thing once, in the
order in which it is first read. -/
structure ListsReadings (reads : Condition → α → Prop) (conditions : List Condition)
    (listed : List α) : Prop where
  nodup : listed.Nodup
  mem_iff : ∀ a, a ∈ listed ↔ ∃ c ∈ conditions, reads c a
  ordered : listed.Pairwise (ReadBefore reads conditions)

theorem ReadBefore.append (h : ReadBefore reads conditions a b) (more : List Condition) :
    ReadBefore reads (conditions ++ more) a b := by
  obtain ⟨beginning, hprefix, hreads⟩ := h
  exact ⟨beginning, hprefix.trans (List.prefix_append ..), hreads⟩

/-- Of two beginnings one is the longer, so the order of first readings is strict. -/
theorem ReadBefore.asymm (h : ReadBefore reads conditions a b) :
    ¬ ReadBefore reads conditions b a := by
  obtain ⟨first, hfirst, ⟨c, hc, hca⟩, hnone⟩ := h
  rintro ⟨second, hsecond, ⟨d, hd, hdb⟩, hnone'⟩
  rcases List.prefix_or_prefix_of_prefix hfirst hsecond with hle | hle
  · exact hnone' c (hle.subset hc) hca
  · exact hnone d (hle.subset hd) hdb

namespace ListsReadings

/-- What the conditions read can be listed in one way only. -/
theorem unique (h : ListsReadings reads conditions listed)
    (h' : ListsReadings reads conditions other) : listed = other := by
  have hperm : listed.Perm other := (List.perm_ext_iff_of_nodup h.nodup h'.nodup).mpr fun a =>
    (h.mem_iff a).trans (h'.mem_iff a).symm
  exact hperm.eq_of_pairwise (fun _ _ _ _ hab hba => absurd hba hab.asymm) h.ordered h'.ordered

theorem eq_nil_iff (h : ListsReadings reads conditions listed) :
    listed = [] ↔ ∀ c ∈ conditions, ∀ a, ¬ reads c a := by
  rw [List.eq_nil_iff_forall_not_mem]
  constructor
  · intro hnone c hc a hread
    exact hnone a ((h.mem_iff a).mpr ⟨c, hc, hread⟩)
  · intro hnone a ha
    obtain ⟨c, hc, hread⟩ := (h.mem_iff a).mp ha
    exact hnone c hc a hread

/-- A condition that reads nothing new leaves the list as it is. -/
theorem concat_of_listed (h : ListsReadings reads conditions listed)
    (hc : ∀ a, reads c a → a ∈ listed) : ListsReadings reads (conditions ++ [c]) listed where
  nodup := h.nodup
  mem_iff a := by
    rw [h.mem_iff a]
    constructor
    · rintro ⟨d, hd, hread⟩
      exact ⟨d, List.mem_append_left _ hd, hread⟩
    · rintro ⟨d, hd, hread⟩
      rcases List.mem_append.mp hd with hd | hd
      · exact ⟨d, hd, hread⟩
      · obtain rfl := List.mem_singleton.mp hd
        exact (h.mem_iff a).mp (hc a hread)
  ordered := h.ordered.imp fun hab => hab.append _

/-- What is read for the first time goes to the end of the list. -/
theorem concat_of_new (h : ListsReadings reads conditions listed)
    (hc : ∀ b, reads c b ↔ b = a) (hnew : a ∉ listed) :
    ListsReadings reads (conditions ++ [c]) (listed ++ [a]) where
  nodup := by
    refine List.nodup_append.mpr ⟨h.nodup, List.nodup_singleton a, fun b hb d hd => ?_⟩
    rw [List.mem_singleton.mp hd]
    exact ne_of_mem_of_not_mem hb hnew
  mem_iff b := by simp [h.mem_iff b, hc, or_and_right, exists_or]
  ordered := by
    -- the conditions so far read all that is listed, and not yet the new one
    have hunread : ∀ d ∈ conditions, ¬ reads d a := fun d hd hread =>
      hnew ((h.mem_iff a).mpr ⟨d, hd, hread⟩)
    have hbefore : ∀ b ∈ listed, ReadBefore reads (conditions ++ [c]) b a := fun b hb =>
      ⟨conditions, List.prefix_append .., (h.mem_iff b).mp hb, hunread⟩
    refine List.pairwise_append.mpr ⟨h.ordered.imp fun hab => hab.append _,
      List.pairwise_singleton .., fun b hb d hd => ?_⟩
    rw [List.mem_singleton.mp hd]
    exact hbefore b hb

end ListsReadings

/-- Going through the conditions and dropping what was met before lists what they read. -/
theorem listsReadings_eraseDups [BEq α] [LawfulBEq α] {read : Condition → Option α}
    (hread : ∀ c a, reads c a ↔ read c = some a) (conditions : List Condition) :
    ListsReadings reads conditions (conditions.filterMap read).eraseDups := by
  induction conditions using List.reverseRecOn with
  | nil => exact ⟨List.nodup_nil, by simp, List.Pairwise.nil⟩
  | append_singleton conditions c ih =>
    rw [List.filterMap_append, List.eraseDups_append]
    cases hc : read c with
    | none =>
      have hnothing : ∀ a, ¬ reads c a := by simp [hread, hc]
      simpa [hc, List.removeAll] using ih.concat_of_listed fun a ha => absurd ha (hnothing a)
    | some a =>
      have honly : ∀ b, reads c b ↔ b = a := by simp [hread, hc, eq_comm]
      by_cases hmem : a ∈ conditions.filterMap read
      · have hold := ih.concat_of_listed (c := c) fun b hb => by
          rw [(honly b).mp hb]
          exact List.mem_eraseDups.mpr hmem
        simpa [hc, List.removeAll, hmem] using hold
      · have hnew := ih.concat_of_new honly fun h => hmem (List.mem_eraseDups.mp h)
        simpa [hc, List.removeAll, hmem, List.eraseDups_cons] using hnew

end

/-! ### The lists of a rule -/

namespace Rule

/-- The registers that the conditions read. -/
theorem listsReadings_registers (r : Rule) :
    ListsReadings Condition.ReadsRegister r.conditions r.registers := by
  have hread : ∀ c code, Condition.ReadsRegister c code ↔
      (some ∘ fun c : Condition => c.cell.code) c = some code := by simp [Condition.ReadsRegister]
  rw [registers, ← List.filterMap_eq_map]
  exact listsReadings_eraseDups hread r.conditions

/-- The columns of a register that the conditions read. -/
theorem listsReadings_columns (r : Rule) (code : String) :
    ListsReadings (Condition.ReadsColumn code) r.conditions (r.columns code) := by
  rw [columns, ← List.filterMap_eq_map, List.filterMap_filter]
  exact listsReadings_eraseDups (by simp [Condition.ReadsColumn]) r.conditions

/-- The columns that the conditions read, with their registers: every listed register with every
column listed for it. -/
def readColumns (r : Rule) : List (String × UInt32) :=
  r.registers.flatMap fun code => (r.columns code).map fun column => (code, column)

theorem mem_readColumns_iff (r : Rule) (code : String) (column : UInt32) :
    (code, column) ∈ r.readColumns ↔ ∃ c ∈ r.conditions, c.cell.code = code ∧
      c.cell.column = column := by
  have hcolumn := (r.listsReadings_columns code).mem_iff column
  have hpair : (code, column) ∈ r.readColumns ↔ code ∈ r.registers ∧ column ∈ r.columns code := by
    simp [readColumns]
  rw [hpair, hcolumn]
  refine ⟨fun h => h.2, fun h => ⟨?_, h⟩⟩
  obtain ⟨c, hc, hcode, -⟩ := h
  exact ((r.listsReadings_registers).mem_iff code).mpr ⟨c, hc, hcode⟩

theorem nodup_readColumns (r : Rule) : r.readColumns.Nodup := by
  refine List.nodup_flatMap.mpr ⟨fun code _ => ?_, ?_⟩
  · exact (r.listsReadings_columns code).nodup.map fun _ _ h => (Prod.mk.inj h).2
  · refine r.listsReadings_registers.nodup.imp fun {code code'} hne => ?_
    simp [Function.onFun, List.disjoint_left, hne.symm]

/-- The registers of a rule, and the columns of any register, are the one list of what the
conditions read, each once and in the order of the first readings; the columns are none only if no
condition reads the register. Taken together, they name every register and column that a condition
reads, and each of them once. -/
theorem registers_columns_exact (r : Rule) :
    (∀ listed, ListsReadings Condition.ReadsRegister r.conditions listed ↔
      listed = r.registers) ∧
    (∀ code,
      (∀ listed, ListsReadings (Condition.ReadsColumn code) r.conditions listed ↔
        listed = r.columns code) ∧
      (r.columns code = [] ↔ ∀ c ∈ r.conditions, c.cell.code ≠ code)) ∧
    r.readColumns.Nodup ∧
    ∀ code column, (code, column) ∈ r.readColumns ↔
      ∃ c ∈ r.conditions, c.cell.code = code ∧ c.cell.column = column := by
  refine ⟨fun listed => ?_, fun code => ⟨fun listed => ?_, ?_⟩, r.nodup_readColumns,
    r.mem_readColumns_iff⟩
  · refine ⟨fun h => h.unique r.listsReadings_registers, ?_⟩
    rintro rfl
    exact r.listsReadings_registers
  · refine ⟨fun h => h.unique (r.listsReadings_columns code), ?_⟩
    rintro rfl
    exact r.listsReadings_columns code
  · simp [(r.listsReadings_columns code).eq_nil_iff, Condition.ReadsColumn]

end Rule

end RegisterRules
