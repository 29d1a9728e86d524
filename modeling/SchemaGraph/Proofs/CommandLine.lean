import SchemaGraph.Command.Arguments
import Mathlib.Data.List.Basic

namespace SchemaGraph

namespace Flags

def none : Flags := ⟨.none, .none, false, false, false⟩

def project (config : String) : Flags := { none with config := some config }

end Flags

namespace Arguments

theorem toList_of_isOption {arg : String} (h : isOption arg = false) :
    arg.toList = [] ∨ arg.toList = ['-'] ∨ ∃ c cs, arg.toList = c :: cs ∧ c ≠ '-' := by
  unfold isOption at h
  cases hl : arg.toList with
  | nil => exact Or.inl rfl
  | cons c cs =>
      by_cases hc : c = '-'
      · subst hc
        cases cs with
        | nil => exact Or.inr (Or.inl rfl)
        | cons d ds => simp [hl] at h
      · exact Or.inr (Or.inr ⟨c, cs, rfl, hc⟩)

variable (known : List OptionName) (items : List Item)

theorem readItems_operand {arg : String} (h : isOption arg = false) (rest : List String) :
    readItems ⟨known, false⟩ items none (arg :: rest) =
      addOperand items arg >>= fun items => readItems ⟨known, false⟩ items none rest := by
  rw [readItems]
  rcases toList_of_isOption h with hl | hl | ⟨c, cs, hl, hc⟩
  · rw [hl]
    rfl
  · rw [hl]
    rfl
  · rw [hl]
    split
    · rename_i he
      exact absurd (List.cons.inj he).1 hc
    · rename_i he
      exact absurd (List.cons.inj he).1 hc
    · rename_i he
      exact absurd (List.cons.inj he).1 hc
    · rfl

theorem readItems_operands {paths : List String} (h : ∀ p ∈ paths, isOption p = false)
    (rest : List String) : readItems ⟨known, false⟩ items none (paths ++ rest) =
      if "" ∈ paths then .error (.misuse .emptyPath)
      else readItems ⟨known, false⟩ (items ++ paths.map .operand) none rest := by
  induction paths generalizing items with
  | nil => simp
  | cons p ps ih =>
      obtain ⟨hp, hps⟩ := List.forall_mem_cons.mp h
      rw [List.cons_append, readItems_operand known items hp, addOperand]
      by_cases he : p = ""
      · subst he
        rw [if_pos rfl, if_pos List.mem_cons_self]
        rfl
      · have hmem : "" ∈ p :: ps ↔ "" ∈ ps := by simp [Ne.symm he]
        rw [if_neg he, if_congr hmem rfl rfl, List.map_cons,
          List.append_cons items (.operand p) (ps.map .operand)]
        exact ih _ hps

theorem readItems_value {o : OptionName} {value : String} (h : isOption value = false)
    (rest : List String) : readItems ⟨known, false⟩ items (some o) (value :: rest) =
      addOption items o value >>= fun items => readItems ⟨known, false⟩ items none rest := by
  rw [readItems, if_neg (by simp [h])]

theorem splitValue_text (o : OptionName) : splitValue o.text.toList = (o.text, none) := by
  cases o <;> decide

theorem readItems_option {o : OptionName} {arg value : String}
    (harg : arg.toList = '-' :: '-' :: o.text.toList)
    (ho : Level.find? ⟨known, false⟩ o.text = some o) (ht : o.takesValue = true)
    (h : isOption value = false) (rest : List String) :
    readItems ⟨known, false⟩ items none (arg :: value :: rest) =
      addOption items o value >>= fun items => readItems ⟨known, false⟩ items none rest := by
  have hlong : addLong ⟨known, false⟩ items o.text.toList = .ok (items, some o) := by
    rw [addLong, splitValue_text]
    simp only [ho, ht]
  rw [readItems, harg]
  cases hn : o.text.toList with
  | nil => cases o <;> exact absurd hn (by decide)
  | cons c cs =>
      change (addLong ⟨known, false⟩ items (c :: cs) >>= fun x =>
        readItems ⟨known, false⟩ x.1 x.2 (value :: rest)) = _
      rw [← hn, hlong]
      exact readItems_value known items h rest

theorem readItems_repeated {o : OptionName} {arg : String}
    (harg : arg.toList = '-' :: '-' :: o.text.toList)
    (ho : Level.find? ⟨known, false⟩ o.text = some o) (hr : o.repeats = true) {paths : List String}
    (h : ∀ p ∈ paths, isOption p = false) (rest : List String) :
    readItems ⟨known, false⟩ items none (paths.flatMap (fun p => [arg, p]) ++ rest) =
      if "" ∈ paths then .error (.misuse (.badValue o ""))
      else readItems ⟨known, false⟩ (items ++ paths.map (.option o)) none rest := by
  have ht : o.takesValue = true := by cases o <;> first | rfl | exact nomatch hr
  have haccepts (p : String) : o.accepts p = (p != "") := by
    cases o <;> first | rfl | exact nomatch hr
  induction paths generalizing items with
  | nil => simp
  | cons p ps ih =>
      obtain ⟨hp, hps⟩ := List.forall_mem_cons.mp h
      rw [List.flatMap_cons, List.append_assoc, List.cons_append, List.cons_append, List.nil_append,
        readItems_option known items harg ho ht hp, addOption, ht, haccepts, hr]
      by_cases he : p = ""
      · subst he
        rw [if_pos List.mem_cons_self]
        rfl
      · have hmem : "" ∈ p :: ps ↔ "" ∈ ps := by simp [Ne.symm he]
        rw [if_congr hmem rfl rfl, List.map_cons,
          List.append_cons items (.option o p) (ps.map (.option o)), if_neg (by simp [he]),
          if_neg (by simp)]
        exact ih _ hps

theorem values_append (more : List Item) (o : OptionName) :
    values (items ++ more) o = values items o ++ values more o :=
  List.filterMap_append ..

theorem operands_append (more : List Item) :
    operands (items ++ more) = operands items ++ operands more :=
  List.filterMap_append ..

theorem values_operands (paths : List String) (o : OptionName) :
    values (paths.map .operand) o = [] := by
  simp [values, List.filterMap_map]

theorem operands_operands (paths : List String) : operands (paths.map .operand) = paths := by
  simp [operands, List.filterMap_map]

theorem values_options (paths : List String) (o o' : OptionName) :
    values (paths.map (.option o)) o' = if o = o' then paths else [] := by
  split <;> simp_all [values, List.filterMap_map]

theorem values_shared {o o' : OptionName} (ho : o ∈ OptionName.shared) (hr : o'.repeats = true)
    (paths : List String) : values (paths.map (.option o')) o = [] := by
  rw [values_options, if_neg]
  rintro rfl
  cases o' <;> first | exact absurd ho (by decide) | cases hr

theorem operands_options (paths : List String) (o : OptionName) :
    operands (paths.map (.option o)) = [] := by
  simp [operands, List.filterMap_map]

theorem parse_command (c : CommandName) (args : List String) : parse (c.text :: args) =
    readItems ⟨c.options, false⟩ [] none args >>= fun x => .ok ⟨flags [] x.1, command c x.1⟩ := by
  cases c <;> rfl

theorem flags_eq_none {items : List Item} (h : ∀ o ∈ OptionName.shared, values items o = []) :
    flags [] items = .none := by
  simp only [OptionName.shared, List.forall_mem_cons] at h
  obtain ⟨hconfig, hformat, hvalid, hsdl, hbuiltins, -⟩ := h
  simp only [flags, hconfig, hformat, hvalid, hsdl, hbuiltins]
  rfl

section Paths

variable {inputs extensions : List String} (hi : ∀ p ∈ inputs, isOption p = false)
  (he : ∀ p ∈ extensions, isOption p = false)

include hi in
theorem parse_build : parse ("build" :: inputs) =
    if "" ∈ inputs then .error (.misuse .emptyPath) else .ok ⟨.none, .build inputs⟩ := by
  have hr := readItems_operands CommandName.build.options [] hi []
  rw [List.append_nil, List.nil_append] at hr
  change parse (CommandName.build.text :: inputs) = _
  rw [parse_command, hr]
  split
  · rfl
  · change Except.ok _ = _
    rw [flags_eq_none fun o _ => values_operands inputs o, command, operands_operands]

include he in
theorem readItems_extensions :
    readItems ⟨CommandName.validate.options, false⟩ items none
      (extensions.flatMap fun e => ["--extension", e]) =
      if "" ∈ extensions then .error (.misuse (.badValue .extension ""))
      else .ok (items ++ extensions.map (.option .extension), []) := by
  have harg : "--extension".toList = '-' :: '-' :: OptionName.extension.text.toList := rfl
  have hr := readItems_repeated CommandName.validate.options items harg rfl rfl he []
  rw [List.append_nil] at hr
  exact hr

include hi he in
theorem parse_validate :
    parse ("validate" :: (inputs ++ extensions.flatMap fun e => ["--extension", e])) =
      if "" ∈ inputs then .error (.misuse .emptyPath)
      else if "" ∈ extensions then .error (.misuse (.badValue .extension ""))
      else .ok ⟨.none, .validate inputs extensions⟩ := by
  change parse (CommandName.validate.text :: _) = _
  rw [parse_command, readItems_operands _ _ hi, readItems_extensions _ he, List.nil_append]
  split
  · rfl
  split
  · rfl
  · have hnone : ∀ o ∈ OptionName.shared,
        values (inputs.map .operand ++ extensions.map (.option .extension)) o = [] := by
      intro o ho
      rw [values_append, values_operands, values_shared ho rfl, List.append_nil]
    change Except.ok _ = _
    rw [flags_eq_none hnone, command, operands_append, operands_operands, operands_options,
      values_append, values_operands, values_options, if_pos rfl, List.append_nil, List.nil_append]

include hi he in
theorem parse_extend :
    parse ("extend" :: (inputs.flatMap (fun p => ["--base", p]) ++ extensions)) =
      if "" ∈ inputs then .error (.misuse (.badValue .base ""))
      else if "" ∈ extensions then .error (.misuse .emptyPath)
      else .ok ⟨.none, .extend inputs extensions⟩ := by
  have hr := readItems_operands CommandName.extend.options (inputs.map (.option .base)) he []
  rw [List.append_nil] at hr
  have harg : "--base".toList = '-' :: '-' :: OptionName.base.text.toList := rfl
  change parse (CommandName.extend.text :: _) = _
  rw [parse_command, readItems_repeated _ _ harg rfl rfl hi, List.nil_append, hr]
  split
  · rfl
  split
  · rfl
  · have hnone : ∀ o ∈ OptionName.shared,
        values (inputs.map (.option .base) ++ extensions.map .operand) o = [] := by
      intro o ho
      rw [values_append, values_operands, values_shared ho rfl, List.append_nil]
    change Except.ok _ = _
    rw [flags_eq_none hnone, command, operands_append, operands_operands, operands_options,
      values_append, values_operands, values_options, if_pos rfl, List.append_nil, List.nil_append]

end Paths

section Config

variable {config : String} (hc : isOption config = false) (hne : config ≠ "")
include hc hne

theorem parse_config (c : CommandName) (args : List String) :
    parse (c.text :: "--config" :: config :: args) =
      readItems ⟨c.options, false⟩ [.option .config config] none args >>= fun x =>
        .ok ⟨flags [] x.1, command c x.1⟩ := by
  have hfind : Level.find? ⟨c.options, false⟩ OptionName.config.text = some .config := by
    cases c <;> rfl
  have hadd : addOption [] .config config = .ok [.option .config config] := by
    rw [addOption, if_neg (by simp [OptionName.accepts, hne]), if_neg (by simp [given])]
    rfl
  rw [parse_command, readItems_option _ _ rfl hfind rfl hc, hadd]
  rfl

theorem parse_project (c : CommandName) : parse [c.text, "--config", config] =
    .ok ⟨.project config, command c []⟩ := by
  rw [parse_config hc hne]
  cases c <;> rfl

theorem parse_validate_project {extensions : List String}
    (he : ∀ p ∈ extensions, isOption p = false) :
    parse ("validate" :: "--config" :: config :: extensions.flatMap fun e => ["--extension", e]) =
      if "" ∈ extensions then .error (.misuse (.badValue .extension ""))
      else .ok ⟨.project config, .validate [] extensions⟩ := by
  change parse (CommandName.validate.text :: _) = _
  rw [parse_config hc hne, readItems_extensions _ he]
  split
  · rfl
  · have hflags (items : List Item) : flags [] (.option .config config :: items) =
        { flags [] items with config := some config } := rfl
    have hcommand (items : List Item) :
        command .validate (.option .config config :: items) = command .validate items := rfl
    have hnone : ∀ o ∈ OptionName.shared, values (extensions.map (.option .extension)) o = [] :=
      fun o ho => values_shared ho rfl extensions
    change Except.ok _ = _
    rw [List.singleton_append, hflags, flags_eq_none hnone, hcommand, command, operands_options,
      values_options, if_pos rfl]
    rfl

end Config

end Arguments

end SchemaGraph
