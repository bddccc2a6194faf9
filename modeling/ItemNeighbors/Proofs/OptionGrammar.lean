import Mathlib.Data.List.Nodup
import ItemNeighbors.Options

/-!
# The grammar of options

Which options some arguments spell, as a relation. It knows nothing of a reader: an argument spells
some options that are complete, and possibly one whose value is the next argument. If no two options
share a name, the reader accepts exactly what is spelled in this sense.

- `ArgReading.Groups`, `ArgReading.Spells`: what the characters behind a dash and what an argument
  spell.
- `GivenOption.Spells`: what arguments spell.
- `OptionSpec.WellNamed`: options that are told apart by their names.
- `GivenOption.read_eq_ok_iff`, `GivenOption.ofArgs_eq_ok_iff`: what is read is what is spelled.
-/

namespace ItemNeighbors

/-- Options by their short and long names, and whether they take a value. -/
abbrev OptionNaming (α : Type) := α → Char → String → Bool → Prop

/-- An option goes by its long name or by its short one. -/
def OptionNaming.GoesBy {α : Type} (named : OptionNaming α) (key : α) (name : List Char)
    (takesValue : Bool) : Prop :=
  ∃ short long, named key short long takesValue ∧ (name = long.toList ∨ name = [short])

/-! ## What arguments spell -/

namespace ArgReading

variable {α : Type}

/-- Characters behind a single dash spell flags and at last possibly an option with a value, which
is the rest of the characters or, if there is none, the next argument. -/
inductive Groups (named : OptionNaming α) :
    List Char → List (GivenOption α) → Option α → Prop where
  | nil : Groups named [] [] none
  | flag {key : α} {c : Char} {long : String} {rest : List Char} {given : List (GivenOption α)}
      {pending : Option α} (hname : named key c long false)
      (hrest : Groups named rest given pending) :
      Groups named (c :: rest) (⟨key, none⟩ :: given) pending
  | attached {key : α} {c : Char} {long : String} {value : List Char}
      (hname : named key c long true) (hvalue : value ≠ []) :
      Groups named (c :: value) [⟨key, some (String.ofList value)⟩] none
  | detached {key : α} {c : Char} {long : String} (hname : named key c long true) :
      Groups named [c] [] (some key)

/-- The characters of an argument spell some options, and possibly one whose value is the next
argument. -/
inductive Spells (named : OptionNaming α) :
    List Char → List (GivenOption α) → Option α → Prop where
  /-- An argument that does not begin with a dash means nothing. -/
  | word {arg : List Char} (harg : arg.head? ≠ some '-') : Spells named arg [] none
  | group {chars : List Char} {given : List (GivenOption α)} {pending : Option α}
      (hdash : chars.head? ≠ some '-') (hgroup : Groups named chars given pending) :
      Spells named ('-' :: chars) given pending
  | longFlag {key : α} {name : List Char} (hname : named.GoesBy key name false) :
      Spells named ('-' :: '-' :: name) [⟨key, none⟩] none
  | longAttached {key : α} {name value : List Char} (hname : named.GoesBy key name true) :
      Spells named ('-' :: '-' :: (name ++ '=' :: value)) [⟨key, some (String.ofList value)⟩] none
  | longDetached {key : α} {name : List Char} (hname : named.GoesBy key name true) :
      Spells named ('-' :: '-' :: name) [] (some key)

end ArgReading

namespace GivenOption

variable {α : Type}

/-- Arguments spell some options. -/
inductive Spells (named : OptionNaming α) : List String → List (GivenOption α) → Prop where
  | nil : Spells named [] []
  /-- Two dashes end the options. -/
  | stop (rest : List String) : Spells named ("--" :: rest) []
  | arg {arg : String} {rest : List String} {given more : List (GivenOption α)}
      (harg : ArgReading.Spells named arg.toList given none) (hrest : Spells named rest more) :
      Spells named (arg :: rest) (given ++ more)
  /-- An option may take the next argument for its value, whatever this looks like. -/
  | value {arg value : String} {rest : List String} {given more : List (GivenOption α)} {key : α}
      (harg : ArgReading.Spells named arg.toList given (some key))
      (hrest : Spells named rest more) :
      Spells named (arg :: value :: rest) (given ++ ⟨key, some value⟩ :: more)

end GivenOption

/-! ## Names -/

/-- If at most one element has a property, then a search for it finds this one. -/
theorem find?_eq_some_iff_of_unique {β : Type} {l : List β} {p : β → Bool}
    (h : ∀ a ∈ l, ∀ b ∈ l, p a = true → p b = true → a = b) {a : β} :
    l.find? p = some a ↔ a ∈ l ∧ p a = true := by
  constructor
  · exact fun hfind => ⟨List.mem_of_find?_eq_some hfind, List.find?_some hfind⟩
  · rintro ⟨hmem, hp⟩
    cases hfind : l.find? p with
    | none => exact absurd hp (List.find?_eq_none.mp hfind a hmem)
    | some b =>
      rw [h b (List.mem_of_find?_eq_some hfind) a hmem (List.find?_some hfind) hp]

/-- So a search by a key finds the element with this key if no two elements share theirs. -/
theorem find?_key_eq_some_iff {β κ : Type} [DecidableEq κ] {key : β → κ} {l : List β}
    (h : (l.map key).Nodup) {k : κ} {a : β} :
    l.find? (key · = k) = some a ↔ a ∈ l ∧ key a = k := by
  rw [find?_eq_some_iff_of_unique, decide_eq_true_iff]
  intro a ha b hb hak hbk
  rw [decide_eq_true_iff] at hak hbk
  exact List.inj_on_of_nodup_map h ha hb (hak.trans hbk.symm)

namespace OptionSpec

variable {α : Type} {specs : List (OptionSpec α)} {spec : OptionSpec α} {c : Char}
  {name : List Char}

/-- The names of some options. -/
def naming (specs : List (OptionSpec α)) : OptionNaming α := fun key short long takesValue =>
  ∃ spec ∈ specs, spec.key = key ∧ spec.short = short ∧ spec.long = long ∧
    spec.takesValue = takesValue

/-- No two options share a name, and where a name ends can be seen. -/
structure WellNamed (specs : List (OptionSpec α)) : Prop where
  shorts : (specs.map (·.short)).Nodup
  longs : (specs.map (·.long)).Nodup
  short_ne : ∀ spec ∈ specs, spec.short ≠ '='
  not_mem_long : ∀ spec ∈ specs, '=' ∉ spec.long.toList
  length_long : ∀ spec ∈ specs, 2 ≤ spec.long.toList.length

theorem WellNamed.find?_short_iff (h : WellNamed specs) :
    specs.find? (·.short = c) = some spec ↔ spec ∈ specs ∧ spec.short = c :=
  find?_key_eq_some_iff h.shorts

theorem goesBy_iff :
    ArgReading.goesBy spec name = true ↔ name = spec.long.toList ∨ name = [spec.short] := by
  rw [ArgReading.goesBy, Bool.or_eq_true, decide_eq_true_iff, decide_eq_true_iff]

theorem WellNamed.find?_goesBy_iff (h : WellNamed specs) :
    specs.find? (ArgReading.goesBy · name) = some spec ↔
      spec ∈ specs ∧ (name = spec.long.toList ∨ name = [spec.short]) := by
  rw [find?_eq_some_iff_of_unique, goesBy_iff]
  intro a ha b hb hna hnb
  rw [goesBy_iff] at hna hnb
  -- a long name is never taken for a short one
  have hlong := h.length_long
  rcases hna with rfl | rfl
  · rcases hnb with hnb | hnb
    · exact List.inj_on_of_nodup_map h.longs ha hb (String.toList_inj.mp hnb)
    · have := hlong a ha
      simp [hnb] at this
  · rcases hnb with hnb | hnb
    · have := hlong b hb
      simp [← hnb] at this
    · exact List.inj_on_of_nodup_map h.shorts ha hb (List.cons.inj hnb).1

/-- No name contains an equals sign. -/
theorem WellNamed.not_mem_name (h : WellNamed specs) (hspec : spec ∈ specs)
    (hname : name = spec.long.toList ∨ name = [spec.short]) : '=' ∉ name := by
  rcases hname with rfl | rfl
  · exact h.not_mem_long spec hspec
  · exact fun hmem => h.short_ne spec hspec (List.mem_singleton.mp hmem).symm

end OptionSpec

/-! ## What is read -/

/-- A result that was changed comes from one that was not. -/
theorem map_eq_ok_iff {α β ε : Type} {x : Except ε α} {f : α → β} {b : β} :
    x.map f = .ok b ↔ ∃ a, x = .ok a ∧ f a = b := by
  cases x <;> simp [Except.map]

/-- A computation in two steps has a result if both of them have one. -/
theorem bind_eq_ok_iff {α β ε : Type} {x : Except ε α} {f : α → Except ε β} {b : β} :
    (x >>= f) = .ok b ↔ ∃ a, x = .ok a ∧ f a = .ok b := by
  cases x <;> simp [bind, Except.bind]

namespace ArgReading

open OptionSpec

variable {α : Type} {specs : List (OptionSpec α)} {reading : ArgReading α}
  {given : List (GivenOption α)} {pending : Option α} {chars name text value : List Char}

/-- The reading has the options that were spelled, and waits for the value of the right one. -/
def Gives (reading : ArgReading α) (given : List (GivenOption α)) (pending : Option α) : Prop :=
  reading.given = given ∧ reading.pending.map (·.1) = pending

theorem groups_of_ofShort (h : ofShort specs chars = .ok reading) :
    Groups (naming specs) chars reading.given (reading.pending.map (·.1)) := by
  induction chars generalizing reading with
  | nil =>
    cases h
    exact .nil
  | cons c rest ih =>
    rw [ofShort] at h
    cases hfind : specs.find? (·.short = c) with
    | none =>
      rw [hfind] at h
      cases h
    | some spec =>
      have hspec := List.mem_of_find?_eq_some hfind
      have hshort : spec.short = c := by simpa using List.find?_some hfind
      simp only [hfind] at h
      cases htakes : spec.takesValue with
      | false =>
        simp only [htakes, Bool.not_false, if_true] at h
        obtain ⟨inner, hrest, rfl⟩ := map_eq_ok_iff.mp h
        exact .flag ⟨spec, hspec, rfl, hshort, rfl, htakes⟩ (ih hrest)
      | true =>
        simp only [htakes, Bool.not_true, Bool.false_eq_true, if_false] at h
        cases rest with
        | nil =>
          cases h
          exact .detached ⟨spec, hspec, rfl, hshort, rfl, htakes⟩
        | cons c' rest =>
          cases h
          exact .attached ⟨spec, hspec, rfl, hshort, rfl, htakes⟩ (List.cons_ne_nil c' rest)

theorem exists_ofShort_of_groups (hspecs : WellNamed specs)
    (h : Groups (naming specs) chars given pending) :
    ∃ reading, ofShort specs chars = .ok reading ∧ reading.Gives given pending := by
  induction h with
  | nil => exact ⟨_, rfl, rfl, rfl⟩
  | @flag key c long rest given pending hname _ ih =>
    obtain ⟨spec, hspec, rfl, rfl, -, htakes⟩ := hname
    obtain ⟨inner, hinner, hgiven, hpending⟩ := ih
    refine ⟨inner.prepend ⟨spec.key, none⟩, ?_, congrArg (_ :: ·) hgiven, hpending⟩
    rw [ofShort, hspecs.find?_short_iff.mpr ⟨hspec, rfl⟩, hinner]
    simp [htakes, Except.map]
  | @attached key c long value hname hvalue =>
    obtain ⟨spec, hspec, rfl, rfl, -, htakes⟩ := hname
    refine ⟨⟨[⟨spec.key, some (String.ofList value)⟩], none⟩, ?_, rfl, rfl⟩
    rw [ofShort, hspecs.find?_short_iff.mpr ⟨hspec, rfl⟩]
    simp [htakes, hvalue]
  | @detached key c long hname =>
    obtain ⟨spec, hspec, rfl, rfl, -, htakes⟩ := hname
    refine ⟨⟨[], some (spec.key, String.singleton spec.short)⟩, ?_, rfl, rfl⟩
    rw [ofShort, hspecs.find?_short_iff.mpr ⟨hspec, rfl⟩]
    simp [htakes]

/-- A name ends where the text does or before the first equals sign. -/
theorem takeWhile_name (hname : '=' ∉ name) (hrest : text = [] ∨ text.head? = some '=') :
    (name ++ text).takeWhile (· ≠ '=') = name ∧ (name ++ text).dropWhile (· ≠ '=') = text := by
  have hinside : ∀ c ∈ name, decide (c ≠ '=') = true := by
    intro c hc
    rw [decide_eq_true_iff]
    rintro rfl
    exact hname hc
  rw [List.takeWhile_append_of_pos hinside, List.dropWhile_append_of_pos hinside]
  rcases hrest with rfl | hhead
  · simp
  · obtain ⟨rest, rfl⟩ := List.head?_eq_some_iff.mp hhead
    simp

theorem spells_of_ofLong (h : ofLong specs text = .ok reading) :
    Spells (naming specs) ('-' :: '-' :: text) reading.given (reading.pending.map (·.1)) := by
  have hsplit : text = text.takeWhile (· ≠ '=') ++ text.dropWhile (· ≠ '=') :=
    List.takeWhile_append_dropWhile.symm
  unfold ofLong at h
  cases hfind : specs.find? (goesBy · (text.takeWhile (· ≠ '='))) with
  | none =>
    simp only [hfind] at h
    cases h
  | some spec =>
    simp only [hfind] at h
    have hgoes := List.find?_some hfind
    have hname : ∀ {takesValue}, spec.takesValue = takesValue →
        (naming specs).GoesBy spec.key (text.takeWhile (· ≠ '=')) takesValue := fun htakes =>
      ⟨_, _, ⟨spec, List.mem_of_find?_eq_some hfind, rfl, rfl, rfl, htakes⟩, goesBy_iff.mp hgoes⟩
    cases hvalue : text.dropWhile (· ≠ '=') with
    | nil =>
      rw [hvalue, List.append_nil] at hsplit
      rw [← hsplit] at hname
      simp only [hvalue, List.tail?_nil, Option.map_none] at h
      cases htakes : spec.takesValue with
      | true =>
        simp only [htakes] at h
        cases h
        exact .longDetached (hname htakes)
      | false =>
        simp only [htakes] at h
        cases h
        exact .longFlag (hname htakes)
    | cons c value =>
      obtain rfl : c = '=' := by
        have hc := List.head?_dropWhile_not (fun c => decide (c ≠ '=')) text
        rw [hvalue] at hc
        simpa using hc
      simp only [hvalue, List.tail?_cons, Option.map_some] at h
      cases htakes : spec.takesValue with
      | true =>
        simp only [htakes] at h
        cases h
        rw [hsplit, hvalue]
        exact .longAttached (hname htakes)
      | false =>
        simp only [htakes] at h
        cases h

/-- How the reading of a long name goes on when the name is found. -/
theorem ofLong_eq (hspecs : WellNamed specs) {spec : OptionSpec α} (hspec : spec ∈ specs)
    (hname : name = spec.long.toList ∨ name = [spec.short])
    (hrest : text = [] ∨ text.head? = some '=') :
    ofLong specs (name ++ text) =
      match spec.takesValue, text.tail?.map String.ofList with
      | true, none => .ok ⟨[], some (spec.key, String.ofList name)⟩
      | false, some _ => .error (.valueUnexpected (String.ofList name))
      | _, value => .ok ⟨[⟨spec.key, value⟩], none⟩ := by
  obtain ⟨htake, hdrop⟩ := takeWhile_name (hspecs.not_mem_name hspec hname) hrest
  have hfind := hspecs.find?_goesBy_iff.mpr ⟨hspec, hname⟩
  rw [← htake] at hfind
  unfold ofLong
  dsimp only
  rewrite [hfind, htake, hdrop]
  rfl

theorem spells_of_ofArg {arg : String} (h : ofArg specs arg = .ok reading) :
    Spells (naming specs) arg.toList reading.given (reading.pending.map (·.1)) := by
  unfold ofArg at h
  split at h
  · rename_i text htext
    rw [htext]
    exact spells_of_ofLong h
  · rename_i text hlong htext
    rw [htext]
    refine .group (fun hhead => ?_) (groups_of_ofShort h)
    obtain ⟨rest, rfl⟩ := List.head?_eq_some_iff.mp hhead
    exact hlong rest rfl
  · rename_i hlong hshort
    cases h
    refine .word fun hhead => ?_
    obtain ⟨rest, hrest⟩ := List.head?_eq_some_iff.mp hhead
    exact hshort rest hrest

theorem exists_ofArg_of_spells (hspecs : WellNamed specs) {arg : String}
    (h : Spells (naming specs) arg.toList given pending) :
    ∃ reading, ofArg specs arg = .ok reading ∧ reading.Gives given pending := by
  unfold ofArg
  generalize arg.toList = chars at h
  cases h with
  | word hword =>
    refine ⟨nothing, ?_, rfl, rfl⟩
    split
    · exact absurd rfl hword
    · exact absurd rfl hword
    · rfl
  | @group chars given pending hdash hgroup =>
    obtain ⟨reading, hreading, hgives⟩ := exists_ofShort_of_groups hspecs hgroup
    refine ⟨reading, ?_, hgives⟩
    cases chars with
    | nil => exact hreading
    | cons c rest =>
      have hc : c ≠ '-' := fun hc => hdash (congrArg some hc)
      rw [← hreading]
      split
      · rename_i heq
        exact absurd (List.cons.inj (List.cons.inj heq).2).1 hc
      · rename_i heq
        rw [(List.cons.inj heq).2]
      · rename_i hshort
        exact absurd rfl (hshort (c :: rest))
  | longFlag hname =>
    obtain ⟨short, long, ⟨spec, hspec, rfl, rfl, rfl, htakes⟩, hname⟩ := hname
    refine ⟨⟨[⟨spec.key, none⟩], none⟩, ?_, rfl, rfl⟩
    have hlong := ofLong_eq hspecs hspec hname (.inl rfl)
    rw [List.append_nil] at hlong
    show ofLong specs _ = _
    rw [hlong, htakes]
    rfl
  | @longAttached key name value hname =>
    obtain ⟨short, long, ⟨spec, hspec, rfl, rfl, rfl, htakes⟩, hname⟩ := hname
    refine ⟨⟨[⟨spec.key, some (String.ofList value)⟩], none⟩, ?_, rfl, rfl⟩
    show ofLong specs _ = _
    rw [ofLong_eq hspecs hspec hname (.inr rfl), htakes]
    rfl
  | @longDetached key name hname =>
    obtain ⟨short, long, ⟨spec, hspec, rfl, rfl, rfl, htakes⟩, hname⟩ := hname
    refine ⟨⟨[], some (spec.key, String.ofList name)⟩, ?_, rfl, rfl⟩
    have hlong := ofLong_eq hspecs hspec hname (.inl rfl)
    rw [List.append_nil] at hlong
    show ofLong specs _ = _
    rw [hlong, htakes]
    rfl

/-- What is spelled has a name, and a value if and only if it takes one. -/
theorem Groups.named {named : OptionNaming α} (h : Groups named chars given pending) :
    (∀ option ∈ given, ∃ short long, named option.key short long option.value.isSome) ∧
      ∀ key, pending = some key → ∃ short long, named key short long true := by
  induction h with
  | nil => exact ⟨nofun, nofun⟩
  | flag hname _ ih => exact ⟨List.forall_mem_cons.mpr ⟨⟨_, _, hname⟩, ih.1⟩, ih.2⟩
  | attached hname _ => exact ⟨List.forall_mem_singleton.mpr ⟨_, _, hname⟩, nofun⟩
  | detached hname =>
    refine ⟨nofun, fun key hkey => ?_⟩
    cases hkey
    exact ⟨_, _, hname⟩

theorem Spells.named {named : OptionNaming α} (h : Spells named chars given pending) :
    (∀ option ∈ given, ∃ short long, named option.key short long option.value.isSome) ∧
      ∀ key, pending = some key → ∃ short long, named key short long true := by
  cases h with
  | word => exact ⟨nofun, nofun⟩
  | group _ hgroup => exact hgroup.named
  | longFlag hname =>
    obtain ⟨short, long, hname, -⟩ := hname
    exact ⟨List.forall_mem_singleton.mpr ⟨_, _, hname⟩, nofun⟩
  | longAttached hname =>
    obtain ⟨short, long, hname, -⟩ := hname
    exact ⟨List.forall_mem_singleton.mpr ⟨_, _, hname⟩, nofun⟩
  | longDetached hname =>
    obtain ⟨short, long, hname, -⟩ := hname
    refine ⟨nofun, fun key hkey => ?_⟩
    cases hkey
    exact ⟨_, _, hname⟩

/-- Two dashes spell no option. -/
theorem not_spells_stop (hspecs : WellNamed specs)
    (h : Spells (naming specs) "--".toList given pending) : False := by
  have hnil : ∀ {key takesValue}, ¬ (naming specs).GoesBy key [] takesValue := by
    rintro key takesValue ⟨short, long, ⟨spec, hspec, rfl, rfl, rfl, -⟩, hname | hname⟩
    · have := hspecs.length_long spec hspec
      simp [← hname] at this
    · cases hname
  generalize hchars : "--".toList = chars at h
  cases h with
  | word hword => exact hword (by rw [← hchars]; rfl)
  | group hdash => exact hdash (by cases hchars; rfl)
  | longFlag hname =>
    cases hchars
    exact hnil hname
  | @longAttached key name value hname =>
    have hlength := congrArg List.length hchars
    simp at hlength
  | longDetached hname =>
    cases hchars
    exact hnil hname

end ArgReading

namespace GivenOption

open OptionSpec

variable {α : Type} {specs : List (OptionSpec α)} {args : List String}
  {given : List (GivenOption α)}

theorem spells_of_read (h : read specs args = .ok given) : Spells (naming specs) args given := by
  fun_induction read specs args generalizing given with
  | case1 =>
    cases h
    exact .nil
  | case2 rest =>
    cases h
    exact .stop rest
  | case3 arg rest hstop problem harg => cases h
  | case4 arg rest hstop first harg ih =>
    obtain ⟨more, hrest, rfl⟩ := map_eq_ok_iff.mp h
    exact .arg (ArgReading.spells_of_ofArg harg) (ih hrest)
  | case5 arg hstop first key name harg => cases h
  | case6 arg hstop first key name harg value rest ih =>
    obtain ⟨more, hrest, rfl⟩ := map_eq_ok_iff.mp h
    exact .value (ArgReading.spells_of_ofArg harg) (ih hrest)

theorem read_of_spells (hspecs : WellNamed specs) (h : Spells (naming specs) args given) :
    read specs args = .ok given := by
  induction h with
  | nil => rfl
  | stop rest => rw [read, if_pos rfl]
  | @arg arg rest given more harg _ ih =>
    have hstop : arg ≠ "--" := by
      rintro rfl
      exact ArgReading.not_spells_stop hspecs harg
    obtain ⟨⟨_, pending⟩, hreading, rfl, hpending⟩ := ArgReading.exists_ofArg_of_spells hspecs harg
    obtain rfl : pending = none := Option.map_eq_none_iff.mp hpending
    rw [read, if_neg hstop, hreading, ih]
    rfl
  | @value arg value rest given more key harg _ ih =>
    have hstop : arg ≠ "--" := by
      rintro rfl
      exact ArgReading.not_spells_stop hspecs harg
    obtain ⟨⟨_, pending⟩, hreading, rfl, hpending⟩ := ArgReading.exists_ofArg_of_spells hspecs harg
    obtain ⟨⟨_, name⟩, rfl, rfl⟩ := Option.map_eq_some_iff.mp hpending
    rw [read, if_neg hstop, hreading]
    exact map_eq_ok_iff.mpr ⟨more, ih, rfl⟩

/-- **What is read is what is spelled.** -/
theorem read_eq_ok_iff (hspecs : WellNamed specs) :
    read specs args = .ok given ↔ Spells (naming specs) args given :=
  ⟨spells_of_read, read_of_spells hspecs⟩

/-- Only options that have a name are spelled, those with a value that take one. -/
theorem Spells.named {named : OptionNaming α} (h : Spells named args given) :
    ∀ option ∈ given, ∃ short long, named option.key short long option.value.isSome := by
  induction h with
  | nil => simp
  | stop rest => simp
  | arg harg _ ih =>
    intro option hoption
    rcases List.mem_append.mp hoption with hoption | hoption
    · exact harg.named.1 option hoption
    · exact ih option hoption
  | value harg _ ih =>
    intro option hoption
    rcases List.mem_append.mp hoption with hoption | hoption
    · exact harg.named.1 option hoption
    · rcases List.mem_cons.mp hoption with rfl | hoption
      · exact harg.named.2 _ rfl
      · exact ih option hoption

/-- The search for an option that is given twice finds none if and only if there is none: options
without a name, for which it does not look, are not spelled. -/
theorem Spells.find?_repeated_eq_none_iff [BEq α] [LawfulBEq α]
    (h : Spells (naming specs) args given) :
    (specs.find? fun spec => decide (1 < given.countP (·.key == spec.key))) = none ↔
      (given.map (·.key)).Nodup := by
  have hcount : ∀ key, (given.map (·.key)).count key = given.countP (·.key == key) := by
    intro key
    rw [List.count, List.countP_map]
    rfl
  rw [List.find?_eq_none, List.nodup_iff_count_le_one]
  constructor
  · intro hnone key
    by_cases hkey : key ∈ given.map (·.key)
    · obtain ⟨option, hoption, rfl⟩ := List.mem_map.mp hkey
      obtain ⟨_, _, spec, hspec, hname, -⟩ := h.named option hoption
      have hle := hnone spec hspec
      rw [hname, decide_eq_true_iff, Nat.not_lt] at hle
      rwa [hcount]
    · rw [List.count_eq_zero.mpr hkey]
      exact Nat.zero_le 1
  · intro hle spec _
    rw [decide_eq_true_iff, Nat.not_lt, ← hcount]
    exact hle spec.key

/-- **The options of some arguments** are those that are spelled, if none of them is given twice. -/
theorem ofArgs_eq_ok_iff [BEq α] [LawfulBEq α] (hspecs : WellNamed specs) :
    ofArgs specs args = .ok given ↔
      Spells (naming specs) args given ∧ (given.map (·.key)).Nodup := by
  unfold ofArgs
  rw [bind_eq_ok_iff]
  constructor
  · rintro ⟨options, hread, h⟩
    have hspelled := (read_eq_ok_iff hspecs).mp hread
    cases hfind : specs.find? fun spec => decide (1 < options.countP (·.key == spec.key)) with
    | none =>
      rw [hfind] at h
      cases h
      exact ⟨hspelled, hspelled.find?_repeated_eq_none_iff.mp hfind⟩
    | some spec =>
      rw [hfind] at h
      cases h
  · rintro ⟨hspelled, hnodup⟩
    refine ⟨given, (read_eq_ok_iff hspecs).mpr hspelled, ?_⟩
    rw [hspelled.find?_repeated_eq_none_iff.mpr hnodup]
    rfl

end GivenOption

end ItemNeighbors
