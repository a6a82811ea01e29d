import Mathlib.Data.List.Forall2
import Mathlib.Data.List.TakeWhile
import Bootstage.CommandLine

/-!
# Command lines as they are written

The grammar of the command line is told here apart from the reader: which switches a word gives, how
switches, a subcommand and names follow one another, and which switches and names make a task. A
line is written in one way only.
-/

namespace Bootstage.CommandLine

/-- What stands in one of two related lists is related to something in the other. -/
theorem exists_mem_of_forall₂ {α β : Type} {related : α → β → Prop} {items : List α}
    {others : List β} (h : List.Forall₂ related items others) {item : α} (mem : item ∈ items) :
    ∃ other ∈ others, related item other := by
  induction h with
  | nil => cases mem
  | @cons first other items others hfirst rest ih =>
    rcases List.mem_cons.mp mem with rfl | mem
    · exact ⟨other, List.mem_cons_self, hfirst⟩
    · obtain ⟨found, hf, hrelated⟩ := ih mem
      exact ⟨found, List.mem_cons_of_mem other hf, hrelated⟩

/-! ### Words -/

/-- The letter stands for the switch in a place. -/
def Letters (level : Level) (switch : Switch) (letter : Char) : Prop :=
  switch ∈ level.switches ∧ switch.letter? = some letter

/-- A word gives switches of a place: one by its name, or some by their letters. -/
inductive Gives (level : Level) : String → List Switch → Prop
  /-- Two hyphens stand in front of a name. -/
  | name {switch : Switch} (mem : switch ∈ level.switches) :
      Gives level ("--" ++ switch.name) [switch]
  /-- One hyphen stands in front of letters. -/
  | letters {switches : List Switch} {letters : List Char} (nonempty : switches ≠ [])
      (each : List.Forall₂ (Letters level) switches letters) :
      Gives level (String.ofList ('-' :: letters)) switches

/-- A word that is no switch does not start with a hyphen, or it is a hyphen alone. -/
def IsOperand (text : String) : Prop :=
  text = "-" ∨ text.toList.head? ≠ some '-'

/-- Behind a subcommand stand words that give switches and words that are names, in any order; all
words behind a divider are names. -/
inductive Behind (subcommand : Subcommand) : List String → List Switch → List String → Prop
  /-- Nothing more is written. -/
  | done : Behind subcommand [] [] []
  /-- A divider makes names of the rest. -/
  | divided (names : List String) : Behind subcommand ("--" :: names) [] names
  /-- A word gives switches. -/
  | switches {text : String} {given switches : List Switch} {rest names : List String}
      (word : Gives (.behind subcommand) text given)
      (tail : Behind subcommand rest switches names) :
      Behind subcommand (text :: rest) (given ++ switches) names
  /-- A word is a name. -/
  | name {text : String} {switches : List Switch} {rest names : List String}
      (word : IsOperand text) (tail : Behind subcommand rest switches names) :
      Behind subcommand (text :: rest) switches (text :: names)

/-- In front of a subcommand stand words that give switches. -/
inductive Written :
    List String → List Switch → Subcommand → List Switch → List String → Prop
  /-- The subcommand comes next. -/
  | subcommand {subcommand : Subcommand} {rest names : List String} {behind : List Switch}
      (tail : Behind subcommand rest behind names) :
      Written (subcommand.name :: rest) [] subcommand behind names
  /-- A word gives switches. -/
  | switches {text : String} {given front behind : List Switch} {rest names : List String}
      {subcommand : Subcommand} (word : Gives .front text given)
      (tail : Written rest front subcommand behind names) :
      Written (text :: rest) (given ++ front) subcommand behind names

/-! ### What a line asks for -/

/-- Whether a subcommand has room for names besides those that were given before. -/
def Room (subcommand : Subcommand) (held : Nat) (names : List String) : Prop :=
  names = [] ∨
    match subcommand.capacity with
    | .nothing => False
    | .one => held + names.length ≤ 1
    | .any => True

/-- The switches on one side go together: none is given twice, the help is not asked for, and the
program is not to say both little and much. -/
structure Fit (switches : List Switch) : Prop where
  /-- No switch is given twice. -/
  once : switches.Nodup
  /-- The help is not asked for. -/
  help : .help ∉ switches
  /-- Not both levels are asked for. -/
  level : ¬(.quiet ∈ switches ∧ .verbose ∈ switches)

/-- The profile that the switches behind a subcommand ask for. -/
def profileOf (switches : List Switch) : BuildProfile :=
  if .release ∈ switches then .release else .debug

/-- The task that a subcommand makes of the switches and names behind it. -/
inductive MakesTask (switches : List Switch) : Subcommand → List String → Task → Prop
  /-- Every name belongs to an architecture, and there is one. -/
  | build {names : List String} {architectures : List Architecture} (each : .all ∉ switches)
      (named : names ≠ [])
      (known : List.Forall₂ (fun name architecture =>
        Architecture.find? name = some architecture) names architectures) :
      MakesTask switches .build names (.build architectures (profileOf switches))
  /-- No architecture is named. -/
  | buildAll (all : .all ∈ switches) :
      MakesTask switches .build [] (.buildAll (profileOf switches))
  /-- One architecture is named. -/
  | run {name : String} {architecture : Architecture}
      (known : Architecture.find? name = some architecture) :
      MakesTask switches .run [name] (.run architecture (decide (.accel ∈ switches))
        (profileOf switches) (decide (.noBuild ∈ switches)))
  /-- Nothing is named. -/
  | clean : MakesTask switches .clean [] .clean

/-- A line asks for an invocation: each side is fit, the names make a task, and how much is said may
be asked for on both sides. -/
def Accepts (texts : List String) (invocation : Invocation) : Prop :=
  ∃ front subcommand behind names, Written texts front subcommand behind names ∧
    Fit front ∧ Fit behind ∧ MakesTask behind subcommand names invocation.task ∧
    (invocation.quiet = true ↔ .quiet ∈ front ++ behind) ∧
    (invocation.verbose = true ↔ .verbose ∈ front ++ behind)

/-! ### How a word is read -/

theorem Switch.name_injective {switch other : Switch} (h : switch.name = other.name) :
    switch = other := by
  revert h
  cases switch <;> cases other <;> decide

theorem Switch.letter?_injective {switch other : Switch} {letter : Char}
    (h : switch.letter? = some letter) (h' : other.letter? = some letter) : switch = other := by
  have hsame : switch.letter? = other.letter? := h.trans h'.symm
  have hsome : switch.letter?.isSome = true := by simp [h]
  clear h h'
  revert hsame hsome
  cases switch <;> cases other <;> decide

theorem Switch.letter?_ne_hyphen (switch : Switch) : switch.letter? ≠ some '-' := by
  cases switch <;> decide

theorem Word.ofText_divider : Word.ofText "--" = .divider := by decide

/-- The long form of a switch is read as its name. -/
theorem Word.ofText_name (switch : Switch) :
    Word.ofText ("--" ++ switch.name) = .long switch.name false := by
  cases switch <;> decide

/-- A hyphen and letters are read as a cluster. -/
theorem Word.ofText_letters {cluster : List Char} (h : cluster ≠ [])
    (hyphen : cluster.head? ≠ some '-') :
    Word.ofText (String.ofList ('-' :: cluster)) = .letters cluster := by
  unfold Word.ofText
  rw [String.toList_ofList]
  split <;> simp_all

theorem Word.ofText_operand {text : String} (h : IsOperand text) :
    Word.ofText text = .operand text := by
  rcases h with rfl | h
  · decide
  · exact ofText_of_head h

/-- A word that is read as a name of a switch, without a value, is that name behind two hyphens. -/
theorem Word.eq_of_ofText_long {text name : String} (h : Word.ofText text = .long name false) :
    text = "--" ++ name := by
  unfold Word.ofText at h
  split at h
  · contradiction
  · contradiction
  · next rest _ ht =>
    obtain ⟨rfl, hvalue⟩ := Word.long.inj h
    have hall : rest.takeWhile (· ≠ '=') = rest := by
      rw [List.takeWhile_eq_self_iff]
      intro letter hm
      simp only [List.contains_eq_mem, decide_eq_false_iff_not] at hvalue
      exact decide_eq_true fun he => hvalue (he ▸ hm)
    rw [← String.toList_inj, ht, hall, String.toList_append]
    exact congrArg (['-', '-'] ++ ·) String.toList_ofList.symm
  · contradiction
  · contradiction

/-- A cluster is written as a hyphen and its letters. -/
theorem Word.eq_of_ofText_letters {text : String} {cluster : List Char}
    (h : Word.ofText text = .letters cluster) :
    cluster ≠ [] ∧ text = String.ofList ('-' :: cluster) := by
  unfold Word.ofText at h
  split at h
  · contradiction
  · contradiction
  · contradiction
  · next letters hsingle _ _ ht =>
    obtain rfl := Word.letters.inj h
    exact ⟨hsingle, by rw [← String.toList_inj, ht, String.toList_ofList]⟩
  · contradiction

theorem Word.eq_of_ofText_divider {text : String} (h : Word.ofText text = .divider) :
    text = "--" := by
  unfold Word.ofText at h
  split at h
  · contradiction
  · next ht => exact String.toList_inj.mp (ht.trans rfl)
  · contradiction
  · contradiction
  · contradiction

/-- A word that is read as a name is an operand and is that name. -/
theorem Word.isOperand_of_ofText {text name : String} (h : Word.ofText text = .operand name) :
    name = text ∧ IsOperand text := by
  unfold Word.ofText at h
  split at h
  · next ht => exact ⟨(Word.operand.inj h).symm, .inl (String.toList_inj.mp (ht.trans rfl))⟩
  · contradiction
  · contradiction
  · contradiction
  · next _ _ _ hfirst =>
    refine ⟨(Word.operand.inj h).symm, .inr fun hh => ?_⟩
    obtain ⟨rest, hr⟩ := List.head?_eq_some_iff.mp hh
    exact hfirst rest hr

/-! ### A line is written in one way -/

/-- How a word that gives switches is read. -/
theorem Gives.word {level : Level} {text : String} {given : List Switch}
    (h : Gives level text given) :
    (∃ switch ∈ level.switches, given = [switch] ∧ Word.ofText text = .long switch.name false) ∨
      ∃ cluster, given ≠ [] ∧ List.Forall₂ (Letters level) given cluster ∧
        Word.ofText text = .letters cluster := by
  cases h with
  | name mem => exact .inl ⟨_, mem, rfl, Word.ofText_name _⟩
  | @letters switches cluster nonempty each =>
    refine .inr ⟨cluster, nonempty, each, ?_⟩
    cases each with
    | nil => contradiction
    | cons first rest =>
      refine Word.ofText_letters (by simp) ?_
      rw [List.head?_cons, ← first.2]
      exact Switch.letter?_ne_hyphen _

/-- A word gives the same switches in every reading. -/
theorem Gives.unique {level : Level} {text : String} {given given' : List Switch}
    (h : Gives level text given) (h' : Gives level text given') : given = given' := by
  rcases h.word with ⟨switch, -, rfl, hw⟩ | ⟨cluster, -, each, hw⟩ <;>
    rcases h'.word with ⟨other, -, rfl, hw'⟩ | ⟨cluster', -, each', hw'⟩ <;>
      rw [hw] at hw'
  · rw [Switch.name_injective (Word.long.inj hw').1]
  · contradiction
  · contradiction
  · obtain rfl := Word.letters.inj hw'
    have hunique : Relator.LeftUnique (Letters level) :=
      fun _ _ _ hs ho => Switch.letter?_injective hs.2 ho.2
    exact List.left_unique_forall₂' hunique each each'

/-- A word that gives switches gives one at least. -/
theorem Gives.ne_nil {level : Level} {text : String} {given : List Switch}
    (h : Gives level text given) : given ≠ [] := by
  cases h with
  | name mem => exact List.cons_ne_nil _ _
  | letters nonempty each => exact nonempty

/-- A word that gives switches is neither a divider nor a name. -/
theorem Gives.ne {level : Level} {text : String} {given : List Switch}
    (h : Gives level text given) : text ≠ "--" ∧ ¬ IsOperand text := by
  have hne : Word.ofText text ≠ .divider ∧ ∀ name, Word.ofText text ≠ .operand name := by
    rcases h.word with ⟨switch, -, -, hw⟩ | ⟨cluster, -, -, hw⟩ <;> simp [hw]
  refine ⟨?_, fun ho => hne.2 text (Word.ofText_operand ho)⟩
  rintro rfl
  exact hne.1 Word.ofText_divider

/-- What stands behind a subcommand is read in one way. -/
theorem Behind.unique {subcommand : Subcommand} {texts names names' : List String}
    {switches switches' : List Switch} (h : Behind subcommand texts switches names)
    (h' : Behind subcommand texts switches' names') : switches = switches' ∧ names = names' := by
  have hdivider : ¬ IsOperand "--" := by simp [IsOperand]
  induction h generalizing switches' names' with
  | done => cases h'; exact ⟨rfl, rfl⟩
  | divided names =>
    cases h' with
    | divided => exact ⟨rfl, rfl⟩
    | switches word tail => exact absurd rfl word.ne.1
    | name word tail => exact absurd word hdivider
  | switches word tail ih =>
    cases h' with
    | divided => exact absurd rfl word.ne.1
    | switches word' tail' =>
      obtain ⟨rfl, rfl⟩ := ih tail'
      exact ⟨by rw [word.unique word'], rfl⟩
    | name word' tail' => exact absurd word' word.ne.2
  | name word tail ih =>
    cases h' with
    | divided => exact absurd word hdivider
    | switches word' tail' => exact absurd word word'.ne.2
    | name word' tail' =>
      obtain ⟨rfl, rfl⟩ := ih tail'
      exact ⟨rfl, rfl⟩

theorem Subcommand.isOperand_name (subcommand : Subcommand) : IsOperand subcommand.name := by
  cases subcommand <;> exact .inr (by decide)

theorem Subcommand.name_injective {subcommand other : Subcommand}
    (h : subcommand.name = other.name) : subcommand = other := by
  have he := ofName?_name subcommand
  rw [h, ofName?_name] at he
  exact (Option.some.inj he).symm

/-- What a written line starts with, and what follows it. -/
theorem Written.cases_cons {text : String} {rest names : List String} {front behind : List Switch}
    {subcommand : Subcommand} (h : Written (text :: rest) front subcommand behind names) :
    (text = subcommand.name ∧ front = [] ∧ Behind subcommand rest behind names) ∨
      ∃ word more, Gives .front text word ∧ front = word ++ more ∧
        Written rest more subcommand behind names := by
  generalize hw : text :: rest = texts at h
  cases h with
  | subcommand tail =>
    obtain ⟨rfl, rfl⟩ := List.cons.inj hw
    exact .inl ⟨rfl, rfl, tail⟩
  | switches word tail =>
    obtain ⟨rfl, rfl⟩ := List.cons.inj hw
    exact .inr ⟨_, _, word, rfl, tail⟩

/-- A command line is written in one way. -/
theorem Written.unique {texts names names' : List String}
    {front front' behind behind' : List Switch} {subcommand subcommand' : Subcommand}
    (h : Written texts front subcommand behind names)
    (h' : Written texts front' subcommand' behind' names') :
    front = front' ∧ subcommand = subcommand' ∧ behind = behind' ∧ names = names' := by
  induction h generalizing front' with
  | subcommand tail =>
    rcases h'.cases_cons with ⟨hname, rfl, tail'⟩ | ⟨word, more, gives, -, -⟩
    · obtain rfl := Subcommand.name_injective hname
      obtain ⟨rfl, rfl⟩ := tail.unique tail'
      exact ⟨rfl, rfl, rfl, rfl⟩
    · exact absurd (Subcommand.isOperand_name _) gives.ne.2
  | switches word tail ih =>
    rcases h'.cases_cons with ⟨rfl, -, -⟩ | ⟨word', more, gives, rfl, tail'⟩
    · exact absurd (Subcommand.isOperand_name _) word.ne.2
    · obtain ⟨rfl, hrest⟩ := ih tail'
      exact ⟨by rw [word.unique gives], hrest⟩

end Bootstage.CommandLine
