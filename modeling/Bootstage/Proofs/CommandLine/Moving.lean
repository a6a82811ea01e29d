import Bootstage.Proofs.CommandLine.Accepting

/-!
# Switches on either side of the subcommand

The switches for how much is said have a place in front of the subcommand and behind it. On one side
they exclude each other, but one side does not know of the other: a line may ask for little in front
and for much behind, and then little is said. So a switch can be moved across the subcommand
wherever the line has no other of them; where it has, one of the two lines may be refused.
-/

namespace Bootstage.CommandLine

/-- The switches for how much is said. -/
def Switch.IsLevel (switch : Switch) : Prop :=
  switch = .quiet ∨ switch = .verbose

/-- One of the switches for how much is said is among the given ones. -/
def TellsLevel (switches : List Switch) : Prop :=
  .quiet ∈ switches ∨ .verbose ∈ switches

/-- Each of the words gives switches, and these are all of them in order. -/
inductive GiveAll (level : Level) : List String → List Switch → Prop
  /-- There are no words. -/
  | nil : GiveAll level [] []
  /-- A word gives some, and the others follow. -/
  | cons {text : String} {given switches : List Switch} {rest : List String}
      (word : Gives level text given) (tail : GiveAll level rest switches) :
      GiveAll level (text :: rest) (given ++ switches)

/-- Some words are written anew, so that they give one switch more: in a word of its own, or with a
letter in one that gives others, too. This is not done behind a divider. -/
inductive Adds (level : Level) (option : Switch) : List String → List String → Prop
  /-- The old words give the switches in front of the new one and those behind it. -/
  | anew {front old new rest : List String} {earlier later : List Switch}
      (undivided : "--" ∉ front) (without : GiveAll level old (earlier ++ later))
      (given : GiveAll level new (earlier ++ option :: later)) :
      Adds level option (front ++ (old ++ rest)) (front ++ (new ++ rest))

/-- The words in front of a subcommand tell how much is to be said. -/
def FrontTells (words : List String) : Prop :=
  ∃ switches, GiveAll .front words switches ∧ TellsLevel switches

/-- The words behind a subcommand tell how much is to be said. -/
def BehindTells (subcommand : Subcommand) (words : List String) : Prop :=
  ∃ switches names, Behind subcommand words switches names ∧ TellsLevel switches

/-- The invocation with one more switch for how much is said. -/
def Invocation.asking (invocation : Invocation) (option : Switch) : Invocation :=
  { invocation with
    quiet := invocation.quiet || option = .quiet
    verbose := invocation.verbose || option = .verbose }

variable {level : Level} {subcommand other : Subcommand} {option : Switch}
  {words words' front rest rest' texts names : List String}
  {given switches switches' : List Switch} {task : Task} {invocation : Invocation}

/-! ### Words in the middle of a side -/

/-- Words give switches exactly if their two parts do. -/
theorem giveAll_append_iff :
    GiveAll level (front ++ rest) switches ↔ ∃ first second, GiveAll level front first ∧
      GiveAll level rest second ∧ switches = first ++ second := by
  induction front generalizing switches with
  | nil =>
    constructor
    · exact fun h => ⟨[], switches, .nil, h, rfl⟩
    · rintro ⟨first, second, hfirst, hsecond, rfl⟩
      cases hfirst
      exact hsecond
  | cons text front ih =>
    constructor
    · intro h
      cases h with
      | cons word tail =>
        obtain ⟨first, second, hfirst, hsecond, rfl⟩ := ih.mp tail
        exact ⟨_, second, .cons word hfirst, hsecond, (List.append_assoc _ _ _).symm⟩
    · rintro ⟨first, second, hfirst, hsecond, rfl⟩
      cases hfirst with
      | cons word tail =>
        rw [List.append_assoc]
        exact .cons word (ih.mpr ⟨_, second, tail, hsecond, rfl⟩)

theorem GiveAll.unique (h : GiveAll level words switches) (h' : GiveAll level words switches') :
    switches = switches' := by
  induction h generalizing switches' with
  | nil => cases h'; rfl
  | cons word tail ih =>
    cases h' with
    | cons word' tail' => rw [word.unique word', ih tail']

/-- What stands in front of other words is read apart from them, up to a divider. -/
theorem behind_append_iff (undivided : "--" ∉ front) :
    Behind subcommand (front ++ rest) switches names ↔ ∃ first second called others,
      Behind subcommand front first called ∧ Behind subcommand rest second others ∧
        switches = first ++ second ∧ names = called ++ others := by
  induction front generalizing switches names with
  | nil =>
    constructor
    · exact fun h => ⟨[], switches, [], names, .done, h, rfl, rfl⟩
    · rintro ⟨first, second, called, others, hfirst, hsecond, rfl, rfl⟩
      cases hfirst
      exact hsecond
  | cons text front ih =>
    obtain ⟨htext, hfront⟩ := not_or.mp (mt List.mem_cons.mpr undivided)
    constructor
    · intro h
      cases h with
      | divided => exact absurd rfl htext
      | switches word tail =>
        obtain ⟨first, second, called, others, hfirst, hsecond, rfl, rfl⟩ := (ih hfront).mp tail
        exact ⟨_, second, called, others, .switches word hfirst, hsecond,
          (List.append_assoc _ _ _).symm, rfl⟩
      | name word tail =>
        obtain ⟨first, second, called, others, hfirst, hsecond, rfl, rfl⟩ := (ih hfront).mp tail
        exact ⟨first, second, _, others, .name word hfirst, hsecond, rfl, rfl⟩
    · rintro ⟨first, second, called, others, hfirst, hsecond, rfl, rfl⟩
      cases hfirst with
      | divided => exact absurd rfl htext
      | switches word tail =>
        rw [List.append_assoc]
        exact .switches word ((ih hfront).mpr ⟨_, second, called, others, tail, hsecond, rfl, rfl⟩)
      | name word tail =>
        exact .name word ((ih hfront).mpr ⟨first, second, _, others, tail, hsecond, rfl, rfl⟩)

/-- Behind a subcommand the switches of a first word come before those of the others. -/
theorem behind_cons_iff {text : String} (word : Gives (.behind subcommand) text given) :
    Behind subcommand (text :: rest) switches names ↔
      ∃ others, Behind subcommand rest others names ∧ switches = given ++ others := by
  constructor
  · intro h
    cases h with
    | divided => exact absurd rfl word.ne.1
    | switches word' tail => exact ⟨_, tail, by rw [word.unique word']⟩
    | name word' tail => exact absurd word' word.ne.2
  · rintro ⟨others, tail, rfl⟩
    exact .switches word tail

/-- Words that give switches behind a subcommand give them in front of what the rest gives. -/
theorem GiveAll.behind_iff (h : GiveAll (.behind subcommand) words given) :
    Behind subcommand (words ++ rest) switches names ↔
      ∃ others, Behind subcommand rest others names ∧ switches = given ++ others := by
  induction h generalizing switches with
  | nil => exact ⟨fun h => ⟨switches, h, rfl⟩, by rintro ⟨others, h, rfl⟩; exact h⟩
  | cons word tail ih =>
    rw [List.cons_append, behind_cons_iff word]
    constructor
    · rintro ⟨others, h, rfl⟩
      obtain ⟨more, hmore, rfl⟩ := ih.mp h
      exact ⟨more, hmore, (List.append_assoc _ _ _).symm⟩
    · rintro ⟨others, h, rfl⟩
      exact ⟨_, ih.mpr ⟨others, h, rfl⟩, List.append_assoc _ _ _⟩

/-- Words that give switches do so in the middle of other words, too. -/
theorem giveAll_amid_iff (h : GiveAll level words given) :
    GiveAll level (front ++ (words ++ rest)) switches ↔ ∃ first second,
      GiveAll level front first ∧ GiveAll level rest second ∧
        switches = first ++ (given ++ second) := by
  rw [giveAll_append_iff]
  constructor
  · rintro ⟨first, middle, hfirst, hmiddle, rfl⟩
    obtain ⟨given', second, hgiven, hsecond, rfl⟩ := giveAll_append_iff.mp hmiddle
    obtain rfl := h.unique hgiven
    exact ⟨first, second, hfirst, hsecond, rfl⟩
  · rintro ⟨first, second, hfirst, hsecond, rfl⟩
    exact ⟨first, _, hfirst, giveAll_append_iff.mpr ⟨given, second, h, hsecond, rfl⟩, rfl⟩

/-- In the midst of the words behind a subcommand some words give their switches at their place,
unless a divider stands in front of them. -/
theorem behind_amid_iff (undivided : "--" ∉ front) (h : GiveAll (.behind subcommand) words given) :
    Behind subcommand (front ++ (words ++ rest)) switches names ↔
      ∃ first second called others, Behind subcommand front first called ∧
        Behind subcommand rest second others ∧
          switches = first ++ (given ++ second) ∧ names = called ++ others := by
  rw [behind_append_iff undivided]
  constructor
  · rintro ⟨first, middle, called, others, hfirst, hmiddle, rfl, rfl⟩
    obtain ⟨second, hsecond, rfl⟩ := h.behind_iff.mp hmiddle
    exact ⟨first, second, called, others, hfirst, hsecond, rfl, rfl⟩
  · rintro ⟨first, second, called, others, hfirst, hsecond, rfl, rfl⟩
    exact ⟨first, _, called, others, hfirst, h.behind_iff.mpr ⟨second, hsecond, rfl⟩, rfl, rfl⟩

/-- A switch in the middle of a side could as well stand in front of it. -/
theorem perm_amid (first earlier later second : List Switch) :
    (first ++ ((earlier ++ option :: later) ++ second)).Perm
      (option :: (first ++ ((earlier ++ later) ++ second))) := by
  have hinner : ((earlier ++ option :: later) ++ second).Perm
      (option :: ((earlier ++ later) ++ second)) :=
    List.perm_middle.append_right second
  exact (hinner.append_left first).trans List.perm_middle

/-- With a switch more among the words of a front, they give all that they gave before and that
switch. -/
theorem Adds.giveAll (h : Adds level option words words') :
    (∀ switches, GiveAll level words switches →
        ∃ more, GiveAll level words' more ∧ more.Perm (option :: switches)) ∧
      ∀ more, GiveAll level words' more →
        ∃ switches, GiveAll level words switches ∧ more.Perm (option :: switches) := by
  cases h with
  | anew undivided without given =>
    constructor
    · intro switches hswitches
      obtain ⟨first, second, hfirst, hsecond, rfl⟩ := (giveAll_amid_iff without).mp hswitches
      exact ⟨_, (giveAll_amid_iff given).mpr ⟨first, second, hfirst, hsecond, rfl⟩,
        perm_amid _ _ _ _⟩
    · intro more hmore
      obtain ⟨first, second, hfirst, hsecond, rfl⟩ := (giveAll_amid_iff given).mp hmore
      exact ⟨_, (giveAll_amid_iff without).mpr ⟨first, second, hfirst, hsecond, rfl⟩,
        perm_amid _ _ _ _⟩

/-- Behind a subcommand it is the same, and the names remain. -/
theorem Adds.behind (h : Adds (.behind subcommand) option rest rest') :
    (∀ switches, Behind subcommand rest switches names →
        ∃ more, Behind subcommand rest' more names ∧ more.Perm (option :: switches)) ∧
      ∀ more, Behind subcommand rest' more names →
        ∃ switches, Behind subcommand rest switches names ∧ more.Perm (option :: switches) := by
  cases h with
  | anew undivided without given =>
    constructor
    · intro switches hswitches
      obtain ⟨first, second, called, others, hfirst, hsecond, rfl, rfl⟩ :=
        (behind_amid_iff undivided without).mp hswitches
      exact ⟨_, (behind_amid_iff undivided given).mpr
        ⟨first, second, called, others, hfirst, hsecond, rfl, rfl⟩, perm_amid _ _ _ _⟩
    · intro more hmore
      obtain ⟨first, second, called, others, hfirst, hsecond, rfl, rfl⟩ :=
        (behind_amid_iff undivided given).mp hmore
      exact ⟨_, (behind_amid_iff undivided without).mpr
        ⟨first, second, called, others, hfirst, hsecond, rfl, rfl⟩, perm_amid _ _ _ _⟩

/-! ### One switch more on a side -/

/-- A side with one switch more for how much is said is fit if it was fit and had none. -/
theorem fit_iff_of_perm (hlevel : option.IsLevel) (h : switches'.Perm (option :: switches)) :
    Fit switches' ↔ Fit switches ∧ ¬ TellsLevel switches := by
  have hmem : ∀ switch, switch ∈ switches' ↔ switch = option ∨ switch ∈ switches :=
    fun switch => h.mem_iff.trans List.mem_cons
  constructor
  · rintro ⟨once, help, level⟩
    obtain ⟨hnew, hnodup⟩ := List.nodup_cons.mp (h.nodup_iff.mp once)
    have hold : ∀ {switch}, switch ∈ switches → switch ∈ switches' :=
      fun hm => (hmem _).mpr (.inr hm)
    have hoption : option ∈ switches' := (hmem option).mpr (.inl rfl)
    refine ⟨⟨hnodup, fun hm => help (hold hm), fun hm => level ⟨hold hm.1, hold hm.2⟩⟩, ?_⟩
    rintro (hquiet | hverbose) <;> rcases hlevel with rfl | rfl
    · exact hnew hquiet
    · exact level ⟨hold hquiet, hoption⟩
    · exact level ⟨hoption, hold hverbose⟩
    · exact hnew hverbose
  · rintro ⟨⟨once, help, -⟩, hnone⟩
    obtain ⟨hquiet, hverbose⟩ := not_or.mp hnone
    have hnew : option ∉ switches := by
      rcases hlevel with rfl | rfl
      · exact hquiet
      · exact hverbose
    refine ⟨h.nodup_iff.mpr (List.nodup_cons.mpr ⟨hnew, once⟩), fun hm => ?_, fun hm => ?_⟩
    · rcases (hmem .help).mp hm with rfl | hm
      · rcases hlevel with h | h <;> contradiction
      · exact help hm
    · have hq := ((hmem .quiet).mp hm.1).resolve_right hquiet
      have hv := ((hmem .verbose).mp hm.2).resolve_right hverbose
      exact absurd (hq.trans hv.symm) (by decide)

/-- The task depends on what is given besides. -/
theorem makesTask_congr
    (h : ∀ switch, ¬ switch.IsLevel → (switch ∈ switches' ↔ switch ∈ switches))
    (makes : MakesTask switches subcommand names task) :
    MakesTask switches' subcommand names task := by
  have hall := h .all (by simp [Switch.IsLevel])
  have hprofile : profileOf switches = profileOf switches' :=
    if_congr (h .release (by simp [Switch.IsLevel])).symm rfl rfl
  have haccel : decide (.accel ∈ switches) = decide (.accel ∈ switches') :=
    decide_eq_decide.mpr (h .accel (by simp [Switch.IsLevel])).symm
  have hbuild : decide (.noBuild ∈ switches) = decide (.noBuild ∈ switches') :=
    decide_eq_decide.mpr (h .noBuild (by simp [Switch.IsLevel])).symm
  cases makes with
  | build each named known =>
    rw [hprofile]
    exact .build (mt hall.mp each) named known
  | buildAll all =>
    rw [hprofile]
    exact .buildAll (hall.mpr all)
  | run known =>
    rw [hprofile, haccel, hbuild]
    exact .run known
  | clean => exact .clean

/-- A switch that tells the level makes no other task. -/
theorem makesTask_iff_of_perm (hlevel : option.IsLevel)
    (h : switches'.Perm (option :: switches)) :
    MakesTask switches' subcommand names task ↔ MakesTask switches subcommand names task := by
  have hmem : ∀ switch, ¬ switch.IsLevel → (switch ∈ switches' ↔ switch ∈ switches) := by
    intro switch hother
    rw [h.mem_iff, List.mem_cons, or_iff_right]
    rintro rfl
    exact hother hlevel
  exact ⟨makesTask_congr fun switch hs => (hmem switch hs).symm, makesTask_congr hmem⟩

/-! ### Lines with a switch more -/

/-- The subcommand is the first word that is no switch; what is in front of it gives switches. -/
theorem written_sides_iff (plain : ∀ text ∈ words, ¬ IsOperand text) :
    Written (words ++ subcommand.name :: rest) switches other behind names ↔
      GiveAll .front words switches ∧ other = subcommand ∧
        Behind subcommand rest behind names := by
  induction words generalizing switches with
  | nil =>
    constructor
    · intro h
      rcases h.cases_cons with ⟨hname, rfl, tail⟩ | ⟨word, more, gives, -, -⟩
      · obtain rfl := Subcommand.name_injective hname
        exact ⟨.nil, rfl, tail⟩
      · exact absurd subcommand.isOperand_name gives.ne.2
    · rintro ⟨hfront, rfl, tail⟩
      cases hfront
      exact .subcommand tail
  | cons text words ih =>
    obtain ⟨hfirst, hrest⟩ := List.forall_mem_cons.mp plain
    constructor
    · intro h
      rcases h.cases_cons with ⟨rfl, -, -⟩ | ⟨word, more, gives, rfl, tail⟩
      · exact absurd other.isOperand_name hfirst
      · obtain ⟨hfront, hsides⟩ := (ih hrest).mp tail
        exact ⟨.cons gives hfront, hsides⟩
    · rintro ⟨hfront, hsides⟩
      cases hfront with
      | cons gives tail => exact .switches gives ((ih hrest).mpr ⟨tail, hsides⟩)

/-- Words that give switches are no operands. -/
theorem GiveAll.not_isOperand (h : GiveAll level words switches) :
    ∀ text ∈ words, ¬ IsOperand text := by
  induction h with
  | nil => simp
  | cons word tail ih => exact List.forall_mem_cons.mpr ⟨word.ne.2, ih⟩

/-- Among words without operands none is added with a switch. -/
theorem Adds.not_isOperand (h : Adds level option words words')
    (plain : ∀ text ∈ words, ¬ IsOperand text) : ∀ text ∈ words', ¬ IsOperand text := by
  cases h with
  | anew undivided without given =>
    simp only [List.forall_mem_append] at plain ⊢
    exact ⟨plain.1, given.not_isOperand, plain.2.2⟩

/-- Two sides ask for an invocation. -/
def Asks (front behind : List Switch) (subcommand : Subcommand) (names : List String)
    (invocation : Invocation) : Prop :=
  Fit front ∧ Fit behind ∧ MakesTask behind subcommand names invocation.task ∧
    (invocation.quiet = true ↔ .quiet ∈ front ++ behind) ∧
    (invocation.verbose = true ↔ .verbose ∈ front ++ behind)

/-- A line is accepted for what the words on its two sides give. -/
theorem accepts_sides_iff (plain : ∀ text ∈ words, ¬ IsOperand text) :
    Accepts (words ++ subcommand.name :: rest) invocation ↔ ∃ front behind names,
      GiveAll .front words front ∧ Behind subcommand rest behind names ∧
        Asks front behind subcommand names invocation := by
  constructor
  · rintro ⟨front, other, behind, names, written, asks⟩
    obtain ⟨hfront, rfl, hbehind⟩ := (written_sides_iff plain).mp written
    exact ⟨front, behind, names, hfront, hbehind, asks⟩
  · rintro ⟨front, behind, names, hfront, hbehind, asks⟩
    exact ⟨front, subcommand, behind, names, (written_sides_iff plain).mpr ⟨hfront, rfl, hbehind⟩,
      asks⟩

/-- An invocation asks for one more level exactly if it does all that it did and that. -/
theorem asking_iff {bare : Invocation} :
    invocation = bare.asking option ↔ invocation.task = bare.task ∧
      (invocation.quiet = true ↔ .quiet = option ∨ bare.quiet = true) ∧
        (invocation.verbose = true ↔ .verbose = option ∨ bare.verbose = true) := by
  have hquiet : (bare.asking option).quiet = true ↔ .quiet = option ∨ bare.quiet = true := by
    simp [Invocation.asking, or_comm, eq_comm (a := option)]
  have hverbose : (bare.asking option).verbose = true ↔
      .verbose = option ∨ bare.verbose = true := by
    simp [Invocation.asking, or_comm, eq_comm (a := option)]
  rw [← hquiet, ← hverbose, ← Bool.eq_iff_iff, ← Bool.eq_iff_iff]
  cases invocation
  simp [Invocation.asking]

/-- One switch more shows in the invocation, whichever side it is on. -/
theorem exists_asking_iff {all all' : List Switch} (h : all'.Perm (option :: all)) :
    ((invocation.quiet = true ↔ .quiet ∈ all') ∧ (invocation.verbose = true ↔ .verbose ∈ all')) ↔
      ∃ bare : Invocation, bare.task = invocation.task ∧ (bare.quiet = true ↔ .quiet ∈ all) ∧
        (bare.verbose = true ↔ .verbose ∈ all) ∧ invocation = bare.asking option := by
  simp only [h.mem_iff, List.mem_cons, asking_iff]
  constructor
  · rintro ⟨hquiet, hverbose⟩
    exact ⟨⟨invocation.task, decide (.quiet ∈ all), decide (.verbose ∈ all)⟩, rfl, by simp,
      by simp, rfl, by simpa using hquiet, by simpa using hverbose⟩
  · rintro ⟨bare, -, hquiet, hverbose, -, hquiet', hverbose'⟩
    rw [hquiet', hverbose', hquiet, hverbose]
    exact ⟨Iff.rfl, Iff.rfl⟩

/-- With a switch for the level added in front the same is asked for, and that level, if none was
told there. -/
theorem asks_front_iff {front front' behind : List Switch} (hlevel : option.IsLevel)
    (h : front'.Perm (option :: front)) :
    Asks front' behind subcommand names invocation ↔ ¬ TellsLevel front ∧
      ∃ bare, Asks front behind subcommand names bare ∧ invocation = bare.asking option := by
  have hall : (front' ++ behind).Perm (option :: (front ++ behind)) := h.append_right behind
  rw [Asks, fit_iff_of_perm hlevel h, exists_asking_iff hall]
  constructor
  · rintro ⟨⟨fit, hnone⟩, fitBehind, makes, bare, htask, hquiet, hverbose, heq⟩
    exact ⟨hnone, bare, ⟨fit, fitBehind, htask ▸ makes, hquiet, hverbose⟩, heq⟩
  · rintro ⟨hnone, bare, ⟨fit, fitBehind, makes, hquiet, hverbose⟩, rfl⟩
    exact ⟨⟨fit, hnone⟩, fitBehind, makes, bare, rfl, hquiet, hverbose, rfl⟩

/-- So it is with a switch that is added behind. -/
theorem asks_behind_iff {front behind behind' : List Switch} (hlevel : option.IsLevel)
    (h : behind'.Perm (option :: behind)) :
    Asks front behind' subcommand names invocation ↔ ¬ TellsLevel behind ∧
      ∃ bare, Asks front behind subcommand names bare ∧ invocation = bare.asking option := by
  have hall : (front ++ behind').Perm (option :: (front ++ behind)) :=
    (h.append_left front).trans List.perm_middle
  rw [Asks, fit_iff_of_perm hlevel h, makesTask_iff_of_perm hlevel h, exists_asking_iff hall]
  constructor
  · rintro ⟨fitFront, ⟨fit, hnone⟩, makes, bare, htask, hquiet, hverbose, heq⟩
    exact ⟨hnone, bare, ⟨fitFront, fit, htask ▸ makes, hquiet, hverbose⟩, heq⟩
  · rintro ⟨hnone, bare, ⟨fitFront, fit, makes, hquiet, hverbose⟩, rfl⟩
    exact ⟨fitFront, ⟨fit, hnone⟩, makes, bare, rfl, hquiet, hverbose, rfl⟩

/-- With one switch more in front, a line is accepted if it is without it and the front tells
nothing else of how much is to be said. -/
theorem accepts_front_iff (hlevel : option.IsLevel) (plain : ∀ text ∈ words, ¬ IsOperand text)
    (adds : Adds .front option words words') :
    Accepts (words' ++ subcommand.name :: rest) invocation ↔ ¬ FrontTells words ∧
      ∃ bare, Accepts (words ++ subcommand.name :: rest) bare ∧
        invocation = bare.asking option := by
  simp only [accepts_sides_iff plain, accepts_sides_iff (adds.not_isOperand plain)]
  constructor
  · rintro ⟨front', behind, names, hfront', hbehind, asks⟩
    obtain ⟨front, hfront, hperm⟩ := adds.giveAll.2 front' hfront'
    obtain ⟨hnone, bare, hbare, heq⟩ := (asks_front_iff hlevel hperm).mp asks
    refine ⟨?_, bare, ⟨front, behind, names, hfront, hbehind, hbare⟩, heq⟩
    rintro ⟨told, htold, htells⟩
    obtain rfl := hfront.unique htold
    exact hnone htells
  · rintro ⟨hnone, bare, ⟨front, behind, names, hfront, hbehind, hbare⟩, heq⟩
    obtain ⟨front', hfront', hperm⟩ := adds.giveAll.1 front hfront
    have hsilent : ¬ TellsLevel front := fun htells => hnone ⟨front, hfront, htells⟩
    exact ⟨front', behind, names, hfront', hbehind,
      (asks_front_iff hlevel hperm).mpr ⟨hsilent, bare, hbare, heq⟩⟩

/-- So it is with one switch more behind the subcommand. -/
theorem accepts_behind_iff (hlevel : option.IsLevel) (plain : ∀ text ∈ words, ¬ IsOperand text)
    (adds : Adds (.behind subcommand) option rest rest') :
    Accepts (words ++ subcommand.name :: rest') invocation ↔ ¬ BehindTells subcommand rest ∧
      ∃ bare, Accepts (words ++ subcommand.name :: rest) bare ∧
        invocation = bare.asking option := by
  simp only [accepts_sides_iff plain]
  constructor
  · rintro ⟨front, behind', names, hfront, hbehind', asks⟩
    obtain ⟨behind, hbehind, hperm⟩ := adds.behind.2 behind' hbehind'
    obtain ⟨hnone, bare, hbare, heq⟩ := (asks_behind_iff hlevel hperm).mp asks
    refine ⟨?_, bare, ⟨front, behind, names, hfront, hbehind, hbare⟩, heq⟩
    rintro ⟨told, called, htold, htells⟩
    obtain ⟨rfl, -⟩ := hbehind.unique htold
    exact hnone htells
  · rintro ⟨hnone, bare, ⟨front, behind, names, hfront, hbehind, hbare⟩, heq⟩
    obtain ⟨behind', hbehind', hperm⟩ := adds.behind.1 behind hbehind
    have hsilent : ¬ TellsLevel behind := fun htells => hnone ⟨behind, names, hbehind, htells⟩
    exact ⟨front, behind', names, hfront, hbehind',
      (asks_behind_iff hlevel hperm).mpr ⟨hsilent, bare, hbare, heq⟩⟩

/-! ### Both levels at once -/

/-- On one side of the line both levels are asked for. -/
def Crowded (texts : List String) : Prop :=
  ∃ front subcommand behind names, Written texts front subcommand behind names ∧
    ((.quiet ∈ front ∧ .verbose ∈ front) ∨ (.quiet ∈ behind ∧ .verbose ∈ behind))

/-- One level is asked for in front of the subcommand and the other one behind it. -/
def Opposed (texts : List String) : Prop :=
  ∃ front subcommand behind names, Written texts front subcommand behind names ∧
    ((.quiet ∈ front ∧ .verbose ∈ behind) ∨ (.verbose ∈ front ∧ .quiet ∈ behind))

/-- What becomes of a line when a switch is put in front of its subcommand or behind it: `words` and
`rest` are the two sides without the switch, `words'` and `rest'` with it. -/
structure MovingAccount (option : Switch) (subcommand : Subcommand)
    (words words' rest rest' : List String) : Prop where
  /-- In front it is taken up unless the front tells a level already. -/
  front_iff : ∀ invocation, read (words' ++ subcommand.name :: rest) = .ok invocation ↔
    ¬ FrontTells words ∧ ∃ bare, read (words ++ subcommand.name :: rest) = .ok bare ∧
      invocation = bare.asking option
  /-- Behind the subcommand it is taken up unless the words there tell a level already. -/
  behind_iff : ∀ invocation, read (words ++ subcommand.name :: rest') = .ok invocation ↔
    ¬ BehindTells subcommand rest ∧ ∃ bare, read (words ++ subcommand.name :: rest) = .ok bare ∧
      invocation = bare.asking option
  /-- If nothing else tells a level, it makes no difference on which side the switch is. -/
  moved : ¬ FrontTells words → ¬ BehindTells subcommand rest → ∀ invocation,
    read (words' ++ subcommand.name :: rest) = .ok invocation ↔
      read (words ++ subcommand.name :: rest') = .ok invocation
  /-- In any case two lines that are accepted are accepted for the same. -/
  same : ∀ invocation other, read (words' ++ subcommand.name :: rest) = .ok invocation →
    read (words ++ subcommand.name :: rest') = .ok other → invocation = other
  /-- If one side alone tells a level, one of the lines is accepted and the other one is not. -/
  lost : ∀ bare, read (words ++ subcommand.name :: rest) = .ok bare →
    ((read (words' ++ subcommand.name :: rest) = .ok (bare.asking option) ↔
        ¬ FrontTells words) ∧
      (read (words ++ subcommand.name :: rest') = .ok (bare.asking option) ↔
        ¬ BehindTells subcommand rest))

/-- What becomes of a line with switches for how much is said. -/
structure SidesAccount (texts : List String) : Prop where
  /-- If they are on one side, the line is not accepted. -/
  excluded : Crowded texts → ∀ invocation, read texts ≠ .ok invocation
  /-- A line that is accepted has both exactly if one of them is on either side. -/
  both_iff : ∀ invocation, read texts = .ok invocation →
    (invocation.quiet = true ∧ invocation.verbose = true ↔ Opposed texts)
  /-- Little is said then. -/
  quiet : ∀ invocation, read texts = .ok invocation → Opposed texts →
    invocation.verbosity = .quiet
  /-- So is told what becomes of it when a switch is moved across its subcommand. -/
  moving : ∀ option subcommand words words' rest rest', Switch.IsLevel option →
    (∀ text ∈ words, ¬ IsOperand text) → Adds .front option words words' →
    Adds (.behind subcommand) option rest rest' →
    texts = words' ++ subcommand.name :: rest ∨ texts = words ++ subcommand.name :: rest' →
      MovingAccount option subcommand words words' rest rest'

/-- Both levels are asked for by the lines that have one of them on either side, and by no others
that are accepted. -/
theorem both_iff_opposed (h : read texts = .ok invocation) :
    invocation.quiet = true ∧ invocation.verbose = true ↔ Opposed texts := by
  obtain ⟨front, subcommand, behind, names, written, fitFront, fitBehind, -, hquiet, hverbose⟩ :=
    read_eq_ok_iff.mp h
  rw [hquiet, hverbose, List.mem_append, List.mem_append]
  constructor
  · rintro ⟨hq | hq, hv | hv⟩
    · exact absurd ⟨hq, hv⟩ fitFront.level
    · exact ⟨front, subcommand, behind, names, written, .inl ⟨hq, hv⟩⟩
    · exact ⟨front, subcommand, behind, names, written, .inr ⟨hv, hq⟩⟩
    · exact absurd ⟨hq, hv⟩ fitBehind.level
  · rintro ⟨front', subcommand', behind', names', written', hsides⟩
    obtain ⟨rfl, -, rfl, -⟩ := written.unique written'
    rcases hsides with ⟨hq, hv⟩ | ⟨hv, hq⟩
    · exact ⟨.inl hq, .inr hv⟩
    · exact ⟨.inr hq, .inl hv⟩

/-- A switch for how much is said is moved across the subcommand without loss if the line has no
other such switch, and in any case without a change of what the line is accepted for. -/
theorem movingAccount (hlevel : option.IsLevel) (plain : ∀ text ∈ words, ¬ IsOperand text)
    (front : Adds .front option words words')
    (behind : Adds (.behind subcommand) option rest rest') :
    MovingAccount option subcommand words words' rest rest' := by
  have hfront : ∀ invocation, read (words' ++ subcommand.name :: rest) = .ok invocation ↔
      ¬ FrontTells words ∧ ∃ bare, read (words ++ subcommand.name :: rest) = .ok bare ∧
        invocation = bare.asking option := by
    simp only [read_eq_ok_iff]
    exact fun _ => accepts_front_iff hlevel plain front
  have hbehind : ∀ invocation, read (words ++ subcommand.name :: rest') = .ok invocation ↔
      ¬ BehindTells subcommand rest ∧ ∃ bare, read (words ++ subcommand.name :: rest) = .ok bare ∧
        invocation = bare.asking option := by
    simp only [read_eq_ok_iff]
    exact fun _ => accepts_behind_iff hlevel plain behind
  refine ⟨hfront, hbehind, ?moved, ?same, ?lost⟩
  case moved =>
    intro hsilent hsilent' invocation
    rw [hfront, hbehind, and_iff_right hsilent, and_iff_right hsilent']
  case same =>
    intro invocation other h h'
    obtain ⟨-, bare, hbare, rfl⟩ := (hfront invocation).mp h
    obtain ⟨-, bare', hbare', rfl⟩ := (hbehind other).mp h'
    obtain rfl := Except.ok.inj (hbare.symm.trans hbare')
    rfl
  case lost =>
    intro bare hbare
    rw [hfront, hbehind]
    exact ⟨and_iff_left ⟨bare, hbare, rfl⟩, and_iff_left ⟨bare, hbare, rfl⟩⟩

/-- The two levels exclude each other on the same side of the subcommand and on no other. A switch
for one of them can be moved across the subcommand of a line that has no other such switch. -/
theorem sides_account (texts : List String) : SidesAccount texts := by
  refine ⟨?excluded, fun invocation => both_iff_opposed, ?quiet, ?moving⟩
  case excluded =>
    rintro ⟨front, subcommand, behind, names, written, hsides⟩ invocation h
    obtain ⟨front', subcommand', behind', names', written', fitFront, fitBehind, -⟩ :=
      read_eq_ok_iff.mp h
    obtain ⟨rfl, -, rfl, -⟩ := written.unique written'
    exact hsides.elim fitFront.level fitBehind.level
  case quiet =>
    intro invocation h hopposed
    obtain ⟨hquiet, -⟩ := (both_iff_opposed h).mpr hopposed
    simp [Invocation.verbosity, Verbosity.ofFlags, hquiet]
  case moving =>
    intro option subcommand words words' rest rest' hlevel plain front behind _
    exact movingAccount hlevel plain front behind

/-! ### Short lines -/

theorem gives_quiet : Gives .front "-q" [.quiet] := by
  have h : Gives .front (String.ofList ('-' :: ['q'])) [.quiet] :=
    .letters (by decide) (.cons ⟨by decide, rfl⟩ .nil)
  exact h

theorem gives_release : Gives (.behind .run) "-r" [.release] := by
  have h : Gives (.behind .run) (String.ofList ('-' :: ['r'])) [.release] :=
    .letters (by decide) (.cons ⟨by decide, rfl⟩ .nil)
  exact h

theorem gives_both : Gives (.behind .run) "-rq" [.release, .quiet] := by
  have h : Gives (.behind .run) (String.ofList ('-' :: ['r', 'q'])) [.release, .quiet] :=
    .letters (by decide) (.cons ⟨by decide, rfl⟩ (.cons ⟨by decide, rfl⟩ .nil))
  exact h

/-- Little is said if both levels are asked for, and a switch is moved into a cluster. -/
theorem sides_account_sample :
    (Opposed ["-v", "clean", "-q"] ∧
      ∀ invocation, read ["-v", "clean", "-q"] = .ok invocation → invocation.verbosity = .quiet) ∧
    Adds .front .quiet [] ["-q"] ∧ Adds (.behind .run) .quiet ["-r", "x64"] ["-rq", "x64"] ∧
      ∀ invocation, read ["-q", "run", "-r", "x64"] = .ok invocation ↔
        read ["run", "-rq", "x64"] = .ok invocation := by
  have accepted : read ["-v", "clean", "-q"] = .ok ⟨.clean, true, true⟩ := by decide
  have account := sides_account ["-v", "clean", "-q"]
  have opposed : Opposed ["-v", "clean", "-q"] :=
    (account.both_iff _ accepted).mp ⟨rfl, rfl⟩
  have front : Adds .front .quiet [] ["-q"] := by
    have without : GiveAll .front [] ([] ++ []) := .nil
    have given : GiveAll .front ["-q"] ([.quiet] ++ []) := .cons gives_quiet .nil
    have h : Adds .front .quiet ([] ++ ([] ++ [])) ([] ++ (["-q"] ++ [])) :=
      .anew (by simp) without given
    exact h
  have behind : Adds (.behind .run) .quiet ["-r", "x64"] ["-rq", "x64"] := by
    have without : GiveAll (.behind .run) ["-r"] ([.release] ++ []) := .cons gives_release .nil
    have given : GiveAll (.behind .run) ["-rq"] ([.release, .quiet] ++ []) :=
      .cons gives_both .nil
    have h : Adds (.behind .run) .quiet ([] ++ (["-r"] ++ ["x64"])) ([] ++ (["-rq"] ++ ["x64"])) :=
      .anew (by simp) without given
    exact h
  have hrest : Behind .run ["-r", "x64"] ([.release] ++ []) ["x64"] :=
    .switches gives_release (.name (.inr (by decide)) .done)
  have moving := (sides_account ["-q", "run", "-r", "x64"]).moving .quiet .run [] ["-q"]
    ["-r", "x64"] ["-rq", "x64"] (.inl rfl) (by simp) front behind (.inl rfl)
  refine ⟨⟨opposed, fun invocation h => account.quiet invocation h opposed⟩, front, behind,
    moving.moved ?_ ?_⟩
  · rintro ⟨switches, h, htells⟩
    cases h
    simp [TellsLevel] at htells
  · rintro ⟨switches, names, h, htells⟩
    obtain ⟨rfl, -⟩ := h.unique hrest
    simp [TellsLevel] at htells

/-- A line with a switch on either side is accepted for both levels, and it is refused when one of
them is moved to the other. -/
theorem both_levels_across :
    read ["-q", "clean", "-v"] = .ok ⟨.clean, true, true⟩ ∧
      read ["clean", "-q", "-v"] = .error (.refused .argumentConflict) := by
  decide

end Bootstage.CommandLine
