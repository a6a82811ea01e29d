import Bootstage.Proofs.CommandLine.Accepting

/-!
# Command lines that ask for help

The help is shown as soon as a word asks for it, whatever is written behind that word, if all that
is written in front of it has its place there. The subcommand for help asks for it as well.
-/

namespace Bootstage

/-- A computation in two steps fails with the failure of the step that it comes to. -/
theorem Except.bind_eq_error_iff {ε α β : Type} {x : Except ε α} {f : α → Except ε β} {e : ε} :
    x >>= f = .error e ↔ x = .error e ∨ ∃ a, x = .ok a ∧ f a = .error e := by
  cases x with
  | error fault => simp [bind, Except.bind]
  | ok a => simp [bind, Except.bind]

namespace CommandLine

/-- A word comes to the help behind letters of the given switches, or by its name behind none. -/
inductive ComesToHelp (level : Level) : String → List Switch → Prop
  /-- The help is asked for by its name. -/
  | name (mem : .help ∈ level.switches) : ComesToHelp level "--help" []
  /-- The help is asked for by its letter. -/
  | letters {switches : List Switch} {letters : List Char} (mem : .help ∈ level.switches)
      (each : List.Forall₂ (Letters level) switches letters) (rest : List Char) :
      ComesToHelp level (String.ofList ('-' :: (letters ++ 'h' :: rest))) switches

/-- Behind a subcommand a word comes to the help, and in front of it stand words that give switches
and words that are names. -/
inductive BehindHelp (subcommand : Subcommand) : List String → List Switch → List String → Prop
  /-- The first word comes to the help. -/
  | here {text : String} {switches : List Switch}
      (word : ComesToHelp (.behind subcommand) text switches) (rest : List String) :
      BehindHelp subcommand (text :: rest) switches []
  /-- A word gives switches. -/
  | switches {text : String} {given switches : List Switch} {rest names : List String}
      (word : Gives (.behind subcommand) text given)
      (tail : BehindHelp subcommand rest switches names) :
      BehindHelp subcommand (text :: rest) (given ++ switches) names
  /-- A word is a name. -/
  | name {text : String} {switches : List Switch} {rest names : List String}
      (word : IsOperand text) (tail : BehindHelp subcommand rest switches names) :
      BehindHelp subcommand (text :: rest) switches (text :: names)

/-- In front of the request for the help of a place stand words that give switches. -/
inductive WrittenHelp : List String → List Switch → Level → Prop
  /-- The first word comes to the help. -/
  | here {text : String} {switches : List Switch} (word : ComesToHelp .front text switches)
      (rest : List String) : WrittenHelp (text :: rest) switches .front
  /-- The subcommand for help stands alone. -/
  | general : WrittenHelp [Subcommand.help.name] [] .front
  /-- A subcommand is named behind the one for help. -/
  | topic (subcommand : Subcommand) :
      WrittenHelp [Subcommand.help.name, subcommand.name] [] (.behind subcommand)
  /-- The help is asked for behind a subcommand. -/
  | behind {subcommand : Subcommand} {rest names : List String} {switches : List Switch}
      {found : List Architecture} (tail : BehindHelp subcommand rest switches names)
      (help : .help ∉ switches) (once : switches.Nodup) (room : Room subcommand 0 names)
      (known : List.Forall₂ (fun name architecture =>
        Architecture.find? name = some architecture) names found) :
      WrittenHelp (subcommand.name :: rest) [] (.behind subcommand)
  /-- A word gives switches. -/
  | switches {text : String} {given front : List Switch} {rest : List String} {level : Level}
      (word : Gives .front text given) (tail : WrittenHelp rest front level) :
      WrittenHelp (text :: rest) (given ++ front) level

/-- A line asks for the help of a place. -/
def AsksHelp (texts : List String) (level : Level) : Prop :=
  ∃ front, WrittenHelp texts front level ∧ .help ∉ front ∧ front.Nodup

/-- How a word that comes to the help is read. -/
theorem ComesToHelp.word {level : Level} {text : String} {switches : List Switch}
    (h : ComesToHelp level text switches) :
    (.help ∈ level.switches ∧ Word.ofText text = .long Switch.help.name false) ∨
      ∃ letters rest, .help ∈ level.switches ∧ List.Forall₂ (Letters level) switches letters ∧
        Word.ofText text = .letters (letters ++ 'h' :: rest) := by
  cases h with
  | name mem => exact .inl ⟨mem, Word.ofText_name .help⟩
  | @letters _ letters mem each rest =>
    refine .inr ⟨letters, rest, mem, each, Word.ofText_letters (by simp) ?_⟩
    cases each with
    | nil => exact (by decide : some 'h' ≠ some '-')
    | cons first tail =>
      rw [List.cons_append, List.head?_cons, ← first.2]
      exact Switch.letter?_ne_hyphen _

namespace Reading

variable {level place : Level} {subcommand : Subcommand} {reading : Reading}

/-- Help is asked for by its own switch, when all names so far are known. -/
theorem take_eq_help_iff {switch : Switch} :
    reading.take level switch = .error (.help place) ↔ switch = .help ∧ place = level ∧
      ∃ found, Architecture.lookupAll reading.pending = .ok found := by
  rw [take, settle]
  cases hf : Architecture.lookupAll reading.pending with
  | error fault => simp [bind, Except.bind]
  | ok found =>
    by_cases hs : switch = .help
    · simp [bind, Except.bind, hs, eq_comm]
    · simp only [bind, Except.bind, hs, if_false, false_and, iff_false]
      split <;> simp

/-- The help is shown once the letters in front of its own are taken. -/
theorem takeLetters_help {switches : List Switch} {letters : List Char} {found : List Architecture}
    (mem : .help ∈ level.switches) (each : List.Forall₂ (Letters level) switches letters)
    (rest : List Char) (help : .help ∉ switches) (once : (reading.switches ++ switches).Nodup)
    (known : Architecture.lookupAll reading.pending = .ok found) :
    reading.takeLetters level (letters ++ 'h' :: rest) = .error (.help level) := by
  unfold takeLetters
  induction each generalizing reading found with
  | nil =>
    rw [List.nil_append, List.foldlM_cons, takeLetter_of_letters ⟨mem, rfl⟩,
      take_eq_help_iff.mpr ⟨rfl, rfl, found, known⟩]
    rfl
  | @cons switch letter switches letters first tail ih =>
    obtain ⟨hfirst, hrest⟩ := not_mem_help_cons.mp help
    rw [List.cons_append, List.foldlM_cons, takeLetter_of_letters first,
      take_eq_ok_iff.mpr ⟨hfirst, not_taken once, found, known, rfl⟩]
    rw [List.append_cons] at once
    have hnone : Architecture.lookupAll (reading.extend [switch] found).pending = .ok [] := rfl
    exact ih hrest once hnone

/-- A cluster that comes to the help has letters of switches in front of the letter for help. -/
theorem exists_letters_of_takeLetters_help {cluster : List Char} (once : reading.switches.Nodup)
    (h : reading.takeLetters level cluster = .error (.help place)) :
    place = level ∧ .help ∈ level.switches ∧ ∃ switches letters rest,
      cluster = letters ++ 'h' :: rest ∧ List.Forall₂ (Letters level) switches letters ∧
      .help ∉ switches ∧ (reading.switches ++ switches).Nodup ∧
      ∃ found, Architecture.lookupAll reading.pending = .ok found := by
  unfold takeLetters at h
  induction cluster generalizing reading with
  | nil => cases h
  | cons letter cluster ih =>
    rw [List.foldlM_cons, takeLetter] at h
    cases hf : level.switches.find? (·.letter? = some letter) with
    | none => simp [hf, bind, Except.bind] at h
    | some switch =>
      have hletter := find?_letter_eq_some_iff.mp hf
      simp only [hf] at h
      rcases Except.bind_eq_error_iff.mp h with ht | ⟨taken, ht, h⟩
      · obtain ⟨rfl, hplace, hknown⟩ := take_eq_help_iff.mp ht
        obtain rfl : 'h' = letter := Option.some.inj hletter.2
        exact ⟨hplace, hletter.1, [], [], cluster, rfl, .nil, List.not_mem_nil,
          by rwa [List.append_nil], hknown⟩
      · obtain ⟨hhelp, htaken, found, hknown, rfl⟩ := take_eq_ok_iff.mp ht
        obtain ⟨hplace, hmem, switches, letters, rest, rfl, each, help, hnodup, -⟩ :=
          ih (nodup_extend once htaken found) h
        refine ⟨hplace, hmem, switch :: switches, letter :: letters, rest, rfl, .cons hletter each,
          not_mem_help_cons.mpr ⟨hhelp, help⟩, ?_, found, hknown⟩
        rw [List.append_cons]
        exact hnodup

/-- No name asks for help. -/
theorem takeName_ne_help {name : String} :
    reading.takeName subcommand name ≠ .error (.help place) := by
  rw [takeName]
  split <;> simp

theorem foldlM_takeName_ne_help {names : List String} :
    names.foldlM (takeName subcommand) reading ≠ .error (.help place) := by
  induction names generalizing reading with
  | nil => simp [pure, Except.pure]
  | cons name names ih =>
    rw [List.foldlM_cons, Ne, Except.bind_eq_error_iff]
    rintro (h | ⟨taken, -, h⟩)
    · exact takeName_ne_help h
    · exact ih h

/-- The long form of the switch asks for help at its place. -/
theorem takeLong_help (mem : .help ∈ level.switches)
    {found : List Architecture} (known : Architecture.lookupAll reading.pending = .ok found) :
    reading.takeLong level Switch.help.name false = .error (.help level) := by
  rw [takeLong_of_mem mem]
  exact take_eq_help_iff.mpr ⟨rfl, rfl, found, known⟩

/-- A word that comes to the help is read and shows it. -/
theorem help_of_comesToHelp {text : String} {switches : List Switch}
    (h : ComesToHelp level text switches) (help : .help ∉ switches)
    (once : (reading.switches ++ switches).Nodup) {found : List Architecture}
    (known : Architecture.lookupAll reading.pending = .ok found) :
    (Word.ofText text = .long Switch.help.name false ∧
        reading.takeLong level Switch.help.name false = .error (.help level)) ∨
      ∃ cluster, Word.ofText text = .letters cluster ∧
        reading.takeLetters level cluster = .error (.help level) := by
  rcases h.word with ⟨mem, hw⟩ | ⟨letters, rest, mem, each, hw⟩
  · exact .inl ⟨hw, takeLong_help mem known⟩
  · exact .inr ⟨_, hw, takeLetters_help mem each rest help once known⟩

/-- Read from here on, the word comes to the help of a place. -/
def Halts (level : Level) (reading : Reading) (text : String) (place : Level) : Prop :=
  place = level ∧ ∃ switches found, ComesToHelp level text switches ∧ .help ∉ switches ∧
    (reading.switches ++ switches).Nodup ∧
    Architecture.lookupAll reading.pending = .ok found

/-- A long word that asks for help ends the reading there. -/
theorem halts_of_takeLong {text name : String} {valued : Bool} (once : reading.switches.Nodup)
    (hw : Word.ofText text = .long name valued)
    (h : reading.takeLong level name valued = .error (.help place)) :
    Halts level reading text place := by
  rw [takeLong] at h
  cases hf : level.switches.find? (·.name = name) with
  | none => simp [hf] at h
  | some switch =>
    obtain ⟨hmem, rfl⟩ := find?_name_eq_some_iff.mp hf
    cases valued with
    | true => simp [hf] at h
    | false =>
      simp only [hf, Bool.false_eq_true, if_false] at h
      obtain ⟨rfl, hplace, found, known⟩ := take_eq_help_iff.mp h
      rw [Word.eq_of_ofText_long hw]
      exact ⟨hplace, [], found, .name hmem, List.not_mem_nil, by rwa [List.append_nil], known⟩

/-- A cluster of letters that asks for help ends the reading there. -/
theorem halts_of_takeLetters {text : String} {cluster : List Char} (once : reading.switches.Nodup)
    (hw : Word.ofText text = .letters cluster)
    (h : reading.takeLetters level cluster = .error (.help place)) :
    Halts level reading text place := by
  obtain ⟨hplace, hmem, switches, letters, rest, rfl, each, help, hnodup, found, known⟩ :=
    exists_letters_of_takeLetters_help once h
  rw [(Word.eq_of_ofText_letters hw).2]
  exact ⟨hplace, switches, found, .letters hmem each rest, help, hnodup, known⟩

/-! ### The help behind a subcommand -/

variable {texts names : List String} {switches : List Switch} {found : List Architecture}

/-- Read from here on, the words behind a subcommand come to the help of a place. -/
def HaltsBehind (subcommand : Subcommand) (reading : Reading) (texts : List String)
    (place : Level) : Prop :=
  place = .behind subcommand ∧ ∃ switches names found,
    BehindHelp subcommand texts switches names ∧ Admits subcommand reading switches names found

/-- Where the first word ends the reading, the words behind it do not matter. -/
theorem haltsBehind_of_halts {text : String}
    (h : Halts (.behind subcommand) reading text place) (rest : List String) :
    HaltsBehind subcommand reading (text :: rest) place := by
  obtain ⟨hplace, switches, found, word, help, hnodup, known⟩ := h
  refine ⟨hplace, switches, [], found, .here word rest, help, hnodup, .inl rfl, ?_⟩
  rwa [List.append_nil]

/-- Behind a word that gives switches the reading ends where it ends for the rest. -/
theorem haltsBehind_of_gives {text : String} {given : List Switch} {taken : Reading}
    {rest : List String} (once : reading.switches.Nodup)
    (word : Gives (.behind subcommand) text given)
    (ht : given.foldlM (take (.behind subcommand)) reading = .ok taken)
    (h : taken.switches.Nodup → HaltsBehind subcommand taken rest place) :
    HaltsBehind subcommand reading (text :: rest) place := by
  obtain ⟨hhelp, hnodup, first, hf, rfl⟩ := (foldlM_take_eq_ok_iff word.ne_nil once).mp ht
  obtain ⟨hplace, switches, names, last, hb, admits⟩ := h hnodup
  exact ⟨hplace, given ++ switches, names, first ++ last, .switches word hb,
    admits_append.mpr ⟨hhelp, hnodup, first, last, hf, admits, rfl⟩⟩

theorem haltsBehind_of_operand {text : String} {taken : Reading} {rest : List String}
    (word : IsOperand text) (ht : reading.takeName subcommand text = .ok taken)
    (h : HaltsBehind subcommand taken rest place) :
    HaltsBehind subcommand reading (text :: rest) place := by
  obtain ⟨hroom, rfl⟩ := takeName_eq_ok_iff.mp ht
  obtain ⟨hplace, switches, names, found, hb, admits⟩ := h
  exact ⟨hplace, switches, text :: names, found, .name word hb, admits_cons.mpr ⟨hroom, admits⟩⟩

/-- Help that is met behind a subcommand is told by the words up to it. -/
theorem haltsBehind_of_words (once : reading.switches.Nodup)
    (h : words subcommand reading texts = .error (.help place)) :
    HaltsBehind subcommand reading texts place := by
  induction texts generalizing reading with
  | nil => cases h
  | cons text rest ih =>
    cases hw : Word.ofText text with
    | divider =>
      simp only [words, hw] at h
      exact absurd h foldlM_takeName_ne_help
    | operand name =>
      obtain ⟨rfl, word⟩ := Word.isOperand_of_ofText hw
      rw [words_of_operand word] at h
      rcases Except.bind_eq_error_iff.mp h with ht | ⟨taken, ht, hrest⟩
      · exact absurd ht takeName_ne_help
      · have honce : taken.switches.Nodup := by
          obtain ⟨-, rfl⟩ := takeName_eq_ok_iff.mp ht
          exact once
        exact haltsBehind_of_operand word ht (ih honce hrest)
    | long name valued =>
      simp only [words, hw] at h
      rcases Except.bind_eq_error_iff.mp h with ht | ⟨taken, ht, hrest⟩
      · exact haltsBehind_of_halts (halts_of_takeLong once hw ht) rest
      · obtain ⟨given, word, hgiven⟩ := exists_gives_of_takeLong hw ht
        exact haltsBehind_of_gives once word hgiven fun honce => ih honce hrest
    | letters cluster =>
      simp only [words, hw] at h
      rcases Except.bind_eq_error_iff.mp h with ht | ⟨taken, ht, hrest⟩
      · exact haltsBehind_of_halts (halts_of_takeLetters once hw ht) rest
      · obtain ⟨given, word, hgiven⟩ := exists_gives_of_takeLetters hw ht
        exact haltsBehind_of_gives once word hgiven fun honce => ih honce hrest

/-- Words that ask for help behind a subcommand are read as asking for it. -/
theorem words_of_behindHelp (h : BehindHelp subcommand texts switches names)
    (once : reading.switches.Nodup) (admits : Admits subcommand reading switches names found) :
    words subcommand reading texts = .error (.help (.behind subcommand)) := by
  induction h generalizing reading found with
  | here word rest =>
    have hknown := admits.known
    rw [List.append_nil] at hknown
    rcases help_of_comesToHelp word admits.help admits.once hknown with
      ⟨hw, ht⟩ | ⟨cluster, hw, ht⟩ <;>
    · simp only [words, hw, ht]
      rfl
  | @switches text given switches rest names word tail ih =>
    obtain ⟨hhelp, hnodup, first, last, hf, hadmits, rfl⟩ := admits_append.mp admits
    rw [words_of_gives word, Except.bind_eq_error_iff]
    refine .inr ⟨_, ?_, ih hnodup hadmits⟩
    exact (foldlM_take_eq_ok_iff word.ne_nil once).mpr ⟨hhelp, hnodup, first, hf, rfl⟩
  | @name text switches rest names word tail ih =>
    obtain ⟨hroom, hadmits⟩ := admits_cons.mp admits
    have honce : (reading.awaiting text).switches.Nodup := once
    rw [words_of_operand word, Except.bind_eq_error_iff]
    exact .inr ⟨_, takeName_eq_ok_iff.mpr ⟨hroom, rfl⟩, ih honce hadmits⟩

/-- The end of the words asks for no help. -/
theorem settle_ne_help : reading.settle ≠ .error (.help place) := by
  rw [settle]
  cases Architecture.lookupAll reading.pending <;> simp

/-- Behind a subcommand the help is shown exactly if the words come to it. -/
theorem complete_eq_help_iff :
    complete subcommand texts = .error (.help place) ↔ HaltsBehind subcommand {} texts place := by
  have hnone : ({} : Reading).switches.Nodup := List.nodup_nil
  rw [complete, Except.bind_eq_error_iff]
  constructor
  · rintro (h | ⟨reading, -, h⟩)
    · exact haltsBehind_of_words hnone h
    · rcases Except.bind_eq_error_iff.mp h with h | ⟨settled, -, h⟩
      · exact absurd h settle_ne_help
      · split at h
        · simp at h
        · cases ht : settled.task? subcommand <;> simp [ht] at h
  · rintro ⟨rfl, switches, names, found, hb, admits⟩
    exact .inl (words_of_behindHelp hb hnone admits)

/-- The subcommand for help has no switches, so no word behind it comes to the help. -/
theorem not_haltsBehind_help : ¬ HaltsBehind .help reading texts place := by
  rintro ⟨-, switches, names, found, hb, -⟩
  induction hb with
  | here word rest => cases word <;> contradiction
  | switches word tail ih => exact ih
  | name word tail ih => exact ih

end Reading

/-! ### The whole line -/

variable {given : List Switch} {texts : List String} {place : Level}

/-- The subcommand for help shows the help for the place that is named, or for the front. -/
theorem readHelp_eq_help_iff :
    readHelp texts = .help place ↔ (texts = [] ∧ place = .front) ∨
      ∃ subcommand : Subcommand, texts = [subcommand.name] ∧ place = .behind subcommand := by
  match texts with
  | [] => simp [readHelp, eq_comm]
  | [name] =>
    rw [readHelp]
    cases hn : Subcommand.ofName? name with
    | none =>
      have hname : ∀ subcommand : Subcommand, name ≠ subcommand.name := fun subcommand he => by
        simp [Subcommand.ofName?_eq_some_iff.mpr he] at hn
      simp [hname]
    | some subcommand =>
      obtain rfl := Subcommand.ofName?_eq_some_iff.mp hn
      constructor
      · intro h
        exact .inr ⟨subcommand, rfl, (Ending.help.inj h).symm⟩
      · rintro (⟨h, -⟩ | ⟨other, h, rfl⟩)
        · cases h
        · rw [Subcommand.name_injective (List.cons.inj h).1]
  | first :: second :: rest => simp [readHelp]

/-- Behind its name a subcommand shows help for itself, or is the one that helps. -/
theorem readSubcommand_eq_help_iff {front : Reading} {subcommand : Subcommand}
    {rest : List String} :
    readSubcommand front subcommand.name rest = .error (.help place) ↔
      (subcommand = .help ∧ readHelp rest = .help place) ∨
        Reading.HaltsBehind subcommand {} rest place := by
  by_cases hhelp : subcommand = .help
  · subst hhelp
    rw [readSubcommand, Subcommand.ofName?_name]
    simp [Reading.not_haltsBehind_help]
  · rw [readSubcommand_name hhelp, Except.bind_eq_error_iff, Reading.complete_eq_help_iff]
    simp only [hhelp, false_and, false_or]
    refine or_iff_left ?_
    rintro ⟨⟨behind, task⟩, -, h⟩
    dsimp only at h
    split at h <;> simp at h

/-- A line asks for the help of a place where switches were given before. -/
def AsksHelpFrom (given : List Switch) (texts : List String) (place : Level) : Prop :=
  ∃ front, WrittenHelp texts front place ∧ .help ∉ given ++ front ∧ (given ++ front).Nodup

/-- A word in front that ends the reading asks for help. -/
theorem asksHelpFrom_of_halts {text : String} (help : .help ∉ given)
    (h : Reading.Halts .front ⟨given, [], []⟩ text place) (rest : List String) :
    AsksHelpFrom given (text :: rest) place := by
  obtain ⟨rfl, switches, found, word, hhelp, hnodup, -⟩ := h
  exact ⟨switches, .here word rest, List.not_mem_append help hhelp, hnodup⟩

/-- Behind a word that gives switches in front help is asked for if the rest asks for it. -/
theorem asksHelpFrom_of_gives {text : String} {word : List Switch} {taken : Reading}
    {rest : List String} (once : given.Nodup) (help : .help ∉ given)
    (gives : Gives .front text word)
    (ht : word.foldlM (Reading.take .front) ⟨given, [], []⟩ = .ok taken)
    (h : ∀ more, taken = ⟨more, [], []⟩ → more.Nodup → .help ∉ more →
      AsksHelpFrom more rest place) :
    AsksHelpFrom given (text :: rest) place := by
  obtain ⟨hhelp, hnodup, rfl⟩ := (foldlM_take_front_eq_ok_iff gives once).mp ht
  have hnone : .help ∉ given ++ word := List.not_mem_append help hhelp
  obtain ⟨front, written, asked⟩ := h (given ++ word) rfl hnodup hnone
  rw [List.append_assoc] at asked
  exact ⟨word ++ front, .switches gives written, asked⟩

/-- Help that is met behind the subcommand is asked for. -/
theorem asksHelpFrom_of_readSubcommand {text : String} {rest : List String} (once : given.Nodup)
    (help : .help ∉ given)
    (h : readSubcommand ⟨given, [], []⟩ text rest = .error (.help place)) :
    AsksHelpFrom given (text :: rest) place := by
  suffices WrittenHelp (text :: rest) [] place by
    refine ⟨[], this, ?_⟩
    rw [List.append_nil]
    exact ⟨help, once⟩
  cases hn : Subcommand.ofName? text with
  | none => simp [readSubcommand, hn] at h
  | some subcommand =>
    obtain rfl := Subcommand.ofName?_eq_some_iff.mp hn
    rcases readSubcommand_eq_help_iff.mp h with
      ⟨rfl, hr⟩ | ⟨rfl, switches, names, found, hb, admits⟩
    · rcases readHelp_eq_help_iff.mp hr with ⟨rfl, rfl⟩ | ⟨topic, rfl, rfl⟩
      · exact .general
      · exact .topic topic
    · exact .behind hb admits.help admits.once admits.room
        (Architecture.lookupAll_eq_ok_iff.mp admits.known)

/-- Whenever help is shown, it is asked for. -/
theorem asksHelpFrom_of_readFrom (once : given.Nodup) (help : .help ∉ given)
    (h : readFrom ⟨given, [], []⟩ texts = .error (.help place)) :
    AsksHelpFrom given texts place := by
  induction texts generalizing given with
  | nil => simp [readFrom] at h
  | cons text rest ih =>
    cases hw : Word.ofText text with
    | divider => simp [readFrom, hw] at h
    | operand name =>
      obtain ⟨rfl, word⟩ := Word.isOperand_of_ofText hw
      rw [readFrom_of_operand word] at h
      exact asksHelpFrom_of_readSubcommand once help h
    | long name valued =>
      simp only [readFrom, hw] at h
      rcases Except.bind_eq_error_iff.mp h with ht | ⟨taken, ht, hrest⟩
      · exact asksHelpFrom_of_halts help (Reading.halts_of_takeLong once hw ht) rest
      · obtain ⟨word, gives, hgiven⟩ := Reading.exists_gives_of_takeLong hw ht
        refine asksHelpFrom_of_gives once help gives hgiven ?_
        rintro more rfl honce hnone
        exact ih honce hnone hrest
    | letters cluster =>
      simp only [readFrom, hw] at h
      rcases Except.bind_eq_error_iff.mp h with ht | ⟨taken, ht, hrest⟩
      · exact asksHelpFrom_of_halts help (Reading.halts_of_takeLetters once hw ht) rest
      · obtain ⟨word, gives, hgiven⟩ := Reading.exists_gives_of_takeLetters hw ht
        refine asksHelpFrom_of_gives once help gives hgiven ?_
        rintro more rfl honce hnone
        exact ih honce hnone hrest

/-- Whenever help is asked for, it is shown. -/
theorem readFrom_of_writtenHelp {front : List Switch} (h : WrittenHelp texts front place)
    (help : .help ∉ given ++ front) (once : (given ++ front).Nodup) :
    readFrom ⟨given, [], []⟩ texts = .error (.help place) := by
  induction h generalizing given with
  | @here text switches word rest =>
    have hhelp : .help ∉ switches := fun hm => help (List.mem_append_right _ hm)
    have hknown : Architecture.lookupAll (Reading.mk given [] []).pending = .ok [] := rfl
    rcases Reading.help_of_comesToHelp word hhelp once hknown with
      ⟨hw, ht⟩ | ⟨cluster, hw, ht⟩ <;>
    · simp only [readFrom, hw, ht]
      rfl
  | general =>
    rw [readFrom_of_operand (Subcommand.isOperand_name .help)]
    exact readSubcommand_eq_help_iff.mpr (.inl ⟨rfl, rfl⟩)
  | topic subcommand =>
    rw [readFrom_of_operand (Subcommand.isOperand_name .help)]
    exact readSubcommand_eq_help_iff.mpr
      (.inl ⟨rfl, readHelp_eq_help_iff.mpr (.inr ⟨subcommand, rfl, rfl⟩)⟩)
  | @behind subcommand rest names switches found tail hhelp hnodup room known =>
    rw [readFrom_of_operand subcommand.isOperand_name, readSubcommand_eq_help_iff]
    exact .inr ⟨rfl, switches, names, found, tail, hhelp, hnodup, room,
      Architecture.lookupAll_eq_ok_iff.mpr known⟩
  | @switches text word front rest place gives tail ih =>
    rw [← List.append_assoc] at help once
    have hhelp : .help ∉ word := fun hm =>
      help (List.mem_append_left _ (List.mem_append_right _ hm))
    have honce : (given ++ word).Nodup := once.of_append_left
    rw [readFrom_of_gives gives, Except.bind_eq_error_iff]
    exact .inr ⟨_, (foldlM_take_front_eq_ok_iff gives honce.of_append_left).mpr
      ⟨hhelp, honce, rfl⟩, ih help once⟩

/-- The help of a place is shown exactly if the line asks for it. -/
theorem read_eq_help_iff : read texts = .error (.help place) ↔ AsksHelp texts place :=
  ⟨asksHelpFrom_of_readFrom List.nodup_nil List.not_mem_nil,
    fun ⟨_, written, help, once⟩ => readFrom_of_writtenHelp written help once⟩

/-! ### Lines without a switch for help -/

/-- A word that comes to the help is neither a divider nor a name. -/
theorem ComesToHelp.ne {level : Level} {text : String} {switches : List Switch}
    (h : ComesToHelp level text switches) : text ≠ "--" ∧ ¬ IsOperand text := by
  have hne : Word.ofText text ≠ .divider ∧ ∀ name, Word.ofText text ≠ .operand name := by
    rcases h.word with ⟨-, hw⟩ | ⟨letters, rest, -, -, hw⟩ <;> simp [hw]
  refine ⟨?_, fun ho => hne.2 text (Word.ofText_operand ho)⟩
  rintro rfl
  exact hne.1 Word.ofText_divider

/-- Where a word that comes to the help gives switches, the help is one of them. -/
theorem ComesToHelp.mem {level : Level} {text : String} {switches given : List Switch}
    (h : ComesToHelp level text switches) (word : Gives level text given) : .help ∈ given := by
  rcases h.word with ⟨-, hw⟩ | ⟨letters, rest, -, -, hw⟩ <;>
    rcases word.word with ⟨switch, -, rfl, hw'⟩ | ⟨cluster, -, each, hw'⟩ <;>
      rw [hw] at hw'
  · rw [Switch.name_injective (Word.long.inj hw').1]
    exact List.mem_singleton_self _
  · contradiction
  · contradiction
  · obtain rfl := Word.letters.inj hw'
    have hmem : 'h' ∈ letters ++ 'h' :: rest := by simp
    obtain ⟨switch, hs, hletter⟩ := exists_mem_of_forall₂ each.flip hmem
    rwa [Switch.letter?_injective hletter.2 (by rfl : Switch.help.letter? = some 'h')] at hs

/-- Words that ask for help and are read as switches have the switch for help among these. -/
theorem BehindHelp.mem {subcommand : Subcommand} {names names' : List String}
    {switches behind : List Switch} (h : BehindHelp subcommand texts switches names)
    (written : Behind subcommand texts behind names') : .help ∈ behind := by
  have hdivider : ¬ IsOperand "--" := by simp [IsOperand]
  induction h generalizing behind names' with
  | here word rest =>
    cases written with
    | divided => exact absurd rfl word.ne.1
    | switches gives tail => exact List.mem_append_left _ (word.mem gives)
    | name operand tail => exact absurd operand word.ne.2
  | switches word tail ih =>
    cases written with
    | divided => exact absurd rfl word.ne.1
    | switches gives tail' => exact List.mem_append_right _ (ih tail')
    | name operand tail' => exact absurd operand word.ne.2
  | name word tail ih =>
    cases written with
    | divided => exact absurd word hdivider
    | switches gives tail' => exact absurd word gives.ne.2
    | name operand tail' => exact ih tail'

/-- A line that asks for the help gives its switch or names its subcommand. -/
theorem WrittenHelp.mem {front front' behind : List Switch} {subcommand : Subcommand}
    {names : List String} (h : WrittenHelp texts front place)
    (written : Written texts front' subcommand behind names) :
    subcommand = .help ∨ .help ∈ front' ++ behind := by
  induction h generalizing front' with
  | here word rest =>
    rcases written.cases_cons with ⟨rfl, -, -⟩ | ⟨given, more, gives, rfl, -⟩
    · exact absurd subcommand.isOperand_name word.ne.2
    · exact .inr (List.mem_append_left _ (List.mem_append_left _ (word.mem gives)))
  | general =>
    rcases written.cases_cons with ⟨hname, -, -⟩ | ⟨given, more, gives, -, -⟩
    · exact .inl (Subcommand.name_injective hname).symm
    · exact absurd (Subcommand.isOperand_name .help) gives.ne.2
  | topic other =>
    rcases written.cases_cons with ⟨hname, -, -⟩ | ⟨given, more, gives, -, -⟩
    · exact .inl (Subcommand.name_injective hname).symm
    · exact absurd (Subcommand.isOperand_name .help) gives.ne.2
  | @behind other rest names' switches found tail help once room known =>
    rcases written.cases_cons with ⟨hname, -, hb⟩ | ⟨given, more, gives, -, -⟩
    · obtain rfl := Subcommand.name_injective hname
      exact .inr (List.mem_append_right _ (tail.mem hb))
    · exact absurd other.isOperand_name gives.ne.2
  | switches word tail ih =>
    rcases written.cases_cons with ⟨rfl, -, -⟩ | ⟨given, more, gives, rfl, hw⟩
    · exact absurd subcommand.isOperand_name word.ne.2
    · rcases ih hw with rfl | hm
      · exact .inl rfl
      · rw [List.append_assoc]
        exact .inr (List.mem_append_right _ hm)

end CommandLine

end Bootstage
