import Mathlib.Data.List.Nodup
import Bootstage.Proofs.CommandLine.Sides
import Bootstage.Proofs.Tree.Straight

/-!
# Command lines as they are read

The reader accepts exactly the command lines that ask for an invocation, and yields that invocation.
A word that gives switches is read as those switches one after the other, and names are looked up
in order wherever they stand.
-/

namespace Bootstage

/-! ### Look-ups -/

/-- Names are looked up with success exactly if each of them is known. -/
theorem Architecture.lookupAll_eq_ok_iff {names : List String} {found : List Architecture} :
    lookupAll names = .ok found ↔
      List.Forall₂ (fun name architecture => find? name = some architecture) names found := by
  unfold lookupAll
  induction names generalizing found with
  | nil => simp [pure, Except.pure, eq_comm]
  | cons name names ih =>
    rw [List.mapM_cons, Except.bind_eq_ok_iff]
    constructor
    · rintro ⟨architecture, hl, h⟩
      obtain ⟨rest, hr, h⟩ := Except.bind_eq_ok_iff.mp h
      obtain rfl := Except.ok.inj h
      exact .cons (lookup_eq_ok_iff.mp hl) (ih.mp hr)
    · intro h
      cases h with
      | cons first rest =>
        exact ⟨_, lookup_eq_ok_iff.mpr first, Except.bind_eq_ok_iff.mpr ⟨_, ih.mpr rest, rfl⟩⟩

/-- A single name without an architecture keeps the whole look-up from succeeding. -/
theorem Architecture.exists_find?_of_lookupAll {names : List String} {found : List Architecture}
    (h : lookupAll names = .ok found) {name : String} (mem : name ∈ names) :
    ∃ architecture, find? name = some architecture := by
  obtain ⟨architecture, -, hfound⟩ :=
    CommandLine.exists_mem_of_forall₂ (lookupAll_eq_ok_iff.mp h) mem
  exact ⟨architecture, hfound⟩

/-- Names are looked up one after the other. -/
theorem Architecture.lookupAll_append_eq_ok_iff {names others : List String}
    {found : List Architecture} :
    lookupAll (names ++ others) = .ok found ↔
      ∃ first last, lookupAll names = .ok first ∧ lookupAll others = .ok last ∧
        found = first ++ last := by
  unfold lookupAll
  rw [List.mapM_append, Except.bind_eq_ok_iff]
  constructor
  · rintro ⟨first, hf, h⟩
    obtain ⟨last, hl, h⟩ := Except.bind_eq_ok_iff.mp h
    exact ⟨first, last, hf, hl, (Except.ok.inj h).symm⟩
  · rintro ⟨first, last, hf, hl, rfl⟩
    exact ⟨first, hf, Except.bind_eq_ok_iff.mpr ⟨last, hl, rfl⟩⟩

namespace CommandLine

/-- In a list a search finds what meets a test that nothing else meets. -/
theorem find?_eq_some_iff_of_unique {α : Type} {test : α → Bool} {items : List α} {item : α}
    (unique : ∀ other, test other = true → test item = true → other = item) :
    items.find? test = some item ↔ item ∈ items ∧ test item = true := by
  constructor
  · exact fun h => ⟨List.mem_of_find?_eq_some h, List.find?_some h⟩
  · rintro ⟨hm, ht⟩
    obtain ⟨other, ho⟩ := Option.isSome_iff_exists.mp (List.find?_isSome.mpr ⟨item, hm, ht⟩)
    rw [ho, unique other (List.find?_some ho) ht]

namespace Reading

variable {level : Level} {subcommand : Subcommand} {reading left : Reading}

/-- The reading with more switches and with the pending names looked up. -/
def extend (reading : Reading) (switches : List Switch) (found : List Architecture) : Reading where
  switches := reading.switches ++ switches
  architectures := reading.architectures ++ found
  pending := []

/-- The names that are pending are settled exactly if all of them are known. -/
theorem settle_eq_ok_iff :
    reading.settle = .ok left ↔
      ∃ found, Architecture.lookupAll reading.pending = .ok found ∧
        left = reading.extend [] found := by
  unfold settle extend
  cases Architecture.lookupAll reading.pending with
  | error fault => simp
  | ok found => simp [eq_comm]

/-- A switch is taken exactly if it is new and no request for help, and all pending names are known.
-/
theorem take_eq_ok_iff {switch : Switch} :
    reading.take level switch = .ok left ↔ switch ≠ .help ∧ switch ∉ reading.switches ∧
      ∃ found, Architecture.lookupAll reading.pending = .ok found ∧
        left = reading.extend [switch] found := by
  rw [take, Except.bind_eq_ok_iff]
  constructor
  · rintro ⟨settled, hs, h⟩
    obtain ⟨found, hf, rfl⟩ := settle_eq_ok_iff.mp hs
    split at h
    · contradiction
    · next hhelp =>
      split at h
      · contradiction
      · next htaken =>
        obtain rfl := Except.ok.inj h
        simp only [extend, List.append_nil] at htaken ⊢
        exact ⟨hhelp, htaken, found, hf, rfl⟩
  · rintro ⟨hhelp, htaken, found, hf, rfl⟩
    refine ⟨_, settle_eq_ok_iff.mpr ⟨found, hf, rfl⟩, ?_⟩
    simp [extend, hhelp, htaken]

/-- To extend a reading twice is to extend it by both parts. -/
theorem extend_extend (reading : Reading) (switches others : List Switch)
    (found rest : List Architecture) :
    (reading.extend switches found).extend others rest =
      reading.extend (switches ++ others) (found ++ rest) := by
  simp [extend]

/-- A new switch leaves no switch taken twice. -/
theorem nodup_extend {switch : Switch} (once : reading.switches.Nodup)
    (taken : switch ∉ reading.switches) (found : List Architecture) :
    (reading.extend [switch] found).switches.Nodup := by
  rw [extend, List.nodup_middle, List.append_nil]
  exact List.nodup_cons.mpr ⟨taken, once⟩

/-- The first of switches that can all be taken has not been taken yet. -/
theorem not_taken {switch : Switch} {given : List Switch}
    (once : (reading.switches ++ switch :: given).Nodup) : switch ∉ reading.switches := fun hm =>
  (List.nodup_cons.mp (List.nodup_middle.mp once)).1 (List.mem_append_left given hm)

/-- Help is not among switches exactly if it is not the first and not among the rest. -/
theorem not_mem_help_cons {switch : Switch} {given : List Switch} :
    .help ∉ switch :: given ↔ switch ≠ .help ∧ .help ∉ given := by
  simp [eq_comm]

/-- Switches are taken one after the other if none is the help and none is taken twice. With the
first of them the pending names are looked up. -/
theorem foldlM_take_cons_eq_ok_iff {switch : Switch} {given : List Switch}
    (once : reading.switches.Nodup) :
    (switch :: given).foldlM (take level) reading = .ok left ↔
      .help ∉ switch :: given ∧ (reading.switches ++ switch :: given).Nodup ∧
        ∃ found, Architecture.lookupAll reading.pending = .ok found ∧
          left = reading.extend (switch :: given) found := by
  induction given generalizing switch reading with
  | nil =>
    simp only [List.foldlM_cons, List.foldlM_nil, bind_pure]
    rw [take_eq_ok_iff, not_mem_help_cons]
    constructor
    · rintro ⟨hhelp, htaken, hfound⟩
      exact ⟨⟨hhelp, List.not_mem_nil⟩, nodup_extend once htaken [], hfound⟩
    · rintro ⟨⟨hhelp, -⟩, hnodup, hfound⟩
      exact ⟨hhelp, not_taken hnodup, hfound⟩
  | cons other given ih =>
    rw [List.foldlM_cons, Except.bind_eq_ok_iff, not_mem_help_cons]
    constructor
    · rintro ⟨middle, ht, h⟩
      obtain ⟨hhelp, htaken, found, hf, rfl⟩ := take_eq_ok_iff.mp ht
      obtain ⟨hrest, hnodup, more, hmore, rfl⟩ := (ih (nodup_extend once htaken found)).mp h
      obtain rfl : more = [] := (Except.ok.inj hmore).symm
      rw [extend_extend, List.append_nil, List.append_cons]
      exact ⟨⟨hhelp, hrest⟩, hnodup, found, hf, rfl⟩
    · rintro ⟨⟨hhelp, hrest⟩, hnodup, found, hf, rfl⟩
      have htaken := not_taken hnodup
      refine ⟨_, take_eq_ok_iff.mpr ⟨hhelp, htaken, found, hf, rfl⟩, ?_⟩
      rw [List.append_cons] at hnodup
      refine (ih (nodup_extend once htaken found)).mpr ⟨hrest, hnodup, [], rfl, ?_⟩
      rw [extend_extend, List.append_nil]
      rfl

/-- Switches are taken exactly if each is new and none asks for help, and all pending names are
known. -/
theorem foldlM_take_eq_ok_iff {given : List Switch} (nonempty : given ≠ [])
    (once : reading.switches.Nodup) :
    given.foldlM (take level) reading = .ok left ↔
      .help ∉ given ∧ (reading.switches ++ given).Nodup ∧
        ∃ found, Architecture.lookupAll reading.pending = .ok found ∧
          left = reading.extend given found := by
  obtain ⟨switch, given, rfl⟩ := List.exists_cons_of_ne_nil nonempty
  exact foldlM_take_cons_eq_ok_iff once

/-! ### Words that give switches -/

/-- A switch is found under its name among those that are known at its place. -/
theorem find?_name_eq_some_iff {switch : Switch} {name : String} :
    level.switches.find? (·.name = name) = some switch ↔
      switch ∈ level.switches ∧ switch.name = name := by
  rw [find?_eq_some_iff_of_unique, decide_eq_true_eq]
  intro other ho hs
  exact Switch.name_injective ((of_decide_eq_true ho).trans (of_decide_eq_true hs).symm)

/-- A switch is found under its letter among those that are known at its place. -/
theorem find?_letter_eq_some_iff {switch : Switch} {letter : Char} :
    level.switches.find? (·.letter? = some letter) = some switch ↔ Letters level switch letter := by
  rw [find?_eq_some_iff_of_unique, decide_eq_true_eq]
  · rfl
  · intro other ho hs
    exact Switch.letter?_injective (of_decide_eq_true ho) (of_decide_eq_true hs)

theorem takeLetter_of_letters {switch : Switch} {letter : Char}
    (h : Letters level switch letter) (reading : Reading) :
    takeLetter level reading letter = reading.take level switch := by
  rw [takeLetter, find?_letter_eq_some_iff.mpr h]

/-- A cluster is taken as its switches are, one after the other. -/
theorem takeLetters_of_letters {given : List Switch} {cluster : List Char}
    (each : List.Forall₂ (Letters level) given cluster) (reading : Reading) :
    reading.takeLetters level cluster = given.foldlM (take level) reading := by
  unfold takeLetters
  induction each generalizing reading with
  | nil => rfl
  | cons first rest ih =>
    rw [List.foldlM_cons, List.foldlM_cons, takeLetter_of_letters first]
    exact congrArg _ (funext ih)

/-- Each letter of a cluster that is taken has a switch. -/
theorem exists_letters_of_takeLetters {cluster : List Char}
    (h : reading.takeLetters level cluster = .ok left) :
    ∃ given, List.Forall₂ (Letters level) given cluster := by
  unfold takeLetters at h
  induction cluster generalizing reading with
  | nil => exact ⟨[], .nil⟩
  | cons letter cluster ih =>
    rw [List.foldlM_cons] at h
    obtain ⟨middle, hm, hrest⟩ := Except.bind_eq_ok_iff.mp h
    obtain ⟨given, hgiven⟩ := ih hrest
    rw [takeLetter] at hm
    cases hf : level.switches.find? (·.letter? = some letter) with
    | none => simp [hf] at hm
    | some switch => exact ⟨switch :: given, .cons (find?_letter_eq_some_iff.mp hf) hgiven⟩

/-- The long form of a switch is taken as the switch is. -/
theorem takeLong_of_mem {switch : Switch} (mem : switch ∈ level.switches) (reading : Reading) :
    reading.takeLong level switch.name false = reading.take level switch := by
  rw [takeLong, find?_name_eq_some_iff.mpr ⟨mem, rfl⟩]
  rfl

/-- A long word that is taken is the name of a switch and has no value. -/
theorem exists_mem_of_takeLong {name : String} {valued : Bool}
    (h : reading.takeLong level name valued = .ok left) :
    valued = false ∧ ∃ switch ∈ level.switches, switch.name = name := by
  rw [takeLong] at h
  cases hf : level.switches.find? (·.name = name) with
  | none => simp [hf] at h
  | some switch =>
    cases valued with
    | true => simp [hf] at h
    | false => exact ⟨rfl, switch, find?_name_eq_some_iff.mp hf⟩

/-- A long word that is taken gives its switch. -/
theorem exists_gives_of_takeLong {text name : String} {valued : Bool}
    (hw : Word.ofText text = .long name valued)
    (h : reading.takeLong level name valued = .ok left) :
    ∃ given, Gives level text given ∧ given.foldlM (take level) reading = .ok left := by
  obtain ⟨rfl, switch, mem, rfl⟩ := exists_mem_of_takeLong h
  rw [takeLong_of_mem mem] at h
  rw [Word.eq_of_ofText_long hw]
  exact ⟨[switch], .name mem, by simpa using h⟩

/-- A cluster that is taken gives the switches of its letters. -/
theorem exists_gives_of_takeLetters {text : String} {cluster : List Char}
    (hw : Word.ofText text = .letters cluster) (h : reading.takeLetters level cluster = .ok left) :
    ∃ given, Gives level text given ∧ given.foldlM (take level) reading = .ok left := by
  obtain ⟨given, each⟩ := exists_letters_of_takeLetters h
  obtain ⟨nonempty, rfl⟩ := Word.eq_of_ofText_letters hw
  rw [takeLetters_of_letters each] at h
  refine ⟨given, .letters ?_ each, h⟩
  rintro rfl
  cases each
  exact nonempty rfl

/-! ### The words behind a subcommand -/

/-- A word that gives switches is read by taking them. -/
theorem words_of_gives {text : String} {given : List Switch} {rest : List String}
    (word : Gives (.behind subcommand) text given) (reading : Reading) :
    words subcommand reading (text :: rest) = (do
      let taken ← given.foldlM (take (.behind subcommand)) reading
      words subcommand taken rest) := by
  rcases word.word with ⟨switch, mem, rfl, hw⟩ | ⟨cluster, -, each, hw⟩
  · simp only [words, hw, takeLong_of_mem mem, List.foldlM_cons, List.foldlM_nil, bind_pure]
  · simp only [words, hw, takeLetters_of_letters each]

/-- An operand is read as a name. -/
theorem words_of_operand {text : String} {rest : List String} (word : IsOperand text)
    (reading : Reading) :
    words subcommand reading (text :: rest) = (do
      words subcommand (← reading.takeName subcommand text) rest) := by
  simp only [words, Word.ofText_operand word]

/-- Behind a divider all words are read as names. -/
theorem words_divided (names : List String) (reading : Reading) :
    words subcommand reading ("--" :: names) = names.foldlM (takeName subcommand) reading := by
  simp only [words, Word.ofText_divider]

/-- A word that is read is a divider, a name, or one that gives switches. -/
theorem cases_of_words {text : String} {rest : List String}
    (h : words subcommand reading (text :: rest) = .ok left) :
    text = "--" ∨ IsOperand text ∨ ∃ given, Gives (.behind subcommand) text given := by
  cases hw : Word.ofText text with
  | divider => exact .inl (Word.eq_of_ofText_divider hw)
  | operand name => exact .inr (.inl (Word.isOperand_of_ofText hw).2)
  | long name valued =>
    simp only [words, hw] at h
    obtain ⟨taken, ht, -⟩ := Except.bind_eq_ok_iff.mp h
    obtain ⟨given, word, -⟩ := exists_gives_of_takeLong hw ht
    exact .inr (.inr ⟨given, word⟩)
  | letters cluster =>
    simp only [words, hw] at h
    obtain ⟨taken, ht, -⟩ := Except.bind_eq_ok_iff.mp h
    obtain ⟨given, word, -⟩ := exists_gives_of_takeLetters hw ht
    exact .inr (.inr ⟨given, word⟩)

/-! ### Room for names -/

/-- The names that have been given, looked up or not. -/
def held (reading : Reading) : Nat :=
  reading.architectures.length + reading.pending.length

/-- A reading has room exactly if the subcommand has it for one more name. -/
theorem hasRoom_eq_true_iff {text : String} :
    reading.hasRoom subcommand = true ↔ Room subcommand reading.held [text] := by
  unfold hasRoom Room held
  cases subcommand.capacity with
  | nothing => simp
  | one =>
    simp only [Bool.and_eq_true, List.isEmpty_iff, ← List.length_eq_zero_iff]
    simp
  | any => simp

/-- There is room for names exactly if there is room for the first and then for the rest. -/
theorem room_cons {text : String} {names : List String} {count : Nat} :
    Room subcommand count (text :: names) ↔
      Room subcommand count [text] ∧ Room subcommand (count + 1) names := by
  unfold Room
  cases subcommand.capacity with
  | nothing => simp
  | one =>
    cases names with
    | nil => simp
    | cons name names =>
      simp only [List.length_cons, reduceCtorEq, false_or, List.length_nil]
      omega
  | any => simp

/-- The reading with one more name that is to be looked up. -/
def awaiting (reading : Reading) (name : String) : Reading :=
  { reading with pending := reading.pending ++ [name] }

theorem held_awaiting (reading : Reading) (name : String) :
    (reading.awaiting name).held = reading.held + 1 := by
  simp [held, awaiting, Nat.add_assoc]

/-- A name is taken exactly if there is room for it. -/
theorem takeName_eq_ok_iff {name : String} :
    reading.takeName subcommand name = .ok left ↔
      Room subcommand reading.held [name] ∧ left = reading.awaiting name := by
  rw [← hasRoom_eq_true_iff, takeName]
  cases reading.hasRoom subcommand with
  | true => simp [awaiting, eq_comm]
  | false => simp

/-- Names are taken exactly if there is room for all of them. -/
theorem foldlM_takeName_eq_ok_iff {names : List String} :
    names.foldlM (takeName subcommand) reading = .ok left ↔
      Room subcommand reading.held names ∧
        left = { reading with pending := reading.pending ++ names } := by
  induction names generalizing reading with
  | nil => simp [Room, pure, Except.pure, eq_comm]
  | cons name names ih =>
    rw [List.foldlM_cons, Except.bind_eq_ok_iff, room_cons]
    constructor
    · rintro ⟨taken, ht, h⟩
      obtain ⟨hroom, rfl⟩ := takeName_eq_ok_iff.mp ht
      obtain ⟨hrest, rfl⟩ := ih.mp h
      rw [held_awaiting] at hrest
      exact ⟨⟨hroom, hrest⟩, by simp [awaiting]⟩
    · rintro ⟨⟨hroom, hrest⟩, rfl⟩
      refine ⟨_, takeName_eq_ok_iff.mpr ⟨hroom, rfl⟩, ih.mpr ⟨?_, by simp [awaiting]⟩⟩
      rwa [held_awaiting]

/-- Looking the pending names up leaves as many names held. -/
theorem held_extend {found : List Architecture} (switches : List Switch)
    (h : Architecture.lookupAll reading.pending = .ok found) :
    (reading.extend switches found).held = reading.held := by
  have hlength := (Architecture.lookupAll_eq_ok_iff.mp h).length_eq
  simp [held, extend, hlength]

/-! ### What a reading admits -/

/-- The switches and names may follow what was read, and these are the architectures of all names
that were not looked up before. -/
structure Admits (subcommand : Subcommand) (reading : Reading) (switches : List Switch)
    (names : List String) (found : List Architecture) : Prop where
  /-- The help is not asked for. -/
  help : .help ∉ switches
  /-- No switch is given twice. -/
  once : (reading.switches ++ switches).Nodup
  /-- There is room for the names. -/
  room : Room subcommand reading.held names
  /-- Every name belongs to an architecture. -/
  known : Architecture.lookupAll (reading.pending ++ names) = .ok found

variable {switches : List Switch} {names : List String} {found : List Architecture}

/-- Without more switches a reading admits names for which there is room and that are known. -/
theorem admits_nil (once : reading.switches.Nodup) :
    Admits subcommand reading [] names found ↔ Room subcommand reading.held names ∧
      Architecture.lookupAll (reading.pending ++ names) = .ok found :=
  ⟨fun h => ⟨h.room, h.known⟩,
    fun h => ⟨List.not_mem_nil, by rwa [List.append_nil], h.1, h.2⟩⟩

/-- More switches come first, and with them the pending names are looked up. -/
theorem admits_append {given : List Switch} :
    Admits subcommand reading (given ++ switches) names found ↔
      .help ∉ given ∧ (reading.switches ++ given).Nodup ∧
        ∃ first last, Architecture.lookupAll reading.pending = .ok first ∧
          Admits subcommand (reading.extend given first) switches names last ∧
          found = first ++ last := by
  constructor
  · rintro ⟨help, once, room, known⟩
    obtain ⟨first, last, hf, hl, rfl⟩ := Architecture.lookupAll_append_eq_ok_iff.mp known
    rw [← List.append_assoc] at once
    refine ⟨fun hm => help (List.mem_append_left _ hm), once.of_append_left, first, last, hf, ?_,
      rfl⟩
    exact ⟨fun hm => help (List.mem_append_right _ hm), once, by rwa [held_extend given hf], hl⟩
  · rintro ⟨hhelp, -, first, last, hf, ⟨help, once, room, known⟩, rfl⟩
    refine ⟨List.not_mem_append hhelp help, ?_, ?_, ?_⟩
    · rw [← List.append_assoc]
      exact once
    · rwa [held_extend given hf] at room
    · exact Architecture.lookupAll_append_eq_ok_iff.mpr ⟨first, last, hf, known, rfl⟩

/-- A name comes first. -/
theorem admits_cons {name : String} :
    Admits subcommand reading switches (name :: names) found ↔
      Room subcommand reading.held [name] ∧
        Admits subcommand (reading.awaiting name) switches names found := by
  constructor
  · rintro ⟨help, once, room, known⟩
    obtain ⟨hroom, hrest⟩ := room_cons.mp room
    exact ⟨hroom, help, once, by rwa [held_awaiting], by rwa [awaiting, ← List.append_cons]⟩
  · rintro ⟨hroom, help, once, room, known⟩
    rw [held_awaiting] at room
    exact ⟨help, once, room_cons.mpr ⟨hroom, room⟩, by rwa [List.append_cons]⟩

/-- What stands behind a subcommand is read as the switches and names that it gives. -/
theorem settle_words_of_behind {texts : List String} (h : Behind subcommand texts switches names)
    (once : reading.switches.Nodup) (admits : Admits subcommand reading switches names found) :
    (words subcommand reading texts >>= settle) = .ok (reading.extend switches found) := by
  rw [Except.bind_eq_ok_iff]
  induction h generalizing reading found with
  | done =>
    have hknown := admits.known
    rw [List.append_nil] at hknown
    exact ⟨reading, rfl, settle_eq_ok_iff.mpr ⟨found, hknown, rfl⟩⟩
  | divided names =>
    rw [words_divided]
    exact ⟨_, foldlM_takeName_eq_ok_iff.mpr ⟨admits.room, rfl⟩,
      settle_eq_ok_iff.mpr ⟨found, admits.known, rfl⟩⟩
  | @switches text given switches rest names word tail ih =>
    obtain ⟨hhelp, hnodup, first, last, hf, hadmits, rfl⟩ := admits_append.mp admits
    obtain ⟨read, hr, hs⟩ := ih hnodup hadmits
    rw [words_of_gives word, ← extend_extend]
    refine ⟨read, Except.bind_eq_ok_iff.mpr ⟨_, ?_, hr⟩, hs⟩
    exact (foldlM_take_eq_ok_iff word.ne_nil once).mpr ⟨hhelp, hnodup, first, hf, rfl⟩
  | @name text switches rest names word tail ih =>
    obtain ⟨hroom, hadmits⟩ := admits_cons.mp admits
    have honce : (reading.awaiting text).switches.Nodup := once
    obtain ⟨read, hr, hs⟩ := ih honce hadmits
    rw [words_of_operand word]
    exact ⟨read, Except.bind_eq_ok_iff.mpr ⟨_, takeName_eq_ok_iff.mpr ⟨hroom, rfl⟩, hr⟩, hs⟩

/-- Words that are read give switches and names that may follow what was read before. -/
theorem exists_behind_of_settle_words {texts : List String} (once : reading.switches.Nodup)
    (h : (words subcommand reading texts >>= settle) = .ok left) :
    ∃ switches names found, Behind subcommand texts switches names ∧
      Admits subcommand reading switches names found ∧ left = reading.extend switches found := by
  obtain ⟨last, hw, hs⟩ := Except.bind_eq_ok_iff.mp h
  clear h
  induction texts generalizing reading with
  | nil =>
    obtain rfl := Except.ok.inj hw
    obtain ⟨found, hf, rfl⟩ := settle_eq_ok_iff.mp hs
    exact ⟨[], [], found, .done, (admits_nil once).mpr ⟨.inl rfl, by rwa [List.append_nil]⟩, rfl⟩
  | cons text rest ih =>
    rcases cases_of_words hw with rfl | word | ⟨given, word⟩
    · rw [words_divided] at hw
      obtain ⟨hroom, rfl⟩ := foldlM_takeName_eq_ok_iff.mp hw
      obtain ⟨found, hf, rfl⟩ := settle_eq_ok_iff.mp hs
      exact ⟨[], rest, found, .divided rest, (admits_nil once).mpr ⟨hroom, hf⟩, rfl⟩
    · rw [words_of_operand word] at hw
      obtain ⟨taken, ht, hrest⟩ := Except.bind_eq_ok_iff.mp hw
      obtain ⟨hroom, rfl⟩ := takeName_eq_ok_iff.mp ht
      have honce : (reading.awaiting text).switches.Nodup := once
      obtain ⟨switches, names, found, hb, hadmits, rfl⟩ := ih honce hrest
      exact ⟨switches, text :: names, found, .name word hb, admits_cons.mpr ⟨hroom, hadmits⟩, rfl⟩
    · rw [words_of_gives word] at hw
      obtain ⟨taken, ht, hrest⟩ := Except.bind_eq_ok_iff.mp hw
      obtain ⟨hhelp, hnodup, first, hf, rfl⟩ := (foldlM_take_eq_ok_iff word.ne_nil once).mp ht
      obtain ⟨switches, names, found, hb, hadmits, rfl⟩ := ih hnodup hrest
      exact ⟨given ++ switches, names, first ++ found, .switches word hb,
        admits_append.mpr ⟨hhelp, hnodup, first, found, hf, hadmits, rfl⟩, extend_extend ..⟩

end Reading

end CommandLine

end Bootstage
