import Bootstage.Proofs.CommandLine.Reading

/-!
# Accepted command lines

A command line is accepted exactly if its two sides are fit and its names make a task, and it is
accepted as that task alone.
-/

namespace Bootstage.CommandLine

/-! ### Tasks -/

/-- Behind a subcommand only the switches of that place are given. -/
theorem Gives.subset {level : Level} {text : String} {given : List Switch}
    (h : Gives level text given) : given ⊆ level.switches := by
  cases h with
  | name mem => simpa using mem
  | letters nonempty each =>
    intro switch hm
    obtain ⟨letter, -, hletter⟩ := exists_mem_of_forall₂ each hm
    exact hletter.1

/-- Only switches that are known behind a subcommand are given there. -/
theorem Behind.subset {subcommand : Subcommand} {texts names : List String}
    {switches : List Switch} (h : Behind subcommand texts switches names) :
    switches ⊆ (Level.behind subcommand).switches := by
  induction h with
  | done => exact List.nil_subset _
  | divided names => exact List.nil_subset _
  | switches word tail ih => exact List.append_subset.mpr ⟨word.subset, ih⟩
  | name word tail ih => exact ih

namespace Reading

variable {subcommand : Subcommand} {switches : List Switch} {names : List String}
  {found : List Architecture} {task : Task}

/-- There is room for the names of a task, and every one is known. -/
theorem exists_lookupAll_of_makesTask (h : MakesTask switches subcommand names task) :
    Room subcommand 0 names ∧ ∃ found, Architecture.lookupAll names = .ok found := by
  cases h with
  | build each named known =>
    exact ⟨.inr trivial, _, Architecture.lookupAll_eq_ok_iff.mpr known⟩
  | buildAll all => exact ⟨.inl rfl, [], rfl⟩
  | run known =>
    exact ⟨.inr (Nat.le_refl 1), _, Architecture.lookupAll_eq_ok_iff.mpr (.cons known .nil)⟩
  | clean => exact ⟨.inl rfl, [], rfl⟩

/-- A reading has no conflict unless both levels are asked for, or names stand beside the switch for
all. -/
theorem isConflicting_eq_false_iff (reading : Reading) :
    reading.isConflicting = false ↔ ¬(.quiet ∈ reading.switches ∧ .verbose ∈ reading.switches) ∧
      (.all ∈ reading.switches → reading.architectures = []) := by
  unfold isConflicting
  simp only [Bool.or_eq_false_iff, List.contains_eq_mem]
  by_cases hall : Switch.all ∈ reading.switches <;> simp [hall]

/-- The profile is that of the switches, in whatever order they stand. -/
theorem profile_eq (reading : Reading) : reading.profile = profileOf reading.switches := by
  unfold profile profileOf BuildProfile.ofRelease
  simp

/-- Behind the subcommand for builds, names and the switch for every architecture exclude each
other, and one of both has to be there. -/
theorem task?_build_iff (known : Architecture.lookupAll names = .ok found) :
    ((.all ∈ switches → found = []) ∧ task? ⟨switches, found, []⟩ .build = some task) ↔
      MakesTask switches .build names task := by
  have hknown := Architecture.lookupAll_eq_ok_iff.mp known
  simp only [task?, profile_eq, List.contains_eq_mem, decide_eq_true_eq]
  constructor
  · rintro ⟨hall, htask⟩
    split at htask
    · next hm =>
      obtain rfl := Option.some.inj htask
      rw [hall hm] at hknown
      cases hknown
      exact .buildAll hm
    · next hm =>
      cases hknown with
      | nil => simp at htask
      | cons first rest =>
        obtain rfl := Option.some.inj htask
        exact .build hm (List.cons_ne_nil _ _) (.cons first rest)
  · intro h
    cases h with
    | buildAll all =>
      cases hknown
      exact ⟨fun _ => rfl, if_pos all⟩
    | build each named known' =>
      obtain rfl := Except.ok.inj (known.symm.trans (Architecture.lookupAll_eq_ok_iff.mpr known'))
      refine ⟨fun hall => absurd hall each, ?_⟩
      cases known' with
      | nil => exact absurd rfl named
      | cons first rest => simp [each]

/-- A run is made a task of as soon as its one name is known. -/
theorem task?_run_iff (known : Architecture.lookupAll names = .ok found)
    (room : Room .run 0 names) :
    task? ⟨switches, found, []⟩ .run = some task ↔ MakesTask switches .run names task := by
  have hknown := Architecture.lookupAll_eq_ok_iff.mp known
  simp only [task?, profile_eq, List.contains_eq_mem]
  cases hknown with
  | nil =>
    constructor
    · intro htask
      simp at htask
    · intro h
      cases h
  | @cons name architecture names found first rest =>
    obtain rfl : names = [] := by
      simpa [Room, Subcommand.capacity] using room
    cases rest
    constructor
    · intro htask
      obtain rfl := Option.some.inj htask
      exact .run first
    · intro h
      cases h with
      | run known' =>
        obtain rfl := Option.some.inj (first.symm.trans known')
        rfl

/-- Switches and names that a subcommand admits make a task exactly if nothing excludes another and
nothing is missing. -/
theorem task?_eq_some_iff (known : Architecture.lookupAll names = .ok found)
    (room : Room subcommand 0 names) (placed : switches ⊆ (Level.behind subcommand).switches) :
    ((.all ∈ switches → found = []) ∧ task? ⟨switches, found, []⟩ subcommand = some task) ↔
      MakesTask switches subcommand names task := by
  cases subcommand with
  | build => exact task?_build_iff known
  | run =>
    have hall : .all ∉ switches := fun hm => absurd (placed hm) (by decide)
    rw [← task?_run_iff known room]
    exact and_iff_right fun hm => absurd hm hall
  | clean =>
    obtain rfl : names = [] := room.resolve_right id
    obtain rfl := Except.ok.inj known
    constructor
    · rintro ⟨-, htask⟩
      obtain rfl := Option.some.inj htask
      exact .clean
    · intro h
      cases h
      exact ⟨fun _ => rfl, rfl⟩
  | help =>
    constructor
    · rintro ⟨-, htask⟩
      simp [task?] at htask
    · intro h
      cases h

/-! ### Both sides of a subcommand -/

/-- A side is read to its end exactly if its words are, without a conflict, and make a task. -/
theorem complete_eq_ok_iff {texts : List String} {reading : Reading} :
    complete subcommand texts = .ok (reading, task) ↔
      (words subcommand {} texts >>= settle) = .ok reading ∧ reading.isConflicting = false ∧
        reading.task? subcommand = some task := by
  rw [complete, ← bind_assoc, Except.bind_eq_ok_iff]
  constructor
  · rintro ⟨settled, hs, h⟩
    split at h
    · contradiction
    · next hfree =>
      cases htask : settled.task? subcommand with
      | none => simp [htask] at h
      | some done =>
        simp only [htask] at h
        obtain ⟨rfl, rfl⟩ := Prod.mk.inj (Except.ok.inj h)
        exact ⟨hs, Bool.eq_false_iff.mpr hfree, htask⟩
  · rintro ⟨hs, hfree, htask⟩
    exact ⟨reading, hs, by simp [hfree, htask]⟩

/-- Behind a subcommand words are accepted exactly if their switches are fit and make a task. -/
theorem exists_complete_iff {texts : List String} :
    (∃ reading, complete subcommand texts = .ok (reading, task) ∧ reading.switches = switches) ↔
      ∃ names, Behind subcommand texts switches names ∧ Fit switches ∧
        MakesTask switches subcommand names task := by
  simp only [complete_eq_ok_iff, isConflicting_eq_false_iff]
  constructor
  · rintro ⟨reading, ⟨hs, ⟨hlevel, hall⟩, htask⟩, rfl⟩
    obtain ⟨switches, names, found, hb, admits, rfl⟩ :=
      exists_behind_of_settle_words List.nodup_nil hs
    exact ⟨names, hb, ⟨admits.once, admits.help, hlevel⟩,
      (task?_eq_some_iff admits.known admits.room hb.subset).mp ⟨hall, htask⟩⟩
  · rintro ⟨names, hb, fit, makes⟩
    obtain ⟨room, found, known⟩ := exists_lookupAll_of_makesTask makes
    obtain ⟨hall, htask⟩ := (task?_eq_some_iff known room hb.subset).mpr makes
    have hnone : ({} : Reading).switches.Nodup := List.nodup_nil
    have hs := settle_words_of_behind hb hnone ⟨fit.help, fit.once, room, known⟩
    exact ⟨_, ⟨hs, ⟨fit.level, hall⟩, htask⟩, rfl⟩

end Reading

/-! ### The whole line -/

variable {given front behind : List Switch} {texts : List String} {invocation : Invocation}

/-- A line asks for an invocation where switches were given before. -/
def AcceptsFrom (given : List Switch) (texts : List String) (invocation : Invocation) : Prop :=
  ∃ front subcommand behind names, Written texts front subcommand behind names ∧
    Fit (given ++ front) ∧ Fit behind ∧ MakesTask behind subcommand names invocation.task ∧
    (invocation.quiet = true ↔ .quiet ∈ (given ++ front) ++ behind) ∧
    (invocation.verbose = true ↔ .verbose ∈ (given ++ front) ++ behind)

/-- The two sides have the task of the subcommand and the switches of both. -/
theorem ofSides_iff {front behind : Reading} {task : Task} :
    invocation = .ofSides front behind task ↔ invocation.task = task ∧
      (invocation.quiet = true ↔ .quiet ∈ front.switches ++ behind.switches) ∧
      (invocation.verbose = true ↔ .verbose ∈ front.switches ++ behind.switches) := by
  have hquiet : (Invocation.ofSides front behind task).quiet = true ↔
      .quiet ∈ front.switches ++ behind.switches := by
    simp [Invocation.ofSides]
  have hverbose : (Invocation.ofSides front behind task).verbose = true ↔
      .verbose ∈ front.switches ++ behind.switches := by
    simp [Invocation.ofSides]
  rw [← hquiet, ← hverbose, ← Bool.eq_iff_iff, ← Bool.eq_iff_iff]
  cases invocation
  simp [Invocation.ofSides]

/-- A subcommand is known under its own name and under no other. -/
theorem Subcommand.ofName?_eq_some_iff {name : String} {subcommand : Subcommand} :
    ofName? name = some subcommand ↔ name = subcommand.name := by
  constructor
  · intro h
    have hname := List.find?_some h
    exact (of_decide_eq_true hname).symm
  · rintro rfl
    exact ofName?_name subcommand

/-- A subcommand is read as its own side is, and then compared with the switches in front. -/
theorem readSubcommand_name {subcommand : Subcommand} (h : subcommand ≠ .help) (front : Reading)
    (rest : List String) :
    readSubcommand front subcommand.name rest = (do
      let (behind, task) ← Reading.complete subcommand rest
      if front.isConflicting then .error (.refused .argumentConflict)
      else .ok (.ofSides front behind task)) := by
  rw [readSubcommand, Subcommand.ofName?_name]
  cases subcommand with
  | help => exact absurd rfl h
  | _ => rfl

/-- A subcommand with what stands behind it is accepted if both sides are fit and make a task. -/
theorem readSubcommand_eq_ok_iff {subcommand : Subcommand} {rest : List String} :
    readSubcommand ⟨given, [], []⟩ subcommand.name rest = .ok invocation ↔
      ¬(.quiet ∈ given ∧ .verbose ∈ given) ∧ ∃ behind names,
        Behind subcommand rest behind names ∧ Fit behind ∧
        MakesTask behind subcommand names invocation.task ∧
        (invocation.quiet = true ↔ .quiet ∈ given ++ behind) ∧
        (invocation.verbose = true ↔ .verbose ∈ given ++ behind) := by
  by_cases hhelp : subcommand = .help
  · subst hhelp
    constructor
    · intro h
      rw [readSubcommand, Subcommand.ofName?_name] at h
      simp at h
    · rintro ⟨-, behind, names, -, -, makes, -⟩
      cases makes
  rw [readSubcommand_name hhelp, Except.bind_eq_ok_iff]
  have hfree : Reading.isConflicting ⟨given, [], []⟩ = false ↔
      ¬(.quiet ∈ given ∧ .verbose ∈ given) := by
    rw [Reading.isConflicting_eq_false_iff]
    exact and_iff_left fun _ => rfl
  constructor
  · rintro ⟨⟨reading, task⟩, hc, h⟩
    dsimp only at h
    split at h
    · contradiction
    · next hconflict =>
      obtain ⟨names, hb, fit, makes⟩ := Reading.exists_complete_iff.mp ⟨reading, hc, rfl⟩
      obtain ⟨rfl, flags⟩ := ofSides_iff.mp (Except.ok.inj h).symm
      exact ⟨hfree.mp (Bool.eq_false_iff.mpr hconflict), _, names, hb, fit, makes, flags⟩
  · rintro ⟨hlevel, behind, names, hb, fit, makes, flags⟩
    obtain ⟨reading, hc, rfl⟩ := Reading.exists_complete_iff.mpr ⟨names, hb, fit, makes⟩
    have hsides : invocation = .ofSides ⟨given, [], []⟩ reading invocation.task :=
      ofSides_iff.mpr ⟨rfl, flags⟩
    refine ⟨(reading, invocation.task), hc, ?_⟩
    dsimp only
    rw [hfree.mpr hlevel, ← hsides]
    rfl

/-- Where the first operand stands, the side behind begins. -/
theorem readFrom_of_operand {text : String} {rest : List String} (word : IsOperand text)
    (front : Reading) : readFrom front (text :: rest) = readSubcommand front text rest := by
  simp only [readFrom, Word.ofText_operand word]

/-- A word in front gives its switches to what is read after it. -/
theorem readFrom_of_gives {text : String} {given : List Switch} {rest : List String}
    (word : Gives .front text given) (front : Reading) :
    readFrom front (text :: rest) = (do
      let taken ← given.foldlM (Reading.take .front) front
      readFrom taken rest) := by
  rcases word.word with ⟨switch, mem, rfl, hw⟩ | ⟨cluster, -, each, hw⟩
  · simp only [readFrom, hw, Reading.takeLong_of_mem mem, List.foldlM_cons, List.foldlM_nil,
      bind_pure]
  · simp only [readFrom, hw, Reading.takeLetters_of_letters each]

/-- In front of the rest of an accepted line stands the name of a subcommand or a word that gives
switches. -/
theorem cases_of_readFrom {front : Reading} {text : String} {rest : List String}
    (h : readFrom front (text :: rest) = .ok invocation) :
    (∃ subcommand : Subcommand, text = subcommand.name) ∨ ∃ given, Gives .front text given := by
  cases hw : Word.ofText text with
  | divider => simp [readFrom, hw] at h
  | operand name =>
    obtain ⟨rfl, -⟩ := Word.isOperand_of_ofText hw
    simp only [readFrom, hw, readSubcommand] at h
    cases hn : Subcommand.ofName? name with
    | none => simp [hn] at h
    | some subcommand => exact .inl ⟨subcommand, Subcommand.ofName?_eq_some_iff.mp hn⟩
  | long name valued =>
    simp only [readFrom, hw] at h
    obtain ⟨taken, ht, -⟩ := Except.bind_eq_ok_iff.mp h
    obtain ⟨given, word, -⟩ := Reading.exists_gives_of_takeLong hw ht
    exact .inr ⟨given, word⟩
  | letters cluster =>
    simp only [readFrom, hw] at h
    obtain ⟨taken, ht, -⟩ := Except.bind_eq_ok_iff.mp h
    obtain ⟨given, word, -⟩ := Reading.exists_gives_of_takeLetters hw ht
    exact .inr ⟨given, word⟩

/-- With nothing pending, the switches of a word are taken if none is the help and none is taken
twice. -/
theorem foldlM_take_front_eq_ok_iff {text : String} {word : List Switch} {taken : Reading}
    (gives : Gives .front text word) (once : given.Nodup) :
    word.foldlM (Reading.take .front) ⟨given, [], []⟩ = .ok taken ↔
      .help ∉ word ∧ (given ++ word).Nodup ∧ taken = ⟨given ++ word, [], []⟩ := by
  rw [Reading.foldlM_take_eq_ok_iff gives.ne_nil once]
  refine and_congr_right fun _ => and_congr_right fun _ => ?_
  constructor
  · rintro ⟨found, hf, rfl⟩
    obtain rfl := Except.ok.inj hf
    rfl
  · rintro rfl
    exact ⟨[], rfl, rfl⟩

/-- From any fit beginning on, a line is accepted exactly if it asks for an invocation. -/
theorem readFrom_eq_ok_iff (once : given.Nodup) (help : .help ∉ given) :
    readFrom ⟨given, [], []⟩ texts = .ok invocation ↔ AcceptsFrom given texts invocation := by
  induction texts generalizing given with
  | nil =>
    constructor
    · intro h
      simp [readFrom] at h
    · rintro ⟨front, subcommand, behind, names, written, -⟩
      cases written
  | cons text rest ih =>
    constructor
    · intro h
      rcases cases_of_readFrom h with ⟨subcommand, rfl⟩ | ⟨word, gives⟩
      · rw [readFrom_of_operand subcommand.isOperand_name, readSubcommand_eq_ok_iff] at h
        obtain ⟨hlevel, behind, names, hb, fit, makes, flags⟩ := h
        refine ⟨[], subcommand, behind, names, .subcommand hb, ?_, fit, makes, ?_⟩
        · rw [List.append_nil]
          exact ⟨once, help, hlevel⟩
        · rwa [List.append_nil]
      · rw [readFrom_of_gives gives] at h
        obtain ⟨taken, ht, h⟩ := Except.bind_eq_ok_iff.mp h
        obtain ⟨hhelp, hnodup, rfl⟩ := (foldlM_take_front_eq_ok_iff gives once).mp ht
        have hnone : .help ∉ given ++ word := List.not_mem_append help hhelp
        obtain ⟨front, subcommand, behind, names, written, accepted⟩ := (ih hnodup hnone).mp h
        rw [List.append_assoc] at accepted
        exact ⟨word ++ front, subcommand, behind, names, .switches gives written, accepted⟩
    · rintro ⟨front, subcommand, behind, names, written, fitFront, fit, makes, flags⟩
      cases written with
      | subcommand tail =>
        rw [List.append_nil] at fitFront flags
        rw [readFrom_of_operand subcommand.isOperand_name, readSubcommand_eq_ok_iff]
        exact ⟨fitFront.level, behind, names, tail, fit, makes, flags⟩
      | @switches _ word front _ _ _ _ gives tail =>
        rw [← List.append_assoc] at fitFront flags
        have hnodup : (given ++ word).Nodup := fitFront.once.of_append_left
        have hnone : .help ∉ given ++ word := fun hm => fitFront.help (List.mem_append_left _ hm)
        have hhelp : .help ∉ word := fun hm => hnone (List.mem_append_right _ hm)
        rw [readFrom_of_gives gives, Except.bind_eq_ok_iff]
        refine ⟨_, (foldlM_take_front_eq_ok_iff gives once).mpr ⟨hhelp, hnodup, rfl⟩, ?_⟩
        exact (ih hnodup hnone).mpr
          ⟨front, subcommand, behind, names, tail, fitFront, fit, makes, flags⟩

/-- A command line is accepted exactly if it asks for an invocation, and as that one. -/
theorem read_eq_ok_iff : read texts = .ok invocation ↔ Accepts texts invocation :=
  readFrom_eq_ok_iff List.nodup_nil List.not_mem_nil

example : read ["-q", "build", "amd64", "-r", "--", "arm64"] =
    .ok ⟨.build [.x86_64, .aarch64] .release, true, false⟩ := by decide

example : read ["build", "amd64", "pdp11"] =
    .error (.refused (.invalidValue (.unsupportedArchitecture "pdp11"))) := by decide

end Bootstage.CommandLine
