import Bootstage.Programs.Git
import Bootstage.Proofs.Text.Decoding

/-!
# The course of an inquiry

An inquiry puts its queries in order up to the first that is not answered, and that one decides how
it ends. A query is answered if its program exits with zero and what it has printed is a text. The
answers are these texts without the ends of their last lines.
-/

namespace Bootstage

/-! ### Line ends -/

namespace Text

variable {c : Char} {text rest answer : String}

/-- A text without a character at its end, if it stands there. -/
inductive Chopped (c : Char) : String → String → Prop
  /-- The character is taken away once. -/
  | chopped (text : String) : Chopped c (text.push c) text
  /-- A text that does not end in it stays as it is. -/
  | kept {text : String} (other : ∀ front : String, text ≠ front.push c) : Chopped c text text

/-- A text is chopped by dropping its last character if that is the given one. -/
theorem chopped_iff :
    Chopped c text rest ↔
      rest.toList =
        if text.toList.getLast? = some c then text.toList.dropLast else text.toList := by
  constructor
  · rintro (_ | other)
    · simp
    · rw [if_neg]
      intro hlast
      obtain ⟨front, hfront⟩ := List.getLast?_eq_some_iff.mp hlast
      exact other (String.ofList front) (String.ext (by simp [hfront]))
  · intro h
    split at h
    · next hlast =>
      obtain ⟨front, hfront⟩ := List.getLast?_eq_some_iff.mp hlast
      rw [hfront, List.dropLast_concat] at h
      obtain rfl : text = rest.push c := String.ext (by simp [hfront, h])
      exact .chopped rest
    · next hlast =>
      obtain rfl : rest = text := String.ext h
      exact .kept fun front hfront => hlast (by simp [hfront])

/-- White space that is taken away from the end leaves a blank text blank, and no other. -/
theorem Chopped.isBlank (h : Chopped c text rest) (blank : isBlankChar c = true) :
    Text.isBlank rest = Text.isBlank text := by
  cases h with
  | chopped => simp [Text.isBlank, blank]
  | kept => rfl

/-- A text without the end of its last line: one line feed less and then one carriage return. -/
def Chomped (text answer : String) : Prop :=
  ∃ middle, Chopped '\n' text middle ∧ Chopped '\r' middle answer

end Text

namespace Git

open Text

variable {programs : Programs} {directory : Path} {scene left : Scene} {query : Query}
  {queries : List Query} {output : String} {outputs : List String} {fault : Fault}

/-- An answer is chomped by dropping its line end. -/
theorem chomped_iff {text answer : String} :
    Chomped text answer ↔ withoutLineEnd text = answer := by
  simp only [Chomped, chopped_iff, withoutLineEnd]
  constructor
  · rintro ⟨middle, hmiddle, hanswer⟩
    rw [← hmiddle, ← hanswer, String.ofList_toList]
  · rintro rfl
    exact ⟨String.ofList _, String.toList_ofList, by simp only [String.toList_ofList]⟩

/-- A line end makes no difference to whether a text is blank. -/
theorem isBlank_withoutLineEnd (text : String) :
    isBlank (withoutLineEnd text) = isBlank text := by
  obtain ⟨middle, hfeed, hreturn⟩ := chomped_iff.mpr (Eq.refl (withoutLineEnd text))
  rw [hreturn.isBlank (by decide), hfeed.isBlank (by decide)]

/-! ### One query -/

/-- The command that puts a query in a directory. -/
def Query.command (query : Query) (directory : Path) : Command :=
  { program := "git", args := query.args, workingDir := directory }

/-- The scene after a query has been put. -/
def put (programs : Programs) (directory : Path) (scene : Scene) (query : Query) : Scene :=
  match programs.start (query.command directory) scene with
  | .error _ => scene
  | .ok (location, execution) =>
    { scene with
      tree := execution.tree
      calls := scene.calls ++ [.start (query.command directory) location] }

/-- The program of a query starts, exits with zero and has printed a text. -/
inductive Answers (programs : Programs) (directory : Path) (scene : Scene) (query : Query) :
    String → Prop
  /-- The bytes that it has printed are those of the text. -/
  | answered {location : Location} {execution : Execution} {output : String}
      (start : programs.start (query.command directory) scene = .ok (location, execution))
      (exit : execution.termination = .exited 0) (printed : execution.output = encode output) :
      Answers programs directory scene query output

/-- A query is not answered. -/
inductive Fails (programs : Programs) (directory : Path) (scene : Scene) (query : Query) :
    Fault → Prop
  /-- Its program does not start. -/
  | unstarted {cause : SystemError}
      (start : programs.start (query.command directory) scene = .error cause) :
      Fails programs directory scene query (startFault query directory scene cause)
  /-- Its program exits with another code than zero. -/
  | exited {location : Location} {execution : Execution} {code : Nat}
      (start : programs.start (query.command directory) scene = .ok (location, execution))
      (exit : execution.termination = .exited code) (failure : code ≠ 0) :
      Fails programs directory scene query (.exited query code)
  /-- Its program is killed. -/
  | signalled {location : Location} {execution : Execution} {number : Nat}
      (start : programs.start (query.command directory) scene = .ok (location, execution))
      (exit : execution.termination = .signalled number) :
      Fails programs directory scene query (.signalled query number)
  /-- What its program has printed is no text. -/
  | undecodable {location : Location} {execution : Execution} {fault : Utf8Fault}
      (start : programs.start (query.command directory) scene = .ok (location, execution))
      (exit : execution.termination = .exited 0)
      (printed : ∀ output, execution.output ≠ encode output)
      (first : decode execution.output = .error fault) :
      Fails programs directory scene query (.undecodable query fault)

/-- What follows is asked in the scene that is left, if there is an answer. -/
theorem run_bind {α β : Type} (first : Inquiry α) (next : α → Inquiry β) (scene : Scene) :
    (first >>= next).run scene =
      match first.run scene with
      | (.ok value, left) => (next value).run left
      | (.error fault, left) => (.error fault, left) := by
  show (match first.run scene with
    | (outcome, left) => ExceptT.bindCont next outcome left) = _
  rcases first.run scene with ⟨fault | value, left⟩ <;> rfl

/-- What asking one query comes to, and the scene that it leaves. -/
theorem run_ask (programs : Programs) (directory : Path) (query : Query) (scene : Scene) :
    (ask programs directory query).run scene =
      (match programs.start (query.command directory) scene with
        | .error cause => .error (startFault query directory scene cause)
        | .ok (_, execution) => answer query execution,
        put programs directory scene query) := by
  have hget : (get : Inquiry Scene).run scene = (.ok scene, scene) := rfl
  rw [ask, run_bind, hget]
  unfold put Query.command
  dsimp only
  cases programs.start ⟨"git", query.args, directory, _⟩ scene with
  | error cause => rfl
  | ok result =>
    dsimp only
    rw [run_bind]
    cases answer query result.2 <;> rfl

/-- A query that is answered gives its output without the line end. -/
theorem run_ask_of_answers (h : Answers programs directory scene query output) :
    (ask programs directory query).run scene =
      (.ok (withoutLineEnd output), put programs directory scene query) := by
  obtain ⟨start, exit, printed⟩ := h
  simp only [run_ask, start, answer, exit, decode_eq_ok_iff.mpr printed]

/-- A query that fails gives its fault. -/
theorem run_ask_of_fails (h : Fails programs directory scene query fault) :
    (ask programs directory query).run scene =
      (.error fault, put programs directory scene query) := by
  cases h with
  | unstarted start => simp only [run_ask, start]
  | exited start exit failure => simp only [run_ask, start, answer, exit]
  | signalled start exit => simp only [run_ask, start, answer, exit]
  | undecodable start exit printed first => simp only [run_ask, start, answer, exit, first]

/-- A query is answered, or it fails. -/
theorem exists_answers_or_fails (programs : Programs) (directory : Path) (scene : Scene)
    (query : Query) :
    (∃ output, Answers programs directory scene query output) ∨
      ∃ fault, Fails programs directory scene query fault := by
  rcases hstart : programs.start (query.command directory) scene with
    cause | ⟨location, termination, output, tree⟩
  · exact .inr ⟨_, .unstarted hstart⟩
  · match termination with
    | .signalled number => exact .inr ⟨_, .signalled hstart rfl⟩
    | .exited (code + 1) => exact .inr ⟨_, .exited hstart rfl code.succ_ne_zero⟩
    | .exited 0 =>
      cases hdecode : decode output with
      | error fault =>
        have hnone := exists_decode_eq_error_iff.mp ⟨fault, hdecode⟩
        exact .inr ⟨_, .undecodable hstart rfl hnone hdecode⟩
      | ok text => exact .inl ⟨text, .answered hstart rfl (decode_eq_ok_iff.mp hdecode)⟩

/-! ### Queries in a row -/

/-- Queries are answered one after the other, each in the scene that those before it have left. -/
inductive Replies (programs : Programs) (directory : Path) :
    Scene → List Query → List String → Prop
  /-- There are no queries. -/
  | done (scene : Scene) : Replies programs directory scene [] []
  /-- The first query is answered, and the others are after it. -/
  | replied {scene : Scene} {query : Query} {output : String} {rest : List Query}
      {outputs : List String} (first : Answers programs directory scene query output)
      (others : Replies programs directory (put programs directory scene query) rest outputs) :
      Replies programs directory scene (query :: rest) (output :: outputs)

/-- Queries that are all answered are all put. -/
theorem run_mapM_of_replies (h : Replies programs directory scene queries outputs) :
    (queries.mapM (ask programs directory)).run scene =
      (.ok (outputs.map withoutLineEnd), queries.foldl (put programs directory) scene) := by
  induction h with
  | done => rfl
  | replied first others ih =>
    rw [List.mapM_cons, run_bind, run_ask_of_answers first]
    dsimp only
    rw [run_bind, ih]
    rfl

/-- After the first query that fails no other is put. -/
theorem run_mapM_of_fails {front rest : List Query}
    (h : Replies programs directory scene front outputs)
    (fails : Fails programs directory (front.foldl (put programs directory) scene) query fault) :
    ((front ++ query :: rest).mapM (ask programs directory)).run scene =
      (.error fault, (front ++ [query]).foldl (put programs directory) scene) := by
  induction h with
  | done =>
    rw [List.foldl_nil] at fails
    rw [List.nil_append, List.mapM_cons, run_bind, run_ask_of_fails fails]
    rfl
  | replied first others ih =>
    rw [List.cons_append, List.mapM_cons, run_bind, run_ask_of_answers first]
    dsimp only
    rw [run_bind, ih fails]
    rfl

/-- All queries are answered, or there is a first one that fails. -/
theorem exists_replies_or_fails (programs : Programs) (directory : Path) (queries : List Query)
    (scene : Scene) :
    (∃ outputs, Replies programs directory scene queries outputs) ∨
      ∃ front query rest outputs fault, queries = front ++ query :: rest ∧
        Replies programs directory scene front outputs ∧
        Fails programs directory (front.foldl (put programs directory) scene) query fault := by
  induction queries generalizing scene with
  | nil => exact .inl ⟨[], .done scene⟩
  | cons query queries ih =>
    rcases exists_answers_or_fails programs directory scene query with
      ⟨output, first⟩ | ⟨fault, fails⟩
    · rcases ih (put programs directory scene query) with
        ⟨outputs, others⟩ | ⟨front, other, rest, outputs, fault, rfl, others, fails⟩
      · exact .inl ⟨_, .replied first others⟩
      · exact .inr ⟨query :: front, other, rest, _, fault, rfl, .replied first others, fails⟩
    · exact .inr ⟨[], query, queries, [], fault, rfl, .done scene, fails⟩

/-! ### The whole inquiry -/

/-- What the outputs of all queries say of the sources. -/
inductive Told : List String → Provenance → Prop
  /-- The texts are those of the first three without line ends, and the tree is dirty if there is
  anything but white space in the fourth. -/
  | told {revision branch date status : String} {provenance : Provenance}
      (revisionText : Chomped revision provenance.revision)
      (branchText : Chomped branch provenance.branch) (dateText : Chomped date provenance.date)
      (dirty_iff : provenance.dirty = true ↔ ∃ c ∈ status.toList, isBlankChar c = false) :
      Told [revision, branch, date, status] provenance

/-- What the answers to all queries say of the sources. -/
def provenanceOf : List String → Provenance
  | [revision, branch, date, status] =>
    { revision, branch, date, dirty := !isBlank status }
  | _ => default

/-- An inquiry puts all queries and goes by their answers. -/
theorem run_inquire (programs : Programs) (directory : Path) (scene : Scene) :
    (inquire programs directory).run scene =
      match (Query.all.mapM (ask programs directory)).run scene with
      | (outcome, left) => (outcome.map provenanceOf, left) := by
  have hinquire : inquire programs directory =
      Query.all.mapM (ask programs directory) >>= fun answers => pure (provenanceOf answers) := by
    simp [inquire, Query.all, provenanceOf]
  rw [hinquire, run_bind]
  rcases (Query.all.mapM (ask programs directory)).run scene with ⟨fault | answers, left⟩ <;> rfl

theorem length_eq_of_replies (h : Replies programs directory scene queries outputs) :
    outputs.length = queries.length := by
  induction h with
  | done => rfl
  | replied first others ih => rw [List.length_cons, List.length_cons, ih]

/-- What is told by the outputs is the provenance that is read from them. -/
theorem told_iff {provenance : Provenance} (h : outputs.length = Query.all.length) :
    Told outputs provenance ↔ provenanceOf (outputs.map withoutLineEnd) = provenance := by
  match outputs, h with
  | [revision, branch, date, status], _ =>
    rw [List.map_cons, List.map_cons, List.map_cons, List.map_cons, List.map_nil, provenanceOf]
    have hblank : (∃ c ∈ status.toList, isBlankChar c = false) ↔
        (!isBlank (withoutLineEnd status)) = true := by
      rw [← isBlank_eq_false_iff, ← isBlank_withoutLineEnd, Bool.not_eq_true']
    constructor
    · rintro ⟨hrevision, hbranch, hdate, hdirty⟩
      rw [chomped_iff.mp hrevision, chomped_iff.mp hbranch, chomped_iff.mp hdate,
        ← Bool.eq_iff_iff.mpr (hdirty.trans hblank)]
    · rintro rfl
      exact .told (chomped_iff.mpr rfl) (chomped_iff.mpr rfl) (chomped_iff.mpr rfl) hblank.symm

/-- For each of the queries a program was started that puts it, in the same order. -/
def Started (directory : Path) (queries : List Query) (starts : List Call) : Prop :=
  List.Forall₂ (fun query call => ∃ location, call = .start (query.command directory) location)
    queries starts

/-- A program that answers has been started, in some directory. -/
theorem exists_started_of_answers (h : Answers programs directory scene query output) :
    ∃ location, (put programs directory scene query).calls =
      scene.calls ++ [.start (query.command directory) location] := by
  obtain ⟨start, -, -⟩ := h
  exact ⟨_, by rw [put, start]⟩

/-- A query that fails starts its program or none at all. -/
theorem exists_started_of_put (programs : Programs) (directory : Path) (scene : Scene)
    (query : Query) :
    ∃ starts, (put programs directory scene query).calls = scene.calls ++ starts ∧
      (starts = [] ∨ Started directory [query] starts) := by
  rw [put]
  cases programs.start (query.command directory) scene with
  | error cause => exact ⟨[], by simp, .inl rfl⟩
  | ok result => exact ⟨_, rfl, .inr (.cons ⟨_, rfl⟩ .nil)⟩

/-- Each query that is answered has started its program. -/
theorem exists_started_of_replies (h : Replies programs directory scene queries outputs) :
    ∃ starts, (queries.foldl (put programs directory) scene).calls = scene.calls ++ starts ∧
      Started directory queries starts := by
  induction h with
  | done => exact ⟨[], by simp, .nil⟩
  | replied first others ih =>
    obtain ⟨location, hcalls⟩ := exists_started_of_answers first
    obtain ⟨starts, hothers, hstarted⟩ := ih
    rw [hcalls, List.append_assoc] at hothers
    exact ⟨_, hothers, .cons ⟨location, rfl⟩ hstarted⟩

/-- Behind queries that are answered another one starts its program or none at all. -/
theorem exists_started_of_last (query : Query)
    (h : Replies programs directory scene queries outputs) :
    ∃ earlier last, ((queries ++ [query]).foldl (put programs directory) scene).calls =
        scene.calls ++ (earlier ++ last) ∧
      Started directory queries earlier ∧ (last = [] ∨ Started directory [query] last) := by
  obtain ⟨earlier, hearlier, hstarted⟩ := exists_started_of_replies h
  obtain ⟨last, hlast, hput⟩ := exists_started_of_put programs directory
    (queries.foldl (put programs directory) scene) query
  refine ⟨earlier, last, ?_, hstarted, hput⟩
  rw [List.foldl_append, List.foldl_cons, List.foldl_nil, hlast, hearlier, List.append_assoc]

/-- What an inquiry in a directory comes to, which starts in the given scene. -/
structure Account (programs : Programs) (directory : Path) (scene : Scene)
    (reaction : Reaction (Except Error Provenance)) : Prop where
  /-- It succeeds exactly if all queries are answered, and with what the answers say. -/
  ok_iff : ∀ provenance, reaction.outcome = .ok provenance ↔
    ∃ outputs, Replies programs directory scene Query.all outputs ∧ Told outputs provenance
  /-- It fails exactly if there is a first query that fails, and for its reason. -/
  error_iff : ∀ error, reaction.outcome = .error error ↔
    ∃ front query rest outputs fault, Query.all = front ++ query :: rest ∧
      Replies programs directory scene front outputs ∧
      Fails programs directory (front.foldl (put programs directory) scene) query fault ∧
      error = .provenance fault.message
  /-- Where all queries are answered, a program has been started for each of them, and no file is
  changed but by these. -/
  answered : ∀ outputs, Replies programs directory scene Query.all outputs →
    reaction.tree = (Query.all.foldl (put programs directory) scene).tree ∧
      Started directory Query.all reaction.starts
  /-- After the first query that fails none is started, and nothing is changed. -/
  stopped : ∀ front query rest outputs fault, Query.all = front ++ query :: rest →
    Replies programs directory scene front outputs →
    Fails programs directory (front.foldl (put programs directory) scene) query fault →
      reaction.tree = ((front ++ [query]).foldl (put programs directory) scene).tree ∧
        ∃ earlier last, reaction.starts = earlier ++ last ∧ Started directory front earlier ∧
          (last = [] ∨ Started directory [query] last)

/-- What the source of the provenance does where there is a working directory. -/
theorem react_ofPrograms (programs : Programs) (config : Config) {cwd : Location}
    (hcwd : scene.cwd = some cwd) {outcome : Except Fault (List String)}
    (h : (Query.all.mapM (ask programs ((Path.ofLocation cwd).join config.workspaceRoot))).run
      scene = (outcome, left)) :
    (ProvenanceSource.ofPrograms programs config).react scene =
      { outcome := (outcome.map provenanceOf).mapError fun fault => .provenance fault.message
        tree := left.tree
        starts := left.calls.drop scene.calls.length } := by
  simp only [ProvenanceSource.ofPrograms, hcwd, run_inquire, h]

/-- When all queries are answered, the provenance is what they tell. -/
theorem react_of_replies (config : Config) {cwd : Location} (hcwd : scene.cwd = some cwd)
    (hdirectory : (Path.ofLocation cwd).join config.workspaceRoot = directory)
    (replies : Replies programs directory scene Query.all outputs) :
    (ProvenanceSource.ofPrograms programs config).react scene =
      { outcome := .ok (provenanceOf (outputs.map withoutLineEnd))
        tree := (Query.all.foldl (put programs directory) scene).tree
        starts := (Query.all.foldl (put programs directory) scene).calls.drop
          scene.calls.length } := by
  subst hdirectory
  exact react_ofPrograms programs config hcwd (run_mapM_of_replies replies)

/-- When a query fails after others have been answered, its fault is that of the whole. -/
theorem react_of_fails (config : Config) {cwd : Location} (hcwd : scene.cwd = some cwd)
    (hdirectory : (Path.ofLocation cwd).join config.workspaceRoot = directory)
    {front rest : List Query} (hall : Query.all = front ++ query :: rest)
    (replies : Replies programs directory scene front outputs)
    (fails : Fails programs directory (front.foldl (put programs directory) scene) query fault) :
    (ProvenanceSource.ofPrograms programs config).react scene =
      { outcome := .error (.provenance fault.message)
        tree := ((front ++ [query]).foldl (put programs directory) scene).tree
        starts := ((front ++ [query]).foldl (put programs directory) scene).calls.drop
          scene.calls.length } := by
  have hrun : (Query.all.mapM (ask programs directory)).run scene =
      (.error fault, (front ++ [query]).foldl (put programs directory) scene) := by
    rw [hall, run_mapM_of_fails replies fails]
  subst hdirectory
  exact react_ofPrograms programs config hcwd hrun

/-- The provenance is asked of Git in four queries, and it is what their answers say. -/
theorem account_react (programs : Programs) (config : Config) {cwd : Location}
    (hcwd : scene.cwd = some cwd) :
    Account programs ((Path.ofLocation cwd).join config.workspaceRoot) scene
      ((ProvenanceSource.ofPrograms programs config).react scene) := by
  have hcourse := exists_replies_or_fails programs
    ((Path.ofLocation cwd).join config.workspaceRoot) Query.all scene
  refine ⟨fun provenance => ⟨fun hok => ?ok, ?told⟩, fun error => ⟨fun herror => ?error, ?failed⟩,
    fun outputs replies => ?answered,
    fun front query rest outputs fault hall replies fails => ?stopped⟩
  case ok =>
    rcases hcourse with ⟨outputs, replies⟩ | ⟨front, query, rest, outputs, fault, hall, hr, hf⟩
    · rw [react_of_replies config hcwd rfl replies] at hok
      exact ⟨outputs, replies,
        (told_iff (length_eq_of_replies replies)).mpr (Except.ok.inj hok)⟩
    · simp [react_of_fails config hcwd rfl hall hr hf] at hok
  case told =>
    rintro ⟨outputs, replies, told⟩
    rw [react_of_replies config hcwd rfl replies,
      (told_iff (length_eq_of_replies replies)).mp told]
  case error =>
    rcases hcourse with ⟨outputs, replies⟩ | ⟨front, query, rest, outputs, fault, hall, hr, hf⟩
    · simp [react_of_replies config hcwd rfl replies] at herror
    · rw [react_of_fails config hcwd rfl hall hr hf] at herror
      exact ⟨front, query, rest, outputs, fault, hall, hr, hf, (Except.error.inj herror).symm⟩
  case failed =>
    rintro ⟨front, query, rest, outputs, fault, hall, replies, fails, rfl⟩
    rw [react_of_fails config hcwd rfl hall replies fails]
  case answered =>
    obtain ⟨starts, hcalls, hstarted⟩ := exists_started_of_replies replies
    rw [react_of_replies config hcwd rfl replies, hcalls, List.drop_left]
    exact ⟨rfl, hstarted⟩
  case stopped =>
    obtain ⟨earlier, last, hcalls, hstarted, hput⟩ := exists_started_of_last query replies
    rw [react_of_fails config hcwd rfl hall replies fails, hcalls, List.drop_left]
    exact ⟨rfl, earlier, last, rfl, hstarted, hput⟩

/-- Where there is no working directory no query is put. -/
theorem react_of_no_cwd (programs : Programs) (config : Config) (hcwd : scene.cwd = none) :
    (ProvenanceSource.ofPrograms programs config).react scene =
      { outcome := .error (.provenance (Fault.noWorkingDirectory .notFound).message)
        tree := scene.tree } := by
  simp only [ProvenanceSource.ofPrograms, hcwd]

end Git

end Bootstage
