import Bootstage.Proofs.Text.Splitting
import Bootstage.Rehearsal

/-!
# Requests read back from their arguments

Nothing of a request is lost on the command line of the building program. Its texts stand where no
switch is looked for, whatever they look like, and how many words stand behind the target tells
which of the optional ones are among them. Only a feature with a comma in it is taken for two.
-/

namespace Bootstage.BuildRequest

open Rehearsal

variable {request other : BuildRequest} {features : List String} {args : List String}

/-- The features can be told apart in a list of them: there is no comma in any. -/
def Listable (request : BuildRequest) : Prop :=
  ∀ feature ∈ request.features, ',' ∉ feature.toList

instance (request : BuildRequest) : Decidable request.Listable :=
  inferInstanceAs (Decidable (∀ feature ∈ request.features, _))

/-! ### The words behind the target -/

/-- The words that mention features. -/
def mention (features : List String) : List String :=
  if features.isEmpty then [] else ["--features", ",".intercalate features]

/-- The word that asks for a release. -/
def mark (release : Bool) : List String :=
  if release then ["--release"] else []

/-- The optional words stand behind the target. -/
theorem args_eq (request : BuildRequest) :
    request.args = ["build", "-p", request.package, "--target", request.target] ++
      (mention request.features ++ mark request.release) :=
  List.append_assoc _ _ _

/-- Features are mentioned where there are any. -/
theorem mention_of_ne_nil (h : features ≠ []) :
    mention features = ["--features", ",".intercalate features] := by
  rw [mention, if_neg (by simpa using h)]

/-- The words behind the target tell whether there are features, what they come to when they are
joined, and whether a release is built: the four ways to write them differ in length. -/
theorem mention_append_mark_inj {features features' : List String} {release release' : Bool} :
    mention features ++ mark release = mention features' ++ mark release' ↔
      (features = [] ↔ features' = []) ∧ ",".intercalate features = ",".intercalate features' ∧
        release = release' := by
  cases features <;> cases features' <;> cases release <;> cases release' <;>
    simp [mention, mark]

/-- What equal arguments have in common. -/
theorem args_eq_args_iff :
    request.args = other.args ↔ request.package = other.package ∧ request.target = other.target ∧
      (request.features = [] ↔ other.features = []) ∧
        ",".intercalate request.features = ",".intercalate other.features ∧
          request.release = other.release := by
  rw [args_eq, args_eq, ← mention_append_mark_inj]
  simp

/-! ### Reading the arguments -/

/-- Features are read back from their list exactly if there is no comma in any. -/
theorem split_intercalate_features (h : request.features ≠ []) :
    Text.split ',' (",".intercalate request.features) = request.features ↔ request.Listable :=
  Text.split_intercalate_iff h

/-- A list of features that was split at its commas is put together again. -/
theorem mention_split (text : String) :
    mention (Text.split ',' text) = ["--features", text] := by
  rw [mention_of_ne_nil (Text.split_ne_nil ',' text)]
  exact congrArg (["--features", ·]) (Text.split_eq_iff.mp rfl).2.2

/-- The building program reads a request in the arguments of that request and in no others. -/
theorem requestOf?_eq_some_iff :
    requestOf? args = some request ↔ request.Listable ∧ args = request.args := by
  have hsplit : ∀ text : String, ∀ feature ∈ Text.split ',' text, ',' ∉ feature.toList :=
    fun text => (Text.split_eq_iff.mp rfl).2.1
  constructor
  · intro h
    unfold requestOf? at h
    split at h
    case h_5 => contradiction
    all_goals
      obtain rfl := Option.some.inj h
      rw [args_eq]
    case h_1 | h_2 => exact ⟨nofun, rfl⟩
    case h_3 | h_4 =>
      refine ⟨hsplit _, ?_⟩
      rw [mention_split]
      rfl
  · rintro ⟨listable, rfl⟩
    obtain ⟨target, package, features, release⟩ := request
    rw [args_eq]
    by_cases hnone : features = []
    · subst hnone
      cases release <;> rfl
    · have hfeatures : Text.split ',' (",".intercalate features) = features :=
        (Text.split_intercalate_iff hnone).mpr listable
      have hread : requestOf? (["build", "-p", package, "--target", target] ++
            (["--features", ",".intercalate features] ++ mark release)) =
          some ⟨target, package, Text.split ',' (",".intercalate features), release⟩ := by
        cases release <;> rfl
      rw [mention_of_ne_nil hnone, hread, hfeatures]

/-- What the arguments of a request tell about it. -/
structure ArgsAccount (request : BuildRequest) : Prop where
  /-- The target stands behind its switch. -/
  target : request.args[3]? = some "--target" ∧ request.args[4]? = some request.target
  /-- Features are mentioned next exactly if there are any. -/
  mentioned_iff : request.args[5]? = some "--features" ↔ request.features ≠ []
  /-- The word after that is split at its commas into these features, unless one of them has a
  comma of its own. -/
  listed : request.features ≠ [] → ∃ text, request.args[6]? = some text ∧
    (Text.split ',' text = request.features ↔ request.Listable)
  /-- Arguments are equal exactly if all is equal but for the places of commas in features. -/
  same_iff : ∀ other : BuildRequest, request.args = other.args ↔
    request.package = other.package ∧ request.target = other.target ∧
      (request.features = [] ↔ other.features = []) ∧
        ",".intercalate request.features = ",".intercalate other.features ∧
          request.release = other.release
  /-- Without commas in features they are equal for equal requests alone. -/
  lossless : ∀ other : BuildRequest, request.Listable → other.Listable →
    request.args = other.args → request = other
  /-- The request is read back from its own arguments, and from no others. -/
  read_iff : ∀ args, requestOf? args = some request ↔ request.Listable ∧ args = request.args

/-- The arguments of the building program carry the whole request. -/
theorem args_account (request : BuildRequest) : ArgsAccount request := by
  have hbehind : ∀ place, request.args[5 + place]? =
      (mention request.features ++ mark request.release)[place]? := by
    intro place
    rw [args_eq]
    exact List.getElem?_append_right (Nat.le_add_right 5 place) |>.trans
      (congrArg _ (Nat.add_sub_cancel_left 5 place))
  refine ⟨⟨rfl, rfl⟩, ?mentioned, fun hsome => ?listed, fun other => args_eq_args_iff, ?lossless,
    fun args => requestOf?_eq_some_iff⟩
  case mentioned =>
    rw [hbehind 0]
    cases request.features <;> cases request.release <;> simp [mention, mark]
  case listed =>
    refine ⟨",".intercalate request.features, ?_, split_intercalate_features hsome⟩
    rw [hbehind 1, mention_of_ne_nil hsome]
    rfl
  case lossless =>
    intro other listable listable' hargs
    have hread := requestOf?_eq_some_iff.mpr ⟨listable, rfl⟩
    have hread' := requestOf?_eq_some_iff.mpr ⟨listable', rfl⟩
    rw [hargs, hread'] at hread
    exact (Option.some.inj hread).symm

/-- A request whose package looks like a switch, with features that have no name. -/
def oddRequest : BuildRequest where
  target := "--features"
  package := "--release"
  features := ["", "a", ""]
  release := true

/-- All of it is read back. -/
theorem args_account_odd :
    oddRequest.Listable ∧ Text.split ',' ",a," = oddRequest.features ∧
      ∀ other : BuildRequest, other.Listable →
        other.args =
          ["build", "-p", "--release", "--target", "--features", "--features", ",a,", "--release"] →
        oddRequest = other := by
  have listable : oddRequest.Listable := by decide
  obtain ⟨text, htext, hsplit⟩ := (args_account oddRequest).listed (by decide)
  obtain rfl : ",a," = text := Option.some.inj htext
  exact ⟨listable, hsplit.mpr listable, fun other listable' hargs =>
    (args_account oddRequest).lossless other listable listable' hargs.symm⟩

end Bootstage.BuildRequest
