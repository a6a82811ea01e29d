import Mathlib.Data.List.Nodup
import Bootstage.Architecture.Lookup
import Bootstage.Proofs.Text.LetterCase

/-!
# The names of architectures

An architecture may be called by any of its names in any case. One name stands for all of these: the
one that it is registered under. Every other text stands only for the texts that have its letters,
and is brought to lower case. Looking an architecture up tells no more about a name than this: names
find the same architecture exactly if they stand for the same, and what stands for none is refused
in the letters in which it was given.
-/

namespace Bootstage.Architecture

variable {architecture : Architecture} {name other : String} {fault : ConfigurationFault}

/-- The registered architectures with all of their names, in lower case. -/
def names : List (Architecture × String) :=
  [(x86_64, "x86_64"), (x86_64, "x86-64"), (x86_64, "x64"), (x86_64, "amd64"),
    (aarch64, "aarch64"), (aarch64, "arm64")]

/-- The text is one of the names of the architecture, in any case. -/
def GoesBy (architecture : Architecture) (text : String) : Prop :=
  ∃ name, (architecture, name) ∈ names ∧ Text.SameLetters text name

/-- The name is the one that stands for all that mean the same. -/
structure Canonical (name : String) : Prop where
  /-- There is no capital in it. -/
  lower : ∀ c ∈ name.toList, ¬ Text.IsCapital c
  /-- An architecture that goes by it is registered under it. -/
  registered : ∀ architecture : Architecture, architecture.GoesBy name → name = architecture.id

/-! ### What the tables of names have in common -/

/-- A registered architecture is told by the name that it is registered under. -/
theorem eq_of_id {architecture' : Architecture}
    (registered : architecture ∈ Architecture.registered)
    (registered' : architecture' ∈ Architecture.registered)
    (h : architecture.id = architecture'.id) : architecture = architecture' := by
  have hnodup : (Architecture.registered.map (·.id)).Nodup := by decide
  exact List.inj_on_of_nodup_map hnodup registered registered' h

theorem id_mem_names (registered : architecture ∈ Architecture.registered) :
    (architecture, architecture.id) ∈ names := by
  have hall : ∀ architecture ∈ Architecture.registered,
      (architecture, architecture.id) ∈ names := by
    decide
  exact hall architecture registered

theorem lowerCase_of_mem_names (h : (architecture, name) ∈ names) : Text.lowerCase name = name := by
  have hall : ∀ entry ∈ names, Text.lowerCase entry.2 = entry.2 := by decide
  exact hall (architecture, name) h

/-- Every alias gives way to the name of a registered architecture. -/
theorem exists_id_of_lookup {id : String} (h : aliases.lookup name = some id) :
    ∃ architecture ∈ registered, architecture.id = id ∧ (architecture, name) ∈ names := by
  have hall : ∀ entry ∈ aliases, ∃ architecture ∈ registered,
      architecture.id = entry.2 ∧ (architecture, entry.1) ∈ names := by
    decide
  obtain ⟨front, behind, hsplit, -⟩ := List.lookup_eq_some_iff.mp h
  apply hall (name, id)
  rw [hsplit]
  exact List.mem_append_right front List.mem_cons_self

/-- The names of an architecture are those that give way to the one it is registered under. -/
theorem mem_names_iff : (architecture, name) ∈ names ↔
    architecture ∈ registered ∧ (aliases.lookup name).getD name = architecture.id := by
  constructor
  · have hall : ∀ entry ∈ names, entry.1 ∈ registered ∧
        (aliases.lookup entry.2).getD entry.2 = entry.1.id := by
      decide
    exact hall (architecture, name)
  · rintro ⟨hmem, hid⟩
    cases hlookup : aliases.lookup name with
    | none =>
      rw [hlookup] at hid
      obtain rfl : name = architecture.id := hid
      exact id_mem_names hmem
    | some id =>
      obtain ⟨found, hfound, rfl, hname⟩ := exists_id_of_lookup hlookup
      rw [hlookup] at hid
      obtain rfl := eq_of_id hfound hmem hid
      exact hname

/-! ### Names that stand for others -/

/-- An architecture goes by the texts that its registered name stands for. -/
theorem goesBy_iff :
    architecture.GoesBy name ↔ architecture ∈ registered ∧ normalize name = architecture.id := by
  have hlower : normalize name =
      (aliases.lookup (Text.lowerCase name)).getD (Text.lowerCase name) := rfl
  rw [hlower, ← mem_names_iff]
  constructor
  · rintro ⟨known, hknown, hletters⟩
    rw [Text.sameLetters_iff.mp hletters, lowerCase_of_mem_names hknown]
    exact hknown
  · intro h
    exact ⟨_, h, Text.sameLetters_lowerCase name⟩

/-- No text is a name of two architectures. -/
theorem GoesBy.unique {architecture' : Architecture} (h : architecture.GoesBy name)
    (h' : architecture'.GoesBy name) : architecture = architecture' := by
  obtain ⟨hmem, hid⟩ := goesBy_iff.mp h
  obtain ⟨hmem', hid'⟩ := goesBy_iff.mp h'
  exact eq_of_id hmem hmem' (hid.symm.trans hid')

/-- The case of letters makes no difference to what stands for them. -/
theorem normalize_congr (h : Text.SameLetters name other) : normalize name = normalize other := by
  rw [normalize, normalize, Text.sameLetters_iff.mp h]

/-- A name comes to that of the architecture that goes by it. If there is none, the name is only
brought to lower case. -/
theorem normalize_cases (name : String) :
    (∃ architecture ∈ registered, architecture.GoesBy name ∧ normalize name = architecture.id) ∨
      (∀ architecture : Architecture, ¬ architecture.GoesBy name) ∧
        normalize name = Text.lowerCase name := by
  by_cases hknown : ∃ architecture : Architecture, architecture.GoesBy name
  · obtain ⟨architecture, hname⟩ := hknown
    obtain ⟨hmem, hid⟩ := goesBy_iff.mp hname
    exact .inl ⟨architecture, hmem, hname, hid⟩
  · refine .inr ⟨not_exists.mp hknown, ?_⟩
    cases hlookup : aliases.lookup (Text.lowerCase name) with
    | none => simp only [normalize, hlookup, Option.getD_none]
    | some id =>
      obtain ⟨architecture, -, -, hname⟩ := exists_id_of_lookup hlookup
      exact absurd ⟨architecture, _, hname, Text.sameLetters_lowerCase name⟩ hknown

/-- Names come to one exactly if they have the same letters or are names of one architecture. -/
theorem normalize_eq_normalize_iff : normalize name = normalize other ↔
    Text.SameLetters name other ∨
      ∃ architecture : Architecture, architecture.GoesBy name ∧ architecture.GoesBy other := by
  constructor
  · intro h
    rcases normalize_cases name with ⟨architecture, hmem, hname, hid⟩ | ⟨hunknown, hlower⟩
    · exact .inr ⟨architecture, hname, goesBy_iff.mpr ⟨hmem, h.symm.trans hid⟩⟩
    · rcases normalize_cases other with ⟨architecture, hmem, -, hid⟩ | ⟨-, hlower'⟩
      · exact absurd (goesBy_iff.mpr ⟨hmem, h.trans hid⟩) (hunknown architecture)
      · rw [hlower, hlower'] at h
        exact .inl (Text.sameLetters_iff.mpr h)
  · rintro (hletters | ⟨architecture, hname, hother⟩)
    · exact normalize_congr hletters
    · exact (goesBy_iff.mp hname).2.trans (goesBy_iff.mp hother).2.symm

/-! ### The name that stands for all -/

theorem normalize_id (registered : architecture ∈ Architecture.registered) :
    normalize architecture.id = architecture.id := by
  have hown : architecture.GoesBy architecture.id :=
    ⟨_, id_mem_names registered, Text.sameLetters_iff.mpr rfl⟩
  exact (goesBy_iff.mp hown).2

/-- A name stands for itself exactly if it is the one that stands for all that mean the same. -/
theorem normalize_eq_self_iff : normalize name = name ↔ Canonical name := by
  constructor
  · intro h
    refine ⟨Text.lowerCase_eq_self_iff.mp ?lower, fun architecture hname => ?registered⟩
    case lower =>
      rcases normalize_cases name with ⟨architecture, hmem, -, hid⟩ | ⟨-, hlower⟩
      · obtain rfl : name = architecture.id := h.symm.trans hid
        exact lowerCase_of_mem_names (id_mem_names hmem)
      · exact hlower.symm.trans h
    case registered => exact h.symm.trans (goesBy_iff.mp hname).2
  · intro canonical
    rcases normalize_cases name with ⟨architecture, -, hname, hid⟩ | ⟨-, hlower⟩
    · exact hid.trans (canonical.registered architecture hname).symm
    · exact hlower.trans (Text.lowerCase_eq_self_iff.mpr canonical.lower)

/-- What stands for others stands for itself. -/
theorem normalize_normalize (name : String) : normalize (normalize name) = normalize name := by
  rcases normalize_cases name with ⟨architecture, hmem, -, hid⟩ | ⟨-, hlower⟩
  · rw [hid, normalize_id hmem]
  · calc
      normalize (normalize name) = normalize (Text.lowerCase name) := congrArg normalize hlower
      _ = normalize name := (normalize_congr (Text.sameLetters_lowerCase name)).symm

/-! ### Looking names up -/

/-- An architecture is found under its names and under no other text. -/
theorem lookup_eq_ok_iff_goesBy : lookup name = .ok architecture ↔ architecture.GoesBy name := by
  have hgoes : ∀ {found : Architecture}, find? name = some found → found.GoesBy name := by
    intro found hfound
    exact goesBy_iff.mpr ⟨mem_registered_of_find? hfound, (id_of_find? hfound).symm⟩
  rw [lookup_eq_ok_iff]
  constructor
  · exact hgoes
  · intro hname
    obtain ⟨hmem, hid⟩ := goesBy_iff.mp hname
    have hsome : (find? name).isSome := by
      apply List.find?_isSome.mpr
      exact ⟨architecture, hmem, decide_eq_true hid.symm⟩
    obtain ⟨found, hfound⟩ := Option.isSome_iff_exists.mp hsome
    rw [hfound, (hgoes hfound).unique hname]

/-- What is no name of an architecture is refused, and nothing else is. -/
theorem lookup_eq_error_iff : lookup name = .error fault ↔
    (∀ architecture : Architecture, ¬ architecture.GoesBy name) ∧
      fault = .unsupportedArchitecture name := by
  simp only [← lookup_eq_ok_iff_goesBy, lookup_eq_ok_iff]
  unfold lookup
  cases find? name with
  | none => simp [eq_comm]
  | some architecture => simp

/-- A name is accepted exactly if an architecture is registered under the one that stands for it. -/
theorem exists_lookup_iff :
    (∃ architecture, lookup name = .ok architecture) ↔ normalize name ∈ registered.map (·.id) := by
  rw [List.mem_map]
  apply exists_congr
  intro architecture
  rw [lookup_eq_ok_iff_goesBy, goesBy_iff, eq_comm (a := normalize name)]

/-- Two names find one architecture exactly if one of them finds any and they stand for the same. -/
theorem exists_lookup_both_iff :
    (∃ architecture, lookup name = .ok architecture ∧ lookup other = .ok architecture) ↔
      (∃ architecture, lookup name = .ok architecture) ∧ normalize name = normalize other := by
  simp only [lookup_eq_ok_iff_goesBy]
  constructor
  · rintro ⟨architecture, hname, hother⟩
    have hsame := normalize_eq_normalize_iff.mpr (.inr ⟨architecture, hname, hother⟩)
    exact ⟨⟨architecture, hname⟩, hsame⟩
  · rintro ⟨⟨architecture, hname⟩, hsame⟩
    obtain ⟨hmem, hid⟩ := goesBy_iff.mp hname
    exact ⟨architecture, hname, goesBy_iff.mpr ⟨hmem, hsame.symm.trans hid⟩⟩

/-- The message of a name that is not known lists the names that are. -/
theorem message_unsupported (name : String) :
    (Error.configuration (.unsupportedArchitecture name)).message =
      "configuration: unsupported architecture `" ++ name ++
        "` (supported: x86_64, aarch64)" := by
  have hids : String.intercalate ", " (registered.map (·.id)) = "x86_64, aarch64" := by decide
  have hfront : "configuration: " ++ "unsupported architecture `" =
      "configuration: unsupported architecture `" := by decide
  have hbehind : "` (supported: " ++ "x86_64, aarch64" ++ ")" =
      "` (supported: x86_64, aarch64)" := by decide
  calc
    (Error.configuration (.unsupportedArchitecture name)).message =
        "configuration: " ++ ("unsupported architecture `" ++ name ++
          "` (supported: " ++ String.intercalate ", " (registered.map (·.id)) ++ ")") := rfl
    _ = "configuration: " ++ "unsupported architecture `" ++ name ++
          ("` (supported: " ++ "x86_64, aarch64" ++ ")") := by
      rw [hids]
      simp only [String.append_assoc]
    _ = "configuration: unsupported architecture `" ++ name ++
          "` (supported: x86_64, aarch64)" := by rw [hfront, hbehind]

/-- Refusals of two names differ in words. -/
theorem message_unsupported_injective
    (h : (Error.configuration (.unsupportedArchitecture name)).message =
      (Error.configuration (.unsupportedArchitecture other)).message) : name = other := by
  rw [message_unsupported, message_unsupported] at h
  simpa using h

/-- What a name stands for, and what is found under it. -/
structure NamingAccount (name : String) : Prop where
  /-- Names come to such as stand for all that mean the same. -/
  canonical : Canonical (normalize name)
  /-- These alone stay as they are. -/
  fixed_iff : normalize name = name ↔ Canonical name
  /-- What comes of a name comes of itself. -/
  idempotent : normalize (normalize name) = normalize name
  /-- The case of letters makes no difference. -/
  cased : ∀ other, Text.SameLetters other name → normalize other = normalize name
  /-- Beyond that, only the names of one architecture come to the same. -/
  together_iff : ∀ other, normalize name = normalize other ↔
    Text.SameLetters name other ∨
      ∃ architecture : Architecture, architecture.GoesBy name ∧ architecture.GoesBy other
  /-- An architecture is found under its names and under no other text. -/
  found_iff : ∀ architecture, lookup name = .ok architecture ↔ architecture.GoesBy name
  /-- Some architecture is found exactly if one is registered under what comes of the name. -/
  accepted_iff : (∃ architecture, lookup name = .ok architecture) ↔
    normalize name ∈ registered.map (·.id)
  /-- The one that is found is the one that is registered so. -/
  found : ∀ architecture, lookup name = .ok architecture →
    architecture ∈ registered ∧ architecture.id = normalize name
  /-- The same is found under what comes of the name. -/
  through : ∀ architecture,
    lookup (normalize name) = .ok architecture ↔ lookup name = .ok architecture
  /-- Two names, of which one finds anything, find one architecture exactly if they come to the
  same. -/
  shared_iff : ∀ other,
    ((∃ architecture, lookup name = .ok architecture) ∨
      ∃ architecture, lookup other = .ok architecture) →
    ((∃ architecture, lookup name = .ok architecture ∧ lookup other = .ok architecture) ↔
      normalize name = normalize other)
  /-- All other names are refused. -/
  refused_iff : (∃ fault, lookup name = .error fault) ↔ normalize name ∉ registered.map (·.id)
  /-- A refusal is told with the name as it was given. -/
  quoted : ∀ fault, lookup name = .error fault → (Error.configuration fault).message =
    "configuration: unsupported architecture `" ++ name ++ "` (supported: x86_64, aarch64)"
  /-- So no other name is refused in the same words, whatever both come to. -/
  apart : ∀ other fault fault', lookup name = .error fault → lookup other = .error fault' →
    (Error.configuration fault).message = (Error.configuration fault').message → name = other

/-- Names stand for what they mean, and are looked up by what they stand for. -/
theorem naming_account (name : String) : NamingAccount name where
  canonical := normalize_eq_self_iff.mp (normalize_normalize name)
  fixed_iff := normalize_eq_self_iff
  idempotent := normalize_normalize name
  cased _ := normalize_congr
  together_iff _ := normalize_eq_normalize_iff
  found_iff _ := lookup_eq_ok_iff_goesBy
  accepted_iff := exists_lookup_iff
  found := by
    intro architecture h
    obtain ⟨hmem, hid⟩ := goesBy_iff.mp (lookup_eq_ok_iff_goesBy.mp h)
    exact ⟨hmem, hid.symm⟩
  through := by
    intro architecture
    rw [lookup_eq_ok_iff_goesBy, lookup_eq_ok_iff_goesBy, goesBy_iff, goesBy_iff,
      normalize_normalize]
  shared_iff := by
    rintro other (hname | hother)
    · rw [exists_lookup_both_iff, and_iff_right hname]
    · simp only [and_comm (a := lookup name = _)]
      rw [exists_lookup_both_iff, and_iff_right hother, eq_comm]
  refused_iff := by
    rw [← exists_lookup_iff]
    cases lookup name with
    | ok architecture => simp
    | error fault => simp
  quoted := by
    intro fault h
    rw [(lookup_eq_error_iff.mp h).2, message_unsupported]
  apart := by
    intro other fault fault' h h' hmessage
    rw [(lookup_eq_error_iff.mp h).2, (lookup_eq_error_iff.mp h').2] at hmessage
    exact message_unsupported_injective hmessage

/-- Two names of one architecture, a name of none in two spellings, and a letter that has no case
here. -/
theorem naming_account_spellings :
    (∃ architecture, lookup "AMD64" = .ok architecture ∧ lookup "X86-64" = .ok architecture) ∧
      normalize "RiscV64" = normalize "riscv64" ∧
      (∃ fault, lookup "RiscV64" = .error fault ∧ (Error.configuration fault).message =
        "configuration: unsupported architecture `RiscV64` (supported: x86_64, aarch64)") ∧
      normalize "Ärm64" ≠ normalize "ärm64" := by
  have known := naming_account "AMD64"
  have unknown := naming_account "RiscV64"
  have hfound : ∃ architecture, lookup "AMD64" = .ok architecture :=
    known.accepted_iff.mpr (by decide)
  obtain ⟨fault, hrefused⟩ := unknown.refused_iff.mpr (by decide)
  have hcased : Text.SameLetters "riscv64" "RiscV64" := Text.sameLetters_iff.mpr (by decide)
  exact ⟨(known.shared_iff "X86-64" (.inl hfound)).mpr (by decide),
    (unknown.cased "riscv64" hcased).symm, ⟨fault, hrefused, unknown.quoted fault hrefused⟩,
    by decide⟩

end Bootstage.Architecture
