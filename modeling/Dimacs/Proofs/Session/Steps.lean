import Dimacs.Proofs.Options.Clamping
import Dimacs.Session.Run

/-
  Steps of a session that go on, taken apart: what each part
  of a sequence came to, and what it printed; and what the
  parts of a session make of its options.

  Main statements:
    * `Step.exists_of_bind_ok`
    * `Session.exists_given_of_configuredOptions`
    * `Session.options_of_readBackbone`
-/

namespace Dimacs

namespace Step

variable {α β : Type}
variable {s : Step α}
variable {f : α → Step β}

/-
  If a sequence goes on, both parts do, and their lines
  follow one another.
-/
theorem exists_of_bind_ok
    {b : β}
    (h : (s >>= f).outcome = .ok b) :
    ∃ a, s.outcome = .ok a ∧ (f a).outcome = .ok b ∧
      (s >>= f).lines = s.lines ++ (f a).lines := by
  rcases s with ⟨lines, failure | a⟩
  · cases h
  · exact ⟨a, rfl, h, rfl⟩

theorem done_of_check_ok
    {result : Except Violation α}
    {a : α}
    (h : (check result).outcome = .ok a) :
    result = .ok a ∧ (check result).lines = [] := by
  cases result with
  | error violation => cases h
  | ok a' =>
      cases h
      exact ⟨rfl, rfl⟩

end Step

namespace Session

variable {env env' : Environment}
variable {loaded loaded' : Loaded}
variable {entries : Nat}
variable {o : Options}

------------------------------------------------------------
-- Options of a Session
------------------------------------------------------------

/-
  A configuration that is accepted gives values, and its
  reports are printed.
-/
theorem exists_given_of_configuredOptions
    {name : String}
    (h :
      (configuredOptions env (some name)).outcome = .ok o) :
    ∃ given,
      (configText env name).toOption.bind Config.given? =
        some given ∧
      (Config.ofAssignments given).1 = o ∧
      (configuredOptions env (some name)).lines =
        (Config.ofAssignments given).2.map Line.text := by
  simp only [configuredOptions] at h ⊢
  cases hText : configText env name with
  | error e =>
      simp only [hText] at h
      cases h
  | ok text =>
      cases hRead : Config.read text with
      | error e =>
          simp only [hText, hRead] at h
          cases h
      | ok result =>
          simp only [hText, hRead] at h
          cases h
          rcases Config.read_eq_ok_iff.mp hRead with
            ⟨given, hGiven, rfl⟩
          exact ⟨given, hGiven, rfl,
            by simp only [hRead]; exact List.append_nil _⟩

/-
  A backbone file is read under the options with
  a flavour chosen.
-/
theorem options_of_readBackbone
    {threshold : Option Float}
    {name : String}
    (h :
      (readBackbone env loaded threshold name).outcome =
        .ok (entries, loaded', env')) :
    loaded'.options = backboneOptions loaded.options := by
  rcases Step.exists_of_bind_ok h with ⟨_, _, h, _⟩
  rcases Step.exists_of_bind_ok h with ⟨_, _, h, _⟩
  split at h
  · cases h
  · rcases Step.exists_of_bind_ok h with ⟨_, _, h, _⟩
    rcases Step.exists_of_bind_ok h with ⟨c, _, h, _⟩
    rcases Step.exists_of_bind_ok h with
      ⟨⟨⟨_, formula⟩, c'⟩, _, h, _⟩
    rcases Step.exists_of_bind_ok h with ⟨_, _, h, _⟩
    cases h
    rfl

/- An unsat-order file leaves the options alone. -/
theorem options_of_readUnsatOrder
    {name : String}
    (h :
      (readUnsatOrder env loaded name).outcome =
        .ok (entries, loaded')) :
    loaded'.options = loaded.options := by
  rcases Step.exists_of_bind_ok h with ⟨c, _, h, _⟩
  rcases Step.exists_of_bind_ok h with
    ⟨⟨⟨_, formula⟩, c'⟩, _, h, _⟩
  rcases Step.exists_of_bind_ok h with ⟨_, _, h, _⟩
  cases h
  rfl

/- Random phases leave the options alone. -/
theorem options_of_randomize
    (h : (randomize loaded).outcome = .ok loaded') :
    loaded'.options = loaded.options := by
  unfold randomize at h
  split at h
  · rcases Step.exists_of_bind_ok h with ⟨_, _, h, _⟩
    cases h
    rfl
  · cases h
    rfl

theorem quiet_of_readBackboneFile
    {arguments : Arguments}
    {threshold : Option Float}
    {count : Option Nat}
    (h :
      (readBackboneFile env arguments threshold
          loaded).outcome =
        .ok (count, loaded', env')) :
    loaded'.options.quiet = loaded.options.quiet := by
  unfold readBackboneFile at h
  split at h
  · cases h
    rfl
  · rcases Step.exists_of_bind_ok h with
      ⟨⟨_, loaded₁, env₁⟩, hRead, h, _⟩
    cases h
    rw [options_of_readBackbone hRead, backboneOptions]
    split <;> rfl

theorem options_of_readOrderFile
    {arguments : Arguments}
    {count : Option Nat}
    (h :
      (readOrderFile env arguments loaded).outcome =
        .ok (count, loaded')) :
    loaded'.options = loaded.options := by
  unfold readOrderFile at h
  split at h
  · cases h
    rfl
  · rcases Step.exists_of_bind_ok h with
      ⟨⟨_, loaded₁⟩, hRead, h, _⟩
    cases h
    exact options_of_readUnsatOrder hRead

/-
  Hint files do not change whether the options are quiet.
-/
theorem quiet_of_readHints
    {arguments : Arguments}
    {threshold : Option Float}
    {backboneEntries orderEntries : Option Nat}
    (h :
      (readHints env arguments threshold loaded).outcome =
        .ok (backboneEntries, orderEntries, loaded')) :
    loaded'.options.quiet = loaded.options.quiet := by
  rcases Step.exists_of_bind_ok h with
    ⟨⟨_, loaded₁, env₁⟩, hBackbone, h, _⟩
  rcases Step.exists_of_bind_ok h with
    ⟨⟨_, loaded₂⟩, hOrder, h, _⟩
  cases h
  rw [options_of_readOrderFile hOrder,
    quiet_of_readBackboneFile hBackbone]

end Session

end Dimacs
