import Gauge.Config
import Gauge.Proofs.Environment

/-!
Which variables a configuration is made of, and which of their values count. A setting has at most two variables, of
which the profile's own comes first; an empty value is passed over as if there were none, although a file of assignments
does not replace it. No other variable has any say.
-/

namespace Gauge

namespace Config

open Environment (entriesOf Given)

/-- The variables of a setting, the one that counts first in front. -/
def names (profile key : String) : List String :=
  if profile = "" then [key] else [profile ++ "_" ++ key, key]

/-- The values that a setting may have, the one that counts first in front. -/
def candidates (e : Environment) (profile key fallback : String) : List String :=
  (names profile key).filterMap e.get? ++ [fallback]

theorem find?_candidates (e : Environment) (profile key : String) {fallback : String} (h : fallback ≠ "") :
    (candidates e profile key fallback).find? (· ≠ "") = some (setting e profile key fallback) := by
  have hcons (name : String) (rest : List String) :
      ((name :: rest).filterMap e.get? ++ [fallback]).find? (· ≠ "") =
        (e.getFilled? name).or ((rest.filterMap e.get? ++ [fallback]).find? (· ≠ "")) := by
    rw [List.filterMap_cons, Environment.getFilled?]
    cases e.get? name with
    | none => rfl
    | some v => by_cases hv : v = "" <;> simp [hv, Option.filter]
  have hnil : (List.filterMap e.get? [] ++ [fallback]).find? (· ≠ "") = some fallback := by simp [h]
  simp only [candidates, names, setting]
  by_cases hprofile : profile = ""
  · rw [if_pos hprofile, hcons, hnil]
    simp [hprofile, Option.or_some]
  · rw [if_neg hprofile, hcons, hcons, hnil]
    simp [hprofile, Option.or_some, Option.orElse_eq_or]

/-- What a configuration for a profile in capitals has to be. -/
structure Follows (e : Environment) (profile : String) (c : Config) : Prop where
  profile_eq : c.profile = profile
  rulesDirectory : (candidates e profile "LUMEN_RULES_DIR" "data/rules").find? (· ≠ "") = some c.rulesDirectory
  logFilter : (candidates e profile "LUMEN_LOG" "info").find? (· ≠ "") = some c.logFilter

theorem forProfile_follows (e : Environment) (profile : String) :
    Follows e (Text.upper profile) (forProfile e profile) where
  profile_eq := rfl
  rulesDirectory := find?_candidates e _ _ (by decide)
  logFilter := find?_candidates e _ _ (by decide)

theorem Follows.unique {e : Environment} {profile : String} {c c' : Config} (h : Follows e profile c)
    (h' : Follows e profile c') : c = c' := by
  have hprofile := h.profile_eq.trans h'.profile_eq.symm
  have hdirectory := Option.some.inj (h.rulesDirectory.symm.trans h'.rulesDirectory)
  have hfilter := Option.some.inj (h.logFilter.symm.trans h'.logFilter)
  cases c
  cases c'
  rw [Config.mk.injEq]
  exact ⟨hprofile, hdirectory, hfilter⟩

/-- The variables that the configuration for a profile in capitals is made of. -/
def settingNames (profile : String) : List String :=
  names profile "LUMEN_RULES_DIR" ++ names profile "LUMEN_LOG"

theorem Follows.congr {e e' : Environment} {profile : String} {c : Config} (h : Follows e profile c)
    (same : ∀ name ∈ settingNames profile, e'.get? name = e.get? name) : Follows e' profile c := by
  obtain ⟨hdirectory, hfilter⟩ := List.forall_mem_append.mp same
  have hcandidates (key fallback : String) (h : ∀ name ∈ names profile key, e'.get? name = e.get? name) :
      candidates e' profile key fallback = candidates e profile key fallback := by
    rw [candidates, candidates, List.filterMap_congr h]
  refine ⟨h.profile_eq, ?_, ?_⟩
  · rw [hcandidates _ _ hdirectory]
    exact h.rulesDirectory
  · rw [hcandidates _ _ hfilter]
    exact h.logFilter

/-- The profile that an environment names, in capitals. -/
def profileOf (e : Environment) : String := Text.upper ((e.get? "LUMEN_PROFILE").getD "")

theorem ofEnvironment_follows (e : Environment) : Follows e (profileOf e) (ofEnvironment e) := by
  have hprofile : (e.getFilled? "LUMEN_PROFILE").getD "" = (e.get? "LUMEN_PROFILE").getD "" := by
    rw [Environment.getFilled?]
    cases e.get? "LUMEN_PROFILE" with
    | none => rfl
    | some v => by_cases hv : v = "" <;> simp [hv, Option.filter]
  rw [ofEnvironment, hprofile]
  exact forProfile_follows e _

theorem forProfile_congr {e e' : Environment} {profile : String}
    (same : ∀ name ∈ settingNames (Text.upper profile), e'.get? name = e.get? name) :
    forProfile e' profile = forProfile e profile :=
  (forProfile_follows e' profile).unique ((forProfile_follows e profile).congr same)

/-- The variables that the configuration of an environment is made of, with the profile in capitals. -/
def allNames (profile : String) : List String := "LUMEN_PROFILE" :: settingNames profile

theorem length_allNames_le (profile : String) : (allNames profile).length ≤ 5 := by
  rw [allNames, settingNames, names, names]
  split <;> simp

theorem ofEnvironment_congr {e e' : Environment} (same : ∀ name ∈ allNames (profileOf e), e'.get? name = e.get? name) :
    ofEnvironment e' = ofEnvironment e := by
  obtain ⟨hprofile, hsettings⟩ := List.forall_mem_cons.mp same
  have hprofileOf : profileOf e' = profileOf e := by rw [profileOf, hprofile, profileOf]
  exact (hprofileOf ▸ ofEnvironment_follows e').unique ((ofEnvironment_follows e).congr hsettings)

/-- An empty variable is set for the file and not set for the configuration. -/
example : (ofEnvironment ((Environment.ofList [("LUMEN_LOG", "")]).load "LUMEN_LOG=debug\n")).logFilter = "info" := by
  decide +kernel

end Config

end Gauge
