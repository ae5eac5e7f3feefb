import Gauge.Environment.File
import Gauge.Json.Reader
import Gauge.Text.Upper

/-!
Settings. A profile may have settings of its own, in variables whose names begin with the profile's
name in capitals.
-/

namespace Gauge

structure Config where
  profile : String
  rulesDirectory : String
  logFilter : String
deriving DecidableEq, Repr

namespace Config

def defaultRulesDirectory : String := "data/rules"
def defaultLogFilter : String := "info"

def default : Config := ⟨"", defaultRulesDirectory, defaultLogFilter⟩

/-- A setting: that of the profile, or else the general one, as far as they are not empty. -/
def setting (e : Environment) (profile key fallback : String) : String :=
  let own := if profile == "" then none else e.getFilled? (profile ++ "_" ++ key)
  (own.orElse fun _ => e.getFilled? key).getD fallback

def forProfile (e : Environment) (profile : String) : Config :=
  let p := Text.upper profile
  { profile := p
    rulesDirectory := setting e p "LUMEN_RULES_DIR" defaultRulesDirectory
    logFilter := setting e p "LUMEN_LOG" defaultLogFilter }

def ofEnvironment (e : Environment) : Config :=
  forProfile e ((e.getFilled? "LUMEN_PROFILE").getD "")

def profileLabel (c : Config) : String := if c.profile == "" then "default" else c.profile

def toJson (c : Config) : String :=
  Json.object [("profile", Json.string c.profile), ("rules_dir", Json.string c.rulesDirectory),
    ("log_filter", Json.string c.logFilter)]

/-- A configuration of which some fields have been read. -/
structure Partial where
  profile : Option String
  rulesDirectory : Option String
  logFilter : Option String

def shape : Json.Reader.Shape Partial where
  name := "Config"
  blank := ⟨none, none, none⟩
  fields := [
    { name := "profile", isKnown := (·.profile.isSome), default := none
      read := fun p => do return { p with profile := some (← Json.Reader.string "a string") } },
    { name := "rules_dir", isKnown := (·.rulesDirectory.isSome), default := none
      read := fun p => do
        return { p with rulesDirectory := some (← Json.Reader.string "path string") } },
    { name := "log_filter", isKnown := (·.logFilter.isSome), default := none
      read := fun p => do return { p with logFilter := some (← Json.Reader.string "a string") } }]

def reader : Json.Reader Config := do
  let p ← shape.read
  return ⟨p.profile.getD "", p.rulesDirectory.getD "", p.logFilter.getD ""⟩

def ofJson (s : String) : Except Json.Error Config := Json.Reader.whole reader s

end Config

end Gauge
