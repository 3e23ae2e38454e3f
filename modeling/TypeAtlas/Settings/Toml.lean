import TypeAtlas.Settings
import TypeAtlas.Toml.Document

namespace TypeAtlas.Settings

/-!
# Settings in a TOML document

Both settings may be left out, and other keys do not matter. A document that
cannot be read, or a setting of another type, gives no settings.
-/

/-- Whether members without annotations are kept. -/
def membersKey : String :=
  "model-unannotated-members"

/-- The annotations of interest. -/
def interestKey : String :=
  "annotations-of-interest"

/-- The settings a document gives. -/
def ofToml? (text : String) : Option Settings := do
  let values ← Toml.parse text
  let keep ←
    match values.lookup membersKey with
    | some value => value.boolean?
    | none => some false
  let interest ←
    match values.lookup interestKey with
    | some value => value.texts?
    | none => some []
  return Settings.addInterests { keepUnannotated := keep } interest

end TypeAtlas.Settings
