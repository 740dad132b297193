import PageHealth.Catalog.Standard
import PageHealth.Catalog.Yaml
import PageHealth.Files.Save

namespace PageHealth

open Files (Machine SaveError)

inductive InitError where
  | alreadyThere (path : String)
  | unsaved (cause : SaveError)

def InitError.message : InitError → String
  | alreadyThere path => "Catalog already exists at " ++ path ++ ". Use --force to overwrite"
  | unsaved (.writing cause) => "Failed to write catalog: " ++ cause.message
  | unsaved cause => cause.message "catalog"

variable {m : Type → Type} [Monad m] [Machine m]

/-- What is there already is replaced only by force. -/
def Catalog.writeStandard (path : String) (force : Bool) : m (Except InitError Unit) := do
  if (← Machine.isThere path) && !force then return .error (.alreadyThere path)
  else return (← Files.save path Catalog.standard.toYaml).mapError .unsaved

end PageHealth
