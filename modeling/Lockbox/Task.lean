import Lockbox.Config
import Lockbox.Text.Quoted
/-!
# Lockbox — what can go wrong around containers

Work on files and command lines fails for the reasons that containers
have, or because something stands in its way before or after.
-/

namespace Lockbox

/-- What stands in the way of work on files. -/
inductive Obstacle where
  | noFileName (input : String)
  | metadata (path : String)
  | opening (path : String)
  | temporaryFile (dir : String)
  | placing (path : String)
  | outputDirectory (dir : String)
  | readingConfig (path : String)
  | parsingConfig (path : String)
  | iterationsVariable
  | settings (fault : ConfigFault)
  | recipientShape (recipient : String)
  | recipientLabel (recipient : String)
  | recipientType (type : String)
  | symmetricKeyDigits
  | keyDigits
  | keyLength (length : Nat)
  | certificateShape (label : String)
  | recipientCertificate (path : String)
  | offeredCertificate (path : String)
  | noSuchLabel (label path : String)
  | secretDigits
  | noSecret
  deriving DecidableEq, Repr

/-- The wording of an obstacle. -/
def Obstacle.message : Obstacle → String
  | .noFileName input => s!"input {Text.quoted input} has no file name"
  | .metadata path => s!"reading metadata for {Text.quoted path}"
  | .opening path => s!"opening {Text.quoted path}"
  | .temporaryFile dir => s!"creating temp file in {Text.quoted dir}"
  | .placing path => s!"writing container {Text.quoted path}"
  | .outputDirectory dir => s!"creating output directory {Text.quoted dir}"
  | .readingConfig path => s!"reading config file {path}"
  | .parsingConfig path => s!"parsing config file {path}"
  | .iterationsVariable => s!"{Config.iterationsVariable} must be an integer"
  | .settings f => f.message
  | .recipientShape r => s!"recipient '{r}' is not LABEL:TYPE:VALUE"
  | .recipientLabel r => s!"recipient '{r}' has an empty label"
  | .recipientType t => s!"unknown recipient type '{t}' (expected pw, skey, pkey or cert)"
  | .symmetricKeyDigits => "symmetric key is not valid hex"
  | .keyDigits => "key is not valid hex"
  | .keyLength n => s!"expected a 32-byte key, got {n} bytes"
  | .certificateShape label => s!"certificate recipient '{label}' needs CERT_FILE:PUBKEY_HEX"
  | .recipientCertificate path => s!"reading certificate {path}"
  | .offeredCertificate path => s!"reading certificate {Text.quoted path}"
  | .noSuchLabel label path => s!"no lock labelled '{label}' in {path}"
  | .secretDigits => "secret is not valid hex"
  | .noSecret => "either --password or --secret is required"

/-- Why a piece of work was not done. -/
inductive TaskError where
  | container (e : Error)
  | json
  | obstacle (o : Obstacle)
  deriving DecidableEq, Repr

/-- The wording of a failure. -/
def TaskError.message : TaskError → String
  | .container e => e.message
  | .json => "malformed JSON"
  | .obstacle o => o.message

end Lockbox
