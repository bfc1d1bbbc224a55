import Lockbox.Entry
import Lockbox.Step
import Lockbox.Stream
/-!
# Lockbox — consumers of entries

Whoever wants all entries of a container receives them one by one: an
entry is opened, which gives a sink for its data, and then closed, or
aborted if its data could not be had.
-/

namespace Lockbox

/-- What is done with entries, on a state of type `γ`. -/
structure Consumer (γ : Type) where
  /-- A sink for the data of an entry. -/
  openEntry : FileInfo → Step IoError γ Sink
  /-- The entry is complete. -/
  closeEntry : FileInfo → Sink → Step IoError γ Unit
  /-- The entry failed on the way. -/
  abortEntry : FileInfo → Sink → γ → γ

namespace Consumer

/-- Collects the entries and their data. -/
def memory : Consumer (List (FileInfo × Bytes)) where
  openEntry _ := pure .unlimited
  closeEntry info sink files := (.ok (), files ++ [(info, sink.accepted)])
  abortEntry _ _ files := files

end Consumer

end Lockbox
