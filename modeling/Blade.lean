import Blade.Limits.Development
import Blade.Log.Bounded
import Blade.Main
import Blade.Profile
import Blade.Proofs.Appending
import Blade.Proofs.Canonical
import Blade.Proofs.Cover
import Blade.Proofs.ErrorLog
import Blade.Proofs.FilterChain
import Blade.Proofs.LineText
import Blade.Proofs.Merging
import Blade.Proofs.Navigation
import Blade.Proofs.OptionOrder
import Blade.Proofs.Positions
import Blade.Proofs.Progress
import Blade.Proofs.Pulling
import Blade.Proofs.RawBody
import Blade.Proofs.RawNames
import Blade.Proofs.Reprint
import Blade.Proofs.Reread
import Blade.Proofs.Restart
import Blade.Proofs.Retention
import Blade.Proofs.Scopes
import Blade.Proofs.Slices
import Blade.Proofs.Sound
import Blade.Proofs.StateInvariant
import Blade.Proofs.StreamViews
import Blade.Proofs.Strictness
import Blade.Proofs.Tally
import Blade.Proofs.TokenJson
import Blade.Proofs.TopLevel
import Blade.Proofs.Transparency
import Blade.Proofs.Underline
import Blade.Proofs.WordPositions
import Blade.Proofs.WrongBracket
