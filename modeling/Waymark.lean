import Waymark.Config
import Waymark.Config.Environment
import Waymark.Diagnostic
import Waymark.Host
import Waymark.Host.Table
import Waymark.Json
import Waymark.Json.Double
import Waymark.Json.Reader
import Waymark.Json.Token
import Waymark.Json.Writer
import Waymark.Listing.AtPosition
import Waymark.Listing.Subtree
import Waymark.Locating
import Waymark.Locator
import Waymark.Log.Directive
import Waymark.Log.Directory
import Waymark.Log.Event
import Waymark.Log.Filter
import Waymark.Log.Logger
import Waymark.Log.Pattern
import Waymark.Proofs.Answers
import Waymark.Proofs.Json.ReadWrite
import Waymark.Proofs.Op
import Waymark.Proofs.Packing
import Waymark.Proofs.Route.Cuts
import Waymark.Proofs.Route.Describing
import Waymark.Proofs.Route.Following
import Waymark.Proofs.Route.Greedy
import Waymark.Proofs.Route.Irreducible
import Waymark.Proofs.Route.Locating
import Waymark.Proofs.Route.Thinned
import Waymark.Proofs.Shift.Basic
import Waymark.Proofs.Shift.Locating
import Waymark.Proofs.Shift.Search
import Waymark.Proofs.Snapshot.BestMatch
import Waymark.Proofs.Snapshot.Blind
import Waymark.Proofs.Snapshot.Ending
import Waymark.Proofs.Snapshot.History
import Waymark.Proofs.Snapshot.Identity
import Waymark.Proofs.Snapshot.Keeping
import Waymark.Proofs.Snapshot.Learning
import Waymark.Proofs.Snapshot.Pruning
import Waymark.Proofs.Snapshot.Recovered
import Waymark.Proofs.Snapshot.Searching
import Waymark.Proofs.Snapshot.Sound
import Waymark.Proofs.Snapshot.Walking
import Waymark.Proofs.Tree.Growing
import Waymark.Proofs.Tree.Layout
import Waymark.Proofs.Tree.Locatable
import Waymark.Proofs.Tree.Planting
import Waymark.Proofs.Tree.Progress
import Waymark.Proofs.Tree.Reading
import Waymark.Proofs.Tree.Safety
import Waymark.Proofs.Tree.Scanning
import Waymark.Proofs.Tree.Spelling
import Waymark.Proofs.Tree.WellFormed
import Waymark.Proofs.View.Agreement
import Waymark.Proofs.View.AtPosition
import Waymark.Proofs.View.Basic
import Waymark.Proofs.View.Borrowed
import Waymark.Proofs.View.Canonical
import Waymark.Proofs.View.Coherent
import Waymark.Proofs.View.External
import Waymark.Proofs.View.Nearest
import Waymark.Proofs.View.Preorder
import Waymark.Proofs.View.Rebuild
import Waymark.Proofs.View.Refine.Follow
import Waymark.Proofs.View.Refine.Locate
import Waymark.Proofs.View.Refine.Search
import Waymark.Proofs.View.RoundTrip
import Waymark.Proofs.View.Shortcuts
import Waymark.Proofs.View.Subtree
import Waymark.Proofs.View.Told
import Waymark.Proofs.Wire.RoundTrip
import Waymark.Resolving
import Waymark.Route
import Waymark.Route.Shortcut
import Waymark.Search
import Waymark.Session
import Waymark.Session.Script
import Waymark.Snapshot
import Waymark.Snapshot.Recovery
import Waymark.Span
import Waymark.Text.Alphabetic
import Waymark.Text.Alphanumeric
import Waymark.Text.Blank
import Waymark.Text.Bytes
import Waymark.Text.CharClass
import Waymark.Text.Hex
import Waymark.Text.Numeric
import Waymark.Text.Quoted
import Waymark.Text.Unseen
import Waymark.Tree
import Waymark.Tree.Declaration
import Waymark.Tree.Edit
import Waymark.Tree.Reader
import Waymark.Tree.Scanner
import Waymark.TypeRegistry
import Waymark.Wire.Decoder
import Waymark.Wire.Listing
import Waymark.Wire.Locator
import Waymark.Wire.Settings
