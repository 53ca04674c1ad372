import YamlOutline.Main
import YamlOutline.Proofs.Session.Editing
import YamlOutline.Proofs.Session.Freshness
import YamlOutline.Proofs.Session.Keyboard
import YamlOutline.Proofs.Files.Writing
import YamlOutline.Proofs.Buffer.Resaving
import YamlOutline.Proofs.Buffer.Committing
import YamlOutline.Proofs.Session.Draining
import YamlOutline.Proofs.Session.Keeping
import YamlOutline.Proofs.Text.Blank
import YamlOutline.Proofs.Summary.Reading
import YamlOutline.Proofs.Summary.Printing
import YamlOutline.Proofs.Outline.Titles
import YamlOutline.Proofs.Summary.Realignment
import YamlOutline.Proofs.Summary.Pinning
import YamlOutline.Proofs.Tracker.Callbacks
import YamlOutline.Proofs.Syntax.Leaves
import YamlOutline.Proofs.Syntax.Places
import YamlOutline.Proofs.Node.Spans
import YamlOutline.Proofs.Workspace.Recording
import YamlOutline.Proofs.Session.Reopening
import YamlOutline.Proofs.Session.CursorLine
import YamlOutline.Proofs.Session.Selection
import YamlOutline.Proofs.Reparse.Excerpts
import YamlOutline.Proofs.Outline.Nesting
import YamlOutline.Proofs.Files.Language
import YamlOutline.Proofs.Session.Reporting
import YamlOutline.Proofs.Summary.Nesting
import YamlOutline.Proofs.Summary.Locality
import YamlOutline.Proofs.Node.Ends
import YamlOutline.Proofs.Node.Levels
import YamlOutline.Proofs.Node.Quoting
import YamlOutline.Proofs.Document.Positions
import YamlOutline.Proofs.Session.Loading
import YamlOutline.Proofs.Session.Resaving
import YamlOutline.Proofs.Session.Listing
import YamlOutline.Proofs.Session.Exploring
import YamlOutline.Proofs.Outline.Branches
import YamlOutline.Proofs.Files.Overlap
import YamlOutline.Proofs.Syntax.Faults
import YamlOutline.Proofs.Text.Glyph
import YamlOutline.Proofs.Screen.Preview
